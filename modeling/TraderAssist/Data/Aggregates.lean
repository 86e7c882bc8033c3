/-
TraderAssist/Data/Aggregates.lean

Higher-timeframe rows are complete and exact.

An aggregate is made when the row that closes its bucket is new, and only then.  So a row that
comes after the closing row of its bucket completes the bucket and no aggregate is made; and where rows are
committed one by one, a stop between the closing row and its aggregate loses the
aggregate, since the retry finds the row stored.  Where neither happens (`InTime`), the
aggregates are those of the complete buckets, with their values (`Aggregated`).
-/
import TraderAssist.Data.Lineage

namespace TraderAssist

open Py ClosedBarStore DataAuthority

variable {δ : Type} {store store' : ClosedBarStore δ} {bar : ClosedBar δ} {m : Text} {start : ℕ}
  {interval : Interval}

/-! ### Complete buckets -/

/-- The 5m rows of an aligned bucket, if all are stored. -/
def bucket (store : ClosedBarStore δ) (m : Text) (interval : Interval) (start : ℕ) :
    Option (List (ClosedBar δ)) :=
  if start % interval.ms = 0 then store.members m start interval.sources else none

/-- There is an aggregate at `start` if the bucket is complete, with its values. -/
def AggregatedAt (store : ClosedBarStore δ) (interval : Interval) (m : Text) (start : ℕ) : Prop :=
  (store.bar? m interval start).map ClosedBar.values = (bucket store m interval start).bind bucketValues

/-- **The aggregates are those of the complete buckets.** -/
def Aggregated (store : ClosedBarStore δ) : Prop :=
  ∀ interval m start, interval ≠ .m5 → AggregatedAt store interval m start

/-- `AggregatedAt` reads the 5m rows and those of the interval. -/
theorem AggregatedAt.congr (h : AggregatedAt store interval m start)
    (hfives : ∀ o, store'.bar? m .m5 o = store.bar? m .m5 o)
    (hrow : store'.bar? m interval start = store.bar? m interval start) :
    AggregatedAt store' interval m start := by
  rw [AggregatedAt, bucket, members_congr fun _ _ => hfives _, hrow]
  exact h

/-- The table between a 5m row and its aggregate: the bucket that the row closes has none. -/
structure Awaiting (interval : Interval) (bar : ClosedBar δ) (store : ClosedBarStore δ) : Prop where
  others : ∀ m start, ¬(m = bar.marketId ∧ Closes interval start bar.openTimeMs) →
    AggregatedAt store interval m start
  missing : ∀ start, Closes interval start bar.openTimeMs →
    store.bar? bar.marketId interval start = none

theorem Awaiting.congr (h : Awaiting interval bar store)
    (hfives : ∀ m o, store'.bar? m .m5 o = store.bar? m .m5 o)
    (hrows : ∀ m o, store'.bar? m interval o = store.bar? m interval o) : Awaiting interval bar store' :=
  ⟨fun m start hne => (h.others m start hne).congr (hfives m) (hrows m start),
    fun start hcls => (hrows _ _).trans (h.missing start hcls)⟩

/-- Nothing to do where the bucket is not complete. -/
theorem Awaiting.done (h : Awaiting interval bar store)
    (hnone : ∀ start, Closes interval start bar.openTimeMs →
      store.members bar.marketId start interval.sources = none) :
    ∀ m start, AggregatedAt store interval m start := by
  intro m start
  by_cases hkey : m = bar.marketId ∧ Closes interval start bar.openTimeMs
  · obtain ⟨rfl, hcls⟩ := hkey
    rw [AggregatedAt, h.missing start hcls, bucket, if_pos hcls.1, hnone start hcls]
    rfl
  · exact h.others m start hkey

/-- The row at `o`, if it is new, does not come after the closing row of its bucket. -/
def NotLate (store : ClosedBarStore δ) (m : Text) (o : ℕ) : Prop :=
  ¬store.Has m o → ∀ (interval : Interval) start, interval ≠ .m5 → start % interval.ms = 0 → start ≤ o →
    o < start + interval.ms → ¬store.Has m (start + (interval.sources - 1) * fiveMinutesMs)

variable [DecidableEq δ] {R : RegistryRoot δ} {sha256 : EvidencePreimage δ → δ} {s : DataAuthority δ}
  {binding : RegistryVersion} {finality : δ} {cache : Option (WindowCache δ)} {cut : Option ℕ}

omit [DecidableEq δ] in
/-- **A 5m row that is not late**: only the bucket that it closes is without its aggregate. -/
theorem Aggregated.awaiting (h : Aggregated store) (hiv : interval ≠ .m5)
    (hrows : store'.rows = store.rows ++ [evidenceRow R bar binding finality])
    (hnew : store.row? bar.key = none) (hfive : bar.interval = .m5)
    (hlate : NotLate store bar.marketId bar.openTimeMs) : Awaiting interval bar store' := by
  have hsame : ∀ m o, store'.bar? m interval o = store.bar? m interval o := by
    intro m o
    rw [bar?_of_rows hrows hnew, if_neg]
    exact fun hkey => hiv ((interval_of_key hkey).symm.trans hfive)
  have hhas : ¬store.Has bar.marketId bar.openTimeMs := by
    rw [Has, bar?, ← hfive]
    rw [ClosedBar.key] at hnew
    rw [hnew]
    exact Bool.false_ne_true
  have hfives := addsFive_of_rows hfive hnew hrows
  have hlt := Nat.sub_one_lt (Nat.ne_of_gt interval.sources_pos)
  refine ⟨fun m start hne => ?_, fun start hcls => ?_⟩
  · rw [AggregatedAt, hsame]
    refine (h interval m start hiv).trans ?_
    rw [bucket, bucket]
    by_cases hal : start % interval.ms = 0
    · rw [if_pos hal, if_pos hal]
      congr 1
      by_cases hin : m = bar.marketId ∧ ∃ i < interval.sources, start + i * fiveMinutesMs = bar.openTimeMs
      · -- the row is in the bucket and does not close it: the closing row is missing
        obtain ⟨rfl, i, hi, hopen⟩ := hin
        have hlast := hlate hhas interval start hiv hal (hopen ▸ Nat.le_add_right _ _) (by
          rw [← hopen, Interval.ms_eq]
          exact Nat.add_lt_add_left ((Nat.mul_lt_mul_right (by decide)).mpr hi) _)
        rw [members_eq_none hlt hlast, members_eq_none hlt]
        rw [hfives.has]
        rintro (hst | ⟨-, heq⟩)
        · exact hlast hst
        · exact hne ⟨rfl, hal, heq⟩
      · refine (members_congr fun i hi => ?_).symm
        rw [hfives, if_neg fun hkey => hin ⟨hkey.1, i, hi, hkey.2⟩, Option.or_none]
    · rw [if_neg hal, if_neg hal]
  · have hat := h interval bar.marketId start hiv
    have hnone : store.members bar.marketId start interval.sources = none := by
      refine members_eq_none hlt ?_
      rw [hcls.2]
      exact hhas
    rw [AggregatedAt, bucket, if_pos hcls.1, hnone] at hat
    rw [hsame]
    exact Option.map_eq_none_iff.mp hat

/-! ### Turns of the aggregate loop -/

/-- What a turn of the aggregate loop starts from. -/
structure Closing (interval : Interval) (bar : ClosedBar δ) (cache : Option (WindowCache δ))
    (s : DataAuthority δ) : Prop where
  awaiting : Awaiting interval bar s.store
  stored : s.store.bar? bar.marketId .m5 bar.openTimeMs = some bar
  served : ∀ c ∈ cache, Served ClosedBar.SameCandleContents s.store c

/-- The volume of every run of bars, stored ones or among `bars`, can be written. -/
def Writable (store : ClosedBarStore δ) (m : Text) (bars : List (ClosedBar δ)) : Prop :=
  ∀ (interval : Interval) (w : List (ClosedBar δ)), w.length = interval.sources →
    (∀ b ∈ w, store.bar? m .m5 b.openTimeMs = some b ∨ b ∈ bars) →
    wireDecimal (csum (w.map fun b => b.values.volume))

/-- **A turn of the aggregate loop** makes the aggregate of the bucket that the row closes, if it is complete.
`single` says that the row was committed: then the turn is not to be interrupted. -/
theorem Closing.persistAggregate {single : Prop} (h : Closing interval bar cache s)
    (hiv : interval ≠ .m5) (hcut : single → cut ≠ some (aggregateWrite interval))
    (hwrt : single → Writable s.store bar.marketId []) :
    Ends (persistAggregate R sha256 bar binding cache cut interval) s
      (fun _ s' => (∀ m start, AggregatedAt s'.store interval m start)
        ∧ ∀ m j o, j ≠ interval → s'.store.bar? m j o = s.store.bar? m j o)
      fun _ s' => single → s' = s ∧ ∀ start, Closes interval start bar.openTimeMs →
        s.store.members bar.marketId start interval.sources = none := by
  refine persistAggregate_rule (V := ClosedBar.SameCandleContents) (fun b => ⟨rfl, rfl, rfl⟩)
    (fun a b hab => hab.1) hiv h.served h.stored
    (Q := fun s' => (∀ m start, AggregatedAt s'.store interval m start)
      ∧ ∀ m j o, j ≠ interval → s'.store.bar? m j o = s.store.bar? m j o)
    (fun hstop hsgl => absurd hstop (hcut hsgl))
    (fun hnone => ⟨⟨h.awaiting.done hnone, fun _ _ _ _ => rfl⟩, fun _ _ => ⟨rfl, hnone⟩⟩)
    (fun start first rest w hcls hw hall hinv hsgl => ?_)
    fun start u w a hcls hw hall hmade => ?_
  · -- the volume can be written, so the aggregate is valid
    refine absurd (mergedValues_valid ?_) hinv
    have hvols : (first :: rest).map (fun b => b.values.volume) = w.map fun b => b.values.volume :=
      map_eq_of_forall₂ (hall.imp fun a b hab => congrArg BarValues.volume hab.2.2)
    rw [hvols]
    refine hwrt hsgl interval w (length_members hw) fun b hb => .inl ?_
    obtain ⟨i, -, hbar⟩ := (mem_members hw).mp hb
    rw [(bar?_fields hbar).2.2]
    exact hbar
  · obtain ⟨-, first, rest, heq, -, -, -, hkey, hvals, -⟩ := aggregateClosed5m_ok hmade
    obtain ⟨-, hmkt, -, hhead⟩ := run_of_members (hall.imp fun _ _ hab => hab.1) hw
    have hfst : first.marketId = bar.marketId := (hmkt first (heq ▸ List.mem_cons_self)).1
    have hbeg : first.openTimeMs = start := hhead first (heq ▸ rfl)
    rw [hfst, hbeg] at hkey
    -- the bucket has no aggregate yet, so there is no duplicate
    have hnone : s.store.row? a.key = none := by
      rw [hkey]
      exact Option.map_eq_none_iff.mp (h.awaiting.missing start hcls)
    refine put_rule (fun prior hpri _ => ?_) (fun prior hpri _ => ?_) fun hnew store' hrows => ?_
    · rw [hnone] at hpri
      cases hpri
    · rw [hnone] at hpri
      cases hpri
    have hbars : ∀ m j o, store'.bar? m j o
        = if (bar.marketId, interval, start) = (m, j, o) then some a else s.store.bar? m j o := by
      intro m j o
      rw [bar?_of_rows hrows hnew, ← hkey]
      rfl
    have hoths : ∀ m j o, j ≠ interval → store'.bar? m j o = s.store.bar? m j o := by
      intro m j o hj
      rw [hbars, if_neg]
      intro heq
      exact hj (congrArg (fun k => k.2.1) heq).symm
    refine ⟨fun m start' => ?_, hoths⟩
    by_cases hthis : m = bar.marketId ∧ Closes interval start' bar.openTimeMs
    · obtain ⟨rfl, hcls'⟩ := hthis
      obtain rfl := hcls.unique hcls'
      have hmems : store'.members bar.marketId start interval.sources = some w := by
        rw [members_congr fun i _ => hoths _ _ _ (Ne.symm hiv)]
        exact hw
      show (store'.bar? bar.marketId interval start).map ClosedBar.values
        = (bucket store' bar.marketId interval start).bind bucketValues
      rw [hbars, if_pos rfl, bucket, if_pos hcls.1, hmems]
      show some a.values = bucketValues w
      rw [← bucketValues_congr (hall.imp fun _ _ hab => hab.2.2), heq, hvals]
      rfl
    · refine (h.awaiting.others m start' hthis).congr (fun o => hoths _ _ _ (Ne.symm hiv)) ?_
      rw [hbars, if_neg]
      intro heq
      rw [Prod.mk.injEq, Prod.mk.injEq] at heq
      exact hthis ⟨heq.1.symm, heq.2.2 ▸ hcls⟩

omit [DecidableEq δ] in
/-- A bucket of an hour that is complete is made of complete quarters. -/
theorem members_h1_none (h : ∀ start, Closes .m15 start bar.openTimeMs →
    store.members bar.marketId start Interval.m15.sources = none) : ∀ start, Closes .h1 start bar.openTimeMs →
      store.members bar.marketId start Interval.h1.sources = none := by
  intro start hcls
  have hqtr : Closes .m15 (start + 9 * fiveMinutesMs) bar.openTimeMs := by
    constructor
    · have := hcls.1
      simp only [Interval.ms, fiveMinutesMs] at this ⊢
      omega
    · rw [← hcls.2, Nat.add_assoc, ← Nat.add_mul]
      rfl
  have hnone := h _ hqtr
  rw [← Option.not_isSome_iff_eq_none, isSome_members] at hnone ⊢
  intro hall
  refine hnone fun i hi => ?_
  have hi' : 9 + i < Interval.h1.sources := Nat.add_lt_add_left hi 9
  have := hall (9 + i) hi'
  rwa [Nat.add_mul, ← Nat.add_assoc] at this

/-- **A row keeps the aggregates complete.** -/
theorem Aggregated.admitRow {single : Prop} (h : Aggregated s.store) (hfive : bar.interval = .m5)
    (hsrv : ∀ c ∈ cache, Served ClosedBar.SameCandleContents s.store c)
    (hlate : NotLate s.store bar.marketId bar.openTimeMs) (hcut : single → cut ≠ some 1 ∧ cut ≠ some 2)
    (hwrt : single → Writable s.store bar.marketId [bar]) :
    Ends (admitRow R sha256 bar binding finality cache cut) s (fun _ s' => Aggregated s'.store)
      fun _ s' => single → Aggregated s'.store := by
  refine (admitRow_rule (Q := fun s' => Aggregated s'.store) (E := fun s' => single → Aggregated s'.store)
    (fun _ => h) (fun _ => h) (fun _ _ _ => h) fun hnew store' hrows => ?_).mono (fun _ _ h => h.1) fun _ _ h => h
  have hfives := addsFive_of_rows hfive hnew hrows
  have hqtr : Closing .m15 bar cache ({ s with store := store' }.advance bar) := by
    exact ⟨h.awaiting (by decide) hrows hnew hfive hlate, bar?_added hfive hnew hrows,
      fun c hc => (hsrv c hc).mono fun _ _ _ hb => hfives.kept hb⟩
  have hhour : Awaiting .h1 bar store' := h.awaiting (by decide) hrows hnew hfive hlate
  have hwrt' : single → Writable store' bar.marketId [] := by
    intro hsgl interval w hlen hw
    refine hwrt hsgl interval w hlen fun b hb => ?_
    have hst := (hw b hb).resolve_right (List.not_mem_nil)
    rw [hfives] at hst
    rcases hold : s.store.bar? bar.marketId .m5 b.openTimeMs with - | c
    · rw [hold] at hst
      have hsome : (if bar.marketId = bar.marketId ∧ b.openTimeMs = bar.openTimeMs then some bar else none)
        = some b := hst
      split_ifs at hsome
      exact .inr (List.mem_singleton.mpr (Option.some.inj hsome).symm)
    · rw [hold] at hst
      exact .inl hst
  rw [persistAggregates, ends_bind]
  refine (hqtr.persistAggregate (by decide) (fun hsgl => (hcut hsgl).1) hwrt').mono
    (fun _ s₁ hdone => ?_) fun _ s₁ h₁ hsgl => ?_
  · -- the hour
    obtain ⟨hm15, hsame⟩ := hdone
    have hclsg : Closing .h1 bar cache s₁ := by
      refine ⟨hhour.congr (fun m o => hsame m _ o (by decide)) fun m o => hsame m _ o (by decide), ?_,
        fun c hc => (hqtr.served c hc).mono fun m o b hb => ?_⟩
      · rw [hsame _ _ _ (by decide)]
        exact hqtr.stored
      · rw [hsame _ _ _ (by decide)]
        exact hb
    have hwrt₁ : single → Writable s₁.store bar.marketId [] := by
      intro hsgl interval w hlen hw
      refine hwrt' hsgl interval w hlen fun b hb => (hw b hb).imp_left fun hst => ?_
      rw [hsame _ _ _ (by decide)] at hst
      exact hst
    refine (hclsg.persistAggregate (by decide) (fun hsgl => (hcut hsgl).2) hwrt₁).mono
      (fun _ s₂ hdone => ?_) fun _ s₂ h₂ hsgl => ?_
    · obtain ⟨hh1, hsame'⟩ := hdone
      rintro (- | - | -) m start hne
      · exact absurd rfl hne
      · exact (hm15 m start).congr (fun o => hsame' m _ o (by decide)) (hsame' m _ _ (by decide))
      · exact hh1 m start
    · obtain ⟨rfl, hnone⟩ := h₂ hsgl
      rintro (- | - | -) m start hne
      · exact absurd rfl hne
      · exact hm15 m start
      · exact hclsg.awaiting.done hnone m start
  · obtain ⟨rfl, hnone⟩ := h₁ hsgl
    rintro (- | - | -) m start hne
    · exact absurd rfl hne
    · exact hqtr.awaiting.done hnone m start
    · exact hhour.done (members_h1_none hnone) m start

/-! ### Calls -/

/-- While a call admits its rows. -/
structure Completing (single : Prop) (before : DataAuthority δ) (m : Text) (accepted : List (ClosedBar δ))
    (l : List (Arrival δ)) (cache : WindowCache δ) (s : DataAuthority δ) : Prop where
  turn : InTurn before.store m l s.store
  mode : single ∨ s.registry = before.registry
  coming : ∀ a ∈ l, a.bar ∈ accepted ∧ (single → a.cut ≠ some 1 ∧ a.cut ≠ some 2)
  origin : ∀ o b, s.store.bar? m .m5 o = some b → before.store.bar? m .m5 o = some b ∨ b ∈ accepted
  served : Served ClosedBar.SameCandleContents s.store cache
  aggregated : Aggregated s.store

namespace Completing

variable {single : Prop} {before : DataAuthority δ} {accepted : List (ClosedBar δ)} {a : Arrival δ}
  {l : List (Arrival δ)} {cache : WindowCache δ}

section

variable (h : Completing single before m accepted (a :: l) cache s)
include h

omit [DecidableEq δ] in
/-- Within a call the rows come in order, so none is late that was not before the call. -/
theorem notLate (hlate : ∀ b ∈ accepted, NotLate before.store m b.openTimeMs) :
    NotLate s.store a.bar.marketId a.bar.openTimeMs := by
  obtain ⟨hmkt, -⟩ := h.turn.arrivals a (.head _)
  rw [hmkt]
  intro hnew interval start hiv hal hle hlt hlast
  have hnew₀ : ¬before.store.Has m a.bar.openTimeMs := by
    intro hbef
    obtain ⟨b, hb⟩ := Option.isSome_iff_exists.mp hbef
    exact hnew (Option.isSome_iff_exists.mpr ⟨b, h.turn.kept _ b hb⟩)
  rcases h.turn.sorted _ hlast with hbef | hsrt
  · exact hlate a.bar (h.coming a (.head _)).1 hnew₀ interval start hiv hal hle hlt hbef
  · -- the closing row would be this one
    have hsrt := hsrt a (.head _)
    have hgrid : fiveMinutesMs ∣ start := by
      refine Nat.dvd_trans ?_ (Nat.dvd_of_mod_eq_zero hal)
      rw [Interval.ms_eq]
      exact Nat.dvd_mul_left _ _
    have hopen : fiveMinutesMs ∣ a.bar.openTimeMs := by
      have hal := a.bar.aligned
      rw [(h.turn.arrivals a (.head _)).2] at hal
      exact Nat.dvd_of_mod_eq_zero hal
    have hend : a.bar.openTimeMs + fiveMinutesMs ≤ start + interval.ms := by
      refine add_step_le hopen ((Nat.dvd_add_right hgrid).mpr ?_) hlt
      rw [Interval.ms_eq]
      exact Nat.dvd_mul_left _ _
    refine hnew ?_
    have heq : start + (interval.sources - 1) * fiveMinutesMs = a.bar.openTimeMs := by
      obtain ⟨n, hn⟩ := Nat.exists_eq_succ_of_ne_zero (Nat.ne_of_gt interval.sources_pos)
      rw [Interval.ms_eq, hn, Nat.succ_mul] at hend
      rw [hn, Nat.succ_sub_one] at hsrt ⊢
      omega
    rwa [← heq]

omit [DecidableEq δ] in
theorem writable (hwrt : Writable before.store m accepted) : Writable s.store a.bar.marketId [a.bar] := by
  obtain ⟨hmkt, -⟩ := h.turn.arrivals a (.head _)
  intro interval w hlen hw
  refine hwrt interval w hlen fun b hb => ?_
  rcases hw b hb with hst | hmem
  · rw [hmkt] at hst
    exact h.origin _ b hst
  · rw [List.mem_singleton.mp hmem]
    exact .inr (h.coming a (.head _)).1

end

/-- **A row of the call.** -/
theorem row (hsha : Function.Injective sha256) (h : Completing single before m accepted (a :: l) cache s)
    (hlate : ∀ b ∈ accepted, NotLate before.store m b.openTimeMs)
    (hwrt : single → Writable before.store m accepted) :
    Ends (admitRow R sha256 a.bar binding finality (some cache) a.cut) s
      (fun r s' => Completing single before m accepted l (r.2.getD cache) s')
      fun _ s' => single → Aggregated s'.store := by
  obtain ⟨hmkt, hiv⟩ := h.turn.arrivals a (.head _)
  obtain ⟨hacc, hcut⟩ := h.coming a (.head _)
  have hrow : Ends (admitRow R sha256 a.bar binding finality (some cache) a.cut) s
      (fun _ s' => Aggregated s'.store) fun _ s' => single → Aggregated s'.store :=
    h.aggregated.admitRow hiv h.served.of_mem_some (h.notLate hlate) hcut fun hsgl => h.writable (hwrt hsgl)
  refine ((hrow.and (admitRow_contents hsha hiv)).and (admitRow_effect hiv)).mono ?_ fun _ _ h => h.1.1
  rintro ⟨inserted, next⟩ s' ⟨⟨haggd, hstnd⟩, hadd, rfl⟩
  refine ⟨h.turn.added hadd.fives, ?_, fun b hb => h.coming b (.tail _ hb),
    fun o b hb => ?_, ?_, haggd⟩
  · rw [hadd.registry]
    exact h.mode
  · rw [hadd.fives] at hb
    rcases hold : s.store.bar? m .m5 o with - | c
    · rw [hold] at hb
      have hsome : (if m = a.bar.marketId ∧ o = a.bar.openTimeMs then some a.bar else none) = some b := hb
      split_ifs at hsome
      exact .inr (Option.some.inj hsome ▸ hacc)
    · rw [hold] at hb
      exact h.origin o b (hold.trans hb)
  · exact (h.served.mono fun _ _ _ hb => hadd.fives.kept hb).track (.inl hstnd)

end Completing

/-- What a call needs.  No accepted bar is late; and where the rows are committed one by one,
the aggregates can be written, and no admission is interrupted between its commits. -/
def InTime (R : RegistryRoot δ) (sha256 : EvidencePreimage δ → δ) (s : DataAuthority δ) : DataEvent δ → Prop
  | .admitRestHistory market snapshot receivedAt cuts =>
    ∀ accepted, acceptedHistory sha256 market snapshot receivedAt = .ok accepted →
      (∀ b ∈ accepted, NotLate s.store market.marketId b.openTimeMs)
        ∧ (R.pendingVersion s.registry ≠ .ok none → (∀ i, cuts i ≠ some 1 ∧ cuts i ≠ some 2)
          ∧ Writable s.store market.marketId accepted)
  | .confirmWsCandidate market c cut =>
    ∀ payload bar, c.exactPayload = some payload →
      providerBar sha256 market payload c.receivedAt "hyperliquid-public-candleSnapshot-final".toList = .ok bar →
      NotLate s.store market.marketId bar.openTimeMs ∧ (cut ≠ some 1 ∧ cut ≠ some 2)
        ∧ Writable s.store market.marketId [bar]
  | .offerWsCandidate .. | .discardWsCandidate .. | .registry _ | .restart => True

theorem Aggregated.admitRestHistory (hsha : Function.Injective sha256) (h : Aggregated s.store)
    {market : RegistryMarket} {snapshot : List Payload} {receivedAt : Option Datetime} {cuts : ℕ → Option ℕ}
    (hcall : InTime R sha256 s (.admitRestHistory market snapshot receivedAt cuts)) :
    Aggregated (after (admitRestHistory R sha256 market snapshot receivedAt cuts) s).store := by
  refine admitRestHistory_rule (E := fun s' => Aggregated s'.store) h fun accepted hacc => ?_
  obtain ⟨harr, hsrt⟩ := arrivals_ok cuts hacc
  obtain ⟨hlate, hsgl⟩ := hcall accepted hacc
  refine ⟨_, Completing (R.pendingVersion s.registry ≠ .ok none) s market.marketId accepted,
    ⟨fun h₁ hpend => ?_, fun h₁ => h₁.turn.arrivals, fun _ h₁ => h₁.aggregated,
      fun _ h₁ => h₁.aggregated, fun h₁ h₂ => ?_,
      fun hs d h₁ => ⟨h₁.turn, .inl hs, h₁.coming, h₁.origin, h₁.served, h₁.aggregated⟩,
      fun h₁ _ => h₁.row hsha hlate fun hs => (hsgl hs).2⟩,
    ⟨.init harr hsrt, .inr rfl, fun a ha => ?_, fun o b hb => .inl hb, .empty, h⟩, fun _ s₁ h₁ => ?_⟩
  · rcases h₁.mode with hsgl | hreg
    · exact hsgl
    · rw [← hreg]
      exact hpend
  · rw [h₂.store]
    exact h₁.aggregated
  · obtain ⟨hbar, i, hcut⟩ := mem_arrivals ha
    exact ⟨hbar, fun hs => hcut ▸ (hsgl hs).1 i⟩
  · rw [clearFailure_store]
    exact h₁.aggregated

theorem Aggregated.confirmWsCandidate (h : Aggregated s.store) {market : RegistryMarket}
    {c : Confirmation δ} {cut : Option ℕ} (hcall : InTime R sha256 s (.confirmWsCandidate market c cut)) :
    Aggregated (after (confirmWsCandidate R sha256 market c cut) s).store := by
  refine after_of_ends (confirmWsCandidate_rule (E := fun s' => Aggregated s'.store) h
    fun payload bar hpay hbar => ?_)
  obtain ⟨hmkt, hiv, -⟩ := providerBar_ok hbar
  obtain ⟨hlate, hcut, hwrt⟩ := hcall payload bar hpay hbar
  rw [← hmkt] at hlate hwrt
  refine admitBar_rule (Q := fun _ s' => Aggregated s'.store) h h fun _ binding => ?_
  exact Ends.mono (Aggregated.admitRow h hiv (fun _ hc => by cases hc) hlate (fun _ : True => hcut)
    fun _ => hwrt) (fun _ s₁ h₁ d => ⟨h₁, h₁⟩) fun _ _ h => h trivial

/-- A step keeps the aggregates complete. -/
theorem Aggregated.step (hsha : Function.Injective sha256) (h : Aggregated s.store) (e : DataEvent δ)
    (he : InTime R sha256 s e) : Aggregated (step R sha256 s e).store := by
  refine step_rule (P := fun s' => Aggregated s'.store) h e (fun _ _ => h) ?_ ?_ fun s' _ hbeg => ?_
  · rintro market snapshot receivedAt cuts rfl
    exact h.admitRestHistory hsha he
  · rintro market c cut rfl
    exact h.confirmWsCandidate he
  · rw [start_store hbeg]
    exact h

/-- **Higher-timeframe rows are complete and exact**: after any calls in time, stops and new
processes, there is an aggregate at `start` if and only if the bucket is aligned and
complete, and it has the values of the bucket. -/
theorem aggregates_complete_and_exact (hsha : Function.Injective sha256) {registry : RegistryDisk δ}
    {events : List (DataEvent δ)} (hstart : DataAuthority.start R {} registry = .ok s)
    (hcalls : Along (DataAuthority.step R sha256) (InTime R sha256) s events)
    {interval : Interval} (hinterval : interval ≠ .m5) (m : Text) (start : ℕ) :
    ((run R sha256 s events).store.bar? m interval start).map ClosedBar.values
      = (bucket (run R sha256 s events).store m interval start).bind bucketValues := by
  have hempty : Aggregated s.store := by
    rw [start_empty hstart]
    intro interval m start _
    show none = (bucket ({} : ClosedBarStore δ) m interval start).bind bucketValues
    rw [bucket, members_eq_none interval.sources_pos fun hhas => by cases hhas]
    split_ifs
    · rfl
    · rfl
  exact hcalls.invariant (I := fun s => Aggregated s.store) (fun s e h he => h.step hsha e he) hempty
    interval m start hinterval

open EvidenceTerm in
/-- A row that comes after the closing row of its bucket: both calls return, the bucket is complete, and
there is no aggregate. -/
theorem late_row_without_aggregate :
    DataAuthority.start registryRoot {} activeFiles = .ok { registry := activeFiles }
      ∧ raised (DataAuthority.admitRestHistory registryRoot EvidenceTerm.sha256 market [candle 1, candle 2]
        (some version.createdAt) fun _ => none) { registry := activeFiles } = none
      ∧ raised (DataAuthority.admitRestHistory registryRoot EvidenceTerm.sha256 market [candle 0]
        (some version.createdAt) fun _ => none) (run registryRoot EvidenceTerm.sha256 { registry := activeFiles }
        [.admitRestHistory market [candle 1, candle 2] (some version.createdAt) fun _ => none]) = none
      ∧ (bucket (run registryRoot EvidenceTerm.sha256 { registry := activeFiles }
        [.admitRestHistory market [candle 1, candle 2] (some version.createdAt) fun _ => none,
          .admitRestHistory market [candle 0] (some version.createdAt) fun _ => none]).store
        market.marketId .m15 0).isSome
      ∧ (run registryRoot EvidenceTerm.sha256 { registry := activeFiles }
        [.admitRestHistory market [candle 1, candle 2] (some version.createdAt) fun _ => none,
          .admitRestHistory market [candle 0] (some version.createdAt) fun _ => none]).store.bar?
        market.marketId .m15 0 = none := by
  refine ⟨start_activeFiles, ?_⟩
  decide +kernel

open EvidenceTerm in
/-- The rows of a bucket in order. -/
theorem aggregates_complete_and_exact_quarter :
    let s := run registryRoot EvidenceTerm.sha256 { registry := activeFiles }
      [.admitRestHistory market [candle 0, candle 1, candle 2] (some version.createdAt) fun _ => none]
    (bucket s.store market.marketId .m15 0).isSome
      ∧ (s.store.bar? market.marketId .m15 0).map ClosedBar.values
        = (bucket s.store market.marketId .m15 0).bind bucketValues := by
  refine ⟨by decide +kernel, aggregates_complete_and_exact sha256_injective start_activeFiles ?_ (by decide) _ _⟩
  refine And.intro (fun accepted _ => ⟨fun b _ _ _ _ _ _ _ _ hhas => ?_, fun hpending => ?_⟩) trivial
  · cases hhas
  · have hnone : registryRoot.pendingVersion activeFiles = .ok none := by decide +kernel
    exact absurd hnone hpending

end TraderAssist
