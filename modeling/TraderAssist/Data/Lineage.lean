/-
TraderAssist/Data/Lineage.lean

The lineage of aggregates.

An aggregate names the canonical hashes of its sources.  A row that is delivered again with
other receipt metadata is a duplicate and is not stored, but it enters the rolling tail of the
call: an aggregate that is made with it names a hash that no stored row has.  Where no such row lies
in a bucket that the call closes (`NoStrangers`), every aggregate names the stored members of
its bucket.
-/
import TraderAssist.Data.Buckets
import TraderAssist.Data.Gaps

namespace TraderAssist

open Py ClosedBarStore DataAuthority

variable {δ : Type} {store store' : ClosedBarStore δ} {bar : ClosedBar δ} {m : Text}
  {sha256 : EvidencePreimage δ → δ}

/-- Every aggregate names the hashes of the stored members of its bucket. -/
def Lineage (sha256 : EvidencePreimage δ → δ) (store : ClosedBarStore δ) : Prop :=
  ∀ m interval start b, interval ≠ .m5 → store.bar? m interval start = some b →
    ∃ w, store.members m start interval.sources = some w
      ∧ b.provenanceHash = sha256 (.sources (w.map (ClosedBar.canonicalHash sha256)) interval)

/-- A row that is appended: a 5m row, or an aggregate that names its sources. -/
theorem Lineage.append {row : EvidenceRow δ} (h : Lineage sha256 store)
    (hrows : store'.rows = store.rows ++ [row]) (hnew : store.row? row.bar.key = none)
    (hrow : row.bar.interval ≠ .m5 → ∃ w,
      store.members row.bar.marketId row.bar.openTimeMs row.bar.interval.sources = some w
        ∧ row.bar.provenanceHash
          = sha256 (.sources (w.map (ClosedBar.canonicalHash sha256)) row.bar.interval)) :
    Lineage sha256 store' := by
  intro m interval start b hiv hb
  have hkept : ∀ o b, store.bar? m .m5 o = some b → store'.bar? m .m5 o = some b :=
    fun o b hb => bar?_kept hrows hnew hb
  rw [bar?_of_rows hrows hnew] at hb
  by_cases hkey : row.bar.key = (m, interval, start)
  · rw [if_pos hkey] at hb
    cases hb
    obtain ⟨rfl, rfl, rfl⟩ := hkey
    obtain ⟨w, hw, hprov⟩ := hrow hiv
    exact ⟨w, members_mono hkept hw, hprov⟩
  · rw [if_neg hkey] at hb
    obtain ⟨w, hw, hprov⟩ := h m interval start b hiv hb
    exact ⟨w, members_mono hkept hw, hprov⟩

/-! ### Rows -/

/-- Bars of one key, with one hash where it matters. -/
def SameSource (sha256 : EvidencePreimage δ → δ) (M : ℕ → Prop) (a b : ClosedBar δ) : Prop :=
  a.key = b.key ∧ (M a.openTimeMs → a.canonicalHash sha256 = b.canonicalHash sha256)

variable [DecidableEq δ] {R : RegistryRoot δ} {s : DataAuthority δ} {binding : RegistryVersion}
  {finality : δ} {cache : Option (WindowCache δ)} {cut : Option ℕ} {M : ℕ → Prop}
  {interval : Interval}

/-- What a turn of the aggregate loop starts from. -/
structure Traced (sha256 : EvidencePreimage δ → δ) (M : ℕ → Prop) (bar : ClosedBar δ)
    (cache : Option (WindowCache δ)) (s : DataAuthority δ) : Prop where
  lineage : Lineage sha256 s.store
  stored : s.store.bar? bar.marketId .m5 bar.openTimeMs = some bar
  served : ∀ c ∈ cache, Served (SameSource sha256 M) s.store c

/-- **A turn of the aggregate loop** puts an aggregate that names the members. -/
theorem Traced.persistAggregate (h : Traced sha256 M bar cache s) (hiv : interval ≠ .m5)
    (hmatt : ∀ start o, Closes interval start bar.openTimeMs → start ≤ o → o ≤ bar.openTimeMs → M o) :
    Ends (persistAggregate R sha256 bar binding cache cut interval) s
      (fun _ s' => Traced sha256 M bar cache s') fun _ s' => Lineage sha256 s'.store := by
  refine persistAggregate_rule (V := SameSource sha256 M) (fun b => ⟨rfl, fun _ => rfl⟩)
    (fun a b hab => hab.1) hiv h.served h.stored (Q := Traced sha256 M bar cache)
    (fun _ => h.lineage) (fun _ => ⟨h, fun _ => h.lineage⟩) (fun _ _ _ _ _ _ _ _ => h.lineage) ?_
  intro start u w a hcls hw hall hmade
  refine put_rule (fun _ _ _ => h) (fun _ _ _ => h.lineage) fun hnew store' hrows => ?_
  obtain ⟨-, first, rest, heq, -, -, -, hkey, -, hprov, -⟩ := aggregateClosed5m_ok hmade
  have hkeys := hall.imp fun _ _ hab => hab.1
  obtain ⟨-, hmkt, -, hhead⟩ := run_of_members hkeys hw
  -- every source lies in the bucket, so its hash is that of the stored row
  have hhashes : u.map (ClosedBar.canonicalHash sha256) = w.map (ClosedBar.canonicalHash sha256) := by
    refine map_eq_of_forall₂ (List.forall₂_iff_zip.mpr ⟨hall.length_eq, fun {b c} hbc => ?_⟩)
    have hbc' := (List.forall₂_iff_zip.mp hall).2 hbc
    obtain ⟨i, hi, hst⟩ := (mem_members hw).mp (List.of_mem_zip hbc).2
    have hopen : b.openTimeMs = start + i * fiveMinutesMs :=
      (congrArg (fun k => k.2.2) hbc'.1).trans (bar?_fields hst).2.2
    refine hbc'.2 (hmatt start _ hcls (hopen ▸ Nat.le_add_right _ _) ?_)
    rw [hopen, ← hcls.2]
    exact Nat.add_le_add_left (Nat.mul_le_mul_right _ (Nat.le_sub_one_of_lt hi)) _
  rw [ClosedBar.key, Prod.mk.injEq, Prod.mk.injEq] at hkey
  have hfst : first.marketId = bar.marketId := (hmkt first (heq ▸ List.mem_cons_self)).1
  have hbeg : first.openTimeMs = start := hhead first (heq ▸ rfl)
  have hkept : ∀ m o b, s.store.bar? m .m5 o = some b → store'.bar? m .m5 o = some b :=
    fun m o b hb => bar?_kept hrows hnew hb
  refine ⟨h.lineage.append hrows hnew fun _ => ⟨w, ?_, ?_⟩, hkept _ _ _ h.stored, fun c hc => (h.served c hc).mono hkept⟩
  · show s.store.members a.marketId a.openTimeMs a.interval.sources = some w
    rw [hkey.1, hkey.2.1, hkey.2.2, hfst, hbeg]
    exact hw
  · show a.provenanceHash = sha256 (.sources _ a.interval)
    rw [hprov, hhashes, hkey.2.1]

/-- **A row keeps the lineage.** -/
theorem Lineage.admitRow (h : Lineage sha256 s.store) (hbar : bar.interval = .m5)
    (hsrv : ∀ c ∈ cache, Served (SameSource sha256 M) s.store c)
    (hmatt : s.store.row? bar.key = none → ∀ interval start o, interval ≠ .m5 →
      Closes interval start bar.openTimeMs → start ≤ o → o ≤ bar.openTimeMs → M o) :
    Ends (admitRow R sha256 bar binding finality cache cut) s (fun _ s' => Lineage sha256 s'.store)
      fun _ s' => Lineage sha256 s'.store := by
  refine (admitRow_rule (Q := fun s' => Lineage sha256 s'.store) (E := fun s' => Lineage sha256 s'.store)
    h h (fun _ _ _ => h) fun hnew store' hrows => ?_).mono (fun _ _ h => h.1) fun _ _ h => h
  have hkept : ∀ m o b, s.store.bar? m .m5 o = some b → store'.bar? m .m5 o = some b :=
    fun m o b hb => bar?_kept hrows hnew hb
  have htraced : Traced sha256 M bar cache ({ s with store := store' }.advance bar) := by
    exact ⟨h.append hrows hnew fun hne => absurd hbar hne, bar?_added hbar hnew hrows,
      fun c hc => (hsrv c hc).mono hkept⟩
  rw [persistAggregates, ends_bind]
  refine (htraced.persistAggregate (by decide) fun start o => hmatt hnew _ start o (by decide)).mono
    (fun _ s₁ h₁ => ?_) fun _ _ h => h
  exact (h₁.persistAggregate (by decide) fun start o => hmatt hnew _ start o (by decide)).mono
    (fun _ _ h => h.lineage) fun _ _ h => h

/-! ### Calls -/

/-- `o` lies in a bucket that is closed by a new row among `opens`. -/
def ClosedNow (store : ClosedBarStore δ) (m : Text) (opens : List ℕ) (o : ℕ) : Prop :=
  ∃ interval start last, interval ≠ .m5 ∧ Closes interval start last ∧ last ∈ opens
    ∧ ¬store.Has m last ∧ start ≤ o ∧ o ≤ last

/-- While a call admits its rows: a row that is stored already has the hash of the stored row, where it
matters, or the rolling tail ends with it. -/
structure Tracing (sha256 : EvidencePreimage δ → δ) (before : ClosedBarStore δ) (m : Text)
    (opens : List ℕ) (l : List (Arrival δ)) (cache : WindowCache δ) (s : DataAuthority δ) : Prop where
  turn : InTurn before m l s.store
  coming : ∀ a ∈ l, a.bar.openTimeMs ∈ opens
  alike : ∀ a ∈ l, ∀ b, before.bar? m .m5 a.bar.openTimeMs = some b →
    SameSource sha256 (ClosedNow before m opens) a.bar b
  again : ∀ a ∈ l, s.store.Has m a.bar.openTimeMs →
    before.Has m a.bar.openTimeMs ∨ EndsAt cache a.bar
  served : Served (SameSource sha256 (ClosedNow before m opens)) s.store cache
  lineage : Lineage sha256 s.store

omit [DecidableEq δ] in
/-- The bar of the next row stands for the stored one, or the rolling tail ends with it. -/
theorem Tracing.standsFor {before : ClosedBarStore δ} {opens : List ℕ} {a : Arrival δ}
    {l : List (Arrival δ)} {cache : WindowCache δ}
    (h : Tracing sha256 before m opens (a :: l) cache s) (hrow : AddsFive a.bar s.store store') :
    StandsFor (SameSource sha256 (ClosedNow before m opens)) store' a.bar ∨ EndsAt cache a.bar := by
  obtain ⟨hmkt, hiv⟩ := h.turn.arrivals a (.head _)
  rcases hst : s.store.bar? a.bar.marketId .m5 a.bar.openTimeMs with - | b
  · refine .inl ⟨hiv, a.bar, ?_, rfl, fun _ => rfl⟩
    rw [hrow, hst, if_pos ⟨rfl, rfl⟩]
    rfl
  · rw [hmkt] at hst
    have hhas : s.store.Has m a.bar.openTimeMs := Option.isSome_iff_exists.mpr ⟨b, hst⟩
    refine (h.again a (.head _) hhas).imp_left fun hbef => ?_
    obtain ⟨c, hc⟩ := Option.isSome_iff_exists.mp hbef
    refine ⟨hiv, c, ?_, h.alike a (.head _) c hc⟩
    rw [hmkt]
    exact hrow.kept (h.turn.kept _ c hc)

/-- **A row of the call.** -/
theorem Tracing.row {before : ClosedBarStore δ} {opens : List ℕ} {a : Arrival δ}
    {l : List (Arrival δ)} {cache : WindowCache δ} (h : Tracing sha256 before m opens (a :: l) cache s) :
    Ends (admitRow R sha256 a.bar binding finality (some cache) cut) s
      (fun r s' => Tracing sha256 before m opens l (r.2.getD cache) s')
      fun _ s' => Lineage sha256 s'.store := by
  obtain ⟨hmkt, hiv⟩ := h.turn.arrivals a (.head _)
  have hlineage : Ends (admitRow R sha256 a.bar binding finality (some cache) cut) s
      (fun _ s' => Lineage sha256 s'.store) fun _ s' => Lineage sha256 s'.store := by
    refine h.lineage.admitRow hiv h.served.of_mem_some ?_
    -- a new row closes its buckets now
    intro hnew interval start o hne hcls hle hle'
    refine ⟨interval, start, _, hne, hcls, h.coming a (.head _), fun hbef => ?_, hle, hle'⟩
    obtain ⟨c, hc⟩ := Option.isSome_iff_exists.mp hbef
    have hst := h.turn.kept _ c hc
    rw [bar?, ← hmkt, ← hiv] at hst
    rw [ClosedBar.key] at hnew
    rw [hnew] at hst
    cases hst
  refine (hlineage.and (admitRow_effect hiv)).mono ?_ fun _ _ h => h.1
  rintro ⟨inserted, next⟩ s' ⟨hline, hadd, rfl⟩
  refine ⟨h.turn.added hadd.fives, fun b hb => h.coming b (.tail _ hb),
    fun b hb => h.alike b (.tail _ hb), fun b hb hhas => ?_, ?_, hline⟩
  · refine (h.turn.stored_before hadd.fives hb hhas).imp_right fun heq => ?_
    obtain ⟨cached, last, hcach, hlast, hopen⟩ := endsAt_track cache a.bar
    have hb := (h.turn.arrivals b (.tail _ hb)).1
    refine ⟨cached, last, ?_, hlast, hopen.trans heq.symm⟩
    rw [hb, ← hmkt]
    exact hcach
  · have hkept : ∀ m o b, s.store.bar? m .m5 o = some b → s'.store.bar? m .m5 o = some b :=
      fun m o b hb => hadd.fives.kept hb
    exact (h.served.mono hkept).track (h.standsFor hadd.fives)

/-- What a call needs: no accepted bar that is stored with another hash lies in a bucket that a
new bar of the call closes. -/
def NoStrangers (sha256 : EvidencePreimage δ → δ) (s : DataAuthority δ) : DataEvent δ → Prop
  | .admitRestHistory market snapshot receivedAt _ =>
    ∀ accepted, acceptedHistory sha256 market snapshot receivedAt = .ok accepted →
      ∀ b ∈ accepted, ∀ p, s.store.bar? market.marketId .m5 b.openTimeMs = some p →
        ClosedNow s.store market.marketId (accepted.map ClosedBar.openTimeMs) b.openTimeMs →
        b.canonicalHash sha256 = p.canonicalHash sha256
  | .offerWsCandidate .. | .discardWsCandidate .. | .confirmWsCandidate .. | .registry _ | .restart => True

section

variable (h : Lineage sha256 s.store)
include h

theorem Lineage.admitRestHistory {market : RegistryMarket}
    {snapshot : List Payload} {receivedAt : Option Datetime} {cuts : ℕ → Option ℕ}
    (hcall : NoStrangers sha256 s (.admitRestHistory market snapshot receivedAt cuts)) :
    Lineage sha256 (after (admitRestHistory R sha256 market snapshot receivedAt cuts) s).store := by
  refine admitRestHistory_rule (E := fun s' => Lineage sha256 s'.store) h fun accepted hacc => ?_
  obtain ⟨harr, hsrt⟩ := arrivals_ok cuts hacc
  refine ⟨True, Tracing sha256 s.store market.marketId (accepted.map ClosedBar.openTimeMs),
    ⟨fun _ _ => trivial, fun h₁ => h₁.turn.arrivals, fun _ h₁ => h₁.lineage,
      fun _ h₁ => h₁.lineage, fun h₁ h₂ => ?_,
      fun _ d h₁ => ⟨h₁.turn, h₁.coming, h₁.alike, h₁.again, h₁.served, h₁.lineage⟩,
      fun h₁ _ => h₁.row.mono (fun _ _ h => h) fun _ _ h _ => h⟩,
    ⟨.init harr hsrt, fun a ha => List.mem_map_of_mem (mem_arrivals ha).1, fun a ha b hb => ?_,
      fun a ha hhas => .inl hhas, .empty, h⟩, fun _ s₁ h₁ => ?_⟩
  · rw [h₂.store]
    exact h₁.lineage
  · refine ⟨?_, hcall accepted hacc a.bar (mem_arrivals ha).1 b hb⟩
    rw [(bar?_eq_some.mp hb).2, ClosedBar.key, (harr a ha).1, (harr a ha).2]
  · rw [clearFailure_store]
    exact h₁.lineage

theorem Lineage.confirmWsCandidate {market : RegistryMarket} {c : Confirmation δ} {cut : Option ℕ} :
    Lineage sha256 (after (confirmWsCandidate R sha256 market c cut) s).store := by
  refine after_of_ends (confirmWsCandidate_rule (E := fun s' => Lineage sha256 s'.store) h
    fun payload bar _ hbar => ?_)
  refine admitBar_rule (Q := fun _ s' => Lineage sha256 s'.store) h h fun _ binding => ?_
  -- without a rolling tail every window is read from the table
  exact Ends.mono (Lineage.admitRow (M := fun _ => True) h (providerBar_ok hbar).2.1 (fun _ hc => by cases hc)
    fun _ _ _ _ _ _ _ _ => trivial) (fun _ s₁ h₁ d => ⟨h₁, h₁⟩) fun _ _ h => h

/-- A step keeps the lineage. -/
theorem Lineage.step (e : DataEvent δ) (he : NoStrangers sha256 s e) :
    Lineage sha256 (step R sha256 s e).store := by
  refine step_rule (P := fun s' => Lineage sha256 s'.store) h e (fun _ _ => h) ?_ ?_ fun s' _ hbeg => ?_
  · rintro market snapshot receivedAt cuts rfl
    exact h.admitRestHistory he
  · exact fun _ _ _ _ => h.confirmWsCandidate
  · rw [start_store hbeg]
    exact h

end

/-- **Aggregate lineage**: after any calls, stops and new processes in which no stranger is in a
bucket that a call closes, every aggregate names the hashes of the stored members of its
bucket, in time order. -/
theorem aggregate_lineage {registry : RegistryDisk δ} {events : List (DataEvent δ)}
    (hstart : start R {} registry = .ok s)
    (hcalls : Along (DataAuthority.step R sha256) (NoStrangers sha256) s events)
    {m : Text} {interval : Interval} {start : ℕ} {b : ClosedBar δ} (hinterval : interval ≠ .m5)
    (hb : (run R sha256 s events).store.bar? m interval start = some b) :
    ∃ w, (run R sha256 s events).store.members m start interval.sources = some w
      ∧ b.provenanceHash = sha256 (.sources (w.map (ClosedBar.canonicalHash sha256)) interval) := by
  have hempty : Lineage sha256 s.store := by
    rw [start_empty hstart]
    intro m interval start b _ hb
    cases hb
  exact hcalls.invariant (I := fun s => Lineage sha256 s.store) (fun s e h he => h.step e he) hempty
    m interval start b hinterval hb

open EvidenceTerm in
/-- The first two rows of a bucket, delivered again with the third at a later time: the aggregate does not name
the stored rows. -/
theorem redelivery_breaks_lineage :
    let s := run registryRoot EvidenceTerm.sha256 { registry := activeFiles }
      [.admitRestHistory market [candle 0, candle 1] (some version.createdAt) fun _ => none,
        .admitRestHistory market [candle 0, candle 1, candle 2] (some ⟨2026, 1, 1, 0, 5, 0, 0, by decide⟩)
          fun _ => none]
    start registryRoot {} activeFiles = .ok { registry := activeFiles }
      ∧ ∃ b w, s.store.bar? market.marketId .m15 0 = some b
        ∧ s.store.members market.marketId 0 Interval.m15.sources = some w
        ∧ b.provenanceHash
          ≠ EvidenceTerm.sha256 (.sources (w.map (ClosedBar.canonicalHash EvidenceTerm.sha256)) .m15) := by
  refine ⟨start_activeFiles, Option.get _ ?_, Option.get _ ?_, (Option.some_get _).symm,
    (Option.some_get _).symm, ?_⟩
  · decide +kernel
  · decide +kernel
  · decide +kernel

open EvidenceTerm in
/-- The rows of a bucket in two calls, without a repetition. -/
theorem aggregate_lineage_two_calls :
    let s := run registryRoot EvidenceTerm.sha256 { registry := activeFiles }
      [.admitRestHistory market [candle 0, candle 1] (some version.createdAt) fun _ => none,
        .admitRestHistory market [candle 2] (some ⟨2026, 1, 1, 0, 5, 0, 0, by decide⟩) fun _ => none]
    ∃ b w, s.store.bar? market.marketId .m15 0 = some b
      ∧ s.store.members market.marketId 0 Interval.m15.sources = some w
      ∧ b.provenanceHash
        = EvidenceTerm.sha256 (.sources (w.map (ClosedBar.canonicalHash EvidenceTerm.sha256)) .m15) := by
  intro s
  have hsome : (s.store.bar? market.marketId .m15 0).isSome := by decide +kernel
  obtain ⟨b, hb⟩ := Option.isSome_iff_exists.mp hsome
  refine ⟨b, ?_⟩
  have hcalls : Along (DataAuthority.step registryRoot EvidenceTerm.sha256) (NoStrangers EvidenceTerm.sha256)
      { registry := activeFiles }
      [.admitRestHistory market [candle 0, candle 1] (some version.createdAt) fun _ => none,
        .admitRestHistory market [candle 2] (some ⟨2026, 1, 1, 0, 5, 0, 0, by decide⟩) fun _ => none] := by
    refine ⟨?_, ?_, trivial⟩
    · intro accepted _ b _ p hp
      cases hp
    · -- the third row is not stored yet
      intro accepted haccepted b hb p hp
      have hopens : (acceptedHistory EvidenceTerm.sha256 market [candle 2]
          (some ⟨2026, 1, 1, 0, 5, 0, 0, by decide⟩)).map (List.map ClosedBar.openTimeMs) = .ok [600000] := by
        decide +kernel
      rw [haccepted] at hopens
      have hb : b.openTimeMs ∈ [600000] := Except.ok.inj hopens ▸ List.mem_map_of_mem hb
      rw [List.mem_singleton.mp hb] at hp
      have hnone : (DataAuthority.step registryRoot EvidenceTerm.sha256 { registry := activeFiles }
          (.admitRestHistory market [candle 0, candle 1] (some version.createdAt) fun _ => none)).store.bar?
            market.marketId .m5 600000 = none := by
        decide +kernel
      rw [hnone] at hp
      cases hp
  obtain ⟨w, hw, hprovenance⟩ := aggregate_lineage start_activeFiles hcalls (by decide) hb
  exact ⟨w, hb, hw, hprovenance⟩

end TraderAssist
