/-
TraderAssist/Data/Buckets.lean

Buckets of 5m rows and their aggregates.

A bucket is an aligned run of 5m rows; the row that closes it is the one whose admission
makes its aggregate.  `persistAggregate_rule` says what a turn of the aggregate loop does in
terms of the stored rows of the bucket, where the rolling tail stands for stored rows by a relation
`V`: nothing where the bucket is not complete, otherwise an aggregate of bars that `V` relates to
the members.
-/
import TraderAssist.Data.Rows

namespace TraderAssist

open Py ClosedBarStore DataAuthority

variable {δ : Type} {store store' : ClosedBarStore δ} {bar : ClosedBar δ} {m : Text} {start o n : ℕ}
  {interval : Interval}

/-! ### Closing rows -/

/-- The row at `o` closes the bucket of an interval that starts at `start`. -/
def Closes (interval : Interval) (start o : ℕ) : Prop :=
  start % interval.ms = 0 ∧ start + (interval.sources - 1) * fiveMinutesMs = o

theorem Closes.unique {start' : ℕ} (h : Closes interval start o) (h' : Closes interval start' o) :
    start = start' :=
  Nat.add_right_cancel (h.2.trans h'.2.symm)

/-- The alignment test of `_persist_aggregates`. -/
theorem closes_iff : ((o : ℤ) - (interval.sources - 1 : ℕ) * fiveMinutesMs)
    % (interval.sources * fiveMinutesMs : ℕ) = 0 ↔ ∃ start, Closes interval start o := by
  unfold Closes
  constructor
  · intro h
    refine ⟨o - (interval.sources - 1) * fiveMinutesMs, ?_⟩
    cases interval <;> simp only [Interval.sources, Interval.ms, fiveMinutesMs] at h ⊢ <;> omega
  · rintro ⟨start, hal, hend⟩
    cases interval <;> simp only [Interval.sources, Interval.ms, fiveMinutesMs] at hal hend ⊢ <;> omega

/-! ### Members of a growing table -/

theorem members_mono (h : ∀ o b, store.bar? m .m5 o = some b → store'.bar? m .m5 o = some b)
    {w : List (ClosedBar δ)} (hw : store.members m start n = some w) : store'.members m start n = some w := by
  induction n generalizing start w with
  | zero => exact hw
  | succ n ih =>
    obtain ⟨b, w, rfl, hb, hw⟩ := members_succ.mp hw
    exact members_succ.mpr ⟨b, w, rfl, h _ _ hb, ih hw⟩

/-- A point without a row. -/
theorem members_eq_none {i : ℕ} (hi : i < n) (h : ¬store.Has m (start + i * fiveMinutesMs)) :
    store.members m start n = none := by
  rw [← Option.not_isSome_iff_eq_none, isSome_members]
  exact fun hall => h (hall i hi)

/-! ### Values of a bucket -/

/-- The values of the aggregate of a run of bars. -/
def bucketValues : List (ClosedBar δ) → Option BarValues
  | [] => none
  | first :: rest => some (mergedValues first rest)

/-- Merged values as a function of the values. -/
theorem mergedValues_congr {first first' : ClosedBar δ} {rest rest' : List (ClosedBar δ)}
    (hfst : first.values = first'.values) (hrest : rest.map ClosedBar.values = rest'.map ClosedBar.values) :
    mergedValues first rest = mergedValues first' rest' := by
  have hfold : ∀ (f : ℚ → ℚ → ℚ) (g : BarValues → ℚ) (x : ℚ) (l : List (ClosedBar δ)),
      l.foldl (fun y b => f y (g b.values)) x = (l.map ClosedBar.values).foldl (fun y v => f y (g v)) x :=
    fun f g x l => by rw [List.foldl_map]
  have hlast : ∀ (b : ClosedBar δ) (l : List (ClosedBar δ)),
      (l.getLast?.getD b).values = (l.map ClosedBar.values).getLast?.getD b.values := by
    intro b l
    rw [List.getLast?_map, Option.getD_map]
  have hvols : ∀ (b : ClosedBar δ) (l : List (ClosedBar δ)),
      (b :: l).map (fun b => b.values.volume) = (b.values :: l.map ClosedBar.values).map BarValues.volume := by
    intro b l
    rw [List.map_cons, List.map_cons, List.map_map]
    rfl
  rw [mergedValues, mergedValues, hfold max BarValues.high, hfold max BarValues.high,
    hfold min BarValues.low, hfold min BarValues.low, hlast, hlast, hvols, hvols, hfst, hrest]

/-- Runs with the same candles have the same aggregate. -/
theorem bucketValues_congr {u w : List (ClosedBar δ)}
    (h : List.Forall₂ (fun a b => a.values = b.values) u w) : bucketValues u = bucketValues w := by
  cases h with
  | nil => rfl
  | cons hfst hrest => exact congrArg some (mergedValues_congr hfst (map_eq_of_forall₂ hrest))

/-- **A merge is valid** if its volume can be written. -/
theorem mergedValues_valid {first : ClosedBar δ} {rest : List (ClosedBar δ)}
    (hvol : wireDecimal (csum ((first :: rest).map fun b => b.values.volume))) :
    (mergedValues first rest).Valid := by
  have hlast : rest.getLast?.getD first ∈ first :: rest := by
    rcases hget : rest.getLast? with - | last
    · exact .head _
    · exact List.mem_cons_of_mem _ (List.mem_of_getLast? hget)
  obtain ⟨⟨hopen, hhigh, hlow, -, -⟩, ⟨wopen, whigh, wlow, -, -⟩, hmax, hmin⟩ := first.valid
  obtain ⟨⟨-, -, -, hcl, -⟩, ⟨-, -, -, wclose, -⟩, hmax', hmin'⟩ := (rest.getLast?.getD first).valid
  have hhighs := @le_foldl_max _ _ _ (fun b : ClosedBar δ => b.values.high) rest first.values.high
  have hlows := @foldl_min_le _ _ _ (fun b : ClosedBar δ => b.values.low) rest first.values.low
  -- the extremes against the last bar
  have hhighest : (rest.getLast?.getD first).values.high ≤ (mergedValues first rest).high := by
    rcases List.mem_cons.mp hlast with heq | hmem
    · rw [heq]
      exact hhighs.1
    · exact hhighs.2 _ hmem
  have hlowest : (mergedValues first rest).low ≤ (rest.getLast?.getD first).values.low := by
    rcases List.mem_cons.mp hlast with heq | hmem
    · rw [heq]
      exact hlows.1
    · exact hlows.2 _ hmem
  refine ⟨⟨hopen, hhigh.trans_le hhighs.1, ?_, hcl, ?_⟩, ⟨wopen, ?_, ?_, wclose, hvol⟩, ?_, ?_⟩
  · exact foldl_choice (P := fun x => 0 < x) min_choice hlow fun b _ => b.valid.1.2.2.1
  · refine csum_nonneg fun x hx => ?_
    obtain ⟨b, -, rfl⟩ := List.mem_map.mp hx
    exact b.valid.1.2.2.2.2
  · exact foldl_choice (P := fun x => wireDecimal x = true) max_choice whigh fun b _ => b.valid.2.1.2.1
  · exact foldl_choice (P := fun x => wireDecimal x = true) min_choice wlow fun b _ => b.valid.2.1.2.2.1
  · simp only [max_le_iff] at hmax hmax' ⊢
    exact ⟨hmax.1.trans hhighs.1, hmax'.2.1.trans hhighest, (hlows.1.trans hmax.2.2).trans hhighs.1⟩
  · simp only [le_min_iff] at hmin hmin' ⊢
    exact ⟨hlows.1.trans hmin.1, hlowest.trans hmin'.2.1, (hlows.1.trans hmin.2.2).trans hhighs.1⟩

/-! ### Aggregates of members -/

section Aggregates

variable {sha256 : EvidencePreimage δ → δ} {u w : List (ClosedBar δ)}

/-- Bars at the places of members are a run of the market. -/
theorem run_of_members (h : List.Forall₂ (fun a b => a.key = b.key) u w)
    (hw : store.members m start n = some w) :
    u.length = n ∧ (∀ b ∈ u, b.marketId = m ∧ b.interval = .m5) ∧ StepByStep u
      ∧ ∀ b ∈ u.head?, b.openTimeMs = start := by
  refine ⟨h.length_eq.trans (length_members hw), fun b hb => ?_, ?_, fun b hb => ?_⟩
  · obtain ⟨c, hc, hkey⟩ := forall₂_mem_left h hb
    obtain ⟨i, -, hbar⟩ := (mem_members hw).mp hc
    obtain ⟨hmkt, hiv, -⟩ := bar?_fields hbar
    exact ⟨(congrArg (fun k => k.1) hkey).trans hmkt, (interval_of_key hkey).trans hiv⟩
  · have hops : u.map ClosedBar.openTimeMs = w.map ClosedBar.openTimeMs :=
      map_eq_of_forall₂ (h.imp fun a b hkey => congrArg (fun k => k.2.2) hkey)
    have hch : ∀ l : List (ClosedBar δ), StepByStep l
        ↔ (l.map ClosedBar.openTimeMs).IsChain fun x y => y = x + fiveMinutesMs :=
      fun l => by rw [List.isChain_map]
    rw [hch, hops, ← hch]
    exact chain_members hw
  · cases h with
    | nil => cases hb
    | cons hkey _ =>
      cases hb
      exact (congrArg (fun k => k.2.2) hkey).trans (head_members hw)

/-- **An aggregate of bars at the places of the members of a bucket** fails only where its
values are not valid. -/
theorem aggregateClosed5m_error (hiv : interval ≠ .m5) (hal : start % interval.ms = 0)
    (h : List.Forall₂ (fun a b => a.key = b.key) u w)
    (hw : store.members m start interval.sources = some w) {err : DataRouteError}
    (herr : aggregateClosed5m sha256 u interval = .error err) :
    err = .barInvalid ∧ ∃ first rest, u = first :: rest ∧ ¬(mergedValues first rest).Valid := by
  obtain ⟨hlen, hall, hch, hhead⟩ := run_of_members h hw
  cases u with
  | nil => exact absurd hlen.symm (Nat.ne_of_gt interval.sources_pos)
  | cons first rest =>
    have hfst : first.openTimeMs = start := hhead first rfl
    have hlast : (rest.getLast?.getD first).closeTimeMs + 1 = first.openTimeMs + interval.ms := by
      have hget : (first :: rest).getLast? = some (rest.getLast?.getD first) := by
        rw [List.getLast?_cons]
      have hopen := getLast_of_chain (f := ClosedBar.openTimeMs) hch hget
      have hmem := List.mem_of_getLast? hget
      have hcls := (rest.getLast?.getD first).closes
      rw [(hall _ hmem).2] at hcls
      rw [List.length_cons] at hlen
      rw [hcls, hopen, Interval.ms_eq interval, ← hlen, Nat.succ_mul, Nat.add_assoc]
      rfl
    rw [aggregateClosed5m, require, if_pos hiv] at herr
    rw [require, if_pos ⟨hlen, fun b hb => (hall b hb).2⟩] at herr
    rw [require, if_pos fun b hb => ((hall b (List.mem_cons_of_mem _ hb)).1).trans
      (hall first (.head _)).1.symm] at herr
    rw [require, if_pos hch] at herr
    rw [require, if_pos (hfst ▸ hal)] at herr
    dsimp only [bind, Except.bind] at herr
    by_cases hval : (mergedValues first rest).Valid
    · rw [ClosedBar.create?, dif_pos ⟨hfst ▸ hal, hlast, hval⟩] at herr
      cases herr
    · rw [ClosedBar.create?, dif_neg fun hh => hval hh.2.2] at herr
      exact ⟨(Except.error.inj herr).symm, first, rest, rfl, hval⟩

end Aggregates

/-! ### Rows in turn -/

/-- While a call admits the rows of a market in order: what was stored is, and what is new
comes before the rows to come. -/
structure InTurn (before : ClosedBarStore δ) (m : Text) (l : List (Arrival δ))
    (store : ClosedBarStore δ) : Prop where
  arrivals : ∀ a ∈ l, a.bar.marketId = m ∧ a.bar.interval = .m5
  inOrder : l.Pairwise fun a b => a.bar.openTimeMs ≤ b.bar.openTimeMs
  kept : ∀ o b, before.bar? m .m5 o = some b → store.bar? m .m5 o = some b
  sorted : ∀ x, store.Has m x → before.Has m x ∨ ∀ a ∈ l, x ≤ a.bar.openTimeMs

namespace InTurn

variable {before : ClosedBarStore δ} {a : Arrival δ} {l : List (Arrival δ)}

theorem init (harr : ∀ a ∈ l, a.bar.marketId = m ∧ a.bar.interval = .m5)
    (hsrt : l.Pairwise fun a b => a.bar.openTimeMs ≤ b.bar.openTimeMs) : InTurn before m l before :=
  ⟨harr, hsrt, fun _ _ h => h, fun _ h => .inl h⟩

theorem added (h : InTurn before m (a :: l) store) (hrow : AddsFive a.bar store store') :
    InTurn before m l store' := by
  obtain ⟨hfst, hrest⟩ := List.pairwise_cons.mp h.inOrder
  refine ⟨fun b hb => h.arrivals b (.tail _ hb), hrest,
    fun o b hb => hrow.kept (h.kept o b hb), fun x hx => ?_⟩
  rcases hrow.has.mp hx with hx | ⟨-, rfl⟩
  · exact (h.sorted x hx).imp_right fun hle b hb => hle b (.tail _ hb)
  · exact .inr hfst

/-- A later row of the call that is stored was stored before, or opens with this one. -/
theorem stored_before {b : Arrival δ} (h : InTurn before m (a :: l) store)
    (hrow : AddsFive a.bar store store') (hb : b ∈ l) (hhas : store'.Has m b.bar.openTimeMs) :
    before.Has m b.bar.openTimeMs ∨ b.bar.openTimeMs = a.bar.openTimeMs := by
  rcases hrow.has.mp hhas with hhas | ⟨-, heq⟩
  · refine (h.sorted _ hhas).imp_right fun hle => (hle a (.head _)).antisymm ?_
    exact (List.pairwise_cons.mp h.inOrder).1 b hb
  · exact .inr heq

end InTurn

/-! ### A turn of the aggregate loop -/

section Rules

variable [DecidableEq δ] {R : RegistryRoot δ} {sha256 : EvidencePreimage δ → δ} {s : DataAuthority δ}
  {binding : RegistryVersion} {finality : δ} {cache : Option (WindowCache δ)} {cut : Option ℕ}
  {V : ClosedBar δ → ClosedBar δ → Prop}

/-- **The rule for a turn of the aggregate loop**: it is interrupted; the bar closes no complete bucket;
or it closes one, whose aggregate is invalid or put. -/
theorem persistAggregate_rule (hV : ∀ b, V b b) (hkey : ∀ a b, V a b → a.key = b.key)
    (hiv : interval ≠ .m5) (hsrv : ∀ c ∈ cache, Served V s.store c)
    (hbar : s.store.bar? bar.marketId .m5 bar.openTimeMs = some bar)
    {Q : DataAuthority δ → Prop} {E : DataRouteError → DataAuthority δ → Prop}
    (hcut : cut = some (aggregateWrite interval) → E .interrupted s)
    (hskip : (∀ start, Closes interval start bar.openTimeMs →
      s.store.members bar.marketId start interval.sources = none) → Q s ∧ ∀ err, E err s)
    (hinv : ∀ start first rest w, Closes interval start bar.openTimeMs →
      s.store.members bar.marketId start interval.sources = some w → List.Forall₂ V (first :: rest) w →
      ¬(mergedValues first rest).Valid → E .barInvalid s)
    (hput : ∀ start u w a, Closes interval start bar.openTimeMs →
      s.store.members bar.marketId start interval.sources = some w → List.Forall₂ V u w →
      aggregateClosed5m sha256 u interval = .ok a →
      Ends (put R sha256 a binding a.provenanceHash) s (fun _ s' => Q s') E) :
    Ends (persistAggregate R sha256 bar binding cache cut interval) s (fun _ s' => Q s') E := by
  rw [persistAggregate, ends_bind, ends_check]
  refine ⟨fun _ => ?_, fun hstop => hcut (not_not.mp hstop)⟩
  by_cases hal : ((bar.openTimeMs : ℤ) - (interval.sources - 1 : ℕ) * fiveMinutesMs)
      % (interval.sources * fiveMinutesMs : ℕ) ≠ 0
  · rw [if_pos hal]
    refine (hskip fun start hcls => ?_).1
    exact absurd (closes_iff.mpr ⟨start, hcls⟩) hal
  rw [if_neg hal, ends_bind, ends_get]
  obtain ⟨start, hcls⟩ := closes_iff.mp (not_not.mp hal)
  obtain ⟨n, hn⟩ := Nat.exists_eq_succ_of_ne_zero (Nat.ne_of_gt interval.sources_pos)
  have hbeg : start + n * fiveMinutesMs = bar.openTimeMs := by
    have hend := hcls.2
    rw [hn] at hend
    exact hend
  rcases aggregateWindow_spec hV hsrv hbar hbeg with ⟨w, hw, hall⟩ | ⟨hnone, -, hgap⟩
  · -- a complete bucket
    rw [← Nat.succ_eq_add_one, ← hn] at hw hall
    have hkeys := hall.imp hkey
    rw [if_pos (run_of_members hkeys hw).1, ends_bind, ends_attempt]
    rcases hmade : aggregateClosed5m sha256 (aggregateWindow s.store cache bar interval.sources) interval
      with err | a
    · obtain ⟨rfl, first, rest, heq, hval⟩ := aggregateClosed5m_error hiv hcls.1 hkeys hw hmade
      exact hinv start first rest w hcls hw (heq ▸ hall) hval
    · rw [Sat.ok, ends_bind]
      exact (hput start _ w a hcls hw hall hmade).mono (fun _ _ h => h) fun _ _ h => h
  · -- an incomplete one: a short window is skipped, a window with a gap raises
    rw [← Nat.succ_eq_add_one, ← hn] at hnone hgap
    have hskip := hskip fun start' hcls' => hcls.unique hcls' ▸ hnone
    by_cases hlen : (aggregateWindow s.store cache bar interval.sources).length = interval.sources
    · rw [if_pos hlen]
      rcases hmade : aggregateClosed5m sha256 (aggregateWindow s.store cache bar interval.sources) interval
        with err | a
      · exact hskip.2 err
      · obtain ⟨-, first, rest, -, -, hch, -⟩ := aggregateClosed5m_ok hmade
        exact absurd ⟨hlen, hch⟩ hgap
    · rw [if_neg hlen]
      exact hskip.1

/-- **The rule for a row**: it is refused, it is a duplicate, or it is new and its aggregates
follow. -/
theorem admitRow_rule {Q E : DataAuthority δ → Prop} (hrefuse : E s) (hfail : E (s.fail bar.marketId))
    (hdup : ∀ prior, s.store.row? bar.key = some prior →
      (prior.bar.canonicalHash sha256 = bar.canonicalHash sha256 ∨ prior.bar.SameCandleContents bar) →
      Q (s.advance bar))
    (hnew : s.store.row? bar.key = none → ∀ store',
      store'.rows = s.store.rows ++ [evidenceRow R bar binding finality] →
      Ends (persistAggregates R sha256 bar binding cache cut) ({ s with store := store' }.advance bar)
        (fun _ s' => Q s') fun _ s' => E s') :
    Ends (admitRow R sha256 bar binding finality cache cut) s
      (fun r s' => Q s' ∧ r.2 = cache.map fun cache => trackWindowTail cache bar) fun _ s' => E s' := by
  rw [admitRow, ends_bind, ends_check]
  refine ⟨fun _ => ?_, fun _ => hrefuse⟩
  rw [ends_bind, ends_onRaise]
  refine put_rule (fun prior hpri hsame => ?_) (fun prior _ _ => hfail) fun hnone store' hrows => ?_
  · exact ⟨hdup prior hpri hsame, rfl⟩
  · rw [ends_bind, ends_modify, if_pos rfl, ends_bind]
    exact (hnew hnone store' hrows).mono (fun _ s' h => ⟨h, rfl⟩) fun _ _ h => h

/-- A row that was admitted has the candle of the stored one. -/
theorem admitRow_contents (hsha : Function.Injective sha256) (hbar : bar.interval = .m5) :
    Ends (admitRow R sha256 bar binding finality cache cut) s
      (fun _ s' => StandsFor ClosedBar.SameCandleContents s'.store bar) fun _ _ => True := by
  refine (admitRow_rule (Q := fun s' => StandsFor ClosedBar.SameCandleContents s'.store bar)
    (E := fun _ => True) trivial trivial (fun prior hpri hsame => ?_) fun hnew store' hrows => ?_).mono
    (fun _ _ h => h.1) fun _ _ h => h
  · have hcnts : prior.bar.SameCandleContents bar := hsame.elim (ClosedBar.contents_of_hash hsha) id
    refine ⟨hbar, prior.bar, ?_, hcnts.1.symm, hcnts.2.1.symm, hcnts.2.2.symm⟩
    rw [← hbar]
    exact congrArg (Option.map EvidenceRow.bar) hpri
  · refine persistAggregates_fives.mono (fun _ s' h => ⟨hbar, bar, ?_, rfl, rfl, rfl⟩) fun _ _ _ => trivial
    rw [h.2.2]
    exact bar?_added hbar hnew hrows

end Rules

end TraderAssist
