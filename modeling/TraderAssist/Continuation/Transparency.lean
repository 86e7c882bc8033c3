/-
TraderAssist/Continuation/Transparency.lean

A restart from a checkpoint, and what it can change.

A restored state has its derived bars with canonical decimals
(`continuationCodec_restores`).  Prices come from stored bars and are canonical
already; a volume is a sum, and a sum such as 0.5 + 0.5 = 1.0 is not.  The text
of the volume is part of the candle id, so a pivot bar of that kind gives other
reaction and zone ids after the restart (`restart_changes_ids`).  Where every
volume whose candle id counts is canonical, the restored state goes on exactly
like the old one (`checkpoint_transparent`).
-/
import TraderAssist.Continuation.Checkpoint
import TraderAssist.Continuation.Quotes
import TraderAssist.Continuation.Replay
import TraderAssist.Kernel.EventBars

namespace TraderAssist

open Py

variable {δ : Type} {bars : List Bar} {b : Bar} {P : Bar → Prop}

/-! ### Canonical bars -/

/-- A bar as the store returns it: its rows hold canonical decimals. -/
def Bar.Stored (b : Bar) : Prop := b.canonical = b

/-- Canonical prices; the volume may be anything. -/
structure Bar.Quoted (b : Bar) : Prop where
  openRepr : TraderAssist.canonical b.openRepr = b.openRepr
  highRepr : TraderAssist.canonical b.highRepr = b.highRepr
  lowRepr : TraderAssist.canonical b.lowRepr = b.lowRepr
  closeRepr : TraderAssist.canonical b.closeRepr = b.closeRepr

theorem Bar.canonical_eq_iff :
    b.canonical = b ↔ b.Quoted ∧ TraderAssist.canonical b.volumeRepr = b.volumeRepr := by
  constructor
  · intro h
    exact ⟨⟨congrArg Bar.openRepr h, congrArg Bar.highRepr h, congrArg Bar.lowRepr h,
      congrArg Bar.closeRepr h⟩, congrArg Bar.volumeRepr h⟩
  · rintro ⟨⟨ho, hh, hl, hc⟩, hv⟩
    unfold Bar.canonical
    simp only [ho, hh, hl, hc, hv]

theorem Bar.Stored.quoted (h : b.Stored) : b.Quoted := (Bar.canonical_eq_iff.mp h).1

/-- The rewritten bar is a stored one. -/
theorem Bar.canonical_stored (b : Bar) : b.canonical.Stored := by
  refine Bar.canonical_eq_iff.mpr ⟨⟨?_, ?_, ?_, ?_⟩, ?_⟩ <;> exact canonical_canonical _

theorem Bar.Quoted.sansVolume (h : b.Quoted) : b.canonical.sansVolume = b.sansVolume := by
  unfold Bar.canonical Bar.sansVolume
  simp only [h.openRepr, h.highRepr, h.lowRepr, h.closeRepr]

/-! ### Aggregates take their prices from their bars -/

theorem Bar.make_fields {marketId : Text} {interval : Interval} {openTimeMs closeTimeMs : ℕ}
    {o h l c v : Decimal} {source : Text}
    (hb : Bar.make marketId interval openTimeMs closeTimeMs o h l c v source = .ok b) :
    b.openRepr = o ∧ b.highRepr = h ∧ b.lowRepr = l ∧ b.closeRepr = c := by
  unfold Bar.make at hb
  split_ifs at hb
  cases hb
  exact ⟨rfl, rfl, rfl, rfl⟩

theorem mergeBucket_quoted {interval : Interval} {required bucket : ℕ} {members : List Bar}
    {value : Bar} (h : mergeBucket interval required bucket members = .ok (some value))
    (hm : ∀ b ∈ members, b.Quoted) : value.Quoted := by
  unfold mergeBucket at h
  dsimp only at h
  split_ifs at h
  · cases h
  · rcases members with - | ⟨first, rest⟩
    · cases h
    · dsimp only at h
      rcases e : Bar.make first.marketId interval bucket (rest.getLast?.getD first).closeTimeMs
        first.openRepr (Decimal.maxFirst first.highRepr (rest.map Bar.highRepr))
        (Decimal.minFirst first.lowRepr (rest.map Bar.lowRepr)) (rest.getLast?.getD first).closeRepr
        (Decimal.sum ((first :: rest).map Bar.volumeRepr)) causalLocalSource with err | b
      · rw [e] at h
        cases h
      · rw [e] at h
        cases h
        obtain ⟨ho, hh, hl, hc⟩ := Bar.make_fields e
        have hhigh := (Decimal.maxFirst_spec first.highRepr (rest.map Bar.highRepr)).1
        have hlow := (Decimal.minFirst_spec first.lowRepr (rest.map Bar.lowRepr)).1
        rw [← List.map_cons] at hhigh hlow
        obtain ⟨bh, hbh, hbh'⟩ := List.mem_map.mp hhigh
        obtain ⟨bl, hbl, hbl'⟩ := List.mem_map.mp hlow
        have hlast : rest.getLast?.getD first ∈ first :: rest := by
          rcases e : rest.getLast? with - | last
          · exact .head _
          · exact List.mem_cons_of_mem _ (List.mem_of_getLast? e)
        refine ⟨?_, ?_, ?_, ?_⟩
        · rw [ho]
          exact (hm first (.head _)).openRepr
        · rw [hh, ← hbh']
          exact (hm bh hbh).highRepr
        · rw [hl, ← hbl']
          exact (hm bl hbl).lowRepr
        · rw [hc]
          exact (hm _ hlast).closeRepr

theorem mem_addToBucket {key : ℕ} {groups : List (ℕ × List Bar)}
    (hb : P b) (hg : ∀ g ∈ groups, ∀ c ∈ g.2, P c) : ∀ g ∈ addToBucket key b groups, ∀ c ∈ g.2, P c := by
  induction groups with
  | nil =>
    intro g hmem c hc
    obtain rfl := List.mem_singleton.mp hmem
    rw [List.mem_singleton.mp hc]
    exact hb
  | cons head groups ih =>
    obtain ⟨k, members⟩ := head
    have hrest := ih fun g hmem => hg g (.tail _ hmem)
    unfold addToBucket
    split_ifs with hkey
    · intro g hmem c hc
      rcases List.mem_cons.mp hmem with rfl | hmem
      · exact forall_mem_snoc (hg (k, members) (.head _)) hb c hc
      · exact hg g (.tail _ hmem) c hc
    · intro g hmem c hc
      rcases hmem with - | ⟨-, hmem⟩
      · exact hg (k, members) (.head _) c hc
      · exact hrest g hmem c hc

theorem groupBuckets_forall {ms : ℕ} (hb : ∀ b ∈ bars, P b) :
    ∀ g ∈ groupBuckets ms bars, ∀ c ∈ g.2, P c := by
  induction bars using List.reverseRecOn with
  | nil => exact nofun
  | append_singleton bars b ih =>
    rw [groupBuckets_append]
    exact mem_addToBucket (hb b (by simp)) (ih fun c hc => hb c (List.mem_append_left _ hc))

theorem aggregate_quoted {bars derived : List Bar} {minutes : ℕ}
    (h : aggregateClosed5mCausally bars minutes = .ok derived) (hb : ∀ b ∈ bars, b.Quoted) :
    ∀ d ∈ derived, d.Quoted := by
  unfold aggregateClosed5mCausally at h
  split_ifs at h
  · obtain ⟨-, -, h⟩ := of_bind h
    cases h
  · obtain ⟨-, -, h⟩ := of_bind h
    obtain ⟨merged, hmrg, h⟩ := of_bind h
    cases h
    intro d hd
    obtain ⟨o, ho, rfl⟩ := List.mem_filterMap.mp hd
    obtain ⟨g, hg, hmerge⟩ := mem_of_mapM hmrg _ ho
    exact mergeBucket_quoted hmerge (groupBuckets_forall hb g (mem_sortBy.mp hg))

/-! ### Reached states -/

section Sound

variable {market : Text}

/-- What the checkpoint relies on: windows of the right size, canonical decimals
except in derived volumes. -/
structure Sound (market : Text) (s : IncrementalStrategyState δ) : Prop where
  marketId : s.marketId = market
  bars5m : ∀ b ∈ s.bars5m, b.Stored
  bars15m : ∀ b ∈ s.bars15m, b.Quoted
  bars1h : ∀ b ∈ s.bars1h, b.Quoted
  ledger : BarsIn Bar.Stored s.ledger
  length5m : s.bars5m.length ≤ 21
  length15m : s.bars15m.length ≤ 98
  length1h : s.bars1h.length ≤ 10
  atr15m : s.atr15mValues.length = s.bars15m.length

theorem forall_mem_lastN_snoc (n : ℕ)
    (h : ∀ c ∈ bars, P c) (hb : P b) : ∀ c ∈ lastN n (bars ++ [b]), P c := by
  intro c hc
  exact forall_mem_snoc h hb c (mem_of_mem_lastN hc)

namespace Sound

variable {s s' : IncrementalStrategyState δ} {b : Bar}

section

variable (h : Sound market s)
include h

theorem ingest5m (hb : b.Stored) (hok : s.ingest5m b = .ok s') : Sound market s' := by
  obtain ⟨atr, -, hok⟩ := of_bind hok
  cases hok
  exact { h with
    bars5m := forall_mem_lastN_snoc 21 h.bars5m hb
    length5m := by simp [length_lastN] }

theorem push15m (hb : b.Quoted) (hok : s.push15m b = .ok s') : Sound market s' := by
  obtain ⟨atr, -, hok⟩ := of_bind hok
  cases hok
  exact { h with
    bars15m := forall_mem_lastN_snoc 98 h.bars15m hb
    length15m := by simp [length_lastN]
    atr15m := by simp [length_lastN, h.atr15m] }

theorem push1h (hb : b.Quoted) (hok : s.push1h b = .ok s') : Sound market s' := by
  obtain ⟨atr, -, hok⟩ := of_bind hok
  cases hok
  exact { h with
    bars1h := forall_mem_lastN_snoc 10 h.bars1h hb
    length1h := by simp [length_lastN] }

/-- The bar a bucket of the window gives. -/
theorem derived {n minutes : ℕ} {value : Bar}
    (hagg : liftKernel (aggregateClosed5mCausally (lastN n s.bars5m) minutes) = .ok [value]) :
    value.Quoted := by
  refine aggregate_quoted (liftKernel_ok hagg) (fun b hb => ?_) value (.head _)
  exact (h.bars5m b (List.mem_of_mem_drop hb)).quoted

theorem ingest15m (hok : s.ingest15m b = .ok s') : Sound market s' := by
  unfold IncrementalStrategyState.ingest15m at hok
  split_ifs at hok
  · obtain ⟨derived, hagg, hok⟩ := of_bind hok
    split at hok
    · exact h.push15m (h.derived hagg) hok
    · cases hok
  · cases hok
    exact h

theorem ingest1h (hok : s.ingest1h b = .ok s') : Sound market s' := by
  unfold IncrementalStrategyState.ingest1h at hok
  split_ifs at hok
  · obtain ⟨derived, hagg, hok⟩ := of_bind hok
    split at hok
    · exact h.push1h (h.derived hagg) hok
    · cases hok
  · cases hok
    exact h

theorem ingest (hb : b.Stored) (hok : s.ingest b = .ok s') : Sound market s' := by
  unfold IncrementalStrategyState.ingest at hok
  split_ifs at hok
  obtain ⟨s₁, h₁, hok⟩ := of_bind hok
  obtain ⟨s₂, h₂, hok⟩ := of_bind hok
  exact ((h.ingest5m hb h₁).ingest15m h₂).ingest1h hok

end

end Sound

end Sound

section Reached

variable [LinearOrder δ] {sha256 : Preimage δ → δ} {market : Text}

/-- The states of a market that stored bars lead to. -/
inductive Reached (sha256 : Preimage δ → δ) (market : Text) : IncrementalStrategyState δ → Prop
  | start : Reached sha256 market { marketId := market }
  | ingest {s s' : IncrementalStrategyState δ} {b : Bar} (h : Reached sha256 market s)
      (hb : b.Stored) (hok : s.ingest b = .ok s') : Reached sha256 market s'
  | retain {s : IncrementalStrategyState δ} {minimumTick : ℚ} {link : Option ScannerLinkage}
      {result : KernelResult δ} (h : Reached sha256 market s)
      (hok : s.evaluate sha256 minimumTick link = .ok result) :
      Reached sha256 market (s.retainResult result.ledger)

theorem Sound.retain {s : IncrementalStrategyState δ} (h : Sound market s) {minimumTick : ℚ}
    {link : Option ScannerLinkage} {result : KernelResult δ}
    (hok : s.evaluate sha256 minimumTick link = .ok result) :
    Sound market (s.retainResult result.ledger) := by
  obtain ⟨inputs, hinp, hres⟩ := of_bind hok
  obtain ⟨hval, hbars⟩ := evaluationInput_fields hinp
  have hnwst : ∀ b, inputs.bars5m.getLast? = some b → b.Stored := fun b hb =>
    h.bars5m b (List.mem_of_getLast? (hbars ▸ hb))
  have hldg := evaluate_barsIn (liftKernel_ok hres) hnwst h.ledger
  exact { h with ledger := fun e he => hldg e (List.mem_of_mem_filter he) }

theorem Reached.sound {s : IncrementalStrategyState δ} (h : Reached sha256 market s) : Sound market s := by
  induction h with
  | start => exact ⟨rfl, by simp, by simp, by simp, fun _ he => (nomatch he), by simp, by simp,
      by simp, rfl⟩
  | ingest _ hb hok ih => exact ih.ingest hb hok
  | retain _ hok ih => exact ih.retain hok

end Reached

/-! ### States that differ in derived volumes -/

/-- The same state up to volumes of derived bars that no candle id reads. -/
def Alike (s t : IncrementalStrategyState δ) : Prop :=
  ∃ m hs, t = { s with bars15m := m, bars1h := hs } ∧ AlikeBars s.bars15m m
    ∧ SameQuotes s.bars1h hs ∧ s.bars15m.length ≤ 98

theorem SameQuotes.pivotsAfter {m m' : List Bar} (h : SameQuotes m m')
    {test : Bar → Bar → Bar → Bool} {price : Bar → ℚ}
    (htest : ∀ a b c, test a.sansVolume b.sansVolume c = test a b c)
    (hpr : ∀ b, price b.sansVolume = price b) (value : Bar) (pivots : List ℚ) :
    IncrementalStrategyState.pivotsAfter test price m value pivots
      = IncrementalStrategyState.pivotsAfter test price m' value pivots := by
  have hblind : ∀ bars : List Bar,
      IncrementalStrategyState.pivotsAfter test price (bars.map Bar.sansVolume) value pivots
        = IncrementalStrategyState.pivotsAfter test price bars value pivots := by
    intro bars
    unfold IncrementalStrategyState.pivotsAfter
    rw [lastN_map]
    rcases Py.lastN 2 bars with - | ⟨left, - | ⟨pivot, - | ⟨c, rest⟩⟩⟩
    · rfl
    · rfl
    · simp only [List.map_cons, List.map_nil, htest, hpr]
    · rfl
  rw [← hblind m, h, hblind]

namespace Alike

variable {s t : IncrementalStrategyState δ} {b : Bar}

section

variable (h : Alike s t)
include h

theorem ingest5m : Agree (s.ingest5m b) (t.ingest5m b) Alike := by
  obtain ⟨m, hs, rfl, h15, h1, hsh⟩ := h
  refine (Agree.refl (s.atr5m.ingest b)).bind ?_
  rintro atr _ - - rfl
  exact ⟨m, hs, rfl, h15, h1, hsh⟩

theorem push15m : Agree (s.push15m b) (t.push15m b) Alike := by
  obtain ⟨m, hs, rfl, h15, h1, hsh⟩ := h
  refine (Agree.refl (s.atr15m.ingest b)).bind ?_
  rintro atr _ - - rfl
  exact ⟨lastN 98 (m ++ [b]), hs, rfl, h15.snoc hsh b, h1, by simp [length_lastN]⟩

theorem push1h : Agree (s.push1h b) (t.push1h b) Alike := by
  obtain ⟨m, hs, rfl, h15, h1, hsh⟩ := h
  refine (Agree.refl (s.atr1h.ingest b)).bind ?_
  rintro atr _ - - rfl
  have hhigh := @SameQuotes.pivotsAfter _ _ h1 isPivotHigh Bar.high (fun _ _ _ => rfl) fun _ => rfl
  have hlow := @SameQuotes.pivotsAfter _ _ h1 isPivotLow Bar.low (fun _ _ _ => rfl) fun _ => rfl
  exact ⟨m, lastN 10 (hs ++ [b]), by simp only [hhigh, hlow], h15, (h1.snoc b).lastN 10, hsh⟩

/-- The part of an ingestion that makes a derived bar. -/
theorem deriveWith {due : Prop} [Decidable due] {raised : ContinuationError}
    {derived : Except ContinuationError (List Bar)}
    {push : IncrementalStrategyState δ → Bar →
      Except ContinuationError (IncrementalStrategyState δ)} (hpush : ∀ b, Agree (push s b) (push t b) Alike) :
    Agree
      (if due then derived >>= fun bars => match bars with
        | [value] => push s value
        | _ => throw raised
      else .ok s)
      (if due then derived >>= fun bars => match bars with
        | [value] => push t value
        | _ => throw raised
      else .ok t) Alike := by
  split_ifs
  · rcases derived with err | (- | ⟨value, - | ⟨c, rest⟩⟩)
    · exact trivial
    · exact trivial
    · exact hpush value
    · exact trivial
  · exact h

theorem ingest : Agree (s.ingest b) (t.ingest b) Alike := by
  have h15 : ∀ {s t : IncrementalStrategyState δ}, Alike s t →
      Agree (s.ingest15m b) (t.ingest15m b) Alike := by
    rintro s t h
    obtain ⟨m, hs, rfl, -⟩ := id h
    exact h.deriveWith fun value => h.push15m
  have h1 : ∀ {s t : IncrementalStrategyState δ}, Alike s t →
      Agree (s.ingest1h b) (t.ingest1h b) Alike := by
    rintro s t h
    obtain ⟨m, hs, rfl, -⟩ := id h
    exact h.deriveWith fun value => h.push1h
  have hall : Agree (s.ingest5m b >>= fun s => s.ingest15m b >>= fun s => s.ingest1h b)
      (t.ingest5m b >>= fun t => t.ingest15m b >>= fun t => t.ingest1h b) Alike :=
    h.ingest5m.bind fun _ _ _ _ h₁ => (h15 h₁).bind fun _ _ _ _ h₂ => h1 h₂
  obtain ⟨m, hs, rfl, -⟩ := h
  unfold IncrementalStrategyState.ingest
  split_ifs
  · exact trivial
  · exact trivial
  · exact hall

theorem retain (l : EventLedger δ) : Alike (s.retainResult l) (t.retainResult l) := by
  obtain ⟨m, hs, rfl, h15, h1, hsh⟩ := h
  exact ⟨m, hs, rfl, h15, h1, hsh⟩

end

end Alike

/-! ### Their evaluations -/

section Evaluation

variable [LinearOrder δ] {sha256 : Preimage δ → δ}

omit [LinearOrder δ] in
theorem SameQuotes.bars1hOf {hs hs' : List Bar} (h : SameQuotes hs hs')
    {inputs inputs' : StrategyEvaluationInput δ} (hi : inputs.bars1h = some hs)
    (hi' : inputs'.bars1h = some hs') {α : Type} (next : Except KernelError α) :
    (TraderAssist.bars1hOf inputs >>= fun _ => next) = (TraderAssist.bars1hOf inputs' >>= fun _ => next) := by
  have hlen := h.length
  have hval := h.validate (some .h1)
  unfold TraderAssist.bars1hOf
  rw [hi, hi']
  rcases hs with - | ⟨b, hs⟩ <;> rcases hs' with - | ⟨b', hs'⟩
  · rfl
  · cases hlen
  · cases hlen
  · dsimp only
    rw [hval]
    rcases validateSeries (b' :: hs') (some .h1) with err | - <;> rfl

/-- With a given book, context and ATR an evaluation reads the quotes of the
derived bars only. -/
theorem evaluateStrategy_quotes {m m' hs hs' : List Bar} (h15 : SameQuotes m m')
    (h1 : SameQuotes hs hs') {inputs : StrategyEvaluationInput δ} {book : ZoneBook δ}
    {context : HtfContext} {a15 : ℚ} (hm : inputs.bars15m = some m) (hhs : inputs.bars1h = some hs)
    (hval : inputs.mandatoryDataValid = true)
    (hbook : inputs.zoneBook = some book) (hctx : inputs.htfContextOverride = some context)
    (ha15 : inputs.a15Override = some a15) (l : EventLedger δ) :
    evaluateStrategy sha256 inputs l
      = evaluateStrategy sha256 { inputs with bars15m := some m', bars1h := some hs' } l := by
  have hpasses : ∀ r bars5m, runPasses sha256 r bars5m m (some a15) l
      = runPasses sha256 r bars5m m' (some a15) l := by
    intro r bars5m
    unfold runPasses rangePass
    simp only [h15.range]
  rw [evaluateStrategy_eq sha256 hval,
    @evaluateStrategy_eq _ _ _ { inputs with bars15m := some m', bars1h := some hs' } hval]
  rcases e : inputs.bars5m.getLast? with - | current
  · simp only [readingsOf, prepare, bars15mOf, bookOf, givenOr, hm, hbook, hctx, ha15, e,
      h15.validate, bind_assoc, pure_bind]
    exact bind_congr fun _ => bind_congr fun _ => h1.bars1hOf hhs rfl _
  · simp only [readingsOf, prepare, bars15mOf, bookOf, givenOr, hm, hbook, hctx, ha15, e,
      h15.validate, bind_assoc, pure_bind, hpasses, resultOf]
    exact bind_congr fun _ => bind_congr fun _ => h1.bars1hOf hhs rfl _

variable {s t : IncrementalStrategyState δ}

theorem Alike.evaluate (h : Alike s t) (minimumTick : ℚ)
    (link : Option ScannerLinkage) :
    s.evaluate sha256 minimumTick link = t.evaluate sha256 minimumTick link := by
  obtain ⟨m, hs, rfl, h15, h1, -⟩ := h
  have hctx : ({ s with bars15m := m, bars1h := hs } : IncrementalStrategyState δ).htfContextOf
      = s.htfContextOf := by
    unfold IncrementalStrategyState.htfContextOf
    simp only [h1.length, h1.efficiency, h1.move]
  unfold IncrementalStrategyState.evaluate IncrementalStrategyState.evaluationInput
  simp only [hctx, ← h15.quotes.length, ← h15.buildZoneBook]
  rcases s.atr5m.value with - | a5
  · rfl
  · rcases s.atr15m.value with - | a15
    · rfl
    · split_ifs
      · rfl
      · generalize liftKernel (buildZoneBook sha256 s.bars15m _ _ _) = book
        generalize liftKernel s.htfContextOf = context
        rcases book with err | book
        · rfl
        · rcases context with err | context
          · rfl
          · exact congrArg liftKernel
              (evaluateStrategy_quotes h15.quotes h1 rfl rfl rfl rfl rfl rfl s.ledger)

end Evaluation

/-! ### The restart -/

/-- Every derived volume whose candle id counts is canonical. -/
def VolumesKept (bars15m : List Bar) : Prop :=
  ∀ i b, bars15m[i]? = some b → Counts bars15m i →
    TraderAssist.canonical b.volumeRepr = b.volumeRepr

theorem VolumesKept.alikeBars (h : VolumesKept bars)
    (hquoted : ∀ b ∈ bars, b.Quoted) : AlikeBars bars (bars.map Bar.canonical) := by
  refine ⟨?_, fun i hi => ?_⟩
  · unfold SameQuotes
    rw [List.map_map]
    exact List.map_congr_left fun b hb => (hquoted b hb).sansVolume.symm
  · rw [List.getElem?_map]
    rcases e : bars[i]? with - | b
    · rfl
    · have hb := Bar.canonical_eq_iff.mpr ⟨hquoted b (List.mem_of_getElem? e), h i b e hi⟩
      rw [Option.map_some, hb]

section Restart

variable [LinearOrder δ] {sha256 : Preimage δ → δ} {market : Text} {s s' : IncrementalStrategyState δ}

omit [LinearOrder δ] in
theorem Sound.restored_alike (h : Sound market s)
    (hres : restored s = .ok s') (hkept : VolumesKept s.bars15m) : Alike s s' := by
  have hcodec := continuationCodec_restores (marketId_ne_of_restored hres) h.bars5m h.ledger
    h.length5m h.length15m h.length1h h.atr15m
  obtain rfl := hcodec.roundTrip hres
  refine ⟨_, _, rfl, hkept.alikeBars h.bars15m, ?_, h.length15m⟩
  unfold SameQuotes
  rw [List.map_map]
  exact List.map_congr_left fun b hb => (h.bars1h b hb).sansVolume.symm

theorem Alike.step (h : Alike s t) (x : ReplayBar) :
    Alike (incrementalStep sha256 s x).1 (incrementalStep sha256 t x).1
      ∧ Agree (incrementalStep sha256 s x).2 (incrementalStep sha256 t x).2 Eq := by
  have hing := @Alike.ingest δ s t x.bar h
  unfold incrementalStep
  generalize s.ingest x.bar = r at hing ⊢
  generalize t.ingest x.bar = r' at hing ⊢
  rcases r with err | s₁ <;> rcases r' with err' | t₁
  · exact ⟨h, trivial⟩
  · exact hing.elim
  · exact hing.elim
  · have hali : Alike s₁ t₁ := hing
    dsimp only
    rw [hali.evaluate]
    rcases t₁.evaluate sha256 x.minimumTick x.scannerLinkage with err | result
    · exact ⟨hali, trivial⟩
    · exact ⟨hali.retain result.ledger, rfl⟩

/-- **A restart goes on like the run it continues**, as long as the derived
volumes whose candle ids count are canonical when the checkpoint is written: on
every continuation the two return on the same bars with the same results, and
hold the same ledger. -/
theorem checkpoint_transparent (h : Reached sha256 market s)
    (hrestored : restored s = .ok s') (hkept : VolumesKept s.bars15m) (xs : List ReplayBar) :
    List.Forall₂ (fun a b => Agree a b Eq) (outputs (incrementalStep sha256) s xs)
        (outputs (incrementalStep sha256) s' xs) ∧ (stateAfter (incrementalStep sha256) s xs).ledger
        = (stateAfter (incrementalStep sha256) s' xs).ledger := by
  have halike := h.sound.restored_alike hrestored hkept
  refine ⟨outputs_forall₂ (R := fun _ => Alike) (fun _ x _ _ _ hst => hst.step x) xs [] s s'
    (List.nil_append xs) halike, ?_⟩
  obtain ⟨m, hs, heq, -⟩ := stateAfter_related (R := Alike) (fun x _ _ hst => (hst.step x).1) xs halike
  rw [heq]

theorem Reached.ingestAll :
    ∀ {s s' : IncrementalStrategyState δ}, Reached sha256 market s → (∀ b ∈ bars, b.Stored) →
      bars.foldlM IncrementalStrategyState.ingest s = .ok s' → Reached sha256 market s' := by
  induction bars with
  | nil =>
    intro s s' h _ hok
    cases hok
    exact h
  | cons b bars ih =>
    intro s s' h hb hok
    obtain ⟨s₁, hok₁, hok⟩ := of_bind hok
    exact ih (.ingest h (hb b (.head _)) hok₁)
      (fun c hc => hb c (.tail _ hc)) hok

end Restart

/-! ### The swing history with other volumes -/

/-- The swing history as the store returns it, with these volumes in cents. -/
def tradedBar (volume : ℕ → ℕ) (k : ℕ) : Bar := (swingAt .m5 (volume k) k).canonical

def tradedState (volume : ℕ → ℕ) :
    Except ContinuationError (IncrementalStrategyState (List ℕ)) :=
  ((List.range 54).map (tradedBar volume)).foldlM IncrementalStrategyState.ingest
    { marketId := ['M'] }

theorem tradedState_reached {volume : ℕ → ℕ} {s : IncrementalStrategyState (List ℕ)}
    (h : tradedState volume = .ok s) : Reached Digest.nested ['M'] s := by
  refine Reached.start.ingestAll (fun b hb => ?_) h
  obtain ⟨k, -, rfl⟩ := List.mem_map.mp hb
  exact Bar.canonical_stored _

/-- The dip that makes a sweep of the support. -/
def dipBar : ReplayBar := ⟨swingDip.canonical, 1 / 100, none⟩

/-- The ids of the decisions on the dip. -/
def dipIds (s : IncrementalStrategyState (List ℕ)) : Option (List (List ℕ)) :=
  (incrementalStep Digest.nested s dipBar).2.toOption.map fun result =>
    result.decisions.map StrategyDecision.marketEventId

/-- **A restart changes identities.**  The 5m volumes 0.5, 0.5 and 1 give 15m
bars of volume 2.0, which the checkpoint writes as 2.  The state that goes on and
the one that was restored give the dip's events different ids. -/
theorem restart_changes_ids : ∃ s s' : IncrementalStrategyState (List ℕ),
    Reached Digest.nested ['M'] s ∧ restored s = .ok s' ∧ (∃ ids, dipIds s = some ids)
      ∧ dipIds s' ≠ dipIds s := by
  have heval : ((tradedState fun k => if k % 3 = 2 then 100 else 50).toOption.bind fun s =>
      (restored s).toOption.map fun s' =>
        ((dipIds s).isSome, decide (dipIds s' = dipIds s))) = some (true, false) := by
    decide +kernel
  rcases hs : tradedState fun k => if k % 3 = 2 then 100 else 50 with err | s
  · rw [hs] at heval
    cases heval
  · rcases hs' : restored s with err | s'
    · simp [hs, hs', Except.toOption] at heval
    · simp only [hs, hs', Except.toOption, Option.bind_some, Option.map_some, Option.some.injEq,
        Prod.mk.injEq, decide_eq_false_iff_not] at heval
      exact ⟨s, s', tradedState_reached hs, hs', Option.isSome_iff_exists.mp heval.1, heval.2⟩

/-- With whole volumes the restored state gives the dip the same ids. -/
theorem checkpoint_transparent_traded : ∃ s s' : IncrementalStrategyState (List ℕ),
    Reached Digest.nested ['M'] s ∧ restored s = .ok s' ∧ VolumesKept s.bars15m
      ∧ List.Forall₂ (fun a b => Agree a b Eq) (outputs (incrementalStep Digest.nested) s [dipBar])
        (outputs (incrementalStep Digest.nested) s' [dipBar]) := by
  have heval : ((tradedState fun _ => 100).toOption.bind fun s =>
      (restored s).toOption.map fun _ => s.bars15m.all fun b =>
        decide (TraderAssist.canonical b.volumeRepr = b.volumeRepr)) = some true := by
    decide +kernel
  rcases hs : tradedState fun _ => 100 with err | s
  · rw [hs] at heval
    cases heval
  · rcases hs' : restored s with err | s'
    · simp [hs, hs', Except.toOption] at heval
    · simp only [hs, hs', Except.toOption, Option.bind_some, Option.map_some, Option.some.injEq,
        List.all_eq_true, decide_eq_true_eq] at heval
      have hkept : VolumesKept s.bars15m := fun i b hb _ => heval b (List.mem_of_getElem? hb)
      exact ⟨s, s', tradedState_reached hs, hs', hkept,
        (checkpoint_transparent (tradedState_reached hs) hs' hkept [dipBar]).1⟩

end TraderAssist
