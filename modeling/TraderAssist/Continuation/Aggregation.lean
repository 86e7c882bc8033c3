/-
TraderAssist/Continuation/Aggregation.lean

Aggregating a growing history.

For a chronological 5m history, a new bar either completes the bucket it is in,
and then the derived bars gain one bar that can be read off the last three (or
twelve) 5m bars alone, or it changes nothing (`mergeBuckets_snoc`).  The derived
bars are themselves chronological (`derived_chronological`).
-/
import TraderAssist.Continuation.State

namespace TraderAssist

open Py

/-! ### Chronological histories -/

/-- Bars of one market and interval, aligned and without a gap. -/
structure Chronological (market : Text) (interval : Interval) (bars : List Bar) : Prop where
  bar : ∀ b ∈ bars,
    b.marketId = market ∧ b.interval = interval ∧ b.openTimeMs % interval.ms = 0
  chain : bars.IsChain fun a b => b.openTimeMs = a.openTimeMs + interval.ms

namespace Chronological

variable {market : Text} {interval : Interval} {bars more : List Bar} {b : Bar}

theorem nil : Chronological market interval [] := ⟨by simp, .nil⟩

theorem left (h : Chronological market interval (bars ++ more)) : Chronological market interval bars :=
  ⟨fun b hb => h.bar b (List.mem_append_left _ hb), (List.isChain_append.mp h.chain).1⟩

theorem right (h : Chronological market interval (bars ++ more)) : Chronological market interval more :=
  ⟨fun b hb => h.bar b (List.mem_append_right _ hb), (List.isChain_append.mp h.chain).2.1⟩

theorem lastN (h : Chronological market interval bars) (n : ℕ) :
    Chronological market interval (Py.lastN n bars) :=
  @right market interval (bars.take (bars.length - n)) _ (by rw [lastN_eq_drop, List.take_append_drop]; exact h)

theorem snoc_iff : Chronological market interval (bars ++ [b]) ↔ Chronological market interval bars
      ∧ (b.marketId = market ∧ b.interval = interval ∧ b.openTimeMs % interval.ms = 0)
      ∧ ∀ a, bars.getLast? = some a → b.openTimeMs = a.openTimeMs + interval.ms := by
  constructor
  · intro h
    refine ⟨h.left, h.bar b (by simp), fun a ha => ?_⟩
    exact (List.isChain_append.mp h.chain).2.2 a ha b (by simp)
  · rintro ⟨h, hb, hlast⟩
    refine ⟨forall_mem_snoc h.bar hb, List.isChain_append.mpr ⟨h.chain, .singleton b, ?_⟩⟩
    intro a ha y hy
    obtain rfl : b = y := by simpa using hy
    exact hlast a ha

section

variable (h : Chronological market interval (b :: bars))
include h

/-- The open times count up from the first. -/
theorem opens : (b :: bars).map Bar.openTimeMs
      = (List.range (bars.length + 1)).map fun i => b.openTimeMs + i * interval.ms := by
  induction bars generalizing b with
  | nil => simp
  | cons c bars ih =>
    have hc := (List.isChain_cons_cons.mp h.chain).1
    rw [List.map_cons, ih (@right market interval [b] _ h), List.length_cons, @List.range_succ_eq_map (bars.length + 1)]
    simp only [List.map_cons, List.map_map, Nat.zero_mul, Nat.add_zero, List.cons.injEq, true_and]
    refine List.map_congr_left fun i _ => ?_
    simp only [Function.comp, hc, Nat.succ_eq_add_one]
    ring

theorem open_of_mem {c : Bar} (hc : c ∈ b :: bars) :
    ∃ i, i ≤ bars.length ∧ c.openTimeMs = b.openTimeMs + i * interval.ms := by
  have hmem : c.openTimeMs ∈ (b :: bars).map Bar.openTimeMs := List.mem_map_of_mem hc
  rw [h.opens] at hmem
  obtain ⟨i, hi, heq⟩ := List.mem_map.mp hmem
  exact ⟨i, by simpa [Nat.lt_succ_iff] using hi, heq.symm⟩

theorem last_open {c : Bar} (hc : (b :: bars).getLast? = some c) :
    c.openTimeMs = b.openTimeMs + bars.length * interval.ms := by
  have := congrArg List.getLast? h.opens
  rw [List.getLast?_map, hc, List.getLast?_map, List.getLast?_range] at this
  simpa using this

end

theorem open_lt_last (h : Chronological market interval (bars ++ [b])) {c : Bar} (hc : c ∈ bars) :
    c.openTimeMs < b.openTimeMs := by
  have hms : 0 < interval.ms := by cases interval <;> decide
  have hch : (bars ++ [b]).IsChain fun a b => a.openTimeMs < b.openTimeMs :=
    h.chain.imp fun a b hab => by omega
  exact (List.pairwise_append.mp hch.pairwise).2.2 c hc b (by simp)

section

variable (h : Chronological market interval bars)
include h

theorem step_of_mem_zip {x y : Bar}
    (hmem : (x, y) ∈ bars.zip bars.tail) : y.openTimeMs = x.openTimeMs + interval.ms := by
  induction bars with
  | nil => simp at hmem
  | cons a bars ih =>
    cases bars with
    | nil => simp at hmem
    | cons c bars =>
      simp only [List.tail_cons, List.zip_cons_cons, List.mem_cons, Prod.mk.injEq] at hmem
      rcases hmem with ⟨rfl, rfl⟩ | hmem
      · exact (List.isChain_cons_cons.mp h.chain).1
      · exact ih (@right market interval [a] _ h) hmem

/-- `validate_series` accepts a chronological history. -/
theorem validateFrom_ok : ∀ previous : Option ℕ,
      (∀ p, previous = some p → ∀ c, bars.head? = some c → c.openTimeMs = p + interval.ms) →
      validateFrom market interval previous bars = .ok () := by
  induction bars with
  | nil => exact fun _ _ => rfl
  | cons c bars ih =>
    intro previous hprev
    obtain ⟨hm, hi, ha⟩ := h.bar c (.head _)
    have hgap : (previous.any fun p => decide (c.openTimeMs ≠ p + interval.ms)) = false := by
      cases previous with
      | none => rfl
      | some p => simpa using hprev p rfl c rfl
    unfold validateFrom
    rw [if_neg (by simp [hm, hi]), if_neg (by simp [ha]), if_neg (by rw [hgap]; decide)]
    refine ih (@right market interval [c] _ h) _ fun p hp d hd => ?_
    obtain rfl : c.openTimeMs = p := by simpa using hp
    exact List.isChain_cons.mp h.chain |>.1 d hd

theorem validate (hne : bars ≠ []) :
    validateSeries bars (some interval) = .ok () ∧ validateSeries bars none = .ok () := by
  cases bars with
  | nil => exact absurd rfl hne
  | cons c bars =>
    obtain ⟨hm, hi, -⟩ := h.bar c (.head _)
    have hok := h.validateFrom_ok none nofun
    unfold validateSeries
    simp only [Option.getD_some, Option.getD_none, hm, hi]
    exact ⟨hok, hok⟩

end

end Chronological

/-! ### Buckets -/

/-- The position of a 5m bar in its bucket of `count` bars. -/
def bucketOffset (count : ℕ) (b : Bar) : ℕ := b.openTimeMs / fiveMinutesMs % count

section Buckets

variable {count : ℕ} {market : Text} {bars : List Bar} {a b : Bar}

section

variable (hcount : count = 3 ∨ count = 12)
include hcount

theorem bucketOffset_lt : bucketOffset count b < count :=
  Nat.mod_lt _ (by rcases hcount with rfl | rfl <;> decide)

theorem completes_iff : completes count b = true ↔ bucketOffset count b + 1 = count := by
  simp only [completes, bucketOffset, decide_eq_true_eq]
  rcases hcount with rfl | rfl <;> simp only [fiveMinutesMs] <;> omega

theorem bucketOf_add_offset (hb : b.openTimeMs % fiveMinutesMs = 0) :
    bucketOf (count * fiveMinutesMs) b + bucketOffset count b * fiveMinutesMs = b.openTimeMs := by
  rcases hcount with rfl | rfl <;>
    simp only [bucketOf, bucketOffset, fiveMinutesMs] at hb ⊢ <;> omega

end

theorem bucketOf_mod (count : ℕ) (b : Bar) :
    bucketOf (count * fiveMinutesMs) b % (count * fiveMinutesMs) = 0 := by
  exact Nat.sub_mod_eq_zero_of_mod_eq (Nat.mod_mod _ _).symm

theorem bucketOf_eq_of_open (hcount : count = 3 ∨ count = 12) {i : ℕ} (hi : i < count)
    (ha : a.openTimeMs = bucketOf (count * fiveMinutesMs) b + i * fiveMinutesMs) :
    bucketOf (count * fiveMinutesMs) a = bucketOf (count * fiveMinutesMs) b := by
  rcases hcount with rfl | rfl <;> simp only [bucketOf, fiveMinutesMs] at ha ⊢ <;> omega

/-- The next bar opens a new bucket or moves on in the same one. -/
theorem bucket_step (hcount : count = 3 ∨ count = 12) (ha : a.openTimeMs % fiveMinutesMs = 0)
    (hb : b.openTimeMs = a.openTimeMs + fiveMinutesMs) :
    (bucketOffset count b = 0 ∧ bucketOffset count a + 1 = count ∧ bucketOf (count * fiveMinutesMs) b
          = bucketOf (count * fiveMinutesMs) a + count * fiveMinutesMs)
      ∨ (bucketOffset count b = bucketOffset count a + 1
        ∧ bucketOf (count * fiveMinutesMs) b = bucketOf (count * fiveMinutesMs) a) := by
  rcases hcount with rfl | rfl <;>
    simp only [bucketOf, bucketOffset, fiveMinutesMs] at ha hb ⊢ <;> omega

variable {groups : List (ℕ × List Bar)}

theorem addToBucket_new {key : ℕ} (h : ∀ g ∈ groups, g.1 ≠ key) :
    addToBucket key b groups = groups ++ [(key, [b])] := by
  induction groups with
  | nil => rfl
  | cons g groups ih =>
    unfold addToBucket
    rw [if_neg (h g (.head _)), ih fun g' hg' => h g' (.tail _ hg')]
    rfl

theorem addToBucket_last {key : ℕ} {members : List Bar}
    (h : ∀ g ∈ groups, g.1 ≠ key) :
    addToBucket key b (groups ++ [(key, members)]) = groups ++ [(key, members ++ [b])] := by
  induction groups with
  | nil => simp [addToBucket]
  | cons g groups ih =>
    rw [List.cons_append]
    unfold addToBucket
    rw [if_neg (h g (.head _)), ih fun g' hg' => h g' (.tail _ hg')]
    rfl

theorem groupBuckets_append (ms : ℕ) : groupBuckets ms (bars ++ [b])
    = addToBucket (bucketOf ms b) b (groupBuckets ms bars) := by
  simp [groupBuckets, List.foldl_append]

/-- **The groups of a chronological history**: the last group holds the bars of
the current bucket, and the groups before it do not change any more. -/
theorem groupBuckets_snoc (hcount : count = 3 ∨ count = 12) (h : Chronological market .m5 (bars ++ [b])) :
    ∃ closed : List (ℕ × List Bar), groupBuckets (count * fiveMinutesMs) (bars ++ [b])
        = closed ++ [(bucketOf (count * fiveMinutesMs) b, lastN (bucketOffset count b + 1) (bars ++ [b]))]
      ∧ (∀ g ∈ closed, g.1 < bucketOf (count * fiveMinutesMs) b) ∧ closed.Pairwise (fun g g' => g.1 < g'.1)
      ∧ (groupBuckets (count * fiveMinutesMs) bars = closed
        ∨ 0 < bucketOffset count b ∧ groupBuckets (count * fiveMinutesMs) bars
          = closed ++ [(bucketOf (count * fiveMinutesMs) b, lastN (bucketOffset count b) bars)]) := by
  induction bars using List.reverseRecOn generalizing b with
  | nil =>
    refine ⟨[], ?_, by simp, .nil, .inl rfl⟩
    rw [lastN_eq_self (by simp)]
    rfl
  | append_singleton bars a ih =>
    obtain ⟨hbars, ⟨-, -, hb⟩, hstep⟩ := Chronological.snoc_iff.mp h
    obtain ⟨closed, hgrp, hlt, hpair, -⟩ := ih hbars
    have ha := (hbars.bar a (by simp)).2.2
    rw [groupBuckets_append, hgrp]
    rcases bucket_step hcount ha (hstep a (by simp)) with ⟨hzero, -, hnext⟩ | ⟨hsucc, hsame⟩
    · -- a new bucket: all groups so far are closed
      have hcount0 : 0 < count * fiveMinutesMs := by
        rcases hcount with rfl | rfl <;> decide
      have hall : ∀ g ∈ closed ++ [(bucketOf (count * fiveMinutesMs) a,
          lastN (bucketOffset count a + 1) (bars ++ [a]))],
          g.1 < bucketOf (count * fiveMinutesMs) b := by
        refine forall_mem_snoc (fun g hg => ?_) (by dsimp only; omega)
        have := hlt g hg
        omega
      refine ⟨_, ?_, hall, ?_, .inl rfl⟩
      · rw [addToBucket_new fun g hg => (hall g hg).ne, hzero]
        simp [lastN]
      · exact pairwise_snoc hpair hlt
    · refine ⟨closed, ?_, fun g hg => hsame ▸ hlt g hg, hpair, .inr ⟨by omega, ?_⟩⟩
      · rw [hsame, addToBucket_last fun g hg => (hlt g hg).ne, hsucc, @lastN_append _ _ _ [b] (by simp)]
        simp
      · rw [hsame, hsucc]

end Buckets

/-! ### Merging a bucket -/

/-- The two derived time frames: minutes, 5m bars to a bar, and interval. -/
def Timeframe (minutes count : ℕ) (interval : Interval) : Prop :=
  (minutes = 15 ∧ count = 3 ∧ interval = .m15) ∨ (minutes = 60 ∧ count = 12 ∧ interval = .h1)

namespace Timeframe

variable {minutes count : ℕ} {interval : Interval} (h : Timeframe minutes count interval)

include h

theorem count_eq : count = 3 ∨ count = 12 := by
  rcases h with ⟨-, h, -⟩ | ⟨-, h, -⟩
  · exact .inl h
  · exact .inr h

theorem ms_eq : interval.ms = count * fiveMinutesMs := by
  rcases h with ⟨-, rfl, rfl⟩ | ⟨-, rfl, rfl⟩ <;> rfl

/-- What the source computes from the minutes. -/
theorem constants : minutes * 60000 = count * fiveMinutesMs ∧ minutes / 5 = count
    ∧ (if minutes = 15 then Interval.m15 else Interval.h1) = interval := by
  rcases h with ⟨rfl, rfl, rfl⟩ | ⟨rfl, rfl, rfl⟩ <;> exact ⟨rfl, rfl, rfl⟩

end Timeframe

theorem Bar.make_ok {marketId : Text} {interval : Interval} {openTimeMs closeTimeMs : ℕ}
    {o h l c v : Decimal} {source : Text} (hm : marketId ≠ []) (ht : openTimeMs < closeTimeMs)
    (hp : 0 < o.toRat ∧ 0 < h.toRat ∧ 0 < l.toRat ∧ 0 < c.toRat) (hv : 0 ≤ v.toRat)
    (hr : (o.toRat ≤ h.toRat ∧ c.toRat ≤ h.toRat) ∧ l.toRat ≤ o.toRat ∧ l.toRat ≤ c.toRat) :
    ∃ value, Bar.make marketId interval openTimeMs closeTimeMs o h l c v source = .ok value
      ∧ value.marketId = marketId ∧ value.interval = interval ∧ value.openTimeMs = openTimeMs := by
  unfold Bar.make
  rw [dif_pos hm, dif_pos ht, dif_pos hp, dif_pos hv, dif_pos hr]
  exact ⟨_, rfl, rfl, rfl, rfl⟩

theorem mergeBucket_short {interval : Interval} {required bucket : ℕ} {members : List Bar}
    (h : members.length ≠ required) : mergeBucket interval required bucket members = .ok none := by
  unfold mergeBucket
  rw [if_pos]
  intro heq
  have := congrArg List.length heq
  simp only [List.length_map, List.length_range] at this
  exact h this

/-- The bars of a complete bucket merge to a valid bar. -/
theorem mergeBucket_full {market : Text} {interval : Interval} {first : Bar} {rest : List Bar}
    (h : Chronological market .m5 (first :: rest)) :
    ∃ value, mergeBucket interval (rest.length + 1) first.openTimeMs (first :: rest) = .ok (some value)
      ∧ value.marketId = market ∧ value.interval = interval ∧ value.openTimeMs = first.openTimeMs := by
  have hlast : rest.getLast?.getD first ∈ first :: rest := by
    rcases e : rest.getLast? with - | last
    · simp
    · exact List.mem_cons_of_mem _ (List.mem_of_getLast? e)
  have hopen : first.openTimeMs ≤ (rest.getLast?.getD first).openTimeMs := by
    have hmem : (rest.getLast?.getD first).openTimeMs ∈ (first :: rest).map Bar.openTimeMs :=
      List.mem_map_of_mem hlast
    rw [h.opens] at hmem
    obtain ⟨i, -, hi⟩ := List.mem_map.mp hmem
    omega
  have hhigh : ∀ b ∈ first :: rest,
      b.high ≤ (Decimal.maxFirst first.highRepr (rest.map Bar.highRepr)).toRat := fun b hb =>
    (Decimal.maxFirst_spec _ _).2 _ (List.mem_map_of_mem hb)
  have hlow : ∀ b ∈ first :: rest,
      (Decimal.minFirst first.lowRepr (rest.map Bar.lowRepr)).toRat ≤ b.low := fun b hb =>
    (Decimal.minFirst_spec _ _).2 _ (List.mem_map_of_mem hb)
  have hpos : 0 < (Decimal.minFirst first.lowRepr (rest.map Bar.lowRepr)).toRat := by
    have hmem := (Decimal.minFirst_spec first.lowRepr (rest.map Bar.lowRepr)).1
    rw [← List.map_cons] at hmem
    obtain ⟨b, -, hb⟩ := List.mem_map.mp hmem
    rw [← hb]
    exact b.low_pos
  have hfst : first ∈ first :: rest := .head _
  have hvol : 0 ≤ (Decimal.sum ((first :: rest).map Bar.volumeRepr)).toRat := by
    refine Decimal.sum_toRat_nonneg fun d hd => ?_
    obtain ⟨b, -, rfl⟩ := List.mem_map.mp hd
    exact b.volume_nonneg
  obtain ⟨value, hmake, hm, hi, ho⟩ := @Bar.make_ok _ interval _ _ _ _ _ _ _ causalLocalSource
    first.marketId_ne
    (hopen.trans_lt (rest.getLast?.getD first).times)
    ⟨first.open_pos, first.high_pos.trans_le (hhigh first hfst), hpos,
      (rest.getLast?.getD first).close_pos⟩ hvol
    ⟨⟨first.open_le_high.trans (hhigh first hfst),
      (rest.getLast?.getD first).close_le_high.trans (hhigh _ hlast)⟩,
      (hlow first hfst).trans first.low_le_open,
      (hlow _ hlast).trans (rest.getLast?.getD first).low_le_close⟩
  refine ⟨value, ?_, hm.trans (h.bar first hfst).1, hi, ho⟩
  unfold mergeBucket
  dsimp only
  have hops : (first :: rest).map Bar.openTimeMs
      = (List.range (rest.length + 1)).map fun index => first.openTimeMs + index * fiveMinutesMs :=
    h.opens
  rw [if_neg (not_not.mpr hops), hmake]
  rfl

/-! ### A growing history -/

section Growing

variable {minutes count : ℕ} {interval : Interval} {market : Text} {bars : List Bar} {b : Bar}

/-- The bars of the complete groups. -/
def mergeGroups (interval : Interval) (count : ℕ) (groups : List (ℕ × List Bar)) :
    Except KernelError (List Bar) :=
  (fun merged => merged.filterMap id) <$>
    groups.mapM fun g => mergeBucket interval count g.1 g.2

theorem mergeGroups_snoc {g : ℕ × List Bar} {o : Option Bar}
    (hg : mergeBucket interval count g.1 g.2 = .ok o) : mergeGroups interval count (groups ++ [g])
      = (fun merged => merged ++ o.toList) <$> mergeGroups interval count groups := by
  unfold mergeGroups
  rw [List.mapM_append]
  rcases e : groups.mapM (fun g => mergeBucket interval count g.1 g.2) with err | merged
  · simp only [e, bind, Except.bind, Functor.map, Except.map]
  · simp only [e, bind, Except.bind, List.mapM_cons, List.mapM_nil, hg, pure, Except.pure,
      Functor.map, Except.map, List.filterMap_append]
    cases o <;> rfl

theorem mergeBuckets_eq (htf : Timeframe minutes count interval)
    (hpair : (groupBuckets (count * fiveMinutesMs) bars).Pairwise fun g g' => g.1 < g'.1) :
    mergeBuckets bars minutes = mergeGroups interval count (groupBuckets (count * fiveMinutesMs) bars) := by
  have hsort : sortBy Prod.fst (groupBuckets (count * fiveMinutesMs) bars)
      = groupBuckets (count * fiveMinutesMs) bars :=
    List.Pairwise.insertionSort_eq (hpair.imp fun h => h.le)
  obtain ⟨hms, hreq, hint⟩ := htf.constants
  unfold mergeBuckets
  simp only [hms, hreq, hint, hsort]
  rfl

theorem aggregate_eq (htf : Timeframe minutes count interval) (h : Chronological market .m5 bars)
    (hne : bars ≠ []) : aggregateClosed5mCausally bars minutes = mergeBuckets bars minutes := by
  have hgap : ((bars.zip bars.tail).any fun p =>
      decide (p.2.openTimeMs ≠ p.1.openTimeMs + fiveMinutesMs)) = false := by
    rw [List.any_eq_false]
    rintro ⟨x, y⟩ hmem
    have hstep : y.openTimeMs = x.openTimeMs + fiveMinutesMs := h.step_of_mem_zip hmem
    simpa using hstep
  unfold aggregateClosed5mCausally
  rw [if_neg (by rcases htf with ⟨rfl, -⟩ | ⟨rfl, -⟩ <;> decide), (h.validate hne).1]
  change (if _ then _ else _) = _
  rw [if_neg (by rw [hgap]; decide)]

/-- A history in one bucket. -/
theorem groupBuckets_single {ms key : ℕ} (hb : bucketOf ms b = key)
    (h : ∀ c ∈ bars, bucketOf ms c = key) : groupBuckets ms (b :: bars) = [(key, b :: bars)] := by
  induction bars using List.reverseRecOn with
  | nil => simp [groupBuckets, addToBucket, hb]
  | append_singleton bars c ih =>
    rw [← List.cons_append, groupBuckets_append, ih fun d hd => h d (by simp [hd]), h c (by simp)]
    simp [addToBucket]

/-- The groups of a chronological history are in order. -/
theorem groupBuckets_pairwise (hcount : count = 3 ∨ count = 12) (h : Chronological market .m5 bars) :
    (groupBuckets (count * fiveMinutesMs) bars).Pairwise fun g g' => g.1 < g'.1 := by
  rcases bars.eq_nil_or_concat with rfl | ⟨bars, b, rfl⟩
  · exact .nil
  · rw [List.concat_eq_append] at h ⊢
    obtain ⟨closed, hgrp, hlt, hpair, -⟩ := groupBuckets_snoc hcount h
    rw [hgrp]
    exact pairwise_snoc hpair hlt

/-- **One more bar.** If it completes its bucket, the derived history gains the
bar merged from the last `count` bars; otherwise it stays as it is. -/
theorem mergeBuckets_snoc (htf : Timeframe minutes count interval)
    (h : Chronological market .m5 (bars ++ [b])) {derived : List Bar}
    (hd : mergeBuckets bars minutes = .ok derived) :
    if count ≤ bars.length + 1 ∧ completes count b = true then
      ∃ value, mergeBuckets (bars ++ [b]) minutes = .ok (derived ++ [value])
        ∧ aggregateClosed5mCausally (lastN count (bars ++ [b])) minutes = .ok [value]
        ∧ value.marketId = market ∧ value.interval = interval
        ∧ value.openTimeMs = bucketOf (count * fiveMinutesMs) b
    else mergeBuckets (bars ++ [b]) minutes = .ok derived := by
  have hcount := htf.count_eq
  obtain ⟨closed, hgrp, hlt, hpair, hbef⟩ := groupBuckets_snoc hcount h
  have hoff := @bucketOffset_lt count b hcount
  have hcomp := @completes_iff count b hcount
  -- the open group, if there is one before the bar, is incomplete and adds nothing
  have hclo : mergeGroups interval count closed = .ok derived := by
    rw [mergeBuckets_eq htf (groupBuckets_pairwise hcount h.left)] at hd
    rcases hbef with heq | ⟨-, heq⟩
    · rwa [heq] at hd
    · have hlen : (lastN (bucketOffset count b) bars).length ≠ count := by
        rw [length_lastN]
        omega
      rw [heq, mergeGroups_snoc (mergeBucket_short hlen)] at hd
      rcases hc : mergeGroups interval count closed with err | merged
      · rw [hc] at hd
        cases hd
      · rw [hc] at hd
        simpa [Functor.map, Except.map] using hd
  have haft := mergeBuckets_eq htf (groupBuckets_pairwise hcount h)
  split_ifs with hcase
  · obtain ⟨hlong, hdone⟩ := hcase
    rw [hcomp] at hdone
    have hmems : (lastN count (bars ++ [b])).length = count := by
      rw [length_lastN, List.length_append, List.length_singleton]
      omega
    have hchr := h.lastN count
    rcases hlist : lastN count (bars ++ [b]) with - | ⟨first, rest⟩
    · rw [hlist, List.length_nil] at hmems
      omega
    · rw [hlist] at hchr hmems
      rw [List.length_cons] at hmems
      have hlast : b.openTimeMs = first.openTimeMs + rest.length * fiveMinutesMs :=
        hchr.last_open (by rw [← hlist, getLast?_lastN (by omega)]; simp)
      have hfst : first.openTimeMs = bucketOf (count * fiveMinutesMs) b := by
        have := bucketOf_add_offset hcount (h.bar b (by simp)).2.2
        have hlen : rest.length = bucketOffset count b := by omega
        rw [hlen] at hlast
        omega
      obtain ⟨value, hmerge, hm, hi, ho⟩ := @mergeBucket_full market interval _ _ hchr
      rw [hmems, hfst] at hmerge
      refine ⟨value, ?_, ?_, hm, hi, ho.trans hfst⟩
      · rw [haft, hgrp, hdone, hlist, mergeGroups_snoc hmerge, hclo]
        rfl
      · have hne : first :: rest ≠ [] := by simp
        have hsame : ∀ c ∈ first :: rest,
            bucketOf (count * fiveMinutesMs) c = bucketOf (count * fiveMinutesMs) b := by
          intro c hc
          obtain ⟨i, hi, hopen⟩ := hchr.open_of_mem hc
          rw [hfst] at hopen
          exact bucketOf_eq_of_open hcount (by omega) hopen
        rw [aggregate_eq htf hchr hne, mergeBuckets_eq htf (groupBuckets_pairwise hcount hchr),
          groupBuckets_single (hsame first (by simp)) fun c hc => hsame c (.tail _ hc)]
        exact @mergeGroups_snoc count interval []
          (bucketOf (count * fiveMinutesMs) b, first :: rest) _ hmerge
  · have hlen : (lastN (bucketOffset count b + 1) (bars ++ [b])).length ≠ count := by
      rw [hcomp] at hcase
      rw [length_lastN, List.length_append, List.length_singleton]
      omega
    rw [haft, hgrp, mergeGroups_snoc (mergeBucket_short hlen), hclo]
    simp [Functor.map, Except.map]

end Growing

/-! ### The derived history -/

/-- `derived` are the bars of a time frame a chronological history yields. -/
structure Derived (market : Text) (minutes count : ℕ) (interval : Interval)
    (bars derived : List Bar) : Prop where
  eq : mergeBuckets bars minutes = .ok derived
  chronological : Chronological market interval derived
  enough : derived ≠ [] → count ≤ bars.length
  /-- The last derived bar is the current bucket if that is complete, else the one
  before. -/
  last : ∀ d b, derived.getLast? = some d → bars.getLast? = some b →
    d.openTimeMs + interval.ms = bucketOf (count * fiveMinutesMs) b
      + if completes count b then interval.ms else 0

namespace Derived

variable {minutes count : ℕ} {interval : Interval} {market : Text} {bars derived : List Bar}
variable {b : Bar}

section

variable (htf : Timeframe minutes count interval)
include htf

theorem nil : Derived market minutes count interval [] [] := by
  refine ⟨?_, .nil, fun h => absurd rfl h, fun d b hd => by cases hd⟩
  rfl

/-- **One more bar.** -/
theorem snoc (hd : Derived market minutes count interval bars derived)
    (h : Chronological market .m5 (bars ++ [b])) : if count ≤ bars.length + 1 ∧ completes count b = true then
      ∃ value, Derived market minutes count interval (bars ++ [b]) (derived ++ [value])
        ∧ aggregateClosed5mCausally (lastN count (bars ++ [b])) minutes = .ok [value]
    else Derived market minutes count interval (bars ++ [b]) derived := by
  have hcount := htf.count_eq
  have hms := htf.ms_eq
  have hsnoc := mergeBuckets_snoc htf h hd.eq
  obtain ⟨hbars, -, hstep⟩ := Chronological.snoc_iff.mp h
  -- where the derived history stands before the bar
  have hprev : ∀ d, derived.getLast? = some d → count ≤ bars.length ∧ ∃ a, bars.getLast? = some a
      ∧ ((bucketOffset count b = 0 ∧ bucketOffset count a + 1 = count
          ∧ bucketOf (count * fiveMinutesMs) b
            = bucketOf (count * fiveMinutesMs) a + count * fiveMinutesMs
          ∧ d.openTimeMs + interval.ms = bucketOf (count * fiveMinutesMs) a + interval.ms)
        ∨ (bucketOffset count b = bucketOffset count a + 1
          ∧ bucketOf (count * fiveMinutesMs) b = bucketOf (count * fiveMinutesMs) a
          ∧ d.openTimeMs + interval.ms = bucketOf (count * fiveMinutesMs) a)) := by
    intro d hlast
    have henou := hd.enough (by rintro rfl; simp at hlast)
    obtain ⟨a, ha⟩ : ∃ a, bars.getLast? = some a := by
      rcases e : bars.getLast? with - | a
      · rw [List.getLast?_eq_none_iff.mp e, List.length_nil] at henou
        omega
      · exact ⟨a, rfl⟩
    have hopen := hd.last d a hlast ha
    have hmod := (hbars.bar a (List.mem_of_getLast? ha)).2.2
    refine ⟨henou, a, ha, ?_⟩
    have hoff := @bucketOffset_lt count b hcount
    rcases bucket_step hcount hmod (hstep a ha) with ⟨h0, h1, h2⟩ | ⟨h1, h2⟩
    · rw [if_pos ((completes_iff hcount).mpr h1)] at hopen
      exact .inl ⟨h0, h1, h2, hopen⟩
    · have hno : ¬ completes count a = true := by
        rw [completes_iff hcount]
        omega
      rw [if_neg hno] at hopen
      exact .inr ⟨h1, h2, hopen⟩
  split_ifs at hsnoc ⊢ with hcase
  · obtain ⟨value, hmerge, hagg, hm, hi, ho⟩ := hsnoc
    have hdone := (completes_iff hcount).mp hcase.2
    refine ⟨value, ⟨hmerge, Chronological.snoc_iff.mpr ⟨hd.chronological, ⟨hm, hi, ?_⟩, ?_⟩,
      fun _ => by simpa using hcase.1, ?_⟩, hagg⟩
    · rw [hms, ho]
      exact bucketOf_mod count b
    · intro d hlast
      obtain ⟨-, a, -, ⟨h0, -⟩ | ⟨-, hb, hopen⟩⟩ := hprev d hlast
      · omega
      · rw [ho, hb, hopen]
    · intro d c hlast hc
      obtain rfl : value = d := by simpa using hlast
      obtain rfl : b = c := by simpa using hc
      rw [ho, if_pos hcase.2]
  · refine ⟨hsnoc, hd.chronological, fun hne => ?_, fun d c hlast hc => ?_⟩
    · have := hd.enough hne
      simp only [List.length_append, List.length_singleton]
      omega
    · obtain rfl : b = c := by simpa using hc
      obtain ⟨henou, a, -, hcases⟩ := hprev d hlast
      have hno : ¬ completes count b = true := fun hdone => hcase ⟨by omega, hdone⟩
      rw [if_neg hno, Nat.add_zero]
      rcases hcases with ⟨-, -, hb, hopen⟩ | ⟨-, hb, hopen⟩
      · rw [hopen, hb, hms]
      · rw [hopen, hb]

theorem exists_of_chronological (h : Chronological market .m5 bars) :
    ∃ derived, Derived market minutes count interval bars derived := by
  induction bars using List.reverseRecOn with
  | nil => exact ⟨[], .nil htf⟩
  | append_singleton bars b ih =>
    obtain ⟨derived, hd⟩ := ih h.left
    have hsnoc := hd.snoc htf h
    split_ifs at hsnoc
    · obtain ⟨value, hv, -⟩ := hsnoc
      exact ⟨_, hv⟩
    · exact ⟨_, hsnoc⟩

/-- Every derived bar stands for `count` bars, and the current bucket has begun. -/
theorem length_le
    (hd : Derived market minutes count interval bars derived) (h : Chronological market .m5 bars)
    (hne : derived ≠ []) (hb : bars.getLast? = some b) :
    derived.length * count + (bucketOffset count b + 1) % count ≤ bars.length := by
  have hcount := htf.count_eq
  induction bars using List.reverseRecOn generalizing derived b with
  | nil => simp at hb
  | append_singleton bars c ih =>
    obtain rfl : c = b := by simpa using hb
    obtain ⟨mid, hmid⟩ := exists_of_chronological htf h.left
    obtain ⟨hbars, -, hstep⟩ := Chronological.snoc_iff.mp h
    have hoff := @bucketOffset_lt count c hcount
    -- the bound before the bar, and how the bar moves on
    have hbef : mid ≠ [] → ∃ a, mid.length * count + (bucketOffset count a + 1) % count ≤ bars.length
        ∧ ((bucketOffset count c = 0 ∧ bucketOffset count a + 1 = count)
          ∨ bucketOffset count c = bucketOffset count a + 1) := by
      intro hmne
      have henou := hmid.enough hmne
      rcases e : bars.getLast? with - | a
      · rw [List.getLast?_eq_none_iff.mp e, List.length_nil] at henou
        omega
      · refine ⟨a, ih hmid h.left hmne e, ?_⟩
        have hmod := (hbars.bar a (List.mem_of_getLast? e)).2.2
        rcases bucket_step hcount hmod (hstep a e) with ⟨h0, h1, -⟩ | ⟨h1, -⟩
        · exact .inl ⟨h0, h1⟩
        · exact .inr h1
    have hsnoc := hmid.snoc htf h
    split_ifs at hsnoc with hcase
    · obtain ⟨value, hv, -⟩ := hsnoc
      obtain rfl : mid ++ [value] = derived := by simpa using hv.eq.symm.trans hd.eq
      have hdone := (completes_iff hcount).mp hcase.2
      rw [hdone, Nat.mod_self]
      simp only [List.length_append, List.length_singleton, Nat.succ_mul]
      by_cases hmne : mid = []
      · rw [hmne, List.length_nil]
        omega
      · obtain ⟨a, hle, ⟨h0, -⟩ | h1⟩ := hbef hmne
        · rcases hcount with rfl | rfl <;> omega
        · rw [← h1, Nat.mod_eq_of_lt hoff] at hle
          omega
    · obtain rfl : mid = derived := by simpa using hsnoc.eq.symm.trans hd.eq
      have hmore : ¬ bucketOffset count c + 1 = count := fun hdone =>
        hcase ⟨by have := hmid.enough hne; omega, (completes_iff hcount).mpr hdone⟩
      rw [Nat.mod_eq_of_lt (by omega), List.length_append, List.length_singleton]
      obtain ⟨a, hle, ⟨h0, h1⟩ | h1⟩ := hbef hne
      · omega
      · rw [← h1, Nat.mod_eq_of_lt hoff] at hle
        omega

/-- The derived history of a prefix is a prefix. -/
theorem isPrefix {more derived' : List Bar} (hd : Derived market minutes count interval bars derived)
    (h : Chronological market .m5 (bars ++ more))
    (hd' : Derived market minutes count interval (bars ++ more) derived') : derived <+: derived' := by
  induction more using List.reverseRecOn generalizing derived' with
  | nil =>
    have heq := hd.eq.symm.trans (by simpa using hd'.eq)
    obtain rfl : derived = derived' := by simpa using heq
    exact List.prefix_rfl
  | append_singleton more b ih =>
    rw [← List.append_assoc] at h hd'
    obtain ⟨mid, hmid⟩ := exists_of_chronological htf h.left
    have hsnoc := hmid.snoc htf h
    refine (ih h.left hmid).trans ?_
    split_ifs at hsnoc
    · obtain ⟨value, hv, -⟩ := hsnoc
      obtain rfl : mid ++ [value] = derived' := by simpa using hv.eq.symm.trans hd'.eq
      exact List.prefix_append _ _
    · obtain rfl : mid = derived' := by simpa using hsnoc.eq.symm.trans hd'.eq
      exact List.prefix_rfl

end

end Derived

end TraderAssist
