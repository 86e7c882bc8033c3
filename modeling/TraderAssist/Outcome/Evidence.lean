/-
TraderAssist/Outcome/Evidence.lean

The evidence slot of a minute.

A slot holds the retained bar and the hashes in conflict.  Both are functions of
the set of hashes seen (`MinuteSlot.Inv`): the retained bar has the least of them, and
they are in conflict when there are two or more.  Admitting a bar adds its hash
to the set (`MinuteSlot.Inv.step`), and an engine keeps the relation slot by slot over
every run (`EngineInv`).
-/
import TraderAssist.Outcome.Engine

namespace TraderAssist

open Py

variable {δ : Type} {bars : List OneMinuteBar}

/-! ### One slot -/

structure MinuteSlot (δ : Type) where
  retained : Option OneMinuteBar
  conflict : Option (Finset δ)

/-- The record of a set of hashes: two or more are in conflict. -/
def conflictRecord (hashes : Finset δ) : Option (Finset δ) :=
  if hashes.card ≤ 1 then none else some hashes

namespace MinuteSlot

variable [LinearOrder δ] (sha256 : MinutePayload → δ)

/-- What an admitted bar makes of its slot. -/
def step (slot : MinuteSlot δ) (bar : OneMinuteBar) : MinuteSlot δ :=
  match slot.retained with
  | none => { slot with retained := some bar }
  | some existing =>
    let old := existing.canonicalHash sha256
    let new := bar.canonicalHash sha256
    if old = new then slot
    else
      ⟨some (if new < old then bar else existing), some (slot.conflict.getD ∅ ∪ {old, new})⟩

/-- The hashes seen for a minute. -/
def seen (slot : MinuteSlot δ) : Finset δ :=
  slot.conflict.getD (slot.retained.elim ∅ fun bar => {bar.canonicalHash sha256})

/-- The retained bar and the record are those of the hashes seen. -/
structure Inv (slot : MinuteSlot δ) : Prop where
  conflict : slot.conflict = conflictRecord (slot.seen sha256)
  least : ∀ bar, slot.retained = some bar → bar.canonicalHash sha256 ∈ slot.seen sha256
    ∧ ∀ h ∈ slot.seen sha256, bar.canonicalHash sha256 ≤ h
  empty : slot.retained = none → slot.seen sha256 = ∅

variable {sha256}

theorem Inv.nil : Inv sha256 (⟨none, none⟩ : MinuteSlot δ) :=
  ⟨rfl, nofun, fun _ => rfl⟩

/-- **Admitting a bar** adds its hash to those seen, and keeps the relation. -/
theorem Inv.step {slot : MinuteSlot δ} (h : Inv sha256 slot) (bar : OneMinuteBar) :
    (slot.step sha256 bar).seen sha256 = insert (bar.canonicalHash sha256) (slot.seen sha256)
      ∧ Inv sha256 (slot.step sha256 bar) := by
  obtain ⟨retained, conflict⟩ := slot
  rcases retained with - | existing
  · -- the first variant of the minute
    have hseen := h.empty rfl
    obtain rfl : conflict = none := by
      rw [show conflict = _ from h.conflict, hseen]
      rfl
    refine ⟨by rw [hseen]; rfl, ?_, ?_, nofun⟩
    · simp [MinuteSlot.step, seen, conflictRecord]
    · rintro b hb
      obtain rfl : bar = b := Option.some.inj hb
      simp [MinuteSlot.step, seen]
  · obtain ⟨hmem, hmin⟩ := h.least existing rfl
    by_cases hsame : existing.canonicalHash sha256 = bar.canonicalHash sha256
    · -- a duplicate of the retained one
      have hstep : MinuteSlot.step sha256 ⟨some existing, conflict⟩ bar = ⟨some existing, conflict⟩ := by
        simp [MinuteSlot.step, hsame]
      rw [hstep]
      exact ⟨(Finset.insert_eq_of_mem (hsame ▸ hmem)).symm, h⟩
    · -- another variant: both hashes are recorded, the lesser is kept
      set old := existing.canonicalHash sha256 with hold
      set new := bar.canonicalHash sha256 with hnew
      have hhashes : conflict.getD ∅ ∪ {old, new}
          = insert new (seen sha256 ⟨some existing, conflict⟩) := by
        rcases conflict with - | hashes
        · ext x
          simp [seen, ← hold, or_comm]
        · ext x
          aesop
      have hstep : MinuteSlot.step sha256 ⟨some existing, conflict⟩ bar
          = ⟨some (if new < old then bar else existing),
            some (insert new (seen sha256 ⟨some existing, conflict⟩))⟩ := by
        simp [MinuteSlot.step, ← hold, ← hnew, hsame, hhashes]
      have hcard : ¬ (insert new (seen sha256 ⟨some existing, conflict⟩)).card ≤ 1 := by
        intro hle
        exact hsame (Finset.card_le_one.mp hle old (Finset.mem_insert_of_mem hmem) new
          (Finset.mem_insert_self _ _))
      rw [hstep]
      refine ⟨rfl, ?_, ?_, nofun⟩
      · exact (if_neg hcard).symm
      · intro b hb
        cases hb
        simp only [seen, Option.getD_some, Finset.mem_insert]
        split_ifs with hlt
        · refine ⟨.inl rfl, ?_⟩
          rintro x (rfl | hx)
          · exact le_rfl
          · exact hlt.le.trans (hmin x hx)
        · refine ⟨.inr hmem, ?_⟩
          rintro x (rfl | hx)
          · exact not_lt.mp hlt
          · exact hmin x hx

/-- **Admitting bars** adds their hashes. -/
theorem Inv.steps : ∀ {slot : MinuteSlot δ}, Inv sha256 slot →
    (bars.foldl (MinuteSlot.step sha256) slot).seen sha256
        = slot.seen sha256 ∪ (bars.map (OneMinuteBar.canonicalHash sha256)).toFinset
      ∧ Inv sha256 (bars.foldl (MinuteSlot.step sha256) slot) := by
  induction bars with
  | nil => exact fun h => ⟨by simp, h⟩
  | cons bar bars ih =>
    intro slot h
    obtain ⟨hseen, hinv⟩ := h.step bar
    obtain ⟨hseen', hinv'⟩ := ih hinv
    refine ⟨?_, hinv'⟩
    rw [List.foldl_cons, hseen', hseen]
    simp

theorem retained_step {slot : MinuteSlot δ} {bar b : OneMinuteBar}
    (h : (slot.step sha256 bar).retained = some b) : slot.retained = some b ∨ b = bar := by
  unfold MinuteSlot.step at h
  rcases e : slot.retained with - | existing
  · rw [e] at h
    exact .inr (Option.some.inj h).symm
  · rw [e] at h
    dsimp only at h
    split_ifs at h
    · exact .inl (e ▸ h)
    · exact .inr (Option.some.inj h).symm
    · exact .inl h

/-- A retained bar was there or has been admitted. -/
theorem retained_steps {b : OneMinuteBar} :
    ∀ {slot : MinuteSlot δ}, (bars.foldl (MinuteSlot.step sha256) slot).retained = some b →
      slot.retained = some b ∨ b ∈ bars := by
  induction bars with
  | nil => exact .inl
  | cons bar bars ih =>
    intro slot h
    rcases ih h with h | h
    · rcases retained_step h with h | rfl
      · exact .inl h
      · exact .inr (.head _)
    · exact .inr (.tail _ h)

end MinuteSlot

/-! ### The slots of an engine -/

namespace OutcomeEngine

/-- The evidence of an engine for a minute. -/
def slot (e : OutcomeEngine δ) (marketId : Text) (o : ℕ) : MinuteSlot δ :=
  ⟨(e.marketBars marketId).get? o, e.conflicts.get? (marketId, o)⟩

variable {e : OutcomeEngine δ} {m : Text} {o : ℕ}

theorem needed_iff : e.needed m o = true ↔ ∃ id s, e.states.get? id = some s ∧ s.Requires m o := by
  unfold needed
  rw [List.any_eq_true]
  constructor
  · rintro ⟨s, hs, hreq⟩
    obtain ⟨id, hid⟩ := Dict.mem_values.mp hs
    exact ⟨id, s, hid, of_decide_eq_true hreq⟩
  · rintro ⟨id, s, hid, hreq⟩
    exact ⟨s, Dict.mem_values.mpr ⟨id, hid⟩, decide_eq_true hreq⟩

theorem get?_putBar (m' : Text) (o' : ℕ) (bar : OneMinuteBar) : ((e.putBar m' o' bar).marketBars m).get? o
      = if m' = m ∧ o' = o then some bar else (e.marketBars m).get? o := by
  unfold putBar marketBars
  rw [Dict.get?_set]
  by_cases hm : m' = m
  · subst hm
    simp only [if_true, Option.getD_some, Dict.get?_set, true_and]
  · simp only [hm, if_false, false_and]

section Admission

variable [LinearOrder δ] {sha256 : MinutePayload → δ} {bar : OneMinuteBar}

@[simp] theorem states_admitBar : (e.admitBar sha256 bar).2.states = e.states := by
  unfold admitBar
  dsimp only
  split_ifs
  · split
    · rfl
    · split_ifs <;> rfl
  · rfl

/-- One admission changes the slot of its minute, if the bar is required. -/
theorem slot_admitBar : (e.admitBar sha256 bar).2.slot m o
    = if bar.marketId = m ∧ bar.openTimeMs = o ∧ e.requiresBar bar = true
      then (e.slot m o).step sha256 bar else e.slot m o := by
  unfold admitBar
  by_cases hreq : e.requiresBar bar = true
  · rw [if_pos hreq]
    simp only [hreq, and_true]
    by_cases hkey : bar.marketId = m ∧ bar.openTimeMs = o
    · -- its own slot
      obtain ⟨rfl, rfl⟩ := hkey
      rw [if_pos ⟨rfl, rfl⟩]
      unfold MinuteSlot.step slot
      rcases hold : (e.marketBars bar.marketId).get? bar.openTimeMs with - | existing
      · simp only [get?_putBar, and_self, if_true]
        rfl
      · by_cases hsame : existing.canonicalHash sha256 = bar.canonicalHash sha256
        · simp only [hsame, if_true, hold]
        · simp only [if_neg hsame, Dict.get?_set_self]
          congr 1
          exact (get?_putBar _ _ _).trans (if_pos ⟨rfl, rfl⟩)
    · -- another slot
      rw [if_neg hkey]
      have hne : (bar.marketId, bar.openTimeMs) ≠ (m, o) := fun h => hkey (Prod.mk.injEq .. ▸ h)
      have hbars : ∀ b, ((e.putBar bar.marketId bar.openTimeMs b).marketBars m).get? o
          = (e.marketBars m).get? o := fun b => (get?_putBar _ _ b).trans (if_neg hkey)
      rcases (e.marketBars bar.marketId).get? bar.openTimeMs with - | existing
      · exact congrArg (MinuteSlot.mk · _) (hbars bar)
      · dsimp only
        split_ifs
        · rfl
        · exact congrArg₂ MinuteSlot.mk (hbars _) (Dict.get?_set_ne hne)
        · exact congrArg₂ MinuteSlot.mk (hbars _) (Dict.get?_set_ne hne)
  · rw [if_neg hreq, if_neg fun h => hreq h.2.2]

@[simp] theorem states_admitBars :
    (e.admitBars sha256 bars).states = e.states := by
  induction bars generalizing e with
  | nil => rfl
  | cons bar bars ih => exact ih.trans states_admitBar

/-- The bars of a list for a minute. -/
def variants (bars : List OneMinuteBar) (m : Text) (o : ℕ) : List OneMinuteBar :=
  bars.filter fun bar => bar.marketId = m ∧ bar.openTimeMs = o

/-- **Admissions, slot by slot.** -/
theorem slot_admitBars : (e.admitBars sha256 bars).slot m o
    = if e.needed m o then (variants bars m o).foldl (MinuteSlot.step sha256) (e.slot m o)
      else e.slot m o := by
  induction bars generalizing e with
  | nil => simp [admitBars, variants]
  | cons bar bars ih =>
    have hneed : (e.admitBar sha256 bar).2.needed m o = e.needed m o := by
      unfold needed
      rw [states_admitBar]
    have hcons : e.admitBars sha256 (bar :: bars) = (e.admitBar sha256 bar).2.admitBars sha256 bars :=
      rfl
    rw [hcons, ih, hneed, slot_admitBar]
    unfold variants
    by_cases hkey : bar.marketId = m ∧ bar.openTimeMs = o
    · obtain ⟨rfl, rfl⟩ := hkey
      rw [List.filter_cons_of_pos (by simp), List.foldl_cons]
      simp only [requiresBar, true_and]
      by_cases hreq : e.needed bar.marketId bar.openTimeMs = true
      · rw [if_pos hreq, if_pos hreq, if_pos hreq]
      · rw [if_neg hreq, if_neg hreq, if_neg hreq]
    · have hoth : ¬ (bar.marketId = m ∧ bar.openTimeMs = o ∧ e.requiresBar bar = true) :=
        fun h => hkey ⟨h.1, h.2.1⟩
      rw [List.filter_cons_of_neg (by simpa using hkey), if_neg hoth]

end Admission

/-! ### Runs -/

variable {e' : OutcomeEngine δ}

theorem slot_congr (hbars : e'.bars = e.bars) (hconf : e'.conflicts = e.conflicts) :
    e'.slot m o = e.slot m o := by
  unfold slot marketBars
  rw [hbars, hconf]

theorem slot_pruneInactiveBars :
    e.pruneInactiveBars.slot m o = if e.needed m o then e.slot m o else ⟨none, none⟩ := by
  unfold pruneInactiveBars slot marketBars
  simp only [Dict.get?_filter, Dict.get?_mapValues]
  by_cases hneed : e.needed m o = true
  · -- a required minute is one of a market with a plan
    have hmkt : (e.states.values.any fun state => decide (state.view.marketId = m)) = true := by
      obtain ⟨s, hs, hreq⟩ := List.any_eq_true.mp hneed
      exact List.any_eq_true.mpr ⟨s, hs, decide_eq_true (of_decide_eq_true hreq).1⟩
    rw [if_pos hneed, hmkt]
    congr 1
    · rcases e.bars.get? m with - | bars
      · rfl
      · rcases hb : bars.get? o with - | b <;> simp [Option.filter, hneed, Dict.get?_filter, hb]
    · rcases e.conflicts.get? (m, o) with - | hashes <;> simp [Option.filter, hneed]
  · rw [if_neg hneed]
    congr 1
    · rcases e.bars.get? m with - | bars
      · rfl
      · rcases e.states.values.any fun state => decide (state.view.marketId = m) with - | -
        · rfl
        · rcases hb : bars.get? o with - | b <;>
            simp [Option.filter, hneed, Dict.get?_filter, hb]
    · rcases e.conflicts.get? (m, o) with - | hashes <;> simp [Option.filter, hneed]

variable {b : Bool}

/-- What attaching can do. -/
theorem attach_cases {view : FormalShadowView} (h : e.attach view = .ok (b, e')) :
    e' = e ∨ (e.states.get? view.shadowOrderId = none
      ∧ e' = { e with
        states := e.states.set view.shadowOrderId { view := view }
        bars := if e.bars.has view.marketId then e.bars else e.bars.set view.marketId .empty }) := by
  unfold attach at h
  by_cases hform : view.state ≠ .formalShadowPlan ∨ view.active = false
  · rw [if_pos hform] at h
    cases h
    exact .inl rfl
  · rw [if_neg hform] at h
    generalize e.states.get? view.shadowOrderId = old at h ⊢
    rcases old with - | existing
    · exact .inr ⟨rfl, (Prod.mk.inj (Except.ok.inj h)).2.symm⟩
    · by_cases hview : existing.view ≠ view
      · simp only [if_pos hview] at h
        cases h
      · simp only [if_neg hview] at h
        cases h
        exact .inl rfl

/-- What admitting a transition can do. -/
theorem admitTransition_cases {t : OutcomeTransitionView} {nowMs : ℕ}
    (h : e.admitTransition t nowMs = .ok (b, e')) :
    e' = e ∨ ∃ s, e.states.get? t.shadowOrderId = some s ∧ s.view.outcomeStartMs ≤ t.occurredAtMs
      ∧ (t.kind.extending = true → s.view.setupFamily = .breakoutRetest)
      ∧ s.transitions.get? t.transitionId = none
      ∧ e' = { e with states := (e.states.set t.shadowOrderId
        { s with transitions := s.transitions.set t.transitionId t }) } := by
  obtain ⟨s, hs, h⟩ := of_bind h
  have hs : e.states.get? t.shadowOrderId = some s := by
    unfold stateOf at hs
    generalize e.states.get? t.shadowOrderId = found at hs
    rcases found with - | found
    · cases hs
    · rw [Except.ok.inj hs]
  by_cases hmkt : t.marketId ≠ s.view.marketId
  · rw [if_pos hmkt] at h
    cases h
  by_cases hpre : t.occurredAtMs < s.view.outcomeStartMs
  · rw [if_neg hmkt, if_pos hpre] at h
    cases h
  by_cases hnow : nowMs < t.occurredAtMs
  · rw [if_neg hmkt, if_neg hpre, if_pos hnow] at h
    cases h
  by_cases hext : t.kind.extending ∧ s.view.setupFamily ≠ .breakoutRetest
  · rw [if_neg hmkt, if_neg hpre, if_neg hnow, if_pos hext] at h
    cases h
  rw [if_neg hmkt, if_neg hpre, if_neg hnow, if_neg hext] at h
  generalize hold : s.transitions.get? t.transitionId = old at h
  rcases old with - | existing
  · refine .inr ⟨s, hs, not_lt.mp hpre, fun hk => ?_, hold, (Prod.mk.inj (Except.ok.inj h)).2.symm⟩
    exact not_not.mp fun hne => hext ⟨hk, hne⟩
  · by_cases hsame : existing ≠ t
    · simp only [if_pos hsame] at h
      cases h
    · simp only [if_neg hsame] at h
      cases h
      exact .inl rfl

/-- What detaching can do. -/
theorem detach_cases {id : Text} (h : e.detach id = .ok (b, e')) :
    e' = e ∨ ∃ s, e.states.get? id = some s
      ∧ e' = { e with states := e.states.set id { s with forcedDetached := true } } := by
  unfold detach stateOf at h
  generalize hs : e.states.get? id = found at h
  rcases found with - | s
  · cases h
  · by_cases hdet : s.forcedDetached = true
    · simp only [bind, Except.bind, if_pos hdet] at h
      cases h
      exact .inl rfl
    · simp only [bind, Except.bind, if_neg hdet] at h
      cases h
      exact .inr ⟨s, rfl, rfl⟩

theorem slot_attach {view : FormalShadowView} (h : e.attach view = .ok (b, e')) :
    e'.slot m o = e.slot m o := by
  rcases attach_cases h with rfl | ⟨-, rfl⟩
  · rfl
  · unfold slot marketBars
    split_ifs with hhas
    · rfl
    · -- the market gets an empty dictionary
      rw [Dict.get?_set]
      split_ifs with hm
      · subst hm
        have hnone : e.bars.get? view.marketId = none := by
          simpa [Dict.has] using hhas
        rw [hnone]
        rfl
      · rfl

theorem slot_admitTransition {t : OutcomeTransitionView} {nowMs : ℕ}
    (h : e.admitTransition t nowMs = .ok (b, e')) : e'.slot m o = e.slot m o := by
  rcases admitTransition_cases h with rfl | ⟨-, -, -, -, -, rfl⟩
  · rfl
  · exact slot_congr rfl rfl

theorem slot_detach {id : Text} (h : e.detach id = .ok (b, e')) : e'.slot m o = e.slot m o := by
  rcases detach_cases h with rfl | ⟨-, -, rfl⟩
  · rfl
  · exact slot_congr rfl rfl

/-- A call that returns or leaves the engine as it was. -/
theorem slot_getD {ε : Type} {r : Except ε (Bool × OutcomeEngine δ)}
    (h : ∀ b e', r = .ok (b, e') → e'.slot m o = e.slot m o) :
    ((r.toOption.map Prod.snd).getD e).slot m o = e.slot m o := by
  rcases r with err | ⟨b, e'⟩
  · rfl
  · exact h b e' rfl

section Runs

variable [LinearOrder δ] {sha256 : MinutePayload → δ}

/-- A tick keeps a slot, or clears one that no remaining plan requires. -/
theorem slot_tick (nowMs : ℕ) : (e.tick nowMs).2.slot m o = e.slot m o
    ∨ ((e.tick nowMs).2.slot m o = ⟨none, none⟩ ∧ (e.tick nowMs).2.needed m o = false) := by
  unfold tick
  dsimp only
  split_ifs with hcompleted
  · exact .inl (slot_congr rfl rfl)
  · rw [slot_pruneInactiveBars]
    split_ifs with hneed
    · exact .inl (slot_congr rfl rfl)
    · exact .inr ⟨rfl, by rw [← Bool.not_eq_true]; exact hneed⟩

/-- Every slot holds what the hashes seen for it demand, and a bar of its own
minute. -/
structure EngineInv (sha256 : MinutePayload → δ) (e : OutcomeEngine δ) : Prop where
  slots : ∀ m o, (e.slot m o).Inv sha256
  filed : ∀ m o bar, (e.slot m o).retained = some bar → bar.marketId = m ∧ bar.openTimeMs = o

theorem EngineInv.start : EngineInv sha256 ({} : OutcomeEngine δ) :=
  ⟨fun _ _ => .nil, nofun⟩

section

variable (h : EngineInv sha256 e)
include h

/-- Slots that are kept or cleared. -/
theorem EngineInv.of_slots {e' : OutcomeEngine δ}
    (hsl : ∀ m o, e'.slot m o = e.slot m o ∨ e'.slot m o = ⟨none, none⟩) : EngineInv sha256 e' := by
  refine ⟨fun m o => ?_, fun m o bar hbar => ?_⟩
  · rcases hsl m o with hs | hs
    · exact hs ▸ h.slots m o
    · exact hs ▸ .nil
  · rcases hsl m o with hs | hs
    · exact h.filed m o bar (hs ▸ hbar)
    · rw [hs] at hbar
      cases hbar

theorem EngineInv.admitBars (bars : List OneMinuteBar) : EngineInv sha256 (e.admitBars sha256 bars) := by
  refine ⟨fun m o => ?_, fun m o bar hbar => ?_⟩
  · rw [slot_admitBars]
    split_ifs
    · exact (MinuteSlot.Inv.steps (h.slots m o)).2
    · exact h.slots m o
  · rw [slot_admitBars] at hbar
    split_ifs at hbar
    · rcases MinuteSlot.retained_steps hbar with hold | hnew
      · exact h.filed m o bar hold
      · exact of_decide_eq_true (List.mem_filter.mp hnew).2
    · exact h.filed m o bar hbar

theorem EngineInv.apply (op : Op) : EngineInv sha256 (e.apply sha256 op) := by
  cases op with
  | attach view => exact h.of_slots fun m o => .inl (slot_getD fun _ _ => slot_attach)
  | admitTransition transition nowMs =>
    exact h.of_slots fun m o => .inl (slot_getD fun _ _ => slot_admitTransition)
  | detach shadowOrderId => exact h.of_slots fun m o => .inl (slot_getD fun _ _ => slot_detach)
  | admitBar bar => exact h.admitBars [bar]
  | tick nowMs => exact h.of_slots fun m o => (slot_tick nowMs).imp id And.left

/-- **The relation holds in every engine of a run.** -/
theorem EngineInv.run (ops : List Op) : EngineInv sha256 (e.run sha256 ops) := by
  induction ops generalizing e with
  | nil => exact h
  | cons op ops ih => exact @ih (e.apply sha256 op) (h.apply op)

end

end Runs

end OutcomeEngine

/-! ### A hash, a plan and bars to try things on -/

/-- A hash without collisions: the fields themselves. -/
def MinutePayload.fields (p : MinutePayload) :
    Text ×ₗ ℕ ×ₗ ℕ ×ₗ ℚ ×ₗ ℚ ×ₗ ℚ ×ₗ ℚ :=
  toLex (p.marketId, toLex (p.openTimeMs, toLex (p.closeTimeMs, toLex (p.open_,
    toLex (p.high, toLex (p.low, p.close))))))

theorem MinutePayload.fields_injective : Function.Injective MinutePayload.fields := by
  rintro ⟨⟩ ⟨⟩ h
  obtain ⟨rfl, rfl, rfl, rfl, rfl, rfl, rfl⟩ := h
  rfl

/-- A long breakout plan of market M that enters at 100, with stop 90 and target
110, from this minute on. -/
def breakoutPlan (id : Text) (startMinute : ℕ) : FormalShadowView where
  shadowOrderId := id
  marketId := ['M']
  side := .long
  setupFamily := .breakoutRetest
  outcomeStartMs := startMinute * oneMinuteMs
  plannedEntry := 100
  stop := 90
  tp1 := 110
  atr := 5
  start_aligned := Nat.mul_mod_left _ _
  prices_pos := by norm_num
  tp2_valid := by simp
  zone_together := rfl
  zone_valid := by simp
  side_valid := ⟨by norm_num, by norm_num⟩

/-- A bar of market M that stands at one price for a minute. -/
def flatBar (minute price : ℕ) : OneMinuteBar where
  marketId := ['M']
  openTimeMs := minute * oneMinuteMs
  open_ := price + 1
  high := price + 1
  low := price + 1
  close := price + 1
  open_aligned := Nat.mul_mod_left _ _
  low_pos := by positivity
  range_valid := ⟨le_rfl, le_rfl, le_rfl, le_rfl⟩

end TraderAssist
