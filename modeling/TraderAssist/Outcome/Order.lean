/-
TraderAssist/Outcome/Order.lean

The order evidence arrives in.

The slot of a minute is a function of the hashes seen for it (`Inv.ext`), so
admitting bars in another order gives the same slots, and outcomes and recovery
requests are functions of the slots (`admitBars_perm`).
Reconstruction sorts what it is given; items that sort alike commute, so it gives
the very same engine for every order (`reconstruct_perm`).
-/
import TraderAssist.Outcome.Reads
import TraderAssist.Outcome.Evidence

namespace TraderAssist

open Py

variable {δ : Type}

section Slots

variable [LinearOrder δ] {sha256 : MinutePayload → δ}

/-- **A slot is a function of the hashes seen for it.** -/
theorem MinuteSlot.Inv.ext (hsha : Function.Injective sha256) {a b : MinuteSlot δ}
    (ha : a.Inv sha256) (hb : b.Inv sha256) (hseen : a.seen sha256 = b.seen sha256) : a = b := by
  have hconf : a.conflict = b.conflict := by
    rw [ha.conflict, hb.conflict, hseen]
  have hret : a.retained = b.retained := by
    rcases ea : a.retained with - | x <;> rcases eb : b.retained with - | y
    · rfl
    · have hemp := hseen.symm.trans (ha.empty ea)
      simpa [hemp] using (hb.least y eb).1
    · have hemp := hseen.trans (hb.empty eb)
      simpa [hemp] using (ha.least x ea).1
    · obtain ⟨hx, hxmin⟩ := ha.least x ea
      obtain ⟨hy, hymin⟩ := hb.least y eb
      have hhash := (hxmin _ (hseen ▸ hy)).antisymm (hymin _ (hseen ▸ hx))
      rw [OneMinuteBar.canonicalHash_injective hsha hhash]
  cases a
  cases b
  exact congrArg₂ MinuteSlot.mk hret hconf

end Slots

namespace OutcomeEngine

/-! ### Engines with the same slots -/

section SameSlots

variable {e e' : OutcomeEngine δ}

theorem get?_of_slots (h : ∀ m o, e'.slot m o = e.slot m o) (m : Text) (o : ℕ) :
    (e'.marketBars m).get? o = (e.marketBars m).get? o ∧ e'.conflicts.get? (m, o) = e.conflicts.get? (m, o) :=
  ⟨congrArg MinuteSlot.retained (h m o), congrArg MinuteSlot.conflict (h m o)⟩

theorem sameEvidence_of_slots (h : ∀ m o, e'.slot m o = e.slot m o) (m : Text) (P : ℕ → Prop) :
    SameEvidence e' e m P :=
  ⟨fun o _ => (get?_of_slots h m o).1, fun o _ => congrArg Option.isSome (get?_of_slots h m o).2⟩

variable [LinearOrder δ] {sha256 : MinutePayload → δ}

/-- The close times of a market's bars tell them apart. -/
theorem EngineInv.closeTimeMs_inj (h : EngineInv sha256 e) {m : Text} :
    ∀ x ∈ (e.marketBars m).values, ∀ y ∈ (e.marketBars m).values, x.closeTimeMs = y.closeTimeMs → x = y := by
  intro x hx y hy hcl
  obtain ⟨o, ho⟩ := Dict.mem_values.mp hx
  obtain ⟨o', ho'⟩ := Dict.mem_values.mp hy
  have hx' := (h.filed m o x ho).2
  have hy' := (h.filed m o' y ho').2
  have hopen : o = o' := by
    unfold OneMinuteBar.closeTimeMs at hcl
    omega
  subst hopen
  exact Option.some.inj (ho.symm.trans ho')

theorem transitionReference_of_slots (hinv : EngineInv sha256 e)
    (h : ∀ m o, e'.slot m o = e.slot m o) (s : OutcomeState) (t : OutcomeTransitionView) :
    e'.transitionReference s t = e.transitionReference s t := by
  unfold transitionReference
  rcases t.referencePrice with - | price
  · have hperm : (e.marketBars s.view.marketId).values.Perm (e'.marketBars s.view.marketId).values :=
      Dict.values_perm_of_get? fun o => (get?_of_slots h _ o).1.symm
    rw [maxBy_eq_of_perm (hperm.filter _) fun x hx y hy =>
      hinv.closeTimeMs_inj x (List.mem_filter.mp hx).1 y (List.mem_filter.mp hy).1]
  · rfl

/-- What a conflict entry of a plan says. -/
theorem mem_conflictsAt {m : Text} {o : ℕ} {hashes : Finset δ} {item : BarConflict δ}
    (h : item ∈ conflictsAt m o hashes) : item.marketId = m ∧ item.openTimeMs = o := by
  unfold conflictsAt at h
  generalize sortedSet hashes = ordered at h
  rcases ordered with - | ⟨retained, others⟩
  · cases h
  · obtain ⟨other, -, rfl⟩ := List.mem_map.mp h
    exact ⟨rfl, rfl⟩

theorem stateConflicts_of_get? (s : OutcomeState)
    (h : ∀ m o, s.Requires m o → e'.conflicts.get? (m, o) = e.conflicts.get? (m, o)) :
    e'.stateConflicts s = e.stateConflicts s := by
  have hperm : (e'.conflicts.filter fun key _ => decide (s.Requires key.1 key.2)).entries.Perm
      (e.conflicts.filter fun key _ => decide (s.Requires key.1 key.2)).entries := by
    refine Dict.perm_of_get? fun key => ?_
    rw [Dict.get?_filter, Dict.get?_filter]
    by_cases hreq : s.Requires key.1 key.2
    · rw [h _ _ hreq]
    · simp [hreq]
  refine sortBy_eq_of_perm (hperm.flatMap_right _) ?_
  intro a ha b hb hkey
  have hmkt : ∀ item ∈ (e'.conflicts.entries.filter fun entry =>
      decide (s.Requires entry.1.1 entry.1.2)).flatMap
        (fun entry => conflictsAt entry.1.1 entry.1.2 entry.2),
      item.marketId = s.view.marketId := by
    intro item hitem
    obtain ⟨entry, hent, hitem⟩ := List.mem_flatMap.mp hitem
    rw [(mem_conflictsAt hitem).1]
    exact (of_decide_eq_true (List.mem_filter.mp hent).2).1.symm
  have hfields := Prod.mk.inj (toLex.injective hkey)
  have hhashes := Prod.mk.inj (toLex.injective hfields.2)
  cases a
  cases b
  simp only [BarConflict.mk.injEq]
  exact ⟨(hmkt _ ha).trans (hmkt _ hb).symm, hfields.1, hhashes.1, hhashes.2⟩

/-- **Outcomes are functions of the slots.** -/
theorem evaluate_of_slots (hinv : EngineInv sha256 e) (hsts : e'.states = e.states)
    (h : ∀ m o, e'.slot m o = e.slot m o) (id : Text) (asOfMs : ℕ) :
    e'.evaluate id asOfMs = e.evaluate id asOfMs := by
  rcases hs : e.states.get? id with - | s
  · rw [evaluate_unattached hs, evaluate_unattached (hsts ▸ hs)]
  · rw [evaluate_attached hs, evaluate_attached (hsts ▸ hs)]
    congr 1
    refine (outcomeOf_eq_iff (sameEvidence_of_slots h _ _)).mpr ⟨?_, ?_⟩
    · unfold reverseEntry
      rw [funext fun t => transitionReference_of_slots hinv h s t]
    · exact stateConflicts_of_get? s fun m o _ => (get?_of_slots h m o).2

omit [LinearOrder δ] in
theorem recoveryRequests_of_slots (hsts : e'.states = e.states)
    (h : ∀ m o, e'.slot m o = e.slot m o) (nowMs : ℕ) (ids : Option (List Text)) :
    e'.recoveryRequests nowMs ids = e.recoveryRequests nowMs ids := by
  have hmiss : ∀ s, e'.missingPoints s nowMs = e.missingPoints s nowMs := by
    intro s
    refine List.filter_congr fun o _ => ?_
    rw [Dict.has, Dict.has, (get?_of_slots h _ o).1]
  unfold recoveryRequests stateOf
  simp only [hsts, hmiss]

end SameSlots

/-! ### Admissions -/

variable {bars bars' : List OneMinuteBar}

section Admissions

variable [LinearOrder δ] {sha256 : MinutePayload → δ} {e : OutcomeEngine δ}

theorem slot_admitBars_perm (hsha : Function.Injective sha256) (hinv : EngineInv sha256 e)
    (h : bars.Perm bars') (m : Text) (o : ℕ) :
    (e.admitBars sha256 bars).slot m o = (e.admitBars sha256 bars').slot m o := by
  rw [slot_admitBars, slot_admitBars]
  split_ifs
  · have hvar : (variants bars m o).Perm (variants bars' m o) := h.filter _
    obtain ⟨hseen, hslot⟩ := @MinuteSlot.Inv.steps δ (variants bars m o) _ sha256 _ (hinv.slots m o)
    obtain ⟨hseen', hslot'⟩ := @MinuteSlot.Inv.steps δ (variants bars' m o) _ sha256 _ (hinv.slots m o)
    refine hslot.ext hsha hslot' ?_
    rw [hseen, hseen', List.toFinset_eq_of_perm _ _ (hvar.map _)]
  · rfl

/-- After any run, the same bars in another order give the same outcomes and the
same recovery requests. -/
theorem admitBars_perm (hsha : Function.Injective sha256) (ops : List Op) (h : bars.Perm bars') :
    (∀ id asOfMs, ((run sha256 {} ops).admitBars sha256 bars).evaluate id asOfMs
        = ((run sha256 {} ops).admitBars sha256 bars').evaluate id asOfMs)
      ∧ ∀ nowMs ids, ((run sha256 {} ops).admitBars sha256 bars).recoveryRequests nowMs ids
        = ((run sha256 {} ops).admitBars sha256 bars').recoveryRequests nowMs ids := by
  have hinv : EngineInv sha256 (run sha256 {} ops) := EngineInv.start.run ops
  have hsts : ((run sha256 {} ops).admitBars sha256 bars).states
      = ((run sha256 {} ops).admitBars sha256 bars').states := by
    rw [states_admitBars, states_admitBars]
  have hsl := slot_admitBars_perm hsha hinv h
  exact ⟨evaluate_of_slots (hinv.admitBars bars') hsts hsl, recoveryRequests_of_slots hsts hsl⟩

end Admissions

/-! ### Reconstruction -/

section Attach

variable {e : OutcomeEngine δ} {v : FormalShadowView}

theorem attach_inert (h : v.state ≠ .formalShadowPlan ∨ v.active = false) :
    Prod.snd <$> e.attach v = .ok e := by
  unfold attach
  rw [if_pos h]
  rfl

section

variable (h : ¬ (v.state ≠ .formalShadowPlan ∨ v.active = false))
include h

theorem attach_again {x : OutcomeState}
    (hx : e.states.get? v.shadowOrderId = some x) : Prod.snd <$> e.attach v
      = if x.view ≠ v then .error .conflictingViews else .ok e := by
  unfold attach
  rw [hx]
  dsimp only
  split_ifs <;> rfl

theorem attach_new
    (hnone : e.states.get? v.shadowOrderId = none) :
    ∃ e', Prod.snd <$> e.attach v = .ok e'
      ∧ e'.states.get? v.shadowOrderId = some { view := v } := by
  unfold attach
  rw [if_neg h, hnone]
  exact ⟨_, rfl, Dict.get?_set_self⟩

end

/-- Two views with one id are attached in either order with the same result. -/
theorem attach_tie (e : OutcomeEngine δ) {v w : FormalShadowView} (hid : v.shadowOrderId = w.shadowOrderId) :
    Agree ((Prod.snd <$> e.attach v) >>= fun e => Prod.snd <$> e.attach w)
      ((Prod.snd <$> e.attach w) >>= fun e => Prod.snd <$> e.attach v) Eq := by
  by_cases hv : v.state ≠ .formalShadowPlan ∨ v.active = false
  · rw [attach_inert hv]
    change Agree (Prod.snd <$> e.attach w) _ Eq
    rcases Prod.snd <$> e.attach w with err | e'
    · exact trivial
    · change Agree (.ok e') (Prod.snd <$> e'.attach v) Eq
      rw [attach_inert hv]
      exact rfl
  by_cases hw : w.state ≠ .formalShadowPlan ∨ w.active = false
  · rw [attach_inert hw]
    change Agree _ (Prod.snd <$> e.attach v) Eq
    rcases Prod.snd <$> e.attach v with err | e'
    · exact trivial
    · change Agree (Prod.snd <$> e'.attach w) (.ok e') Eq
      rw [attach_inert hw]
      exact rfl
  by_cases hvw : v = w
  · subst hvw
    exact .refl _
  rcases hx : e.states.get? v.shadowOrderId with - | x
  · -- the second of two different views is refused
    obtain ⟨ev, hev, hv'⟩ := attach_new hv hx
    obtain ⟨ew, hew, hw'⟩ := attach_new hw (hid ▸ hx)
    rw [hev, hew]
    change Agree (Prod.snd <$> ev.attach w) (Prod.snd <$> ew.attach v) Eq
    rw [attach_again hw (hid ▸ hv'), attach_again hv (hid ▸ hw'), if_pos hvw, if_pos (Ne.symm hvw)]
    exact trivial
  · rw [attach_again hv hx, attach_again hw (hid ▸ hx)]
    by_cases hxv : x.view = v
    · have hxw : x.view ≠ w := fun h => hvw (hxv.symm.trans h)
      rw [if_neg (not_not.mpr hxv), if_pos hxw]
      change Agree (Prod.snd <$> e.attach w) (.error _) Eq
      rw [attach_again hw (hid ▸ hx), if_pos hxw]
      exact trivial
    · rw [if_pos hxv]
      by_cases hxw : x.view = w
      · rw [if_neg (not_not.mpr hxw)]
        change Agree (.error _) (Prod.snd <$> e.attach v) Eq
        rw [attach_again hv hx, if_pos hxv]
        exact trivial
      · rw [if_pos hxw]
        exact trivial

end Attach

section Transitions

variable {e : OutcomeEngine δ} {nowMs : ℕ}

/-- The checks a transition has to pass, whatever else the plan holds. -/
def transitionCheck (view : FormalShadowView) (t : OutcomeTransitionView) (nowMs : ℕ) :
    Except OutcomeError Unit :=
  if t.marketId ≠ view.marketId then .error .transitionMarket
  else if t.occurredAtMs < view.outcomeStartMs then .error .transitionPredates
  else if nowMs < t.occurredAtMs then .error .transitionNotYet
  else if t.kind.extending ∧ view.setupFamily ≠ .breakoutRetest then .error .cannotExtend
  else .ok ()

/-- What a transition makes of the state of its plan, or `none` where nothing
changes. -/
def transitionEntry (s : OutcomeState) (t : OutcomeTransitionView) (nowMs : ℕ) :
    Except OutcomeError (Option OutcomeState) := do
  transitionCheck s.view t nowMs
  match s.transitions.get? t.transitionId with
  | some existing => if existing ≠ t then throw .conflictingTransition else pure none
  | none => pure (some { s with transitions := s.transitions.set t.transitionId t })

/-- The engine with the entry of a plan replaced. -/
def withEntry (e : OutcomeEngine δ) (id : Text) : Option OutcomeState → OutcomeEngine δ
  | none => e
  | some s => { e with states := e.states.set id s }

variable {t : OutcomeTransitionView}

theorem admitTransition_unattached (h : e.states.get? t.shadowOrderId = none) :
    Prod.snd <$> e.admitTransition t nowMs = .error .notAttached := by
  unfold admitTransition stateOf
  rw [h]
  rfl

theorem admitTransition_attached {s : OutcomeState} (h : e.states.get? t.shadowOrderId = some s) :
    Prod.snd <$> e.admitTransition t nowMs = e.withEntry t.shadowOrderId <$> transitionEntry s t nowMs := by
  unfold admitTransition stateOf transitionEntry transitionCheck
  simp only [h, bind, Except.bind]
  split_ifs
  · rfl
  · rfl
  · rfl
  · rfl
  · rcases s.transitions.get? t.transitionId with - | existing
    · rfl
    · dsimp only
      split_ifs <;> rfl

theorem get?_withEntry_ne {id id' : Text} (hne : id ≠ id') (entry : Option OutcomeState) :
    (e.withEntry id entry).states.get? id' = e.states.get? id' := by
  rcases entry with - | s
  · rfl
  · exact Dict.get?_set_ne hne

variable {u : OutcomeTransitionView}

/-- Two different transitions with one id are never both admitted to a plan. -/
theorem transition_conflict (hne : t ≠ u) (hshd : t.shadowOrderId = u.shadowOrderId)
    (hid : t.transitionId = u.transitionId) : ∃ err, ((Prod.snd <$> e.admitTransition t nowMs) >>= fun e =>
      Prod.snd <$> e.admitTransition u nowMs) = .error err := by
  have href : ∀ {e : OutcomeEngine δ} {s : OutcomeState},
      e.states.get? u.shadowOrderId = some s → s.transitions.get? u.transitionId = some t →
      ∃ err, Prod.snd <$> e.admitTransition u nowMs = .error err := by
    intro e s hs ht
    rw [admitTransition_attached hs]
    unfold transitionEntry
    rcases transitionCheck s.view u nowMs with err | -
    · exact ⟨err, rfl⟩
    · simp only [ht, bind, Except.bind, if_pos hne]
      exact ⟨_, rfl⟩
  rcases hs : e.states.get? t.shadowOrderId with - | s
  · rw [admitTransition_unattached hs]
    exact ⟨_, rfl⟩
  · rw [admitTransition_attached hs]
    unfold transitionEntry
    rcases transitionCheck s.view t nowMs with err | -
    · exact ⟨err, rfl⟩
    · rcases hx : s.transitions.get? t.transitionId with - | x
      · -- the first is admitted, and then in the way of the second
        refine href (s := { s with transitions := s.transitions.set t.transitionId t }) ?_ ?_
        · rw [← hshd]
          exact Dict.get?_set_self
        · rw [← hid]
          exact Dict.get?_set_self
      · by_cases hxt : x = t
        · subst hxt
          simp only [bind, Except.bind, ne_eq, not_true_eq_false, if_false]
          exact href (hshd ▸ hs) (hid ▸ hx)
        · simp only [bind, Except.bind, ne_eq, hxt, not_false_eq_true, if_true]
          exact ⟨_, rfl⟩

/-- Transitions of two plans do not touch each other. -/
theorem transition_apart (hshd : t.shadowOrderId ≠ u.shadowOrderId) :
    Agree ((Prod.snd <$> e.admitTransition t nowMs) >>= fun e => Prod.snd <$> e.admitTransition u nowMs)
      ((Prod.snd <$> e.admitTransition u nowMs) >>= fun e => Prod.snd <$> e.admitTransition t nowMs) Eq := by
  rcases ht : e.states.get? t.shadowOrderId with - | s <;>
    rcases hu : e.states.get? u.shadowOrderId with - | s'
  · rw [admitTransition_unattached ht, admitTransition_unattached hu]
    exact trivial
  · rw [admitTransition_unattached ht, admitTransition_attached hu]
    rcases transitionEntry s' u nowMs with err | entry
    · exact trivial
    · change Agree (.error _)
        (Prod.snd <$> (e.withEntry u.shadowOrderId entry).admitTransition t nowMs) Eq
      rw [admitTransition_unattached ((get?_withEntry_ne hshd.symm entry).trans ht)]
      exact trivial
  · rw [admitTransition_attached ht, admitTransition_unattached hu]
    rcases transitionEntry s t nowMs with err | entry
    · exact trivial
    · change Agree (Prod.snd <$> (e.withEntry t.shadowOrderId entry).admitTransition u nowMs)
        (.error _) Eq
      rw [admitTransition_unattached ((get?_withEntry_ne hshd entry).trans hu)]
      exact trivial
  · have haft : ∀ entry, Prod.snd <$> (e.withEntry t.shadowOrderId entry).admitTransition u nowMs
        = (e.withEntry t.shadowOrderId entry).withEntry u.shadowOrderId
          <$> transitionEntry s' u nowMs := fun entry =>
      admitTransition_attached ((get?_withEntry_ne hshd entry).trans hu)
    have haft' : ∀ entry, Prod.snd <$> (e.withEntry u.shadowOrderId entry).admitTransition t nowMs
        = (e.withEntry u.shadowOrderId entry).withEntry t.shadowOrderId
          <$> transitionEntry s t nowMs := fun entry =>
      admitTransition_attached ((get?_withEntry_ne hshd.symm entry).trans ht)
    rw [admitTransition_attached ht, admitTransition_attached hu]
    rcases hs : transitionEntry s t nowMs with err | entry <;>
      rcases hs' : transitionEntry s' u nowMs with err' | entry'
    · exact trivial
    · change Agree (.error _)
        (Prod.snd <$> (e.withEntry u.shadowOrderId entry').admitTransition t nowMs) Eq
      rw [haft', hs]
      exact trivial
    · change Agree (Prod.snd <$> (e.withEntry t.shadowOrderId entry).admitTransition u nowMs)
        (.error _) Eq
      rw [haft, hs']
      exact trivial
    · change Agree (Prod.snd <$> (e.withEntry t.shadowOrderId entry).admitTransition u nowMs)
        (Prod.snd <$> (e.withEntry u.shadowOrderId entry').admitTransition t nowMs) Eq
      rw [haft, haft', hs, hs']
      change (e.withEntry t.shadowOrderId entry).withEntry u.shadowOrderId entry'
        = (e.withEntry u.shadowOrderId entry').withEntry t.shadowOrderId entry
      rcases entry with - | x <;> rcases entry' with - | y
      · rfl
      · rfl
      · rfl
      · simp only [withEntry, Dict.set_comm hshd.symm hu ht]

theorem transition_tie (e : OutcomeEngine δ) (nowMs : ℕ) (hid : t.transitionId = u.transitionId) :
    Agree ((Prod.snd <$> e.admitTransition t nowMs) >>= fun e => Prod.snd <$> e.admitTransition u nowMs)
      ((Prod.snd <$> e.admitTransition u nowMs) >>= fun e => Prod.snd <$> e.admitTransition t nowMs) Eq := by
  by_cases hshd : t.shadowOrderId = u.shadowOrderId
  · by_cases hne : t = u
    · subst hne
      exact .refl _
    · obtain ⟨err, h⟩ := @transition_conflict δ e nowMs t u hne hshd hid
      obtain ⟨err', h'⟩ := @transition_conflict δ e nowMs u t (Ne.symm hne) hshd.symm hid.symm
      rw [h, h']
      exact trivial
  · exact transition_apart hshd

end Transitions

section Reconstruct

variable [LinearOrder δ] {sha256 : MinutePayload → δ}

/-- Reconstruction raises or returns the same engine for every order of the
shadows, transitions and bars. -/
theorem reconstruct_perm (hsha : Function.Injective sha256)
    {shadows shadows' : List FormalShadowView} {transitions transitions' : List OutcomeTransitionView}
    (hshadows : shadows.Perm shadows')
    (htrns : transitions.Perm transitions') (hbars : bars.Perm bars') (nowMs : ℕ) :
    Agree (reconstruct sha256 shadows transitions bars nowMs)
      (reconstruct sha256 shadows' transitions' bars' nowMs) Eq := by
  have hattach := @foldlM_sortBy_agree FormalShadowView Text _ OutcomeError (OutcomeEngine δ)
    (fun e view => Prod.snd <$> e.attach view) FormalShadowView.shadowOrderId
    (fun e _ _ h => attach_tie e h) _ _ hshadows {}
  have htrans := @foldlM_sortBy_agree OutcomeTransitionView (ℕ ×ₗ Text) _ OutcomeError
    (OutcomeEngine δ) (fun e t => Prod.snd <$> e.admitTransition t nowMs)
    (fun item => toLex (item.occurredAtMs, item.transitionId))
    (fun e _ _ h => transition_tie e nowMs (Prod.mk.inj (toLex.injective h)).2) _ _ htrns
  refine hattach.bind ?_
  rintro e _ - - rfl
  refine (htrans e).bind ?_
  rintro e _ - - rfl
  refine congrArg (admitBars sha256 e) (sortBy_eq_of_perm hbars fun a _ b _ h => ?_)
  obtain ⟨-, h⟩ := Prod.mk.inj (toLex.injective h)
  obtain ⟨-, h⟩ := Prod.mk.inj (toLex.injective h)
  exact OneMinuteBar.canonicalHash_injective hsha h

/-- **Order independence of outcome evidence.**  After any run, admitting bars in
another order, with duplicates and conflicting variants, gives the same outcomes
at all times and the same recovery requests; and reconstruction gives the same
engine for every order of what it is given. -/
theorem outcome_order_independent (hsha : Function.Injective sha256) :
    (∀ (ops : List Op) (bars bars' : List OneMinuteBar), bars.Perm bars' →
      (∀ id asOfMs, ((run sha256 {} ops).admitBars sha256 bars).evaluate id asOfMs
          = ((run sha256 {} ops).admitBars sha256 bars').evaluate id asOfMs)
        ∧ ∀ nowMs ids, ((run sha256 {} ops).admitBars sha256 bars).recoveryRequests nowMs ids
          = ((run sha256 {} ops).admitBars sha256 bars').recoveryRequests nowMs ids)
      ∧ ∀ (shadows shadows' : List FormalShadowView)
        (transitions transitions' : List OutcomeTransitionView) (bars bars' : List OneMinuteBar),
        shadows.Perm shadows' → transitions.Perm transitions' → bars.Perm bars' → ∀ nowMs,
          Agree (reconstruct sha256 shadows transitions bars nowMs)
            (reconstruct sha256 shadows' transitions' bars' nowMs) Eq :=
  ⟨fun ops _ _ h => admitBars_perm hsha ops h,
    fun _ _ _ _ _ _ hs ht hb nowMs => reconstruct_perm hsha hs ht hb nowMs⟩

end Reconstruct

/-- Three variants of a minute, in two orders. -/
theorem outcome_order_variants :
    [flatBar 0 99, flatBar 0 101, flatBar 0 100].Perm [flatBar 0 100, flatBar 0 99, flatBar 0 101]
      ∧ ∀ asOfMs, ((run MinutePayload.fields {} [.attach (breakoutPlan ['s'] 0)]).admitBars
          MinutePayload.fields [flatBar 0 99, flatBar 0 101, flatBar 0 100]).evaluate ['s'] asOfMs
        = ((run MinutePayload.fields {} [.attach (breakoutPlan ['s'] 0)]).admitBars
          MinutePayload.fields [flatBar 0 100, flatBar 0 99, flatBar 0 101]).evaluate ['s'] asOfMs := by
  have hperm : [flatBar 0 99, flatBar 0 101, flatBar 0 100].Perm
      [flatBar 0 100, flatBar 0 99, flatBar 0 101] := List.perm_append_singleton _ [_, _]
  exact ⟨hperm, ((outcome_order_independent MinutePayload.fields_injective).1 _ _ _ hperm).1 ['s']⟩

end OutcomeEngine

end TraderAssist
