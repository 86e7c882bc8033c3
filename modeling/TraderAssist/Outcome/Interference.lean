/-
TraderAssist/Outcome/Interference.lean

Plans of one market and each other's outcomes.

The plans of a market share its bars.  A run is compared with the run of one
plan's own calls and all bars (`ownCalls`).  Other plans change neither the state
of the plan nor the evidence of the minutes it requires, and pruning clears no
minute it requires (`Beside.step`); what they can do is to have a bar accepted
that the plan does not require yet.  If every bar of the plan's window was
accepted for the plan itself, the outcomes are the same, provided the price of a
reverse trade is not looked up before the plan's window
(`outcomes_do_not_interfere`).
-/
import TraderAssist.Outcome.LookAhead

namespace TraderAssist

open Py

variable {δ : Type}

/-! ### Required windows grow -/

namespace OutcomeState

/-- The transition extends the window of the plan beyond `o`. -/
def ExtendsBeyond (s : OutcomeState) (o : ℕ) : Prop :=
  s.view.setupFamily = .breakoutRetest ∧ ∃ t ∈ s.transitions.values, t.kind.extending = true
    ∧ o < t.occurredAtMs + 120 * oneMinuteMs

theorem lt_requiredEnd_iff {s : OutcomeState} {o : ℕ} :
    o < s.requiredEnd ↔ o < s.view.originalDeadlineMs ∨ s.ExtendsBeyond o := by
  have hfold : ∀ (l : List OutcomeTransitionView) (x : ℕ),
      o < l.foldl (fun endMs transition => if transition.kind.extending then
          max endMs (transition.occurredAtMs + 120 * oneMinuteMs) else endMs) x
        ↔ o < x ∨ ∃ t ∈ l, t.kind.extending = true ∧ o < t.occurredAtMs + 120 * oneMinuteMs := by
    intro l
    induction l with
    | nil => simp
    | cons t l ih =>
      intro x
      rw [List.foldl_cons, ih]
      by_cases hk : t.kind.extending = true
      · simp [hk, or_assoc]
      · simp [hk]
  unfold requiredEnd ExtendsBeyond
  split_ifs with hfam
  · rw [hfold]
    simp [hfam]
  · simp [hfam]

/-- The same plan with at least the transitions it had. -/
structure Grows (s s' : OutcomeState) : Prop where
  view : s'.view = s.view
  transitions : ∀ t ∈ s.transitions.values, t ∈ s'.transitions.values

theorem Grows.refl (s : OutcomeState) : Grows s s := ⟨rfl, fun _ h => h⟩

theorem Grows.requires {s s' : OutcomeState} (h : Grows s s') {m : Text} {o : ℕ}
    (hreq : s.Requires m o) : s'.Requires m o := by
  obtain ⟨hm, hs, ho⟩ := hreq
  refine ⟨h.view ▸ hm, h.view ▸ hs, ?_⟩
  rw [lt_requiredEnd_iff] at ho ⊢
  rcases ho with ho | ⟨hfam, t, ht, hk, ho⟩
  · exact .inl (h.view ▸ ho)
  · exact .inr ⟨h.view ▸ hfam, t, h.transitions t ht, hk, ho⟩

theorem Grows.set {s : OutcomeState} {t : OutcomeTransitionView}
    (hnew : s.transitions.get? t.transitionId = none) :
    Grows s { s with transitions := s.transitions.set t.transitionId t } := by
  refine ⟨rfl, fun u hu => ?_⟩
  obtain ⟨k, hk⟩ := Dict.mem_values.mp hu
  have hne : t.transitionId ≠ k := by
    rintro rfl
    rw [hnew] at hk
    cases hk
  exact Dict.mem_values.mpr ⟨k, (Dict.get?_set_ne hne).trans hk⟩

end OutcomeState

namespace OutcomeEngine

/-! ### Calls and the state of a plan -/

/-- The call is one of the plan itself; bars are kept, and ticks are left out. -/
def Op.concerns (id : Text) : Op → Bool
  | .attach view => view.shadowOrderId = id
  | .admitTransition transition _ => transition.shadowOrderId = id
  | .detach shadowOrderId => shadowOrderId = id
  | .admitBar _ => true
  | .tick _ => false

/-- The plan's own calls and the bars. -/
def ownCalls (id : Text) (ops : List Op) : List Op := ops.filter (Op.concerns id)

section States

variable {e e' : OutcomeEngine δ} {id : Text}

theorem settled_ok {ε : Type} {r : Except ε (Bool × OutcomeEngine δ)}
    (h : Prod.snd <$> r = .ok e') : (r.toOption.map Prod.snd).getD e = e' := by
  rcases r with err | ⟨b, x⟩
  · cases h
  · exact Except.ok.inj h

theorem settled_error {ε : Type} {r : Except ε (Bool × OutcomeEngine δ)} {err : ε}
    (h : Prod.snd <$> r = .error err) : (r.toOption.map Prod.snd).getD e = e := by
  rcases r with err | ⟨b, x⟩
  · rfl
  · cases h

variable [LinearOrder δ] {sha256 : MinutePayload → δ}

/-- What a call does to the states of the plans. -/
inductive Restated (e : OutcomeEngine δ) : Op → Dict Text OutcomeState → Prop
  | same (op : Op) : Restated e op e.states
  | attach {view : FormalShadowView} (hnew : e.states.get? view.shadowOrderId = none) :
      Restated e (.attach view) (e.states.set view.shadowOrderId { view := view })
  | transition {t : OutcomeTransitionView} {now : ℕ} {s : OutcomeState}
      (hs : e.states.get? t.shadowOrderId = some s)
      (hstart : s.view.outcomeStartMs ≤ t.occurredAtMs)
      (hextend : t.kind.extending = true → s.view.setupFamily = .breakoutRetest)
      (hnew : s.transitions.get? t.transitionId = none) :
      Restated e (.admitTransition t now) (e.states.set t.shadowOrderId
        { s with transitions := s.transitions.set t.transitionId t })
  | detach {id : Text} {s : OutcomeState} (hs : e.states.get? id = some s) :
      Restated e (.detach id) (e.states.set id { s with forcedDetached := true })
  | tick (now : ℕ) (p : Text → OutcomeState → Bool) : Restated e (.tick now) (e.states.filter p)

theorem states_tick (e : OutcomeEngine δ) (now : ℕ) : ∃ p, (e.tick now).2.states = e.states.filter p := by
  unfold tick
  dsimp only
  generalize List.map FormalShadowOutcome.shadowOrderId _ = completed
  refine ⟨fun identity _ => decide (identity ∉ completed), ?_⟩
  split_ifs <;> rfl

theorem restated_apply (sha256 : MinutePayload → δ) (e : OutcomeEngine δ) (op : Op) :
    Restated e op (e.apply sha256 op).states := by
  have hkeep : ∀ {op : Op} {r : Except OutcomeError (Bool × OutcomeEngine δ)},
      (∀ b e', r = .ok (b, e') → Restated e op e'.states) →
      Restated e op ((r.toOption.map Prod.snd).getD e).states := by
    intro op r hr
    rcases r with err | ⟨b, x⟩
    · exact .same op
    · exact hr b x rfl
  cases op with
  | attach view =>
    refine hkeep fun b e' hok => ?_
    rcases attach_cases hok with rfl | ⟨hnew, rfl⟩
    · exact .same _
    · exact .attach hnew
  | admitTransition t now =>
    refine hkeep fun b e' hok => ?_
    rcases admitTransition_cases hok with rfl | ⟨s, hs, hstart, hext, hnew, rfl⟩
    · exact .same _
    · exact .transition hs hstart hext hnew
  | detach shadowOrderId =>
    refine hkeep fun b e' hok => ?_
    rcases detach_cases hok with rfl | ⟨s, hs, rfl⟩
    · exact .same _
    · exact .detach hs
  | admitBar bar =>
    rw [apply, states_admitBar]
    exact .same _
  | tick now =>
    obtain ⟨p, hp⟩ := e.states_tick now
    rw [apply, hp]
    exact .tick now p

/-- A call of another plan that is no tick leaves the state alone. -/
theorem get?_apply_other {op : Op} (h : op.concerns id = false) (htick : ∀ now, op ≠ .tick now) :
    (e.apply sha256 op).states.get? id = e.states.get? id := by
  have hstep := restated_apply sha256 e op
  generalize (e.apply sha256 op).states = states at hstep ⊢
  cases hstep with
  | same => rfl
  | attach | transition | detach => exact Dict.get?_set_ne (of_decide_eq_false h)
  | tick now => exact absurd rfl (htick now)

/-- A call of the plan itself does the same to its state whatever else is
attached. -/
theorem get?_apply_own {op : Op} (h : op.concerns id = true) (hsame : e.states.get? id = e'.states.get? id) :
    (e.apply sha256 op).states.get? id = (e'.apply sha256 op).states.get? id := by
  cases op with
  | attach view =>
    obtain rfl : view.shadowOrderId = id := of_decide_eq_true h
    by_cases hinert : view.state ≠ .formalShadowPlan ∨ view.active = false
    · simp only [apply, settled_ok (attach_inert hinert), hsame]
    · rcases hx : e.states.get? view.shadowOrderId with - | x
      · obtain ⟨a, ha, hget⟩ := attach_new hinert hx
        obtain ⟨b, hb, hget'⟩ := attach_new hinert (hsame ▸ hx)
        simp only [apply, settled_ok ha, settled_ok hb, hget, hget']
      · have ha := attach_again hinert hx
        have hb := attach_again hinert (hsame ▸ hx)
        by_cases hview : x.view ≠ view
        · rw [if_pos hview] at ha hb
          simp only [apply, settled_error ha, settled_error hb, hsame]
        · rw [if_neg hview] at ha hb
          simp only [apply, settled_ok ha, settled_ok hb, hsame]
  | admitTransition t now =>
    obtain rfl : t.shadowOrderId = id := of_decide_eq_true h
    rcases hx : e.states.get? t.shadowOrderId with - | s
    · have ha := @admitTransition_unattached δ e now t hx
      have hb := @admitTransition_unattached δ e' now t (hsame ▸ hx)
      simp only [apply, settled_error ha, settled_error hb, hsame]
    · have ha := @admitTransition_attached δ e now t s hx
      have hb := @admitTransition_attached δ e' now t s (hsame ▸ hx)
      rcases hent : transitionEntry s t now with err | entry
      · rw [hent] at ha hb
        simp only [apply, settled_error ha, settled_error hb, hsame]
      · rw [hent] at ha hb
        simp only [apply, settled_ok ha, settled_ok hb]
        rcases entry with - | s'
        · exact hsame
        · exact Dict.get?_set_self.trans Dict.get?_set_self.symm
  | detach shadowOrderId =>
    obtain rfl : shadowOrderId = id := of_decide_eq_true h
    simp only [apply, detach, stateOf, ← hsame]
    rcases hx : e.states.get? shadowOrderId with - | s
    · exact hx.trans (hsame ▸ hx).symm
    · simp only [bind, Except.bind]
      by_cases hdet : s.forcedDetached = true
      · rw [if_pos hdet, if_pos hdet]
        exact hx.trans (hsame ▸ hx).symm
      · rw [if_neg hdet, if_neg hdet]
        exact Dict.get?_set_self.trans Dict.get?_set_self.symm
  | admitBar bar => simp only [apply, states_admitBar, hsame]
  | tick now => cases h

theorem get?_tick (now : ℕ) :
    (e.tick now).2.states.get? id = e.states.get? id ∨ (e.tick now).2.states.get? id = none := by
  obtain ⟨p, hp⟩ := e.states_tick now
  rw [hp, Dict.get?_filter]
  rcases e.states.get? id with - | s
  · exact .inl rfl
  · by_cases h : p id s = true <;> simp [h]

/-- A plan that is not dropped grows. -/
theorem grows_apply {s : OutcomeState} (hs : e.states.get? id = some s) {op : Op}
    (hkept : ∀ now, op = .tick now → ((e.tick now).2.states.get? id).isSome = true) :
    ∃ s', (e.apply sha256 op).states.get? id = some s' ∧ OutcomeState.Grows s s' := by
  have hstep := restated_apply sha256 e op
  generalize hsts : (e.apply sha256 op).states = states at hstep ⊢
  have hset : ∀ {key : Text} {x : OutcomeState}, (∀ y, e.states.get? key = some y → OutcomeState.Grows y x) →
      ∃ s', (e.states.set key x).get? id = some s' ∧ OutcomeState.Grows s s' := by
    intro key x hx
    by_cases hid : key = id
    · subst hid
      exact ⟨x, Dict.get?_set_self, hx s hs⟩
    · exact ⟨s, (Dict.get?_set_ne hid).trans hs, .refl s⟩
  cases hstep with
  | same => exact ⟨s, hs, .refl s⟩
  | attach hnew => exact hset fun x hx => (nomatch hnew.symm.trans hx)
  | transition hx _ _ hnew => exact hset fun y hy => Option.some.inj (hx.symm.trans hy) ▸ .set hnew
  | detach hx => exact hset fun y hy => Option.some.inj (hx.symm.trans hy) ▸ ⟨rfl, fun _ ht => ht⟩
  | tick now =>
    have hsome := hkept now rfl
    rw [← hsts]
    rcases @get?_tick δ e id _ now with h | h
    · exact ⟨s, h.trans hs, .refl s⟩
    · rw [h] at hsome
      cases hsome

end States

/-! ### One plan beside others -/

section Beside

variable [LinearOrder δ] {sha256 : MinutePayload → δ} {e e' : OutcomeEngine δ} {id : Text}
variable {P : Text → ℕ → Prop}

/-- The engine of a run and the one of the plan's own calls, on the minutes `P`. -/
structure Beside (id : Text) (P : Text → ℕ → Prop) (e e' : OutcomeEngine δ) : Prop where
  state : e.states.get? id = e'.states.get? id
  alone : ∀ j s, e'.states.get? j = some s → j = id
  slots : ∀ m o, P m o → e.slot m o = e'.slot m o
  held : ∀ m o, P m o → e.slot m o ≠ ⟨none, none⟩ →
    ∃ s, e.states.get? id = some s ∧ s.Requires m o

omit [LinearOrder δ] in
theorem Beside.start : Beside id P ({} : OutcomeEngine δ) {} :=
  ⟨rfl, fun _ _ h => (nomatch h), fun _ _ _ => rfl, fun _ _ _ h => absurd rfl h⟩

/-- What is asked of the others: a bar for a minute of `P` is accepted only while
the plan requires it, and no tick drops the plan. -/
def OwnStep (id : Text) (P : Text → ℕ → Prop) (e : OutcomeEngine δ) : Op → Prop
  | .admitBar bar => P bar.marketId bar.openTimeMs → e.requiresBar bar = true →
    (e.states.get? id).any (fun s => s.Requires bar.marketId bar.openTimeMs) = true
  | .tick now => (e.states.get? id).isSome = true → ((e.tick now).2.states.get? id).isSome = true
  | _ => True

instance [∀ m o, Decidable (P m o)] (op : Op) : Decidable (OwnStep id P e op) := by
  cases op <;> unfold OwnStep <;> infer_instance

omit [LinearOrder δ] in
theorem any_requires {m : Text} {o : ℕ} (h : (e.states.get? id).any (fun s => s.Requires m o) = true) :
    ∃ s, e.states.get? id = some s ∧ s.Requires m o := by
  rcases hs : e.states.get? id with - | s
  · rw [hs] at h
    cases h
  · rw [hs] at h
    exact ⟨s, rfl, of_decide_eq_true h⟩

/-- The calls that are neither bars nor ticks leave the evidence alone. -/
theorem slot_planCall {op : Op} (hbar : ∀ bar, op ≠ .admitBar bar) (htick : ∀ now, op ≠ .tick now)
    (m : Text) (o : ℕ) : (e.apply sha256 op).slot m o = e.slot m o := by
  cases op with
  | attach view => exact slot_getD fun _ _ => slot_attach
  | admitTransition t now => exact slot_getD fun _ _ => slot_admitTransition
  | detach shadowOrderId => exact slot_getD fun _ _ => slot_detach
  | admitBar bar => exact absurd rfl (hbar bar)
  | tick now => exact absurd rfl (htick now)

/-- A call of the plan attaches nobody else. -/
theorem alone_apply {op : Op} (hop : op.concerns id = true) (h : ∀ j s, e.states.get? j = some s → j = id) :
    ∀ j s, (e.apply sha256 op).states.get? j = some s → j = id := by
  intro j s hj
  by_contra hne
  have hoth : op.concerns j = false ∨ ∃ bar, op = .admitBar bar := by
    cases op with
    | attach | admitTransition | detach =>
      exact .inl (decide_eq_false fun hv => hne (hv.symm.trans (of_decide_eq_true hop)))
    | admitBar bar => exact .inr ⟨bar, rfl⟩
    | tick now => cases hop
  have hkept : (e.apply sha256 op).states.get? j = e.states.get? j := by
    rcases hoth with hoth | ⟨bar, rfl⟩
    · refine get?_apply_other hoth fun now hnow => ?_
      subst hnow
      cases hop
    · simp only [apply, states_admitBar]
  exact hne (h j s (hkept ▸ hj))

section

variable (h : Beside id P e e')
include h

/-- A bar is accepted for the plan on both sides, or on none, as far as `P` goes. -/
theorem Beside.requiresBar_iff {bar : OneMinuteBar}
    (hstep : OwnStep id P e (.admitBar bar)) (hP : P bar.marketId bar.openTimeMs) :
    e.requiresBar bar = true ↔ e'.requiresBar bar = true := by
  constructor
  · intro hreq
    obtain ⟨s, hs, hown⟩ := any_requires (hstep hP hreq)
    exact needed_iff.mpr ⟨id, s, h.state ▸ hs, hown⟩
  · intro hreq
    obtain ⟨j, s, hs, hown⟩ := needed_iff.mp hreq
    obtain rfl := h.alone j s hs
    exact needed_iff.mpr ⟨j, s, h.state.trans hs, hown⟩

theorem Beside.admitBar {bar : OneMinuteBar} (hstep : OwnStep id P e (.admitBar bar)) :
    Beside id P (e.apply sha256 (.admitBar bar)) (e'.apply sha256 (.admitBar bar)) := by
  refine ⟨?_, alone_apply rfl h.alone, fun m o hP => ?_, fun m o hP hslot => ?_⟩
  · simp only [apply, states_admitBar, h.state]
  · change (e.admitBar sha256 bar).2.slot m o = (e'.admitBar sha256 bar).2.slot m o
    rw [slot_admitBar, slot_admitBar, h.slots m o hP]
    by_cases hkey : bar.marketId = m ∧ bar.openTimeMs = o
    · obtain ⟨rfl, rfl⟩ := hkey
      simp only [true_and, h.requiresBar_iff hstep hP]
    · rw [if_neg fun hc => hkey ⟨hc.1, hc.2.1⟩, if_neg fun hc => hkey ⟨hc.1, hc.2.1⟩]
  · change (e.admitBar sha256 bar).2.slot m o ≠ _ at hslot
    rw [slot_admitBar] at hslot
    simp only [apply, states_admitBar]
    split_ifs at hslot with hkey
    · obtain ⟨rfl, rfl, hreq⟩ := hkey
      exact any_requires (hstep hP hreq)
    · exact h.held m o hP hslot

theorem Beside.tick {now : ℕ} (hstep : OwnStep id P e (.tick now)) :
    Beside id P (e.apply sha256 (.tick now)) e' := by
  have hsta : (e.tick now).2.states.get? id = e.states.get? id := by
    rcases hs : e.states.get? id with - | s
    · rcases @get?_tick δ e id _ now with hget | hget
      · exact hget.trans hs
      · exact hget
    · have hsome := hstep (by rw [hs]; rfl)
      rcases @get?_tick δ e id _ now with hget | hget
      · exact hget.trans hs
      · rw [hget] at hsome
        cases hsome
  have hkept : ∀ m o, P m o → (e.tick now).2.slot m o = e.slot m o := by
    intro m o hP
    rcases @slot_tick δ e m o _ now with hslot | ⟨hcleared, hneed⟩
    · exact hslot
    · -- a minute of `P` with evidence is required by the plan, and not cleared
      by_cases hemp : e.slot m o = ⟨none, none⟩
      · rw [hcleared, hemp]
      · obtain ⟨s, hs, hreq⟩ := h.held m o hP hemp
        have : (e.tick now).2.needed m o = true := needed_iff.mpr ⟨id, s, hsta.trans hs, hreq⟩
        rw [hneed] at this
        cases this
  refine ⟨hsta.trans h.state, h.alone, fun m o hP => (hkept m o hP).trans (h.slots m o hP),
    fun m o hP hslot => ?_⟩
  obtain ⟨s, hs, hreq⟩ := h.held m o hP (hkept m o hP ▸ hslot)
  exact ⟨s, hsta.trans hs, hreq⟩

/-- **One call.** -/
theorem Beside.step {op : Op} (hstep : OwnStep id P e op) :
    Beside id P (e.apply sha256 op) (if op.concerns id then e'.apply sha256 op else e') := by
  by_cases hbar : ∃ bar, op = .admitBar bar
  · obtain ⟨bar, rfl⟩ := hbar
    exact h.admitBar hstep
  by_cases htick : ∃ now, op = .tick now
  · obtain ⟨now, rfl⟩ := htick
    exact h.tick hstep
  have hslot : ∀ (e : OutcomeEngine δ) m o, (e.apply sha256 op).slot m o = e.slot m o :=
    fun e => slot_planCall (fun bar hop => hbar ⟨bar, hop⟩) fun now hop => htick ⟨now, hop⟩
  have hheld : ∀ m o, P m o → (e.apply sha256 op).slot m o ≠ ⟨none, none⟩ →
      ∃ s, (e.apply sha256 op).states.get? id = some s ∧ s.Requires m o := by
    intro m o hP hne
    obtain ⟨s, hs, hreq⟩ := h.held m o hP (hslot e m o ▸ hne)
    obtain ⟨s', hs', hgrows⟩ := @grows_apply δ e id _ sha256 s hs op
      fun now hop => absurd ⟨now, hop⟩ htick
    exact ⟨s', hs', hgrows.requires hreq⟩
  by_cases hop : op.concerns id = true
  · rw [if_pos hop]
    refine ⟨get?_apply_own hop h.state, alone_apply hop h.alone, fun m o hP => ?_, hheld⟩
    rw [hslot, hslot, h.slots m o hP]
  · rw [if_neg hop]
    refine ⟨?_, h.alone, fun m o hP => (hslot e m o).trans (h.slots m o hP), hheld⟩
    rw [get?_apply_other (by simpa using hop) fun now hop => htick ⟨now, hop⟩]
    exact h.state

end

/-- Every call of the run leaves the plan its own evidence. -/
def OwnRun (sha256 : MinutePayload → δ) (id : Text) (P : Text → ℕ → Prop) :
    OutcomeEngine δ → List Op → Prop
  | _, [] => True
  | e, op :: ops => OwnStep id P e op ∧ OwnRun sha256 id P (e.apply sha256 op) ops

instance ownRunDecidable [∀ m o, Decidable (P m o)] :
    (e : OutcomeEngine δ) → (ops : List Op) → Decidable (OwnRun sha256 id P e ops)
  | _, [] => isTrue trivial
  | e, op :: ops =>
    have := ownRunDecidable (e.apply sha256 op) ops
    inferInstanceAs (Decidable (_ ∧ _))

/-- **Whole runs.** -/
theorem Beside.run {ops : List Op} : ∀ {e e' : OutcomeEngine δ}, Beside id P e e' →
    OwnRun sha256 id P e ops → Beside id P (run sha256 e ops) (run sha256 e' (ownCalls id ops)) := by
  induction ops with
  | nil => exact fun h _ => h
  | cons op ops ih =>
    intro e e' h hrun
    have hnext := ih (h.step hrun.1) hrun.2
    unfold ownCalls at hnext ⊢
    by_cases hop : op.concerns id = true
    · rw [if_pos hop] at hnext
      rw [List.filter_cons_of_pos hop]
      exact hnext
    · rw [if_neg hop] at hnext
      rw [List.filter_cons_of_neg hop]
      exact hnext

end Beside

/-! ### The transitions of a plan -/

end OutcomeEngine

/-- The transitions of a plan lie in its time, and only a breakout is extended. -/
def OutcomeState.Dated (s : OutcomeState) : Prop :=
  ∀ t ∈ s.transitions.values, s.view.outcomeStartMs ≤ t.occurredAtMs
    ∧ (t.kind.extending = true → s.view.setupFamily = .breakoutRetest)

theorem OutcomeState.Dated.set {s : OutcomeState} (h : s.Dated) {t : OutcomeTransitionView}
    (hstart : s.view.outcomeStartMs ≤ t.occurredAtMs)
    (hext : t.kind.extending = true → s.view.setupFamily = .breakoutRetest) :
    Dated { s with transitions := s.transitions.set t.transitionId t } := by
  intro u hu
  obtain ⟨k, hk⟩ := Dict.mem_values.mp hu
  by_cases hid : t.transitionId = k
  · subst hid
    obtain rfl : t = u := Option.some.inj (Dict.get?_set_self.symm.trans hk)
    exact ⟨hstart, hext⟩
  · exact h u (Dict.mem_values.mpr ⟨k, (Dict.get?_set_ne hid).symm.trans hk⟩)

theorem OutcomeState.mem_anchor {s : OutcomeState} {anchor : OutcomeTransitionView}
    (h : s.anchor = some anchor) : anchor ∈ s.transitions.values ∧ anchor.kind.extending = true := by
  have hmem : ∀ kind, (s.transitionsOf [kind]).head? = some anchor →
      anchor ∈ s.transitions.values ∧ anchor.kind = kind := by
    intro kind hhead
    have hin := mem_sortBy.mp (List.mem_of_head? hhead)
    obtain ⟨hval, hkind⟩ := List.mem_filter.mp hin
    exact ⟨hval, List.mem_singleton.mp (of_decide_eq_true hkind)⟩
  rcases Option.or_eq_some_iff.mp h with hfail | ⟨-, hacc⟩
  · obtain ⟨hval, hkind⟩ := hmem _ hfail
    exact ⟨hval, by rw [hkind]; rfl⟩
  · obtain ⟨hval, hkind⟩ := hmem _ hacc
    exact ⟨hval, by rw [hkind]; rfl⟩

/-- The required window covers the reverse trade. -/
theorem OutcomeState.Dated.anchor_required {s : OutcomeState} (h : s.Dated)
    {anchor : OutcomeTransitionView} (ha : s.anchor = some anchor) :
    s.view.outcomeStartMs ≤ anchor.occurredAtMs
      ∧ anchor.occurredAtMs + 120 * oneMinuteMs ≤ s.requiredEnd := by
  obtain ⟨hmem, hkind⟩ := s.mem_anchor ha
  obtain ⟨hstart, hfam⟩ := h anchor hmem
  refine ⟨hstart, not_lt.mp fun hlt => ?_⟩
  have := lt_requiredEnd_iff.mpr (.inr ⟨hfam hkind, anchor, hmem, hkind, hlt⟩)
  exact lt_irrefl _ this

/-- What an evaluation reads is required. -/
theorem OutcomeState.Dated.requires_of_reads {s : OutcomeState} (h : s.Dated) {asOfMs o : ℕ}
    (hreads : s.Reads asOfMs o) : s.Requires s.view.marketId o := by
  obtain ⟨-, ⟨hstart, hend⟩ | ⟨anchor, ha, hstart, hend⟩⟩ := hreads
  · exact ⟨rfl, hstart, hend⟩
  · obtain ⟨hfrom, huntil⟩ := h.anchor_required ha
    exact ⟨rfl, hfrom.trans hstart, hend.trans_le huntil⟩

namespace OutcomeEngine

section Outcomes

variable [LinearOrder δ] {sha256 : MinutePayload → δ} {e e' : OutcomeEngine δ}
variable {s : OutcomeState} {id : Text}

theorem dated_apply (h : ∀ id s, e.states.get? id = some s → s.Dated) (op : Op) :
    ∀ id s, (e.apply sha256 op).states.get? id = some s → s.Dated := by
  have hset : ∀ {key : Text} {x : OutcomeState}, x.Dated →
      ∀ id s, (e.states.set key x).get? id = some s → s.Dated := Dict.forall_get?_set h
  have hstep := restated_apply sha256 e op
  generalize (e.apply sha256 op).states = states at hstep ⊢
  cases hstep with
  | same => exact h
  | attach => exact hset nofun
  | transition hs hstart hext => exact hset ((h _ _ hs).set hstart hext)
  | @detach _ x hx => exact hset (h _ x hx)
  | tick _ p =>
    intro id s hs
    rw [Dict.get?_filter] at hs
    exact h id s (Option.filter_eq_some_iff.mp hs).1

theorem dated_run (ops : List Op) (h : ∀ id s, e.states.get? id = some s → s.Dated) :
    ∀ id s, (run sha256 e ops).states.get? id = some s → s.Dated := by
  induction ops generalizing e with
  | nil => exact h
  | cons op ops ih => exact ih (dated_apply h op)

/-! ### Outcomes -/

/-- The price of the reverse trade comes with its transition or from a bar of the
plan's own window. -/
def ReferenceWithin (e : OutcomeEngine δ) (s : OutcomeState) : Prop :=
  ∀ anchor ∈ s.anchor, anchor.referencePrice = none →
    ∃ bar ∈ e.closedBy s anchor.occurredAtMs, s.view.outcomeStartMs ≤ bar.openTimeMs

section Closed

variable {anchor : OutcomeTransitionView} {bar : OneMinuteBar} (hinv : EngineInv sha256 e)
  (hdated : s.Dated) (ha : s.anchor = some anchor) (hbar : bar ∈ e.closedBy s anchor.occurredAtMs)
  (hstart : s.view.outcomeStartMs ≤ bar.openTimeMs)

include hinv hdated ha hbar hstart

/-- A bar closed by the transition and not before the plan is a required one. -/
theorem requires_of_closedBy : s.Requires s.view.marketId bar.openTimeMs
      ∧ (e.slot s.view.marketId bar.openTimeMs).retained = some bar := by
  obtain ⟨hmem, hcl⟩ := List.mem_filter.mp hbar
  have hcl := of_decide_eq_true hcl
  obtain ⟨o, ho⟩ := Dict.mem_values.mp hmem
  obtain ⟨-, rfl⟩ := hinv.filed s.view.marketId o bar ho
  have huntil := (hdated.anchor_required ha).2
  refine ⟨⟨rfl, hstart, ?_⟩, ho⟩
  simp only [OneMinuteBar.closeTimeMs, oneMinuteMs] at hcl huntil
  omega

/-- A required bar of one engine is closed by then in the other as well. -/
theorem closedBy_of_slots (hsl : ∀ m o, s.Requires m o → e.slot m o = e'.slot m o) :
    bar ∈ e'.closedBy s anchor.occurredAtMs := by
  obtain ⟨hreq, hret⟩ := requires_of_closedBy hinv hdated ha hbar hstart
  rw [hsl _ _ hreq] at hret
  exact List.mem_filter.mpr ⟨Dict.mem_values.mpr ⟨_, hret⟩, (List.mem_filter.mp hbar).2⟩

/-- **The latest bar is the same** if one of the plan's window is closed by then. -/
theorem latest_of_slots (hinv' : EngineInv sha256 e')
    (hsl : ∀ m o, s.Requires m o → e.slot m o = e'.slot m o) :
    maxBy OneMinuteBar.closeTimeMs (e.closedBy s anchor.occurredAtMs)
      = maxBy OneMinuteBar.closeTimeMs (e'.closedBy s anchor.occurredAtMs) := by
  rcases hmax : maxBy OneMinuteBar.closeTimeMs (e.closedBy s anchor.occurredAtMs) with - | b
  · rw [maxBy_eq_none] at hmax
    rw [hmax] at hbar
    cases hbar
  obtain ⟨hb, hle⟩ := maxBy_spec hmax
  have hbstart : s.view.outcomeStartMs ≤ b.openTimeMs := by
    have := hle bar hbar
    simp only [OneMinuteBar.closeTimeMs] at this
    omega
  symm
  refine (maxBy_eq_some fun x hx y hy => hinv'.closeTimeMs_inj x (List.mem_filter.mp hx).1 y
    (List.mem_filter.mp hy).1).mpr ⟨closedBy_of_slots hinv hdated ha hb hbstart hsl, fun x hx => ?_⟩
  -- a bar of the other engine is of the plan's window too, or before it
  by_cases hxstart : s.view.outcomeStartMs ≤ x.openTimeMs
  · exact hle x (closedBy_of_slots hinv' hdated ha hx hxstart fun m o h => (hsl m o h).symm)
  · simp only [OneMinuteBar.closeTimeMs]
    omega

end Closed

theorem reverseEntry_of_slots (hinv : EngineInv sha256 e) (hinv' : EngineInv sha256 e')
    (hdated : s.Dated) (hsl : ∀ m o, s.Requires m o → e.slot m o = e'.slot m o)
    (href : ReferenceWithin e s) : e.reverseEntry s = e'.reverseEntry s := by
  unfold reverseEntry
  split_ifs
  · rcases ha : s.anchor with - | anchor
    · rfl
    · simp only [Option.bind_some, transitionReference]
      rcases hpr : anchor.referencePrice with - | price
      · obtain ⟨bar, hbar, hstart⟩ := href anchor ha hpr
        have hlat := latest_of_slots hinv hdated ha hbar hstart hinv' hsl
        exact congrArg (Option.map OneMinuteBar.close) hlat
      · rfl
  · rfl

/-- **Outcomes do not interfere.**  Take the other plans' calls and all ticks out
of a run.  If bars of the plan's window were accepted only while the plan itself
required them, no tick dropped the plan, and the price of its reverse trade is not
looked up before its window, then its outcome is the same at every time. -/
theorem outcomes_do_not_interfere (sha256 : MinutePayload → δ) (ops : List Op) {id : Text}
    {s : OutcomeState} (hs : (run sha256 {} ops).states.get? id = some s)
    (hown : OwnRun sha256 id s.Requires {} ops) (href : ReferenceWithin (run sha256 {} ops) s) (asOfMs : ℕ) :
    (run sha256 {} ops).evaluate id asOfMs = (run sha256 {} (ownCalls id ops)).evaluate id asOfMs := by
  have hbeside := (Beside.start (P := s.Requires)).run hown
  have hinv : EngineInv sha256 (run sha256 {} ops) := EngineInv.start.run ops
  have hinv' : EngineInv sha256 (run sha256 {} (ownCalls id ops)) := EngineInv.start.run _
  have hdated : s.Dated := @dated_run δ _ sha256 {} ops (fun _ _ h => nomatch h) id s hs
  have hsame : SameEvidence (run sha256 {} ops) (run sha256 {} (ownCalls id ops))
      s.view.marketId (s.Reads asOfMs) := by
    have hslot := fun o ho =>
      hbeside.slots s.view.marketId o (@OutcomeState.Dated.requires_of_reads s hdated asOfMs o ho)
    exact ⟨fun o ho => congrArg MinuteSlot.retained (hslot o ho),
      fun o ho => congrArg (fun slot => slot.conflict.isSome) (hslot o ho)⟩
  rw [evaluate_attached hs, evaluate_attached (hbeside.state ▸ hs)]
  congr 1
  refine (outcomeOf_eq_iff hsame).mpr ⟨?_, ?_⟩
  · exact reverseEntry_of_slots hinv hinv' hdated hbeside.slots href
  · exact stateConflicts_of_get? s fun m o hreq => congrArg MinuteSlot.conflict (hbeside.slots m o hreq)

end Outcomes

/-- Another plan from minute 0 has a bar of minute 0 accepted before the plan is
attached. -/
def sharedBar : List Op :=
  [.attach (breakoutPlan ['a'] 0), .admitBar (flatBar 0 99), .attach (breakoutPlan ['s'] 0)]

/-- The breakout of a plan from minute 8 fails at minute 10; the only bar is one of
minute 5, of another plan. -/
def foreignReference : List Op :=
  [.attach (breakoutPlan ['a'] 0), .admitBar (flatBar 5 99), .attach (breakoutPlan ['s'] 8),
    failsAtTen]

/-- **Other plans change an outcome.**  Without the other plan the first bar is not
accepted, and the plan has a gap at minute 1.  In the second run the reverse trade is
priced from the other plan's bar, which lies before the plan's window. -/
theorem other_plans_change_outcome : (run MinutePayload.fields {} sharedBar).evaluate ['s'] 60000
        ≠ (run MinutePayload.fields {} (ownCalls ['s'] sharedBar)).evaluate ['s'] 60000
      ∧ (run MinutePayload.fields {} foreignReference).evaluate ['s'] 600000
        ≠ (run MinutePayload.fields {} (ownCalls ['s'] foreignReference)).evaluate ['s'] 600000 := by
  refine ⟨fun heq => ?_, fun heq => ?_⟩
  · have hstatus := congrArg (fun r => r.toOption.map FormalShadowOutcome.pathMaturityStatus) heq
    revert hstatus
    decide +kernel
  · have hentry := congrArg (fun r => r.toOption.bind fun outcome =>
      outcome.research.bind FailedBreakoutResearch.reverseEntry) heq
    revert hentry
    decide +kernel

/-- Another plan is complete at minute 120, and its bars are pruned; half of them
serve a plan from minute 60 as well. -/
def completedBeside : List Op :=
  [.attach (breakoutPlan ['a'] 0), .attach (breakoutPlan ['s'] 60)]
    ++ (List.range 120).map (fun minute => .admitBar (flatBar minute 99)) ++ [.tick 7200000]

/-- The plan keeps its outcome beside the one that was completed. -/
theorem outcomes_do_not_interfere_completed :
    (run MinutePayload.fields {} completedBeside).states.keys = [['s']]
      ∧ (run MinutePayload.fields {} completedBeside).evaluate ['s'] 7200000
        = (run MinutePayload.fields {} (ownCalls ['s'] completedBeside)).evaluate ['s'] 7200000 := by
  refine ⟨by decide +kernel, ?_⟩
  refine outcomes_do_not_interfere MinutePayload.fields completedBeside
    (s := { view := breakoutPlan ['s'] 60 }) (by decide +kernel) (by decide +kernel) ?_ 7200000
  intro anchor hanchor
  cases hanchor

end OutcomeEngine

end TraderAssist
