/-
TraderAssist/Lib/Stateful.lean

Rules for computations that change a state and return or raise.

What such a computation has done to the state stays when it raises.  `Ends x s Q E` is its
weakest precondition: run from `s`, `Q` of what it returns and the state then, `E` of what
it raises and the state then.  The rules are equations, one for each way to build a
computation, so that a proof about one follows its text.  `outcome` forgets the state of a
computation that raised; `Pairs` compares two computations by it.
-/
import TraderAssist.Lib.Raises

namespace Py

variable {ε σ α β : Type} {handler : σ → σ} {a : α} {s' : σ} {y : Except ε α} {e : ε}

/-! ### Commands -/

/-- A computation that only returns or raises. -/
def attempt (x : Except ε α) : EStateM ε σ α := fun s =>
  match x with
  | .ok a => .ok a s
  | .error e => .error e s

/-- `if not p: raise err`. -/
def check (p : Prop) [Decidable p] (err : ε) : EStateM ε σ Unit := attempt (require p err)

/-- `except BaseException: ...; raise`, where the handler is an update of the state. -/
def onRaise (x : EStateM ε σ α) (handler : σ → σ) : EStateM ε σ α := fun s =>
  match x s with
  | .ok a s' => .ok a s'
  | .error e s' => .error e (handler s')

/-- A transaction: the state at its start if it raises. -/
def transaction (x : EStateM ε σ α) : EStateM ε σ α := fun s => onRaise x (fun _ => s) s

/-- Raise another error in the place of each. -/
def reraise (f : ε → ε) (x : EStateM ε σ α) : EStateM ε σ α := fun s =>
  match x s with
  | .ok a s' => .ok a s'
  | .error e s' => .error (f e) s'

/-! ### Weakest preconditions -/

/-- From `s`: `Q` of what is returned and the state then, `E` of what is raised and the
state then. -/
def Ends (x : EStateM ε σ α) (s : σ) (Q : α → σ → Prop) (E : ε → σ → Prop) : Prop :=
  match x s with
  | .ok a s' => Q a s'
  | .error e s' => E e s'

section Ends

variable {x : EStateM ε σ α} {f : α → EStateM ε σ β} {s : σ} {Q Q' : α → σ → Prop}
  {E E' : ε → σ → Prop}

theorem ends_pure : Ends (pure a) s Q E ↔ Q a s := Iff.rfl

theorem ends_get {Q : σ → σ → Prop} : Ends get s Q E ↔ Q s s := Iff.rfl

theorem ends_modify {g : σ → σ} {Q : PUnit → σ → Prop} : Ends (modify g) s Q E ↔ Q ⟨⟩ (g s) := Iff.rfl

theorem ends_attempt : Ends (attempt y) s Q E ↔ Sat y (fun a => Q a s) fun e => E e s := by
  cases y <;> exact Iff.rfl

theorem ends_check {p : Prop} [Decidable p] {err : ε} {Q : Unit → σ → Prop} :
    Ends (check p err) s Q E ↔ (p → Q () s) ∧ (¬p → E err s) := by
  rw [check, require]
  by_cases hp : p
  · rw [if_pos hp]
    exact ⟨fun h => ⟨fun _ => h, fun hn => absurd hp hn⟩, fun h => h.1 hp⟩
  · rw [if_neg hp]
    exact ⟨fun h => ⟨fun hp' => absurd hp' hp, fun _ => h⟩, fun h => h.2 hp⟩

theorem ends_bind {Q : β → σ → Prop} : Ends (x >>= f) s Q E ↔ Ends x s (fun a s' => Ends (f a) s' Q E) E := by
  unfold Ends
  show (match EStateM.bind x f s with | .ok a s' => Q a s' | .error e s' => E e s') ↔ _
  unfold EStateM.bind
  cases x s <;> exact Iff.rfl

theorem ends_onRaise :
    Ends (onRaise x handler) s Q E ↔ Ends x s Q fun e s' => E e (handler s') := by
  unfold Ends onRaise
  cases x s <;> exact Iff.rfl

theorem Ends.intro (hQ : ∀ a s', x s = .ok a s' → Q a s') (hE : ∀ e s', x s = .error e s' → E e s') :
    Ends x s Q E := by
  unfold Ends
  cases hx : x s with
  | ok a s' => exact hQ a s' hx
  | error e s' => exact hE e s' hx

theorem Ends.of_ok (h : Ends x s Q E) (hx : x s = .ok a s') : Q a s' := by
  unfold Ends at h
  rw [hx] at h
  exact h

theorem Ends.of_error (h : Ends x s Q E) (hx : x s = .error e s') : E e s' := by
  unfold Ends at h
  rw [hx] at h
  exact h

theorem Ends.mono (h : Ends x s Q E) (hQ : ∀ a s', Q a s' → Q' a s')
    (hE : ∀ e s', E e s' → E' e s') : Ends x s Q' E' :=
  .intro (fun a s' hx => hQ a s' (h.of_ok hx)) fun e s' hx => hE e s' (h.of_error hx)

theorem Ends.of_forall (hQ : ∀ a s', Q a s') (hE : ∀ e s', E e s') : Ends x s Q E :=
  .intro (fun a s' _ => hQ a s') fun e s' _ => hE e s'

theorem Ends.and (h : Ends x s Q E) (h' : Ends x s Q' E') :
    Ends x s (fun a s' => Q a s' ∧ Q' a s') fun e s' => E e s' ∧ E' e s' :=
  .intro (fun _ _ hx => ⟨h.of_ok hx, h'.of_ok hx⟩) fun _ _ hx => ⟨h.of_error hx, h'.of_error hx⟩

theorem ends_of_ok (hx : x s = .ok a s') : Ends x s Q E ↔ Q a s' := by
  unfold Ends
  rw [hx]

/-- A computation that cannot raise returns. -/
theorem Ends.returns (h : Ends x s Q fun _ _ => False) : ∃ a s', x s = .ok a s' ∧ Q a s' := by
  cases hx : x s with
  | ok a s' => exact ⟨a, s', rfl, h.of_ok hx⟩
  | error e s' => exact (h.of_error hx).elim

/-- A computation that cannot raise and can return only one value in one state. -/
theorem Ends.eq_ok (h : Ends x s (fun b t => b = a ∧ t = s') fun _ _ => False) :
    x s = .ok a s' := by
  obtain ⟨b, t, hx, rfl, rfl⟩ := h.returns
  exact hx

theorem ends_transaction : Ends (transaction x) s Q E ↔ Ends x s Q fun e _ => E e s := ends_onRaise

theorem ends_reraise {g : ε → ε} : Ends (reraise g x) s Q E ↔ Ends x s Q fun e s' => E (g e) s' := by
  unfold Ends reraise
  cases x s <;> exact Iff.rfl

/-- A loop, with an invariant of what it has gone through. -/
theorem ends_forM {l : List α} {f : α → EStateM ε σ PUnit} {I : List α → σ → Prop} (hbeg : I [] s)
    (hstep : ∀ done a rest t, l = done ++ a :: rest → I done t → Ends (f a) t (fun _ => I (done ++ [a])) E) :
    Ends (l.forM f) s (fun _ => I l) E := by
  have hrest : ∀ rest done t, l = done ++ rest → I done t → Ends (rest.forM f) t (fun _ => I l) E := by
    intro rest
    induction rest with
    | nil =>
      intro done t hl ht
      rw [List.append_nil] at hl
      rw [hl]
      exact ht
    | cons a rest ih =>
      intro done t hl ht
      show Ends (f a >>= fun _ => rest.forM f) t _ E
      rw [ends_bind]
      exact (hstep done a rest t hl ht).mono (fun _ t' ht' => ih (done ++ [a]) t' (by simp [hl]) ht')
        fun _ _ he => he
  exact hrest l [] s rfl hbeg

end Ends

/-! ### What a computation keeps -/

/-- The state after a computation is related to the state before it, however it ends. -/
def Keeps (R : σ → σ → Prop) (x : EStateM ε σ α) (s : σ) : Prop :=
  Ends x s (fun _ t => R s t) fun _ t => R s t

section Keeps

variable {R : σ → σ → Prop} {x : EStateM ε σ α} {f : α → EStateM ε σ β} {s t : σ}

theorem keeps_get_bind {f : σ → EStateM ε σ α} (h : Keeps R (f s) s) : Keeps R (get >>= f) s := h

section

variable [IsTrans σ R]

/-- What a computation does after the state was changed. -/
theorem Keeps.after (h : Keeps R x t) (h₀ : R s t) : Ends x t (fun _ u => R s u) fun _ u => R s u :=
  h.mono (fun _ _ h => IsTrans.trans _ _ _ h₀ h) fun _ _ h => IsTrans.trans _ _ _ h₀ h

theorem Keeps.bind (h : Keeps R x s) (hf : ∀ a t, Keeps R (f a) t) : Keeps R (x >>= f) s := by
  unfold Keeps
  rw [ends_bind]
  exact h.mono (fun a t ha => (hf a t).after ha) fun _ _ he => he

end

variable [Std.Refl R]

theorem keeps_pure (a : α) : Keeps R (pure a : EStateM ε σ α) s := Std.Refl.refl s

theorem keeps_throw (e : ε) : Keeps R (throw e : EStateM ε σ α) s := Std.Refl.refl s

theorem keeps_attempt (y : Except ε α) : Keeps R (attempt y : EStateM ε σ α) s := by
  cases y <;> exact Std.Refl.refl s

theorem keeps_check (p : Prop) [Decidable p] (e : ε) : Keeps R (check p e : EStateM ε σ Unit) s :=
  keeps_attempt _

/-- A computation that only returns or raises leaves the state as it is. -/
theorem keeps_attempt_bind (h : ∀ a, Keeps R (f a) s) : Keeps R (attempt y >>= f) s := by
  cases y with
  | ok a => exact h a
  | error e => exact Std.Refl.refl s

theorem keeps_check_bind {p : Prop} [Decidable p] {f : Unit → EStateM ε σ β}
    (h : Keeps R (f ()) s) : Keeps R (check p e >>= f) s := keeps_attempt_bind fun _ => h

end Keeps

/-! ### Outcomes -/

/-- What is returned, with the state then. -/
def outcome (x : EStateM ε σ α) (s : σ) : Except ε (α × σ) :=
  match x s with
  | .ok a s' => .ok (a, s')
  | .error e _ => .error e

section Outcome

variable {x : EStateM ε σ α} {f : α → EStateM ε σ β} {s : σ}

theorem outcome_bind : outcome (x >>= f) s = outcome x s >>= fun r => outcome (f r.1) r.2 := by
  unfold outcome
  show (match EStateM.bind x f s with | .ok a s' => Except.ok (a, s') | .error e _ => .error e) = _
  unfold EStateM.bind
  cases x s <;> rfl

theorem outcome_attempt : outcome (attempt y) s = y.map fun a => (a, s) := by
  cases y <;> rfl

theorem outcome_onRaise : outcome (onRaise x handler) s = outcome x s := by
  unfold outcome onRaise
  cases x s <;> rfl

theorem outcome_eq_ok : outcome x s = .ok (a, s') ↔ x s = .ok a s' := by
  unfold outcome
  rcases x s with ⟨b, t⟩ | ⟨e, t⟩
  · simp
  · simp

/-- What is raised. -/
def raised (x : EStateM ε σ α) (s : σ) : Option ε :=
  match x s with
  | .ok _ _ => none
  | .error e _ => some e

theorem raised_eq_some : raised x s = some e ↔ ∃ s', x s = .error e s' := by
  unfold raised
  rcases x s with ⟨b, t⟩ | ⟨e', t⟩
  · simp
  · simp

theorem raised_eq_none : raised x s = none ↔ ∃ a s', x s = .ok a s' := by
  unfold raised
  rcases x s with ⟨b, t⟩ | ⟨e', t⟩
  · simp
  · simp

end Outcome

/-! ### Pairs of computations -/

/-- Both return, with related values and states, or both raise. -/
def Pairs {ε' τ : Type} (x : EStateM ε σ α) (s : σ) (y : EStateM ε' τ β) (t : τ)
    (P : α → σ → β → τ → Prop) : Prop :=
  Agree (outcome x s) (outcome y t) fun r r' => P r.1 r.2 r'.1 r'.2

section Pairs

variable {ε' τ α' β' : Type} {x : EStateM ε σ α} {s : σ} {y : EStateM ε' τ β} {t : τ}
  {P P' : α → σ → β → τ → Prop}

theorem pairs_pure {b : β} (h : P a s b t) :
    Pairs (pure a : EStateM ε σ α) s (pure b : EStateM ε' τ β) t P := h

theorem pairs_get_left {f : σ → EStateM ε σ α} (h : Pairs (f s) s y t P) : Pairs (get >>= f) s y t P := h

theorem pairs_get_right {g : τ → EStateM ε' τ β} (h : Pairs x s (g t) t P) : Pairs x s (get >>= g) t P := h

theorem pairs_ok_left {a : α'} {f : α' → EStateM ε σ α} (h : Pairs (f a) s y t P) :
    Pairs (attempt (.ok a) >>= f) s y t P := h

theorem pairs_ok_right {b : β'} {g : β' → EStateM ε' τ β} (h : Pairs x s (g b) t P) :
    Pairs x s (attempt (.ok b) >>= g) t P := h

theorem Pairs.mono (h : Pairs x s y t P) (hP : ∀ a s' b t', P a s' b t' → P' a s' b t') : Pairs x s y t P' :=
  Agree.mono h fun r r' hr => hP r.1 r.2 r'.1 r'.2 hr

theorem Pairs.bind {f : α → EStateM ε σ α'} {g : β → EStateM ε' τ β'} {Q : α' → σ → β' → τ → Prop}
    (h : Pairs x s y t P) (hfg : ∀ a s' b t', P a s' b t' → Pairs (f a) s' (g b) t' Q) :
    Pairs (x >>= f) s (y >>= g) t Q := by
  rw [Pairs, outcome_bind, outcome_bind]
  exact Agree.bind h fun r r' _ _ hr => hfg r.1 r.2 r'.1 r'.2 hr

theorem pairs_attempt {u : Except ε α} {v : Except ε' β} (h : Agree u v fun a b => P a s b t) :
    Pairs (attempt u) s (attempt v) t P := by
  cases u <;> cases v
  · exact trivial
  · exact h
  · exact h
  · exact h

/-- The same test on both sides. -/
theorem pairs_check {p : Prop} [Decidable p] {e' : ε'} {P : Unit → σ → Unit → τ → Prop}
    (h : p → P () s () t) : Pairs (check p e) s (check p e') t P := by
  refine pairs_attempt ?_
  rw [require, require]
  by_cases hp : p
  · rw [if_pos hp, if_pos hp]
    exact h hp
  · rw [if_neg hp, if_neg hp]
    exact trivial

theorem Pairs.onRaise_left (h : Pairs x s y t P) : Pairs (onRaise x handler) s y t P := by
  rw [Pairs, outcome_onRaise]
  exact h

theorem Pairs.onRaise {handler' : τ → τ} (h : Pairs x s y t P) :
    Pairs (onRaise x handler) s (onRaise y handler') t P := by
  rw [Pairs, outcome_onRaise, outcome_onRaise]
  exact h

/-- Both raise. -/
theorem pairs_of_raises (hx : Ends x s (fun _ _ => False) fun _ _ => True)
    (hy : Ends y t (fun _ _ => False) fun _ _ => True) : Pairs x s y t P := by
  unfold Pairs outcome
  cases hxs : x s with
  | ok a s' => exact (hx.of_ok hxs).elim
  | error e s' =>
    cases hyt : y t with
    | ok b t' => exact (hy.of_ok hyt).elim
    | error e' t' => exact trivial

section

variable (h : Pairs x s y t P)
include h

/-- With what is known of one side. -/
theorem Pairs.and_ends {Q : α → σ → Prop} {E : ε → σ → Prop}
    (hx : Ends x s Q E) : Pairs x s y t fun a s' b t' => P a s' b t' ∧ Q a s' :=
  Agree.and_left h fun _ hr => hx.of_ok (outcome_eq_ok.mp hr)

theorem Pairs.symm : Pairs y t x s fun b t' a s' => P a s' b t' := by
  unfold Pairs at h ⊢
  cases hx : outcome x s <;> cases hy : outcome y t <;> rw [hx, hy] at h
  · exact trivial
  · exact h
  · exact h
  · exact h

theorem Pairs.and_both {Q : α → σ → Prop} {E : ε → σ → Prop} {Q' : β → τ → Prop}
    {E' : ε' → τ → Prop} (hx : Ends x s Q E) (hy : Ends y t Q' E') :
    Pairs x s y t fun a s' b t' => P a s' b t' ∧ Q a s' ∧ Q' b t' :=
  ((h.and_ends hx).symm.and_ends hy).symm.mono fun _ _ _ _ h => ⟨h.1.1, h.1.2, h.2⟩

/-- If one side returns, so does the other. -/
theorem Pairs.of_ok_right {b : β} {t' : τ} (hy : y t = .ok b t') : ∃ a s', x s = .ok a s' ∧ P a s' b t' := by
  obtain ⟨⟨a, s'⟩, hx, hP⟩ := Agree.of_ok_right h (outcome_eq_ok.mpr hy)
  exact ⟨a, s', outcome_eq_ok.mp hx, hP⟩

theorem Pairs.of_ok_left (hx : x s = .ok a s') :
    ∃ b t', y t = .ok b t' ∧ P a s' b t' := h.symm.of_ok_right hx

end

end Pairs

end Py
