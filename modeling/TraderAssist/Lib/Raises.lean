/-
TraderAssist/Lib/Raises.lean

Rules for computations that return or raise, and for the loop shape

    for item in tuple(items):
        ...
        items = replace(items, item, updated)

`Sat x Q E` is the triple of such a computation: `Q` of what it returns, `E` of
what it raises.  `Agree x y R` compares two of them: both return, related by
`R`, or both raise.  `eachReplace` is the loop as written, over the positions
of the list at its start; `each` is its structural form, and
`eachReplace_eq_each` says they coincide as soon as no update is the identity.
-/
import Mathlib.Data.List.Forall2

namespace Py

variable {ε ε' α β σ τ : Type} {l : List α} {a : α} {R : α → β → Prop} {m : List β} {x : Except ε α} {e : ε}

/-! ### One computation -/

/-- `Q` of a returned value and `E` of a raised error. -/
def Sat (x : Except ε α) (Q : α → Prop) (E : ε → Prop) : Prop :=
  match x with
  | .ok a => Q a
  | .error e => E e

namespace Sat

variable {x : Except ε α} {Q Q' : α → Prop} {E E' : ε → Prop}

@[simp] theorem ok : Sat (.ok a : Except ε α) Q E ↔ Q a := Iff.rfl

@[simp] theorem pure : Sat (Pure.pure a : Except ε α) Q E ↔ Q a := Iff.rfl

@[simp] theorem error : Sat (.error e : Except ε α) Q E ↔ E e := Iff.rfl

@[simp] theorem throw : Sat (MonadExcept.throw e : Except ε α) Q E ↔ E e := Iff.rfl

theorem mono (h : Sat x Q E) (hQ : ∀ a, Q a → Q' a) (hE : ∀ e, E e → E' e) : Sat x Q' E' := by
  cases x with
  | ok a => exact hQ a h
  | error e => exact hE e h

theorem weaken (h : Sat x Q E) (hQ : ∀ a, Q a → Q' a) : Sat x Q' E :=
  h.mono hQ fun _ he => he

/-- A returned value meets the postcondition. -/
theorem of_ok (h : Sat x Q E) (hx : x = .ok a) : Q a := by
  subst hx
  exact h

theorem of_error (h : Sat x Q E) (hx : x = .error e) : E e := by
  subst hx
  exact h

/-- Where nothing can be raised there is a value. -/
theorem returns (h : Sat x Q fun _ => False) : ∃ a, x = .ok a ∧ Q a := by
  cases x with
  | ok a => exact ⟨a, rfl, h⟩
  | error e => exact h.elim

variable {R : β → Prop}

theorem bind {f : α → Except ε β} (h : Sat x Q E)
    (hf : ∀ a, Q a → Sat (f a) R E) : Sat (x >>= f) R E := by
  cases x with
  | ok a => exact hf a h
  | error e => exact h

theorem map {f : α → β} (h : Sat x Q E) (hf : ∀ a, Q a → R (f a)) : Sat (f <$> x) R E := by
  cases x with
  | ok a => exact hf a h
  | error e => exact h

theorem self (hx : ∀ e, x = .error e → E e) : Sat x (fun a => x = .ok a) E := by
  cases x with
  | ok a => rfl
  | error e => exact hx e rfl

/-- After a step that may raise anything. -/
theorem after {f : α → Except ε β} (hf : ∀ a, x = .ok a → Sat (f a) R fun _ => True) :
    Sat (x >>= f) R fun _ => True :=
  (self fun _ _ => trivial).bind hf

theorem and {Q₂ : α → Prop} (h : Sat x Q E) (h₂ : Sat x Q₂ E') : Sat x (fun a => Q a ∧ Q₂ a) E := by
  cases x with
  | ok a => exact ⟨h, h₂⟩
  | error e => exact h

/-- The loop rule: an invariant kept by every step. -/
theorem foldlM {f : σ → α → Except ε σ} {I : σ → Prop}
    (hf : ∀ s, I s → ∀ a ∈ l, Sat (f s a) I E) : ∀ s, I s → Sat (l.foldlM f s) I E := by
  induction l with
  | nil => exact fun s hs => hs
  | cons a l ih =>
    intro s hs
    refine (hf s hs a (.head _)).bind fun s' hs' => ?_
    exact ih (fun s hs b hb => hf s hs b (.tail _ hb)) s' hs'

theorem mapM {f : α → Except ε β} {P : α → β → Prop}
    (hf : ∀ a ∈ l, Sat (f a) (P a) E) : Sat (l.mapM f) (List.Forall₂ P l) E := by
  induction l with
  | nil => exact List.Forall₂.nil
  | cons a l ih =>
    rw [List.mapM_cons]
    refine (hf a (.head _)).bind fun b hb => ?_
    exact (ih fun a' ha' => hf a' (.tail _ ha')).bind fun bs hbs =>
      List.Forall₂.cons hb hbs

end Sat

theorem bind_eq_ok {f : α → Except ε β} {b : β} :
    x >>= f = .ok b ↔ ∃ a, x = .ok a ∧ f a = .ok b := by
  cases x with
  | ok a => exact ⟨fun h => ⟨a, rfl, h⟩, fun ⟨_, rfl, h⟩ => h⟩
  | error e => exact ⟨nofun, fun ⟨_, h, _⟩ => (by cases h)⟩

/-- A computation that returned: its first part did, and then the rest. -/
theorem of_bind {f : α → Except ε β} {b : β} (h : x >>= f = .ok b) : ∃ a, x = .ok a ∧ f a = .ok b :=
  bind_eq_ok.mp h

theorem toOption_eq_some : x.toOption = some a ↔ x = .ok a := by
  cases x <;> simp [Except.toOption]

/-- What every element returns, it returns under another function that returns it too. -/
theorem mapM_ok_mono {f g : α → Except ε β} : ∀ {l : List α} {bs : List β},
    (∀ a ∈ l, ∀ b, f a = .ok b → g a = .ok b) → l.mapM f = .ok bs → l.mapM g = .ok bs
  | [], _, _, h => h
  | a :: l, bs, hfg, h => by
    rw [List.mapM_cons] at h ⊢
    obtain ⟨b, hb, h⟩ := of_bind h
    obtain ⟨rest, hrest, h⟩ := of_bind h
    refine bind_eq_ok.mpr ⟨b, hfg a (.head _) b hb, bind_eq_ok.mpr ⟨rest, ?_, h⟩⟩
    exact mapM_ok_mono (fun a' ha' => hfg a' (.tail _ ha')) hrest

/-! ### Two computations -/

/-- Both return, with related values, or both raise. -/
def Agree (x : Except ε α) (y : Except ε' β) (R : α → β → Prop) : Prop :=
  match x, y with
  | .ok a, .ok b => R a b
  | .error _, .error _ => True
  | _, _ => False

namespace Agree

variable {x : Except ε α} {y : Except ε' β} {R R' : α → β → Prop}

theorem ok {b : β} (h : R a b) :
    Agree (.ok a : Except ε α) (.ok b : Except ε' β) R := h

theorem error {e' : ε'} :
    Agree (.error e : Except ε α) (.error e' : Except ε' β) R := trivial

theorem refl (x : Except ε α) : Agree x x Eq := by
  cases x with
  | ok a => exact Eq.refl a
  | error e => exact trivial

theorem mono (h : Agree x y R) (hR : ∀ a b, R a b → R' a b) : Agree x y R' := by
  cases x <;> cases y
  · exact trivial
  · exact h
  · exact h
  · exact hR _ _ h

theorem bind {f : α → Except ε σ} {g : β → Except ε' τ} {S : σ → τ → Prop}
    (h : Agree x y R) (hfg : ∀ a b, x = .ok a → y = .ok b → R a b → Agree (f a) (g b) S) :
    Agree (x >>= f) (y >>= g) S := by
  cases x with
  | ok a =>
    cases y with
    | ok b => exact hfg a b rfl rfl h
    | error e => exact h.elim
  | error e =>
    cases y with
    | ok b => exact h.elim
    | error e' => exact trivial

theorem and_left {Q : α → Prop} (h : Agree x y R) (hx : ∀ a, x = .ok a → Q a) :
    Agree x y fun a b => R a b ∧ Q a := by
  cases x <;> cases y
  · exact trivial
  · exact h
  · exact h
  · exact ⟨h, hx _ rfl⟩

theorem of_ok_right {b : β} (h : Agree x y R) (hy : y = .ok b) : ∃ a, x = .ok a ∧ R a b := by
  subst hy
  cases x with
  | ok a => exact ⟨a, rfl, h⟩
  | error e => exact h.elim

theorem bind_pure_left {f : α → σ} {S : σ → β → Prop} (h : Agree x y R)
    (hS : ∀ a b, R a b → S (f a) b) : Agree (x >>= fun a => pure (f a)) y S := by
  cases x <;> cases y
  · exact trivial
  · exact h
  · exact h
  · exact hS _ _ h

/-- Two computations that agree with a third. -/
theorem join {ε'' γ : Type} {z : Except ε'' γ} {S : σ → γ → Prop} {w : Except ε' σ}
    {T : α → γ → Prop} (h : Agree x z T) (h' : Agree w z S) : Agree x w fun a b => ∃ c, T a c ∧ S b c := by
  cases x <;> cases w <;> cases z
  · exact trivial
  · exact h.elim
  · exact h'.elim
  · exact h.elim
  · exact h.elim
  · exact h'.elim
  · exact h.elim
  · exact ⟨_, h, h'⟩

theorem trans {z w : Except ε α} (h : Agree x z Eq) (h' : Agree z w Eq) : Agree x w Eq := by
  cases x <;> cases z
  · cases w
    · exact trivial
    · exact h'.elim
  · exact h.elim
  · exact h.elim
  · obtain rfl : _ = _ := h
    exact h'

theorem foldlM {f : σ → α → Except ε σ} {g : τ → β → Except ε' τ} {I : σ → τ → Prop}
    {P : α → β → Prop} (hlm : List.Forall₂ P l m)
    (hfg : ∀ s t a b, P a b → I s t → Agree (f s a) (g t b) I) :
    ∀ s t, I s t → Agree (l.foldlM f s) (m.foldlM g t) I := by
  induction hlm with
  | nil => exact fun s t h => h
  | cons hab _ ih =>
    intro s t hst
    exact (hfg s t _ _ hab hst).bind fun s' t' _ _ h => ih s' t' h

end Agree

/-! ### Replacing items while iterating -/

theorem forall₂_mem_right (h : List.Forall₂ R l m)
    {b : β} (hb : b ∈ m) : ∃ a ∈ l, R a b := by
  obtain ⟨i, hi, rfl⟩ := List.getElem_of_mem hb
  have hlt : i < l.length := by rw [h.length_eq]; exact hi
  exact ⟨l[i], List.getElem_mem hlt, h.get hlt hi⟩

theorem forall₂_trans {γ : Type} {S : β → γ → Prop} {T : α → γ → Prop}
    (hRS : ∀ a b c, R a b → S b c → T a c) {n : List γ}
    (h : List.Forall₂ R l m) (h' : List.Forall₂ S m n) : List.Forall₂ T l n := by
  induction h generalizing n with
  | nil =>
    cases h'
    exact .nil
  | cons hab _ ih =>
    cases h' with
    | cons hbc hrest => exact .cons (hRS _ _ _ hab hbc) (ih hrest)

/-- Replacing one item of a list that is related to itself. -/
theorem forall₂_set {R : α → α → Prop} (hrefl : ∀ x ∈ l, R x x) {i : ℕ} {b : α} (hi : l[i]? = some a)
    (h : R a b) : List.Forall₂ R l (l.set i b) := by
  refine List.forall₂_iff_get.mpr ⟨by simp, fun j hj hj' => ?_⟩
  simp only [List.get_eq_getElem, List.getElem_set]
  split_ifs with hij
  · subst hij
    have heq : l[i] = a := by simpa [List.getElem?_eq_getElem hj] using hi
    exact heq ▸ h
  · exact hrefl _ (List.getElem_mem _)

theorem forall₂_mem_left (h : List.Forall₂ R l m) (ha : a ∈ l) : ∃ b ∈ m, R a b :=
  forall₂_mem_right h.flip ha

/-! ### Loops that returned -/

theorem forall₂_of_mapM {f : α → Except ε β} (h : l.mapM f = .ok m) :
    List.Forall₂ (fun a b => f a = .ok b) l m :=
  (Sat.mapM (E := fun _ => True) fun _ _ => Sat.self fun _ _ => trivial).of_ok h

theorem exists_ok_of_mapM {f : α → Except ε β} (h : l.mapM f = .ok m) (ha : a ∈ l) :
    ∃ b, f a = .ok b := by
  obtain ⟨b, -, hb⟩ := forall₂_mem_left (forall₂_of_mapM h) ha
  exact ⟨b, hb⟩

theorem mem_of_mapM {f : α → Except ε β} (h : l.mapM f = .ok m) : ∀ b ∈ m, ∃ a ∈ l, f a = .ok b :=
  fun _ hb => forall₂_mem_right (forall₂_of_mapM h) hb

/-- The loop over a snapshot of `items`.  The body `f` leaves an item alone or
returns its update with a log entry for `absorb`.  A write that changes nothing
raises `stuck`. -/
def eachReplace [DecidableEq α] (stuck : ε) (f : α → Except ε (Option (α × β))) (absorb : σ → β → σ)
    (items : List α) (s : σ) : Except ε (List α × σ) :=
  items.zipIdx.foldlM (fun acc p => do
    match ← f p.1 with
    | none => pure acc
    | some (updated, log) =>
      let replaced := acc.1.set p.2 updated
      if replaced = acc.1 then throw stuck
      else pure (replaced, absorb acc.2 log)) (items, s)

/-- The same loop by recursion on the items. -/
def each (f : α → Except ε (Option (α × β))) (absorb : σ → β → σ) :
    List α → σ → Except ε (List α × σ)
  | [], s => pure ([], s)
  | a :: as, s => do
    match ← f a with
    | none => do
      let r ← each f absorb as s
      pure (a :: r.1, r.2)
    | some (updated, log) => do
      let r ← each f absorb as (absorb s log)
      pure (updated :: r.1, r.2)

variable {f : α → Except ε (Option (α × β))} {absorb : σ → β → σ}

theorem foldlM_replace_eq [DecidableEq α] {stuck : ε}
    (hne : ∀ a a' b, f a = .ok (some (a', b)) → a' ≠ a) (todo : List α) :
    ∀ (done : List α) (s : σ),
      (todo.zipIdx done.length).foldlM (fun (acc : List α × σ) p => do
          match ← f p.1 with
          | none => pure acc
          | some (updated, log) =>
            let replaced := acc.1.set p.2 updated
            if replaced = acc.1 then throw stuck
            else pure (replaced, absorb acc.2 log)) (done ++ todo, s)
        = (fun r => (done ++ r.1, r.2)) <$> each f absorb todo s := by
  induction todo with
  | nil => intro done s; rfl
  | cons a todo ih =>
    intro done s
    rw [List.zipIdx_cons, List.foldlM_cons]
    rcases e : f a with err | - | ⟨a', b⟩
    · simp [each, e, bind, Except.bind, Functor.map, Except.map]
    · -- the item is kept: move it to the finished part
      have h := ih (done ++ [a]) s
      simp only [List.length_append, List.length_singleton, List.append_assoc,
        List.singleton_append] at h
      simp only [e, each, bind, Except.bind, pure, Except.pure] at h ⊢
      rw [h]
      cases each f absorb todo s <;> simp [Functor.map, Except.map]
    · have hset : (done ++ a :: todo).set done.length a' = done ++ a' :: todo := by simp
      have hchg : done ++ a' :: todo ≠ done ++ a :: todo := by
        simpa using hne a a' b e
      have h := ih (done ++ [a']) (absorb s b)
      simp only [List.length_append, List.length_singleton, List.append_assoc,
        List.singleton_append] at h
      simp only [e, each, bind, Except.bind, pure, Except.pure, hset, if_neg hchg] at h ⊢
      rw [h]
      cases each f absorb todo (absorb s b) <;> simp [Functor.map, Except.map]

/-- **The positional loop is the structural one** when every update changes its
item: in particular `stuck` is never raised. -/
theorem eachReplace_eq_each [DecidableEq α] {stuck : ε}
    (hne : ∀ a a' b, f a = .ok (some (a', b)) → a' ≠ a) (items : List α) (s : σ) :
    eachReplace stuck f absorb items s = each f absorb items s := by
  have h := @foldlM_replace_eq _ _ _ _ f absorb _ stuck hne items [] s
  simp only [List.length_nil, List.nil_append] at h
  rw [eachReplace, h]
  cases each f absorb items s <;> rfl

variable {items : List α} {E : ε → Prop}

/-- The rule for `each`: a relation between every item and its successor, and an
invariant of the accumulator. -/
theorem Sat.each {P : α → α → Prop} {I : σ → Prop}
    (hkeep : ∀ a ∈ items, f a = .ok none → P a a)
    (hstep : ∀ a ∈ items, ∀ a' b, f a = .ok (some (a', b)) → P a a' ∧ ∀ s, I s → I (absorb s b))
    (herr : ∀ a ∈ items, ∀ e, f a = .error e → E e) :
    ∀ s, I s → Sat (each f absorb items s) (fun r => List.Forall₂ P items r.1 ∧ I r.2) E := by
  induction items with
  | nil => exact fun s hs => ⟨.nil, hs⟩
  | cons a items ih =>
    intro s hs
    have ih := ih (fun a ha => hkeep a (List.mem_cons_of_mem _ ha))
      (fun a ha => hstep a (List.mem_cons_of_mem _ ha))
      (fun a ha => herr a (List.mem_cons_of_mem _ ha))
    have hmem : a ∈ a :: items := List.mem_cons_self
    unfold Py.each
    rcases e : f a with err | - | ⟨a', b⟩
    · exact herr a hmem err e
    · exact (ih s hs).map fun r hr => ⟨.cons (hkeep a hmem e) hr.1, hr.2⟩
    · obtain ⟨hP, hI⟩ := hstep a hmem a' b e
      exact (ih _ (hI s hs)).map fun r hr => ⟨.cons hP hr.1, hr.2⟩

/-- The log entry an item leaves, if it is updated. -/
def logOf (f : α → Except ε (Option (α × β))) (a : α) : Option β :=
  match f a with
  | .ok (some (_, b)) => some b
  | _ => none

variable {r : List α × σ}

theorem each_cons_ok {s : σ} (h : each f absorb (a :: items) s = .ok r) :
    (f a = .ok none ∧ ∃ r', each f absorb items s = .ok r' ∧ r = (a :: r'.1, r'.2))
      ∨ ∃ a' b, f a = .ok (some (a', b)) ∧ ∃ r', each f absorb items (absorb s b) = .ok r'
        ∧ r = (a' :: r'.1, r'.2) := by
  obtain ⟨- | ⟨a', b⟩, e, h⟩ := of_bind h
  · obtain ⟨r', hr', h⟩ := of_bind h
    exact .inl ⟨e, r', hr', (Except.ok.inj h).symm⟩
  · obtain ⟨r', hr', h⟩ := of_bind h
    exact .inr ⟨a', b, e, r', hr', (Except.ok.inj h).symm⟩

/-- A finished loop, item by item: the accumulator has absorbed the logs in
order. -/
theorem each_ok : ∀ {s : σ}, each f absorb items s = .ok r →
      List.Forall₂ (fun a a' => (f a = .ok none ∧ a' = a) ∨ ∃ b, f a = .ok (some (a', b)))
        items r.1 ∧ r.2 = (items.filterMap (logOf f)).foldl absorb s := by
  induction items generalizing r with
  | nil =>
    intro s h
    cases h
    exact ⟨.nil, rfl⟩
  | cons a items ih =>
    intro s h
    rcases each_cons_ok h with ⟨e, r', hr', rfl⟩ | ⟨a', b, e, r', hr', rfl⟩
    · obtain ⟨hits, hlog⟩ := ih hr'
      exact ⟨.cons (.inl ⟨e, rfl⟩) hits, by simpa [logOf, e] using hlog⟩
    · obtain ⟨hits, hlog⟩ := ih hr'
      exact ⟨.cons (.inr ⟨b, e⟩) hits, by simpa [logOf, e] using hlog⟩

/-- The rule for `each` with an invariant of the whole list: the items before the
current one are done, the others still to do. -/
theorem each_rule {I : List α × σ → Prop}
    (hstep : ∀ done a todo s a' b, I (done ++ a :: todo, s) → f a = .ok (some (a', b)) →
      I (done ++ a' :: todo, absorb s b)) :
    ∀ {s : σ} (done : List α), each f absorb items s = .ok r → I (done ++ items, s) →
      I (done ++ r.1, r.2) := by
  induction items generalizing r with
  | nil =>
    intro s done h hI
    cases h
    exact hI
  | cons a items ih =>
    intro s done h hI
    rcases each_cons_ok h with ⟨-, r', hr', rfl⟩ | ⟨a', b, e, r', hr', rfl⟩
    · have := ih (done ++ [a]) hr' (by simpa using hI)
      simpa using this
    · have := ih (done ++ [a']) hr' (by simpa using hstep _ _ _ _ _ _ hI e)
      simpa using this

/-- A loop with nothing to do. -/
theorem each_none (h : ∀ a ∈ items, f a = .ok none) (s : σ) : each f absorb items s = .ok (items, s) := by
  induction items with
  | nil => rfl
  | cons a items ih =>
    unfold each
    rw [h a (.head _)]
    simp [bind, Except.bind, ih fun b hb => h b (.tail _ hb), pure, Except.pure]

/-- A loop that leaves the items outside `P` alone sees only those in `P`. -/
theorem each_filter {P : α → Bool} (hskip : ∀ a, P a = false → f a = .ok none) : ∀ (items : List α) (s : σ),
      Agree (each f absorb items s) (each f absorb (items.filter P) s)
        fun r r' => r.1.filter P = r'.1.filter P ∧ r.2 = r'.2 := by
  intro items
  induction items with
  | nil => exact fun s => ⟨rfl, rfl⟩
  | cons a items ih =>
    intro s
    cases hP : P a with
    | false =>
      rw [List.filter_cons_of_neg (by simp [hP])]
      have e : each f absorb (a :: items) s =
          each f absorb items s >>= fun r => pure (a :: r.1, r.2) := by
        rw [each, hskip a hP]
        rfl
      rw [e]
      exact (ih s).bind_pure_left fun r r' h => ⟨by simp [hP, h.1], h.2⟩
    | true =>
      rw [List.filter_cons_of_pos hP]
      unfold each
      rcases f a with err | - | ⟨a', b⟩
      · exact trivial
      · exact (ih s).bind fun r r' _ _ h => ⟨by simp [hP, h.1], h.2⟩
      · refine (ih (absorb s b)).bind fun r r' _ _ h => ⟨?_, h.2⟩
        rw [List.filter_cons, List.filter_cons, h.1]

/-- **Two item lists with the same items in `P`.** -/
theorem each_agree {P : α → Bool} (hskip : ∀ a, P a = false → f a = .ok none)
    {items items' : List α} (h : items.filter P = items'.filter P) (s : σ) :
    Agree (each f absorb items s) (each f absorb items' s)
      fun r r' => r.1.filter P = r'.1.filter P ∧ r.2 = r'.2 := by
  have h1 := @each_filter _ _ _ _ f absorb P hskip items s
  have h2 := @each_filter _ _ _ _ f absorb P hskip items' s
  rw [h] at h1
  exact (h1.join h2).mono fun r r' ⟨c, hc, hc'⟩ => ⟨hc.1.trans hc'.1.symm, hc.2.trans hc'.2.symm⟩

/-- `if not p: raise err`. -/
def require (p : Prop) [Decidable p] (err : ε) : Except ε Unit := if p then .ok () else .error err

variable {p : Prop} {err : ε}

theorem require_eq_ok [Decidable p] {u : Unit} : require p err = .ok u ↔ p := by
  unfold require
  split_ifs with hp
  · exact ⟨fun _ => hp, fun _ => rfl⟩
  · exact ⟨nofun, fun h => absurd h hp⟩

theorem require_bind_ok [Decidable p] {f : Unit → Except ε α} :
    require p err >>= f = .ok a ↔ p ∧ f () = .ok a := by
  rw [bind_eq_ok]
  constructor
  · rintro ⟨_, hp, hf⟩
    exact ⟨require_eq_ok.mp hp, hf⟩
  · rintro ⟨hp, hf⟩
    exact ⟨(), require_eq_ok.mpr hp, hf⟩

theorem Sat.require [Decidable p] (herr : E err) : Sat (require p err) (fun _ => p) E := by
  rw [Py.require]
  split_ifs with hp
  · exact hp
  · exact herr

theorem Sat.mapError {g : ε → ε'} {Q : α → Prop} {E' : ε' → Prop} (h : Sat x Q E)
    (hg : ∀ e, E' (g e)) : Sat (x.mapError g) Q E' := by
  cases x with
  | ok a => exact h
  | error e => exact hg e

/-- Tests that are met together. -/
theorem Agree.require {p p' : Prop} [Decidable p] [Decidable p'] (h : p ↔ p') {err' : ε'} :
    Agree (require p err) (require p' err') fun _ _ => True := by
  rw [Py.require, Py.require]
  by_cases hp : p
  · rw [if_pos hp, if_pos (h.mp hp)]
    exact trivial
  · rw [if_neg hp, if_neg fun hp' => hp (h.mpr hp')]
    exact trivial

/-- A loop in which no item raises. -/
theorem mapM_eq_ok_map {f : α → Except ε β} {g : α → β} (h : ∀ a ∈ items, f a = .ok (g a)) :
    items.mapM f = .ok (items.map g) := by
  induction items with
  | nil => rfl
  | cons a items ih =>
    rw [List.mapM_cons, h a (.head _), ih fun b hb => h b (.tail _ hb)]
    rfl

end Py
