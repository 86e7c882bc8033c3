/-
TraderAssist/Lib/Codec.lean

Writers and readers of records, composed field by field.

Both directions may raise, and reading back need not return the value that was
written: `Restores c a b` says that what `c` writes for `a`, if it writes
anything, is read back as `b`.  Products, options and lists of codecs restore
componentwise, and a record goes through the tuple of its fields
(`Codec.record`).
-/
import TraderAssist.Lib.Raises

namespace Py

variable {ε α β γ π ρ : Type}

structure Codec (ε α π : Type) where
  encode : α → Except ε π
  decode : π → Except ε α

namespace Codec

/-- A field the wire keeps as it is. -/
def keep : Codec ε α α := ⟨.ok, .ok⟩

/-- Two fields, one after the other. -/
def prod (c : Codec ε α π) (d : Codec ε β ρ) : Codec ε (α × β) (π × ρ) where
  encode x := do
    let p ← c.encode x.1
    let r ← d.encode x.2
    pure (p, r)
  decode w := do
    let a ← c.decode w.1
    let b ← d.decode w.2
    pure (a, b)

/-- A field that may be absent. -/
def option (c : Codec ε α π) : Codec ε (Option α) (Option π) where
  encode
    | none => .ok none
    | some a => some <$> c.encode a
  decode
    | none => .ok none
    | some p => some <$> c.decode p

def list (c : Codec ε α π) : Codec ε (List α) (List π) where
  encode l := l.mapM c.encode
  decode l := l.mapM c.decode

/-- A record written as the tuple of its fields and rebuilt by a constructor that
may reject them. -/
def record (c : Codec ε β π) (fields : α → β) (build : β → Except ε α) : Codec ε α π where
  encode a := c.encode (fields a)
  decode p := c.decode p >>= build

/-- Writing, then reading. -/
def roundTrip (c : Codec ε α π) (a : α) : Except ε α := c.encode a >>= c.decode

/-- What `c` writes for `a` is read back as `b`. -/
def Restores (c : Codec ε α π) (a b : α) : Prop :=
  ∀ p, c.encode a = .ok p → c.decode p = .ok b

namespace Restores

theorem keep (a : α) : (keep : Codec ε α α).Restores a a := by
  intro p h
  cases h
  rfl

variable {c : Codec ε α π}

theorem prod {d : Codec ε β ρ} {a a' : α} {b b' : β} (hc : c.Restores a a') (hd : d.Restores b b') :
    (c.prod d).Restores (a, b) (a', b') := by
  intro w h
  obtain ⟨p, hp, h⟩ := of_bind h
  obtain ⟨r, hr, h⟩ := of_bind h
  cases h
  simp only [Codec.prod, hc p hp, hd r hr]
  rfl

theorem option {f : α → α} {o : Option α} (hc : ∀ a ∈ o, c.Restores a (f a)) :
    c.option.Restores o (o.map f) := by
  intro w h
  rcases o with - | a
  · cases h
    rfl
  · simp only [Codec.option] at h
    rcases e : c.encode a with err | p
    · rw [e] at h
      cases h
    · rw [e] at h
      cases h
      simp only [Codec.option, hc a rfl p e]
      rfl

theorem list {f : α → α} {l : List α} (hc : ∀ a ∈ l, c.Restores a (f a)) : c.list.Restores l (l.map f) := by
  induction l with
  | nil =>
    intro w h
    cases h
    rfl
  | cons a l ih =>
    intro w h
    simp only [Codec.list, List.mapM_cons] at h
    obtain ⟨p, hp, h⟩ := of_bind h
    obtain ⟨ps, hps, h⟩ := of_bind h
    cases h
    have hrest : ps.mapM c.decode = .ok (l.map f) :=
      ih (fun b hb => hc b (.tail _ hb)) ps hps
    simp only [Codec.list, List.mapM_cons, hc a (.head _) p hp, hrest]
    rfl

theorem option_self (hc : ∀ a, c.Restores a a) (o : Option α) : c.option.Restores o o := by
  simpa using @option _ _ _ c id o fun a _ => hc a

theorem list_self {l : List α} (hc : ∀ a ∈ l, c.Restores a a) : c.list.Restores l l := by
  simpa using @list _ _ _ c id l hc

theorem record {c : Codec ε β π} {fields : α → β} {build : β → Except ε α} {a b : α} {y : β}
    (hc : c.Restores (fields a) y) (hbuild : build y = .ok b) : (c.record fields build).Restores a b := by
  intro p h
  simp only [Codec.record, hc p h]
  exact hbuild

theorem roundTrip {a b b' : α} (hc : c.Restores a b) (h : c.roundTrip a = .ok b') : b' = b := by
  obtain ⟨p, hp, h⟩ := of_bind h
  rw [hc p hp] at h
  exact (Except.ok.inj h).symm

end Restores

end Codec

end Py
