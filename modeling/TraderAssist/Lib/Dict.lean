/-
TraderAssist/Lib/Dict.lean

Dictionaries with insertion order.

The entries are a list without repeated keys, in the order a `dict` iterates
over them.  What an operation does is said by `get?`; two dictionaries with the
same `get?` have the same entries up to order (`perm_of_get?`), so whatever
sorts or takes a maximum does not see the order.
-/
import Mathlib.Data.List.Perm.Lattice

namespace Py

variable {κ α β : Type} [DecidableEq κ]

/-! ### Association lists -/

namespace Assoc

def lookup (k : κ) : List (κ × α) → Option α
  | [] => none
  | (key, value) :: rest => if key = k then some value else lookup k rest

/-- `d[k] = v`: in place, or at the end. -/
def assign (k : κ) (v : α) : List (κ × α) → List (κ × α)
  | [] => [(k, v)]
  | (key, value) :: rest =>
    if key = k then (key, v) :: rest else (key, value) :: assign k v rest

theorem lookup_assign (k k' : κ) (v : α) (l : List (κ × α)) :
    lookup k' (assign k v l) = if k = k' then some v else lookup k' l := by
  induction l with
  | nil => simp [lookup, assign]
  | cons e l ih =>
    obtain ⟨key, value⟩ := e
    unfold assign
    by_cases hkey : key = k
    · subst hkey
      by_cases hk : key = k' <;> simp [lookup, hk]
    · rw [if_neg hkey]
      by_cases hk : key = k'
      · subst hk
        simp [lookup, Ne.symm hkey]
      · simp [lookup, hk, ih]

theorem keys_assign (k : κ) (v : α) (l : List (κ × α)) : (assign k v l).map Prod.fst
      = if k ∈ l.map Prod.fst then l.map Prod.fst else l.map Prod.fst ++ [k] := by
  induction l with
  | nil => simp [assign]
  | cons e l ih =>
    obtain ⟨key, value⟩ := e
    unfold assign
    by_cases hkey : key = k
    · simp [hkey]
    · simp only [if_neg hkey, List.map_cons, ih, List.mem_cons, Ne.symm hkey, false_or]
      split_ifs <;> rfl

/-- Assignments to two keys that are there commute. -/
theorem assign_comm {k k' : κ} {v v' : α} {l : List (κ × α)} (hne : k ≠ k')
    (hk : k ∈ l.map Prod.fst) (hk' : k' ∈ l.map Prod.fst) :
    assign k v (assign k' v' l) = assign k' v' (assign k v l) := by
  induction l with
  | nil => cases hk
  | cons e l ih =>
    obtain ⟨key, value⟩ := e
    rw [List.map_cons, List.mem_cons] at hk hk'
    by_cases hkey : key = k
    · subst hkey
      simp [assign, hne]
    · by_cases hkey' : key = k'
      · subst hkey'
        simp [assign, hkey]
      · simp only [assign, hkey, hkey', if_false]
        rw [ih (hk.resolve_left fun h => hkey h.symm) (hk'.resolve_left fun h => hkey' h.symm)]

theorem mem_of_lookup {k : κ} {v : α} {l : List (κ × α)} (h : lookup k l = some v) : (k, v) ∈ l := by
  induction l with
  | nil => cases h
  | cons e l ih =>
    obtain ⟨key, value⟩ := e
    unfold lookup at h
    split_ifs at h with hkey
    · cases h
      rw [hkey]
      exact .head _
    · exact List.mem_cons_of_mem _ (ih h)

theorem lookup_of_mem {k : κ} {v : α} {l : List (κ × α)} (hnd : (l.map Prod.fst).Nodup)
    (h : (k, v) ∈ l) : lookup k l = some v := by
  induction l with
  | nil => cases h
  | cons e l ih =>
    obtain ⟨key, value⟩ := e
    rw [List.map_cons, List.nodup_cons] at hnd
    unfold lookup
    rcases List.mem_cons.mp h with heq | h
    · cases heq
      rw [if_pos rfl]
    · have hne : key ≠ k := by
        rintro rfl
        exact hnd.1 (List.mem_map.mpr ⟨_, h, rfl⟩)
      rw [if_neg hne, ih hnd.2 h]

end Assoc

/-! ### Dictionaries -/

structure Dict (κ α : Type) where
  entries : List (κ × α)
  nodup : (entries.map Prod.fst).Nodup
deriving DecidableEq

namespace Dict

def empty : Dict κ α := ⟨[], List.nodup_nil⟩

section

variable (d : Dict κ α)

def get? (k : κ) : Option α := Assoc.lookup k d.entries

/-- `k in d`. -/
def has (k : κ) : Bool := (d.get? k).isSome

def keys : List κ := d.entries.map Prod.fst

def values : List α := d.entries.map Prod.snd

def set (k : κ) (v : α) : Dict κ α where
  entries := Assoc.assign k v d.entries
  nodup := by
    rw [Assoc.keys_assign]
    split_ifs with hk
    · exact d.nodup
    · exact List.nodup_append.mpr ⟨d.nodup, List.nodup_singleton k, fun a ha b hb => by
        rw [List.mem_singleton.mp hb]
        rintro rfl
        exact hk ha⟩

/-- `{k: v for k, v in d.items() if p(k, v)}`. -/
def filter (p : κ → α → Bool) : Dict κ α where
  entries := d.entries.filter fun e => p e.1 e.2
  nodup := d.nodup.sublist (List.filter_sublist.map Prod.fst)

/-- `d.pop(k, None)`. -/
def erase (k : κ) : Dict κ α := d.filter fun key _ => key ≠ k

/-- `{k: f(k, v) for k, v in d.items()}`. -/
def mapValues (f : κ → α → β) : Dict κ β where
  entries := d.entries.map fun e => (e.1, f e.1 e.2)
  nodup := by
    rw [List.map_map]
    exact d.nodup

end

/-- `{k: v for k, v in l}`. -/
def ofPairs (l : List (κ × α)) : Dict κ α := l.foldl (fun d e => d.set e.1 e.2) empty

variable {d d' : Dict κ α} {k k' : κ} {v : α}

theorem mem_entries : (k, v) ∈ d.entries ↔ d.get? k = some v :=
  ⟨Assoc.lookup_of_mem d.nodup, Assoc.mem_of_lookup⟩

@[simp] theorem get?_empty : (empty : Dict κ α).get? k = none := rfl

theorem get?_set : (d.set k v).get? k' = if k = k' then some v else d.get? k' :=
  Assoc.lookup_assign k k' v d.entries

@[simp] theorem get?_set_self : (d.set k v).get? k = some v := by
  rw [get?_set, if_pos rfl]

theorem get?_set_ne (h : k ≠ k') : (d.set k v).get? k' = d.get? k' := by
  rw [get?_set, if_neg h]

/-- What holds of every entry, and of a new one. -/
theorem forall_get?_set {p : κ → α → Prop} (h : ∀ k v, d.get? k = some v → p k v) (hv : p k v) :
    ∀ k' v', (d.set k v).get? k' = some v' → p k' v' := by
  intro k' v' hget
  rw [get?_set] at hget
  split_ifs at hget with hk
  · exact hk ▸ Option.some.inj hget ▸ hv
  · exact h k' v' hget

theorem get?_set_eq_none : (d.set k v).get? k' = none ↔ k ≠ k' ∧ d.get? k' = none := by
  rw [get?_set]
  split_ifs with hk <;> simp [hk]

/-- Pairs without repeated keys are the entries of their dictionary. -/
theorem get?_ofPairs {l : List (κ × α)} (hnd : (l.map Prod.fst).Nodup) :
    (ofPairs l).get? k = some v ↔ (k, v) ∈ l := by
  suffices h : ∀ d : Dict κ α, (∀ e ∈ l, d.get? e.1 = none) →
      ((l.foldl (fun d e => d.set e.1 e.2) d).get? k = some v ↔ (k, v) ∈ l ∨ d.get? k = some v) by
    rw [ofPairs, h empty fun _ _ => rfl]
    simp
  induction l with
  | nil => simp
  | cons e l ih =>
    intro d hd
    rw [List.map_cons, List.nodup_cons] at hnd
    have hnew : ∀ e' ∈ l, (d.set e.1 e.2).get? e'.1 = none := by
      intro e' he'
      have hne : e.1 ≠ e'.1 := fun heq => hnd.1 (heq ▸ List.mem_map_of_mem he')
      rw [get?_set_ne hne]
      exact hd e' (.tail _ he')
    rw [List.foldl_cons, ih hnd.2 _ hnew, get?_set]
    by_cases hk : e.1 = k
    · -- the first pair: nothing under its key before
      have hnone : d.get? k = none := hk ▸ hd e (.head _)
      simp [hnone, Prod.ext_iff, eq_comm, or_comm]
    · rw [if_neg hk]
      have hne : (k, v) ≠ e := fun heq => hk (by rw [← heq])
      simp [hne]

theorem set_comm {v' : α} (hne : k ≠ k') {w w' : α} (hk : d.get? k = some w)
    (hk' : d.get? k' = some w') : (d.set k' v').set k v = (d.set k v).set k' v' := by
  have hmem : ∀ {k : κ} {w : α}, d.get? k = some w → k ∈ d.entries.map Prod.fst := fun h =>
    List.mem_map.mpr ⟨_, mem_entries.mpr h, rfl⟩
  have hents := @Assoc.assign_comm κ α _ k k' v v' d.entries hne (hmem hk) (hmem hk')
  unfold set
  simp only [hents]

theorem get?_filter {p : κ → α → Bool} : (d.filter p).get? k = (d.get? k).filter (p k) := by
  rcases e : (d.filter p).get? k with - | v
  · rcases e' : d.get? k with - | v
    · rfl
    · by_cases hp : p k v = true
      · have hmem : (k, v) ∈ (d.filter p).entries := List.mem_filter.mpr ⟨mem_entries.mpr e', hp⟩
        rw [mem_entries.mp hmem] at e
        cases e
      · simp [Option.filter, hp]
  · obtain ⟨hmem, hp⟩ := List.mem_filter.mp (mem_entries.mpr e)
    rw [mem_entries.mp hmem, Option.filter_some, if_pos hp]

theorem get?_erase : (d.erase k).get? k' = if k' = k then none else d.get? k' := by
  rw [erase, get?_filter]
  by_cases h : k' = k
  · rcases d.get? k' with - | v <;> simp [h]
  · rcases d.get? k' with - | v <;> simp [h]

theorem get?_mapValues {f : κ → α → β} : (d.mapValues f).get? k = (d.get? k).map (f k) := by
  have hlookup : ∀ l : List (κ × α),
      Assoc.lookup k (l.map fun e => (e.1, f e.1 e.2)) = (Assoc.lookup k l).map (f k) := by
    intro l
    induction l with
    | nil => rfl
    | cons e l ih =>
      obtain ⟨key, value⟩ := e
      rw [List.map_cons]
      unfold Assoc.lookup
      by_cases hkey : key = k
      · subst hkey
        simp
      · rw [if_neg hkey, if_neg hkey, ih]
  exact hlookup d.entries

theorem has_eq_true : d.has k = true ↔ ∃ v, d.get? k = some v := Option.isSome_iff_exists

theorem mem_keys : k ∈ d.keys ↔ ∃ v, d.get? k = some v := by
  constructor
  · intro h
    obtain ⟨⟨key, v⟩, hmem, rfl⟩ := List.mem_map.mp h
    exact ⟨v, mem_entries.mp hmem⟩
  · rintro ⟨v, h⟩
    exact List.mem_map.mpr ⟨(k, v), mem_entries.mpr h, rfl⟩

theorem mem_values : v ∈ d.values ↔ ∃ k, d.get? k = some v := by
  constructor
  · intro h
    obtain ⟨⟨key, v⟩, hmem, rfl⟩ := List.mem_map.mp h
    exact ⟨key, mem_entries.mp hmem⟩
  · rintro ⟨k, h⟩
    exact List.mem_map.mpr ⟨(k, v), mem_entries.mpr h, rfl⟩

/-- **Only the order can differ** between dictionaries with the same lookups. -/
theorem perm_of_get? (h : ∀ k, d.get? k = d'.get? k) : d.entries.Perm d'.entries := by
  refine (List.perm_ext_iff_of_nodup d.nodup.of_map d'.nodup.of_map).mpr ?_
  rintro ⟨k, v⟩
  rw [mem_entries, mem_entries, h]

theorem values_perm_of_get? (h : ∀ k, d.get? k = d'.get? k) : d.values.Perm d'.values :=
  (perm_of_get? h).map Prod.snd

end Dict

end Py
