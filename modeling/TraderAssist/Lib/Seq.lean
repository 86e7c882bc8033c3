/-
TraderAssist/Lib/Seq.lean

Slices, stable sorting by a key, first minimum by a key, and the median, on
lists.  Sorting is insertion sort: stable, structural, and so equal to any
stable sort by the same key.
-/
import Mathlib.Data.List.Sort
import Mathlib.Data.Prod.Lex
import TraderAssist.Lib.Decimal
import TraderAssist.Lib.Raises

namespace Py

variable {α β κ : Type} {n : ℕ}

/-! ### One more item -/

theorem forall_mem_snoc {p : α → Prop} {l : List α} {a : α} (h : ∀ x ∈ l, p x) (ha : p a) :
    ∀ x ∈ l ++ [a], p x :=
  List.forall_mem_append.mpr ⟨h, List.forall_mem_singleton.mpr ha⟩

theorem pairwise_snoc {R : α → α → Prop} {l : List α} {a : α} (h : l.Pairwise R)
    (ha : ∀ x ∈ l, R x a) : (l ++ [a]).Pairwise R :=
  List.pairwise_append.mpr
    ⟨h, List.pairwise_singleton R a, fun x hx => List.forall_mem_singleton.mpr (ha x hx)⟩

theorem map_eq_of_forall₂ {γ : Type} {f : α → γ} {g : β → γ} {l : List α} {m : List β}
    (h : List.Forall₂ (fun a b => f a = g b) l m) : l.map f = m.map g := by
  rwa [← List.forall₂_eq_eq_eq, List.forall₂_map_left_iff, List.forall₂_map_right_iff]

/-! ### Slices -/

/-- The slice `l[-n:]`, for `0 < n`. -/
def lastN (n : ℕ) (l : List α) : List α := l.drop (l.length - n)

@[simp] theorem length_lastN (n : ℕ) (l : List α) : (lastN n l).length = min n l.length := by
  simp [lastN]
  omega

theorem lastN_eq_self {l : List α} (h : l.length ≤ n) : lastN n l = l := by
  simp [lastN, Nat.sub_eq_zero_of_le h]

theorem lastN_eq_drop {l : List α} : lastN n l = l.drop (l.length - n) := rfl

theorem lastN_append {l m : List α} (h : m.length ≤ n) :
    lastN n (l ++ m) = lastN (n - m.length) l ++ m := by
  simp only [lastN, List.length_append]
  rw [List.drop_append_of_le_length (by omega)]
  congr 2
  omega

/-- Keeping the last `n` of a list that was already cut to its last `n`. -/
theorem lastN_lastN {m n : ℕ} (h : m ≤ n) (l : List α) : lastN m (lastN n l) = lastN m l := by
  simp only [lastN, List.drop_drop, List.length_drop]
  congr 1
  omega

theorem lastN_snoc (hn : 0 < n) (l : List α) (a : α) :
    lastN n (lastN n l ++ [a]) = lastN n (l ++ [a]) := by
  rw [lastN_append hn, lastN_append hn, lastN_lastN (Nat.sub_le _ _)]

theorem mem_of_mem_lastN {l : List α} {a : α} (h : a ∈ lastN n l) : a ∈ l :=
  List.mem_of_mem_drop h

theorem lastN_map (f : α → β) (l : List α) : lastN n (l.map f) = (lastN n l).map f := by
  simp [lastN]

theorem getLast?_lastN (hn : 0 < n) (l : List α) : (lastN n l).getLast? = l.getLast? := by
  rcases l.eq_nil_or_concat with rfl | ⟨l, a, rfl⟩
  · simp [lastN]
  · rw [List.concat_eq_append, lastN_append hn]
    simp

/-! ### Sorting and minima -/

variable [LinearOrder κ] {key : α → κ} {k : ℕ} {g : α → κ} {t : κ}

/-- `sorted(l, key=key)`. -/
def sortBy (key : α → κ) (l : List α) : List α :=
  l.insertionSort fun a b => key a ≤ key b

theorem perm_sortBy (key : α → κ) (l : List α) : (sortBy key l).Perm l :=
  List.perm_insertionSort _ l

@[simp] theorem mem_sortBy {l : List α} {a : α} : a ∈ sortBy key l ↔ a ∈ l :=
  (perm_sortBy key l).mem_iff

@[simp] theorem length_sortBy (key : α → κ) (l : List α) : (sortBy key l).length = l.length :=
  (perm_sortBy key l).length_eq

theorem sortBy_sorted (key : α → κ) (l : List α) : (sortBy key l).Pairwise fun a b => key a ≤ key b := by
  exact List.pairwise_insertionSort _ l

/-- A list in order is sorted. -/
theorem sortBy_eq_self {l : List α} (h : l.Pairwise fun a b => key a ≤ key b) :
    sortBy key l = l := by
  exact List.Pairwise.insertionSort_eq h

/-- Sorting by a key that tells the items apart does not see their order. -/
theorem sortBy_eq_of_perm {l l' : List α} (h : l.Perm l')
    (hkey : ∀ a ∈ l, ∀ b ∈ l, key a = key b → a = b) : sortBy key l = sortBy key l' := by
  have hperm := (perm_sortBy key l).trans (h.trans (perm_sortBy key l').symm)
  refine hperm.eq_of_pairwise (fun a b ha hb hab hba => ?_) (sortBy_sorted key l) (sortBy_sorted key l')
  exact hkey a (mem_sortBy.mp ha) b (h.mem_iff.mpr (mem_sortBy.mp hb)) (le_antisymm hab hba)

/-- An item that is kept goes to the same place before and after a filter. -/
theorem orderedInsert_filter {p : α → Bool} {a : α} (ha : p a = true) {l : List α}
    (h : l.Pairwise fun a b => key a ≤ key b) : (l.orderedInsert (fun a b => key a ≤ key b) a).filter p
      = (l.filter p).orderedInsert (fun a b => key a ≤ key b) a := by
  induction l with
  | nil => simp [ha]
  | cons b l ih =>
    obtain ⟨hb, hl⟩ := List.pairwise_cons.mp h
    rw [List.orderedInsert_cons]
    split
    · rename_i hab
      rw [List.filter_cons_of_pos ha]
      -- the item comes before all that are left
      rcases hflt : (b :: l).filter p with - | ⟨c, rest⟩
      · rfl
      · have hc : c ∈ b :: l := (List.mem_filter.mp (hflt ▸ List.mem_cons_self)).1
        rw [List.orderedInsert_cons_of_le]
        rcases List.mem_cons.mp hc with rfl | hc
        · exact hab
        · exact hab.trans (hb c hc)
    · rename_i hab
      rw [List.filter_cons, List.filter_cons, ih hl]
      split
      · rw [List.orderedInsert_cons, if_neg hab]
      · rfl

/-- An item that is not kept leaves no trace. -/
theorem filter_orderedInsert_of_neg {p : α → Bool} {a : α} (ha : ¬ p a = true) (l : List α) :
    (l.orderedInsert (fun a b => key a ≤ key b) a).filter p = l.filter p := by
  induction l with
  | nil => simp [ha]
  | cons b l ih =>
    rw [List.orderedInsert_cons]
    split
    · rw [List.filter_cons_of_neg ha]
    · rw [List.filter_cons, List.filter_cons, ih]

/-- Filtering before and after sorting. -/
theorem sortBy_filter (key : α → κ) (p : α → Bool) (l : List α) :
    (sortBy key l).filter p = sortBy key (l.filter p) := by
  induction l with
  | nil => rfl
  | cons a l ih =>
    have hcons : sortBy key (a :: l) = (sortBy key l).orderedInsert (fun a b => key a ≤ key b) a := rfl
    by_cases ha : p a = true
    · rw [hcons, orderedInsert_filter ha (sortBy_sorted key l), ih, List.filter_cons_of_pos ha]
      rfl
    · rw [hcons, filter_orderedInsert_of_neg ha, List.filter_cons_of_neg ha, ih]

/-- The last of a sorted list: sorted items that everything else comes before. -/
theorem lastN_sortBy {l w : List α} (hnd : l.Nodup)
    (hkey : ∀ a ∈ l, ∀ b ∈ l, key a = key b → a = b)
    (hw : w.Pairwise fun a b => key a < key b) (hsub : ∀ a ∈ w, a ∈ l)
    (hlow : ∀ a ∈ l, a ∉ w → ∀ b ∈ w, key a < key b) : lastN w.length (sortBy key l) = w := by
  classical
  have hwnodup : w.Nodup := hw.imp fun hab heq => absurd (congrArg key heq) hab.ne
  have hmems : (l.filter fun a => a ∈ w).Perm w := by
    refine (List.perm_ext_iff_of_nodup (hnd.filter _) hwnodup).mpr fun a => ?_
    rw [List.mem_filter, decide_eq_true_eq]
    exact ⟨fun h => h.2, fun h => ⟨hsub a h, h⟩⟩
  have hperm : (sortBy key l).Perm (sortBy key (l.filter fun a => a ∉ w) ++ w) := by
    have hspl := (List.filter_append_perm (fun a => decide (a ∉ w)) l).symm
    simp only [decide_not, Bool.not_not] at hspl ⊢
    exact (perm_sortBy key l).trans (hspl.trans ((perm_sortBy key _).symm.append hmems))
  have hsrt : (sortBy key (l.filter fun a => a ∉ w) ++ w).Pairwise fun a b => key a ≤ key b := by
    refine List.pairwise_append.mpr ⟨sortBy_sorted key _, hw.imp fun hab => hab.le, ?_⟩
    intro a ha b hb
    obtain ⟨hal, haw⟩ := List.mem_filter.mp (mem_sortBy.mp ha)
    exact (hlow a hal (by simpa using haw) b hb).le
  have heq : sortBy key l = sortBy key (l.filter fun a => a ∉ w) ++ w := by
    refine hperm.eq_of_pairwise (fun a b ha hb hab hba => ?_) (sortBy_sorted key l) hsrt
    exact hkey a (mem_sortBy.mp ha) b (mem_sortBy.mp (hperm.mem_iff.mpr hb)) (le_antisymm hab hba)
  rw [heq]
  simp [lastN]

/-! ### The newest -/

/-- Fewer than `k` items come after `t`. -/
def Newest (k : ℕ) (l : List κ) (t : κ) : Prop := (l.filter fun x => t < x).length < k

instance (k : ℕ) (l : List κ) (t : κ) : Decidable (Newest k l t) := Nat.decLt _ _

/-- Among fewer items there are fewer that come after. -/
theorem Newest.of_subset {l l' : List κ} (h : Newest k l' t) (hnd : l.Nodup)
    (hsub : l ⊆ l') : Newest k l t := by
  refine (List.Subperm.length_le ?_).trans_lt h
  refine List.subperm_of_subset (hnd.filter _) fun x hx => ?_
  exact List.mem_filter.mpr ⟨hsub (List.mem_filter.mp hx).1, (List.mem_filter.mp hx).2⟩

variable {l : List κ}

/-- An item of a short list is one of the newest. -/
theorem newest_of_length_le (ht : t ∈ l) (h : l.length ≤ k) : Newest k l t := by
  refine (List.length_filter_lt_length_iff_exists.mpr ⟨t, ht, ?_⟩).trans_le h
  simp

theorem newest_snoc {b t : κ} : Newest (k + 1) (l ++ [b]) t ↔
    if t < b then Newest k l t else Newest (k + 1) l t := by
  unfold Newest
  split_ifs with h <;> simp [List.filter_append, h]

/-- Nothing comes after what is above all. -/
theorem newest_of_forall_le (hk : 0 < k) (h : ∀ x ∈ l, x ≤ t) : Newest k l t := by
  have hnil : (l.filter fun x => t < x) = [] := List.filter_eq_nil_iff.mpr (by simpa using h)
  rwa [Newest, hnil]

/-- Of a sorted list, the newest are those from the `k`-th last on. -/
theorem newest_iff_le {cutoff t : κ} (hsrt : l.Pairwise (· < ·))
    (hcut : l[l.length - k]? = some cutoff) (hlen : k ≤ l.length) : Newest k l t ↔ cutoff ≤ t := by
  induction l using List.reverseRecOn generalizing k with
  | nil => cases hcut
  | append_singleton l b ih =>
    obtain ⟨hl, -, hlast⟩ := List.pairwise_append.mp hsrt
    have hlast : ∀ x ∈ l, x < b := fun x hx => hlast x hx b (List.mem_singleton_self b)
    rcases k with - | k
    · simp at hcut
    rw [List.length_append, List.length_singleton, Nat.add_sub_add_right] at hcut
    rw [newest_snoc]
    rcases k.eq_zero_or_pos with rfl | hk
    · -- the cutoff is the last item
      obtain rfl : b = cutoff := by simpa using hcut
      split_ifs with h
      · exact iff_of_false (Nat.not_lt_zero _) (not_le.mpr h)
      · exact iff_of_true (newest_of_forall_le one_pos fun x hx => (hlast x hx).le.trans (not_lt.mp h)) (not_lt.mp h)
    · have hk' : k ≤ l.length := by simpa using hlen
      rw [List.getElem?_append_left (by omega)] at hcut
      split_ifs with h
      · exact ih hl hcut hk'
      · have hle : ∀ x ∈ l, x ≤ t := fun x hx => (hlast x hx).le.trans (not_lt.mp h)
        exact iff_of_true (newest_of_forall_le k.succ_pos hle) (hle _ (List.mem_of_getElem? hcut))

/-- **The last of a sorted list are its newest.** -/
theorem lastN_eq_filter_newest (hsrt : l.Pairwise (· < ·)) :
    lastN k l = l.filter fun t => Newest k l t := by
  induction l using List.reverseRecOn generalizing k with
  | nil => simp [lastN]
  | append_singleton l b ih =>
    obtain ⟨hl, -, hlast⟩ := List.pairwise_append.mp hsrt
    rcases k with - | k
    · simp [lastN, Newest]
    · have hold : l.filter (fun t => Newest (k + 1) (l ++ [b]) t) = l.filter fun t => Newest k l t := by
        refine List.filter_congr fun t ht => ?_
        rw [decide_eq_decide, newest_snoc, if_pos (hlast t ht b (List.mem_singleton_self b))]
      have hnew : Newest (k + 1) (l ++ [b]) b := by
        rw [newest_snoc, if_neg (lt_irrefl b)]
        exact newest_of_forall_le k.succ_pos fun x hx => (hlast x hx b (List.mem_singleton_self b)).le
      rw [lastN_append (by simp), List.filter_append, hold, ← ih hl]
      simp [hnew]

/-- Of a list sorted by a key, the last `k` are those with the newest keys. -/
theorem mem_lastN_iff {l : List α} (hsrt : l.Pairwise fun a b => key a < key b)
    {a : α} : a ∈ lastN k l ↔ a ∈ l ∧ Newest k (l.map key) (key a) := by
  have hkeys : lastN k (l.map key) = (l.map key).filter fun t => Newest k (l.map key) t :=
    lastN_eq_filter_newest (List.pairwise_map.mpr hsrt)
  have hinj : ∀ b ∈ l, a ∈ l → key b = key a → b = a := fun b hb ha heq =>
    List.inj_on_of_nodup_map ((List.pairwise_map.mpr hsrt).imp fun h => h.ne) hb ha heq
  constructor
  · intro ha
    have hmem : key a ∈ lastN k (l.map key) := by
      rw [lastN_map]
      exact List.mem_map_of_mem ha
    rw [hkeys] at hmem
    exact ⟨mem_of_mem_lastN ha, of_decide_eq_true (List.mem_filter.mp hmem).2⟩
  · rintro ⟨ha, hnew⟩
    have hmem : key a ∈ lastN k (l.map key) := by
      rw [hkeys]
      exact List.mem_filter.mpr ⟨List.mem_map_of_mem ha, decide_eq_true hnew⟩
    rw [lastN_map] at hmem
    obtain ⟨b, hb, heq⟩ := List.mem_map.mp hmem
    exact hinj b (mem_of_mem_lastN hb) ha heq ▸ hb

/-- A list with the newest of another has none of its own that are newer. -/
theorem Newest.of_newest_mem {l l' : List κ} (h : Newest k l t) (hnd : l'.Nodup)
    (hmem : ∀ x ∈ l', Newest k l' x → x ∈ l) : Newest k l' t := by
  by_contra hnot
  unfold Newest at hnot
  rw [not_lt] at hnot
  -- the last `k` of those after `t` are all in the first list
  have hperm := perm_sortBy id (l'.filter fun x => t < x)
  have hlate : ∀ x ∈ sortBy id (l'.filter fun x => t < x), x ∈ l' ∧ t < x := by
    intro x hx
    have := List.mem_filter.mp (mem_sortBy.mp hx)
    exact ⟨this.1, of_decide_eq_true this.2⟩
  have hsnd := hperm.nodup_iff.mpr (hnd.filter _)
  have hsrt := (sortBy_sorted id _).imp₂ (fun _ _ hle hne => hle.lt_of_ne hne) hsnd
  have hlen : (lastN k (sortBy id (l'.filter fun x => t < x))).length = k := by
    rw [length_lastN, length_sortBy]
    exact min_eq_left hnot
  have hsub : lastN k (sortBy id (l'.filter fun x => t < x)) ⊆ l.filter fun x => t < x := by
    intro x hx
    rw [lastN_eq_filter_newest hsrt] at hx
    obtain ⟨hx, hnew⟩ := List.mem_filter.mp hx
    obtain ⟨hx', hlt⟩ := hlate x hx
    refine List.mem_filter.mpr ⟨hmem x hx' ?_, decide_eq_true hlt⟩
    refine (List.Subperm.length_le ?_).trans_lt (of_decide_eq_true hnew)
    refine List.subperm_of_subset (hnd.filter _) fun y hy => ?_
    obtain ⟨hy, hxy⟩ := List.mem_filter.mp hy
    refine List.mem_filter.mpr ⟨mem_sortBy.mpr (List.mem_filter.mpr ⟨hy, ?_⟩), hxy⟩
    exact decide_eq_true (hlt.trans (of_decide_eq_true hxy))
  have hle := (List.subperm_of_subset (hsnd.sublist (List.drop_sublist _ _)) hsub).length_le
  rw [← lastN_eq_drop, hlen] at hle
  exact absurd h (not_lt.mpr hle)

/-- `sorted(s)` for a set. -/
def sortedSet (s : Finset κ) : List κ :=
  Quotient.liftOn s.val (sortBy id) fun _ _ h => sortBy_eq_of_perm h fun _ _ _ _ hab => hab

theorem coe_sortedSet (s : Finset κ) : (sortedSet s : Multiset κ) = s.val := by
  rcases s with ⟨⟨l⟩, hnd⟩
  exact Multiset.coe_eq_coe.mpr (perm_sortBy id l)

@[simp] theorem mem_sortedSet {s : Finset κ} {a : κ} : a ∈ sortedSet s ↔ a ∈ s := by
  rw [← Multiset.mem_coe, coe_sortedSet, Finset.mem_val]

@[simp] theorem length_sortedSet (s : Finset κ) : (sortedSet s).length = s.card := by
  rw [← Multiset.coe_card, coe_sortedSet, Finset.card_val]

/-- `max(l, key=key, default=None)`: the first of the greatest. -/
def maxBy (key : α → κ) : List α → Option α
  | [] => none
  | a :: l => some (l.foldl (fun best b => if key best < key b then b else best) a)

theorem maxBy_spec {l : List α} {a : α} (h : maxBy key l = some a) :
    a ∈ l ∧ ∀ b ∈ l, key b ≤ key a := by
  cases l with
  | nil => cases h
  | cons b l =>
    rw [maxBy, Option.some.injEq] at h
    rw [← h]
    exact foldl_first_max l b

theorem maxBy_eq_none {l : List α} : maxBy key l = none ↔ l = [] := by
  cases l <;> simp [maxBy]

/-- Where the key tells the items apart the greatest is the greatest. -/
theorem maxBy_eq_some {l : List α} {a : α} (hkey : ∀ x ∈ l, ∀ y ∈ l, key x = key y → x = y) :
    maxBy key l = some a ↔ a ∈ l ∧ ∀ b ∈ l, key b ≤ key a := by
  refine ⟨maxBy_spec, fun ⟨hmem, hle⟩ => ?_⟩
  rcases e : maxBy key l with - | m
  · rw [maxBy_eq_none.mp e] at hmem
    cases hmem
  · obtain ⟨hm, hmax⟩ := maxBy_spec e
    rw [hkey m hm a hmem (le_antisymm (hle m hm) (hmax a hmem))]

theorem maxBy_eq_of_perm {l l' : List α} (h : l.Perm l')
    (hkey : ∀ x ∈ l, ∀ y ∈ l, key x = key y → x = y) : maxBy key l = maxBy key l' := by
  rcases e : maxBy key l' with - | m
  · rw [maxBy_eq_none] at e ⊢
    subst e
    exact h.eq_nil
  · obtain ⟨hm, hmax⟩ := maxBy_spec e
    exact (maxBy_eq_some hkey).mpr ⟨h.mem_iff.mpr hm, fun b hb => hmax b (h.mem_iff.mp hb)⟩

/-- `min(l, key=key, default=None)`: the first of the least. -/
def minBy (key : α → κ) : List α → Option α
  | [] => none
  | a :: l => some (l.foldl (fun best b => if key b < key best then b else best) a)

theorem minBy_spec {l : List α} {a : α} (h : minBy key l = some a) :
    a ∈ l ∧ ∀ b ∈ l, key a ≤ key b :=
  -- the greatest in the dual order
  maxBy_spec (κ := κᵒᵈ) h

/-! ### Extremes of a fold -/

omit [LinearOrder κ] in
/-- A fold that takes one of two things takes one of the values. -/
theorem foldl_choice {P : κ → Prop} {f : κ → κ → κ} (hf : ∀ x y, f x y = x ∨ f x y = y) {l : List α} {x : κ}
    (hx : P x) (hl : ∀ b ∈ l, P (g b)) :
    P (l.foldl (fun y b => f y (g b)) x) := by
  refine List.foldlRecOn l _ hx fun y hy b hb => ?_
  rcases hf y (g b) with h | h
  · rw [h]
    exact hy
  · rw [h]
    exact hl b hb

/-- No value is higher than the highest. -/
theorem le_foldl_max {l : List α} {x : κ} :
    x ≤ l.foldl (fun y b => max y (g b)) x ∧ ∀ b ∈ l, g b ≤ l.foldl (fun y b => max y (g b)) x := by
  induction l using List.reverseRecOn with
  | nil => exact ⟨le_rfl, nofun⟩
  | append_singleton l c ih =>
    rw [List.foldl_append]
    have hle := le_max_left (l.foldl (fun y b => max y (g b)) x) (g c)
    exact ⟨ih.1.trans hle, forall_mem_snoc (fun b hb => (ih.2 b hb).trans hle) (le_max_right _ _)⟩

theorem foldl_min_le {l : List α} {x : κ} :
    l.foldl (fun y b => min y (g b)) x ≤ x ∧ ∀ b ∈ l, l.foldl (fun y b => min y (g b)) x ≤ g b :=
  @le_foldl_max α κᵒᵈ _ g l x

/-! ### Folds over sorted lists -/

section SortedFold

variable {ε σ : Type} {f : σ → α → Except ε σ} {key : α → κ}

/-- A step moves to the front of steps it commutes with. -/
theorem foldlM_pull {a : α} {before after : List α} (hcomm : ∀ s, ∀ b ∈ before,
      Agree (f s b >>= fun s => f s a) (f s a >>= fun s => f s b) Eq) :
    ∀ s, Agree ((before ++ a :: after).foldlM f s) ((a :: (before ++ after)).foldlM f s) Eq := by
  induction before with
  | nil => exact fun s => .refl _
  | cons b before ih =>
    intro s
    have ih := ih fun s c hc => hcomm s c (.tail _ hc)
    have hfst := (Agree.refl (f s b)).bind fun t t' _ _ htt' => by
        subst htt'
        simpa only [List.foldlM_cons] using ih t
    have hswap : Agree (f s b >>= fun s => f s a >>= fun s => (before ++ after).foldlM f s)
        (f s a >>= fun s => f s b >>= fun s => (before ++ after).foldlM f s) Eq := by
      rw [← bind_assoc, ← bind_assoc]
      refine (hcomm s b (.head _)).bind fun t t' _ _ htt' => ?_
      subst htt'
      exact .refl _
    simpa only [List.cons_append, List.foldlM_cons] using hfst.trans hswap

/-- **Folding a sorted list**: where the steps of one key commute, the order the
items came in does not matter. -/
theorem foldlM_sortBy_agree (hcomm : ∀ s a b, key a = key b →
      Agree (f s a >>= fun s => f s b) (f s b >>= fun s => f s a) Eq)
    {l l' : List α} (h : l.Perm l') (s : σ) :
    Agree ((sortBy key l).foldlM f s) ((sortBy key l').foldlM f s) Eq := by
  have hsrt : ∀ {m m' : List α}, m.Perm m' → m.Pairwise (fun a b => key a ≤ key b) →
      m'.Pairwise (fun a b => key a ≤ key b) → ∀ s, Agree (m.foldlM f s) (m'.foldlM f s) Eq := by
    intro m
    induction m with
    | nil =>
      intro m' hperm _ _ s
      rw [hperm.nil_eq]
      exact .refl _
    | cons a m ih =>
      intro m' hperm hm hm' s
      -- what stands before `a` in the other list has its key
      obtain ⟨before, after, rfl⟩ := List.append_of_mem (hperm.subset (.head _))
      have hrest : m.Perm (before ++ after) := (List.perm_cons a).mp (hperm.trans List.perm_middle)
      have hkey : ∀ b ∈ before, key b = key a := by
        intro b hb
        refine ((List.pairwise_append.mp hm').2.2 b hb a (.head _)).antisymm ?_
        exact (List.pairwise_cons.mp hm).1 b (hrest.mem_iff.mpr (List.mem_append_left _ hb))
      have hsub := hm'.sublist (List.Sublist.append_left (List.sublist_cons_self a after) before)
      have hpull := @foldlM_pull α ε σ f a before after (fun s b hb => hcomm s b a (hkey b hb)) s
      have hhead : Agree ((a :: m).foldlM f s) ((a :: (before ++ after)).foldlM f s) Eq := by
        refine (Agree.refl (f s a)).bind fun t t' _ _ htt' => ?_
        subst htt'
        exact ih hrest (List.pairwise_cons.mp hm).2 hsub t
      have hback : Agree ((a :: (before ++ after)).foldlM f s) ((before ++ a :: after).foldlM f s) Eq :=
        ((Agree.refl _).join hpull).mono fun x y h => by
          obtain ⟨c, rfl, rfl⟩ := h
          rfl
      exact hhead.trans hback
  exact hsrt ((perm_sortBy key l).trans (h.trans (perm_sortBy key l').symm))
    (sortBy_sorted key l) (sortBy_sorted key l') s

end SortedFold

/-! ### Median -/

/-- `statistics.median`.  The source raises on the empty list; its callers never
pass one. -/
def median (l : List ℚ) : ℚ :=
  let data := sortBy id l
  let n := data.length
  if n % 2 = 1 then data.getD (n / 2) 0
  else cdiv (cadd (data.getD (n / 2 - 1) 0) (data.getD (n / 2) 0)) 2

theorem median_nonneg {l : List ℚ} (h : ∀ x ∈ l, 0 ≤ x) : 0 ≤ median l := by
  have hget : ∀ i, 0 ≤ (sortBy id l).getD i 0 := by
    intro i
    rw [List.getD_eq_getElem?_getD]
    rcases e : (sortBy id l)[i]? with - | x
    · exact le_rfl
    · exact h x (mem_sortBy.mp (List.mem_of_getElem? e))
  unfold median
  dsimp only
  split_ifs
  · exact hget _
  · exact cdiv_nonneg (cadd_nonneg (hget _) (hget _)) (by norm_num)

end Py
