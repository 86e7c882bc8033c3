/-
TraderAssist/Lib/Journal.lean

Journals: items are numbered as they come in, wait in buffers or in a queue, and are
written to a log from the queue.

`num` is the number of an item and `key` its identity.  An item whose key was seen is not
taken again, an item whose key was queued is not queued again.  A snapshot keeps the
counter, the two sets of keys and the queue; a process that starts again has the log and the
last snapshot only.  `Step P` is one step of a running process, where `P` says which items
may be taken from a buffer into the queue.

`Ordered` is what keeps the log in the order of the numbers, `Unique` what keeps numbers and
keys from being used twice.  `Ordered` is kept when what leaves a buffer has numbers above
those of the log and the queue (`Clear`); `Unique` is kept always, and by a restart if the
counter of the snapshot is not behind the log.
-/
import Mathlib.Data.List.Pairwise
import Mathlib.Data.List.Nodup
import Mathlib.Order.Nat

namespace Py

variable {ι ε μ : Type} [DecidableEq ι]

structure Snapshot (ι ε : Type) where
  last : ℕ
  seen : List ι
  queued : List ι
  queue : List ε

structure Journal (ι ε μ : Type) where
  log : List ε
  queue : List ε
  queued : List ι
  seen : List ι
  last : ℕ
  buffer : μ → List ε
  saved : Option (Snapshot ι ε)

namespace Journal

variable (num : ε → ℕ) (key : ε → ι)

/-! ### Steps -/

/-- An item is queued unless its key was. -/
def enqueueOne (j : Journal ι ε μ) (e : ε) : Journal ι ε μ :=
  if key e ∈ j.queued then j else { j with queued := key e :: j.queued, queue := j.queue ++ [e] }

def enqueue (j : Journal ι ε μ) (items : List ε) : Journal ι ε μ := items.foldl (enqueueOne key) j

def snapshot (j : Journal ι ε μ) : Snapshot ι ε := ⟨j.last, j.seen, j.queued, j.queue⟩

/-- One step of a running process. -/
inductive Step (P : Journal ι ε μ → List ε → Prop) : Journal ι ε μ → Journal ι ε μ → Prop
  | refuse (j : Journal ι ε μ) (k : ι) :
      Step P j { j with last := j.last + 1, seen := k :: j.seen }
  | take (j : Journal ι ε μ) (e : ε) (buffer : μ → List ε) (hnum : num e = j.last + 1)
      (hkey : key e ∉ j.seen) (hbuffer : ∀ m, (buffer m).Sublist (j.buffer m ++ [e])) :
      Step P j { j with last := j.last + 1, seen := key e :: j.seen, buffer := buffer }
  | takeQueued (j : Journal ι ε μ) (e : ε) (buffer : μ → List ε) (hnum : num e = j.last + 1)
      (hkey : key e ∉ j.seen) (hbuffer : ∀ m, (buffer m).Sublist (j.buffer m ++ [e])) :
      Step P j (enqueueOne key
        { j with last := j.last + 1, seen := key e :: j.seen, buffer := buffer } e)
  | enqueue (j : Journal ι ε μ) (m : μ) (items : List ε) (hitems : items.Sublist (j.buffer m))
      (hP : P j items) : Step P j (j.enqueue key items)
  | flush (j : Journal ι ε μ) : Step P j { j with log := j.log ++ j.queue, queue := [] }
  | save (j : Journal ι ε μ) : Step P j { j with saved := some j.snapshot }

/-- What a process does. -/
def Steps (P : Journal ι ε μ → List ε → Prop) : Journal ι ε μ → Journal ι ε μ → Prop :=
  Relation.ReflTransGen (Step num key P)

variable {num key} {j j' : Journal ι ε μ}

variable {P : Journal ι ε μ → List ε → Prop}

theorem Steps.invariant {I : Journal ι ε μ → Prop} (hstep : ∀ a b, Step num key P a b → I a → I b)
    (h : Steps num key P j j') (hj : I j) : I j' := by
  induction h with
  | refl => exact hj
  | tail _ hab ih => exact hstep _ _ hab ih

theorem enqueueOne_saved (e : ε) : (j.enqueueOne key e).saved = j.saved := by
  unfold enqueueOne
  split <;> rfl

theorem enqueue_saved (items : List ε) : (j.enqueue key items).saved = j.saved :=
  List.foldlRecOn (motive := fun j' : Journal ι ε μ => j'.saved = j.saved) items _ rfl fun _ h e _ =>
    (enqueueOne_saved e).trans h

/-- A snapshot is never taken away. -/
theorem Step.saved (h : Step num key P j j') (hj : j.saved ≠ none) : j'.saved ≠ none := by
  cases h with
  | refuse | take | flush => exact hj
  | save => exact nofun
  | takeQueued e buffer =>
    rw [enqueueOne_saved]
    exact hj
  | enqueue m items =>
    rw [enqueue_saved]
    exact hj

/-! ### Order -/

variable (num key) in
/-- The items may follow what is written and queued. -/
def Clear (j : Journal ι ε μ) (items : List ε) : Prop :=
  ∀ e ∈ items, key e ∉ j.queued → ∀ x ∈ j.log ++ j.queue, num x < num e

variable (num) in
/-- Numbers increase along the log and the queue, and along each buffer. -/
structure Ordered (j : Journal ι ε μ) : Prop where
  written : (j.log ++ j.queue).Pairwise fun a b => num a < num b
  written_le : ∀ e ∈ j.log ++ j.queue, num e ≤ j.last
  buffered : ∀ m, (j.buffer m).Pairwise fun a b => num a < num b
  buffered_le : ∀ m, ∀ e ∈ j.buffer m, num e ≤ j.last

variable {e : ε}

theorem Ordered.enqueueOne (h : Ordered num j) (hle : num e ≤ j.last)
    (he : key e ∉ j.queued → ∀ x ∈ j.log ++ j.queue, num x < num e) : Ordered num (j.enqueueOne key e) := by
  unfold Journal.enqueueOne
  by_cases hq : key e ∈ j.queued
  · rw [if_pos hq]
    exact h
  · rw [if_neg hq]
    refine ⟨?_, ?_, h.buffered, h.buffered_le⟩
    · rw [← List.append_assoc, List.pairwise_append]
      refine ⟨h.written, List.pairwise_singleton _ _, fun x hx y hy => ?_⟩
      rw [List.mem_singleton.mp hy]
      exact he hq x hx
    · intro x hx
      rw [← List.append_assoc, List.mem_append, List.mem_singleton] at hx
      rcases hx with hx | rfl
      · exact h.written_le x hx
      · exact hle

variable {items : List ε}

/-- The items of an increasing list are clear one after the other. -/
theorem Ordered.enqueue (hsrt : items.Pairwise fun a b => num a < num b) (h : Ordered num j)
    (hle : ∀ e ∈ items, num e ≤ j.last) (hclr : Clear num key j items) :
    Ordered num (j.enqueue key items) := by
  induction items generalizing j with
  | nil => exact h
  | cons e items ih =>
    obtain ⟨hhead, htail⟩ := List.pairwise_cons.mp hsrt
    have hone := h.enqueueOne (hle e (.head _)) (hclr e (.head _))
    refine ih htail hone (fun x hx => ?_) fun x hx hq y hy => ?_
    · unfold Journal.enqueueOne
      split
      · exact hle x (.tail _ hx)
      · exact hle x (.tail _ hx)
    · unfold Journal.enqueueOne at hq hy
      split at hq
      · next hin =>
        rw [if_pos hin] at hy
        exact hclr x (.tail _ hx) hq y hy
      · next hout =>
        rw [if_neg hout] at hy
        rw [← List.append_assoc, List.mem_append, List.mem_singleton] at hy
        have hq : key x ∉ j.queued := fun h => hq (.tail _ h)
        rcases hy with hy | rfl
        · exact hclr x (.tail _ hx) hq y hy
        · exact hhead x hx

variable {buffer : μ → List ε}

omit [DecidableEq ι] in
/-- Taking an item in keeps the order: its number is above all others. -/
theorem Ordered.take {seen : List ι} (h : Ordered num j) (hnum : num e = j.last + 1)
    (hbuf : ∀ m, (buffer m).Sublist (j.buffer m ++ [e])) :
    Ordered num { j with last := j.last + 1, seen := seen, buffer := buffer } := by
  refine ⟨h.written, fun x hx => (h.written_le x hx).trans (Nat.le_succ _), fun m => ?_, fun m x hx => ?_⟩
  · refine List.Pairwise.sublist (hbuf m) (List.pairwise_append.mpr ⟨h.buffered m,
      List.pairwise_singleton _ _, fun x hx y hy => ?_⟩)
    rw [List.mem_singleton.mp hy, hnum]
    exact Nat.lt_succ_of_le (h.buffered_le m x hx)
  · rcases List.mem_append.mp ((hbuf m).subset hx) with hx | hx
    · exact (h.buffered_le m x hx).trans (Nat.le_succ _)
    · rw [List.mem_singleton.mp hx, hnum]

/-- **The order is kept by every step that takes only clear items from a buffer.** -/
theorem Ordered.step (hstep : Step num key (Clear num key) j j') (h : Ordered num j) : Ordered num j' := by
  cases hstep with
  | refuse k =>
    exact ⟨h.written, fun x hx => (h.written_le x hx).trans (Nat.le_succ _), h.buffered,
      fun m x hx => (h.buffered_le m x hx).trans (Nat.le_succ _)⟩
  | take e buffer hnum hkey hbuf => exact h.take hnum hbuf
  | takeQueued e buffer hnum hkey hbuf =>
    refine (h.take hnum hbuf).enqueueOne hnum.le fun _ x hx => ?_
    rw [hnum]
    exact Nat.lt_succ_of_le (h.written_le x hx)
  | enqueue m items hits hclr =>
    exact Ordered.enqueue ((h.buffered m).sublist hits) h
      (fun e he => h.buffered_le m e (hits.subset he)) hclr
  | flush => exact ⟨by simpa using h.written, by simpa using h.written_le, h.buffered, h.buffered_le⟩
  | save => exact ⟨h.written, h.written_le, h.buffered, h.buffered_le⟩

/-! ### Uniqueness -/

/-- Items that may still be written, or are. -/
inductive Known (j : Journal ι ε μ) (e : ε) : Prop
  | log (h : e ∈ j.log)
  | queue (h : e ∈ j.queue)
  | buffer (m : μ) (h : e ∈ j.buffer m)
  | saved (s : Snapshot ι ε) (hs : j.saved = some s) (h : e ∈ s.queue)

omit [DecidableEq ι] in
/-- What holds of all that is known. -/
theorem Known.elim {C : Prop} (h : Known j e) (hlog : e ∈ j.log → C) (hqueue : e ∈ j.queue → C)
    (hbuf : ∀ m, e ∈ j.buffer m → C) (hsaved : ∀ s, j.saved = some s → e ∈ s.queue → C) : C := by
  cases h with
  | log h => exact hlog h
  | queue h => exact hqueue h
  | buffer m h => exact hbuf m h
  | saved s hs h => exact hsaved s hs h

variable (num key) in
/-- Numbers and keys tell the items apart. -/
def Apart (A : ε → Prop) : Prop := ∀ a b, A a → A b → num a = num b ∨ key a = key b → a = b

variable (num key) in
structure SnapshotUnique (s : Snapshot ι ε) : Prop where
  le : ∀ e ∈ s.queue, num e ≤ s.last
  seen : ∀ e ∈ s.queue, key e ∈ s.seen
  queued : ∀ e ∈ s.queue, key e ∈ s.queued
  nodup : (s.queue.map key).Nodup

variable (num key) in
/-- What is left of a process that stopped. -/
structure StoreUnique (log : List ε) (last : Option (Snapshot ι ε)) : Prop where
  apart : Apart num key fun e => e ∈ log ∨ ∃ s, last = some s ∧ e ∈ s.queue
  nodup : (log.map key).Nodup
  saved : ∀ s, last = some s → SnapshotUnique num key s

variable (num key) in
/-- No number and no key is used twice, and the counter and the keys seen cover them all. -/
structure Unique (j : Journal ι ε μ) : Prop where
  apart : Apart num key (Known j)
  le : ∀ e, Known j e → num e ≤ j.last
  seen : ∀ e, Known j e → key e ∈ j.seen
  queued : ∀ e ∈ j.log ++ j.queue, key e ∈ j.queued
  nodup : ((j.log ++ j.queue).map key).Nodup
  saved : ∀ s, j.saved = some s → SnapshotUnique num key s

omit [DecidableEq ι] in
theorem Unique.log_nodup (h : Unique num key j) : (j.log.map key).Nodup := by
  have h := h.nodup
  rw [List.map_append, List.nodup_append] at h
  exact h.1

omit [DecidableEq ι] in
theorem Unique.store (h : Unique num key j) : StoreUnique num key j.log j.saved where
  apart a b ha hb hab := by
    refine h.apart a b ?_ ?_ hab
    · rcases ha with ha | ⟨s, hs, ha⟩
      · exact .log ha
      · exact .saved s hs ha
    · rcases hb with hb | ⟨s, hs, hb⟩
      · exact .log hb
      · exact .saved s hs hb
  nodup := h.log_nodup
  saved := h.saved

omit [DecidableEq ι] in
/-- Keys apart and numbers that tell keys apart: the numbers of the log are distinct. -/
theorem StoreUnique.nums_nodup {log : List ε} {saved : Option (Snapshot ι ε)}
    (h : StoreUnique num key log saved) : (log.map num).Nodup := by
  refine List.Nodup.map_on (fun a ha b hb hab => ?_) h.nodup.of_map
  exact h.apart a b (.inl ha) (.inl hb) (.inl hab)

omit [DecidableEq ι] in
/-- Knowing less keeps the invariant. -/
theorem Unique.of_known (h : Unique num key j) (hkn : ∀ e, Known j' e → Known j e)
    (hlast : j.last ≤ j'.last) (hseen : ∀ k ∈ j.seen, k ∈ j'.seen)
    (hqd : ∀ e ∈ j'.log ++ j'.queue, key e ∈ j'.queued) (hnd : ((j'.log ++ j'.queue).map key).Nodup)
    (hsv : ∀ s, j'.saved = some s → SnapshotUnique num key s) : Unique num key j' where
  apart a b ha hb := h.apart a b (hkn a ha) (hkn b hb)
  le e he := (h.le e (hkn e he)).trans hlast
  seen e he := hseen _ (h.seen e (hkn e he))
  queued := hqd
  nodup := hnd
  saved := hsv

omit [DecidableEq ι] in
/-- An item whose key was not queued may stand at the end of the queue. -/
theorem Unique.queue_snoc (h : Unique num key j) (hq : key e ∉ j.queued) :
    (∀ x ∈ j.log ++ (j.queue ++ [e]), key x ∈ key e :: j.queued)
      ∧ ((j.log ++ (j.queue ++ [e])).map key).Nodup := by
  rw [← List.append_assoc]
  constructor
  · intro x hx
    rcases List.mem_append.mp hx with hx | hx
    · exact List.mem_cons_of_mem _ (h.queued x hx)
    · rw [List.mem_singleton.mp hx]
      exact .head _
  · rw [List.map_append, List.map_singleton]
    refine List.nodup_append.mpr ⟨h.nodup, List.nodup_singleton _, fun a ha b hb hab => ?_⟩
    obtain ⟨x, hx, rfl⟩ := List.mem_map.mp ha
    rw [List.mem_singleton.mp hb] at hab
    exact hq (hab ▸ h.queued x hx)

/-- A known item may be queued. -/
theorem Unique.enqueueOne (h : Unique num key j) (he : Known j e) : Unique num key (j.enqueueOne key e) := by
  unfold Journal.enqueueOne
  by_cases hq : key e ∈ j.queued
  · rw [if_pos hq]
    exact h
  · rw [if_neg hq]
    refine h.of_known (fun x hx => hx.elim (fun hx => .log hx) (fun hx => ?_)
      (fun m hx => .buffer m hx) fun s hs hx => .saved s hs hx) le_rfl (fun _ hk => hk) (h.queue_snoc hq).1 (h.queue_snoc hq).2 h.saved
    rcases List.mem_append.mp hx with hx | hx
    · exact .queue hx
    · rw [List.mem_singleton.mp hx]
      exact he

/-- Queueing leaves the buffers as they are. -/
theorem enqueueOne_buffer (e : ε) : (j.enqueueOne key e).buffer = j.buffer := by
  unfold Journal.enqueueOne
  split <;> rfl

theorem Unique.enqueue {m : μ} (h : Unique num key j) (hits : ∀ e ∈ items, e ∈ j.buffer m) :
    Unique num key (j.enqueue key items) := by
  induction items generalizing j with
  | nil => exact h
  | cons e items ih =>
    refine ih (h.enqueueOne (.buffer m (hits e (.head _)))) fun x hx => ?_
    rw [enqueueOne_buffer]
    exact hits x (.tail _ hx)

omit [DecidableEq ι] in
/-- A new item has a number and a key of its own, so it may become known. -/
theorem Unique.fresh (h : Unique num key j) (hnum : num e = j.last + 1) (hkey : key e ∉ j.seen)
    (hkn : ∀ x, Known j' x → Known j x ∨ x = e) (hlast : j'.last = j.last + 1)
    (hseen : j'.seen = key e :: j.seen) (hqd : ∀ x ∈ j'.log ++ j'.queue, key x ∈ j'.queued)
    (hnd : ((j'.log ++ j'.queue).map key).Nodup) (hsv : j'.saved = j.saved) : Unique num key j' := by
  have hnew : ∀ x, Known j x → ¬ (num x = num e ∨ key x = key e) := by
    rintro x hx (hxe | hxe)
    · have hle := h.le x hx
      omega
    · exact hkey (hxe ▸ h.seen x hx)
  refine ⟨fun a b ha hb hab => ?_, fun x hx => ?_, fun x hx => ?_, hqd, hnd,
    fun s hs => h.saved s (hsv ▸ hs)⟩
  · rcases hkn a ha with ha | rfl <;> rcases hkn b hb with hb | rfl
    · exact h.apart a b ha hb hab
    · exact absurd hab (hnew a ha)
    · exact absurd (hab.imp Eq.symm Eq.symm) (hnew b hb)
    · rfl
  · rw [hlast]
    rcases hkn x hx with hx | rfl
    · exact (h.le x hx).trans (Nat.le_succ _)
    · exact hnum.le
  · rw [hseen]
    rcases hkn x hx with hx | rfl
    · exact List.mem_cons_of_mem _ (h.seen x hx)
    · exact .head _

omit [DecidableEq ι] in
theorem mem_taken {e x : ε} {m : μ} (hbuf : ∀ m, (buffer m).Sublist (j.buffer m ++ [e])) (hx : x ∈ buffer m) :
    x ∈ j.buffer m ∨ x = e := by
  rcases List.mem_append.mp ((hbuf m).subset hx) with hx | hx
  · exact .inl hx
  · exact .inr (List.mem_singleton.mp hx)

omit [DecidableEq ι] in
theorem known_take {e x : ε} {last : ℕ} {seen : List ι}
    (hbuf : ∀ m, (buffer m).Sublist (j.buffer m ++ [e]))
    (hx : Known { j with last := last, seen := seen, buffer := buffer } x) : Known j x ∨ x = e :=
  hx.elim (fun hx => .inl (.log hx)) (fun hx => .inl (.queue hx))
    (fun m hx => (mem_taken hbuf hx).imp_left (.buffer m)) fun s hs hx => .inl (.saved s hs hx)

/-- **Every step keeps numbers and keys apart.** -/
theorem Unique.step (hstep : Step num key P j j') (h : Unique num key j) : Unique num key j' := by
  cases hstep with
  | refuse k =>
    exact h.of_known (fun x hx => hx.elim (fun hx => .log hx) (fun hx => .queue hx)
      (fun m hx => .buffer m hx) fun s hs hx => .saved s hs hx) (Nat.le_succ _) (fun _ hk => .tail _ hk) h.queued h.nodup h.saved
  | take e buffer hnum hkey hbuf =>
    exact h.fresh hnum hkey (fun x hx => known_take hbuf hx) rfl rfl h.queued h.nodup rfl
  | takeQueued e buffer hnum hkey hbuf =>
    unfold Journal.enqueueOne
    by_cases hq : key e ∈ j.queued
    · rw [if_pos hq]
      exact h.fresh hnum hkey (fun x hx => known_take hbuf hx) rfl rfl h.queued h.nodup rfl
    · rw [if_neg hq]
      refine h.fresh hnum hkey (fun x hx => hx.elim (fun hx => .inl (.log hx)) (fun hx => ?_)
        (fun m hx => (mem_taken hbuf hx).imp_left (.buffer m)) fun s hs hx => .inl (.saved s hs hx))
        rfl rfl (h.queue_snoc hq).1 (h.queue_snoc hq).2 rfl
      exact (List.mem_append.mp hx).imp .queue List.mem_singleton.mp
  | enqueue m items hits hP => exact h.enqueue fun e he => hits.subset he
  | flush =>
    refine h.of_known (fun x hx => hx.elim (fun hx => ?_) nofun (fun m hx => .buffer m hx)
      fun s hs hx => .saved s hs hx) le_rfl (fun _ hk => hk) (by simpa using h.queued) (by simpa using h.nodup) h.saved
    exact (List.mem_append.mp hx).elim .log .queue
  | save =>
    refine h.of_known (fun x hx => hx.elim (fun hx => .log hx) (fun hx => .queue hx)
      (fun m hx => .buffer m hx) fun s hs hx => ?_) le_rfl (fun _ hk => hk) h.queued h.nodup fun s hs => ?_
    · cases hs
      exact .queue hx
    · cases hs
      refine ⟨fun x hx => h.le x (.queue hx), fun x hx => h.seen x (.queue hx),
        fun x hx => h.queued x (List.mem_append_right _ hx), ?_⟩
      have hnd := h.nodup
      rw [List.map_append, List.nodup_append] at hnd
      exact hnd.2.1

/-! ### Starting again -/

variable (key) in
/-- What a new process starts with: the log and the last snapshot, less what was written. -/
def restart (log : List ε) (s : Snapshot ι ε) : Journal ι ε μ where
  log := log
  queue := s.queue.filter fun e => decide (key e ∉ log.map key)
  queued := s.queued ++ log.map key
  seen := s.seen ++ log.map key
  last := s.last
  buffer := fun _ => []
  saved := some s

/-- **A restart keeps numbers and keys apart if the counter is not behind the log.** -/
theorem StoreUnique.restart {log : List ε} {s : Snapshot ι ε}
    (h : StoreUnique num key log (some s)) (hle : ∀ e ∈ log, num e ≤ s.last) :
    Unique num key (Journal.restart key log s : Journal ι ε μ) := by
  have hs := h.saved s rfl
  -- all that is known is in the log or in the snapshot
  have hkn : ∀ e, Known (Journal.restart key log s : Journal ι ε μ) e →
      e ∈ log ∨ ∃ t, some s = some t ∧ e ∈ t.queue := by
    intro e he
    cases he with
    | log he => exact .inl he
    | queue he => exact .inr ⟨s, rfl, (List.mem_filter.mp he).1⟩
    | buffer m he => cases he
    | saved t ht he => exact .inr ⟨t, ht, he⟩
  refine ⟨fun a b ha hb => h.apart a b (hkn a ha) (hkn b hb), fun e he => ?_, fun e he => ?_,
    fun e he => ?_, ?_, h.saved⟩
  · rcases hkn e he with he | ⟨t, ht, he⟩
    · exact hle e he
    · cases ht
      exact hs.le e he
  · rcases hkn e he with he | ⟨t, ht, he⟩
    · exact List.mem_append_right _ (List.mem_map_of_mem he)
    · cases ht
      exact List.mem_append_left _ (hs.seen e he)
  · rcases List.mem_append.mp he with he | he
    · exact List.mem_append_right _ (List.mem_map_of_mem he)
    · exact List.mem_append_left _ (hs.queued e (List.mem_filter.mp he).1)
  · rw [List.map_append]
    refine List.nodup_append.mpr ⟨h.nodup, ?_, fun a ha b hb hab => ?_⟩
    · exact hs.nodup.sublist (List.filter_sublist.map key)
    · obtain ⟨x, hx, rfl⟩ := List.mem_map.mp hb
      have hx := (List.mem_filter.mp hx).2
      rw [← hab] at hx
      exact absurd ha (of_decide_eq_true hx)

/-! ### What was queued -/

variable (key) in
/-- Every key that a snapshot takes for queued is in the log or in its queue. -/
def StoreCovered (log : List ε) (last : Option (Snapshot ι ε)) : Prop :=
  ∀ s, last = some s → ∀ k ∈ s.queued, k ∈ (log ++ s.queue).map key

variable (key) in
/-- Every key taken for queued is in the log or in the queue. -/
structure Covered (j : Journal ι ε μ) : Prop where
  queued : ∀ k ∈ j.queued, k ∈ (j.log ++ j.queue).map key
  saved : StoreCovered key j.log j.saved

theorem Covered.enqueueOne (h : Covered key j) : Covered key (j.enqueueOne key e) := by
  unfold Journal.enqueueOne
  split
  · exact h
  · refine ⟨fun k hk => ?_, h.saved⟩
    rw [← List.append_assoc, List.map_append, List.mem_append]
    rcases hk with - | ⟨-, hk⟩
    · exact .inr (List.mem_singleton_self _)
    · exact .inl (h.queued k hk)

theorem Covered.enqueue (h : Covered key j) : Covered key (j.enqueue key items) :=
  List.foldlRecOn items _ h fun _ h _ _ => h.enqueueOne

omit [DecidableEq ι] in
theorem Covered.save (h : Covered key j) : Covered key { j with saved := some j.snapshot } := by
  refine ⟨h.queued, fun s hs => ?_⟩
  cases hs
  exact h.queued

/-- **No step loses what was queued.** -/
theorem Covered.step (hstep : Step num key P j j') (h : Covered key j) : Covered key j' := by
  cases hstep with
  | refuse | take => exact ⟨h.queued, h.saved⟩
  | takeQueued e buffer => exact Covered.enqueueOne ⟨h.queued, h.saved⟩
  | enqueue m items => exact h.enqueue
  | flush =>
    refine ⟨by simpa using h.queued, fun s hs k hk => ?_⟩
    have hmem := h.saved s hs k hk
    simp only [List.map_append, List.mem_append] at hmem ⊢
    tauto
  | save => exact h.save

theorem StoreCovered.restart {log : List ε} {s : Snapshot ι ε} (h : StoreCovered key log (some s)) :
    Covered key (Journal.restart key log s : Journal ι ε μ) := by
  refine ⟨fun k hk => ?_, h⟩
  by_cases hlog : k ∈ log.map key
  · rw [List.map_append]
    exact List.mem_append_left _ hlog
  · have hk : k ∈ (log ++ s.queue).map key := by
      rcases List.mem_append.mp hk with hk | hk
      · exact h s rfl k hk
      · exact absurd hk hlog
    rw [List.map_append, List.mem_append] at hk ⊢
    obtain ⟨e, he, rfl⟩ := List.mem_map.mp (hk.resolve_left hlog)
    exact .inr (List.mem_map_of_mem (List.mem_filter.mpr ⟨he, decide_eq_true hlog⟩))

end Journal

end Py
