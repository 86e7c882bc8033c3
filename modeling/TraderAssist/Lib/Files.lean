/-
TraderAssist/Lib/Files.lean

A disk: directories, and files with their contents.

Paths are given as lists of components and followed from the root of the disk, one
component at a time: `.` and the empty component stay, `..` goes up, anything else
goes down, and every component needs a directory to start from (`walk`).  A write
creates the directories on its way (`write`), as `mkdir(parents=True)` followed by
an atomic replacement does.

For paths without `.`, `..` and empty components (`Plain`) following is trivial:
`read_plain`, `exists_plain` and `write_plain` say what the operations do in terms
of the table of files alone.
-/
import TraderAssist.Lib.Dict
import TraderAssist.Lib.Raises
import TraderAssist.Lib.DecimalText

namespace Py

/-- The components of a path, from the root of the disk. -/
abbrev Path := List Text

inductive OSError
  | missing
  | notDirectory
  | isDirectory
deriving DecidableEq, Repr

structure Disk (β : Type) where
  dirs : List Path := []
  files : Dict Path β := .empty

variable {β : Type}

namespace Disk

/-! ### Following a path -/

/-- The root is always there. -/
def isDir (d : Disk β) (p : Path) : Bool := decide (p = []) || decide (p ∈ d.dirs)

/-- Where a component leads. -/
def follow (p : Path) (c : Text) : Path :=
  if c = [] ∨ c = ['.'] then p else if c = ['.', '.'] then p.dropLast else p ++ [c]

def enter (d : Disk β) (p : Path) (c : Text) : Except OSError Path :=
  if d.isDir p then .ok (follow p c)
  else if d.files.has p then .error .notDirectory
  else .error .missing

/-- The place a path names. -/
def walk (d : Disk β) (cs : List Text) : Except OSError Path := cs.foldlM d.enter []

/-- `path.exists()`. -/
def exists_ (d : Disk β) (cs : List Text) : Bool :=
  match d.walk cs with
  | .ok p => d.isDir p || d.files.has p
  | .error _ => false

/-- `path.read_bytes()`. -/
def read (d : Disk β) (cs : List Text) : Except OSError β := do
  let p ← d.walk cs
  if d.isDir p then .error .isDirectory
  else match d.files.get? p with
    | some content => .ok content
    | none => .error .missing

/-! ### Changing the disk -/

def makeDir (d : Disk β) (p : Path) : Except OSError (Disk β) :=
  if d.isDir p then .ok d
  else if d.files.has p then .error .notDirectory
  else .ok { d with dirs := p :: d.dirs }

/-- `path.mkdir(parents=True, exist_ok=True)`, going on from a directory. -/
def makeDirs (d : Disk β) (p : Path) : List Text → Except OSError (Disk β)
  | [] => .ok d
  | c :: cs => do
    let d ← d.makeDir (follow p c)
    d.makeDirs (follow p c) cs

/-- Create the parents of a path and replace the file there at once. -/
def write (d : Disk β) (cs : List Text) (content : β) : Except OSError (Disk β) := do
  let d ← d.makeDirs [] cs.dropLast
  let p ← d.walk cs
  if d.isDir p then .error .isDirectory
  else .ok { d with files := d.files.set p content }

/-- `path.unlink()`, where a missing file is no error. -/
def unlink (d : Disk β) (cs : List Text) : Except OSError (Disk β) :=
  match d.walk cs with
  | .ok p => if d.isDir p then .error .isDirectory else .ok { d with files := d.files.erase p }
  | .error .missing => .ok d
  | .error err => .error err

/-- One durable step. -/
inductive Step (β : Type)
  | write (path : List Text) (content : β)
  | unlink (path : List Text)

def step (d : Disk β) : Step β → Except OSError (Disk β)
  | .write path content => d.write path content
  | .unlink path => d.unlink path

/-- Steps one after the other, up to the first that fails. -/
def steps (d : Disk β) : List (Step β) → Disk β × Option OSError
  | [] => (d, none)
  | s :: rest =>
    match d.step s with
    | .ok d' => d'.steps rest
    | .error err => (d, some err)

/-- The path of a step. -/
def Step.path : Step β → List Text
  | .write path _ => path
  | .unlink path => path

/-- The states of the disk after each of some steps. -/
def states (d : Disk β) : List (Step β) → List (Disk β)
  | [] => []
  | s :: rest =>
    match d.step s with
    | .ok d' => d' :: d'.states rest
    | .error _ => []

theorem last_states (d : Disk β) (l : List (Step β)) : (d :: d.states l).getLast? = some (d.steps l).1 := by
  induction l generalizing d with
  | nil => rfl
  | cons s rest ih =>
    rw [states, steps]
    rcases d.step s with err | d'
    · rfl
    · exact ih d'

/-- The names of the files and directories in a directory. -/
def entries (d : Disk β) (p : Path) : List Text :=
  (d.dirs ++ d.files.keys).filterMap fun q =>
    if q.dropLast = p then q.getLast? else none

end Disk

/-- `base / name`: an absolute name starts anew. -/
def joinPath (base : Path) (name : Text) : List Text :=
  if name.head? = some '/' then name.splitOn '/' else base ++ name.splitOn '/'

/-! ### Plain paths -/

/-- A component that is the name of an entry. -/
def PlainName (c : Text) : Prop := c ≠ [] ∧ c ≠ ['.'] ∧ c ≠ ['.', '.'] ∧ '/' ∉ c

instance (c : Text) : Decidable (PlainName c) := inferInstanceAs (Decidable (_ ∧ _ ∧ _ ∧ _))

/-- Only names of entries. -/
def Plain (p : Path) : Prop := ∀ c ∈ p, PlainName c

instance (p : Path) : Decidable (Plain p) := inferInstanceAs (Decidable (∀ c ∈ p, PlainName c))

theorem Plain.append {p q : Path} (hp : Plain p) (hq : Plain q) : Plain (p ++ q) := by
  intro c hc
  rcases List.mem_append.mp hc with h | h
  · exact hp c h
  · exact hq c h

theorem plain_singleton {c : Text} (h : PlainName c) : Plain [c] := by
  intro x hx
  rw [List.mem_singleton.mp hx]
  exact h

theorem joinPath_plain {base : Path} {name : Text} (h : '/' ∉ name) :
    joinPath base name = base ++ [name] := by
  have hhead : name.head? ≠ some '/' := fun hs => h (List.mem_of_head? hs)
  have hspl : name.splitOn '/' = [name] := by
    refine List.splitOnP_eq_singleton fun c hc => beq_eq_false_iff_ne.mpr ?_
    rintro rfl
    exact h hc
  rw [joinPath, if_neg hhead, hspl]

namespace Disk

variable {d d' : Disk β} {p q : Path} {b : β}

theorem follow_plain {c : Text} (h : PlainName c) : follow p c = p ++ [c] := by
  rw [follow, if_neg (not_or.mpr ⟨h.1, h.2.1⟩), if_neg h.2.2.1]

theorem walk_snoc (d : Disk β) (cs : List Text) (c : Text) :
    d.walk (cs ++ [c]) = d.walk cs >>= fun p => d.enter p c := by
  unfold walk
  rw [List.foldlM_append]
  refine congrArg (List.foldlM d.enter [] cs >>= ·) (funext fun p => ?_)
  exact bind_pure _

/-- A proper prefix of a longer path. -/
theorem prefix_snoc {c : Text} (hq : q <+: p ++ [c]) (hne : q ≠ p ++ [c]) : q <+: p := by
  rcases List.prefix_concat_iff.mp hq with h | h
  · exact absurd h hne
  · exact h

/-- **Following a plain path**: every directory before it is there. -/
theorem walk_plain (h : Plain p) : (∀ r, d.walk p = .ok r → r = p)
      ∧ ((∃ r, d.walk p = .ok r) ↔ ∀ q, q <+: p → q ≠ p → d.isDir q = true) := by
  induction p using List.reverseRecOn with
  | nil =>
    refine ⟨fun r hr => (Except.ok.inj hr).symm, fun _ q hq hne => ?_, fun _ => ⟨[], rfl⟩⟩
    exact absurd (List.prefix_nil.mp hq) hne
  | append_singleton p c ih =>
    obtain ⟨hwalk, hdirs⟩ := ih fun x hx => h x (List.mem_append_left _ hx)
    have hc := h c (by simp)
    rw [walk_snoc]
    refine ⟨fun r hr => ?_, fun ⟨r, hr⟩ q hq hne => ?_, fun hall => ?_⟩
    · obtain ⟨x, hx, hin⟩ := of_bind hr
      obtain rfl := hwalk x hx
      unfold enter at hin
      split_ifs at hin
      rw [← Except.ok.inj hin, follow_plain hc]
    · obtain ⟨x, hx, hin⟩ := of_bind hr
      obtain rfl := hwalk x hx
      by_cases hqx : q = x
      · subst hqx
        unfold enter at hin
        split_ifs at hin with hdir
        exact hdir
      · exact hdirs.mp ⟨x, hx⟩ q (prefix_snoc hq hne) hqx
    · have hlen : ∀ q, q <+: p → q ≠ p ++ [c] := by
        rintro q hq rfl
        have := hq.length_le
        simp at this
      obtain ⟨x, hx⟩ := hdirs.mpr fun q hq _ => hall q (hq.trans (List.prefix_append _ _)) (hlen q hq)
      obtain rfl := hwalk x hx
      have hdir := hall x (List.prefix_append _ _) (hlen x (List.prefix_refl x))
      exact ⟨follow x c, by rw [hx]; exact if_pos hdir⟩

/-! ### Reading -/

/-- Files lie in directories and are none. -/
def Wf (d : Disk β) : Prop :=
  ∀ p b, d.files.get? p = some b → d.isDir p = false ∧ ∀ q, q <+: p → q ≠ p → d.isDir q = true

/-- What is read is a file. -/
theorem get?_of_read {cs : List Text} (hr : d.read cs = .ok b) :
    ∃ p, d.walk cs = .ok p ∧ d.isDir p = false ∧ d.files.get? p = some b := by
  obtain ⟨q, hq, hr⟩ := of_bind hr
  split_ifs at hr with hdir
  refine ⟨q, hq, by simpa using hdir, ?_⟩
  generalize d.files.get? q = found at hr
  rcases found with - | c
  · cases hr
  · rw [Except.ok.inj hr]

/-- **Reading a plain path.** -/
theorem read_plain (h : Plain p) (hr : d.read p = .ok b) :
    d.files.get? p = some b ∧ d.isDir p = false ∧ ∀ q, q <+: p → q ≠ p → d.isDir q = true := by
  obtain ⟨r, hwalk, hdir, hget⟩ := get?_of_read hr
  have hdirs := (walk_plain h).2.mp ⟨r, hwalk⟩
  obtain rfl := (walk_plain h).1 r hwalk
  exact ⟨hget, hdir, hdirs⟩

theorem read_of_get? (hwf : d.Wf) (h : Plain p) (hget : d.files.get? p = some b) : d.read p = .ok b := by
  obtain ⟨hfile, hdirs⟩ := hwf p b hget
  obtain ⟨r, hwalk⟩ := (walk_plain h).2.mpr hdirs
  obtain rfl := (walk_plain h).1 r hwalk
  rw [read, hwalk]
  change (if d.isDir r = true then _ else _) = _
  rw [if_neg (by rw [hfile]; exact Bool.false_ne_true), hget]

theorem exists_plain (h : Plain p) (he : d.exists_ p = true) :
    d.isDir p = true ∨ ∃ b, d.files.get? p = some b := by
  unfold exists_ at he
  rcases hwalk : d.walk p with err | r
  · rw [hwalk] at he
    cases he
  · rw [hwalk] at he
    obtain rfl := (walk_plain h).1 r hwalk
    exact (Bool.or_eq_true _ _ ▸ he).imp id Dict.has_eq_true.mp

theorem exists_of_get? (hwf : d.Wf) (h : Plain p) (hget : d.files.get? p = some b) : d.exists_ p = true := by
  obtain ⟨r, hwalk⟩ := (walk_plain h).2.mpr (hwf p b hget).2
  obtain rfl := (walk_plain h).1 r hwalk
  rw [exists_, hwalk]
  exact Bool.or_eq_true_iff.mpr (.inr (Dict.has_eq_true.mpr ⟨b, hget⟩))

/-- The entries of a directory. -/
theorem mem_entries {name : Text} :
    name ∈ d.entries p ↔ p ++ [name] ∈ d.dirs ∨ ∃ b, d.files.get? (p ++ [name]) = some b := by
  have hsnoc : ∀ q : Path, (if q.dropLast = p then q.getLast? else none) = some name
      ↔ q = p ++ [name] := by
    intro q
    constructor
    · intro h
      split_ifs at h with hp
      rw [← hp]
      exact (List.dropLast_append_getLast? name h).symm
    · rintro rfl
      simp
  simp only [entries, List.mem_filterMap, List.mem_append, hsnoc, Dict.mem_keys]
  constructor
  · rintro ⟨q, hq, rfl⟩
    exact hq
  · exact fun h => ⟨_, h, rfl⟩

/-! ### Writing -/

/-- New directories take the place of nothing. -/
structure Extends (d d' : Disk β) : Prop where
  files : d'.files = d.files
  dirs : ∀ q, d.isDir q = true → d'.isDir q = true
  fresh : ∀ q, d'.isDir q = true → d.isDir q = true ∨ d.files.get? q = none

theorem Extends.refl (d : Disk β) : Extends d d := ⟨rfl, fun _ h => h, fun _ h => .inl h⟩

theorem Extends.trans {d'' : Disk β} (h : Extends d d') (h' : Extends d' d'') : Extends d d'' := by
  refine ⟨h'.files.trans h.files, fun q hq => h'.dirs q (h.dirs q hq), fun q hq => ?_⟩
  rcases h'.fresh q hq with hdir | hnone
  · exact h.fresh q hdir
  · exact .inr (h.files ▸ hnone)

theorem makeDir_extends (h : d.makeDir p = .ok d') : Extends d d' := by
  unfold makeDir at h
  split_ifs at h with hdir hfile
  · cases h
    exact .refl d
  · cases h
    refine ⟨rfl, fun q hq => ?_, fun q hq => ?_⟩
    · simp only [isDir, Bool.or_eq_true, decide_eq_true_eq] at hq ⊢
      exact hq.imp id (List.mem_cons_of_mem _)
    · simp only [isDir, Bool.or_eq_true, decide_eq_true_eq, List.mem_cons] at hq ⊢
      rcases hq with rfl | rfl | hq
      · exact .inl (.inl rfl)
      · exact .inr (by simpa [Dict.has] using hfile)
      · exact .inl (.inr hq)

/-- Only directories on the way are new. -/
theorem makeDirs_dirs {cs : List Text} (hcs : Plain cs) : ∀ {d d' : Disk β} {p : Path},
    d.makeDirs p cs = .ok d' → ∀ q, d'.isDir q = true → d.isDir q = true ∨ q <+: p ++ cs := by
  induction cs with
  | nil =>
    intro d d' p h q hq
    rw [← Except.ok.inj h] at hq
    exact .inl hq
  | cons c cs ih =>
    intro d d' p h q hq
    obtain ⟨d₁, hmake, hrest⟩ := of_bind h
    rw [follow_plain (hcs c (.head _))] at hmake hrest
    rcases ih (fun x hx => hcs x (.tail _ hx)) hrest q hq with hold | hway
    · -- the directory of this component, or an old one
      unfold makeDir at hmake
      split_ifs at hmake
      · rw [← Except.ok.inj hmake] at hold
        exact .inl hold
      · rw [← Except.ok.inj hmake] at hold
        simp only [isDir, Bool.or_eq_true, decide_eq_true_eq, List.mem_cons] at hold ⊢
        rcases hold with hnil | rfl | hold
        · exact .inl (.inl hnil)
        · exact .inr ⟨cs, by simp⟩
        · exact .inl (.inr hold)
    · rw [List.append_assoc] at hway
      exact .inr hway

theorem makeDirs_extends {cs : List Text} : ∀ {d d' : Disk β} {p : Path},
    d.makeDirs p cs = .ok d' → Extends d d' := by
  induction cs with
  | nil =>
    intro d d' p h
    cases h
    exact .refl d
  | cons c cs ih =>
    intro d d' p h
    obtain ⟨d₁, hmake, hrest⟩ := of_bind h
    exact (makeDir_extends hmake).trans (ih hrest)

/-- **Writing a plain path** changes the file there and no other. -/
theorem write_plain (h : Plain p) (hw : d.write p b = .ok d') : d'.files = d.files.set p b
      ∧ (∀ q, d'.isDir q = true → d.isDir q = true ∨ q <+: p.dropLast)
      ∧ (∀ q, d.isDir q = true → d'.isDir q = true) ∧ (d.Wf → d'.Wf) := by
  obtain ⟨d₁, hmake, hrest⟩ := of_bind hw
  obtain ⟨r, hwalk, hset⟩ := of_bind hrest
  have hbef := (walk_plain h).2.mp ⟨r, hwalk⟩
  obtain rfl := (walk_plain h).1 r hwalk
  have hext := makeDirs_extends hmake
  split_ifs at hset with hdir
  rw [← Except.ok.inj hset, ← hext.files]
  have hdirs := makeDirs_dirs (fun c hc => h c (List.dropLast_subset r hc)) hmake
  refine ⟨rfl, hdirs, hext.dirs, fun hwf q c hq => ?_⟩
  rw [Dict.get?_set] at hq
  split_ifs at hq with hpq
  · subst hpq
    exact ⟨Bool.not_eq_true _ ▸ hdir, hbef⟩
  · rw [hext.files] at hq
    obtain ⟨hfile, hdirs⟩ := hwf q c hq
    refine ⟨Bool.eq_false_iff.mpr fun hnew => ?_, fun x hx hne => hext.dirs x (hdirs x hx hne)⟩
    rcases hext.fresh q hnew with hold | hnone
    · rw [hfile] at hold
      cases hold
    · rw [hq] at hnone
      cases hnone

/-- **Removing a plain path** leaves the other files. -/
theorem unlink_plain (h : Plain p) (hu : d.unlink p = .ok d') :
    d'.dirs = d.dirs ∧ (∀ q, q ≠ p → d'.files.get? q = d.files.get? q)
      ∧ (d.Wf → d'.Wf ∧ d'.files.get? p = none) := by
  unfold unlink at hu
  rcases hwalk : d.walk p with err | r
  · rw [hwalk] at hu
    cases err with
    | missing =>
      cases hu
      refine ⟨rfl, fun q _ => rfl, fun hwf => ⟨hwf, ?_⟩⟩
      -- a file there would have been found
      rcases hget : d.files.get? p with - | b
      · rfl
      · obtain ⟨r, hr⟩ := (walk_plain h).2.mpr (hwf p b hget).2
        rw [hwalk] at hr
        cases hr
    | notDirectory => cases hu
    | isDirectory => cases hu
  · obtain rfl := (walk_plain h).1 r hwalk
    simp only [hwalk] at hu
    split_ifs at hu with hdir
    cases hu
    refine ⟨rfl, fun q hne => ?_, fun hwf => ⟨fun q c hq => ?_, ?_⟩⟩
    · rw [Dict.get?_erase, if_neg hne]
    · rw [Dict.get?_erase] at hq
      split_ifs at hq
      exact hwf q c hq
    · rw [Dict.get?_erase, if_pos rfl]

/-- Steps at other places leave a file; one that writes it leaves what it writes. -/
theorem steps_get? {l : List (Step β)} (h : ∀ s ∈ l, (Plain s.path ∧ s.path ≠ p) ∨ Plain p ∧ s = .write p b) :
    ∀ d : Disk β, (d.steps l).1.files.get? p = d.files.get? p ∨ (d.steps l).1.files.get? p = some b := by
  induction l with
  | nil => exact fun d => .inl rfl
  | cons s rest ih =>
    intro d
    rw [steps]
    rcases hstep : d.step s with err | d₁
    · exact .inl rfl
    · -- what the first step leaves of the file
      have hfst : d₁.files.get? p = d.files.get? p ∨ d₁.files.get? p = some b := by
        rcases h s (.head _) with ⟨hpl, hne⟩ | ⟨hpl, rfl⟩
        · cases s with
          | write path content =>
            rw [(write_plain hpl hstep).1, Dict.get?_set_ne hne]
            exact .inl rfl
          | unlink path => exact .inl ((unlink_plain hpl hstep).2.1 p hne.symm)
        · rw [(write_plain hpl hstep).1]
          exact .inr Dict.get?_set_self
      rcases ih (fun s' hs' => h s' (.tail _ hs')) d₁ with hsame | hnew
      · exact hfst.imp hsame.trans hsame.trans
      · exact .inr hnew

/-- A file that could be read can be replaced. -/
theorem write_of_dirs (h : Plain p) (hdir : d.isDir p = false)
    (hbef : ∀ q, q <+: p → q ≠ p → d.isDir q = true) : ∃ d', d.write p b = .ok d' := by
  have hmake : ∀ (cs : List Text) (q : Path), Plain cs → (∀ r, r <+: q ++ cs → d.isDir r = true) →
      d.makeDirs q cs = .ok d := by
    intro cs
    induction cs with
    | nil => exact fun _ _ _ => rfl
    | cons c cs ih =>
      intro q hcs hdirs
      have hc := hcs c (.head _)
      have hstep : d.makeDir (follow q c) = .ok d := by
        rw [follow_plain hc, makeDir, if_pos (hdirs _ ⟨cs, by simp⟩)]
      rw [makeDirs, hstep]
      rw [follow_plain hc]
      exact ih _ (fun x hx => hcs x (.tail _ hx)) fun r hr =>
        hdirs r (by rwa [List.append_cons])
  have hparents : d.makeDirs [] p.dropLast = .ok d := by
    refine hmake _ _ (fun c hc => h c (List.dropLast_subset p hc)) fun r hr => ?_
    rw [List.nil_append] at hr
    refine hbef r (hr.trans (List.dropLast_prefix p)) ?_
    rintro rfl
    have hlen := hr.length_le
    rw [List.length_dropLast] at hlen
    obtain rfl : r = [] := List.eq_nil_of_length_eq_zero (by omega)
    cases hdir
  obtain ⟨r, hwalk⟩ := (walk_plain h).2.mpr hbef
  obtain rfl := (walk_plain h).1 r hwalk
  refine ⟨{ d with files := d.files.set r b }, ?_⟩
  rw [write, hparents]
  change (d.walk r >>= _) = _
  rw [hwalk]
  exact if_neg (by rw [hdir]; exact Bool.false_ne_true)

theorem unlink_of_dirs (h : Plain p) (hdir : d.isDir p = false)
    (hbef : ∀ q, q <+: p → q ≠ p → d.isDir q = true) : ∃ d', d.unlink p = .ok d' := by
  obtain ⟨r, hwalk⟩ := (walk_plain h).2.mpr hbef
  obtain rfl := (walk_plain h).1 r hwalk
  refine ⟨{ d with files := d.files.erase r }, ?_⟩
  rw [unlink, hwalk]
  exact if_neg (by rw [hdir]; exact Bool.false_ne_true)

end Disk

end Py
