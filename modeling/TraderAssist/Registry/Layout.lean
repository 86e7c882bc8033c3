/-
TraderAssist/Registry/Layout.lean

What the files of a Registry are, as long as version names are file names.

`Layout` says where each file lies and what it holds: a version under its own name, and
everything else a binding of a stored version.  In such a state the accessors are simple
(`active_iff`, `pendingVersion_iff`, `mem_records`).  Every durable step of every call is
one of six (`FileStep`), whatever the call and wherever it stops (`call_fileSteps`), and
each of them keeps the layout (`FileStep.layout`).
-/
import TraderAssist.Registry.Manager

namespace TraderAssist

open Py Relation

variable {δ : Type} {stamp : Text}

namespace RegistryRoot

variable (R : RegistryRoot δ)

/-! ### Names and paths -/

/-- A version name that is a file name. -/
def SafeName (name : Text) : Prop := '/' ∉ name

instance (name : Text) : Decidable (SafeName name) := inferInstanceAs (Decidable (¬ _))

def versionFile (name : Text) : Path := R.path ++ ["versions".toList, jsonName name]

def validationFile (name : Text) : Path := R.path ++ ["validations".toList, jsonName name]

def recordFile (stamp name : Text) : Path := R.path ++ ["history".toList, jsonName (stamp ++ '-' :: name)]

/-- A stamp of a history record. -/
def Stamp (stamp : Text) : Prop := stamp.length = 16 ∧ '/' ∉ stamp

variable {R} {name : Text}

theorem jsonName_injective : Function.Injective jsonName := List.append_left_injective _

theorem slash_not_mem_jsonName (h : SafeName name) : '/' ∉ jsonName name := by
  rw [jsonName, List.mem_append, not_or]
  exact ⟨h, by decide⟩

theorem plainName_jsonName (h : SafeName name) : PlainName (jsonName name) := by
  have hlen : 5 ≤ (jsonName name).length := by simp [jsonName]
  refine ⟨?_, ?_, ?_, slash_not_mem_jsonName h⟩ <;> intro heq <;> rw [heq] at hlen <;>
    exact absurd hlen (by decide)

theorem plain_entry {dir file : Text} (hdir : PlainName dir) (hfile : PlainName file) :
    Plain (R.path ++ [dir, file]) := by
  refine R.path_plain.append fun c hc => ?_
  rcases List.mem_pair.mp hc with rfl | rfl
  · exact hdir
  · exact hfile

theorem plain_versionFile (h : SafeName name) : Plain (R.versionFile name) :=
  plain_entry (by decide) (plainName_jsonName h)

theorem plain_validationFile (h : SafeName name) : Plain (R.validationFile name) :=
  plain_entry (by decide) (plainName_jsonName h)

theorem safe_record (hstm : Stamp stamp) (h : SafeName name) :
    SafeName (stamp ++ '-' :: name) := by
  rw [SafeName, List.mem_append, List.mem_cons]
  rintro (hs | hd | hn)
  · exact hstm.2 hs
  · cases hd
  · exact h hn

theorem plain_recordFile (hstm : Stamp stamp) (h : SafeName name) :
    Plain (R.recordFile stamp name) :=
  plain_entry (by decide) (plainName_jsonName (safe_record hstm h))

theorem plain_pointer : Plain R.pointer := R.path_plain.append (plain_singleton (by decide))

theorem plain_pending : Plain R.pending := R.path_plain.append (plain_singleton (by decide))

theorem plain_history : Plain R.history := R.path_plain.append (plain_singleton (by decide))

theorem versionPath_eq (h : SafeName name) : R.versionPath name = R.versionFile name := by
  rw [versionPath, joinPath_plain (slash_not_mem_jsonName h), List.append_assoc]
  rfl

theorem validationPath_eq (h : SafeName name) : R.validationPath name = R.validationFile name := by
  rw [validationPath, joinPath_plain (slash_not_mem_jsonName h), List.append_assoc]
  rfl

theorem historyPath_eq (hstm : Stamp stamp) (h : SafeName name) :
    R.historyPath stamp name = R.recordFile stamp name := by
  rw [historyPath, joinPath_plain (slash_not_mem_jsonName (safe_record hstm h)), history, List.append_assoc]
  rfl

theorem recordFile_injective {stamp stamp' name' : Text} (hstm : Stamp stamp)
    (hstm' : Stamp stamp') (h : R.recordFile stamp name = R.recordFile stamp' name') :
    stamp = stamp' ∧ name = name' := by
  simp only [recordFile, List.append_cancel_left_eq, List.cons.injEq, and_true, true_and] at h
  obtain ⟨hs, hn⟩ := List.append_inj (jsonName_injective h) (hstm.1.trans hstm'.1.symm)
  exact ⟨hs, (List.cons.inj hn).2⟩

theorem stamp_compactText (time : Datetime) : Stamp time.compactText :=
  ⟨time.length_compactText, time.slash_not_mem_compactText⟩

/-- A record carries the name of its version after the stamp. -/
theorem isRecordOf_iff {stamp version : Text} (hstm : Stamp stamp) :
    isRecordOf version (jsonName (stamp ++ '-' :: name)) = true ↔ name = version := by
  have hdrop : (jsonName (stamp ++ '-' :: name)).drop 16 = '-' :: jsonName name := by
    rw [jsonName, List.append_assoc, ← hstm.1, List.drop_left]
    rfl
  have hlen : 17 < (jsonName (stamp ++ '-' :: name)).length := by
    simp [jsonName, hstm.1]
    omega
  have hsuffix : ".json".toList.isSuffixOf (jsonName (stamp ++ '-' :: name)) = true :=
    List.isSuffixOf_iff_suffix.mpr (List.suffix_append _ _)
  rw [isRecordOf, hsuffix, decide_eq_true hlen, hdrop, Bool.true_and, Bool.true_and,
    decide_eq_true_eq, List.cons.injEq]
  exact ⟨fun h => jsonName_injective h.2, fun h => ⟨rfl, congrArg _ h⟩⟩

end RegistryRoot

/-! ### The layout -/

open RegistryRoot

/-- A version is stored under its name. -/
def Stored (R : RegistryRoot δ) (d : RegistryDisk δ) (v : RegistryVersion) : Prop :=
  d.files.get? (R.versionFile v.version) = some (.version v)

/-- What a file at a place holds. -/
inductive Placed (R : RegistryRoot δ) (d : RegistryDisk δ) : Path → RegistryFile δ → Prop
  | version (v : RegistryVersion) (hsafe : SafeName v.version) :
      Placed R d (R.versionFile v.version) (.version v)
  | validation (v : RegistryVersion) (hstored : Stored R d v) :
      Placed R d (R.validationFile v.version) (R.bindingFile v)
  | pointer (v : RegistryVersion) (hstored : Stored R d v)
      (hvalid : d.files.get? (R.validationFile v.version) = some (R.bindingFile v)) :
      Placed R d R.pointer (R.bindingFile v)
  | pending (v : RegistryVersion) (hstored : Stored R d v)
      (hvalid : d.files.get? (R.validationFile v.version) = some (R.bindingFile v)) :
      Placed R d R.pending (R.bindingFile v)
  | record (stamp : Text) (v : RegistryVersion) (hstamp : Stamp stamp) (hstored : Stored R d v) :
      Placed R d (R.recordFile stamp v.version) (R.bindingFile v)

structure Layout (R : RegistryRoot δ) (d : RegistryDisk δ) : Prop where
  wf : d.Wf
  placed : ∀ p file, d.files.get? p = some file → Placed R d p file
  dirs : ∀ q, d.isDir q = true →
    q <+: R.path ∨ q ∈ ["versions", "validations", "history"].map fun dir => R.path ++ [dir.toList]

namespace Layout

variable {R : RegistryRoot δ} {d d' : RegistryDisk δ} {v : RegistryVersion} {file : RegistryFile δ}

theorem start : Layout R ({} : RegistryDisk δ) := by
  refine ⟨nofun, nofun, fun q hq => .inl ?_⟩
  have hnil : q = [] := by simpa [Disk.isDir] using hq
  rw [hnil]
  exact List.nil_prefix

/-! ### What is read -/

theorem at_version {name : Text} (h : Placed R d (R.versionFile name) file) :
    ∃ v, file = .version v ∧ v.version = name ∧ SafeName name := by
  generalize hp : R.versionFile name = p at h
  cases h with
  | version v hsafe =>
    simp only [versionFile, List.append_cancel_left_eq, List.cons.injEq, and_true, true_and] at hp
    obtain rfl := jsonName_injective hp
    exact ⟨v, rfl, rfl, hsafe⟩
  | validation => simp [versionFile, validationFile] at hp
  | pointer => simp [versionFile, pointer] at hp
  | pending => simp [versionFile, pending] at hp
  | record => simp [versionFile, recordFile] at hp

theorem at_pointer (h : Placed R d R.pointer file) : ∃ v, file = R.bindingFile v ∧ Stored R d v
    ∧ d.files.get? (R.validationFile v.version) = some (R.bindingFile v) := by
  generalize hp : R.pointer = p at h
  cases h with
  | version => simp [versionFile, pointer] at hp
  | validation => simp [validationFile, pointer] at hp
  | pointer v hst hval => exact ⟨v, rfl, hst, hval⟩
  | pending => simp [pending, pointer] at hp
  | record => simp [recordFile, pointer] at hp

theorem at_pending (h : Placed R d R.pending file) : ∃ v, file = R.bindingFile v ∧ Stored R d v
    ∧ d.files.get? (R.validationFile v.version) = some (R.bindingFile v) := by
  generalize hp : R.pending = p at h
  cases h with
  | version => simp [versionFile, pending] at hp
  | validation => simp [validationFile, pending] at hp
  | pointer => simp [pending, pointer] at hp
  | pending v hst hval => exact ⟨v, rfl, hst, hval⟩
  | record => simp [recordFile, pending] at hp

theorem at_history {name : Text} (h : Placed R d (R.history ++ [name]) file) :
    ∃ stamp v, file = R.bindingFile v ∧ Stored R d v ∧ Stamp stamp
      ∧ name = jsonName (stamp ++ '-' :: v.version) := by
  generalize hp : R.history ++ [name] = p at h
  cases h with
  | version => simp [versionFile, history] at hp
  | validation => simp [validationFile, history] at hp
  | pointer => simp [history, pointer] at hp
  | pending => simp [history, pending] at hp
  | record stamp v hstm hst =>
    refine ⟨stamp, v, rfl, hst, hstm, ?_⟩
    simpa [history, recordFile] using hp

theorem safe (L : Layout R d) (hst : Stored R d v) : SafeName v.version := by
  obtain ⟨_, _, _, hsafe⟩ := at_version (L.placed _ _ hst)
  exact hsafe

theorem stored_unique {w : RegistryVersion} (hv : Stored R d v) (hw : Stored R d w)
    (hname : v.version = w.version) : v = w := by
  rw [Stored, hname, hw] at hv
  injection hv with hfile
  injection hfile with hvw
  exact hvw.symm

/-- Whatever the name, what is loaded is a stored version. -/
theorem stored_of_load (L : Layout R d) {name : Text} (h : R.loadVersion d name = .ok v) : Stored R d v := by
  unfold loadVersion at h
  rcases hread : d.read (R.versionPath name) with err | file
  · rw [hread] at h
    cases err <;> cases h
  · obtain ⟨p, -, -, hget⟩ := Disk.get?_of_read hread
    rw [hread] at h
    -- a file that holds a version lies under the name of the version
    cases L.placed p file hget with
    | version w hsafe =>
      cases h
      exact hget
    | validation => cases h
    | pointer => cases h
    | pending => cases h
    | record => cases h

theorem load_of_stored (L : Layout R d) (hst : Stored R d v) : R.loadVersion d v.version = .ok v := by
  have hsafe := L.safe hst
  rw [loadVersion, versionPath_eq hsafe, Disk.read_of_get? L.wf (plain_versionFile hsafe) hst]

theorem not_dir (L : Layout R d) {name : Text}
    (hname : name ∉ ["versions", "validations", "history"].map String.toList) :
    d.isDir (R.path ++ [name]) = false := by
  refine Bool.eq_false_iff.mpr fun hdir => ?_
  rcases L.dirs _ hdir with hway | hmem
  · have hlen := hway.length_le
    simp at hlen
  · simp only [List.map_cons, List.map_nil, List.mem_cons, List.not_mem_nil, or_false,
      List.append_cancel_left_eq, List.cons.injEq, and_true] at hmem hname
    exact hname hmem

/-- A file next to the directories is there exactly if it exists. -/
theorem exists_iff (L : Layout R d) {name : Text} (hpl : PlainName name)
    (hname : name ∉ ["versions", "validations", "history"].map String.toList) :
    d.exists_ (R.path ++ [name]) = true ↔ ∃ file, d.files.get? (R.path ++ [name]) = some file := by
  have hp : Plain (R.path ++ [name]) := R.path_plain.append (plain_singleton hpl)
  constructor
  · intro h
    rcases Disk.exists_plain hp h with hdir | hfile
    · rw [L.not_dir hname] at hdir
      cases hdir
    · exact hfile
  · rintro ⟨file, hget⟩
    exact Disk.exists_of_get? L.wf hp hget

theorem exists_pointer (L : Layout R d) :
    d.exists_ R.pointer = true ↔ ∃ file, d.files.get? R.pointer = some file :=
  @exists_iff _ _ _ L "current.json".toList (by decide) (by decide)

theorem exists_pending (L : Layout R d) :
    d.exists_ R.pending = true ↔ ∃ file, d.files.get? R.pending = some file :=
  @exists_iff _ _ _ L "pending.json".toList (by decide) (by decide)

section Decidable

variable [DecidableEq δ]

theorem active_of_pointer (L : Layout R d) (hget : d.files.get? R.pointer = some (R.bindingFile v))
    (hst : Stored R d v) : R.active d = .ok (some v) := by
  rw [active, if_pos (L.exists_pointer.mpr ⟨_, hget⟩), Disk.read_of_get? L.wf plain_pointer hget]
  show (R.loadVersion d v.version >>= fun a =>
    if R.content v = R.content a then .ok (some a) else .error .pointerMismatch) = _
  rw [L.load_of_stored hst]
  exact if_pos rfl

theorem active_none (L : Layout R d) (hget : d.files.get? R.pointer = none) : R.active d = .ok none := by
  refine if_neg fun h => ?_
  obtain ⟨file, hfile⟩ := L.exists_pointer.mp h
  rw [hget] at hfile
  cases hfile

/-- **`active` in a layout**: the version the pointer names, if there is one. -/
theorem active_iff (L : Layout R d) :
    R.active d = .ok (some v) ↔ d.files.get? R.pointer = some (R.bindingFile v) ∧ Stored R d v := by
  refine ⟨fun h => ?_, fun h => L.active_of_pointer h.1 h.2⟩
  rcases hget : d.files.get? R.pointer with - | file
  · rw [L.active_none hget] at h
    cases h
  · obtain ⟨w, rfl, hst, -⟩ := at_pointer (L.placed _ _ hget)
    rw [L.active_of_pointer hget hst] at h
    obtain rfl : w = v := Option.some.inj (Except.ok.inj h)
    exact ⟨rfl, hst⟩

theorem active_isOk (L : Layout R d) : ∃ a, R.active d = .ok a := by
  rcases hget : d.files.get? R.pointer with - | file
  · exact ⟨none, L.active_none hget⟩
  · obtain ⟨w, rfl, hst, -⟩ := at_pointer (L.placed _ _ hget)
    exact ⟨some w, L.active_of_pointer hget hst⟩

theorem validated_iff (L : Layout R d) (hst : Stored R d v) : R.assertPriorValidation d v = .ok ()
      ↔ d.files.get? (R.validationFile v.version) = some (R.bindingFile v) := by
  have hsafe := L.safe hst
  rw [assertPriorValidation, validationPath_eq hsafe]
  constructor
  · intro h
    rcases hread : d.read (R.validationFile v.version) with err | file
    · rw [hread] at h
      cases h
    · rw [hread] at h
      dsimp only at h
      split_ifs at h with hfile
      rw [(Disk.read_plain (plain_validationFile hsafe) hread).1, hfile]
  · intro h
    rw [Disk.read_of_get? L.wf (plain_validationFile hsafe) h]
    exact if_pos rfl

theorem pendingVersion_of_pending (L : Layout R d)
    (hget : d.files.get? R.pending = some (R.bindingFile v)) (hst : Stored R d v)
    (hval : d.files.get? (R.validationFile v.version) = some (R.bindingFile v)) :
    R.pendingVersion d = .ok (some v) := by
  rw [pendingVersion, if_pos (L.exists_pending.mpr ⟨_, hget⟩), Disk.read_of_get? L.wf plain_pending hget]
  show (R.loadVersion d v.version >>= fun a => if R.content v = R.content a then do
      let _ ← R.assertPriorValidation d a
      .ok (some a)
    else .error .pendingMismatch) = _
  rw [L.load_of_stored hst]
  show (if R.content v = R.content v then R.assertPriorValidation d v >>= fun _ => .ok (some v)
    else .error .pendingMismatch) = Except.ok (some v)
  rw [if_pos rfl, (L.validated_iff hst).mpr hval]
  rfl

theorem pendingVersion_none (L : Layout R d) (hget : d.files.get? R.pending = none) :
    R.pendingVersion d = .ok none := by
  refine if_neg fun h => ?_
  obtain ⟨file, hfile⟩ := L.exists_pending.mp h
  rw [hget] at hfile
  cases hfile

/-- **`pending_version` in a layout**: the version the pending pointer names, if there is
one; its validation is there. -/
theorem pendingVersion_spec (L : Layout R d) (h : R.pendingVersion d = .ok (some v)) :
    d.files.get? R.pending = some (R.bindingFile v) ∧ Stored R d v := by
  rcases hget : d.files.get? R.pending with - | file
  · rw [L.pendingVersion_none hget] at h
    cases h
  · obtain ⟨w, rfl, hst, hval⟩ := at_pending (L.placed _ _ hget)
    rw [L.pendingVersion_of_pending hget hst hval] at h
    obtain rfl : w = v := Option.some.inj (Except.ok.inj h)
    exact ⟨rfl, hst⟩

theorem pendingVersion_isOk (L : Layout R d) : ∃ a, R.pendingVersion d = .ok a := by
  rcases hget : d.files.get? R.pending with - | file
  · exact ⟨none, L.pendingVersion_none hget⟩
  · obtain ⟨w, rfl, hst, hval⟩ := at_pending (L.placed _ _ hget)
    exact ⟨some w, L.pendingVersion_of_pending hget hst hval⟩

end Decidable

/-- **History records in a layout**: the file of a version's record, with its binding. -/
theorem priorHistoryRecord_spec (L : Layout R d) {version : Text} {record : List Text}
    (h : R.priorHistoryRecord d version = some record) :
    ∃ stamp w, w.version = version ∧ Stored R d w ∧ Stamp stamp
      ∧ record = R.recordFile stamp version ∧ d.files.get? record = some (R.bindingFile w) := by
  unfold priorHistoryRecord at h
  split_ifs at h
  obtain ⟨name, hfind, rfl⟩ := Option.map_eq_some_iff.mp h
  have hrec := List.find?_some hfind
  rcases Disk.mem_entries.mp (List.mem_of_find?_eq_some hfind) with hdir | ⟨file, hget⟩
  · -- there are no directories below
    have hisDir : d.isDir (R.history ++ [name]) = true := by simp [Disk.isDir, hdir]
    rcases L.dirs _ hisDir with hway | hmem
    · have hlen := hway.length_le
      simp [history] at hlen
    · simp [history] at hmem
  · obtain ⟨stamp, w, rfl, hst, hstm, rfl⟩ := at_history (L.placed _ _ hget)
    obtain rfl := (isRecordOf_iff hstm).mp hrec
    exact ⟨stamp, w, rfl, hst, hstm, by simp [history, recordFile], hget⟩

/-- A record of a version is found. -/
theorem priorHistoryRecord_of_record (L : Layout R d) (hstm : Stamp stamp) (hst : Stored R d v)
    (hget : d.files.get? (R.recordFile stamp v.version) = some (R.bindingFile v)) :
    ∃ record, R.priorHistoryRecord d v.version = some record
      ∧ d.files.get? record = some (R.bindingFile v) := by
  have hpath : R.recordFile stamp v.version = R.history ++ [jsonName (stamp ++ '-' :: v.version)] := by
    simp [history, recordFile]
  have hdir : d.exists_ R.history = true := by
    obtain ⟨-, hdirs⟩ := L.wf _ _ hget
    have hhist : d.isDir R.history = true := by
      refine hdirs _ (hpath ▸ List.prefix_append _ _) fun heq => ?_
      rw [hpath] at heq
      simpa using congrArg List.length heq
    obtain ⟨r, hwalk⟩ := (Disk.walk_plain plain_history).2.mpr fun q hq hne =>
      hdirs q (hq.trans (hpath ▸ List.prefix_append _ _)) fun heq => by
        have hlen := hq.length_le
        rw [heq, hpath] at hlen
        simp at hlen
    obtain rfl := (Disk.walk_plain plain_history).1 r hwalk
    rw [Disk.exists_, hwalk]
    exact Bool.or_eq_true_iff.mpr (.inl hhist)
  have hent := Disk.mem_entries.mpr (.inr ⟨_, hpath ▸ hget⟩)
  rcases hrec : R.priorHistoryRecord d v.version with - | record
  · rw [priorHistoryRecord, if_pos hdir, Option.map_eq_none_iff, List.find?_eq_none] at hrec
    exact absurd ((isRecordOf_iff hstm).mpr rfl) (hrec _ hent)
  · obtain ⟨-, w, hname, hw, -, -, hfile⟩ := L.priorHistoryRecord_spec hrec
    rw [stored_unique hw hst hname] at hfile
    exact ⟨record, rfl, hfile⟩

end Layout

/-! ### Durable steps -/

/-- A record of a version is among the files. -/
def Recorded (R : RegistryRoot δ) (d : RegistryDisk δ) (v : RegistryVersion) : Prop :=
  ∃ stamp, Stamp stamp ∧ d.files.get? (R.recordFile stamp v.version) = some (R.bindingFile v)

/-- The durable steps: a new version, the validation of a stored one, the proposal of a
validated one, the record of the active one, the switch to the proposed one once the active
one is recorded, and the end of a proposal. -/
inductive FileStep (R : RegistryRoot δ) (d d' : RegistryDisk δ) : Prop
  | version (v : RegistryVersion) (hsafe : SafeName v.version)
      (hnew : d.files.get? (R.versionFile v.version) = none)
      (hwrite : d.write (R.versionFile v.version) (.version v) = .ok d')
  | validation (v : RegistryVersion) (hstored : Stored R d v)
      (hwrite : d.write (R.validationFile v.version) (R.bindingFile v) = .ok d')
  | pending (v : RegistryVersion) (hstored : Stored R d v)
      (hvalid : d.files.get? (R.validationFile v.version) = some (R.bindingFile v))
      (hwrite : d.write R.pending (R.bindingFile v) = .ok d')
  | record (stamp : Text) (v : RegistryVersion) (hstamp : Stamp stamp) (hstored : Stored R d v)
      (hactive : d.files.get? R.pointer = some (R.bindingFile v))
      (hwrite : d.write (R.recordFile stamp v.version) (R.bindingFile v) = .ok d')
  | pointer (v : RegistryVersion) (hstored : Stored R d v)
      (hpending : d.files.get? R.pending = some (R.bindingFile v))
      (hrecord : ∀ a, d.files.get? R.pointer = some (R.bindingFile a) → Stored R d a → Recorded R d a)
      (hwrite : d.write R.pointer (R.bindingFile v) = .ok d')
  | done (hunlink : d.unlink R.pending = .ok d')

/-- Stored versions, their validations and the records stay. -/
structure Keeps (R : RegistryRoot δ) (d d' : RegistryDisk δ) : Prop where
  stored : ∀ v, Stored R d v → Stored R d' v
  validated : ∀ v, Stored R d v →
    d.files.get? (R.validationFile v.version) = some (R.bindingFile v) →
    d'.files.get? (R.validationFile v.version) = some (R.bindingFile v)
  recorded : ∀ stamp v, Stamp stamp → Stored R d v →
    d.files.get? (R.recordFile stamp v.version) = some (R.bindingFile v) →
    d'.files.get? (R.recordFile stamp v.version) = some (R.bindingFile v)

variable {R : RegistryRoot δ} {d d' : RegistryDisk δ} {v : RegistryVersion} {file : RegistryFile δ}

theorem Placed.mono (h : Keeps R d d') {p : Path} (hp : Placed R d p file) :
    Placed R d' p file := by
  cases hp with
  | version v hsafe => exact .version v hsafe
  | validation v hst => exact .validation v (h.stored v hst)
  | pointer v hst hval => exact .pointer v (h.stored v hst) (h.validated v hst hval)
  | pending v hst hval => exact .pending v (h.stored v hst) (h.validated v hst hval)
  | record stamp v hstm hst => exact .record stamp v hstm (h.stored v hst)

/-- A write of another file, or of what is there already, keeps the rest. -/
theorem Keeps.of_set {p : Path} (hfiles : d'.files = d.files.set p file)
    (hver : ∀ v, Stored R d v → p = R.versionFile v.version → file = .version v)
    (hval : ∀ v, Stored R d v → p = R.validationFile v.version → file = R.bindingFile v)
    (hrec : ∀ stamp v, Stamp stamp → Stored R d v → p = R.recordFile stamp v.version →
      file = R.bindingFile v) : Keeps R d d' := by
  have hset : ∀ q b, d.files.get? q = some b → (p = q → file = b) → d'.files.get? q = some b := by
    intro q b hq hsame
    rw [hfiles, Dict.get?_set]
    split_ifs with hpq
    · rw [hsame hpq]
    · exact hq
  exact ⟨fun v hv => hset _ _ hv (hver v hv), fun v hv hget => hset _ _ hget (hval v hv),
    fun stamp v hstm hv hget => hset _ _ hget (hrec stamp v hstm hv)⟩

theorem Layout.write (L : Layout R d) {p : Path} (hpl : Plain p)
    (hpar : p.dropLast <+: R.path
      ∨ p.dropLast ∈ ["versions", "validations", "history"].map fun dir => R.path ++ [dir.toList])
    (hwr : d.write p file = .ok d') (hkp : Keeps R d d') (hplaced : Placed R d' p file) : Layout R d' := by
  obtain ⟨hfiles, hnew, -, hwf⟩ := Disk.write_plain hpl hwr
  refine ⟨hwf L.wf, ?_, fun q hq => ?_⟩
  · rw [hfiles]
    exact Dict.forall_get?_set (fun q b hq => (L.placed q b hq).mono hkp) hplaced
  · rcases hnew q hq with hold | hway
    · exact L.dirs q hold
    · -- a directory on the way to the file
      rcases hpar with hroot | hdir
      · exact .inl (hway.trans hroot)
      · obtain ⟨dir, hmem, heq⟩ := List.mem_map.mp hdir
        rw [← heq] at hway
        rcases List.prefix_concat_iff.mp hway with rfl | hbef
        · exact .inr (List.mem_map.mpr ⟨dir, hmem, rfl⟩)
        · exact .inl hbef

/-- **Every durable step keeps what is stored, validated and recorded.** -/
theorem FileStep.keeps (L : Layout R d) (h : FileStep R d d') : Keeps R d d' := by
  cases h with
  | version v hsafe hnew hwr =>
    refine .of_set (Disk.write_plain (plain_versionFile hsafe) hwr).1 (fun w hw hp => ?_)
      (fun w _ hp => ?_) fun stamp w _ _ hp => ?_
    · rw [Stored, ← hp, hnew] at hw
      cases hw
    · simp [versionFile, validationFile] at hp
    · simp [versionFile, recordFile] at hp
  | validation v hst hwr =>
    refine .of_set (Disk.write_plain (plain_validationFile (L.safe hst)) hwr).1
      (fun w _ hp => ?_) (fun w hw hp => ?_) fun stamp w _ _ hp => ?_
    · simp [versionFile, validationFile] at hp
    · simp only [validationFile, List.append_cancel_left_eq, List.cons.injEq, and_true, true_and] at hp
      rw [Layout.stored_unique hst hw (jsonName_injective hp)]
    · simp [validationFile, recordFile] at hp
  | pending v hst hval hwr =>
    refine .of_set (Disk.write_plain plain_pending hwr).1 (fun w _ hp => ?_) (fun w _ hp => ?_)
      fun stamp w _ _ hp => ?_
    · simp [versionFile, RegistryRoot.pending] at hp
    · simp [validationFile, RegistryRoot.pending] at hp
    · simp [recordFile, RegistryRoot.pending] at hp
  | record stamp v hstm hst hact hwr =>
    refine .of_set (Disk.write_plain (plain_recordFile hstm (L.safe hst)) hwr).1
      (fun w _ hp => ?_) (fun w _ hp => ?_) fun stamp' w hstm' hw hp => ?_
    · simp [versionFile, recordFile] at hp
    · simp [validationFile, recordFile] at hp
    · rw [Layout.stored_unique hst hw (recordFile_injective hstm hstm' hp).2]
  | pointer v hst hpend hrec hwr =>
    refine .of_set (Disk.write_plain plain_pointer hwr).1 (fun w _ hp => ?_) (fun w _ hp => ?_)
      fun stamp w _ _ hp => ?_
    · simp [versionFile, RegistryRoot.pointer] at hp
    · simp [validationFile, RegistryRoot.pointer] at hp
    · simp [recordFile, RegistryRoot.pointer] at hp
  | done hunl =>
    obtain ⟨-, hoth, -⟩ := Disk.unlink_plain plain_pending hunl
    refine ⟨fun w hw => ?_, fun w _ hget => ?_, fun stamp w _ _ hget => ?_⟩
    · exact (hoth _ (by simp [versionFile, RegistryRoot.pending])).trans hw
    · exact (hoth _ (by simp [validationFile, RegistryRoot.pending])).trans hget
    · exact (hoth _ (by simp [recordFile, RegistryRoot.pending])).trans hget

/-- **Every durable step keeps the layout.** -/
theorem FileStep.layout (L : Layout R d) (h : FileStep R d d') : Layout R d' := by
  have hkp := h.keeps L
  cases h with
  | version v hsafe hnew hwr =>
    refine L.write (plain_versionFile hsafe) ?_ hwr hkp (.version v hsafe)
    simp [versionFile, List.dropLast_append_of_ne_nil]
  | validation v hst hwr =>
    refine L.write (plain_validationFile (L.safe hst)) ?_ hwr hkp (.validation v (hkp.stored v hst))
    simp [validationFile, List.dropLast_append_of_ne_nil]
  | pending v hst hval hwr =>
    refine L.write plain_pending ?_ hwr hkp (.pending v (hkp.stored v hst) (hkp.validated v hst hval))
    simp [RegistryRoot.pending]
  | record stamp v hstm hst hact hwr =>
    refine L.write (plain_recordFile hstm (L.safe hst)) ?_ hwr hkp
      (.record stamp v hstm (hkp.stored v hst))
    simp [recordFile, List.dropLast_append_of_ne_nil]
  | pointer v hst hpend hrec hwr =>
    -- what is proposed is validated
    obtain ⟨w, hbind, hw, hval⟩ := Layout.at_pending (L.placed _ _ hpend)
    obtain rfl := Layout.stored_unique hst hw (RegistryFile.binding.inj hbind).1
    refine L.write plain_pointer ?_ hwr hkp (.pointer v (hkp.stored v hst) (hkp.validated v hst hval))
    simp [RegistryRoot.pointer]
  | done hunl =>
    obtain ⟨hdirs, hoth, hwf⟩ := Disk.unlink_plain plain_pending hunl
    refine ⟨(hwf L.wf).1, fun q b hq => ?_, fun q hq => ?_⟩
    · by_cases hp : q = R.pending
      · rw [hp, (hwf L.wf).2] at hq
        cases hq
      · rw [hoth q hp] at hq
        exact (L.placed q b hq).mono hkp
    · rw [Disk.isDir, hdirs] at hq
      exact L.dirs q hq

end TraderAssist
