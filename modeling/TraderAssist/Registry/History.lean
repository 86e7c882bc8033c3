/-
TraderAssist/Registry/History.lean

The history of a Registry over crashes.

A run is any list of calls, each of which may be cut off after any of its durable steps;
`Manager.fileStates` are all the states of the disk it goes through.  Along them
(`Epochs`): a version that was active and no longer is has a record, since the switch is
made only after the record (`FileStep.pointer`), and a record is made of the active version
only (`FileStep.record`).

A version name with a `/` is not a file name.  Its record lies in a directory of its own
below `history`, where `_prior_history_record` does not look (`record_not_found`).
-/
import TraderAssist.Registry.Steps

namespace TraderAssist

open Py RegistryRoot

variable {δ : Type} {R : RegistryRoot δ} {d d' d₀ : RegistryDisk δ} {v : RegistryVersion}

/-! ### Epochs -/

/-- The pointer names a stored version. -/
def Points (R : RegistryRoot δ) (d : RegistryDisk δ) (v : RegistryVersion) : Prop :=
  d.files.get? R.pointer = some (R.bindingFile v) ∧ Stored R d v

theorem Keeps.refl (d : RegistryDisk δ) : Keeps R d d :=
  ⟨fun _ h => h, fun _ _ h => h, fun _ _ _ _ h => h⟩

theorem Keeps.trans (h : Keeps R d₀ d) (h' : Keeps R d d') : Keeps R d₀ d' :=
  ⟨fun v hv => h'.stored v (h.stored v hv),
    fun v hv hget => h'.validated v (h.stored v hv) (h.validated v hv hget),
    fun stamp v hstm hv hget =>
      h'.recorded stamp v hstm (h.stored v hv) (h.recorded stamp v hstm hv hget)⟩

theorem Recorded.mono (h : Keeps R d d') (hst : Stored R d v) (hrec : Recorded R d v) : Recorded R d' v :=
  have ⟨stamp, hstm, hget⟩ := hrec
  ⟨stamp, hstm, h.recorded stamp v hstm hst hget⟩

/-- What a durable step changes: the pointer, once the version it named is recorded; the
record of the version the pointer names; or a file of another kind. -/
theorem FileStep.frame (L : Layout R d) (h : FileStep R d d') :
    ∃ p, (∀ q, p ≠ q → d'.files.get? q = d.files.get? q)
      ∧ ((p = R.pointer ∧ ∀ a, Points R d a → Recorded R d a)
        ∨ (∃ stamp v, p = R.recordFile stamp v.version ∧ Stamp stamp ∧ Points R d v)
        ∨ p ≠ R.pointer ∧ ∀ stamp name, p ≠ R.recordFile stamp name) := by
  have hset : ∀ {p : Path} {file : RegistryFile δ}, Plain p → d.write p file = .ok d' →
      ∀ q, p ≠ q → d'.files.get? q = d.files.get? q := by
    intro p file hpl hwr q hq
    rw [(Disk.write_plain hpl hwr).1, Dict.get?_set_ne hq]
  cases h with
  | version v hsafe hnew hwr =>
    refine ⟨_, hset (plain_versionFile hsafe) hwr, .inr (.inr ⟨?_, fun stamp name => ?_⟩)⟩
    · simp [versionFile, RegistryRoot.pointer]
    · simp [versionFile, recordFile]
  | validation v hst hwr =>
    refine ⟨_, hset (plain_validationFile (L.safe hst)) hwr, .inr (.inr ⟨?_, fun stamp name => ?_⟩)⟩
    · simp [validationFile, RegistryRoot.pointer]
    · simp [validationFile, recordFile]
  | pending v hst hval hwr =>
    refine ⟨_, hset plain_pending hwr, .inr (.inr ⟨?_, fun stamp name => ?_⟩)⟩
    · simp [RegistryRoot.pending, RegistryRoot.pointer]
    · simp [RegistryRoot.pending, recordFile]
  | record stamp v hstm hst hact hwr =>
    exact ⟨_, hset (plain_recordFile hstm (L.safe hst)) hwr,
      .inr (.inl ⟨stamp, v, rfl, hstm, hact, hst⟩)⟩
  | pointer v hst hpend hrec hwr =>
    exact ⟨_, hset plain_pointer hwr, .inl ⟨rfl, fun a ha => hrec a ha.1 ha.2⟩⟩
  | done hunl =>
    obtain ⟨-, hoth, -⟩ := Disk.unlink_plain plain_pending hunl
    refine ⟨_, fun q hq => hoth q hq.symm, .inr (.inr ⟨?_, fun stamp name => ?_⟩)⟩
    · simp [RegistryRoot.pending, RegistryRoot.pointer]
    · simp [RegistryRoot.pending, recordFile]

/-- The pointer moves only once the version it named is recorded. -/
theorem FileStep.pointer_cases (L : Layout R d) (h : FileStep R d d') :
    d'.files.get? R.pointer = d.files.get? R.pointer ∨ ∀ a, Points R d a → Recorded R d a := by
  obtain ⟨p, hoth, ⟨-, hrec⟩ | ⟨stamp, v, rfl, -, -⟩ | ⟨hne, -⟩⟩ := h.frame L
  · exact .inr hrec
  · exact .inl (hoth _ (by simp [recordFile, RegistryRoot.pointer]))
  · exact .inl (hoth _ hne)

/-- A new record is one of the version the pointer names. -/
theorem FileStep.record_cases (L : Layout R d) (h : FileStep R d d') {stamp : Text}
    (hstm : Stamp stamp) (hst : Stored R d' v)
    (hget : d'.files.get? (R.recordFile stamp v.version) = some (R.bindingFile v)) :
    (Stored R d v ∧ d.files.get? (R.recordFile stamp v.version) = some (R.bindingFile v)) ∨ Points R d v := by
  have hkp := h.keeps L
  -- a record that was there before is one of a version that was stored before
  have hold : d.files.get? (R.recordFile stamp v.version) = some (R.bindingFile v) → Stored R d v := by
    intro hbef
    have hpath : R.recordFile stamp v.version
        = R.history ++ [jsonName (stamp ++ '-' :: v.version)] := by simp [recordFile, history]
    obtain ⟨stamp', w, -, hw, hstm', hname⟩ := Layout.at_history (hpath ▸ L.placed _ _ hbef)
    have hrec : R.recordFile stamp v.version = R.recordFile stamp' w.version := by
      simp [recordFile, hname]
    have hsame := (recordFile_injective hstm hstm' hrec).2
    exact Layout.stored_unique hst (hkp.stored w hw) hsame ▸ hw
  obtain ⟨p, hoth, ⟨rfl, -⟩ | ⟨stamp', w, rfl, hstm', hw⟩ | ⟨-, hne⟩⟩ := h.frame L
  · rw [hoth _ (by simp [recordFile, RegistryRoot.pointer])] at hget
    exact .inl ⟨hold hget, hget⟩
  · by_cases hp : R.recordFile stamp' w.version = R.recordFile stamp v.version
    · have hsame := (recordFile_injective hstm' hstm hp).2
      exact .inr (Layout.stored_unique (hkp.stored w hw.2) hst hsame ▸ hw)
    · rw [hoth _ hp] at hget
      exact .inl ⟨hold hget, hget⟩
  · rw [hoth _ (hne stamp v.version)] at hget
    exact .inl ⟨hold hget, hget⟩

/-- What holds of a file state and those before it. -/
structure Epochs (R : RegistryRoot δ) (before : List (RegistryDisk δ)) (d : RegistryDisk δ) : Prop where
  layout : Layout R d
  keeps : ∀ d₀ ∈ before, Layout R d₀ ∧ Keeps R d₀ d
  superseded : ∀ d₀ ∈ before, ∀ v, Points R d₀ v → Points R d v ∨ Recorded R d v
  recorded : ∀ stamp v, Stamp stamp → Stored R d v →
    d.files.get? (R.recordFile stamp v.version) = some (R.bindingFile v) →
    ∃ d₀ ∈ before ++ [d], Points R d₀ v

theorem Epochs.start : Epochs R [] ({} : RegistryDisk δ) :=
  ⟨Layout.start, nofun, nofun, nofun⟩

/-- **A durable step continues the epochs.** -/
theorem Epochs.step {before : List (RegistryDisk δ)} (h : Epochs R before d)
    (hstep : FileStep R d d') : Epochs R (before ++ [d]) d' := by
  have hkp := hstep.keeps h.layout
  refine ⟨hstep.layout h.layout, forall_mem_snoc (fun d₀ hd₀ => ?_) ⟨h.layout, hkp⟩,
    fun d₀ hd₀ v hv => ?_, fun stamp v hstm hst hget => ?_⟩
  · exact ⟨(h.keeps d₀ hd₀).1, (h.keeps d₀ hd₀).2.trans hkp⟩
  · -- named before the step, or recorded already
    have hnow : Points R d v ∨ Stored R d v ∧ Recorded R d v := by
      rcases List.mem_append.mp hd₀ with hd₀ | hd₀
      · exact (h.superseded d₀ hd₀ v hv).imp id fun hrec => ⟨(h.keeps d₀ hd₀).2.stored v hv.2, hrec⟩
      · exact .inl (List.mem_singleton.mp hd₀ ▸ hv)
    rcases hnow with hpts | ⟨hst, hrec⟩
    · rcases hstep.pointer_cases h.layout with hsame | hrec
      · exact .inl ⟨hsame.trans hpts.1, hkp.stored v hpts.2⟩
      · exact .inr ((hrec v hpts).mono hkp hpts.2)
    · exact .inr (hrec.mono hkp hst)
  · rcases hstep.record_cases h.layout hstm hst hget with ⟨hold, hget'⟩ | hpts
    · obtain ⟨d₀, hd₀, hv⟩ := h.recorded stamp v hstm hold hget'
      exact ⟨d₀, List.mem_append_left _ hd₀, hv⟩
    · exact ⟨d, List.mem_append_left _ (by simp), hpts⟩

/-- Along a chain of durable steps. -/
theorem Epochs.chain {after : List (RegistryDisk δ)} : ∀ {before : List (RegistryDisk δ)}
    {d : RegistryDisk δ}, Epochs R before d → List.IsChain (FileStep R) (d :: after) →
    ∀ pre e post, d :: after = pre ++ e :: post → Epochs R (before ++ pre) e := by
  induction after with
  | nil =>
    intro before d h _ pre e post heq
    obtain ⟨rfl, rfl, rfl⟩ : pre = [] ∧ d = e ∧ post = [] := by
      cases pre <;> simp_all
    rwa [List.append_nil]
  | cons d' after ih =>
    intro before d h hch pre e post heq
    obtain ⟨hstep, hrest⟩ := List.isChain_cons_cons.mp hch
    cases pre with
    | nil =>
      obtain ⟨rfl, -⟩ := List.cons.inj heq
      rwa [List.append_nil]
    | cons first pre =>
      obtain ⟨rfl, htail⟩ := List.cons.inj heq
      have hnext := ih (h.step hstep) hrest pre e post htail
      rwa [List.append_assoc] at hnext

/-! ### Runs -/

variable [DecidableEq δ]

/-- The states of the disk during some calls, after each durable step. -/
def Manager.fileStates (R : RegistryRoot δ) : Manager δ → List (RegistryCall δ × Option ℕ) →
    List (RegistryDisk δ)
  | _, [] => []
  | m, c :: calls => m.callStates R c.1 c.2 ++ fileStates R (m.call R c.1 c.2).2 calls

theorem fileStates_chain {calls : List (RegistryCall δ × Option ℕ)} (hsafe : ∀ c ∈ calls, c.1.Safe) :
    ∀ {m : Manager δ}, Layout R m.disk → List.IsChain (FileStep R) (m.disk :: m.fileStates R calls) := by
  induction calls with
  | nil => exact fun _ => List.isChain_singleton _
  | cons c calls ih =>
    intro m L
    have hc := hsafe c (.head _)
    have hcall := callStates_chain L hc c.2
    have hrest := ih (fun c' hc' => hsafe c' (.tail _ hc')) (call_layout L hc c.2)
    rw [Manager.fileStates, ← List.cons_append, List.isChain_append]
    refine ⟨hcall, hrest.tail, fun x hx y hy => ?_⟩
    -- the call ends where the next one starts
    rw [Manager.last_callStates, Option.mem_some_iff] at hx
    rw [← hx]
    exact hrest.rel_head? hy

/-- **Crash-convergent history.**  Over any calls whose version names are file names, cut off
after any of their durable steps, in every file state: the accessors do not raise; a version
that was active in an earlier state and no longer is has a record with the pointer it had, and
`prior_active` returns it; a version with a record was active; and a version file stays as it
was written. -/
theorem registry_history_converges (calls : List (RegistryCall δ × Option ℕ))
    (hsafe : ∀ c ∈ calls, c.1.Safe) (before after : List (RegistryDisk δ)) (d : RegistryDisk δ)
    (hd : ({} : RegistryDisk δ) :: Manager.fileStates R {} calls = before ++ d :: after) :
    (∃ a, R.active d = .ok a) ∧ (∃ p, R.pendingVersion d = .ok p)
      ∧ (∀ d₀ ∈ before, ∀ v, R.active d₀ = .ok (some v) → R.active d ≠ .ok (some v) →
        R.priorActive d v.version = .ok (some v) ∧ ∃ record, R.priorHistoryRecord d v.version = some record
          ∧ d.read record = d₀.read R.pointer) ∧ (∀ name record, R.priorHistoryRecord d name = some record →
        ∃ d₀ ∈ before ++ [d], ∃ v, v.version = name ∧ R.active d₀ = .ok (some v))
      ∧ ∀ d₀ ∈ before, ∀ name, SafeName name → ∀ file, d₀.read (R.versionPath name) = .ok file →
        d.read (R.versionPath name) = .ok file := by
  have hchain := fileStates_chain (R := R) hsafe (m := {}) Layout.start
  have h := Epochs.chain Epochs.start hchain before d after hd
  have L := h.layout
  have hlayout : ∀ d₀ ∈ before ++ [d], Layout R d₀ :=
    forall_mem_snoc (fun d₀ hd₀ => (h.keeps d₀ hd₀).1) L
  refine ⟨L.active_isOk, L.pendingVersion_isOk, fun d₀ hd₀ v hv hnot => ?_, fun name record hrec => ?_,
    fun d₀ hd₀ name hname file hread => ?_⟩
  · obtain ⟨L₀, hkeeps⟩ := h.keeps d₀ hd₀
    have hpoints := L₀.active_iff.mp hv
    have hstored := hkeeps.stored v hpoints.2
    obtain ⟨stamp, hstamp, hget⟩ : Recorded R d v := by
      rcases h.superseded d₀ hd₀ v hpoints with hnow | hrec
      · exact absurd (L.active_iff.mpr hnow) hnot
      · exact hrec
    obtain ⟨record, hfound, hfile⟩ := L.priorHistoryRecord_of_record hstamp hstored hget
    refine ⟨?_, record, hfound, ?_⟩
    · rw [priorActive, hfound]
      rw [L.load_of_stored hstored]
      rfl
    · obtain ⟨stamp', w, hw, -, hstamp', rfl, -⟩ := L.priorHistoryRecord_spec hfound
      rw [Disk.read_of_get? L.wf (plain_recordFile hstamp' (L.safe hstored)) hfile,
        Disk.read_of_get? L₀.wf plain_pointer hpoints.1]
  · obtain ⟨stamp, w, rfl, hw, hstamp, rfl, hget⟩ := L.priorHistoryRecord_spec hrec
    obtain ⟨d₀, hd₀, hpoints⟩ := h.recorded stamp w hstamp hw hget
    exact ⟨d₀, hd₀, w, rfl, (hlayout d₀ hd₀).active_iff.mpr hpoints⟩
  · obtain ⟨L₀, hkeeps⟩ := h.keeps d₀ hd₀
    rw [versionPath_eq hname] at hread ⊢
    have hget := (Disk.read_plain (plain_versionFile hname) hread).1
    obtain ⟨w, rfl, rfl, -⟩ := Layout.at_version (L₀.placed _ _ hget)
    exact Disk.read_of_get? L.wf (plain_versionFile hname) (hkeeps.stored w hget)

/-- **Only validated versions are active**, in every file state of any calls, wherever they are cut off. -/
theorem active_validated (calls : List (RegistryCall δ × Option ℕ)) (hsafe : ∀ c ∈ calls, c.1.Safe) :
    ∀ d ∈ Manager.fileStates R {} calls, ∀ v, R.active d = .ok (some v) →
      R.assertPriorValidation d v = .ok () := by
  intro d hd v hv
  obtain ⟨before, after, hsplit⟩ := List.append_of_mem (List.mem_cons_of_mem {} hd)
  have hchain := fileStates_chain (R := R) hsafe (m := {}) Layout.start
  have L := (Epochs.chain Epochs.start hchain before d after hsplit).layout
  obtain ⟨hget, hst⟩ := L.active_iff.mp hv
  obtain ⟨w, hw, hwst, hval⟩ := Layout.at_pointer (L.placed _ _ hget)
  -- the pointer names one stored version
  obtain rfl := Layout.stored_unique hst hwst (RegistryFile.binding.inj hw).1
  exact (L.validated_iff hst).mpr hval

/-! ### Names that are paths -/

/-- A Registry whose hashes are the hashed values. -/
def plainRegistry : RegistryRoot RegistryVersion := sampleRegistry id

/-- A version without markets. -/
def emptyVersion (name : Text) (h : 1 ≤ name.length ∧ name.length ≤ 80) : RegistryVersion :=
  ⟨name, Datetime.newYear, [], h, List.nodup_nil, List.nodup_nil⟩

/-- Two versions, the first activated by the Data authority, the second by a witness. -/
def switchCalls (first second : RegistryVersion) : List (RegistryCall RegistryVersion × Option ℕ) :=
  [(.stage first fun _ => some true, none), (.requestApply first.version, none),
    (.applyAdmitted first.createdAt, none), (.stage second fun _ => some true, none),
    (.requestApply second.version, none),
    (.applyWitness ⟨0, first.version, first, second.version, second, [['m']], 0, 0⟩
      (.data fun _ _ => some (first.version, first)), none)]

/-- A superseded version whose name is a path: its record is not found. -/
theorem record_not_found :
    let first := emptyVersion ['a', '/', 'b'] (by decide)
    let second := emptyVersion ['c'] (by decide)
    let earlier := Manager.run plainRegistry ((switchCalls first second).take 3)
    let later := Manager.run plainRegistry (switchCalls first second)
    plainRegistry.active earlier.disk = .ok (some first)
      ∧ plainRegistry.active later.disk = .ok (some second)
      ∧ plainRegistry.priorActive later.disk first.version = .ok none := by
  decide +kernel

/-- Two versions become active in a switch. -/
theorem active_validated_switch :
    let states := Manager.fileStates plainRegistry {} (switchCalls (emptyVersion ['a'] (by decide))
      (emptyVersion ['c'] (by decide)))
    3 ≤ (states.map plainRegistry.active).dedup.length
      ∧ ∀ d ∈ states, ∀ v, plainRegistry.active d = .ok (some v) →
        plainRegistry.assertPriorValidation d v = .ok () :=
  ⟨by decide +kernel, active_validated _ (by decide)⟩

/-- After a switch the first version has a record with the pointer it had. -/
theorem registry_history_converges_switch :
    let first := emptyVersion ['a'] (by decide)
    let second := emptyVersion ['c'] (by decide)
    let states := ({} : RegistryDisk RegistryVersion)
      :: Manager.fileStates plainRegistry {} (switchCalls first second)
    ∃ before d after, states = before ++ d :: after
      ∧ (∃ d₀ ∈ before, plainRegistry.active d₀ = .ok (some first))
      ∧ plainRegistry.active d = .ok (some second)
      ∧ plainRegistry.priorActive d first.version = .ok (some first) := by
  intro first second states
  have hsafe : ∀ c ∈ switchCalls first second, c.1.Safe := by decide
  have hbefore : ∃ d₀ ∈ states.take 11, plainRegistry.active d₀ = .ok (some first) := by
    decide +kernel
  have hnow : ∀ d ∈ states.drop 11, plainRegistry.active d = .ok (some second) := by decide +kernel
  have hlength : (states.drop 11).length = 1 := by decide +kernel
  rcases hdrop : states.drop 11 with - | ⟨d, after⟩
  · rw [hdrop] at hlength
    cases hlength
  have hsplit : states = states.take 11 ++ d :: after := by rw [← hdrop, List.take_append_drop]
  have hactive := hnow d (by rw [hdrop]; exact .head _)
  obtain ⟨d₀, hd₀, hfirst⟩ := hbefore
  refine ⟨_, d, after, hsplit, ⟨d₀, hd₀, hfirst⟩, hactive, ?_⟩
  refine ((registry_history_converges (R := plainRegistry) _ hsafe _ after d hsplit).2.2.1 d₀ hd₀ first
    hfirst ?_).1
  rw [hactive]
  decide

end TraderAssist
