/-
TraderAssist/Registry/Witness.lean

Switching by witnesses.

Only `apply_witness` has a step that writes the pointer while a Registry is active
(`plan_pointer`), and it has one only after every check of the witness against the live
state (`applyWitness_ok`).  A witness is consumed before it is looked at, so a second call
with it is refused (`call_consumed`).  A call that raises has raised before its first
durable step, or at it: from then on its steps cannot fail (`switch_total`).

With a version name that is a path, staging alone moves the pointer (`stage_moves_pointer`).
-/
import TraderAssist.Registry.History

namespace TraderAssist

open Py RegistryRoot

variable {δ : Type} {R : RegistryRoot δ} {d d' : RegistryDisk δ} {v : RegistryVersion}

/-! ### Steps that do not fail -/

theorem write_pointer_total (L : Layout R d) {file : RegistryFile δ}
    (hget : d.files.get? R.pointer = some file) (content : RegistryFile δ) :
    ∃ d', d.write R.pointer content = .ok d' :=
  Disk.write_of_dirs plain_pointer (L.wf _ _ hget).1 (L.wf _ _ hget).2

theorem unlink_pending_total (L : Layout R d) {file : RegistryFile δ}
    (hget : d.files.get? R.pending = some file) : ∃ d', d.unlink R.pending = .ok d' :=
  Disk.unlink_of_dirs plain_pending (L.wf _ _ hget).1 (L.wf _ _ hget).2

/-- The switch itself does not fail, however many of its steps are made. -/
theorem switch_total (L : Layout R d) {file file' : RegistryFile δ}
    (hptr : d.files.get? R.pointer = some file) (hpend : d.files.get? R.pending = some file')
    (hleg : Legal R d (R.switch v)) (k : ℕ) : (d.steps ((R.switch v).take k)).2 = none := by
  obtain ⟨d₁, hwr⟩ := write_pointer_total L hptr (R.bindingFile v)
  have L₁ := (hleg d₁ hwr).1.layout L
  have hstill : d₁.files.get? R.pending = some file' := by
    rw [(Disk.write_plain plain_pointer hwr).1]
    exact (Dict.get?_set_ne (by simp [RegistryRoot.pointer, RegistryRoot.pending])).trans hpend
  obtain ⟨d₂, hunl⟩ := unlink_pending_total L₁ hstill
  rcases k with - | - | k
  · rfl
  · simp only [zero_add, List.take_succ_cons, List.take_zero, Disk.steps, Disk.step, hwr]
  · simp only [List.take_succ_cons, List.take_nil, Disk.steps, Disk.step, hwr, hunl]

variable [DecidableEq δ]

variable {steps : List (RegistryStep δ)}

variable {time : Datetime} {active pending : RegistryVersion} {priorPointer : RegistryFile δ}
variable {w : CohortWitness δ} {m : Manager δ}

/-- A switch that fails fails at the record, and leaves the disk as it was. -/
theorem switchSteps_failed (L : Layout R d) (hact : R.active d = .ok (some active))
    (hpending : R.pendingVersion d = .ok (some pending)) (hread : d.read R.pointer = .ok priorPointer)
    (h : R.switchSteps d time.compactText active pending priorPointer = .ok steps) (k : ℕ)
    {err : OSError} (herr : (d.steps (steps.take k)).2 = some err) : (d.steps (steps.take k)).1 = d := by
  have hleg := switchSteps_legal L hact hpending hread h
  obtain ⟨hptr, hst⟩ := L.active_iff.mp hact
  have hpend := (L.pendingVersion_spec hpending).1
  rcases switchSteps_cases h with rfl | ⟨-, -, rfl⟩
  · rcases k with - | k
    · rfl
    · rw [List.take_succ_cons, Disk.steps] at herr ⊢
      rcases hstep : d.step (.write (R.historyPath time.compactText active.version) priorPointer)
        with first | d₁
      · rfl
      · -- the record is written: the rest goes through
        obtain ⟨hfile, hrest⟩ := hleg d₁ hstep
        obtain ⟨-, hsamePointer, hsamePending⟩ := write_record (L.safe hst) hstep
        rw [hstep, switch_total (hfile.layout L) (hsamePointer.trans hptr)
          (hsamePending.trans hpend) hrest k] at herr
        cases herr
  · rw [switch_total L hptr hpend hleg k] at herr
    cases herr

/-! ### The pointer -/

theorem stage_paths {candidate : RegistryVersion} (hsafe : SafeName candidate.version)
    (h : R.stageValidatedCandidate d candidate = .ok steps) :
    ∀ s ∈ steps, Plain s.path ∧ s.path ≠ R.pointer := by
  have hver : Plain (R.versionPath candidate.version) ∧ R.versionPath candidate.version ≠ R.pointer := by
    rw [versionPath_eq hsafe]
    exact ⟨plain_versionFile hsafe, by simp [versionFile, RegistryRoot.pointer]⟩
  have hvald : Plain (R.validationPath candidate.version)
      ∧ R.validationPath candidate.version ≠ R.pointer := by
    rw [validationPath_eq hsafe]
    exact ⟨plain_validationFile hsafe, by simp [validationFile, RegistryRoot.pointer]⟩
  rcases stageValidated_cases h with ⟨-, rfl⟩ | ⟨-, rfl⟩
  · exact List.forall_mem_singleton.mpr hvald
  · exact List.forall_mem_cons.mpr ⟨hver, List.forall_mem_singleton.mpr hvald⟩

/-- **Who writes the pointer**: with an active Registry, only `apply_witness`. -/
theorem plan_pointer {op : RegistryCall δ} (hsafe : op.Safe)
    (hact : R.active m.disk = .ok (some active)) (h : m.plan R op = .ok steps) :
    (∀ s ∈ steps, Plain s.path ∧ s.path ≠ R.pointer) ∨ ∃ w authority, op = .applyWitness w authority := by
  refine (plan_cases hsafe h).imp_left fun hplan => ?_
  have hpend : Plain R.pending ∧ R.pending ≠ R.pointer :=
    ⟨plain_pending, by simp [RegistryRoot.pending, RegistryRoot.pointer]⟩
  cases hplan with
  | nothing => exact List.forall_mem_nil _
  | stage hsafe h => exact stage_paths hsafe h
  | propose | done => exact List.forall_mem_singleton.mpr hpend
  | activate hnone =>
    -- the Data authority activates nothing while a Registry is active
    rw [hact] at hnone
    cases hnone

/-- The steps of a switch write the binding of the pending version to the pointer. -/
theorem switchSteps_paths (L : Layout R d) (hact : R.active d = .ok (some active))
    (h : R.switchSteps d time.compactText active pending priorPointer = .ok steps) :
    ∀ s ∈ steps, (Plain s.path ∧ s.path ≠ R.pointer)
      ∨ Plain R.pointer ∧ s = .write R.pointer (R.bindingFile pending) := by
  have hsafe := L.safe (L.active_iff.mp hact).2
  have hstm := stamp_compactText time
  have hsw : ∀ s ∈ R.switch pending, (Plain s.path ∧ s.path ≠ R.pointer)
      ∨ Plain R.pointer ∧ s = .write R.pointer (R.bindingFile pending) := by
    refine List.forall_mem_cons.mpr ⟨.inr ⟨plain_pointer, rfl⟩, List.forall_mem_singleton.mpr (.inl ?_)⟩
    exact ⟨plain_pending, by simp [Disk.Step.path, RegistryRoot.pending, RegistryRoot.pointer]⟩
  rcases switchSteps_cases h with rfl | ⟨-, -, rfl⟩
  · refine List.forall_mem_cons.mpr ⟨.inl ?_, hsw⟩
    rw [Disk.Step.path, historyPath_eq hstm hsafe]
    exact ⟨plain_recordFile hstm hsafe, by simp [recordFile, RegistryRoot.pointer]⟩
  · exact hsw

/-! ### Calls -/

omit [DecidableEq δ] in
theorem Legal.keeps (L : Layout R d) (h : Legal R d steps) : Keeps R d (d.steps steps).1 := by
  induction steps generalizing d with
  | nil => exact Keeps.refl d
  | cons s rest ih =>
    rw [Disk.steps]
    rcases hstep : d.step s with err | d'
    · exact Keeps.refl d
    · obtain ⟨hfile, hrest⟩ := h d' hstep
      exact (hfile.keeps L).trans (ih (hfile.layout L) hrest)

namespace Manager

variable {m : Manager δ} {op : RegistryCall δ}

/-- A call makes some first steps of its plan. -/
theorem call_ok {steps : List (RegistryStep δ)} (h : m.plan R op = .ok steps) (stop : Option ℕ) :
    ∃ k, (m.call R op stop).1 = (m.disk.steps (steps.take k)).2.map RegistryError.os
      ∧ (m.call R op stop).2.disk = (m.disk.steps (steps.take k)).1 := by
  rw [call, h]
  cases stop with
  | none => exact ⟨steps.length, by rw [List.take_length], by rw [List.take_length]⟩
  | some k => exact ⟨k, rfl, rfl⟩

theorem run_concat (calls : List (RegistryCall δ × Option ℕ)) (c : RegistryCall δ × Option ℕ) :
    run R (calls ++ [c]) = ((run R calls).call R c.1 c.2).2 := by
  rw [run, List.foldl_append]
  rfl

theorem call_error {err : RegistryError} (h : m.plan R op = .error err) (stop : Option ℕ) :
    (m.call R op stop).2.disk = m.disk := by
  rw [call, h]

theorem call_consumed (m : Manager δ) (op : RegistryCall δ) (stop : Option ℕ) :
    (m.call R op stop).2.consumed = m.consume op := by
  rw [call]
  rcases m.plan R op with err | steps
  · rfl
  · rfl

omit [DecidableEq δ] in
theorem consumed_subset_consume (m : Manager δ) (op : RegistryCall δ) : m.consumed ⊆ m.consume op := by
  cases op with
  | applyWitness w authority =>
    rw [consume]
    split_ifs
    · exact List.subset_cons_self _ _
    · exact List.Subset.refl _
  | _ => exact List.Subset.refl _

/-- A witness stays consumed. -/
theorem consumed_mono (later : List (RegistryCall δ × Option ℕ)) (m : Manager δ) :
    m.consumed ⊆ (later.foldl (fun m c => (m.call R c.1 c.2).2) m).consumed := by
  induction later generalizing m with
  | nil => exact List.Subset.refl _
  | cons c later ih =>
    refine List.Subset.trans ?_ (ih _)
    rw [call_consumed]
    exact consumed_subset_consume m c.1

/-- A call with a consumed witness is refused. -/
theorem apply_consumed (h : w.identity ∈ m.consumed)
    (authority : EvidenceAuthority δ) (stop : Option ℕ) :
    (m.call R (.applyWitness w authority) stop).2.disk = m.disk := by
  by_cases hiss : w.issuer = m.issuer
  · have hplan : m.plan R (.applyWitness w authority) = .error .alreadyConsumed := by
      rw [plan, if_neg (not_not.mpr hiss), if_pos h]
    exact call_error hplan stop
  · have hplan : m.plan R (.applyWitness w authority) = .error .notIssuedHere := by
      rw [plan, if_pos hiss]
    exact call_error hplan stop

variable {authority : EvidenceAuthority δ}

/-- What `apply_witness` found before its first durable step. -/
theorem plan_applyWitness
    {steps : List (RegistryStep δ)} (h : m.plan R (.applyWitness w authority) = .ok steps) :
    w.issuer = m.issuer ∧ w.identity ∉ m.consumed ∧ R.applyWitness m.disk w authority = .ok steps := by
  rw [plan] at h
  by_cases hiss : w.issuer = m.issuer
  · rw [if_neg (not_not.mpr hiss)] at h
    by_cases hcons : w.identity ∈ m.consumed
    · rw [if_pos hcons] at h
      cases h
    · rw [if_neg hcons] at h
      exact ⟨hiss, hcons, h⟩
  · rw [if_pos hiss] at h
    cases h

end Manager

/-! ### The protocol -/

/-- A witness that authorises the manager to switch from the active version to the pending
one: issued here, not used, naming both with their hashes, with a non-empty cohort whose
evidence is proven under the active one. -/
def Authorises (R : RegistryRoot δ) (m : Manager δ) (w : CohortWitness δ)
    (authority : EvidenceAuthority δ) (active pending : RegistryVersion) : Prop :=
  w.issuer = m.issuer ∧ w.identity ∉ m.consumed
    ∧ (w.baseVersion = active.version ∧ w.baseHash = R.content active)
    ∧ (w.successorVersion = pending.version ∧ w.successorHash = R.content pending)
    ∧ R.pendingVersion m.disk = .ok (some pending)
    ∧ w.requiredMarketIds ≠ []
    ∧ authority.proveBoundaryEvidence w.boundaryOpenTimeMs w.requiredMarketIds active.version
      (R.content active) = some true

/-- **A change of the active version** is a call of `apply_witness` with a witness that
authorises it. -/
theorem call_changes_active (L : Layout R m.disk) {op : RegistryCall δ}
    (hsafe : op.Safe) (stop : Option ℕ) {active : RegistryVersion}
    (hact : R.active m.disk = .ok (some active))
    (hchg : R.active (m.call R op stop).2.disk ≠ .ok (some active)) :
    ∃ w authority pending, op = .applyWitness w authority ∧ Authorises R m w authority active pending
      ∧ R.active (m.call R op stop).2.disk = .ok (some pending) := by
  rcases hplan : m.plan R op with err | steps
  · rw [Manager.call_error hplan] at hchg
    exact absurd hact hchg
  obtain ⟨k, -, hdisk⟩ := Manager.call_ok hplan stop
  have hleg := (plan_legal L hsafe hplan).take k
  have L' := hleg.layout L
  have hkp := hleg.keeps L
  rw [hdisk] at hchg ⊢
  have hpts := L.active_iff.mp hact
  -- the pointer is not as it was: the active version would still be stored
  have hmoved : (m.disk.steps (steps.take k)).1.files.get? R.pointer ≠ m.disk.files.get? R.pointer :=
    fun hsame => hchg (L'.active_of_pointer (hsame.trans hpts.1) (hkp.stored _ hpts.2))
  rcases plan_pointer hsafe hact hplan with hoth | ⟨w, authority, rfl⟩
  · refine absurd ?_ hmoved
    rcases Disk.steps_get? (b := R.bindingFile active)
      (fun s hs => .inl (hoth s (List.mem_of_mem_take hs))) m.disk with hsame | hsame
    · exact hsame
    · exact hsame.trans hpts.1.symm
  · obtain ⟨hiss, hcons, happly⟩ := Manager.plan_applyWitness hplan
    obtain ⟨hids, active', pending, hact', hpend, hbase, hsucc, hprvn, priorPointer, time,
      -, hstp⟩ := applyWitness_ok happly
    obtain rfl : active = active' := Option.some.inj (Except.ok.inj (hact.symm.trans hact'))
    refine ⟨w, authority, pending, rfl, ⟨hiss, hcons, ⟨hbase.1.symm, hbase.2.symm⟩,
      ⟨hsucc.1.symm, hsucc.2.symm⟩, hpend, hids, ?_⟩, ?_⟩
    · rw [hbase.1, hbase.2]
      exact hprvn
    · have hpaths := switchSteps_paths L hact hstp
      rcases Disk.steps_get? (fun s hs => hpaths s (List.mem_of_mem_take hs)) m.disk with hsame | hnew
      · exact absurd hsame hmoved
      · exact L'.active_of_pointer hnew (hkp.stored _ (L.pendingVersion_spec hpend).2)

/-- A call of `apply_witness` that raises leaves the disk as it was. -/
theorem apply_failed (L : Layout R m.disk)
    {stop : Option ℕ} {err : RegistryError}
    (h : (m.call R (.applyWitness w authority) stop).1 = some err) :
    (m.call R (.applyWitness w authority) stop).2.disk = m.disk := by
  rcases hplan : m.plan R (.applyWitness w authority) with first | steps
  · exact Manager.call_error hplan stop
  obtain ⟨k, hres, hdisk⟩ := Manager.call_ok hplan stop
  obtain ⟨-, -, happly⟩ := Manager.plan_applyWitness hplan
  obtain ⟨-, active, pending, hact, hpend, -, -, -, priorPointer, time, hread, hstp⟩ :=
    applyWitness_ok happly
  rw [hres] at h
  obtain ⟨os, hos, -⟩ := Option.map_eq_some_iff.mp h
  rw [hdisk]
  exact switchSteps_failed L hact hpend hread hstp k hos

/-- **Switching is authorised by witnesses**: after any calls whose staged versions have
names that are no paths,

* the active version changes only in a call of `apply_witness`, to the pending version, by
  a witness that authorises it;
* a witness that changed it changes nothing again, whatever was called in between;
* a call of `apply_witness` that raises changes no file. -/
theorem switching_by_witness (calls : List (RegistryCall δ × Option ℕ))
    (hsafe : ∀ c ∈ calls, c.1.Safe) :
    let m := Manager.run R calls
    (∀ op stop active, op.Safe → R.active m.disk = .ok (some active) →
        R.active (m.call R op stop).2.disk ≠ .ok (some active) →
        ∃ w authority pending, op = .applyWitness w authority
          ∧ Authorises R m w authority active pending
          ∧ R.active (m.call R op stop).2.disk = .ok (some pending))
      ∧ (∀ w authority stop, R.active (m.call R (.applyWitness w authority) stop).2.disk
          ≠ R.active m.disk → ∀ later authority' stop',
          let m' := Manager.run R (calls ++ (.applyWitness w authority, stop) :: later)
          (m'.call R (.applyWitness w authority') stop').2.disk = m'.disk)
      ∧ ∀ w authority stop err, (m.call R (.applyWitness w authority) stop).1 = some err →
        (m.call R (.applyWitness w authority) stop).2.disk = m.disk := by
  intro m
  have L : Layout R m.disk := run_layout hsafe
  refine ⟨fun op stop active hop hactive => call_changes_active L hop stop hactive, ?_,
    fun w authority stop err => apply_failed L⟩
  intro w authority stop hchange later authority' stop' m'
  -- the witness was consumed by the call that changed the version
  rcases hplan : m.plan R (.applyWitness w authority) with err | steps
  · rw [Manager.call_error hplan] at hchange
    exact absurd rfl hchange
  have hissuer := (Manager.plan_applyWitness hplan).1
  have hconsumed : w.identity ∈ (m.call R (.applyWitness w authority) stop).2.consumed := by
    rw [Manager.call_consumed, Manager.consume, if_pos hissuer]
    exact .head _
  refine Manager.apply_consumed ?_ authority' stop'
  show w.identity ∈ (Manager.run R (calls ++ (.applyWitness w authority, stop) :: later)).consumed
  rw [Manager.run, List.foldl_append]
  exact Manager.consumed_mono later _ hconsumed

/-! ### Names that are paths -/

/-- Staging a version whose name is a path to the pointer: after one step it is active, and
after the second one the pointer names no version. -/
theorem stage_moves_pointer :
    let first := emptyVersion ['a'] (by decide)
    let second := emptyVersion ['x', '/', '.', '.', '/', '.', '.', '/', 'c', 'u', 'r', 'r', 'e', 'n', 't']
      (by decide)
    let m := Manager.run plainRegistry ((switchCalls first second).take 3)
    let stage := RegistryCall.stage second fun _ => some true
    plainRegistry.active m.disk = .ok (some first)
      ∧ plainRegistry.active (m.call plainRegistry stage (some 1)).2.disk = .ok (some second)
      ∧ plainRegistry.active (m.call plainRegistry stage none).2.disk = .error .schemaInvalid := by
  decide +kernel

/-- A switch by a witness; the witness does nothing a second time. -/
theorem switching_by_witness_once :
    let first := emptyVersion ['a'] (by decide)
    let second := emptyVersion ['c'] (by decide)
    let w : CohortWitness RegistryVersion :=
      ⟨0, first.version, first, second.version, second, [['m']], 0, 0⟩
    let authority := EvidenceAuthority.data fun _ _ => some (first.version, first)
    let calls := (switchCalls first second).take 5
    let m := Manager.run plainRegistry calls
    let switched := (m.call plainRegistry (.applyWitness w authority) none).2
    Authorises plainRegistry m w authority first second
      ∧ plainRegistry.active switched.disk = .ok (some second)
      ∧ (switched.call plainRegistry (.applyWitness w authority) none).2.disk = switched.disk := by
  intro first second w authority calls
  have hsafe : ∀ c ∈ calls, c.1.Safe := by decide
  have hfirst : plainRegistry.active (Manager.run plainRegistry calls).disk = .ok (some first) := by
    decide +kernel
  have hsecond : plainRegistry.active ((Manager.run plainRegistry calls).call plainRegistry
      (.applyWitness w authority) none).2.disk = .ok (some second) := by
    decide +kernel
  have hne : second ≠ first := by decide
  clear_value first second
  obtain ⟨hswitch, honce, -⟩ := switching_by_witness (R := plainRegistry) calls hsafe
  obtain ⟨w', authority', pending, hop, hauth, hpending⟩ :=
    hswitch (.applyWitness w authority) none first trivial hfirst fun h =>
      hne (Option.some.inj (Except.ok.inj (hsecond.symm.trans h)))
  have hop' := RegistryCall.applyWitness.inj hop
  have hpending' : pending = second := Option.some.inj (Except.ok.inj (hpending.symm.trans hsecond))
  rw [← hop'.1, ← hop'.2, hpending'] at hauth
  refine ⟨hauth, hsecond, ?_⟩
  have hagain := honce w authority none (fun h => hne
    (Option.some.inj (Except.ok.inj (hsecond.symm.trans (h.trans hfirst))))) [] authority none
  rwa [Manager.run_concat] at hagain

end TraderAssist
