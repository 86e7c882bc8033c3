/-
TraderAssist/Registry/Steps.lean

The durable steps of the calls.

In a layout the plan of every call is a list of `FileStep`s, each of them at the state the
steps before it lead to (`plan_legal`).  So whatever a call does, and wherever the process
stops, its file states are reached by such steps (`call_fileSteps`).
-/
import TraderAssist.Registry.Layout

namespace TraderAssist

open Py Relation RegistryRoot

variable {δ : Type} {R : RegistryRoot δ} {d d' : RegistryDisk δ} {v : RegistryVersion}

/-! ### Lists of steps -/

/-- Each step is a durable step, from where the steps before it lead. -/
def Legal (R : RegistryRoot δ) : RegistryDisk δ → List (RegistryStep δ) → Prop
  | _, [] => True
  | d, s :: rest => ∀ d', d.step s = .ok d' → FileStep R d d' ∧ Legal R d' rest

variable {steps : List (RegistryStep δ)}

theorem Legal.take (h : Legal R d steps) (k : ℕ) : Legal R d (steps.take k) := by
  induction steps generalizing d k with
  | nil =>
    rw [List.take_nil]
    exact h
  | cons s rest ih =>
    cases k with
    | zero => exact trivial
    | succ k => exact fun d' hd' => ⟨(h d' hd').1, ih (h d' hd').2 k⟩

theorem Legal.chain (h : Legal R d steps) : List.IsChain (FileStep R) (d :: d.states steps) := by
  induction steps generalizing d with
  | nil => exact List.isChain_singleton _
  | cons s rest ih =>
    rw [Disk.states]
    rcases hstep : d.step s with err | d'
    · exact List.isChain_singleton _
    · exact List.isChain_cons_cons.mpr ⟨(h d' hstep).1, ih (h d' hstep).2⟩

theorem Legal.layout (L : Layout R d) (h : Legal R d steps) : Layout R (d.steps steps).1 := by
  induction steps generalizing d with
  | nil => exact L
  | cons s rest ih =>
    rw [Disk.steps]
    rcases hstep : d.step s with err | d'
    · exact L
    · exact ih ((h d' hstep).1.layout L) (h d' hstep).2

variable [DecidableEq δ]

/-! ### Staging -/

omit [DecidableEq δ] in
theorem validation_legal (L : Layout R d) (hst : Stored R d v) :
    Legal R d [.write (R.validationPath v.version) (R.bindingFile v)] := by
  intro d' hd'
  rw [validationPath_eq (L.safe hst)] at hd'
  exact ⟨.validation v hst hd', trivial⟩

theorem stageValidated_cases (h : R.stageValidatedCandidate d v = .ok steps) :
    (d.read (R.versionPath v.version) = .ok (.version v)
        ∧ steps = [.write (R.validationPath v.version) (R.bindingFile v)])
      ∨ d.exists_ (R.versionPath v.version) = false ∧ steps = [.write (R.versionPath v.version) (.version v),
          .write (R.validationPath v.version) (R.bindingFile v)] := by
  rw [stageValidatedCandidate] at h
  split_ifs at h with hex
  · rcases hread : d.read (R.versionPath v.version) with err | file
    · rw [hread] at h
      cases h
    · rw [hread] at h
      dsimp only at h
      split_ifs at h with hfile
      exact .inl ⟨congrArg _ hfile, (Except.ok.inj h).symm⟩
  · exact .inr ⟨by simpa using hex, (Except.ok.inj h).symm⟩

theorem stageValidated_legal (L : Layout R d) (hsafe : SafeName v.version)
    (h : R.stageValidatedCandidate d v = .ok steps) : Legal R d steps := by
  rcases stageValidated_cases h with ⟨hread, rfl⟩ | ⟨hex, rfl⟩
  · -- the same version is there already
    rw [versionPath_eq hsafe] at hread
    exact validation_legal L (Disk.read_plain (plain_versionFile hsafe) hread).1
  · rw [versionPath_eq hsafe] at hex ⊢
    have hnew : d.files.get? (R.versionFile v.version) = none := by
      rcases hget : d.files.get? (R.versionFile v.version) with - | file
      · rfl
      · simp [Disk.exists_of_get? L.wf (plain_versionFile hsafe) hget] at hex
    intro d' hd'
    have hstep : FileStep R d d' := .version v hsafe hnew hd'
    refine ⟨hstep, validation_legal (hstep.layout L) ?_⟩
    rw [Stored, (Disk.write_plain (plain_versionFile hsafe) hd').1]
    exact Dict.get?_set_self

/-- A lifecycle successor is staged under its own name. -/
theorem stageParentDerived_spec {active candidate : RegistryVersion}
    {updates : Dict Text MarketLifecycle} {markets : List RegistryMarket}
    (h : R.stageParentDerived d active candidate updates markets = .ok steps) :
    candidate.version = R.automaticLifecycleVersion active markets
      ∧ R.stageValidatedCandidate d candidate = .ok steps := by
  obtain ⟨_, -, h⟩ := of_bind h
  obtain ⟨_, -, h⟩ := of_bind h
  obtain ⟨_, -, h⟩ := of_bind h
  obtain ⟨_, -, h⟩ := of_bind h
  obtain ⟨_, -, h⟩ := of_bind h
  obtain ⟨_, -, h⟩ := of_bind h
  obtain ⟨_, -, h⟩ := of_bind h
  obtain ⟨_, hver, h⟩ := of_bind h
  obtain ⟨_, -, h⟩ := of_bind h
  exact ⟨require_eq_ok.mp hver, h⟩

omit [DecidableEq δ] in
theorem safe_automatic (active : RegistryVersion) (markets : List RegistryMarket) :
    SafeName (R.automaticLifecycleVersion active markets) := by
  have hword : '/' ∉ "lifecycle-".toList := by simp
  intro h
  rcases List.mem_append.mp h with hmem | hmem
  · exact hword hmem
  · exact (R.transition_hex _ _).2 hmem

/-! ### Switching -/

variable {authority : EvidenceAuthority δ}

/-- What `apply_witness` has checked when it makes its steps. -/
theorem applyWitness_ok {w : CohortWitness δ}
    (h : R.applyWitness d w authority = .ok steps) :
    w.requiredMarketIds ≠ [] ∧ ∃ active pending, R.active d = .ok (some active)
      ∧ R.pendingVersion d = .ok (some pending)
      ∧ (active.version = w.baseVersion ∧ R.content active = w.baseHash)
      ∧ (pending.version = w.successorVersion ∧ R.content pending = w.successorHash)
      ∧ authority.proveBoundaryEvidence w.boundaryOpenTimeMs w.requiredMarketIds w.baseVersion
        w.baseHash = some true ∧ ∃ priorPointer time, d.read R.pointer = .ok priorPointer
        ∧ R.switchSteps d (Datetime.compactText time) active pending priorPointer = .ok steps := by
  obtain ⟨_, -, h⟩ := of_bind h
  obtain ⟨_, hids, h⟩ := of_bind h
  obtain ⟨active, hact, h⟩ := of_bind h
  rcases active with - | active
  · cases h
  obtain ⟨pending, hpend, h⟩ := of_bind h
  rcases pending with - | pending
  · cases h
  obtain ⟨_, hbase, h⟩ := of_bind h
  obtain ⟨_, hsucc, h⟩ := of_bind h
  rcases hprove : authority.proveBoundaryEvidence w.boundaryOpenTimeMs w.requiredMarketIds
    w.baseVersion w.baseHash with - | proven
  · rw [hprove] at h
    cases h
  rw [hprove] at h
  obtain ⟨_, hprvn, h⟩ := of_bind h
  obtain ⟨priorPointer, hread, h⟩ := of_bind h
  generalize Datetime.ofEpochSeconds (w.boundaryOpenTimeMs / 1000) = stamp at h
  rcases stamp with - | time
  · cases h
  refine ⟨require_eq_ok.mp hids, active, pending, hact, hpend, require_eq_ok.mp hbase,
    require_eq_ok.mp hsucc, ?_, priorPointer, time, ?_, h⟩
  · rw [require_eq_ok.mp hprvn]
  · rcases hr : d.read R.pointer with err | file
    · rw [hr] at hread
      cases hread
    · rw [hr] at hread
      rw [Except.ok.inj hread]

/-- The switch itself. -/
abbrev RegistryRoot.switch (R : RegistryRoot δ) (v : RegistryVersion) : List (RegistryStep δ) :=
  [.write R.pointer (R.bindingFile v), .unlink R.pending]

variable {active pending : RegistryVersion} {priorPointer : RegistryFile δ}

/-- The active version is recorded before the switch, unless it was. -/
theorem switchSteps_cases {stamp : Text} (h : R.switchSteps d stamp active pending priorPointer = .ok steps) :
    steps = .write (R.historyPath stamp active.version) priorPointer :: R.switch pending
      ∨ ∃ record, R.priorHistoryRecord d active.version = some record ∧ steps = R.switch pending := by
  rw [switchSteps] at h
  split at h
  · exact .inl (Except.ok.inj h).symm
  · next record hrec =>
    split at h
    · cases h
    · split_ifs at h
      exact .inr ⟨record, hrec, (Except.ok.inj h).symm⟩

omit [DecidableEq δ] in
/-- The switch to a proposed version once the active one is recorded. -/
theorem switch_legal (hpend : d.files.get? R.pending = some (R.bindingFile v)) (hst : Stored R d v)
    (hrec : ∀ a, d.files.get? R.pointer = some (R.bindingFile a) → Stored R d a → Recorded R d a) :
    Legal R d (R.switch v) := by
  intro d₁ hd₁
  exact ⟨.pointer v hst hpend hrec hd₁, fun d₂ hd₂ => ⟨.done hd₂, trivial⟩⟩

omit [DecidableEq δ] in
/-- A record leaves the pointer and the proposal. -/
theorem write_record {time : Datetime} (hsafe : SafeName active.version)
    (h : d.write (R.historyPath time.compactText active.version) priorPointer = .ok d') :
    d'.files.get? (R.recordFile time.compactText active.version) = some priorPointer
      ∧ d'.files.get? R.pointer = d.files.get? R.pointer
      ∧ d'.files.get? R.pending = d.files.get? R.pending := by
  have hstm := stamp_compactText time
  rw [historyPath_eq hstm hsafe] at h
  rw [(Disk.write_plain (plain_recordFile hstm hsafe) h).1]
  refine ⟨Dict.get?_set_self, Dict.get?_set_ne ?_, Dict.get?_set_ne ?_⟩
  · simp [recordFile, RegistryRoot.pointer]
  · simp [recordFile, RegistryRoot.pending]

theorem switchSteps_legal (L : Layout R d) {time : Datetime}
    (hact : R.active d = .ok (some active)) (hpending : R.pendingVersion d = .ok (some pending))
    (hread : d.read R.pointer = .ok priorPointer)
    (h : R.switchSteps d time.compactText active pending priorPointer = .ok steps) : Legal R d steps := by
  obtain ⟨hptr, hst⟩ := L.active_iff.mp hact
  obtain ⟨hpend, hpendStored⟩ := L.pendingVersion_spec hpending
  obtain rfl : R.bindingFile active = priorPointer :=
    Option.some.inj (hptr.symm.trans (Disk.read_plain plain_pointer hread).1)
  -- the pointer names the active version only
  have hsame : ∀ {e : RegistryDisk δ}, e.files.get? R.pointer = some (R.bindingFile active) →
      Stored R e active → Recorded R e active →
      ∀ a, e.files.get? R.pointer = some (R.bindingFile a) → Stored R e a → Recorded R e a := by
    intro e he hs hr a ha hsa
    rw [he, Option.some.injEq, bindingFile, bindingFile, RegistryFile.binding.injEq] at ha
    exact Layout.stored_unique hs hsa ha.1 ▸ hr
  rcases switchSteps_cases h with rfl | ⟨record, hrec, rfl⟩
  · have hstm := stamp_compactText time
    intro d₁ hd₁
    obtain ⟨hfile, hsamePointer, hsamePending⟩ := write_record (L.safe hst) hd₁
    rw [historyPath_eq hstm (L.safe hst)] at hd₁
    have hstep : FileStep R d d₁ := .record _ active hstm hst hptr hd₁
    have hkp := hstep.keeps L
    exact ⟨hstep, switch_legal (hsamePending.trans hpend) (hkp.stored _ hpendStored)
      (hsame (hsamePointer.trans hptr) (hkp.stored _ hst) ⟨_, hstm, hfile⟩)⟩
  · -- recorded before
    obtain ⟨stamp, w, hname, hw, hstm, rfl, hget⟩ := L.priorHistoryRecord_spec hrec
    obtain rfl := Layout.stored_unique hw hst hname
    exact switch_legal hpend hpendStored (hsame hptr hst ⟨stamp, hstm, hget⟩)

theorem applyWitness_legal (L : Layout R d) {w : CohortWitness δ}
    (h : R.applyWitness d w authority = .ok steps) : Legal R d steps := by
  obtain ⟨-, active, pending, hact, hpend, -, -, -, priorPointer, time, hread, hsw⟩ := applyWitness_ok h
  exact switchSteps_legal L hact hpend hread hsw

/-! ### Calls -/

/-- A call whose version names are file names. -/
def RegistryCall.Safe : RegistryCall δ → Prop
  | .stage candidate _ => SafeName candidate.version
  | _ => True

instance (op : RegistryCall δ) : Decidable op.Safe := by
  unfold RegistryCall.Safe
  cases op <;> infer_instance

variable {op : RegistryCall δ} {m : Manager δ}

/-- What a call other than `apply_witness` does to the files. -/
inductive Planned (R : RegistryRoot δ) (d : RegistryDisk δ) : List (RegistryStep δ) → Prop
  | nothing : Planned R d []
  | stage {v : RegistryVersion} {steps : List (RegistryStep δ)} (hsafe : SafeName v.version)
      (h : R.stageValidatedCandidate d v = .ok steps) : Planned R d steps
  | propose {version : Text} {v : RegistryVersion} (hload : R.loadVersion d version = .ok v)
      (hvalid : R.assertPriorValidation d v = .ok ()) :
      Planned R d [.write R.pending (R.bindingFile v)]
  | done : Planned R d [.unlink R.pending]
  | activate {v : RegistryVersion} (hactive : R.active d = .ok none)
      (hpending : R.pendingVersion d = .ok (some v)) : Planned R d (R.switch v)

/-- **What a call plans.** -/
theorem plan_cases (hsafe : op.Safe) (h : m.plan R op = .ok steps) :
    Planned R m.disk steps ∨ ∃ w authority, op = .applyWitness w authority := by
  cases op with
  | stage candidate validator =>
    obtain ⟨_, -, h⟩ := of_bind h
    exact .inl (.stage hsafe h)
  | requestApply version =>
    obtain ⟨candidate, hload, h⟩ := of_bind h
    obtain ⟨⟨⟩, hval, h⟩ := of_bind h
    cases h
    exact .inl (.propose hload hval)
  | reconcilePending =>
    obtain ⟨pending, -, h⟩ := of_bind h
    rcases pending with - | candidate
    · cases h
      exact .inl .nothing
    · obtain ⟨active, -, h⟩ := of_bind h
      rcases active with - | active
      · cases h
        exact .inl .nothing
      · dsimp only at h
        split_ifs at h
        · cases h
          exact .inl .done
        · cases h
          exact .inl .nothing
  | ensureLifecycleSuccessor updates =>
    obtain ⟨active, -, h⟩ := of_bind h
    rcases active with - | active
    · cases h
    · obtain ⟨markets, -, h⟩ := of_bind h
      obtain ⟨candidate, -, h⟩ := of_bind h
      obtain ⟨hver, hstage⟩ := stageParentDerived_spec h
      exact .inl (.stage (hver ▸ safe_automatic active markets) hstage)
  | issueCohortWitness boundary baseVersion baseHash successorVersion successorHash ids =>
    rcases hissue : m.issueCohortWitness boundary baseVersion baseHash successorVersion successorHash
      ids with err | w <;> rw [Manager.plan, hissue] at h <;> cases h
    exact .inl .nothing
  | applyWitness w authority => exact .inr ⟨w, authority, rfl⟩
  | applyAdmitted receivedAt =>
    obtain ⟨active, hact, h⟩ := of_bind h
    rcases active with - | active
    · obtain ⟨pending, hpend, h⟩ := of_bind h
      rcases pending with - | candidate
      · cases h
        exact .inl .nothing
      · -- no Registry was active, so nothing is recorded
        obtain ⟨prior, hpri, h⟩ := of_bind h
        obtain ⟨priorPointer, -, h⟩ := of_bind h
        obtain rfl : none = prior := Except.ok.inj (hact.symm.trans hpri)
        cases h
        exact .inl (.activate hact hpend)
    · cases h
      exact .inl .nothing

/-- **The plan of every call is a list of durable steps.** -/
theorem plan_legal (L : Layout R m.disk) (hsafe : op.Safe)
    (h : m.plan R op = .ok steps) : Legal R m.disk steps := by
  rcases plan_cases hsafe h with hplan | ⟨w, authority, rfl⟩
  · cases hplan with
    | nothing => exact trivial
    | stage hsafe h => exact stageValidated_legal L hsafe h
    | @propose _ v hload hval =>
      have hst := L.stored_of_load hload
      exact fun d' hd' => ⟨.pending v hst ((L.validated_iff hst).mp hval) hd', trivial⟩
    | done => exact fun d' hd' => ⟨.done hd', trivial⟩
    | activate hact hpending =>
      obtain ⟨hpend, hst⟩ := L.pendingVersion_spec hpending
      refine switch_legal hpend hst fun a ha hsa => ?_
      rw [L.active_of_pointer ha hsa] at hact
      cases hact
  · rw [Manager.plan] at h
    split_ifs at h
    exact applyWitness_legal L h

/-- The states of the disk during a call, after each of its durable steps. -/
def Manager.callStates (R : RegistryRoot δ) (m : Manager δ) (op : RegistryCall δ) (stop : Option ℕ) :
    List (RegistryDisk δ) :=
  match m.plan R op with
  | .error _ => []
  | .ok steps => m.disk.states (match stop with | none => steps | some k => steps.take k)

theorem Manager.last_callStates (m : Manager δ) (op : RegistryCall δ) (stop : Option ℕ) :
    (m.disk :: m.callStates R op stop).getLast? = some (m.call R op stop).2.disk := by
  rw [callStates, call]
  rcases m.plan R op with err | steps
  · rfl
  · exact Disk.last_states _ _

/-- **The file states of a call are reached by durable steps**, wherever it stops. -/
theorem callStates_chain (L : Layout R m.disk) (hsafe : op.Safe) (stop : Option ℕ) :
    List.IsChain (FileStep R) (m.disk :: m.callStates R op stop) := by
  rw [Manager.callStates]
  rcases hplan : m.plan R op with err | steps
  · exact List.isChain_singleton _
  · have hleg := plan_legal L hsafe hplan
    cases stop with
    | none => exact hleg.chain
    | some k => exact (hleg.take k).chain

theorem call_layout (L : Layout R m.disk) (hsafe : op.Safe) (stop : Option ℕ) :
    Layout R (m.call R op stop).2.disk := by
  rw [Manager.call]
  rcases hplan : m.plan R op with err | steps
  · exact L
  · have hleg : Legal R m.disk (match stop with | none => steps | some k => steps.take k) := by
      cases stop with
      | none => exact plan_legal L hsafe hplan
      | some k => exact (plan_legal L hsafe hplan).take k
    exact hleg.layout L

theorem run_layout {calls : List (RegistryCall δ × Option ℕ)} (hsafe : ∀ c ∈ calls, c.1.Safe) :
    Layout R (Manager.run R calls).disk := by
  suffices h : ∀ m : Manager δ, Layout R m.disk →
      Layout R (calls.foldl (fun m c => (m.call R c.1 c.2).2) m).disk from h {} Layout.start
  induction calls with
  | nil => exact fun m L => L
  | cons c calls ih =>
    exact fun m L => ih (fun c' hc' => hsafe c' (.tail _ hc')) _
      (call_layout L (hsafe c (.head _)) c.2)

end TraderAssist
