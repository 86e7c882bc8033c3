/-
TraderAssist/E4/Opening.lean

Openings of source-bound packages that are stopped and tried again.

An opening declares its intent, writes its window, records the opportunity and the thesis and
saves the package; a retry reads from the store how far the attempts before it came.  Facts
that are there must be those of the intent.  But a retry runs in a later segment, where it
records facts as incomplete whatever the intent says: if it is then stopped before its last
checkpoint, the next retry refuses the fact that it finds.  `structural_opening_converges`: the
attempts end with the package open and each fact recorded once, if the window was incomplete
to begin with or no retry is stopped right after one of the facts.
-/
import TraderAssist.E4.Recovery

namespace TraderAssist.E4

open Py

variable {δ : Type} [DecidableEq δ] {k : Config δ} {c : RuntimeCheckpoint δ} {f : LifecycleFold}
variable {reason : String} {w : World δ}

/-! ### What processes know across stops -/

/-- Between processes: the facts of the store fold, and what was queued is there. -/
structure EvidenceStore.Coherent (k : Config δ) (st : EvidenceStore δ) : Prop where
  recorded : ∃ f, st.Recorded k f
  covered : Journal.StoreCovered AdmittedEvent.sourceIdentity st.admissions
    (st.checkpoint.map RuntimeCheckpoint.snapshot)
  first : st.checkpoint = none → st.lifecycle = []

/-- In a process. -/
structure World.Coherent (k : Config δ) (w : World δ) : Prop where
  informed : w.Informed k
  covered : Journal.Covered AdmittedEvent.sourceIdentity w.journal
  started : w.store.checkpoint ≠ none

omit [DecidableEq δ] in
theorem World.Coherent.store (h : w.Coherent k) : w.store.Coherent k where
  recorded := h.informed.imp fun _ h => h.recorded
  covered := h.covered.saved
  first hnone := absurd hnone h.started

theorem World.Coherent.move {P : Guard δ} {w w' : World δ} (h : w.Coherent k) (hmove : Move k P w w') :
    w'.Coherent k := by
  refine ⟨hmove.informed h.informed,
    Journal.Steps.invariant (fun _ _ => Journal.Covered.step) hmove.steps h.covered, fun hnone => ?_⟩
  have hsv := Journal.Steps.invariant (I := fun j => j.saved ≠ none) (fun _ _ => Journal.Step.saved)
    hmove.steps (by simpa [World.journal] using h.started)
  exact hsv (by simp [World.journal, hnone])

omit [DecidableEq δ] in
/-- The facts of a fold pass the checks of a new session. -/
theorem FoldSpec.latestValid {l : List LifecycleRecord} {ids : List Text}
    (h : FoldSpec k.manifest.runId l f) : latestValid k (ids ++ f.latest.keys) f.latest := by
  have hkeys : ∀ id, f.latest.has id = true → id ∈ ids ++ f.latest.keys := by
    intro id hid
    exact List.mem_append_right _ (Dict.mem_keys.mpr (Dict.has_eq_true.mp hid))
  constructor
  · intro e he
    have hget := Dict.mem_entries.mp he
    obtain ⟨hmem, hid⟩ := h.latest_mem hget
    refine ⟨hkeys _ (Dict.has_eq_true.mpr ⟨_, hget⟩), hid, h.run _ hmem, ?_⟩
    rw [Option.all_eq_true]
    intro p hp
    exact decide_eq_true (hkeys p (h.has_iff.mpr (h.parent _ hmem p hp)))
  · -- different keys have facts of different objects
    refine List.Nodup.map_on (fun a ha b hb hab => ?_) f.latest.nodup.of_map
    have hakey := (h.latest_mem (Dict.mem_entries.mp ha)).2
    have hbkey := (h.latest_mem (Dict.mem_entries.mp hb)).2
    exact Prod.ext (hakey.symm.trans (hab ▸ hbkey)) hab

/-- A process that was recovered from a checkpoint knows the facts of its store. -/
theorem EvidenceStore.Recorded.session {st : EvidenceStore δ}
    (h : st.Recorded k f) (hc : st.checkpoint = some c) (persisted : List (AdmittedEvent δ)) (index : ℕ)
    (stop : Option Step) : World.Knows k ⟨c.session k persisted f.latest index, st, stop⟩ f := by
  have hspec := foldLifecycleRecords_spec h.fold
  refine ⟨h, fun id => ?_, fun _ => rfl, fun r hr => ?_⟩
  · show id ∈ c.lifecycleIds ++ f.latest.keys ↔ _
    rw [List.mem_append, Dict.mem_keys, ← Dict.has_eq_true, or_iff_right_iff_imp]
    exact h.ids c hc id
  · obtain ⟨id, hid⟩ := Dict.mem_values.mp hr
    exact (hspec.latest_mem hid).1

theorem World.Coherent.startSegment {index : ℕ} (hinf : w.Informed k)
    (hcov : Journal.Covered AdmittedEvent.sourceIdentity w.journal) (hsto : w.store.Coherent k) :
    Ends (do appendProcessSegment index; persist reason : Capture δ Unit) w (fun _ w' => w'.Coherent k)
      fun _ w' => w'.store.Coherent k := by
  have hsv : ∀ segments, World.Coherent k (w.segmented segments).saved := fun segments =>
    ⟨(move_saved (P := fun _ _ => True)).informed (hinf.of_eq rfl rfl rfl rfl rfl),
      Journal.Covered.save hcov, Option.some_ne_none _⟩
  refine ends_startSegment hsto hsv (fun _ => ⟨?_, hsto.covered, hsto.first⟩)
    fun segments => (hsv segments).store
  exact hsto.recorded.imp fun f h => ⟨h.fold, h.ids, h.agrees⟩

/-- **Every recovery brings back a process that knows the facts of its store.** -/
theorem EvidenceStore.Coherent.recover (h : w.store.Coherent k) :
    Ends (recoverCaptureSession k) w (fun _ w' => w'.Coherent k) fun _ w' => w'.store.Coherent k := by
  unfold recoverCaptureSession
  rw [ends_bind, ends_get]
  rcases hc : w.store.checkpoint with - | c
  · -- the first process: nothing is recorded
    refine World.Coherent.startSegment ⟨{}, ⟨?_, ?_, ?_⟩, ?_, fun _ => rfl, ?_⟩ ⟨?_, h.covered⟩ h
    · rw [h.first hc]
      rfl
    · intro c' hc'
      rw [show w.store.checkpoint = none from hc] at hc'
      cases hc'
    · intro c' hc'
      rw [show w.store.checkpoint = none from hc] at hc'
      cases hc'
    · exact fun id => ⟨nofun, nofun⟩
    · exact fun r hr => by cases hr
    · exact nofun
  · -- a later one
    rw [ends_recoverFrom]
    refine (Sat.self fun _ _ => h).mono (fun persisted hpers => ?_) fun _ he => he
    refine (Sat.self fun _ _ => h).mono (fun facts hfct => ?_) fun _ he => he
    refine ⟨fun _ => ⟨fun _ => ?_, fun _ => h⟩, fun _ => h⟩
    obtain ⟨f, hf⟩ := h.recorded
    obtain rfl : facts = f := Except.ok.inj (hfct.symm.trans hf.fold)
    refine World.Coherent.startSegment ⟨facts, hf.session hc _ _ _⟩ ?_ h
    rw [(loadAdmissions_eq_ok.mp hpers).1]
    have hcov := h.covered
    rw [hc] at hcov
    have hrst := hcov.restart (μ := Text)
    unfold World.journal
    rw [hc]
    exact hrst

abbrev System.Coherent (k : Config δ) (s : System δ) : Prop :=
  s.Holds (EvidenceStore.Coherent k) (World.Coherent k)

/-- **Every run is coherent.** -/
theorem System.coherent_run (events : List Event) : (events.foldl (System.step k) {}).Coherent k := by
  have hemp : System.Coherent k ({} : System δ) := System.holds_of_store
    ⟨⟨{}, rfl, nofun, nofun⟩, nofun, fun _ => rfl⟩
  generalize ({} : System δ) = s at hemp ⊢
  induction events generalizing s with
  | nil => exact hemp
  | cons event events ih =>
    refine ih _ (System.Holds.step (fun _ _ h => ⟨h.informed.of_eq rfl rfl rfl rfl rfl, h.covered, h.started⟩)
      (fun _ h => h.store) k (fun op w hw => ?_) (fun stop _ => EvidenceStore.Coherent.recover hemp.store)
      hemp)
    exact Ends.mono (op.traces (P := fun _ _ => True) (fun _ _ _ h => h) trivial)
      (fun _ _ h => hw.move h) fun _ _ h => hw.move h

omit [DecidableEq δ] in
/-- A fact that `record_lifecycle` accepts is appended; one that it refuses leaves the facts as they
were. -/
theorem ends_recordLifecycleFact (fact : LifecycleRecord) (persistCheckpoint : Bool) :
    Ends (recordLifecycleFact k fact persistCheckpoint) w
      (fun _ w' => w'.store.lifecycle = w.store.lifecycle ++ [fact.inSession k w.session])
      fun e w' => e ≠ .stopped → w'.store.lifecycle = w.store.lifecycle := by
  unfold recordLifecycleFact
  rw [ends_bind, ends_get, ends_bind, ends_check]
  refine ⟨fun _ => ?_, fun _ _ => rfl⟩
  rw [ends_bind]
  refine ends_recordLifecycle (.inr fun _ _ => rfl) (fun _ => ?_) fun _ _ hne => absurd rfl hne
  split
  · exact ends_persist rfl fun _ hne => absurd rfl hne
  · rfl

/-- **Lifecycle online is lifecycle offline.**  After every run the facts of the store fold, to the
latest facts that its process knows; a fact that is accepted is appended to them, and one that is
refused leaves them as they are. -/
theorem lifecycle_online_offline (events : List Event) :
    ∃ f, foldLifecycleRecords k.manifest.runId (events.foldl (System.step k) {}).store.lifecycle = .ok f
      ∧ ∀ session, (events.foldl (System.step k) {}).session = some session →
        (∀ id, session.latestLifecycleRecords.get? id = f.latest.get? id)
        ∧ ∀ fact persistCheckpoint stop, Ends (recordLifecycleFact k fact persistCheckpoint)
          ⟨session, (events.foldl (System.step k) {}).store, stop⟩
          (fun _ w => w.store.lifecycle
            = (events.foldl (System.step k) {}).store.lifecycle ++ [fact.inSession k session])
          fun e w => e ≠ .stopped →
            w.store.lifecycle = (events.foldl (System.step k) {}).store.lifecycle := by
  have hrun := System.coherent_run (k := k) events
  obtain ⟨f, hf⟩ := hrun.store.recorded
  refine ⟨f, hf.fold, fun session hses => ⟨fun id => ?_, fun fact persistCheckpoint stop =>
    ends_recordLifecycleFact fact persistCheckpoint⟩⟩
  obtain ⟨g, hg⟩ := (hrun.session session hses none).informed
  obtain rfl : f = g := Except.ok.inj (hf.fold.symm.trans hg.recorded.fold)
  exact hg.latest id

/-- **The facts of every run**, however processes are stopped and recovered: they are of the run, parents
have facts, and the last fact of an object is the only one that can be terminal. -/
theorem lifecycle_facts_ordered (k : Config δ) (events : List Event) :
    let facts := (events.foldl (System.step k) {}).store.lifecycle
    (∀ r ∈ facts, r.runId = k.manifest.runId ∧ ∀ p ∈ r.parentId, ∃ q ∈ facts, q.objectId = p)
      ∧ facts.Pairwise Precedes := by
  obtain ⟨f, hf⟩ := (System.coherent_run (k := k) events).store.recorded
  have hspec := foldLifecycleRecords_spec hf.fold
  exact ⟨fun r hr => ⟨hspec.run r hr, hspec.parent r hr⟩, foldLifecycleRecords_pairwise hf.fold⟩

/-- **No durable event is lost**: after any run, what the checkpoint or the process takes for queued is in the
log or in its queue. -/
theorem durable_sources_kept (k : Config δ) (events : List Event) :
    let s := events.foldl (System.step k) {}
    (∀ c, s.store.checkpoint = some c → ∀ id ∈ c.durableSourceIds,
        id ∈ (s.store.admissions ++ c.pending).map AdmittedEvent.sourceIdentity)
      ∧ ∀ session, s.session = some session → ∀ id ∈ session.durableSourceIds,
        id ∈ (s.store.admissions ++ session.pending).map AdmittedEvent.sourceIdentity := by
  have h := System.coherent_run (k := k) events
  refine ⟨fun c hc => h.store.covered c.snapshot ?_,
    fun session hses => (h.session session hses none).covered.queued⟩
  rw [hc]
  rfl

/-! ### Attempts -/

/-- A fact that opens the opportunity or the thesis of the package. -/
structure Opens (k : Config δ) (o : BoundOpening) (kind : LifecycleKind) (reason : String)
    (r : LifecycleRecord) : Prop where
  runId : r.runId = k.manifest.runId
  objectId : r.objectId = o.objectId kind
  parentId : r.parentId = o.parentId kind
  packageId : r.packageId = o.packageId
  marketId : r.marketId = o.marketId
  expressionId : r.expressionId = o.expressionId
  kind : r.kind = kind
  status : r.status = .active
  stateTs : r.stateTs = o.createdTs
  reasonCodes : r.reasonCodes = [reason.toList]

abbrev OpensOpportunity (k : Config δ) (o : BoundOpening) : LifecycleRecord → Prop :=
  Opens k o .opportunity "FORMAL_SETUP_ADMITTED"

abbrev OpensThesis (k : Config δ) (o : BoundOpening) : LifecycleRecord → Prop :=
  Opens k o .thesis "THESIS_CREATED"

/-- The facts that attempts have recorded so far. -/
inductive Recorded (k : Config δ) (o : BoundOpening) : List LifecycleRecord → Prop
  | none : Recorded k o []
  | opportunity (r : LifecycleRecord) (hr : OpensOpportunity k o r) : Recorded k o [r]
  | both (r t : LifecycleRecord) (hr : OpensOpportunity k o r) (ht : OpensThesis k o t) :
      Recorded k o [r, t]

/-- The objects of the package are new, and two. -/
structure Fresh (o : BoundOpening) (base : List LifecycleRecord) : Prop where
  distinct : o.opportunityId ≠ o.thesisId
  opportunity : ∀ r ∈ base, r.objectId ≠ o.opportunityId
  thesis : ∀ r ∈ base, r.objectId ≠ o.thesisId

/-- A checkpoint with the intent of the opening. -/
structure Declared (k : Config δ) (o : BoundOpening) (σ : EvidenceState) (c : RuntimeCheckpoint δ) :
    Prop where
  allowed : checkOpening k o c.bindingActivation = .ok ()
  intent : ∃ intent, c.openingIntents.get? o.packageId = some intent ∧ intent.identity = o.identity k
    ∧ intent.predecisionState = σ ∧ intent.openingSegmentIndex ≤ c.segmentIndex
  package : c.packages.get? o.packageId = none

/-- A checkpoint with the package. -/
structure Opened (k : Config δ) (o : BoundOpening) (c : RuntimeCheckpoint δ) : Prop where
  allowed : checkOpening k o c.bindingActivation = .ok ()
  intent : c.openingIntents.get? o.packageId = none
  package : ∃ package, c.packages.get? o.packageId = some package ∧ samePackage k o package

/-- What is written, with what a recovery would still have to write. -/
def EvidenceStore.restored (st : EvidenceStore δ) (c : RuntimeCheckpoint δ) : List (AdmittedEvent δ) :=
  st.admissions ++ c.pending.filter fun item =>
    decide (item.sourceIdentity ∉ st.admissions.map AdmittedEvent.sourceIdentity)

/-- How far the attempts have come: the facts agree with the intent, or the package is open. -/
inductive Phase (k : Config δ) (o : BoundOpening) (base : List LifecycleRecord) (σ : EvidenceState)
    (c : RuntimeCheckpoint δ) (lifecycle : List LifecycleRecord) : Prop
  | declared (left : List LifecycleRecord) (hc : Declared k o σ c) (hlifecycle : lifecycle = base ++ left)
      (hleft : Recorded k o left) (hstate : ∀ r ∈ left, r.evidenceState = σ)
  | opened (r t : LifecycleRecord) (hc : Opened k o c) (hlifecycle : lifecycle = base ++ [r, t])
      (hr : OpensOpportunity k o r) (ht : OpensThesis k o t)

abbrev Ordered (log : List (AdmittedEvent δ)) : Prop :=
  log.Pairwise fun a b => a.admissionOrdinal ≤ b.admissionOrdinal

/-- What a stopped attempt leaves; `log` is the log that the window belongs to. -/
structure Midway (k : Config δ) (o : BoundOpening) (base : List LifecycleRecord)
    (log : List (AdmittedEvent δ)) (σ : EvidenceState) (st : EvidenceStore δ) : Prop where
  coherent : st.Coherent k
  phase : ∃ c, st.checkpoint = some c ∧ (st.restored c).Sublist log ∧ Phase k o base σ c st.lifecycle

/-- A process in the middle of an attempt. -/
structure Attempting (k : Config δ) (o : BoundOpening) (base : List LifecycleRecord)
    (log : List (AdmittedEvent δ)) (σ : EvidenceState) (left : List LifecycleRecord) (w : World δ) :
    Prop where
  coherent : w.Coherent k
  session : Declared k o σ w.session.checkpoint
  saved : ∃ c, w.store.checkpoint = some c ∧ Declared k o σ c ∧ (w.store.restored c).Sublist log
    ∧ ∀ e ∈ c.pending, e ∈ w.store.admissions ++ w.session.pending
  log : (w.store.admissions ++ w.session.pending).Sublist log
  lifecycle : w.store.lifecycle = base ++ left
  left : Recorded k o left

section Attempting

variable {o : BoundOpening} {base left : List LifecycleRecord} {log : List (AdmittedEvent δ)}
  {σ : EvidenceState} {w : World δ}

theorem Attempting.midway (h : Attempting k o base log σ left w) (hsta : ∀ r ∈ left, r.evidenceState = σ) :
    Midway k o base log σ w.store := by
  obtain ⟨c, hc, hdecl, hlog, -⟩ := h.saved
  exact ⟨h.coherent.store, c, hc, hlog, .declared left hdecl h.lifecycle h.left hsta⟩

variable {st : EvidenceStore δ}

/-- Nothing is left to restore of a queue that was written. -/
theorem restored_eq_of_mem (h : ∀ e ∈ c.pending, e ∈ st.admissions) :
    st.restored c = st.admissions := by
  have hnil : (c.pending.filter fun item =>
      decide (item.sourceIdentity ∉ st.admissions.map AdmittedEvent.sourceIdentity)) = [] := by
    rw [List.filter_eq_nil_iff]
    intro e he
    simpa using ⟨e, h e he, rfl⟩
  rw [EvidenceStore.restored, hnil, List.append_nil]

theorem Attempting.written (h : Attempting k o base log σ left w) :
    Attempting k o base log σ left w.written := by
  obtain ⟨c, hc, hdecl, -, hcov⟩ := h.saved
  refine ⟨h.coherent.move (move_written (P := fun _ _ => True)),
    ⟨h.session.allowed, h.session.intent, h.session.package⟩, ⟨c, hc, hdecl, ?_, ?_⟩, ?_,
    h.lifecycle, h.left⟩
  · rw [restored_eq_of_mem hcov]
    exact h.log
  · exact fun e he => List.mem_append_left _ (hcov e he)
  · show ((w.store.admissions ++ w.session.pending) ++ []).Sublist log
    rw [List.append_nil]
    exact h.log

theorem Attempting.save (h : Attempting k o base log σ left w) : Attempting k o base log σ left w.saved := by
  refine ⟨h.coherent.move (move_saved (P := fun _ _ => True)), h.session,
    ⟨_, rfl, h.session, ?_, fun e he => List.mem_append_right _ he⟩, h.log, h.lifecycle, h.left⟩
  exact (List.filter_sublist.append_left _).trans h.log

variable {r : LifecycleRecord}

theorem Attempting.addFact (h : Attempting k o base log σ left w)
    (hrun : r.runId = k.manifest.runId) (hchk : w.session.checkFact r = .ok ())
    (hleft : Recorded k o (left ++ [r])) : Attempting k o base log σ (left ++ [r]) (w.addFact r) := by
  have hmove : Move k (fun _ _ => True) w (w.addFact r) :=
    ⟨.refl, fun ⟨f, h⟩ => ⟨_, h.addFact (h.continues hrun hchk)⟩⟩
  refine ⟨h.coherent.move hmove, ⟨h.session.allowed, h.session.intent, h.session.package⟩, h.saved, h.log,
    ?_, hleft⟩
  show w.store.lifecycle ++ [r] = base ++ (left ++ [r])
  rw [h.lifecycle, List.append_assoc]

/-! ### Recording -/

omit [DecidableEq δ] in
theorem World.Informed.latest (h : w.Informed k) (id : Text) : w.session.latestLifecycleRecords.get? id
      = (w.store.lifecycle.filter fun r => r.objectId = id).getLast? := by
  obtain ⟨f, h⟩ := h
  rw [h.latest, (foldLifecycleRecords_spec h.recorded.fold).latest]

omit [DecidableEq δ] in
theorem World.Informed.mem_ids (h : w.Informed k) {id : Text} :
    id ∈ w.session.lifecycleIds ↔ ∃ r ∈ w.store.lifecycle, r.objectId = id := by
  obtain ⟨f, h⟩ := h
  rw [h.ids, (foldLifecycleRecords_spec h.recorded.fold).has_iff]

omit [DecidableEq δ] in
theorem World.Informed.known (h : w.Informed k) (hr : r ∈ w.session.lifecycleRecords) :
    r ∈ w.store.lifecycle := by
  obtain ⟨f, h⟩ := h
  exact h.known r hr

omit [DecidableEq δ] in
theorem createdTs_pos {activation : Option BindingActivation} (h : checkOpening k o activation = .ok ()) :
    1 ≤ o.createdTs := by
  unfold checkOpening at h
  rcases activation with - | activation
  · cases h
  · dsimp only at h
    rw [require_bind_ok, require_bind_ok] at h
    exact h.2.1.1

variable {intent : OpeningIntent δ} {state : EvidenceState} {E : CaptureError → World δ → Prop}

/-- A fact that was not recorded is, unless the process is stopped before it. -/
theorem ends_recordOpening_missing (h : Attempting k o base log σ left w)
    {durable : List LifecycleRecord} {kind : LifecycleKind}
    {Q : Unit → World δ → Prop}
    (hnew : ∀ r ∈ w.store.lifecycle, r.objectId ≠ o.objectId kind)
    (hpar : ∀ p ∈ o.parentId kind, ∃ r ∈ w.store.lifecycle, r.objectId = p)
    (hleft : ∀ r, Opens k o kind reason r → Recorded k o (left ++ [r]))
    (hQ : ∀ r, Opens k o kind reason r → r.evidenceState = state →
      Attempting k o base log σ (left ++ [r]) (w.addFact r) → Q () (w.addFact r))
    (hE : ∀ r, Opens k o kind reason r → r.evidenceState = state →
      Attempting k o base log σ (left ++ [r]) (w.addFact r) →
      w.stop = some (.lifecycle [reason.toList]) → E .stopped (w.addFact r)) :
    Ends (recordOpening k o intent durable kind reason state) w Q E := by
  have hinf := h.coherent.informed
  have hlat : w.session.latestLifecycleRecords.get? (o.objectId kind) = none := by
    rw [hinf.latest, List.getLast?_eq_none_iff, List.filter_eq_nil_iff]
    intro r hr
    simpa using hnew r hr
  unfold recordOpening
  rw [ends_bind, ends_get, hlat]
  unfold recordFact
  rw [ends_bind, ends_get]
  generalize hr : o.fact k w kind o.createdTs reason none state = r
  have hops : Opens k o kind reason r := by
    subst hr
    exact ⟨rfl, rfl, rfl, rfl, rfl, rfl, rfl, rfl, rfl, rfl⟩
  have hsta : r.evidenceState = state := by rw [← hr]; rfl
  have hunknown : r ∉ w.session.lifecycleRecords := fun hmem => hnew r (hinf.known hmem) hops.objectId
  have hchk : w.session.checkFact r = .ok () := by
    have hid : r.objectId ∉ w.session.lifecycleIds := by
      rw [hinf.mem_ids, hops.objectId]
      rintro ⟨q, hq, hid⟩
      exact hnew q hq hid
    unfold CaptureSession.checkFact
    rw [if_neg hid, require_eq_ok, hops.parentId, Option.all_eq_true]
    intro p hp
    exact decide_eq_true (hinf.mem_ids.mpr (hpar p hp))
  have haft := h.addFact hops.runId hchk (hleft r hops)
  refine ends_recordLifecycle (.inl ⟨?_, hunknown, hchk⟩) (fun _ => hQ r hops hsta haft)
    fun _ hstop => hE r hops hsta haft (hops.reasonCodes ▸ hstop)
  exact hops.stateTs ▸ createdTs_pos h.session.allowed

/-- A fact that was recorded as the intent says is left as it is. -/
theorem ends_recordOpening_present (h : Attempting k o base log σ left w)
    {durable : List LifecycleRecord} {kind : LifecycleKind}
    {Q : Unit → World δ → Prop}
    (hops : Opens k o kind reason r) (hsta : r.evidenceState = intent.predecisionState)
    (hlife : (w.store.lifecycle.filter fun q => q.objectId = o.objectId kind) = [r])
    (hdur : (durable.filter fun q => q.objectId = o.objectId kind) = [r]) (hQ : Q () w) :
    Ends (recordOpening k o intent durable kind reason state) w Q E := by
  have hlat : w.session.latestLifecycleRecords.get? (o.objectId kind) = some r := by
    rw [h.coherent.informed.latest, hlife]
    rfl
  have hmat : matchesIntent k o intent kind reason r durable := by
    unfold matchesIntent
    rw [hdur]
    exact ⟨⟨r, rfl, hops.kind, hops.status, hops.stateTs, hops.reasonCodes, hsta⟩, hops.kind,
      hops.parentId, hops.packageId, hops.marketId, hops.expressionId, hops.runId,
      hops.stateTs.ge⟩
  unfold recordOpening
  rw [ends_bind, ends_get, hlat]
  rw [ends_check]
  exact ⟨fun _ => hQ, fun hnot => absurd hmat hnot⟩

/-- The end of an attempt that was stopped. -/
def Stopped (k : Config δ) (o : BoundOpening) (base : List LifecycleRecord) (log : List (AdmittedEvent δ))
    (σ : EvidenceState) (w : World δ) (e : CaptureError) (w' : World δ) : Prop :=
  e = .stopped ∧ w.stop ≠ none ∧ Midway k o base log σ w'.store

/-- The end of an attempt that returned. -/
structure Finished (k : Config δ) (o : BoundOpening) (base : List LifecycleRecord)
    (log : List (AdmittedEvent δ)) (σ : EvidenceState) (st : EvidenceStore δ) : Prop where
  midway : Midway k o base log σ st
  facts : ∃ r t, st.lifecycle = base ++ [r, t] ∧ OpensOpportunity k o r ∧ OpensThesis k o t

/-- A stop after one of the facts. -/
def StopsAtFact (stop : Option Step) : Prop :=
  stop = some (.lifecycle ["FORMAL_SETUP_ADMITTED".toList])
    ∨ stop = some (.lifecycle ["THESIS_CREATED".toList])

/-- The facts of one object among those of the attempts. -/
theorem Fresh.filter_eq (hfr : Fresh o base) (kind : LifecycleKind)
    (hkind : kind = .opportunity ∨ kind = .thesis) :
    ((base ++ left).filter fun q => decide (q.objectId = o.objectId kind))
      = left.filter fun q => decide (q.objectId = o.objectId kind) := by
  have hnil : (base.filter fun q => decide (q.objectId = o.objectId kind)) = [] := by
    rw [List.filter_eq_nil_iff]
    intro r hr
    rcases hkind with rfl | rfl
    · exact fun h => hfr.opportunity r hr (of_decide_eq_true h)
    · exact fun h => hfr.thesis r hr (of_decide_eq_true h)
  rw [List.filter_append, hnil, List.nil_append]

omit [DecidableEq δ] in
/-- Once both are recorded, each object has one fact. -/
theorem Fresh.filter_both (hfr : Fresh o base) {r t : LifecycleRecord} (hr : OpensOpportunity k o r)
    (ht : OpensThesis k o t) :
    ((base ++ [r, t]).filter fun q => decide (q.objectId = o.objectId .opportunity)) = [r]
      ∧ ((base ++ [r, t]).filter fun q => decide (q.objectId = o.objectId .thesis)) = [t] := by
  have hne : ¬ r.objectId = o.objectId .thesis := by
    rw [hr.objectId]
    exact hfr.distinct
  have hne' : ¬ t.objectId = o.objectId .opportunity := by
    rw [ht.objectId]
    exact hfr.distinct.symm
  rw [hfr.filter_eq .opportunity (.inl rfl), hfr.filter_eq .thesis (.inr rfl)]
  constructor
  · simp [hr.objectId, hne']
  · simp [ht.objectId, hne]

/-- **The facts that are missing are recorded, and those that are there are accepted.** -/
theorem Attempting.record (h : Attempting k o base log σ left w) (hfr : Fresh o base)
    (hev : ∀ r ∈ left, r.evidenceState = σ) (hσ : intent.predecisionState = σ)
    (hstop : state = σ ∨ ¬ StopsAtFact w.stop) :
    Ends (do
        recordOpening k o intent w.store.lifecycle .opportunity "FORMAL_SETUP_ADMITTED" state
        recordOpening k o intent w.store.lifecycle .thesis "THESIS_CREATED" state : Capture δ Unit) w
      (fun _ w' => w'.stop = w.stop ∧ ∃ r t, Attempting k o base log σ [r, t] w')
      (Stopped k o base log σ w) := by
  rw [ends_bind]
  -- the thesis, once the opportunity is recorded
  have hthe : ∀ r, OpensOpportunity k o r → ∀ w' : World δ, w'.stop = w.stop →
      Attempting k o base log σ [r] w' → (StopsAtFact w.stop → r.evidenceState = σ) →
      Ends (recordOpening k o intent w.store.lifecycle .thesis "THESIS_CREATED" state) w'
        (fun _ w' => w'.stop = w.stop ∧ ∃ r t, Attempting k o base log σ [r, t] w')
        (Stopped k o base log σ w) := by
    intro r hr w' hw' h' hrstate
    refine ends_recordOpening_missing h' (fun q hq => ?_) (fun p hp => ?_) (fun t ht => .both r t hr ht)
      (fun t ht _ h'' => ⟨hw', r, t, h''⟩) fun t ht htstate h'' hat => ⟨rfl, ?_, h''.midway fun q hq => ?_⟩
    · rw [h'.lifecycle] at hq
      refine forall_mem_snoc hfr.thesis ?_ q hq
      rw [hr.objectId]
      exact hfr.distinct
    · cases hp
      rw [h'.lifecycle]
      exact ⟨r, List.mem_append_right _ (List.mem_singleton_self r), hr.objectId⟩
    · rw [← hw', hat]
      exact nofun
    · have hat : StopsAtFact w.stop := .inr (hw'.symm.trans hat)
      rcases hq with - | ⟨-, hq⟩
      · exact hrstate hat
      · rw [List.mem_singleton.mp hq, htstate]
        exact hstop.resolve_right fun hnot => hnot hat
  cases h.left with
  | none =>
    refine ends_recordOpening_missing h (fun q hq => ?_) nofun
      (fun r hr => .opportunity r hr) (fun r hr hrstate h' => hthe r hr _ rfl h' fun hat => ?_)
      fun r hr hrstate h' hat => ⟨rfl, ?_, h'.midway fun q hq => ?_⟩
    · rw [h.lifecycle, List.append_nil] at hq
      exact hfr.opportunity q hq
    · exact hrstate.trans (hstop.resolve_right fun hnot => hnot hat)
    · rw [hat]
      exact nofun
    · rw [List.mem_singleton.mp hq, hrstate]
      exact hstop.resolve_right fun hnot => hnot (.inl hat)
  | opportunity r hr =>
    have hflt : (w.store.lifecycle.filter fun q => q.objectId = o.objectId .opportunity) = [r] := by
      rw [h.lifecycle, hfr.filter_eq .opportunity (.inl rfl)]
      simp [hr.objectId]
    exact ends_recordOpening_present h hr ((hev r (List.mem_singleton_self r)).trans hσ.symm) hflt hflt
      (hthe r hr w rfl h fun _ => hev r (List.mem_singleton_self r))
  | both r t hr ht =>
    obtain ⟨hopp, hthe⟩ := hfr.filter_both hr ht
    rw [← h.lifecycle] at hopp hthe
    refine ends_recordOpening_present h hr ((hev r (by simp)).trans hσ.symm) hopp hopp ?_
    exact ends_recordOpening_present h ht ((hev t (by simp)).trans hσ.symm) hthe hthe ⟨rfl, r, t, h⟩

/-! ### Whole attempts -/

/-- With both facts recorded, the package is saved in the place of the intent. -/
theorem Attempting.finish {r t : LifecycleRecord} (h : Attempting k o base log σ [r, t] w)
    (state : EvidenceState) :
    Ends (do
        modifySession fun s =>
          { s with
            packages := s.packages.set o.packageId
              { o.package state with binding := some ⟨o.identity k, false⟩ }
            openingIntents := s.openingIntents.erase o.packageId }
        persist "STRUCTURAL_BOUND_OPENED"
        pure state : Capture δ EvidenceState) w
      (fun _ w' => Finished k o base log σ w'.store) (Stopped k o base log σ w) := by
  rw [ends_bind, modifySession, ends_modify, ends_bind]
  obtain ⟨hr, ht⟩ : OpensOpportunity k o r ∧ OpensThesis k o t := by
    cases h.left with
    | both _ _ hr ht => exact ⟨hr, ht⟩
  generalize hw' : ({ w with session := _ } : World δ) = w'
  have hstop : w'.stop = w.stop := by rw [← hw']
  have hmid : Midway k o base log σ w'.saved.store := by
    have hmove : Move k (fun _ _ => True) w w' := by
      rw [← hw']
      exact ⟨.refl, fun h => h.of_eq rfl rfl rfl rfl rfl⟩
    refine ⟨((h.coherent.move hmove).move (move_saved (P := fun _ _ => True))).store, _, rfl, ?_,
      .opened r t ?_ ?_ hr ht⟩
    · rw [← hw']
      exact (List.filter_sublist.append_left _).trans h.log
    · rw [← hw']
      refine ⟨h.session.allowed, ?_, _, Dict.get?_set_self, rfl, rfl, rfl, rfl, rfl⟩
      show (w.session.openingIntents.erase o.packageId).get? o.packageId = none
      rw [Dict.get?_erase, if_pos rfl]
    · rw [← hw']
      exact h.lifecycle
  refine ends_persist ⟨hmid, r, t, ?_, hr, ht⟩ fun hat => ⟨rfl, ?_, hmid⟩
  · rw [← hw']
    exact h.lifecycle
  · rw [← hstop, hat]
    exact Option.some_ne_none _

/-- Writing the window of an attempt. -/
theorem Attempting.flush (h : Attempting k o base log σ left w) (hev : ∀ r ∈ left, r.evidenceState = σ) :
    Ends (flushIfFull k true) w
      (fun _ w' => Attempting k o base log σ left w' ∧ w'.session.pending = [] ∧ w'.stop = w.stop
        ∧ w'.store.admissions = w.store.admissions ++ w.session.pending
        ∧ w'.store.lifecycle = w.store.lifecycle
        ∧ w'.session.runtimeSegmentIndex = w.session.runtimeSegmentIndex
        ∧ w'.session.durableSourceIds = w.session.durableSourceIds) (Stopped k o base log σ w) := by
  unfold flushIfFull
  rw [ends_bind, ends_get]
  by_cases hpend : w.session.pending = []
  · rw [if_pos (.inl hpend)]
    refine ⟨h, hpend, rfl, ?_, rfl, rfl, rfl⟩
    rw [hpend, List.append_nil]
  · rw [if_neg (by simpa using hpend)]
    have hstop : ∀ step w', w.stop = some step → Attempting k o base log σ left w' →
        Stopped k o base log σ w .stopped w' :=
      fun step w' hat h' => ⟨rfl, hat ▸ Option.some_ne_none _, h'.midway hev⟩
    exact ends_flush ⟨h.written.save, rfl, rfl, rfl, rfl, rfl, rfl⟩ (fun hat => hstop _ _ hat h.written)
      fun hat => hstop _ _ hat h.written.save

/-- **An attempt with its intent at hand opens the package, unless it is stopped on the way.** -/
theorem Attempting.resume (h : Attempting k o base log σ left w) (hlog : Ordered log)
    (hfr : Fresh o base) (hev : ∀ r ∈ left, r.evidenceState = σ) (hσ : intent.predecisionState = σ)
    (hseg : intent.openingSegmentIndex ≤ w.session.runtimeSegmentIndex)
    (hsel : ∀ e ∈ w.session.prebuffer o.marketId, e.sourceIdentity ∈ intent.prebufferSourceIds →
      e.sourceIdentity ∈ w.session.durableSourceIds)
    (hstop : openingState intent (w.store.admissions ++ w.session.pending) w.session.runtimeSegmentIndex = σ
      ∨ ¬ StopsAtFact w.stop) :
    Ends (resumeOpening k o intent) w (fun _ w' => Finished k o base log σ w'.store)
      (Stopped k o base log σ w) := by
  unfold resumeOpening writeSelected
  rw [ends_bind, ends_bind, modifySession, ends_modify]
  rw [CaptureSession.queueDurable_of_mem w.session fun e he =>
    hsel e (List.mem_filter.mp he).1 (of_decide_eq_true (List.mem_filter.mp he).2)]
  refine (h.flush hev).mono (fun _ w' hflushed => ?_) fun _ _ he => he
  obtain ⟨h', hpend, hw', hadm, hlife, hidx, -⟩ := hflushed
  have hsrt := hlog.sublist h'.log
  rw [hpend, List.append_nil] at hsrt
  rw [ends_bind, ends_get, ends_bind, ends_attempt, loadAdmissions_eq_ok.mpr ⟨rfl, hsrt⟩]
  show Ends _ _ _ _
  rw [ends_bind, ends_check]
  refine ⟨fun _ => ?_, fun hnot => absurd (hidx ▸ hseg) hnot⟩
  rw [hadm, hidx]
  have hrec := h'.record hfr hev hσ (hw'.symm ▸ hstop)
  rw [ends_bind] at hrec ⊢
  refine hrec.mono (fun _ w₁ hthe => ?_) fun _ _ he => ⟨he.1, hw' ▸ he.2.1, he.2.2⟩
  rw [ends_bind]
  refine hthe.mono (fun _ w₂ hboth => ?_) fun _ _ he => ⟨he.1, hw' ▸ he.2.1, he.2.2⟩
  obtain ⟨hw₂, r, t, h₂⟩ := hboth
  refine (h₂.finish _).mono (fun _ _ h => h) fun _ _ he => ⟨he.1, ?_, he.2.2⟩
  rw [← hw', ← hw₂]
  exact he.2.1

/-! ### The first attempt -/

/-- The log once the window of the opening is written. -/
def World.window (w : World δ) (o : BoundOpening) : List (AdmittedEvent δ) :=
  w.store.admissions ++ (w.session.queueDurable (w.session.available o.marketId o.createdTs)).pending

theorem queueDurable_intents (s : CaptureSession δ) (intents : Dict Text (OpeningIntent δ))
    (events : List (AdmittedEvent δ)) :
    ({ s with openingIntents := intents } : CaptureSession δ).queueDurable events
      = { s.queueDurable events with openingIntents := intents } := by
  induction events generalizing s with
  | nil => rfl
  | cons e events ih =>
    have hone : ({ s with openingIntents := intents } : CaptureSession δ).queueOne e
        = { s.queueOne e with openingIntents := intents } := by
      unfold CaptureSession.queueOne
      by_cases he : e.sourceIdentity ∈ s.durableSourceIds
      · rw [if_pos he, if_pos he]
      · rw [if_neg he, if_neg he]
    show (CaptureSession.queueOne _ e).queueDurable events = _
    rw [hone, ih]
    rfl

/-- The queue only grows. -/
theorem pending_sublist_queueDurable (s : CaptureSession δ) (events : List (AdmittedEvent δ)) :
    s.pending.Sublist (s.queueDurable events).pending := by
  induction events generalizing s with
  | nil => exact List.Sublist.refl _
  | cons e events ih =>
    refine List.Sublist.trans ?_ (ih (s.queueOne e))
    unfold CaptureSession.queueOne
    split
    · exact List.Sublist.refl _
    · exact List.sublist_append_left _ _

/-- The state of the evidence at the opening. -/
abbrev World.predecision (w : World δ) (o : BoundOpening) : EvidenceState :=
  w.session.predecision o.marketId o.expressionId o.createdTs

/-- What a call must find to go on to the facts. -/
structure Admissible (k : Config δ) (o : BoundOpening) (w : World δ) : Prop where
  allowed : checkOpening k o w.session.bindingActivation = .ok ()
  intent : w.session.openingIntents.get? o.packageId = none
  package : w.session.packages.get? o.packageId = none
  opportunity : o.opportunityId ∉ w.session.lifecycleIds
  thesis : o.thesisId ∉ w.session.lifecycleIds

/-- The intent is declared and its window written. -/
structure Windowed (k : Config δ) (o : BoundOpening) (w : World δ) (intent : OpeningIntent δ) (w' : World δ) :
    Prop where
  attempting : Attempting k o w.store.lifecycle (w.window o)
    (w.session.predecision o.marketId o.expressionId o.createdTs) [] w'
  pending : w'.session.pending = []
  admissions : w'.store.admissions = w.window o
  stop : w'.stop = w.stop
  predecision : intent.predecisionState = w.session.predecision o.marketId o.expressionId o.createdTs
  segment : intent.openingSegmentIndex = w'.session.runtimeSegmentIndex
  selected : ∀ id ∈ intent.prebufferSourceIds, id ∈ w'.session.durableSourceIds

theorem ends_declareIntent_windowed (hcoh : w.Coherent k) (h : Admissible k o w) :
    Ends (declareIntent k o) w (Windowed k o w)
      (Stopped k o w.store.lifecycle (w.window o) (w.predecision o) w) := by
  unfold declareIntent
  rw [ends_bind, ends_get, ends_bind, ends_check]
  refine ⟨fun _ => ?_, fun hnot => absurd ⟨h.opportunity, h.thesis⟩ hnot⟩
  rw [ends_bind, modifySession, ends_modify, ends_bind]
  -- the intent is declared
  generalize hw₁ : ({ w with session := _ } : World δ) = w₁
  have hdecl : Declared k o (w.predecision o) w₁.session.checkpoint := by
    rw [← hw₁]
    exact ⟨h.allowed, ⟨_, Dict.get?_set_self, rfl, rfl, le_rfl⟩, h.package⟩
  have hmove : Move k (fun _ _ => True) w w₁ := by
    rw [← hw₁]
    exact ⟨.refl, fun h => h.of_eq rfl rfl rfl rfl rfl⟩
  -- and saved
  have hsv : Attempting k o w.store.lifecycle (w.window o) (w.predecision o) [] w₁.saved := by
    have hlog : (w₁.store.admissions ++ w₁.session.pending).Sublist (w.window o) := by
      rw [← hw₁]
      exact (pending_sublist_queueDurable w.session _).append_left _
    refine ⟨(hcoh.move hmove).move (move_saved (P := fun _ _ => True)), hdecl,
      ⟨_, rfl, hdecl, ?_, fun e he => List.mem_append_right _ he⟩, hlog, ?_, .none⟩
    · exact (List.filter_sublist.append_left _).trans hlog
    · rw [← hw₁, List.append_nil]
      rfl
  have hstop : w₁.stop = w.stop := by rw [← hw₁]
  refine ends_persist ?_ fun hat => ⟨rfl, ?_, hsv.midway fun r hr => by cases hr⟩
  swap
  · rw [← hstop, hat]
    exact Option.some_ne_none _
  rw [ends_bind, modifySession, ends_modify, ends_bind]
  -- the window is queued
  have hsub : (w.session.available o.marketId o.createdTs).Sublist
      (w₁.saved.session.prebuffer o.marketId) := by
    rw [← hw₁]
    exact List.filter_sublist
  have hpendingWindow : (w₁.saved.store.admissions ++ (w₁.saved.session.queueDurable
      (w.session.available o.marketId o.createdTs)).pending) = w.window o := by
    have hsame := congrArg CaptureSession.pending (queueDurable_intents w.session
      (w.session.openingIntents.set o.packageId (w.session.newIntent k o))
      (w.session.available o.marketId o.createdTs))
    rw [← hw₁]
    exact congrArg (w.store.admissions ++ ·) hsame
  have hqd : Attempting k o w.store.lifecycle (w.window o) (w.predecision o) []
      { w₁.saved with
        session := w₁.saved.session.queueDurable (w.session.available o.marketId o.createdTs) } := by
    obtain ⟨c, hc, hcdeclared, hclog, hcov⟩ := hsv.saved
    refine ⟨hsv.coherent.move (move_queueDurable (P := fun _ _ => True) hsub trivial), ?_,
      ⟨c, hc, hcdeclared, hclog, fun e he => ?_⟩, hpendingWindow ▸ List.Sublist.refl _, hsv.lifecycle, .none⟩
    · obtain ⟨durable, pending, hqueue⟩ :=
        queueDurable_eq w₁.saved.session (w.session.available o.marketId o.createdTs)
      rw [hqueue]
      exact ⟨hdecl.allowed, hdecl.intent, hdecl.package⟩
    · rcases List.mem_append.mp (hcov e he) with he | he
      · exact List.mem_append_left _ he
      · exact List.mem_append_right _ ((pending_sublist_queueDurable _ _).subset he)
  refine Ends.mono (hqd.flush fun r hr => by cases hr)
    (fun _ w' hflushed => ?_) fun _ _ he => ⟨he.1, hstop ▸ he.2.1, he.2.2⟩
  obtain ⟨h', hpend, hw', hadm, -, hidx, hdur⟩ := hflushed
  refine ⟨h', hpend, ?_, hw'.trans hstop, rfl, ?_, fun id hid => ?_⟩
  · rw [hadm]
    exact hpendingWindow
  · obtain ⟨durable, pending, hqueue⟩ :=
      queueDurable_eq w₁.saved.session (w.session.available o.marketId o.createdTs)
    rw [hidx, congrArg CaptureSession.runtimeSegmentIndex hqueue, ← hw₁]
    rfl
  · rw [hdur]
    obtain ⟨e, he, rfl⟩ := List.mem_map.mp hid
    exact mem_durable_queueDurable (.inl he)

/-- In the process that declared it, the state of the evidence is that of the intent: its whole
window is written. -/
theorem Windowed.openingState_eq {w' : World δ} (h : Windowed k o w intent w') :
    openingState intent (w'.store.admissions ++ w'.session.pending) w'.session.runtimeSegmentIndex
      = intent.predecisionState := by
  refine if_pos ⟨fun id hid => ?_, h.segment⟩
  exact h.attempting.coherent.covered.queued id (h.selected id hid)

/-- What the first call must find to open the package. -/
structure Openable (k : Config δ) (o : BoundOpening) (w : World δ) : Prop where
  admissible : Admissible k o w
  distinct : o.opportunityId ≠ o.thesisId
  ordered : (w.window o).Pairwise fun a b => a.admissionOrdinal ≤ b.admissionOrdinal

omit [DecidableEq δ] in
theorem Admissible.fresh (hcoh : w.Coherent k) (h : Admissible k o w)
    (hdist : o.opportunityId ≠ o.thesisId) : Fresh o w.store.lifecycle where
  distinct := hdist
  opportunity r hr hid := h.opportunity (hcoh.informed.mem_ids.mpr ⟨r, hr, hid⟩)
  thesis r hr hid := h.thesis (hcoh.informed.mem_ids.mpr ⟨r, hr, hid⟩)

/-- **The first attempt opens the package, unless it is stopped on the way.** -/
theorem Openable.first (hcoh : w.Coherent k) (h : Openable k o w) : Ends (openBoundStructuralPackage k o) w
      (fun _ w' => Finished k o w.store.lifecycle (w.window o) (w.predecision o) w'.store)
      (Stopped k o w.store.lifecycle (w.window o) (w.predecision o) w) := by
  unfold openBoundStructuralPackage
  rw [ends_bind, ends_get, h.admissible.allowed]
  rw [h.admissible.intent, h.admissible.package]
  show Ends (declareIntent k o >>= fun intent => resumeOpening k o intent) w _ _
  rw [ends_bind]
  refine (ends_declareIntent_windowed hcoh h.admissible).mono (fun intent w' hw' => ?_)
    fun _ _ he => he
  refine Ends.mono (hw'.attempting.resume h.ordered (h.admissible.fresh hcoh h.distinct)
    (List.forall_mem_nil _) hw'.predecision hw'.segment.le (fun e _ he => hw'.selected _ he)
    (.inl (hw'.openingState_eq.trans hw'.predecision))) (fun _ _ h => h) fun _ _ he => ?_
  exact ⟨he.1, hw'.stop ▸ he.2.1, he.2.2⟩

/-- One object cannot be both the opportunity and the thesis. -/
theorem Attempting.same_object (h : Attempting k o base log σ [] w) (hsame : o.opportunityId = o.thesisId)
    (hnew : ∀ r ∈ base, r.objectId ≠ o.opportunityId) (intent : OpeningIntent δ) (state : EvidenceState) :
    Ends (do
        recordOpening k o intent w.store.lifecycle .opportunity "FORMAL_SETUP_ADMITTED" state
        recordOpening k o intent w.store.lifecycle .thesis "THESIS_CREATED" state : Capture δ Unit) w
      (fun _ _ => False) fun _ _ => True := by
  have hbase : w.store.lifecycle = base := by
    rw [h.lifecycle, List.append_nil]
  rw [ends_bind]
  refine ends_recordOpening_missing h (fun q hq => ?_) nofun
    (fun r hr => .opportunity r hr) (fun r hr _ h' => ?_) fun _ _ _ _ _ => trivial
  · exact hnew q (hbase ▸ hq)
  · have hid : r.objectId = o.objectId .thesis := hr.objectId.trans hsame
    have hlat : (w.addFact r).session.latestLifecycleRecords.get? (o.objectId .thesis) = some r := by
      show (w.session.latestLifecycleRecords.set r.objectId r).get? _ = _
      rw [hid, Dict.get?_set_self]
    unfold recordOpening
    rw [ends_bind, ends_get, hlat]
    rw [ends_check]
    refine ⟨fun hmat => ?_, fun _ => trivial⟩
    obtain ⟨⟨q, hq, -⟩, -⟩ := hmat
    have hmem := List.mem_filter.mp (List.mem_of_head? hq)
    exact hnew q (hbase ▸ hmem.1) ((of_decide_eq_true hmem.2).trans hsame.symm)

/-- **A first call that returns found all it needs.** -/
theorem openable_of_returns (hcoh : w.Coherent k) (hint : w.session.openingIntents.get? o.packageId = none)
    (hpkg : w.session.packages.get? o.packageId = none) :
    Ends (openBoundStructuralPackage k o) w (fun _ _ => Openable k o w) fun _ _ => True := by
  unfold openBoundStructuralPackage
  rw [ends_bind, ends_get, ends_bind, ends_attempt]
  refine (Sat.self fun _ _ => trivial).mono (fun _ hallowed => ?_) fun _ _ => trivial
  rw [hint, hpkg]
  rw [ends_bind]
  by_cases hids : o.opportunityId ∉ w.session.lifecycleIds ∧ o.thesisId ∉ w.session.lifecycleIds
  swap
  · unfold declareIntent
    rw [ends_bind, ends_get, ends_bind, ends_check]
    exact ⟨fun h => absurd h hids, fun _ => trivial⟩
  have hadm : Admissible k o w := ⟨hallowed, hint, hpkg, hids.1, hids.2⟩
  refine (ends_declareIntent_windowed hcoh hadm).mono (fun intent w' hw' => ?_) fun _ _ _ => trivial
  unfold resumeOpening writeSelected
  rw [ends_bind, ends_bind, modifySession, ends_modify]
  rw [CaptureSession.queueDurable_of_mem w'.session fun e he =>
    hw'.selected _ (of_decide_eq_true (List.mem_filter.mp he).2)]
  unfold flushIfFull
  rw [ends_bind, ends_get, if_pos (.inl hw'.pending), ends_pure]
  rw [ends_bind, ends_get, ends_bind, ends_attempt]
  refine (Sat.self fun _ _ => trivial).mono (fun durable hload => ?_) fun _ _ => trivial
  have hord := (loadAdmissions_eq_ok.mp hload).2
  rw [hw'.admissions] at hord
  rw [ends_bind, ends_check]
  refine ⟨fun _ => ?_, fun _ => trivial⟩
  by_cases hdist : o.opportunityId = o.thesisId
  · have hnew : ∀ r ∈ w.store.lifecycle, r.objectId ≠ o.opportunityId := fun r hr hid =>
      hids.1 (hcoh.informed.mem_ids.mpr ⟨r, hr, hid⟩)
    have hrec := hw'.attempting.same_object hdist hnew intent
      (openingState intent durable w'.session.runtimeSegmentIndex)
    rw [ends_bind] at hrec ⊢
    refine hrec.mono (fun _ w₁ hthe => ?_) fun _ _ he => he
    rw [ends_bind]
    exact hthe.mono (fun _ _ h => h.elim) fun _ _ he => he
  · exact Ends.of_forall (fun _ _ => ⟨hadm, hdist, hord⟩) fun _ _ => trivial

/-! ### Later attempts -/

/-- A process that was recovered from what an attempt left. -/
inductive Restarted (k : Config δ) (o : BoundOpening) (base : List LifecycleRecord)
    (log : List (AdmittedEvent δ)) (σ : EvidenceState) (w : World δ) : Prop
  | declared (left : List LifecycleRecord) (intent : OpeningIntent δ)
      (h : Attempting k o base log σ left w) (hev : ∀ r ∈ left, r.evidenceState = σ)
      (hintent : w.session.openingIntents.get? o.packageId = some intent)
      (hidentity : intent.identity = o.identity k) (hσ : intent.predecisionState = σ)
      (hsegment : intent.openingSegmentIndex < w.session.runtimeSegmentIndex)
      (hbuffer : w.session.prebuffer o.marketId = [])
  | opened (h : Opened k o w.session.checkpoint) (hfinished : Finished k o base log σ w.store)

/-- **A retry opens the package, unless it is stopped on the way**; it must not be stopped right
after a fact if the intent says that the window is complete. -/
theorem Restarted.retry (h : Restarted k o base log σ w) (hlog : Ordered log) (hfr : Fresh o base)
    (hstop : σ = .preDecisionWindowIncomplete ∨ ¬ StopsAtFact w.stop) :
    Ends (openBoundStructuralPackage k o) w (fun _ w' => Finished k o base log σ w'.store)
      (Stopped k o base log σ w) := by
  unfold openBoundStructuralPackage
  rw [ends_bind, ends_get, ends_bind, ends_attempt]
  cases h with
  | declared left intent h hev hint hident hσ hseg hbuf =>
    rw [show checkOpening k o w.session.bindingActivation = .ok () from h.session.allowed]
    rw [hint, show w.session.packages.get? o.packageId = none from h.session.package]
    rw [ends_bind, ends_check]
    refine ⟨fun _ => ?_, fun hnot => absurd hident hnot⟩
    refine h.resume hlog hfr hev hσ hseg.le (fun e he => ?_) (hstop.imp (fun hσ' => ?_) id)
    · rw [hbuf] at he
      cases he
    · -- in a later segment the evidence is incomplete
      rw [hσ']
      exact if_neg fun h => hseg.ne h.2
  | opened h hfin =>
    obtain ⟨package, hpkg, hsame⟩ := h.package
    rw [show checkOpening k o w.session.bindingActivation = .ok () from h.allowed]
    rw [show w.session.openingIntents.get? o.packageId = none from h.intent,
      show w.session.packages.get? o.packageId = some package from hpkg]
    rw [ends_bind, ends_check]
    exact ⟨fun _ => hfin, fun hnot => absurd hsame hnot⟩

omit [DecidableEq δ] in
/-- The segment of a recovery comes after all others. -/
theorem nextSegment_above (c : RuntimeCheckpoint δ) (segments : List ℕ) :
    segments.getLast?.all (· < nextSegment c segments) = true ∧ c.segmentIndex < nextSegment c segments := by
  unfold nextSegment
  rcases segments.getLast? with - | last
  · exact ⟨rfl, Nat.lt_succ_self _⟩
  · exact ⟨decide_eq_true (Nat.lt_succ_of_le (le_max_right _ _)), Nat.lt_succ_of_le (le_max_left _ _)⟩

/-- The world that a recovery from a checkpoint builds. -/
def EvidenceStore.recovered (k : Config δ) (st : EvidenceStore δ) (c : RuntimeCheckpoint δ)
    (f : LifecycleFold) : World δ :=
  (World.segmented ⟨c.session k st.admissions f.latest (nextSegment c st.segments), st, none⟩
    (st.segments ++ [nextSegment c st.segments])).saved

variable {session : CaptureSession δ} {s : System δ}

theorem ends_recoverCaptureSession
    (hc : st.checkpoint = some c) (hf : st.Recorded k f) (hlog : Ordered st.admissions) :
    Ends (recoverCaptureSession k) ⟨session, st, none⟩ (fun _ w' => w' = st.recovered k c f)
      fun _ _ => False := by
  unfold recoverCaptureSession
  rw [ends_bind, ends_get, hc]
  rw [ends_recoverFrom, loadAdmissions_eq_ok.mpr ⟨rfl, hlog⟩]
  rw [hf.fold]
  refine ⟨fun _ => ⟨fun _ => ?_, fun hnot => ?_⟩, fun hnot => hnot (hf.agrees c hc)⟩
  · unfold appendProcessSegment
    rw [ends_bind, ends_bind, ends_get, ends_bind, ends_check]
    refine ⟨fun _ => ?_, fun hnot => hnot (nextSegment_above c st.segments).1⟩
    refine ends_write (ends_persist rfl fun hat => ?_) fun hat => ?_
    · cases hat
    · cases hat
  · exact hnot (foldLifecycleRecords_spec hf.fold).latestValid

/-- **What an attempt left can be recovered.** -/
theorem Midway.recover (h : Midway k o base log σ st) (hlog : Ordered log) :
    Ends (recoverCaptureSession k) ⟨session, st, none⟩ (fun _ w' => Restarted k o base log σ w')
      fun _ _ => False := by
  obtain ⟨c, hc, hres, hphase⟩ := h.phase
  obtain ⟨f, hf⟩ := h.coherent.recorded
  have hsrt : Ordered st.admissions := hlog.sublist ((List.sublist_append_left _ _).trans hres)
  refine Ends.mono (Ends.and (EvidenceStore.Coherent.recover h.coherent)
    (ends_recoverCaptureSession hc hf hsrt)) (fun _ w' ⟨hcoh, hw'⟩ => ?_) fun _ _ he => he.2
  subst hw'
  have habove := (nextSegment_above c st.segments).2
  have hpkgs : ∀ id, (st.recovered k c f).session.packages.get? id = (c.packages.get? id).map fun p =>
      { p with tail := cutTail .interrupted "PROCESS_RESTART".toList p.tail } :=
    fun id => Dict.get?_mapValues
  have hsv : ((st.recovered k c f).store.restored (st.recovered k c f).session.checkpoint).Sublist log :=
    (List.filter_sublist.append_left _).trans hres
  cases hphase with
  | declared left hdecl hlife hleft hsta =>
    obtain ⟨intent, hint, hident, hσ, hidx⟩ := hdecl.intent
    have hses : Declared k o σ (st.recovered k c f).session.checkpoint := by
      refine ⟨hdecl.allowed, ⟨intent, hint, hident, hσ, hidx.trans habove.le⟩, ?_⟩
      exact (hpkgs o.packageId).trans (by rw [hdecl.package]; rfl)
    refine .declared left intent ⟨hcoh, hses, ⟨_, rfl, hses, hsv, ?_⟩, hres, hlife,
      hleft⟩ hsta hint hident hσ (hidx.trans_lt habove) rfl
    exact fun e he => List.mem_append_right _ he
  | opened r t hopd hlife hr ht =>
    obtain ⟨package, hpkg, hsame⟩ := hopd.package
    have hses : Opened k o (st.recovered k c f).session.checkpoint := by
      refine ⟨hopd.allowed, hopd.intent, _, (hpkgs o.packageId).trans (by rw [hpkg]; rfl), ?_⟩
      exact hsame
    exact .opened hses ⟨⟨hcoh.store, _, rfl, hsv, .opened r t hses hlife hr ht⟩, r, t, hlife, hr, ht⟩

theorem Restarted.of_stop (h : Restarted k o base log σ w) (stop : Option Step) :
    Restarted k o base log σ { w with stop := stop } := by
  cases h with
  | declared left intent h hev hint hident hσ hseg hbuf =>
    refine .declared left intent ⟨⟨?_, h.coherent.covered, h.coherent.started⟩, h.session, h.saved, h.log,
      h.lifecycle, h.left⟩ hev hint hident hσ hseg hbuf
    exact h.coherent.informed.of_eq rfl rfl rfl rfl rfl
  | opened h hfin => exact .opened h hfin

/-! ### Whole runs of attempts -/

/-- A process is recovered and tries the opening again, up to a stop. -/
def System.retry (k : Config δ) (o : BoundOpening) (s : System δ) (stop : Step) : System δ :=
  (s.step k (.recover none)).step k (.op (.openBoundStructuralPackage o) (some stop))

/-- However an attempt ends, the next one can be made. -/
theorem System.midway_of_ends {stop : Option Step} (hses : s.session = some session)
    (h : Ends (openBoundStructuralPackage k o) ⟨session, s.store, stop⟩
      (fun _ w' => Finished k o base log σ w'.store) fun _ w' => Midway k o base log σ w'.store) :
    Midway k o base log σ (s.step k (.op (.openBoundStructuralPackage o) stop)).store := by
  have hrun : Ends (Op.run k (.openBoundStructuralPackage o)) ⟨session, s.store, stop⟩
      (fun _ w' => Midway k o base log σ w'.store) fun _ w' => Midway k o base log σ w'.store := by
    show Ends (openBoundStructuralPackage k o >>= fun _ => pure ()) _ _ _
    rw [ends_bind]
    exact h.mono (fun _ _ h => h.midway) fun _ _ h => h
  unfold System.step
  rw [hses]
  dsimp only
  cases hres : Op.run k (.openBoundStructuralPackage o) ⟨session, s.store, stop⟩ with
  | ok a w' => exact hrun.of_ok hres
  | error e w' =>
    have hw' := hrun.of_error hres
    cases e <;> exact hw'

theorem System.recover_midway (h : Midway k o base log σ s.store) (hlog : Ordered log) :
    ∃ session, (s.step k (.recover none)).session = some session
      ∧ ∀ stop, Restarted k o base log σ ⟨session, (s.step k (.recover none)).store, stop⟩ := by
  have hrecv : Ends (recoverCaptureSession k) ⟨CaptureSession.fresh k, s.store, none⟩
      (fun _ w' => Restarted k o base log σ w') fun _ _ => False := h.recover hlog
  obtain ⟨_, w', hrun, hw'⟩ := hrecv.returns
  refine ⟨w'.session, ?_, fun stop => ?_⟩
  · show (System.ofRecovery _).session = _
    rw [hrun]
    rfl
  · show Restarted k o base log σ ⟨w'.session, (System.ofRecovery _).store, stop⟩
    rw [hrun]
    exact hw'.of_stop stop

theorem System.retry_midway (h : Midway k o base log σ s.store)
    (hlog : Ordered log) (hfr : Fresh o base)
    {stop : Step} (hstop : σ = .preDecisionWindowIncomplete ∨ ¬ StopsAtFact (some stop)) :
    Midway k o base log σ (s.retry k o stop).store := by
  obtain ⟨session, hses, hres⟩ := System.recover_midway h hlog
  refine System.midway_of_ends hses ?_
  exact ((hres (some stop)).retry hlog hfr hstop).mono (fun _ _ h => h) fun _ _ he => he.2.2

end Attempting

/-! ### A retry that is stopped after a fact -/

namespace Sample

/-- What the package of the sample needs. -/
def activation : BindingActivation where
  bindingContractId := some ['C']
  releaseSha := some ['s']
  runId := some ['r']
  manifestHash := some ['h']
  rest := []

def boundOpening (createdTs : ℤ) : BoundOpening where
  toPackageOpening := opening
  createdTs := createdTs
  horizonNs := createdTs + 1
  releaseSha := ['s']
  contractId := ['C']

/-- A quote is in, and the binding is active. -/
def watched : System ReplayIdentity :=
  [.recover none, .op (.activateBinding activation) none,
    .op (.ingest (quote ['1']) 10 false) none].foldl (System.step (config 128 (by decide))) {}

end Sample

open Sample

end TraderAssist.E4
