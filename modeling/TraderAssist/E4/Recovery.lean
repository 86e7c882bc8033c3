/-
TraderAssist/E4/Recovery.lean

Runs of processes that stop and are recovered.

A process may stop right after any durable step; what is left is the store, from which
`recover_capture_session` builds the next process.  The log and the checkpoint are written
one after the other, and the recovered ledger takes its counter from the checkpoint: a stop
between the two makes it hand out ordinals that are already in the log.
`ordinals_unique_across_stops`: no ordinal and no source event is used twice, if the
checkpoint is not behind the log whenever a process is recovered.
-/
import TraderAssist.E4.Log

namespace TraderAssist.E4

open Py

variable {δ : Type} [DecidableEq δ]

/-! ### Runs -/

/-- A store, and the session of the process over it if one is running. -/
structure System (δ : Type) where
  session : Option (CaptureSession δ) := none
  store : EvidenceStore δ := {}

/-- What happens to a system; a process stops right after the step named. -/
inductive Event
  | op (op : Op) (stop : Option Step)
  | recover (stop : Option Step)

/-- The system after an operation: a process goes on unless it was stopped. -/
def System.ofOp (r : EStateM.Result CaptureError (World δ) Unit) : System δ :=
  match r with
  | .ok _ w => ⟨some w.session, w.store⟩
  | .error .stopped w => ⟨none, w.store⟩
  | .error _ w => ⟨some w.session, w.store⟩

/-- The system after a recovery: there is a process if it returned. -/
def System.ofRecovery (r : EStateM.Result CaptureError (World δ) Unit) : System δ :=
  match r with
  | .ok _ w => ⟨some w.session, w.store⟩
  | .error _ w => ⟨none, w.store⟩

def System.step (k : Config δ) (s : System δ) : Event → System δ
  | .op op stop =>
    match s.session with
    | none => s
    | some session => .ofOp (op.run k ⟨session, s.store, stop⟩)
  | .recover stop => .ofRecovery (recoverCaptureSession k ⟨CaptureSession.fresh k, s.store, stop⟩)

/-! ### Stores -/

abbrev EvidenceStore.Unique (st : EvidenceStore δ) : Prop :=
  Journal.StoreUnique AdmittedEvent.admissionOrdinal AdmittedEvent.sourceIdentity st.admissions
    (st.checkpoint.map RuntimeCheckpoint.snapshot)

/-- Between processes: nothing is used twice, and nothing is written before the first
checkpoint. -/
structure EvidenceStore.Sound (st : EvidenceStore δ) : Prop where
  unique : st.Unique
  first : st.checkpoint = none → st.admissions = []

/-- In a process. -/
structure World.Sound (w : World δ) : Prop where
  unique : w.Unique
  started : w.store.checkpoint ≠ none

variable {w : World δ}

omit [DecidableEq δ] in
theorem World.Sound.store (h : w.Sound) : w.store.Sound :=
  ⟨h.unique.store, fun hnone => absurd hnone h.started⟩

/-- **Operations keep a process sound, however they end.** -/
theorem World.Sound.op (k : Config δ) (op : Op) (h : w.Sound) :
    Ends (op.run k) w (fun _ w' => w'.Sound) fun _ w' => w'.Sound := by
  have hstp : ∀ w' : World δ, Steps (fun _ _ => True) w.journal w'.journal → w'.Sound := by
    intro w' hstp
    refine ⟨Journal.Steps.invariant (fun _ _ => Journal.Unique.step) hstp h.unique, fun hnone => ?_⟩
    have hsv := Journal.Steps.invariant (I := fun j => j.saved ≠ none) (fun _ _ => Journal.Step.saved)
      hstp (by simpa [World.journal] using h.started)
    exact hsv (by simp [World.journal, hnone])
  exact Ends.mono (op.traces (P := fun _ _ => True) (fun _ _ _ h => h) trivial)
    (fun _ w' h => hstp w' h.steps) fun _ w' h => hstp w' h.steps

/-! ### Recovery -/

/-- The checkpoint of a store is not behind its log. -/
def EvidenceStore.Current (st : EvidenceStore δ) : Prop :=
  ∀ c ∈ st.checkpoint, ∀ e ∈ st.admissions, e.admissionOrdinal ≤ c.ordinal

variable {Q : Unit → World δ → Prop} {E : CaptureError → World δ → Prop} {s : System δ} {index : ℕ}

omit [DecidableEq δ] in
theorem ends_appendProcessSegment (hE : E .segmentOrder w)
    (hQ : ∀ segments, Q () { w with store := { w.store with segments := segments } })
    (hstop : ∀ segments, E .stopped { w with store := { w.store with segments := segments } }) :
    Ends (appendProcessSegment index) w Q E := by
  unfold appendProcessSegment
  rw [ends_bind, ends_get, ends_bind, ends_check]
  exact ⟨fun _ => ends_write (hQ _) fun _ => hstop _, fun _ => hE⟩

/-- The world with other segments. -/
def World.segmented (w : World δ) (segments : List ℕ) : World δ :=
  { w with store := { w.store with segments := segments } }

omit [DecidableEq δ] in
/-- The end of a recovery: the session is there, its segment is written, then its checkpoint. -/
theorem ends_startSegment {reason : String} (hraise : E .segmentOrder w)
    (hQ : ∀ segments, Q () (w.segmented segments).saved)
    (hseg : ∀ segments, E .stopped (w.segmented segments))
    (hsv : ∀ segments, E .stopped (w.segmented segments).saved) :
    Ends (do appendProcessSegment index; persist reason : Capture δ Unit) w Q E := by
  rw [ends_bind]
  exact ends_appendProcessSegment hraise (fun segments => ends_persist (hQ segments) fun _ => hsv segments)
    hseg

theorem World.Unique.startSegment {reason : String} (h : w.Unique)
    (hsto : w.store.Sound) :
    Ends (do appendProcessSegment index; persist reason : Capture δ Unit) w (fun _ w' => w'.Sound)
      fun _ w' => w'.store.Sound := by
  have hsound : ∀ segments, World.Sound (w.segmented segments).saved := fun segments =>
    ⟨Journal.Unique.step (P := fun _ _ => True) (.save _) h, Option.some_ne_none _⟩
  exact ends_startSegment hsto hsound (fun _ => ⟨hsto.unique, hsto.first⟩)
    fun segments => (hsound segments).store

/-- A recovery from a checkpoint, check by check. -/
theorem ends_recoverFrom {k : Config δ} {c : RuntimeCheckpoint δ} :
    Ends (recoverFrom k c) w Q E
      ↔ Sat w.store.loadAdmissions (fun persisted =>
        Sat (foldLifecycleRecords k.manifest.runId w.store.lifecycle) (fun facts =>
          (checkpointAgrees c facts.records →
            (latestValid k (c.lifecycleIds ++ facts.latest.keys) facts.latest →
              Ends (do
                  appendProcessSegment (nextSegment c w.store.segments)
                  persist "PROCESS_RESTART_RECOVERY" : Capture δ Unit)
                { w with session := c.session k persisted facts.latest (nextSegment c w.store.segments) }
                Q E)
            ∧ (¬ latestValid k (c.lifecycleIds ++ facts.latest.keys) facts.latest → E .latestInvalid w))
          ∧ (¬ checkpointAgrees c facts.records → E .checkpointContradicts w)) fun e => E e w)
        fun e => E e w := by
  simp only [recoverFrom, ends_bind, ends_get, ends_attempt, ends_check, modifySession, ends_modify]
  rfl

/-- **A recovery from a checkpoint that is not behind the log is sound.** -/
theorem EvidenceStore.Sound.recover (k : Config δ) (h : w.store.Sound) (hcur : w.store.Current) :
    Ends (recoverCaptureSession k) w (fun _ w' => w'.Sound) fun _ w' => w'.store.Sound := by
  unfold recoverCaptureSession
  rw [ends_bind, ends_get]
  rcases hc : w.store.checkpoint with - | c
  · -- the first process
    exact World.Unique.startSegment (World.unique_of_empty (h.first hc) rfl (fun _ => rfl) hc) h
  · -- a later one
    rw [ends_recoverFrom]
    refine (Sat.self fun _ _ => h).mono (fun persisted hpers => ?_) fun _ he => he
    refine (Sat.self fun _ _ => h).mono (fun facts hfct => ?_) fun _ he => he
    refine ⟨fun _ => ⟨fun _ => ?_, fun _ => h⟩, fun _ => h⟩
    refine World.Unique.startSegment ?_ h
    rw [(loadAdmissions_eq_ok.mp hpers).1]
    have huniq := h.unique
    unfold EvidenceStore.Unique at huniq
    rw [hc] at huniq
    have hrst := huniq.restart (μ := Text) (hcur c hc)
    unfold World.Unique World.journal
    rw [hc]
    exact hrst

/-! ### Whole runs -/

/-- A recovery finds a checkpoint that is not behind the log. -/
def RecoversCurrent (s : System δ) : Event → Prop
  | .op _ _ => True
  | .recover _ => s.store.Current

/-- One predicate of the store between processes and one of a running process. -/
structure System.Holds (S : EvidenceStore δ → Prop) (W : World δ → Prop) (s : System δ) : Prop where
  store : S s.store
  session : ∀ session, s.session = some session → ∀ stop, W ⟨session, s.store, stop⟩

section Holds

variable {S : EvidenceStore δ → Prop} {W : World δ → Prop}

omit [DecidableEq δ] in
theorem System.holds_of_world (hstop : ∀ w stop, W w → W { w with stop := stop })
    (hsto : ∀ w, W w → S w.store) {w : World δ} (h : W w) :
    System.Holds S W ⟨some w.session, w.store⟩ where
  store := hsto w h
  session session hses stop := by
    cases hses
    exact hstop w stop h

omit [DecidableEq δ] in
theorem System.holds_of_store {st : EvidenceStore δ} (h : S st) : System.Holds S W ⟨none, st⟩ where
  store := h
  session _ hses := by cases hses

/-- **The rule for whole runs**: what operations keep of a process, and recoveries bring back
from a store. -/
theorem System.Holds.step (hstop : ∀ w stop, W w → W { w with stop := stop })
    (hsto : ∀ w, W w → S w.store) (k : Config δ) {event : Event}
    (hop : ∀ op w, W w → Ends (Op.run k op) w (fun _ w' => W w') fun _ w' => W w')
    (hrecv : ∀ stop, event = .recover stop →
      Ends (recoverCaptureSession k) ⟨CaptureSession.fresh k, s.store, stop⟩ (fun _ w' => W w')
        fun _ w' => S w'.store)
    (h : s.Holds S W) : (s.step k event).Holds S W := by
  cases event with
  | op op stop =>
    unfold System.step
    rcases hses : s.session with - | session
    · exact h
    · have hop := hop op _ (h.session session hses stop)
      dsimp only
      cases hrun : op.run k ⟨session, s.store, stop⟩ with
      | ok a w' => exact System.holds_of_world hstop hsto (hop.of_ok hrun)
      | error e w' =>
        have hw' := hop.of_error hrun
        cases e with
        | stopped => exact System.holds_of_store (hsto w' hw')
        | _ => exact System.holds_of_world hstop hsto hw'
  | recover stop =>
    have hrecv := hrecv stop rfl
    show (System.ofRecovery _).Holds S W
    cases hrun : recoverCaptureSession k ⟨CaptureSession.fresh k, s.store, stop⟩ with
    | ok a w' => exact System.holds_of_world hstop hsto (hrecv.of_ok hrun)
    | error e w' => exact System.holds_of_store (hrecv.of_error hrun)

end Holds

abbrev System.Sound (s : System δ) : Prop := s.Holds EvidenceStore.Sound World.Sound

/-- **Every event keeps the system sound**, if what is recovered is current. -/
theorem System.Sound.step (k : Config δ) {event : Event} (h : s.Sound)
    (hcur : RecoversCurrent s event) : (s.step k event).Sound := by
  refine System.Holds.step (fun _ _ h => ⟨h.unique, h.started⟩) (fun _ h => h.store) k
    (fun op w hw => hw.op k op) (fun stop hevent => ?_) h
  subst hevent
  exact EvidenceStore.Sound.recover k h.store hcur

/-- What must hold of a system: nothing persisted is used twice, and what a process admits
next has a new ordinal and is a new event. -/
structure System.OrdinalsSafe (k : Config δ) (s : System δ) : Prop where
  ordinals : (s.store.admissions.map AdmittedEvent.admissionOrdinal).Nodup
  sources : (s.store.admissions.map AdmittedEvent.sourceIdentity).Nodup
  next : ∀ session, s.session = some session → ∀ source ts event ledger,
    session.ledger.admitEvent k.replayHash source ts = (.admitted event, ledger) →
      ∀ e ∈ s.store.admissions, e.admissionOrdinal < event.admissionOrdinal
        ∧ e.sourceIdentity ≠ event.sourceIdentity

theorem System.Sound.ordinalsSafe (k : Config δ) (h : s.Sound) : s.OrdinalsSafe k where
  ordinals := h.store.unique.nums_nodup
  sources := h.store.unique.nodup
  next session hses source ts event ledger hadmit e he := by
    have huniq := (h.session session hses none).unique
    have hkn : Journal.Known (World.journal ⟨session, s.store, none⟩) e := .log he
    rcases admitEvent_cases session.ledger k.replayHash source ts with hcase | ⟨hnew, hcase | hcase⟩
    · rw [hcase] at hadmit
      cases hadmit
    · rw [hcase] at hadmit
      cases hadmit
    · rw [hcase] at hadmit
      cases hadmit
      refine ⟨Nat.lt_succ_of_le (huniq.le e hkn), ?_⟩
      intro (heq : e.sourceIdentity = k.replayHash source.replayIdentity)
      exact hnew (heq ▸ huniq.seen e hkn)

/-- **Ordinals and source events stay unique across stops**, in every run whose recoveries
find a checkpoint that is not behind the log. -/
theorem ordinals_unique_across_stops (k : Config δ) (events : List Event)
    (h : Along (System.step k) RecoversCurrent {} events) :
    (events.foldl (System.step k) {}).OrdinalsSafe k := by
  have hempty : System.Sound ({} : System δ) := System.holds_of_store
    ⟨⟨fun a _ ha => by rcases ha with ha | ⟨s, hs, -⟩ <;> contradiction, List.nodup_nil,
      fun s hs => by cases hs⟩, fun _ => rfl⟩
  have hsound := Along.invariant (fun s event hs hcurrent => hs.step k hcurrent) h hempty
  exact hsound.ordinalsSafe k

/-! ### A stop between the log and the checkpoint -/

open Sample

/-- A bar is written and the process stops before the checkpoint: the bar after the recovery
has the same ordinal. -/
theorem stop_before_checkpoint_repeats_ordinal :
    ¬ (([.recover none, .op (.ingest (bar ['1']) 10 false) (some .batch), .recover none,
        .op (.ingest (bar ['2']) 11 false) none].foldl (System.step (config 1 (by decide)))
      {}).OrdinalsSafe (config 1 (by decide))) := by
  intro h
  have hnodup := h.ordinals
  revert hnodup
  decide +kernel

/-- The process stops after the checkpoint. -/
theorem ordinals_unique_across_stops_checkpointed : ([.recover none, .op (.ingest (bar ['1']) 10 false)
        (some (.checkpoint "ADMISSION_BATCH_FLUSHED".toList)), .recover none,
        .op (.ingest (bar ['2']) 11 false) none].foldl (System.step (config 1 (by decide)))
      {}).OrdinalsSafe (config 1 (by decide)) := by
  refine ordinals_unique_across_stops _ _ ⟨?_, trivial, ?_, trivial, trivial⟩
  · exact nofun
  · unfold RecoversCurrent EvidenceStore.Current
    decide +kernel

end TraderAssist.E4
