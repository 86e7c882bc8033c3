/-
TraderAssist/E4/Trace.lean

Capture sessions as journals.

`World.journal` is what a process and its store hold of admissions.  Every operation of a
session is a sequence of steps of that journal and leaves the process informed of the facts
of its store, whether it returns, raises or is stopped (`Op.traces`): an ingest takes one event
in, an opening takes the events of `Op.taken` out of the pre-buffer of its market, and the
rest writes or saves.
-/
import TraderAssist.E4.Facts
import TraderAssist.Lib.Journal

namespace TraderAssist.E4

open Py

variable {δ : Type} [DecidableEq δ] {α β : Type}

/-! ### The journal of a process -/

def RuntimeCheckpoint.snapshot (c : RuntimeCheckpoint δ) : Snapshot δ (AdmittedEvent δ) :=
  ⟨c.ordinal, c.seen, c.durableSourceIds, c.pending⟩

def World.journal (w : World δ) : Journal δ (AdmittedEvent δ) Text where
  log := w.store.admissions
  queue := w.session.pending
  queued := w.session.durableSourceIds
  seen := w.session.ledger.seen
  last := w.session.ledger.ordinal
  buffer := w.session.prebuffer
  saved := w.store.checkpoint.map RuntimeCheckpoint.snapshot

/-- Which events may leave a buffer. -/
abbrev Guard (δ : Type) := Journal δ (AdmittedEvent δ) Text → List (AdmittedEvent δ) → Prop

abbrev Steps (P : Guard δ) : Journal δ (AdmittedEvent δ) Text → Journal δ (AdmittedEvent δ) Text → Prop :=
  Journal.Steps AdmittedEvent.admissionOrdinal AdmittedEvent.sourceIdentity P

/-- What a process does: it takes steps of the journal and stays informed. -/
structure Move (k : Config δ) (P : Guard δ) (w w' : World δ) : Prop where
  steps : Steps P w.journal w'.journal
  informed : w.Informed k → w'.Informed k

variable {k : Config δ} {P : Guard δ} {w w₀ : World δ}

instance : Std.Refl (Move k P) := ⟨fun _ => ⟨.refl, id⟩⟩

instance : IsTrans (World δ) (Move k P) :=
  ⟨fun _ _ _ h h' => ⟨h.steps.trans h'.steps, fun hw => h'.informed (h.informed hw)⟩⟩

/-- A computation is such moves, however it ends. -/
abbrev Traced (k : Config δ) (P : Guard δ) (x : Capture δ α) (w : World δ) : Prop := Keeps (Move k P) x w

/-! ### Rules -/

/-- A change of the session that concerns neither comes first. -/
theorem traced_modifySession_bind {f : CaptureSession δ → CaptureSession δ} {x : Unit → Capture δ α}
    (h : Move k P w { w with session := f w.session }) (hx : ∀ w, Traced k P (x ()) w) :
    Traced k P (modifySession f >>= x) w :=
  Keeps.bind h fun _ w => hx w

variable {Q : Unit → World δ → Prop} {E : CaptureError → World δ → Prop} {events : List (AdmittedEvent δ)}

omit [DecidableEq δ] in
/-- Both ends of a durable step have the same store. -/
theorem ends_write {step : Step} {f : EvidenceStore δ → EvidenceStore δ}
    (hQ : Q () { w with store := f w.store })
    (hE : w.stop = some step → E .stopped { w with store := f w.store }) :
    Ends (write step f) w Q E := by
  unfold Ends write
  by_cases h : w.stop = some step
  · simp only [if_pos h]
    exact hE h
  · simp only [if_neg h]
    exact hQ

/-- The world after a checkpoint. -/
def World.saved (w : World δ) : World δ :=
  { w with store := { w.store with checkpoint := some w.session.checkpoint } }

omit [DecidableEq δ] in
theorem ends_persist {reason : String} (hQ : Q () w.saved)
    (hE : w.stop = some (.checkpoint reason.toList) → E .stopped w.saved) : Ends (persist reason) w Q E := by
  unfold persist
  rw [ends_bind, ends_get]
  exact ends_write hQ hE

theorem move_saved : Move k P w w.saved where
  steps := .single (.save _)
  informed := fun ⟨f, h⟩ => ⟨f, h.saved⟩

theorem traced_persist (reason : String) : Traced k P (persist reason : Capture δ Unit) w :=
  ends_persist move_saved fun _ => move_saved

/-- The world after a batch is written. -/
def World.written (w : World δ) : World δ :=
  { w with
    session := { w.session with pending := [] }
    store := { w.store with admissions := w.store.admissions ++ w.session.pending } }

theorem move_written : Move k P w w.written where
  steps := .single (.flush _)
  informed h := h.of_eq rfl rfl rfl rfl rfl

omit [DecidableEq δ] in
theorem ends_flush {reason : String} (hQ : Q () w.written.saved)
    (hbatch : w.stop = some .batch → E .stopped w.written)
    (hsv : w.stop = some (.checkpoint reason.toList) → E .stopped w.written.saved) :
    Ends (flush reason) w Q E := by
  unfold flush
  rw [ends_bind, ends_get, ends_bind, modifySession, ends_modify, ends_bind]
  exact ends_write (ends_persist hQ hsv) hbatch

theorem traced_flush (reason : String) : Traced k P (flush reason : Capture δ Unit) w := by
  have hsv : Move k P w w.written.saved := IsTrans.trans _ _ _ move_written move_saved
  exact ends_flush hsv (fun _ => move_written) fun _ => hsv

theorem traced_flushIfFull (force : Bool) (reason : String) : Traced k P (flushIfFull k force reason) w := by
  refine keeps_get_bind ?_
  split
  · exact keeps_pure _
  · exact traced_flush _

/-! ### What sessions do with events -/

namespace CaptureSession

variable (s : CaptureSession δ) (event : AdmittedEvent δ)

omit [DecidableEq δ] in
theorem observeWatch_eq : ∃ started, s.observeWatch event = { s with watchStarted := started } := by
  unfold observeWatch
  split
  · split
    · exact ⟨_, rfl⟩
    · exact ⟨_, rfl⟩
  · exact ⟨_, rfl⟩

omit [DecidableEq δ] in
/-- Buffering changes the watches and the buffer of one market. -/
theorem buffer_eq : ∃ started buffers,
    s.buffer event = { s with watchStarted := started, prebuffers := buffers }
      ∧ ∀ m, ((buffers.get? m).getD []).Sublist (s.prebuffer m ++ [event]) := by
  unfold buffer
  split
  · obtain ⟨started, hstd⟩ := s.observeWatch_eq event
    rw [hstd]
    refine ⟨started, _, rfl, fun m => ?_⟩
    rw [Dict.get?_set]
    by_cases hm : event.source.marketId = m
    · subst hm
      rw [if_pos rfl]
      exact List.dropWhile_sublist _
    · rw [if_neg hm]
      exact List.sublist_append_left _ _
  · exact ⟨_, _, rfl, fun m => List.sublist_append_left _ _⟩

omit [DecidableEq δ] in
/-- Meeting a requirement changes the health of the ledger at most. -/
theorem meetRequirement_eq (source : SourceEvent) (historical : Bool) : ∃ requirements health,
    s.meetRequirement source historical
      = { s with continuityRequirements := requirements, ledger := { s.ledger with health := health } } := by
  unfold meetRequirement
  split
  · by_cases hmet : s.continuityRequirements.filter (· ≠ (source.marketId, source.dataKind)) = []
    · exact ⟨[], .healthy, by simp only [hmet, if_true, CausalAdmissionLedger.establishContinuity]⟩
    · exact ⟨_, s.ledger.health, by simp only [if_neg hmet]; rfl⟩
  · exact ⟨_, _, rfl⟩

/-- Nothing is queued twice. -/
theorem queueDurable_of_mem
    (h : ∀ e ∈ events, e.sourceIdentity ∈ s.durableSourceIds) : s.queueDurable events = s := by
  induction events with
  | nil => rfl
  | cons e events ih =>
    have hone : s.queueOne e = s := if_pos (h e (.head _))
    show (s.queueOne e).queueDurable events = s
    rw [hone]
    exact ih fun x hx => h x (.tail _ hx)

end CaptureSession

/-- Queueing events is queueing items of the journal. -/
theorem journal_queueDurable (w : World δ) (events : List (AdmittedEvent δ)) :
    ({ w with session := w.session.queueDurable events } : World δ).journal
      = w.journal.enqueue AdmittedEvent.sourceIdentity events := by
  induction events generalizing w with
  | nil => rfl
  | cons e events ih =>
    have hone : ({ w with session := w.session.queueOne e } : World δ).journal
        = w.journal.enqueueOne AdmittedEvent.sourceIdentity e := by
      unfold CaptureSession.queueOne Journal.enqueueOne
      by_cases he : e.sourceIdentity ∈ w.session.durableSourceIds
      · rw [if_pos he, if_pos (show e.sourceIdentity ∈ w.journal.queued from he)]
      · rw [if_neg he, if_neg (show e.sourceIdentity ∉ w.journal.queued from he)]
        rfl
    show _ = (w.journal.enqueueOne AdmittedEvent.sourceIdentity e).enqueue _ events
    rw [← hone, ← ih]
    rfl

theorem queueDurable_eq (s : CaptureSession δ) (events : List (AdmittedEvent δ)) : ∃ durable pending,
    s.queueDurable events = { s with durableSourceIds := durable, pending := pending } := by
  induction events generalizing s with
  | nil => exact ⟨_, _, rfl⟩
  | cons e events ih =>
    obtain ⟨durable, pending, h⟩ := ih (s.queueOne e)
    have hone : ∃ durable pending,
        s.queueOne e = { s with durableSourceIds := durable, pending := pending } := by
      unfold CaptureSession.queueOne
      split
      · exact ⟨_, _, rfl⟩
      · exact ⟨_, _, rfl⟩
    obtain ⟨durable', pending', h'⟩ := hone
    refine ⟨durable, pending, ?_⟩
    show (s.queueOne e).queueDurable events = _
    rw [h, h']

theorem World.Informed.queueDurable (h : w.Informed k) (events : List (AdmittedEvent δ)) :
    World.Informed k { w with session := w.session.queueDurable events } := by
  obtain ⟨durable, pending, heq⟩ := queueDurable_eq w.session events
  rw [heq]
  exact h.of_eq rfl rfl rfl rfl rfl

theorem mem_durable_queueDurable {s : CaptureSession δ} {e : AdmittedEvent δ}
    (he : e ∈ events ∨ e.sourceIdentity ∈ s.durableSourceIds) :
    e.sourceIdentity ∈ (s.queueDurable events).durableSourceIds := by
  induction events generalizing s with
  | nil => exact he.resolve_left (List.not_mem_nil)
  | cons x events ih =>
    suffices hone : e ∈ events ∨ e.sourceIdentity ∈ (s.queueOne x).durableSourceIds from ih hone
    unfold CaptureSession.queueOne
    rcases he with he | he
    · rcases he with - | ⟨-, he⟩
      · right
        split
        · assumption
        · exact .head _
      · exact .inl he
    · right
      split
      · exact he
      · exact .tail _ he

/-! ### Operations -/

/-- The three answers of `admit`. -/
theorem admitEvent_cases (l : CausalAdmissionLedger δ) (replayHash : ReplayIdentity → δ)
    (source : SourceEvent) (ts : ℤ) : l.admitEvent replayHash source ts = (.duplicate, l)
      ∨ replayHash source.replayIdentity ∉ l.seen ∧ (l.admitEvent replayHash source ts
            = (.refused, l.count (replayHash source.replayIdentity) source)
          ∨ l.admitEvent replayHash source ts
            = (.admitted (l.nextEvent (replayHash source.replayIdentity) source ts),
                (l.count (replayHash source.replayIdentity) source).observeBbo source)) := by
  unfold CausalAdmissionLedger.admitEvent
  by_cases hseen : replayHash source.replayIdentity ∈ l.seen
  · exact .inl (if_pos hseen)
  · refine .inr ⟨hseen, ?_⟩
    simp only [if_neg hseen]
    by_cases hts : ts < source.tsInit
    · exact .inl (if_pos hts)
    · exact .inr (if_neg hts)

omit [DecidableEq δ] in
theorem observeBbo_eq (l : CausalAdmissionLedger δ) (source : SourceEvent) :
    ∃ bbo, l.observeBbo source = { l with bbo := bbo } := by
  unfold CausalAdmissionLedger.observeBbo
  split
  · exact ⟨_, rfl⟩
  · exact ⟨_, rfl⟩

/-- An event that was taken in is queued or not. -/
theorem ends_retain {event : AdmittedEvent δ} (htake : Move k P w₀ w)
    (hqueue : Move k P w₀ { w with session := w.session.queueDurable [event] }) :
    Ends (retain k event) w (fun _ w' => Move k P w₀ w') fun _ w' => Move k P w₀ w' := by
  unfold retain
  rw [ends_bind, ends_get]
  split
  · rw [ends_bind]
    exact Keeps.after (traced_flushIfFull false _) hqueue
  · exact htake

/-- A new event is one step of the journal, whatever is done with it. -/
theorem ends_receive {event : AdmittedEvent δ} {ledger : CausalAdmissionLedger δ} (historical : Bool)
    (hnum : event.admissionOrdinal = w.session.ledger.ordinal + 1)
    (hkey : event.sourceIdentity ∉ w.session.ledger.seen)
    (hordinal : ledger.ordinal = w.session.ledger.ordinal + 1)
    (hseen : ledger.seen = event.sourceIdentity :: w.session.ledger.seen) :
    Ends (receive k event historical) { w with session := { w.session with ledger := ledger } }
      (fun _ w' => Move k P w w') fun _ w' => Move k P w w' := by
  unfold receive
  rw [ends_bind, modifySession, ends_modify, ends_bind, ends_get, ends_bind, modifySession, ends_modify,
    ends_bind]
  obtain ⟨started, buffers, hbuf, hsub⟩ :=
    ({ w.session with ledger := ledger } : CaptureSession δ).buffer_eq event
  obtain ⟨requirements, health, hmeet⟩ :=
    (({ w.session with ledger := ledger } : CaptureSession δ).buffer event).meetRequirement_eq
      event.source historical
  rw [hmeet, hbuf]
  -- the journal before the event is queued
  generalize hw' : ({ w with session := _ } : World δ) = w'
  have hjour : w'.journal = { w.journal with
      last := w.session.ledger.ordinal + 1
      seen := event.sourceIdentity :: w.session.ledger.seen
      buffer := fun m => (buffers.get? m).getD [] } := by
    rw [← hw', ← hordinal, ← hseen]
    rfl
  have hinf : w.Informed k → w'.Informed k := by
    rw [← hw']
    exact fun h => h.of_eq rfl rfl rfl rfl rfl
  refine (ends_retain ⟨?_, hinf⟩ ⟨?_, fun h => ?_⟩).mono (fun _ _ h => ?_) fun _ _ h => h
  · rw [hjour]
    exact .single (.take _ event _ hnum hkey hsub)
  · rw [journal_queueDurable, hjour]
    exact .single (.takeQueued _ event _ hnum hkey hsub)
  · exact (hinf h).queueDurable _
  · refine Keeps.after ?_ h
    split
    · exact (traced_persist _).bind fun _ _ => keeps_pure _
    · exact keeps_pure _

theorem traced_ingest (source : SourceEvent) (ts : ℤ) (historical : Bool) :
    Traced k P (ingest k source ts historical) w := by
  refine keeps_check_bind (keeps_attempt_bind fun permitted => keeps_check_bind (keeps_get_bind ?_))
  rcases admitEvent_cases w.session.ledger k.replayHash source ts with h | ⟨hnew, h | h⟩
  · rw [h]
    exact Std.Refl.refl w
  · rw [h]
    exact ⟨.single (.refuse _ _), fun h => h.of_eq rfl rfl rfl rfl rfl⟩
  · rw [h]
    obtain ⟨bbo, hbbo⟩ := observeBbo_eq
      (w.session.ledger.count (k.replayHash source.replayIdentity) source) source
    rw [hbbo]
    exact ends_receive historical rfl hnew rfl rfl

omit [DecidableEq δ] in
/-- A fact is written if the process accepts it. -/
theorem ends_recordLifecycle {record : LifecycleRecord}
    (hraise : (1 ≤ record.stateTs ∧ record ∉ w.session.lifecycleRecords
      ∧ w.session.checkFact record = .ok ()) ∨ ∀ e, E e w)
    (hQ : w.session.checkFact record = .ok () → Q () (w.addFact record))
    (hstop : w.session.checkFact record = .ok () → w.stop = some (.lifecycle record.reasonCodes) →
      E .stopped (w.addFact record)) : Ends (recordLifecycle record) w Q E := by
  unfold recordLifecycle
  rw [ends_bind, ends_check]
  refine ⟨fun _ => ?_, fun hts => hraise.elim (fun h => absurd h.1 hts) fun h => h _⟩
  rw [ends_bind, ends_get, ends_bind, ends_check]
  refine ⟨fun _ => ?_, fun hnew => hraise.elim (fun h => absurd h.2.1 hnew) fun h => h _⟩
  rw [ends_bind, ends_attempt]
  rcases hchk : w.session.checkFact record with e | _
  · exact hraise.elim (fun h => (nomatch hchk.symm.trans h.2.2)) fun h => h _
  · show Ends _ _ _ _
    rw [ends_bind, modifySession, ends_modify]
    exact ends_write (hQ hchk) (hstop hchk)

theorem traced_recordLifecycle {record : LifecycleRecord} (hrun : record.runId = k.manifest.runId) :
    Traced k P (recordLifecycle record) w := by
  have hmove : w.session.checkFact record = .ok () → Move k P w (w.addFact record) :=
    fun hchk => ⟨.refl, fun ⟨f, h⟩ => ⟨_, h.addFact (h.continues hrun hchk)⟩⟩
  exact ends_recordLifecycle (.inr fun _ => Std.Refl.refl w) hmove fun hchk _ => hmove hchk

theorem traced_recordFact (o : PackageOpening) (kind : LifecycleKind) (ts : ℤ)
    (reason : String) (decision : Option DecisionState) (state : EvidenceState) :
    Traced k P (recordFact k o kind ts reason decision state) w :=
  keeps_get_bind (traced_recordLifecycle rfl)

theorem traced_recordLifecycleFact (fact : LifecycleRecord) (persistCheckpoint : Bool) :
    Traced k P (recordLifecycleFact k fact persistCheckpoint) w := by
  refine keeps_get_bind (keeps_check_bind ((traced_recordLifecycle rfl).bind fun _ _ => ?_))
  split
  · exact traced_persist _
  · exact keeps_pure _

/-- Queueing a window is one step. -/
theorem move_queueDurable {marketId : Text}
    (hsub : events.Sublist (w.session.prebuffer marketId)) (hP : P w.journal events) :
    Move k P w { w with session := w.session.queueDurable events } := by
  refine ⟨?_, fun h => h.queueDurable _⟩
  rw [journal_queueDurable]
  exact .single (.enqueue _ marketId _ hsub hP)

section

variable (o : PackageOpening)

/-- An unbound opening takes its window out of the buffer, then writes it. -/
theorem traced_openPackage (ts : ℤ)
    (hP : P w.journal (w.session.available o.marketId ts)) : Traced k P (openPackage k o ts) w := by
  refine keeps_get_bind (keeps_check_bind ?_)
  unfold Keeps
  rw [ends_bind]
  refine Keeps.after ((traced_flushIfFull true _).bind fun _ w' => ?_)
    (move_queueDurable List.filter_sublist hP)
  exact traced_modifySession_bind ⟨.refl, fun h => h.of_eq rfl rfl rfl rfl rfl⟩ fun _ => keeps_pure _

theorem traced_openActionable (ts : ℤ) (decision : DecisionState)
    (hP : P w.journal (w.session.available o.marketId ts)) :
    Traced k P (openActionable k o ts decision) w := by
  refine keeps_attempt_bind fun tier => keeps_check_bind ?_
  refine (traced_openPackage o ts hP).bind fun state _ => ?_
  refine (traced_recordFact o _ _ _ _ _).bind fun _ _ => ?_
  refine (traced_recordFact o _ _ _ _ _).bind fun _ _ => ?_
  exact (traced_persist _).bind fun _ _ => keeps_pure _

theorem traced_recordActiveValid (ts : ℤ) (state : EvidenceState) :
    Traced k P (recordActiveValid k o ts state) w := by
  unfold recordActiveValid
  split
  · exact traced_recordFact o _ _ _ _ _
  · exact keeps_pure _

theorem traced_openStructuralPackage (createdTs activeValidTs : ℤ)
    (hP : P w.journal (w.session.available o.marketId createdTs)) :
    Traced k P (openStructuralPackage k o createdTs activeValidTs) w := by
  refine keeps_check_bind (keeps_attempt_bind fun tier => keeps_check_bind ?_)
  refine (traced_openPackage o createdTs hP).bind fun state _ => ?_
  refine (traced_recordFact o _ _ _ _ _).bind fun _ _ => ?_
  refine (traced_recordFact o _ _ _ _ _).bind fun _ _ => ?_
  refine (traced_recordActiveValid o _ _).bind fun _ _ => ?_
  exact (traced_persist _).bind fun _ _ => keeps_pure _

end

theorem traced_activateBinding (activation : BindingActivation) :
    Traced k P (activateBinding activation : Capture δ Unit) w := by
  refine keeps_get_bind ?_
  split
  · exact keeps_check _ _
  · refine traced_modifySession_bind ⟨.refl, fun h => h.of_eq rfl rfl rfl rfl rfl⟩ fun _ => ?_
    exact (traced_persist _).bind fun _ _ => keeps_get_bind (keeps_check _ _)

/-! ### Bound openings -/

section

variable (o : BoundOpening)

/-- The events that an opening takes out of the buffer of its market. -/
def BoundOpening.taken (s : CaptureSession δ) : List (AdmittedEvent δ) :=
  match s.openingIntents.get? o.packageId with
  | none => s.available o.marketId o.createdTs
  | some intent => (s.prebuffer o.marketId).filter fun item =>
      decide (item.sourceIdentity ∈ intent.prebufferSourceIds)

section

variable (intent : OpeningIntent δ)

theorem traced_recordOpening
    (durable : List LifecycleRecord) (kind : LifecycleKind) (reason : String) (state : EvidenceState) :
    Traced k P (recordOpening k o intent durable kind reason state) w := by
  refine keeps_get_bind ?_
  split
  · exact keeps_check _ _
  · exact traced_recordFact _ _ _ _ _ _

/-- After its window is written, an opening touches no buffer. -/
theorem traced_resumeOpening
    (h : Traced k P (writeSelected k o intent) w) : Traced k P (resumeOpening k o intent) w := by
  refine h.bind fun _ w => keeps_get_bind (keeps_attempt_bind fun durable => keeps_check_bind ?_)
  refine (traced_recordOpening o intent _ _ _ _).bind fun _ _ => ?_
  refine (traced_recordOpening o intent _ _ _ _).bind fun _ _ => ?_
  refine traced_modifySession_bind ⟨.refl, fun h => h.of_eq rfl rfl rfl rfl rfl⟩ fun _ => ?_
  exact (traced_persist _).bind fun _ _ => keeps_pure _

theorem traced_writeSelected (hP : P w.journal ((w.session.prebuffer o.marketId).filter fun item =>
      decide (item.sourceIdentity ∈ intent.prebufferSourceIds))) :
    Traced k P (writeSelected k o intent) w := by
  unfold Traced Keeps writeSelected
  rw [ends_bind]
  exact Keeps.after (traced_flushIfFull true _) (move_queueDurable List.filter_sublist hP)

/-- A window that is all queued is not queued again. -/
theorem traced_writeSelected_queued (h : ∀ id ∈ intent.prebufferSourceIds, id ∈ w.session.durableSourceIds) :
    Traced k P (writeSelected k o intent) w := by
  unfold Traced Keeps writeSelected
  rw [ends_bind, modifySession, ends_modify]
  rw [CaptureSession.queueDurable_of_mem w.session fun e he =>
    h _ (of_decide_eq_true (List.mem_filter.mp he).2)]
  exact traced_flushIfFull true _

end

end

omit [DecidableEq δ] in
/-- Writing the queue does not change what was queued. -/
theorem flushIfFull_durable (force : Bool) (reason : String) : Ends (flushIfFull k force reason) w
      (fun _ w' => w'.session.durableSourceIds = w.session.durableSourceIds) fun _ _ => True := by
  unfold flushIfFull
  rw [ends_bind, ends_get]
  split
  · exact rfl
  · exact ends_flush rfl (fun _ => trivial) fun _ => trivial

/-- The first attempt takes its window out of the buffer, once its intent is saved. -/
theorem ends_declareIntent (o : BoundOpening)
    (hsave : ∀ j s items, P j items → P { j with saved := s } items)
    (hP : P w.journal (w.session.available o.marketId o.createdTs)) :
    Ends (declareIntent k o) w
      (fun intent w' => Move k P w w'
        ∧ ∀ id ∈ intent.prebufferSourceIds, id ∈ w'.session.durableSourceIds)
      fun _ w' => Move k P w w' := by
  unfold declareIntent
  rw [ends_bind, ends_get, ends_bind, ends_check]
  refine ⟨fun _ => ?_, fun _ => Std.Refl.refl w⟩
  rw [ends_bind, modifySession, ends_modify, ends_bind]
  -- the intent is declared and saved
  have hdecl : Move k P w { w with session := { w.session with
      openingIntents := w.session.openingIntents.set o.packageId (w.session.newIntent k o) } } :=
    ⟨.refl, fun h => h.of_eq rfl rfl rfl rfl rfl⟩
  have hsv := IsTrans.trans _ _ _ hdecl (move_saved (P := P))
  refine ends_persist ?_ fun _ => hsv
  rw [ends_bind, modifySession, ends_modify, ends_bind]
  refine Ends.mono ((Keeps.after (traced_flushIfFull true _) (IsTrans.trans _ _ _ hsv
      (move_queueDurable List.filter_sublist (hsave _ _ _ hP)))).and (flushIfFull_durable true _))
    (fun _ w' h => ⟨h.1, fun id hid => ?_⟩) fun _ w' h => h.1
  rw [h.2]
  obtain ⟨e, he, rfl⟩ := List.mem_map.mp hid
  exact mem_durable_queueDurable (.inl he)

theorem traced_openBoundStructuralPackage (o : BoundOpening)
    (hsave : ∀ j s items, P j items → P { j with saved := s } items)
    (hP : P w.journal (o.taken w.session)) : Traced k P (openBoundStructuralPackage k o) w := by
  refine keeps_get_bind (keeps_attempt_bind fun _ => ?_)
  unfold BoundOpening.taken at hP
  rcases hint : w.session.openingIntents.get? o.packageId with - | intent <;>
    rcases hpkg : w.session.packages.get? o.packageId with - | package <;> rw [hint] at hP
  · -- the first attempt
    unfold Keeps
    rw [ends_bind]
    refine (ends_declareIntent o hsave hP).mono (fun intent w' h => ?_) fun _ _ h => h
    exact Keeps.after (traced_resumeOpening o intent (traced_writeSelected_queued o intent h.2)) h.1
  · exact keeps_check_bind (keeps_pure _)
  · -- a later attempt
    exact keeps_check_bind (traced_resumeOpening o intent (traced_writeSelected o intent hP))
  · exact keeps_throw _

/-! ### Operations on tails -/

theorem traced_terminal (packageId : Text) (ts : ℤ) (decision : DecisionState) :
    Traced k P (terminal packageId ts decision : Capture δ TailStatus) w := by
  refine keeps_get_bind ?_
  split
  · exact keeps_throw _
  · refine keeps_check_bind (keeps_check_bind ?_)
    refine traced_modifySession_bind ⟨.refl, fun h => h.of_eq rfl rfl rfl rfl rfl⟩ fun _ => ?_
    exact (traced_persist _).bind fun _ _ => keeps_pure _

theorem traced_advance (now : ℤ) : Traced k P (advance k now) w := by
  refine keeps_get_bind ?_
  refine traced_modifySession_bind ⟨.refl, fun h => h.of_eq rfl rfl rfl rfl rfl⟩ fun _ => ?_
  refine (traced_flushIfFull true _).bind fun _ _ => ?_
  split
  · exact traced_persist _
  · exact keeps_pure _

theorem traced_disconnect (reason : Text) : Traced k P (disconnect reason : Capture δ Unit) w := by
  exact traced_modifySession_bind ⟨.refl, fun h => h.of_eq rfl rfl rfl rfl rfl⟩ fun _ => traced_persist _

theorem traced_reconnect (streams : List (Text × DataKind)) :
    Traced k P (reconnect streams : Capture δ Unit) w := by
  exact traced_modifySession_bind ⟨.refl, fun h => h.of_eq rfl rfl rfl rfl rfl⟩ fun _ => traced_persist _

/-! ### Runs -/

/-- The operations of a session. -/
inductive Op
  | ingest (source : SourceEvent) (admissionTs : ℤ) (historical : Bool)
  | openActionable (o : PackageOpening) (decisionTs : ℤ) (decision : DecisionState)
  | openStructuralPackage (o : PackageOpening) (createdTs activeValidTs : ℤ)
  | activateBinding (activation : BindingActivation)
  | openBoundStructuralPackage (o : BoundOpening)
  | terminal (packageId : Text) (terminalTs : ℤ) (decision : DecisionState)
  | advance (now : ℤ)
  | disconnect (reason : Text)
  | reconnect (requiredStreams : List (Text × DataKind))
  | recordLifecycle (fact : LifecycleRecord) (persistCheckpoint : Bool)
  | persistDurableEvidence (reason : String)

namespace Op

/-- What an operation does; its answer is left out. -/
def run (k : Config δ) : Op → Capture δ Unit
  | ingest source ts historical => do let _ ← E4.ingest k source ts historical; pure ()
  | openActionable o ts decision => do let _ ← E4.openActionable k o ts decision; pure ()
  | openStructuralPackage o createdTs activeValidTs => do
    let _ ← E4.openStructuralPackage k o createdTs activeValidTs; pure ()
  | activateBinding activation => E4.activateBinding activation
  | openBoundStructuralPackage o => do let _ ← E4.openBoundStructuralPackage k o; pure ()
  | terminal packageId ts decision => do let _ ← E4.terminal packageId ts decision; pure ()
  | advance now => E4.advance k now
  | disconnect reason => E4.disconnect reason
  | reconnect streams => E4.reconnect streams
  | recordLifecycle fact persistCheckpoint => recordLifecycleFact k fact persistCheckpoint
  | persistDurableEvidence reason => E4.persistDurableEvidence k reason

/-- The events that an operation takes out of a buffer. -/
def taken (s : CaptureSession δ) : Op → List (AdmittedEvent δ)
  | openActionable o ts _ => s.available o.marketId ts
  | openStructuralPackage o createdTs _ => s.available o.marketId createdTs
  | openBoundStructuralPackage o => o.taken s
  | _ => []

/-- **Every operation is a sequence of steps of the journal**, and leaves the process informed. -/
theorem traces (op : Op) (hsave : ∀ j s items, P j items → P { j with saved := s } items)
    (hP : P w.journal (op.taken w.session)) : Traced k P (op.run k) w := by
  cases op with
  | ingest source ts historical => exact (traced_ingest source ts historical).bind fun _ _ => keeps_pure _
  | openActionable o ts decision =>
    exact (traced_openActionable o ts decision hP).bind fun _ _ => keeps_pure _
  | openStructuralPackage o createdTs activeValidTs =>
    exact (traced_openStructuralPackage o createdTs activeValidTs hP).bind fun _ _ => keeps_pure _
  | activateBinding activation => exact traced_activateBinding activation
  | openBoundStructuralPackage o =>
    exact (traced_openBoundStructuralPackage o hsave hP).bind fun _ _ => keeps_pure _
  | terminal packageId ts decision =>
    exact (traced_terminal packageId ts decision).bind fun _ _ => keeps_pure _
  | advance now => exact traced_advance now
  | disconnect reason => exact traced_disconnect reason
  | reconnect streams => exact traced_reconnect streams
  | recordLifecycle fact persistCheckpoint => exact traced_recordLifecycleFact fact persistCheckpoint
  | persistDurableEvidence reason => exact traced_flushIfFull true reason

end Op

end TraderAssist.E4
