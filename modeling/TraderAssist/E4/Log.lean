/-
TraderAssist/E4/Log.lean

The admission log of a run.

Bars and context are queued as they come in; quotes and trades wait in the pre-buffer of
their market until a package is opened.  An opening can therefore queue an event behind
others that came in after it, and then the log cannot be read back.  `log_reads_back`: it
can, if no opening does.
-/
import TraderAssist.E4.Trace
import TraderAssist.Lib.Simulation

namespace TraderAssist.E4

open Py

variable {δ : Type} [DecidableEq δ] {w : World δ}

/-! ### Reading the log -/

omit [DecidableEq δ] in
/-- The log is read back as it is, if it is in order. -/
theorem loadAdmissions_eq_ok {st : EvidenceStore δ} {events : List (AdmittedEvent δ)} :
    st.loadAdmissions = .ok events ↔ events = st.admissions
      ∧ st.admissions.Pairwise fun a b => a.admissionOrdinal ≤ b.admissionOrdinal := by
  have hsrt : st.admissions.map AdmittedEvent.admissionOrdinal
        = sortBy id (st.admissions.map AdmittedEvent.admissionOrdinal)
      ↔ st.admissions.Pairwise fun a b => a.admissionOrdinal ≤ b.admissionOrdinal := by
    constructor
    · intro h
      have hpw := sortBy_sorted id (st.admissions.map AdmittedEvent.admissionOrdinal)
      rw [← h] at hpw
      exact List.pairwise_map.mp hpw
    · intro h
      have hpw := List.pairwise_map.mpr h
      exact (sortBy_eq_self hpw).symm
  show (if _ then _ else _) = _ ↔ _
  rw [← hsrt]
  constructor
  · intro h
    split at h
    · next hs =>
      cases h
      exact ⟨rfl, hs⟩
    · cases h
  · rintro ⟨rfl, hs⟩
    rw [if_pos hs]

/-! ### Runs without a stop -/

/-- The world after an operation, whether it returned or raised. -/
def World.perform (k : Config δ) (w : World δ) (op : Op) : World δ :=
  match op.run k w with
  | .ok _ w' => w'
  | .error _ w' => w'

/-- A session that starts over an empty store. -/
def World.start (k : Config δ) : World δ where
  session := CaptureSession.fresh k
  store := {}

theorem World.perform_steps (k : Config δ) {P : Guard δ} {op : Op}
    (hsave : ∀ j s items, P j items → P { j with saved := s } items)
    (hP : P w.journal (op.taken w.session)) : Steps P w.journal (w.perform k op).journal := by
  have h := op.traces (k := k) hsave hP
  unfold World.perform
  cases hrun : op.run k w with
  | ok a w' => exact (Ends.of_ok h hrun).steps
  | error e w' => exact (Ends.of_error h hrun).steps

/-- What an operation takes out of a buffer came in after all that is written or queued,
unless it is itself. -/
def InTurn (w : World δ) (op : Op) : Prop :=
  Journal.Clear AdmittedEvent.admissionOrdinal AdmittedEvent.sourceIdentity w.journal
    (op.taken w.session)

/-- Ordinals increase along the log and the queue, and along each buffer. -/
abbrev World.Ordered (w : World δ) : Prop := Journal.Ordered AdmittedEvent.admissionOrdinal w.journal

/-- No ordinal and no source identity is used twice. -/
abbrev World.Unique (w : World δ) : Prop :=
  Journal.Unique AdmittedEvent.admissionOrdinal AdmittedEvent.sourceIdentity w.journal

theorem World.Ordered.perform (k : Config δ) {op : Op} (h : w.Ordered)
    (hturn : InTurn w op) : (w.perform k op).Ordered :=
  Journal.Steps.invariant (fun _ _ => Journal.Ordered.step)
    (World.perform_steps k (fun _ _ _ h => h) hturn) h

theorem World.Unique.perform (k : Config δ) {op : Op} (h : w.Unique) :
    (w.perform k op).Unique :=
  Journal.Steps.invariant (fun _ _ => Journal.Unique.step)
    (World.perform_steps k (P := fun _ _ => True) (fun _ _ _ h => h) trivial) h

omit [DecidableEq δ] in
theorem World.start_ordered (k : Config δ) : (World.start k).Ordered where
  written := List.Pairwise.nil
  written_le _ h := by cases h
  buffered _ := List.Pairwise.nil
  buffered_le _ _ h := by cases h

omit [DecidableEq δ] in
/-- A process that holds nothing uses nothing twice. -/
theorem World.unique_of_empty (hlog : w.store.admissions = [])
    (hpend : w.session.pending = []) (hbuf : ∀ m, w.session.prebuffer m = [])
    (hsv : w.store.checkpoint = none) : w.Unique := by
  have hkn : ∀ e, ¬ Journal.Known w.journal e := by
    intro e he
    cases he with
    | log h =>
      rw [show w.journal.log = [] from hlog] at h
      cases h
    | queue h =>
      rw [show w.journal.queue = [] from hpend] at h
      cases h
    | buffer m h =>
      rw [show w.journal.buffer m = [] from hbuf m] at h
      cases h
    | saved s hs h =>
      rw [World.journal, hsv] at hs
      cases hs
  refine ⟨fun a _ ha => absurd ha (hkn a), fun e he => absurd he (hkn e),
    fun e he => absurd he (hkn e), fun e he => ?_, ?_, fun s hs => ?_⟩
  · rcases List.mem_append.mp he with he | he
    · exact absurd (.log he) (hkn e)
    · exact absurd (.queue he) (hkn e)
  · rw [show w.journal.log ++ w.journal.queue = w.store.admissions ++ w.session.pending from rfl,
      hlog, hpend]
    exact List.nodup_nil
  · rw [World.journal, hsv] at hs
    cases hs

/-- **A run whose openings queue their windows in turn leaves a log that reads back**, with
increasing ordinals and every source event written at most once. -/
theorem log_reads_back (k : Config δ) (ops : List Op)
    (h : Along (World.perform k) InTurn (World.start k) ops) :
    ∃ events, (ops.foldl (World.perform k) (World.start k)).store.loadAdmissions = .ok events
      ∧ (events.Pairwise fun a b => a.admissionOrdinal < b.admissionOrdinal)
      ∧ (events.map AdmittedEvent.sourceIdentity).Nodup := by
  have hordered := Along.invariant (fun w op hw hturn => hw.perform k hturn) h (World.start_ordered k)
  have hunique :=
    Along.invariant (fun w op hw _ => hw.perform k) h (World.unique_of_empty rfl rfl (fun _ => rfl) rfl)
  have hlog := (List.pairwise_append.mp hordered.written).1
  exact ⟨_, loadAdmissions_eq_ok.mpr ⟨rfl, hlog.imp fun hab => hab.le⟩, hlog, hunique.log_nodup⟩

/-! ### A log that does not read back -/

namespace Sample

def market : Text := ['m']

def config (batchSize : ℕ) (h : 1 ≤ batchSize) : Config ReplayIdentity where
  replayHash := id
  manifest := ⟨['r'], ['h'], ['p'], ['c'], ['a']⟩
  policy := ⟨[market], [], [market], by simp, by simp⟩
  batchSize := batchSize
  batchSize_pos := h

/-- A fact of the market, told apart by its id. -/
def fact (kind : DataKind) (hkind : kind ≠ .trade) (id : Text) : SourceEvent where
  marketId := market
  expressionId := ['e']
  providerId := ['n']
  instrumentId := ['i']
  dataKind := kind
  sourceEventId := id
  tradeIdentity := none
  eventContext := ['x']
  tsEvent := 1
  tsInit := 1
  payload := Payload.empty
  trade_iff := (decide_eq_false hkind).symm
  event_pos := le_rfl
  init_pos := le_rfl

def quote (id : Text) : SourceEvent := fact .bbo (by decide) id

def bar (id : Text) : SourceEvent := fact .bar (by decide) id

def opening : PackageOpening := ⟨['P'], ['O'], ['T'], market, ['e']⟩

end Sample

open Sample

/-- A quote waits, the bar after it is queued, and then the opening queues the quote: the log
has the ordinals 2 and 1. -/
theorem quote_after_bar_unreadable : ([.ingest (quote ['1']) 10 false, .ingest (bar ['2']) 11 false,
        .openActionable opening 12 .take].foldl (World.perform (config 128 (by decide)))
      (World.start (config 128 (by decide)))).store.loadAdmissions = .error .orderNotDeterministic := by
  decide +kernel

/-- The bar is written before the quote comes in. -/
theorem log_reads_back_bar_first : ∃ events, ([.ingest (bar ['2']) 10 false, .ingest (quote ['1']) 11 false,
        .openActionable opening 12 .take].foldl (World.perform (config 128 (by decide)))
      (World.start (config 128 (by decide)))).store.loadAdmissions = .ok events
      ∧ (events.Pairwise fun a b => a.admissionOrdinal < b.admissionOrdinal)
      ∧ (events.map AdmittedEvent.sourceIdentity).Nodup := by
  refine log_reads_back _ _ ⟨?_, ?_, ?_, trivial⟩
  · exact fun _ h => by cases h
  · exact fun _ h => by cases h
  · unfold InTurn Journal.Clear
    decide +kernel

end TraderAssist.E4
