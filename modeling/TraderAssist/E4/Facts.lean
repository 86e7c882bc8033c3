/-
TraderAssist/E4/Facts.lean

The lifecycle facts of a run.

The facts are appended to one file, and a recovered process reads its knowledge of them
back with `_fold_lifecycle_records`, which raises on a fact that does not continue the ones
before it.  `FoldSpec` says what the fold returns; `Informed` is the invariant that a process
knows exactly what is in the file.
-/
import TraderAssist.E4.Capture

namespace TraderAssist.E4

open Py

variable {δ : Type} [DecidableEq δ] {runId : Text} {l : List LifecycleRecord} {f f' : LifecycleFold}
  {r : LifecycleRecord}

/-! ### The fold -/

/-- What the fold of a list of facts holds. -/
structure FoldSpec (runId : Text) (l : List LifecycleRecord) (f : LifecycleFold) : Prop where
  records : f.records = l
  latest : ∀ id, f.latest.get? id = (l.filter fun r => r.objectId = id).getLast?
  run : ∀ r ∈ l, r.runId = runId
  parent : ∀ r ∈ l, ∀ p ∈ r.parentId, ∃ q ∈ l, q.objectId = p
  ordered : ∀ r ∈ l, ∀ last, f.latest.get? r.objectId = some last → r = last ∨ notAfter last r = false

theorem FoldSpec.latest_mem (h : FoldSpec runId l f) {id : Text} (hr : f.latest.get? id = some r) :
    r ∈ l ∧ r.objectId = id := by
  rw [h.latest] at hr
  have hmem := List.mem_filter.mp (List.mem_of_getLast? hr)
  exact ⟨hmem.1, of_decide_eq_true hmem.2⟩

theorem FoldSpec.has_iff (h : FoldSpec runId l f) {id : Text} :
    f.latest.has id = true ↔ ∃ r ∈ l, r.objectId = id := by
  rw [Dict.has_eq_true]
  constructor
  · rintro ⟨r, hr⟩
    exact ⟨r, h.latest_mem hr⟩
  · rintro ⟨r, hr, hid⟩
    have hne : (l.filter fun r => decide (r.objectId = id)) ≠ [] :=
      List.ne_nil_of_mem (List.mem_filter.mpr ⟨hr, decide_eq_true hid⟩)
    exact ⟨_, (h.latest id).trans (List.getLast?_eq_some_getLast hne)⟩

theorem foldSpec_nil : FoldSpec runId [] {} where
  records := rfl
  latest _ := rfl
  run _ h := by cases h
  parent _ h := by cases h
  ordered _ h := by cases h

/-- The order of facts is strict. -/
theorem notAfter_trans {a b c : LifecycleRecord} (hab : notAfter b a = false) (hbc : notAfter c b = false) :
    notAfter c a = false := by
  unfold notAfter at *
  simp only [Bool.or_eq_false_iff, Bool.and_eq_false_iff, decide_eq_false_iff_not, not_lt, not_le] at *
  omega

theorem notAfter_self (a : LifecycleRecord) : notAfter a a = true := by
  simp [notAfter]

/-- What a fact must be to continue the ones before it. -/
structure Continues (runId : Text) (f : LifecycleFold) (r : LifecycleRecord) : Prop where
  run : r.runId = runId
  first : f.latest.get? r.objectId = none → ∀ p ∈ r.parentId, f.latest.has p = true
  next : ∀ previous, f.latest.get? r.objectId = some previous →
    validateLifecycleSuccessor previous r = .ok ()

theorem validateLifecycleSuccessor_eq_ok {previous record : LifecycleRecord}
    (h : validateLifecycleSuccessor previous record = .ok ()) :
    record.parentId = previous.parentId ∧ notAfter record previous = false := by
  unfold validateLifecycleSuccessor at h
  rw [require_bind_ok, require_bind_ok, require_bind_ok] at h
  obtain ⟨-, hauth, hord, -⟩ := h
  have hpar := congrArg (fun t => t.2.2.1) hauth
  exact ⟨hpar, hord⟩

/-- The fold after one more fact. -/
def LifecycleFold.push (f : LifecycleFold) (r : LifecycleRecord) : LifecycleFold :=
  ⟨f.latest.set r.objectId r, f.records ++ [r]⟩

/-- A fact that continues the others is not among them. -/
theorem FoldSpec.not_mem (h : FoldSpec runId l f) (hr : Continues runId f r) : r ∉ l := by
  intro hmem
  obtain ⟨last, hlast⟩ := Dict.has_eq_true.mp (h.has_iff.mpr ⟨r, hmem, rfl⟩)
  have hord := (validateLifecycleSuccessor_eq_ok (hr.next last hlast)).2
  rcases h.ordered r hmem last hlast with rfl | hltr
  · rw [notAfter_self] at hord
    cases hord
  · have hself := notAfter_trans hord hltr
    rw [notAfter_self] at hself
    cases hself

theorem checkLatest_eq_ok : f.checkLatest r = .ok ()
    ↔ (f.latest.get? r.objectId = none → ∀ p ∈ r.parentId, f.latest.has p = true)
      ∧ ∀ previous, f.latest.get? r.objectId = some previous →
        validateLifecycleSuccessor previous r = .ok () := by
  unfold LifecycleFold.checkLatest
  rcases f.latest.get? r.objectId with - | previous
  · simp [require_eq_ok, Option.all_eq_true]
  · simp

theorem add_eq_ok (h : FoldSpec runId l f) :
    f.add runId r = .ok f' ↔ Continues runId f r ∧ f' = f.push r := by
  unfold LifecycleFold.add
  rw [require_bind_ok, require_bind_ok, bind_eq_ok, h.records]
  constructor
  · rintro ⟨hrun, -, ⟨⟩, hlat, hf⟩
    obtain ⟨hfst, hnext⟩ := checkLatest_eq_ok.mp hlat
    cases hf
    rw [LifecycleFold.push, h.records]
    exact ⟨⟨hrun, hfst, hnext⟩, rfl⟩
  · rintro ⟨hr, rfl⟩
    refine ⟨hr.run, h.not_mem hr, (), checkLatest_eq_ok.mpr ⟨hr.first, hr.next⟩, ?_⟩
    rw [LifecycleFold.push, h.records]
    rfl

theorem FoldSpec.push (h : FoldSpec runId l f) (hr : Continues runId f r) :
    FoldSpec runId (l ++ [r]) (f.push r) := by
  have hget : ∀ id, (f.push r).latest.get? id = if r.objectId = id then some r else f.latest.get? id :=
    fun id => Dict.get?_set
  refine ⟨?_, fun id => ?_, forall_mem_snoc h.run hr.run, fun q hq p hp => ?_, fun q hq last hlast => ?_⟩
  · rw [LifecycleFold.push, h.records]
  · rw [hget]
    by_cases hid : r.objectId = id
    · simp [hid]
    · simp [hid, h.latest]
  · rcases List.mem_append.mp hq with hq | hq
    · obtain ⟨o, ho, hid⟩ := h.parent q hq p hp
      exact ⟨o, List.mem_append_left _ ho, hid⟩
    · rw [List.mem_singleton.mp hq] at hp
      -- the first fact of an object names a known parent, the others the parent of the first
      rcases hprev : f.latest.get? r.objectId with - | previous
      · obtain ⟨o, ho, hid⟩ := h.has_iff.mp (hr.first hprev p hp)
        exact ⟨o, List.mem_append_left _ ho, hid⟩
      · rw [(validateLifecycleSuccessor_eq_ok (hr.next previous hprev)).1] at hp
        obtain ⟨o, ho, hid⟩ := h.parent previous (h.latest_mem hprev).1 p hp
        exact ⟨o, List.mem_append_left _ ho, hid⟩
  · rw [hget] at hlast
    by_cases hid : r.objectId = q.objectId
    · rw [if_pos hid] at hlast
      cases hlast
      rcases List.mem_append.mp hq with hq | hq
      · right
        obtain ⟨previous, hprev⟩ := Dict.has_eq_true.mp (h.has_iff.mpr ⟨q, hq, rfl⟩)
        have hord := (validateLifecycleSuccessor_eq_ok (hr.next previous (hid ▸ hprev))).2
        rcases h.ordered q hq previous hprev with rfl | hltr
        · exact hord
        · exact notAfter_trans hltr hord
      · exact .inl (List.mem_singleton.mp hq)
    · rw [if_neg hid] at hlast
      rcases List.mem_append.mp hq with hq | hq
      · exact h.ordered q hq last hlast
      · exact absurd (congrArg LifecycleRecord.objectId (List.mem_singleton.mp hq)).symm hid

theorem foldLifecycleRecords_snoc : foldLifecycleRecords runId (l ++ [r])
    = foldLifecycleRecords runId l >>= fun f => f.add runId r := by
  unfold foldLifecycleRecords
  simp [List.foldlM_append]

/-- **What the fold returns, when it does.** -/
theorem foldLifecycleRecords_spec (h : foldLifecycleRecords runId l = .ok f) : FoldSpec runId l f := by
  induction l using List.reverseRecOn generalizing f with
  | nil =>
    cases h
    exact foldSpec_nil
  | append_singleton l r ih =>
    rw [foldLifecycleRecords_snoc, bind_eq_ok] at h
    obtain ⟨g, hg, hadd⟩ := h
    obtain ⟨hr, rfl⟩ := (add_eq_ok (ih hg)).mp hadd
    exact (ih hg).push hr

/-- How a fact stands to a later one: those of one object are ACTIVE before the last, of one authority and
in order. -/
def Precedes (a b : LifecycleRecord) : Prop := a.objectId = b.objectId →
  a.status = .active ∧ lifecycleAuthority b = lifecycleAuthority a ∧ notAfter b a = false

/-- The facts of an object end with the one that the next is checked against. -/
theorem foldLifecycleRecords_pairwise (h : foldLifecycleRecords runId l = .ok f) : l.Pairwise Precedes := by
  induction l using List.reverseRecOn generalizing f with
  | nil => exact .nil
  | append_singleton l r ih =>
    rw [foldLifecycleRecords_snoc, bind_eq_ok] at h
    obtain ⟨g, hg, hadd⟩ := h
    have hspec := foldLifecycleRecords_spec hg
    refine pairwise_snoc (ih hg) fun q hq hid => ?_
    obtain ⟨last, hlast⟩ := Dict.has_eq_true.mp (hspec.has_iff.mpr ⟨q, hq, hid⟩)
    have hchk := ((add_eq_ok hspec).mp hadd).1.next last hlast
    unfold validateLifecycleSuccessor at hchk
    rw [require_bind_ok, require_bind_ok, require_bind_ok, require_bind_ok, require_eq_ok] at hchk
    obtain ⟨-, hauth, hord, -, hact, -⟩ := hchk
    have hobj := (hspec.latest_mem hlast).2
    rw [hspec.latest] at hlast
    obtain ⟨before, hsplit⟩ := List.getLast?_eq_some_iff.mp hlast
    have hpair := (ih hg).filter fun q => decide (q.objectId = r.objectId)
    have hmem : q ∈ l.filter fun q => decide (q.objectId = r.objectId) :=
      List.mem_filter.mpr ⟨hq, decide_eq_true hid⟩
    rw [hsplit] at hpair hmem
    rcases List.mem_append.mp hmem with hbef | hone
    · obtain ⟨hact', hauth', hord'⟩ :=
        (List.pairwise_append.mp hpair).2.2 q hbef last (List.mem_singleton_self _) (hid.trans hobj.symm)
      exact ⟨hact', hauth.trans hauth', notAfter_trans hord' hord⟩
    · rw [List.mem_singleton.mp hone]
      exact ⟨hact, hauth, hord⟩

/-- A fact that continues the others can be appended. -/
theorem foldLifecycleRecords_push (h : foldLifecycleRecords runId l = .ok f) (hr : Continues runId f r) :
    foldLifecycleRecords runId (l ++ [r]) = .ok (f.push r) := by
  rw [foldLifecycleRecords_snoc, bind_eq_ok]
  exact ⟨f, h, (add_eq_ok (foldLifecycleRecords_spec h)).mpr ⟨hr, rfl⟩⟩

/-! ### What processes know -/

/-- The facts of a store fold, and its checkpoint agrees with them. -/
structure EvidenceStore.Recorded (k : Config δ) (st : EvidenceStore δ) (f : LifecycleFold) : Prop where
  fold : foldLifecycleRecords k.manifest.runId st.lifecycle = .ok f
  ids : ∀ c ∈ st.checkpoint, ∀ id ∈ c.lifecycleIds, f.latest.has id = true
  agrees : ∀ c ∈ st.checkpoint, checkpointAgrees c f.records

/-- A process knows the facts of its store. -/
structure World.Knows (k : Config δ) (w : World δ) (f : LifecycleFold) : Prop where
  recorded : w.store.Recorded k f
  ids : ∀ id, id ∈ w.session.lifecycleIds ↔ f.latest.has id = true
  latest : ∀ id, w.session.latestLifecycleRecords.get? id = f.latest.get? id
  known : ∀ r ∈ w.session.lifecycleRecords, r ∈ w.store.lifecycle

def World.Informed (k : Config δ) (w : World δ) : Prop := ∃ f, w.Knows k f

section Knows

variable {k : Config δ} {w w' : World δ} {f : LifecycleFold}

omit [DecidableEq δ] in
/-- Changes elsewhere leave a process informed. -/
theorem World.Informed.of_eq (h : w.Informed k) (hlife : w'.store.lifecycle = w.store.lifecycle)
    (hcp : w'.store.checkpoint = w.store.checkpoint) (hids : w'.session.lifecycleIds = w.session.lifecycleIds)
    (hlat : w'.session.latestLifecycleRecords = w.session.latestLifecycleRecords)
    (hkn : w'.session.lifecycleRecords = w.session.lifecycleRecords) : w'.Informed k := by
  obtain ⟨f, h⟩ := h
  refine ⟨f, ⟨?_, ?_, ?_⟩, ?_, ?_, ?_⟩
  · rw [hlife]
    exact h.recorded.fold
  · rw [hcp]
    exact h.recorded.ids
  · rw [hcp]
    exact h.recorded.agrees
  · rw [hids]
    exact h.ids
  · rw [hlat]
    exact h.latest
  · rw [hkn, hlife]
    exact h.known

omit [DecidableEq δ] in
/-- A checkpoint of what is known agrees with the facts. -/
theorem World.Knows.saved (h : w.Knows k f) :
    World.Knows k { w with store := { w.store with checkpoint := some w.session.checkpoint } } f := by
  have hspec := foldLifecycleRecords_spec h.recorded.fold
  refine ⟨⟨h.recorded.fold, fun c hc id hid => ?_, fun c hc e he => ?_⟩, h.ids, h.latest, h.known⟩
  · cases hc
    exact (h.ids id).mp hid
  · cases hc
    have hget : f.latest.get? e.1 = some e.2 := (h.latest e.1).symm.trans (Dict.mem_entries.mp he)
    obtain ⟨hmem, hid⟩ := hspec.latest_mem hget
    refine ⟨(h.ids e.1).mpr (Dict.has_eq_true.mpr ⟨_, hget⟩), hid, ?_⟩
    rw [hspec.records]
    exact hmem

omit [DecidableEq δ] in
/-- A fact that a process accepts continues the facts of its store. -/
theorem World.Knows.continues (h : w.Knows k f) {r : LifecycleRecord}
    (hrun : r.runId = k.manifest.runId) (hchk : w.session.checkFact r = .ok ()) :
    Continues k.manifest.runId f r := by
  unfold CaptureSession.checkFact at hchk
  refine ⟨hrun, fun hnone p hp => ?_, fun previous hprev => ?_⟩
  · have hnot : r.objectId ∉ w.session.lifecycleIds := by
      rw [h.ids, Dict.has_eq_true]
      rintro ⟨v, hv⟩
      rw [hnone] at hv
      cases hv
    rw [if_neg hnot, require_eq_ok] at hchk
    have hmem := Option.all_eq_true _ _ |>.mp hchk p hp
    exact (h.ids p).mp (of_decide_eq_true hmem)
  · have hin := (h.ids _).mpr (Dict.has_eq_true.mpr ⟨_, hprev⟩)
    rw [if_pos hin, h.latest, hprev] at hchk
    exact hchk

/-- The process and the store after a fact. -/
def World.addFact (w : World δ) (r : LifecycleRecord) : World δ :=
  { w with
    session := w.session.addFact r
    store := { w.store with lifecycle := w.store.lifecycle ++ [r] } }

omit [DecidableEq δ] in
theorem World.Knows.addFact (h : w.Knows k f) {r : LifecycleRecord}
    (hr : Continues k.manifest.runId f r) : (w.addFact r).Knows k (f.push r) := by
  have hhas : ∀ id, f.latest.has id = true → (f.push r).latest.has id = true := by
    intro id hid
    obtain ⟨v, hv⟩ := Dict.has_eq_true.mp hid
    rw [Dict.has_eq_true, LifecycleFold.push, Dict.get?_set]
    split
    · exact ⟨_, rfl⟩
    · exact ⟨v, hv⟩
  refine ⟨⟨foldLifecycleRecords_push h.recorded.fold hr, fun c hc id hid => ?_, fun c hc e he => ?_⟩,
    fun id => ?_, fun id => ?_, fun q hq => ?_⟩
  · exact hhas id (h.recorded.ids c hc id hid)
  · obtain ⟨hid, hobject, hmem⟩ := h.recorded.agrees c hc e he
    exact ⟨hid, hobject, List.mem_append_left _ hmem⟩
  · show id ∈ r.objectId :: w.session.lifecycleIds ↔ _
    rw [List.mem_cons, h.ids, Dict.has_eq_true, Dict.has_eq_true, LifecycleFold.push, Dict.get?_set]
    by_cases hid : r.objectId = id
    · simp [hid]
    · simp [hid, Ne.symm hid]
  · show (w.session.latestLifecycleRecords.set r.objectId r).get? id = _
    rw [LifecycleFold.push, Dict.get?_set, Dict.get?_set, h.latest]
  · rcases hq with - | ⟨-, hq⟩
    · exact List.mem_append_right _ (List.mem_singleton_self _)
    · exact List.mem_append_left _ (h.known q hq)

end Knows

end TraderAssist.E4
