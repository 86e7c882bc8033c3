/-
TraderAssist/Records/Store.lean

`EvidenceStore` of `shadow_records/store.py`: the immutable records, the typed tables, the
outbox and the worklist `outcome_recovery_locator`.

The store carries what its schema and its only way to insert a record enforce: a record
lies under its identifier and has a row in the table of its type, the links of every row
refer to rows, and the worklist refers to shadow orders.  A call is a transaction; inside
it, what was inserted before an error is still there when the error is raised, and
`transaction` takes it back.

Left out: the branches of `_validate_links` for a candidate and a candidate transition,
and the unique indexes on strategy evaluations, candidates and E4 references; no function
modelled here writes such a record.
-/
import TraderAssist.Lib.Stateful
import TraderAssist.Records.Types
import TraderAssist.Outbox.Store

namespace TraderAssist

open Py

variable {δ : Type} [DecidableEq δ]

inductive RecordError
  | incompleteBundle
  | untypedReference
  | notFormalEnvelope
  | referenceSignal
  | referenceEnvelope
  | identityConflict
  | linkNotString
  | linkNotRetained
  | eventCandidate
  | notEligible
  | planSignal
  | shadowSignal
  | transitionMarket
  | integrityError
  | bindingError
  | linkageIntegrity
  | outboxConflict
  | notOutcome
  | noActiveRecovery
deriving DecidableEq, Repr

/-! ### Tables -/

/-- The rows of the typed tables: the links of a record of a type. -/
abbrev TypedTables (δ : Type) := Dict (RecordType × δ) (List (Option δ))

/-- The value of a link column.  A number would be stored as its decimal text, which no
identifier is. -/
def linkValue (typed : TypedTables δ) (payload : JsonObject δ) (column : String × RecordType × Bool) :
    Except RecordError (Option δ) :=
  match payload.field column.1 with
  | .null => if column.2.2 then .ok none else .error .integrityError
  | .hex id => if typed.has (column.2.1, id) then .ok (some id) else .error .integrityError
  | .nested _ => .error .bindingError
  | _ => .error .integrityError

/-- The row of a record in the table of its type. -/
def linkValues (typed : TypedTables δ) (r : ImmutableRecord δ) : Except RecordError (List (Option δ)) :=
  r.recordType.linkColumns.mapM (linkValue typed r.payload)

/-- Rows are never changed or taken away. -/
def TypedTables.Within (typed typed' : TypedTables δ) : Prop :=
  ∀ key links, typed.get? key = some links → typed'.get? key = some links

variable {typed typed' : TypedTables δ} {r : ImmutableRecord δ}

theorem TypedTables.Within.has (h : typed.Within typed') {key : RecordType × δ}
    (hkey : typed.has key = true) : typed'.has key = true := by
  obtain ⟨links, hlnk⟩ := Dict.has_eq_true.mp hkey
  exact Dict.has_eq_true.mpr ⟨links, h key links hlnk⟩

theorem TypedTables.within_set {key : RecordType × δ} {links : List (Option δ)}
    (hnew : typed.get? key = none) : typed.Within (typed.set key links) := by
  intro key' links' hget
  rw [Dict.get?_set_ne]
  · exact hget
  · rintro rfl
    rw [hnew] at hget
    cases hget

theorem linkValue_mono (hsub : typed.Within typed') {payload : JsonObject δ}
    {column : String × RecordType × Bool} {link : Option δ}
    (h : linkValue typed payload column = .ok link) : linkValue typed' payload column = .ok link := by
  unfold linkValue at h ⊢
  cases hv : payload.field column.1 with
  | hex id =>
    simp only [hv] at h ⊢
    split_ifs at h with hid
    rw [if_pos (hsub.has hid)]
    exact h
  | null => simpa only [hv] using h
  | bool b => simpa only [hv] using h
  | int z => simpa only [hv] using h
  | text t => simpa only [hv] using h
  | nested t => simpa only [hv] using h

/-- Links that refer to rows still do when there are more rows. -/
theorem linkValues_mono (hsub : typed.Within typed')
    {links : List (Option δ)} (h : linkValues typed r = .ok links) : linkValues typed' r = .ok links :=
  mapM_ok_mono (fun _ _ _ => linkValue_mono hsub) h

/-! ### The store -/

/-- The database. -/
structure EvidenceStore (sha256 : RecordHash δ) where
  records : Dict δ (ImmutableRecord δ) := .empty
  typed : TypedTables δ := .empty
  outbox : EvidenceOutbox δ := {}
  locator : Finset δ := ∅
  keyed : ∀ {id r}, records.get? id = some r → r.recordId sha256 = id
  linked : ∀ {id r}, records.get? id = some r →
    ∃ links, linkValues typed r = .ok links ∧ typed.get? (r.recordType, id) = some links
  typed_records : ∀ {t id}, typed.has (t, id) = true →
    ∃ r, records.get? id = some r ∧ r.recordType = t
  located : ∀ id ∈ locator, typed.has (.shadowOrder, id) = true

namespace EvidenceStore

variable {sha256 : RecordHash δ} {s : EvidenceStore sha256}

/-- A new database. -/
def empty : EvidenceStore sha256 where
  keyed h := by cases h
  linked h := by cases h
  typed_records h := by cases h
  located id h := by simp at h

/-- The insertions of `_write_one`: a record that is not there, with its row. -/
def insert (s : EvidenceStore sha256) (r : ImmutableRecord δ) (links : List (Option δ))
    (hnew : s.records.get? (r.recordId sha256) = none) (hlinks : linkValues s.typed r = .ok links) :
    EvidenceStore sha256 :=
  have hrow : s.typed.get? (r.recordType, r.recordId sha256) = none := by
    by_contra hrow
    obtain ⟨r', hr', -⟩ := s.typed_records (Option.isSome_iff_ne_none.mpr hrow)
    rw [hnew] at hr'
    cases hr'
  have hsub : s.typed.Within (s.typed.set (r.recordType, r.recordId sha256) links) :=
    TypedTables.within_set hrow
  { s with
    records := s.records.set (r.recordId sha256) r
    typed := s.typed.set (r.recordType, r.recordId sha256) links
    keyed := Dict.forall_get?_set (fun _ _ => s.keyed) rfl _ _
    linked := by
      intro id r' h
      rw [Dict.get?_set] at h
      split_ifs at h with hid
      · injection h with h
        subst h hid
        exact ⟨links, linkValues_mono hsub hlinks, Dict.get?_set_self⟩
      · obtain ⟨links', hl, hget⟩ := s.linked h
        exact ⟨links', linkValues_mono hsub hl, hsub _ _ hget⟩
    typed_records := by
      intro t id h
      rw [Dict.has, Dict.get?_set] at h
      split_ifs at h with hkey
      · injection hkey with ht hid
        exact ⟨r, by rw [Dict.get?_set, if_pos hid], ht⟩
      · obtain ⟨r', hr', ht⟩ := s.typed_records h
        refine ⟨r', ?_, ht⟩
        rw [Dict.get?_set_ne]
        · exact hr'
        · rintro rfl
          rw [hnew] at hr'
          cases hr'
    located := fun id hid => hsub.has (s.located id hid) }

/-- `_linked_payload`. -/
def linkedPayload (s : EvidenceStore sha256) : JsonValue δ → Except RecordError (JsonObject δ)
  | .hex id => match s.records.get? id with
    | none => .error .linkNotRetained
    | some r => .ok r.payload
  | .text _ => .error .linkNotRetained
  | _ => .error .linkNotString

/-- `_validate_links`. -/
def validateLinks (s : EvidenceStore sha256) (r : ImmutableRecord δ) : Except RecordError Unit :=
  match r.recordType with
  | .formalSignal => do
    let event ← s.linkedPayload (r.payload.field "market_event_id")
    require ((event.field "candidate_id").same (r.payload.field "candidate_id")) .eventCandidate
  | .shadowOrder => do
    let signal ← s.linkedPayload (r.payload.field "signal_id")
    let plan ← s.linkedPayload (r.payload.field "plan_id")
    -- `approval_status` counts for records from before `formalization_status`
    require ((signal.field "formalization_status").isOneOf ["STRATEGY_ELIGIBLE"] ∨
      (signal.field "formalization_status" = .null ∧
        (signal.field "approval_status").isOneOf ["APPROVED"])) .notEligible
    require ((plan.field "signal_id").same (r.payload.field "signal_id")) .planSignal
  | .humanReview | .outcomeEnvelope | .correlationIdentifier => do
    let shadow ← s.linkedPayload (r.payload.field "shadow_order_id")
    require ((shadow.field "signal_id").same (r.payload.field "signal_id")) .shadowSignal
  | .outcomeTransition => do
    let shadow ← s.linkedPayload (r.payload.field "shadow_order_id")
    require ((shadow.field "market_id").same (r.payload.field "market_id")) .transitionMarket
  | _ => .ok ()

/-- `_write_one`: whether the record was inserted. -/
def writeOne (r : ImmutableRecord δ) : EStateM RecordError (EvidenceStore sha256) Bool := do
  let s ← get
  match hget : s.records.get? (r.recordId sha256) with
  | some existing =>
    check (existing.canonicalHash sha256 = r.canonicalHash sha256) .identityConflict
    pure false
  | none =>
    attempt (s.validateLinks r)
    match hlinks : linkValues s.typed r with
    | .error e => throw e
    | .ok links =>
      set (s.insert r links hget hlinks)
      pure true

/-! ### Publication -/

/-- The types of a bundle. -/
def formalTypes : List RecordType :=
  [.provenance, .marketEvent, .formalSignal, .planRecord, .shadowOrder]

/-- The loop over the records of a bundle: the shadow order if it was inserted. -/
def writeBundle : Option δ → List (ImmutableRecord δ) →
    EStateM RecordError (EvidenceStore sha256) (Option δ)
  | shadow, [] => pure shadow
  | shadow, r :: records => do
    let inserted ← writeOne r
    writeBundle (if r.recordType = .shadowOrder then
      if inserted then some (r.recordId sha256) else none
      else shadow) records

/-- `_activate_outcome_recovery`. -/
def activateOutcomeRecovery (id : δ) : EStateM RecordError (EvidenceStore sha256) Unit := do
  let s ← get
  if hid : id ∉ s.locator ∧ s.typed.has (.shadowOrder, id) = true then
    set ({ s with
      locator := Insert.insert id s.locator
      located := by
        intro id' h
        rcases Finset.mem_insert.mp h with rfl | h
        · exact hid.2
        · exact s.located id' h } : EvidenceStore sha256)
  else throw .integrityError

/-- `_insert_outbox` and the comparison with the row retained: whether it was there. -/
def insertOutbox (envelope : MessageEnvelope) : EStateM RecordError (EvidenceStore sha256) Bool := do
  let s ← get
  match s.outbox.insertChecked envelope with
  | .error _ => throw .outboxConflict
  | .ok (coalesced, outbox) =>
    set { s with outbox := outbox }
    pure coalesced

/-- The signal of a bundle. -/
def bundleSignal (sha256 : RecordHash δ) (records : List (ImmutableRecord δ)) : Option δ :=
  (records.find? fun r => r.recordType = .formalSignal).map (ImmutableRecord.recordId sha256)

/-- The transaction of `publish_formal_bundle`. -/
def retainBundle (records : List (ImmutableRecord δ)) (reference : ImmutableRecord δ)
    (envelope : MessageEnvelope) : EStateM RecordError (EvidenceStore sha256) Bool := do
  match ← writeBundle none records with
  | none => pure ()
  | some id => activateOutcomeRecovery id
  let coalesced ← insertOutbox envelope
  let _ ← writeOne reference
  pure coalesced

/-- `publish_formal_bundle`: whether the notification was there already. -/
def publishFormalBundle (records : List (ImmutableRecord δ)) (reference : ImmutableRecord δ)
    (envelope : MessageEnvelope) : EStateM RecordError (EvidenceStore sha256) Bool := do
  check (records.length = formalTypes.length ∧
    (records.map ImmutableRecord.recordType).toFinset = formalTypes.toFinset) .incompleteBundle
  check (reference.recordType = .notificationOutboxReference) .untypedReference
  check (envelope.kind = .formalSignal) .notFormalEnvelope
  check ((bundleSignal sha256 records).map JsonValue.hex =
    some (reference.payload.field "signal_id")) .referenceSignal
  check (reference.payload.field "publication_id" = .text envelope.idempotencyKey) .referenceEnvelope
  transaction (retainBundle records reference envelope)

/-! ### Outcomes -/

/-- `_remove_outcome_recovery`: how many rows were deleted. -/
def removeOutcomeRecovery (shadow : JsonValue δ) : EStateM RecordError (EvidenceStore sha256) ℕ := do
  let s ← get
  match shadow with
  | .hex id =>
    set ({ s with
      locator := s.locator.erase id
      located := fun id' h => s.located id' (Finset.mem_of_mem_erase h) } : EvidenceStore sha256)
    pure (if id ∈ s.locator then 1 else 0)
  | _ => pure 0

/-- `_write_transaction` names an integrity error of the database. -/
def namedError : RecordError → RecordError
  | .integrityError => .linkageIntegrity
  | e => e

/-- `_persist_outcome`: whether the record was inserted. -/
def persistOutcome (r : ImmutableRecord δ) (terminal : Bool) :
    EStateM RecordError (EvidenceStore sha256) Bool := do
  check (r.recordType = .outcomeEnvelope) .notOutcome
  transaction do
    let inserted ← reraise namedError (writeOne r)
    if terminal then
      let deleted ← removeOutcomeRecovery (r.payload.field "shadow_order_id")
      check (inserted = true → deleted = 1) .noActiveRecovery
    pure inserted

/-! ### What the calls do -/

/-- The record is in the store. -/
def Retains (s : EvidenceStore sha256) (r : ImmutableRecord δ) : Prop :=
  s.records.get? (r.recordId sha256) = some r

/-- The second store has the records of the first one and those of the list, no others. -/
structure Adds (s s' : EvidenceStore sha256) (rs : List (ImmutableRecord δ)) : Prop where
  kept : ∀ {r}, s.Retains r → s'.Retains r
  only : ∀ {r}, s'.Retains r → s.Retains r ∨ r ∈ rs
  all : ∀ r ∈ rs, s'.Retains r

theorem Adds.refl (s : EvidenceStore sha256) : Adds s s [] where
  kept h := h
  only h := .inl h
  all r h := by cases h

theorem Adds.trans {s s' s'' : EvidenceStore sha256} {rs rs' : List (ImmutableRecord δ)}
    (h : Adds s s' rs) (h' : Adds s' s'' rs') : Adds s s'' (rs ++ rs') where
  kept hr := h'.kept (h.kept hr)
  only hr := by
    rcases h'.only hr with hr | hr
    · rcases h.only hr with hr | hr
      · exact .inl hr
      · exact .inr (List.mem_append_left _ hr)
    · exact .inr (List.mem_append_right _ hr)
  all r hr := by
    rcases List.mem_append.mp hr with hr | hr
    · exact h'.kept (h.all r hr)
    · exact h'.all r hr

theorem Adds.congr {s s' t t' : EvidenceStore sha256} {rs : List (ImmutableRecord δ)}
    (h : Adds s s' rs) (hs : t.records = s.records) (hs' : t'.records = s'.records) : Adds t t' rs := by
  have hR : ∀ r, t.Retains r ↔ s.Retains r := fun r => by rw [Retains, Retains, hs]
  have hR' : ∀ r, t'.Retains r ↔ s'.Retains r := fun r => by rw [Retains, Retains, hs']
  exact ⟨fun hr => (hR' _).mpr (h.kept ((hR _).mp hr)),
    fun hr => (h.only ((hR' _).mp hr)).imp_left (hR _).mpr, fun r hr => (hR' r).mpr (h.all r hr)⟩

/-- A record under an identifier. -/
theorem retains_of_get? {id : δ}
    (h : s.records.get? id = some r) : s.Retains r := by
  rw [Retains, s.keyed h]
  exact h

/-- The identifiers of a table are those of the records of its type. -/
theorem typed_has {t : RecordType} {id : δ} :
    s.typed.has (t, id) = true ↔ ∃ r, s.Retains r ∧ r.recordType = t ∧ r.recordId sha256 = id := by
  constructor
  · intro h
    obtain ⟨r, hr, ht⟩ := s.typed_records h
    exact ⟨r, retains_of_get? hr, ht, s.keyed hr⟩
  · rintro ⟨r, hr, rfl, rfl⟩
    obtain ⟨links, -, hget⟩ := s.linked hr
    exact Dict.has_eq_true.mpr ⟨links, hget⟩

/-- The link of a retained record in a column that may not be empty. -/
theorem link_of_retains (h : s.Retains r)
    {name : String} {t : RecordType} (hcol : (name, t, false) ∈ r.recordType.linkColumns) :
    ∃ id, r.payload.field name = .hex id ∧ s.typed.has (t, id) = true := by
  obtain ⟨links, hlnk, -⟩ := s.linked h
  obtain ⟨link, hlink⟩ := exists_ok_of_mapM hlnk hcol
  unfold linkValue at hlink
  cases hv : r.payload.field name with
  | hex id =>
    simp only [hv] at hlink
    split_ifs at hlink with hid
    exact ⟨id, rfl, hid⟩
  | null => simp [hv] at hlink
  | bool b => simp [hv] at hlink
  | int z => simp [hv] at hlink
  | text t => simp [hv] at hlink
  | nested t => simp [hv] at hlink

section WriteOne

variable {s s' : EvidenceStore sha256} {r : ImmutableRecord δ}

/-- The ways in which `_write_one` returns. -/
inductive Written (s : EvidenceStore sha256) (r : ImmutableRecord δ) :
    Bool → EvidenceStore sha256 → Prop
  | kept (h : s.Retains r) : Written s r false s
  | inserted (links : List (Option δ)) (hnew : s.records.get? (r.recordId sha256) = none)
      (hlinks : linkValues s.typed r = .ok links) : Written s r true (s.insert r links hnew hlinks)

theorem writeOne_ends : Ends (writeOne r) s (Written s r) fun _ _ => True := by
  rw [writeOne, ends_bind, ends_get]
  split
  · rename_i existing hget
    rw [ends_bind, ends_check]
    refine ⟨fun hhash => ?_, fun _ => trivial⟩
    -- equal hashes: what is retained is the record itself
    obtain rfl := ImmutableRecord.eq_of_canonicalHash hhash
    exact .kept hget
  · rename_i hget
    cases s.validateLinks r with
    | error e => exact trivial
    | ok _ =>
      split
      · exact trivial
      · rename_i links hlnk
        exact Written.inserted links hget hlnk

/-- A record that is there is left as it is. -/
theorem writeOne_retained (h : s.Retains r) : writeOne r s = .ok false s := by
  refine Ends.eq_ok (?_ : Ends (writeOne r) s (fun inserted s' => inserted = false ∧ s' = s) fun _ _ => False)
  rw [writeOne, ends_bind, ends_get]
  split
  · rename_i existing hget
    obtain rfl : existing = r := Option.some.inj (hget.symm.trans h)
    rw [ends_bind, ends_check]
    exact ⟨fun _ => ends_pure.mpr ⟨rfl, rfl⟩, fun hne => hne rfl⟩
  · rename_i hget
    cases hget.symm.trans h

variable {inserted : Bool}

section

variable (h : Written s r inserted s')
include h

theorem Written.adds : Adds s s' [r] := by
  cases h with
  | kept hr =>
    exact ⟨fun h => h, .inl, fun r' hr' => by rw [List.mem_singleton.mp hr']; exact hr⟩
  | inserted links hnew hlnk =>
    have hget : ∀ r', (s.insert r links hnew hlnk).Retains r' ↔
        (if r.recordId sha256 = r'.recordId sha256 then some r
          else s.records.get? (r'.recordId sha256)) = some r' := fun r' => by
      rw [← Dict.get?_set]
      rfl
    refine ⟨fun {r'} hr' => ?_, fun {r'} hr' => ?_, fun r' hr' => ?_⟩
    · rw [hget, if_neg]
      · exact hr'
      · intro hid
        rw [Retains, ← hid, hnew] at hr'
        cases hr'
    · rw [hget] at hr'
      split_ifs at hr' with hid
      · injection hr' with hr'
        exact .inr (by simp [hr'])
      · exact .inl hr'
    · obtain rfl := List.mem_singleton.mp hr'
      rw [hget, if_pos rfl]

theorem Written.frame : s'.outbox = s.outbox ∧ s'.locator = s.locator := by
  cases h <;> exact ⟨rfl, rfl⟩

/-- Whether the record was inserted. -/
theorem Written.inserted_iff : inserted = true ↔ ¬s.Retains r := by
  cases h with
  | kept hr => simp [hr]
  | inserted links hnew hlnk => simp [Retains, hnew]

end

end WriteOne

section Publication

variable {s s' : EvidenceStore sha256} {rs : List (ImmutableRecord δ)}

/-- The shadow order of a bundle, if it is not in the store. -/
def NewShadow (s : EvidenceStore sha256) (rs : List (ImmutableRecord δ)) (id : δ) : Prop :=
  ∃ r ∈ rs, r.recordType = .shadowOrder ∧ r.recordId sha256 = id ∧ ¬s.Retains r

/-- Without a shadow order among the records, the one found before stays. -/
theorem writeBundle_other {shadow : Option δ} (hrs : ∀ r ∈ rs, r.recordType ≠ .shadowOrder) :
    Ends (writeBundle shadow rs) s (fun shadow' s' => shadow' = shadow ∧ Adds s s' rs ∧
      s'.outbox = s.outbox ∧ s'.locator = s.locator) fun _ _ => True := by
  induction rs generalizing s with
  | nil => exact ⟨rfl, .refl s, rfl, rfl⟩
  | cons r rs ih =>
    rw [writeBundle, ends_bind]
    refine writeOne_ends.mono (fun inserted s₁ hw => ?_) fun _ _ h => h
    rw [if_neg (hrs r (.head _))]
    refine (ih fun r' hr' => hrs r' (.tail _ hr')).mono ?_ fun _ _ h => h
    rintro shadow' s₂ ⟨rfl, hadds, hout, hloc⟩
    exact ⟨rfl, hw.adds.trans hadds, hout.trans hw.frame.1, hloc.trans hw.frame.2⟩

/-- The loop adds the records, and finds the shadow order if that is new. -/
theorem writeBundle_ends (hnd : (rs.map ImmutableRecord.recordType).Nodup) :
    Ends (writeBundle none rs) s (fun shadow s' => Adds s s' rs ∧ s'.outbox = s.outbox ∧
      s'.locator = s.locator ∧ ∀ id, shadow = some id ↔ s.NewShadow rs id) fun _ _ => True := by
  induction rs generalizing s with
  | nil => exact ⟨.refl s, rfl, rfl, fun id => by simp [NewShadow]⟩
  | cons r rs ih =>
    rw [List.map_cons, List.nodup_cons] at hnd
    have hoth : ∀ r' ∈ rs, r'.recordType ≠ r.recordType := fun r' hr' heq =>
      hnd.1 (List.mem_map.mpr ⟨r', hr', heq⟩)
    rw [writeBundle, ends_bind]
    refine writeOne_ends.mono (fun inserted s₁ hw => ?_) fun _ _ h => h
    by_cases hr : r.recordType = .shadowOrder
    · -- the only shadow order of the bundle
      rw [if_pos hr]
      refine (writeBundle_other (hr ▸ hoth)).mono ?_ fun _ _ h => h
      rintro shadow s₂ ⟨rfl, hadds, hout, hloc⟩
      refine ⟨hw.adds.trans hadds, hout.trans hw.frame.1, hloc.trans hw.frame.2, fun id => ?_⟩
      constructor
      · intro hid
        split_ifs at hid with hins
        exact ⟨r, .head _, hr, Option.some.inj hid, hw.inserted_iff.mp hins⟩
      · rintro ⟨r', hr', ht, hid, hnew⟩
        rcases List.mem_cons.mp hr' with rfl | hr'
        · rw [if_pos (hw.inserted_iff.mpr hnew), hid]
        · exact absurd (ht.trans hr.symm) (hoth r' hr')
    · rw [if_neg hr]
      refine (ih hnd.2).mono ?_ fun _ _ h => h
      rintro shadow s₂ ⟨hadds, hout, hloc, hshd⟩
      refine ⟨hw.adds.trans hadds, hout.trans hw.frame.1, hloc.trans hw.frame.2, fun id => ?_⟩
      rw [hshd]
      -- what is retained of the rest does not change with the first record
      have hsame : ∀ r' ∈ rs, s₁.Retains r' ↔ s.Retains r' := fun r' hr' =>
        ⟨fun h => (hw.adds.only h).resolve_right fun h' =>
          hoth r' hr' (congrArg _ (List.mem_singleton.mp h')), hw.adds.kept⟩
      constructor
      · rintro ⟨r', hr', ht, hid, hnew⟩
        exact ⟨r', .tail _ hr', ht, hid, fun h => hnew ((hsame r' hr').mpr h)⟩
      · rintro ⟨r', hr', ht, hid, hnew⟩
        rcases hr' with - | ⟨-, hr'⟩
        · exact absurd ht hr
        · exact ⟨r', hr', ht, hid, fun h => hnew ((hsame r' hr').mp h)⟩

/-- What the transaction of a publication leaves. -/
structure Published (s s' : EvidenceStore sha256) (rs : List (ImmutableRecord δ))
    (reference : ImmutableRecord δ) (envelope : MessageEnvelope) (coalesced : Bool) : Prop where
  adds : Adds s s' (rs ++ [reference])
  outbox : s.outbox.insertChecked envelope = .ok (coalesced, s'.outbox)
  locator : ∀ id, id ∈ s'.locator ↔ id ∈ s.locator ∨ s.NewShadow rs id

theorem activateOutcomeRecovery_ends {id : δ} :
    Ends (activateOutcomeRecovery id) s (fun _ s' => s'.records = s.records ∧ s'.outbox = s.outbox ∧
      s'.locator = Insert.insert id s.locator) fun _ _ => True := by
  rw [activateOutcomeRecovery, ends_bind, ends_get]
  split_ifs
  · exact ⟨rfl, rfl, rfl⟩
  · exact trivial

theorem insertOutbox_ends {envelope : MessageEnvelope} :
    Ends (insertOutbox envelope) s (fun coalesced s' => s'.records = s.records ∧
      s'.locator = s.locator ∧ s.outbox.insertChecked envelope = .ok (coalesced, s'.outbox))
      fun _ _ => True := by
  rw [insertOutbox, ends_bind, ends_get]
  rcases e : s.outbox.insertChecked envelope with - | ⟨coalesced, outbox⟩
  · exact trivial
  · exact ⟨rfl, rfl, rfl⟩

theorem retainBundle_ends {reference : ImmutableRecord δ} {envelope : MessageEnvelope}
    (hnd : (rs.map ImmutableRecord.recordType).Nodup) : Ends (retainBundle rs reference envelope) s
      (fun coalesced s' => Published s s' rs reference envelope coalesced) fun _ _ => True := by
  rw [retainBundle, ends_bind]
  refine (writeBundle_ends hnd).mono ?_ fun _ _ h => h
  rintro shadow s₁ ⟨hadds, hout, hloc, hshd⟩
  -- the rest of the transaction, from the store with the worklist as it is to be
  have hrest : ∀ s₂ : EvidenceStore sha256, s₂.records = s₁.records → s₂.outbox = s₁.outbox →
      (∀ id, id ∈ s₂.locator ↔ id ∈ s.locator ∨ s.NewShadow rs id) →
      Ends (do let coalesced ← insertOutbox envelope; let _ ← writeOne reference; pure coalesced) s₂
        (fun coalesced s' => Published s s' rs reference envelope coalesced) fun _ _ => True := by
    intro s₂ hrec₂ hout₂ hloc₂
    rw [ends_bind]
    refine insertOutbox_ends.mono ?_ fun _ _ h => h
    rintro coalesced s₃ ⟨hrec₃, hloc₃, hchk⟩
    rw [ends_bind]
    refine writeOne_ends.mono (fun inserted s₄ hw => ?_) fun _ _ h => h
    refine ⟨hadds.trans (hw.adds.congr (hrec₃.trans hrec₂).symm rfl), ?_, fun id => ?_⟩
    · rw [hw.frame.1, ← hout, ← hout₂]
      exact hchk
    · rw [hw.frame.2, hloc₃]
      exact hloc₂ id
  rcases shadow with - | new
  · refine hrest s₁ rfl rfl fun id => ?_
    rw [hloc, ← hshd]
    simp
  · rw [ends_bind]
    refine activateOutcomeRecovery_ends.mono ?_ fun _ _ h => h
    rintro - s₂ ⟨hrec₂, hout₂, hloc₂⟩
    refine hrest s₂ hrec₂ hout₂ fun id => ?_
    rw [hloc₂, hloc, Finset.mem_insert, ← hshd, Option.some.injEq, or_comm, eq_comm]

omit [DecidableEq δ] in
/-- The types of a bundle are distinct. -/
theorem nodup_of_formalTypes (hlen : rs.length = formalTypes.length)
    (htypes : (rs.map ImmutableRecord.recordType).toFinset = formalTypes.toFinset) :
    (rs.map ImmutableRecord.recordType).Nodup := by
  rw [← Multiset.coe_nodup, ← Multiset.toFinset_card_eq_card_iff_nodup]
  show (rs.map ImmutableRecord.recordType).toFinset.card = (rs.map ImmutableRecord.recordType).length
  rw [htypes, List.length_map, hlen]
  decide

/-- What a publication checks of its arguments. -/
structure Publishable (sha256 : RecordHash δ) (rs : List (ImmutableRecord δ))
    (reference : ImmutableRecord δ) (envelope : MessageEnvelope) : Prop where
  types : rs.length = formalTypes.length ∧
    (rs.map ImmutableRecord.recordType).toFinset = formalTypes.toFinset
  reference_type : reference.recordType = .notificationOutboxReference
  kind : envelope.kind = .formalSignal
  signal : (bundleSignal sha256 rs).map JsonValue.hex = some (reference.payload.field "signal_id")
  publication : reference.payload.field "publication_id" = .text envelope.idempotencyKey

variable {reference : ImmutableRecord δ} {envelope : MessageEnvelope}

theorem ends_publishFormalBundle {Q : Bool → EvidenceStore sha256 → Prop}
    {E : RecordError → EvidenceStore sha256 → Prop}
    (hE : ¬Publishable sha256 rs reference envelope → ∀ e, E e s)
    (hQ : Publishable sha256 rs reference envelope →
      Ends (retainBundle rs reference envelope) s Q fun e _ => E e s) :
    Ends (publishFormalBundle rs reference envelope) s Q E := by
  rw [publishFormalBundle, ends_bind, ends_check]
  refine ⟨fun htypes => ?_, fun hn => hE (fun h => hn h.types) _⟩
  rw [ends_bind, ends_check]
  refine ⟨fun href => ?_, fun hn => hE (fun h => hn h.reference_type) _⟩
  rw [ends_bind, ends_check]
  refine ⟨fun hkind => ?_, fun hn => hE (fun h => hn h.kind) _⟩
  rw [ends_bind, ends_check]
  refine ⟨fun hsignal => ?_, fun hn => hE (fun h => hn h.signal) _⟩
  rw [ends_bind, ends_check]
  refine ⟨fun hpub => ?_, fun hn => hE (fun h => hn h.publication) _⟩
  rw [ends_transaction]
  exact hQ ⟨htypes, href, hkind, hsignal, hpub⟩

/-- A publication raises and changes nothing, or leaves the bundle. -/
theorem publishFormalBundle_ends : Ends (publishFormalBundle rs reference envelope) s
      (fun coalesced s' => Publishable sha256 rs reference envelope ∧
        Published s s' rs reference envelope coalesced) fun _ s' => s' = s :=
  ends_publishFormalBundle (fun _ _ => rfl) fun h =>
    (retainBundle_ends (nodup_of_formalTypes h.types.1 h.types.2)).mono (fun _ _ hp => ⟨h, hp⟩)
      fun _ _ _ => rfl

/-- A bundle that is there is left as it is. -/
theorem writeBundle_retained (h : ∀ r ∈ rs, s.Retains r) : writeBundle none rs s = .ok none s := by
  induction rs with
  | nil => rfl
  | cons r rs ih =>
    refine Ends.eq_ok ?_
    rw [writeBundle, ends_bind, ends_of_ok (writeOne_retained (h r (.head _)))]
    have hshd : (if r.recordType = .shadowOrder then
        if false = true then some (r.recordId sha256) else none else none) = none := by simp
    rw [hshd, ends_of_ok (ih fun r' hr' => h r' (.tail _ hr'))]
    exact ⟨rfl, rfl⟩

/-- A bundle that is there is published again without a change. -/
theorem publishFormalBundle_retained (hargs : Publishable sha256 rs reference envelope)
    (hrs : ∀ r ∈ rs ++ [reference], s.Retains r) (hhold : s.outbox.Holds envelope) :
    publishFormalBundle rs reference envelope s = .ok true s := by
  have hout := hhold.insertChecked_self
  have hbundle := writeBundle_retained fun r hr => hrs r (List.mem_append_left _ hr)
  have href := writeOne_retained (hrs reference (by simp))
  refine Ends.eq_ok (ends_publishFormalBundle (fun hn => absurd hargs hn) fun _ => ?_)
  rw [retainBundle, ends_bind, ends_of_ok hbundle]
  rw [ends_bind, insertOutbox, ends_bind, ends_get, hout]
  show Ends (writeOne reference >>= _) s _ _
  rw [ends_bind, ends_of_ok href]
  exact ⟨rfl, rfl⟩

end Publication

/-! ### Outcomes -/

/-- What `_persist_outcome` leaves. -/
structure Persisted (s s' : EvidenceStore sha256) (r : ImmutableRecord δ) (terminal inserted : Bool) :
    Prop where
  outcome : r.recordType = .outcomeEnvelope
  adds : Adds s s' [r]
  outbox : s'.outbox = s.outbox
  inserted_iff : inserted = true ↔ ¬s.Retains r
  locator : ∀ id, id ∈ s'.locator ↔
    id ∈ s.locator ∧ ¬(terminal = true ∧ r.payload.field "shadow_order_id" = .hex id)
  active : terminal = true → inserted = true →
    ∃ id ∈ s.locator, r.payload.field "shadow_order_id" = .hex id

theorem removeOutcomeRecovery_ends {shadow : JsonValue δ} :
    Ends (removeOutcomeRecovery shadow) s (fun deleted s' => s'.records = s.records ∧
      s'.outbox = s.outbox ∧ (∀ id, id ∈ s'.locator ↔ id ∈ s.locator ∧ shadow ≠ .hex id) ∧
      (deleted = 1 → ∃ id ∈ s.locator, shadow = .hex id)) fun _ _ => False := by
  cases shadow with
  | hex id =>
    refine ⟨rfl, rfl, fun id' => ?_, fun hdel => ?_⟩
    · rw [and_comm, ne_comm]
      simp
    · by_cases hid : id ∈ s.locator
      · exact ⟨id, hid, rfl⟩
      · rw [if_neg hid] at hdel
        cases hdel
  | null => exact ⟨rfl, rfl, by simp, by simp⟩
  | bool b => exact ⟨rfl, rfl, by simp, by simp⟩
  | int z => exact ⟨rfl, rfl, by simp, by simp⟩
  | text t => exact ⟨rfl, rfl, by simp, by simp⟩
  | nested t => exact ⟨rfl, rfl, by simp, by simp⟩

/-- `_persist_outcome` raises and changes nothing, or leaves the record and retires the
work that a terminal outcome ends. -/
theorem persistOutcome_ends {terminal : Bool} :
    Ends (persistOutcome r terminal) s (fun inserted s' => Persisted s s' r terminal inserted)
      fun _ s' => s' = s := by
  rw [persistOutcome, ends_bind, ends_check]
  refine ⟨fun htype => ?_, fun _ => rfl⟩
  rw [ends_transaction, ends_bind, ends_reraise]
  refine writeOne_ends.mono (fun inserted s₁ hw => ?_) fun _ _ _ => rfl
  cases terminal with
  | false =>
    exact ⟨htype, hw.adds, hw.frame.1, hw.inserted_iff, fun id => by simp [hw.frame.2], by simp⟩
  | true =>
    rw [if_pos rfl, ends_bind]
    refine removeOutcomeRecovery_ends.mono ?_ fun _ _ h => h.elim
    rintro deleted s₂ ⟨hrec, hout, hloc, hdel⟩
    rw [ends_bind, ends_check]
    refine ⟨fun hact => ?_, fun _ => rfl⟩
    refine ⟨htype, hw.adds.congr rfl hrec, hout.trans hw.frame.1, hw.inserted_iff, fun id => ?_,
      fun _ hins => ?_⟩
    · rw [hloc, hw.frame.2]
      simp
    · rw [← hw.frame.2]
      exact hdel (hact hins)

end EvidenceStore

end TraderAssist
