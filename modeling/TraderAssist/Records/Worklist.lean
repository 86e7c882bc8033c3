/-
TraderAssist/Records/Worklist.lean

Publications and outcomes over whole runs.

A call leaves what its transaction left, or the store as it was.  Over a run of
`publish_formal_bundle` and `_persist_outcome`, `Tracked` says how the store follows from
the calls that returned: the shadow orders are those published, the worklist has those
without a terminal outcome, and the outcomes are those persisted.  The worklist is thus
exact.

A record that is there already may be persisted again with the other flag: the call finds
nothing to retire and returns.  With that, a shadow order can get a second terminal
outcome; if every record keeps its flag, as it does in `save_outcome`, it cannot.
-/
import TraderAssist.Lib.Simulation
import TraderAssist.Records.Store

namespace TraderAssist

open Py

variable {δ : Type} [DecidableEq δ]

namespace EvidenceStore

variable {sha256 : RecordHash δ}

/-! ### Runs -/

inductive Call (δ : Type)
  | publishFormalBundle (records : List (ImmutableRecord δ)) (reference : ImmutableRecord δ)
      (envelope : MessageEnvelope)
  | persistOutcome (record : ImmutableRecord δ) (terminal : Bool)

/-- The method that a call runs. -/
def command : Call δ → EStateM RecordError (EvidenceStore sha256) Bool
  | .publishFormalBundle records reference envelope => publishFormalBundle records reference envelope
  | .persistOutcome record terminal => persistOutcome record terminal

/-- The store after a call, and what the call returned if it did not raise. -/
def step (s : EvidenceStore sha256) (call : Call δ) : EvidenceStore sha256 × Option Bool :=
  match command call s with
  | .ok a s' => (s', some a)
  | .error _ s' => (s', none)

/-- The store after some calls. -/
def run (s : EvidenceStore sha256) (calls : List (Call δ)) : EvidenceStore sha256 :=
  stateAfter step s calls

/-- The calls with what they returned. -/
def history (s : EvidenceStore sha256) : List (Call δ) → List (Call δ × Option Bool)
  | [] => []
  | call :: calls => (call, (s.step call).2) :: history (s.step call).1 calls

/-- Before the first publication. -/
def Unpublished (s : EvidenceStore sha256) : Prop :=
  ∀ r, s.Retains r → r.recordType ≠ .shadowOrder ∧ r.recordType ≠ .outcomeEnvelope

/-- The shadow order that an outcome is about. -/
def AboutShadow (r : ImmutableRecord δ) (id : δ) : Prop :=
  r.payload.field "shadow_order_id" = .hex id

section History

variable (sha256) (H : List (Call δ × Option Bool))

/-- A publication of the shadow order returned. -/
def PublishedIn (id : δ) : Prop :=
  ∃ records reference envelope coalesced,
    (Call.publishFormalBundle records reference envelope, some coalesced) ∈ H ∧
    ∃ r ∈ records, r.recordType = .shadowOrder ∧ r.recordId sha256 = id

/-- The outcome was persisted. -/
def PersistedIn (r : ImmutableRecord δ) (terminal inserted : Bool) : Prop :=
  (Call.persistOutcome r terminal, some inserted) ∈ H

/-- The outcome was persisted with `terminal = true`. -/
def TerminalIn (r : ImmutableRecord δ) : Prop := ∃ inserted, PersistedIn H r true inserted

end History

/-! ### What a run tracks -/

/-- How the store follows from the calls that returned. -/
structure Tracked (s : EvidenceStore sha256) (H : List (Call δ × Option Bool)) : Prop where
  shadows : ∀ id, s.typed.has (.shadowOrder, id) = true ↔ PublishedIn sha256 H id
  locator : ∀ id, id ∈ s.locator ↔
    PublishedIn sha256 H id ∧ ∀ r, TerminalIn H r → ¬AboutShadow r id
  persisted : ∀ r terminal inserted, PersistedIn H r terminal inserted →
    r.recordType = .outcomeEnvelope ∧ s.Retains r
  outcomes : ∀ r, s.Retains r → r.recordType = .outcomeEnvelope →
    ∃ terminal inserted, PersistedIn H r terminal inserted
  bundles : ∀ records reference envelope coalesced,
    (Call.publishFormalBundle records reference envelope, some coalesced) ∈ H →
    Publishable sha256 records reference envelope ∧ (∀ r ∈ records ++ [reference], s.Retains r) ∧
    s.outbox.Holds envelope

section Steps

variable {s s' : EvidenceStore sha256} {H : List (Call δ × Option Bool)}

theorem Unpublished.tracked (h : s.Unpublished) : Tracked s [] := by
  have hshd : ∀ id, ¬s.typed.has (.shadowOrder, id) = true := fun id hid => by
    obtain ⟨r, hr, ht, -⟩ := typed_has.mp hid
    exact (h r hr).1 ht
  refine ⟨fun id => ?_, fun id => ?_, nofun, fun r hr ht => ?_,
    nofun⟩
  · exact ⟨fun hid => absurd hid (hshd id), fun ⟨_, _, _, _, hp, _⟩ => by cases hp⟩
  · exact ⟨fun hid => absurd (s.located id hid) (hshd id), fun ⟨⟨_, _, _, _, hp, _⟩, _⟩ => by cases hp⟩
  · exact absurd ht (h r hr).2

omit [DecidableEq δ] in
/-- What is found of the calls that returned, after one that raised. -/
theorem mem_raised {call call' : Call δ} {b : Bool} :
    (call, some b) ∈ H ++ [(call', none)] ↔ (call, some b) ∈ H := by simp

theorem Tracked.raise {call : Call δ} (h : Tracked s H) : Tracked s (H ++ [(call, none)]) := by
  refine ⟨?_, ?_, ?_, ?_, ?_⟩ <;>
    simp only [PublishedIn, TerminalIn, PersistedIn, mem_raised]
  · exact h.shadows
  · exact h.locator
  · exact h.persisted
  · exact h.outcomes
  · exact h.bundles

variable {r : ImmutableRecord δ}

/-- A terminal outcome is about a shadow order of the store. -/
theorem Tracked.shadow_of_terminal (h : Tracked s H) {id : δ} (hr : TerminalIn H r)
    (hid : AboutShadow r id) : s.typed.has (.shadowOrder, id) = true := by
  obtain ⟨inserted, hp⟩ := hr
  obtain ⟨htype, hret⟩ := h.persisted r true inserted hp
  have hcol : ("shadow_order_id", RecordType.shadowOrder, false) ∈ r.recordType.linkColumns := by
    rw [htype]
    decide
  obtain ⟨id', hid', hhas⟩ := link_of_retains hret hcol
  obtain rfl : id = id' := JsonValue.hex.inj (hid.symm.trans hid')
  exact hhas

theorem Tracked.publish {records : List (ImmutableRecord δ)} {reference : ImmutableRecord δ}
    {envelope : MessageEnvelope} {coalesced : Bool} (h : Tracked s H)
    (hargs : Publishable sha256 records reference envelope)
    (hp : Published s s' records reference envelope coalesced) :
    Tracked s' (H ++ [(.publishFormalBundle records reference envelope, some coalesced)]) := by
  have htypes : ∀ r ∈ records, r.recordType ∈ formalTypes := fun r hr => by
    have hmem : r.recordType ∈ (records.map ImmutableRecord.recordType).toFinset := by
      simpa using ⟨r, hr, rfl⟩
    rw [hargs.types.2] at hmem
    simpa using hmem
  -- a shadow order of the bundle that is new, or was there
  have hnew : ∀ id, s.typed.has (.shadowOrder, id) = true → ¬s.NewShadow records id := by
    rintro id hid ⟨r, hr, -, rfl, hnot⟩
    obtain ⟨r', hr', -, heq⟩ := typed_has.mp hid
    have hget : s'.Retains r' := hp.adds.kept hr'
    have hget' : s'.Retains r := hp.adds.all r (List.mem_append_left _ hr)
    rw [Retains, heq] at hget
    obtain rfl : r = r' := Option.some.inj (hget'.symm.trans hget)
    exact hnot hr'
  have hpub : ∀ id, PublishedIn sha256
      (H ++ [(.publishFormalBundle records reference envelope, some coalesced)]) id ↔
      PublishedIn sha256 H id ∨ ∃ r ∈ records, r.recordType = .shadowOrder ∧ r.recordId sha256 = id := by
    intro id
    constructor
    · rintro ⟨rs, ref, env, c, hmem, hr⟩
      rcases List.mem_append.mp hmem with hmem | hmem
      · exact .inl ⟨rs, ref, env, c, hmem, hr⟩
      · simp only [List.mem_singleton, Prod.mk.injEq, Call.publishFormalBundle.injEq] at hmem
        obtain ⟨⟨rfl, -, -⟩, -⟩ := hmem
        exact .inr hr
    · rintro (⟨rs, ref, env, c, hmem, hr⟩ | hr)
      · exact ⟨rs, ref, env, c, List.mem_append_left _ hmem, hr⟩
      · exact ⟨records, reference, envelope, coalesced, by simp, hr⟩
  have hpers : ∀ r t i, PersistedIn
      (H ++ [(.publishFormalBundle records reference envelope, some coalesced)]) r t i ↔
      PersistedIn H r t i := fun r t i => by simp [PersistedIn]
  refine ⟨fun id => ?_, fun id => ?_, fun r t i hr => ?_, fun r hr ht => ?_, fun rs ref env c hmem => ?_⟩
  · rw [hpub, ← h.shadows, typed_has, typed_has]
    constructor
    · rintro ⟨r, hr, ht, hid⟩
      rcases hp.adds.only hr with hr | hr
      · exact .inl ⟨r, hr, ht, hid⟩
      · rcases List.mem_append.mp hr with hr | hr
        · exact .inr ⟨r, hr, ht, hid⟩
        · rw [List.mem_singleton.mp hr, hargs.reference_type] at ht
          cases ht
    · rintro (⟨r, hr, ht, hid⟩ | ⟨r, hr, ht, hid⟩)
      · exact ⟨r, hp.adds.kept hr, ht, hid⟩
      · exact ⟨r, hp.adds.all r (List.mem_append_left _ hr), ht, hid⟩
  · rw [hp.locator, hpub, h.locator]
    simp only [TerminalIn, hpers]
    constructor
    · rintro (⟨hid, hterm⟩ | ⟨r, hr, ht, hid, hnot⟩)
      · exact ⟨.inl hid, hterm⟩
      · refine ⟨.inr ⟨r, hr, ht, hid⟩, fun r' hr' habout => ?_⟩
        exact hnew id (h.shadow_of_terminal hr' habout) ⟨r, hr, ht, hid, hnot⟩
    · rintro ⟨hid | ⟨r, hr, ht, hid⟩, hterm⟩
      · exact .inl ⟨hid, hterm⟩
      · by_cases hret : s.Retains r
        · exact .inl ⟨(h.shadows id).mp (typed_has.mpr ⟨r, hret, ht, hid⟩), hterm⟩
        · exact .inr ⟨r, hr, ht, hid, hret⟩
  · obtain ⟨ht, hret⟩ := h.persisted r t i ((hpers r t i).mp hr)
    exact ⟨ht, hp.adds.kept hret⟩
  · simp only [hpers]
    rcases hp.adds.only hr with hr | hr
    · exact h.outcomes r hr ht
    · rcases List.mem_append.mp hr with hr | hr
      · have hmem := htypes r hr
        rw [ht] at hmem
        exact absurd hmem (by decide)
      · rw [List.mem_singleton.mp hr, hargs.reference_type] at ht
        cases ht
  · rcases List.mem_append.mp hmem with hmem | hmem
    · obtain ⟨hargs', hrs, hout⟩ := h.bundles rs ref env c hmem
      exact ⟨hargs', fun r hr => hp.adds.kept (hrs r hr), hout.insertChecked hp.outbox⟩
    · simp only [List.mem_singleton, Prod.mk.injEq, Call.publishFormalBundle.injEq] at hmem
      obtain ⟨⟨rfl, rfl, rfl⟩, -⟩ := hmem
      exact ⟨hargs, hp.adds.all, EvidenceOutbox.holds_insertChecked hp.outbox⟩

theorem Tracked.persist {terminal inserted : Bool} (h : Tracked s H)
    (hp : Persisted s s' r terminal inserted) :
    Tracked s' (H ++ [(.persistOutcome r terminal, some inserted)]) := by
  have hpub : ∀ id, PublishedIn sha256 (H ++ [(.persistOutcome r terminal, some inserted)]) id ↔
      PublishedIn sha256 H id := fun id => by simp [PublishedIn]
  have hpers : ∀ r' t i, PersistedIn (H ++ [(.persistOutcome r terminal, some inserted)]) r' t i ↔
      PersistedIn H r' t i ∨ (r' = r ∧ t = terminal ∧ i = inserted) := fun r' t i => by
    simp [PersistedIn, and_assoc]
  refine ⟨fun id => ?_, fun id => ?_, fun r' t i hr' => ?_, fun r' hr' ht => ?_,
    fun rs ref env c hmem => ?_⟩
  · rw [hpub, ← h.shadows, typed_has, typed_has]
    constructor
    · rintro ⟨r', hr', ht, hid⟩
      rcases hp.adds.only hr' with hr' | hr'
      · exact ⟨r', hr', ht, hid⟩
      · rw [List.mem_singleton.mp hr', hp.outcome] at ht
        cases ht
    · rintro ⟨r', hr', ht, hid⟩
      exact ⟨r', hp.adds.kept hr', ht, hid⟩
  · rw [hp.locator, hpub, h.locator, and_assoc]
    refine and_congr_right fun _ => ?_
    constructor
    · rintro ⟨hterm, hnot⟩ r' ⟨i, hr'⟩ habout
      rcases (hpers r' true i).mp hr' with hr' | ⟨rfl, hterminal, -⟩
      · exact hterm r' ⟨i, hr'⟩ habout
      · exact hnot ⟨hterminal.symm, habout⟩
    · intro hterm
      refine ⟨fun r' ⟨i, hr'⟩ => hterm r' ⟨i, (hpers r' true i).mpr (.inl hr')⟩, ?_⟩
      rintro ⟨rfl, habout⟩
      exact hterm r ⟨inserted, (hpers r true inserted).mpr (.inr ⟨rfl, rfl, rfl⟩)⟩ habout
  · rcases (hpers r' t i).mp hr' with hr' | ⟨rfl, -, -⟩
    · obtain ⟨ht, hret⟩ := h.persisted r' t i hr'
      exact ⟨ht, hp.adds.kept hret⟩
    · exact ⟨hp.outcome, hp.adds.all r' (by simp)⟩
  · rcases hp.adds.only hr' with hr' | hr'
    · obtain ⟨t, i, hti⟩ := h.outcomes r' hr' ht
      exact ⟨t, i, (hpers r' t i).mpr (.inl hti)⟩
    · exact ⟨terminal, inserted, (hpers _ _ _).mpr (.inr ⟨List.mem_singleton.mp hr', rfl, rfl⟩)⟩
  · have hmem' : (Call.publishFormalBundle rs ref env, some c) ∈ H := by simpa using hmem
    obtain ⟨hargs, hrs, hout⟩ := h.bundles rs ref env c hmem'
    exact ⟨hargs, fun r' hr' => hp.adds.kept (hrs r' hr'), hp.outbox ▸ hout⟩

/-! ### Terminal outcomes -/

/-- No record is persisted with both flags. -/
def FlagsAgree (calls : List (Call δ)) : Prop :=
  ∀ r, .persistOutcome r true ∈ calls → .persistOutcome r false ∉ calls

/-- At most one record is inserted by a terminal call for one shadow order; if the flags
agree, at most one is persisted by such calls at all. -/
structure OneTerminal (H : List (Call δ × Option Bool)) : Prop where
  inserted : ∀ r r' id, PersistedIn H r true true → PersistedIn H r' true true →
    AboutShadow r id → AboutShadow r' id → r = r'
  terminal : FlagsAgree (H.map Prod.fst) → ∀ r r' id, TerminalIn H r → TerminalIn H r' →
    AboutShadow r id → AboutShadow r' id → r = r'

omit [DecidableEq δ] in
theorem OneTerminal.nil : OneTerminal ([] : List (Call δ × Option Bool)) :=
  ⟨nofun, fun _ _ _ _ ⟨_, h⟩ => (by cases h)⟩

omit [DecidableEq δ] in
theorem FlagsAgree.of_append {calls calls' : List (Call δ)} (h : FlagsAgree (calls ++ calls')) :
    FlagsAgree calls := fun r hr hr' =>
  h r (List.mem_append_left _ hr) (List.mem_append_left _ hr')

omit [DecidableEq δ] in
/-- A call that persists no terminal outcome. -/
theorem OneTerminal.other {call : Call δ} {result : Option Bool} (h : OneTerminal H)
    (hcall : ∀ r inserted, (call, result) ≠ (.persistOutcome r true, some inserted)) :
    OneTerminal (H ++ [(call, result)]) := by
  have hpers : ∀ r inserted, PersistedIn (H ++ [(call, result)]) r true inserted →
      PersistedIn H r true inserted := fun r inserted hr =>
    (List.mem_append.mp hr).resolve_right fun hr => hcall r inserted (List.mem_singleton.mp hr).symm
  refine ⟨fun r r' id hr hr' => h.inserted r r' id (hpers r true hr) (hpers r' true hr'),
    fun hflags r r' id ⟨i, hr⟩ ⟨i', hr'⟩ => h.terminal ?_ r r' id ⟨i, hpers r i hr⟩ ⟨i', hpers r' i' hr'⟩⟩
  rw [List.map_append] at hflags
  exact hflags.of_append

/-- A terminal outcome is inserted only for a shadow order without one. -/
theorem Tracked.first_terminal (h : Tracked s H) (hp : Persisted s s' r true true)
    {r' : ImmutableRecord δ} (hr' : TerminalIn H r') {id : δ} (hid : AboutShadow r id) :
    ¬AboutShadow r' id := by
  obtain ⟨id', hloc, hid'⟩ := hp.active rfl rfl
  obtain rfl : id = id' := JsonValue.hex.inj (hid.symm.trans hid')
  exact ((h.locator id).mp hloc).2 r' hr'

theorem OneTerminal.persist {inserted : Bool} (h : OneTerminal H) (ht : Tracked s H)
    (hp : Persisted s s' r true inserted) : OneTerminal (H ++ [(.persistOutcome r true, some inserted)]) := by
  have hpers : ∀ r' i, PersistedIn (H ++ [(.persistOutcome r true, some inserted)]) r' true i →
      PersistedIn H r' true i ∨ (r' = r ∧ i = inserted) := fun r' i hr' => by
    simpa [PersistedIn] using hr'
  constructor
  · intro r₁ r₂ id h₁ h₂ hid₁ hid₂
    rcases hpers r₁ true h₁ with old₁ | ⟨rfl, rfl⟩ <;> rcases hpers r₂ true h₂ with old₂ | ⟨rfl, hi⟩
    · exact h.inserted r₁ r₂ id old₁ old₂ hid₁ hid₂
    · subst hi
      exact absurd hid₁ (ht.first_terminal hp ⟨true, old₁⟩ hid₂)
    · exact absurd hid₂ (ht.first_terminal hp ⟨true, old₂⟩ hid₁)
    · rfl
  · intro hflags
    rw [List.map_append] at hflags
    have hone := h.terminal hflags.of_append
    -- a record that was there has been persisted before, and so with this flag
    have hbef : inserted = false → TerminalIn H r := by
      rintro rfl
      have hret : s.Retains r := by
        by_contra hnot
        exact Bool.false_ne_true (hp.inserted_iff.mpr hnot)
      obtain ⟨terminal, i, hti⟩ := ht.outcomes r hret hp.outcome
      cases terminal with
      | true => exact ⟨i, hti⟩
      | false =>
        exact absurd (List.mem_append_left _ (List.mem_map.mpr ⟨_, hti, rfl⟩)) (hflags r (by simp))
    rintro r₁ r₂ id ⟨i₁, h₁⟩ ⟨i₂, h₂⟩ hid₁ hid₂
    cases inserted with
    | false =>
      have hall : ∀ r' i, PersistedIn (H ++ [(.persistOutcome r true, some false)]) r' true i →
          TerminalIn H r' := fun r' i hr' => by
        rcases hpers r' i hr' with hr' | ⟨rfl, -⟩
        · exact ⟨i, hr'⟩
        · exact hbef rfl
      exact hone r₁ r₂ id (hall r₁ i₁ h₁) (hall r₂ i₂ h₂) hid₁ hid₂
    | true =>
      rcases hpers r₁ i₁ h₁ with old₁ | ⟨rfl, -⟩ <;> rcases hpers r₂ i₂ h₂ with old₂ | ⟨rfl, -⟩
      · exact hone r₁ r₂ id ⟨i₁, old₁⟩ ⟨i₂, old₂⟩ hid₁ hid₂
      · exact absurd hid₁ (ht.first_terminal hp ⟨i₁, old₁⟩ hid₂)
      · exact absurd hid₂ (ht.first_terminal hp ⟨i₂, old₂⟩ hid₁)
      · rfl

/-! ### Whole runs -/

/-- What a step keeps. -/
theorem tracked_step (h : Tracked s H) (hone : OneTerminal H) (call : Call δ) :
    Tracked (s.step call).1 (H ++ [(call, (s.step call).2)]) ∧
      OneTerminal (H ++ [(call, (s.step call).2)]) := by
  have hends : Ends (command call) s (fun b s' => Tracked s' (H ++ [(call, some b)]) ∧
      OneTerminal (H ++ [(call, some b)])) fun _ s' => s' = s := by
    cases call with
    | publishFormalBundle records reference envelope =>
      refine publishFormalBundle_ends.mono ?_ fun _ _ h => h
      rintro coalesced s' ⟨hargs, hp⟩
      exact ⟨h.publish hargs hp, hone.other (by simp)⟩
    | persistOutcome r terminal =>
      refine persistOutcome_ends.mono (fun inserted s' hp => ?_) fun _ _ h => h
      refine ⟨h.persist hp, ?_⟩
      cases terminal with
      | true => exact hone.persist h hp
      | false => exact hone.other (by simp)
  unfold step
  cases hx : command call s with
  | ok b s' => exact hends.of_ok hx
  | error e s' =>
    obtain rfl := hends.of_error hx
    exact ⟨h.raise, hone.other (by simp)⟩

theorem tracked_run (calls : List (Call δ)) : ∀ {s : EvidenceStore sha256}
    {H : List (Call δ × Option Bool)}, Tracked s H → OneTerminal H →
      Tracked (s.run calls) (H ++ history s calls) ∧ OneTerminal (H ++ history s calls) := by
  induction calls with
  | nil =>
    intro s H h hone
    rw [history, List.append_nil]
    exact ⟨h, hone⟩
  | cons call calls ih =>
    intro s H h hone
    obtain ⟨h', hone'⟩ := tracked_step h hone call
    have hrest := ih h' hone'
    rw [List.append_assoc] at hrest
    exact hrest

/-- The records a call is given. -/
def Call.records : Call δ → List (ImmutableRecord δ)
  | .publishFormalBundle records reference _ => records ++ [reference]
  | .persistOutcome record _ => [record]

theorem step_records (s : EvidenceStore sha256) (call : Call δ) (r : ImmutableRecord δ) :
    (s.Retains r → (s.step call).1.Retains r)
      ∧ ((s.step call).1.Retains r → s.Retains r ∨ r ∈ call.records) := by
  have hends : Ends (command call) s (fun _ s' => Adds s s' call.records) fun _ s' => s' = s := by
    cases call with
    | publishFormalBundle records reference envelope =>
      exact publishFormalBundle_ends.mono (fun _ _ h => h.2.adds) fun _ _ h => h
    | persistOutcome r terminal => exact persistOutcome_ends.mono (fun _ _ h => h.adds) fun _ _ h => h
  unfold step
  cases hx : command call s with
  | ok b s' =>
    have hadds := hends.of_ok hx
    exact ⟨hadds.kept, hadds.only⟩
  | error e s' =>
    rw [hends.of_error hx]
    exact ⟨id, .inl⟩

/-- **Records are immutable**: no call changes or removes one, and a record that is there after some calls was
there before or was given to one of them. -/
theorem records_immutable (s : EvidenceStore sha256) (calls : List (Call δ)) (r : ImmutableRecord δ) :
    (s.Retains r → (s.run calls).Retains r)
      ∧ ((s.run calls).Retains r → s.Retains r ∨ ∃ call ∈ calls, r ∈ call.records) := by
  induction calls generalizing s with
  | nil => exact ⟨id, .inl⟩
  | cons call calls ih =>
    obtain ⟨hkept, honly⟩ := step_records s call r
    obtain ⟨hrest, hlater⟩ := ih (s.step call).1
    refine ⟨fun h => hrest (hkept h), fun h => ?_⟩
    rcases hlater h with h | ⟨c, hc, hr⟩
    · exact (honly h).imp_right fun hr => ⟨call, .head _, hr⟩
    · exact .inr ⟨c, .tail _ hc, hr⟩

theorem map_fst_history (s : EvidenceStore sha256) (calls : List (Call δ)) :
    (history s calls).map Prod.fst = calls := by
  induction calls generalizing s with
  | nil => rfl
  | cons call calls ih =>
    rw [history, List.map_cons, ih]

/-- **Publications are atomic and idempotent, and the worklist is exact.**  A publication
raises and changes nothing, or leaves its records with their rows and one row in the
outbox, and returns `true` without a change when it is made again.  After any calls, the
worklist has the published shadow orders without an outcome persisted with
`terminal = true`.  Such calls insert at most one outcome for one shadow order, and persist
at most one if no record is persisted with both flags. -/
theorem publication_atomic_worklist_exact (sha256 : RecordHash δ) :
    (∀ (s : EvidenceStore sha256) records reference envelope,
      (∀ e s', publishFormalBundle records reference envelope s = .error e s' → s' = s) ∧
      (∀ coalesced s', publishFormalBundle records reference envelope s = .ok coalesced s' →
        (records.map ImmutableRecord.recordType).Perm formalTypes ∧
        (∀ r ∈ records ++ [reference], s'.Retains r ∧ s'.typed.has (r.recordType, r.recordId sha256) = true) ∧
        s'.outbox.Holds envelope ∧ publishFormalBundle records reference envelope s' = .ok true s')) ∧
    (∀ (s : EvidenceStore sha256) (calls : List (Call δ)), s.Unpublished →
      (∀ records reference envelope coalesced,
        (.publishFormalBundle records reference envelope, some coalesced) ∈ history s calls →
        publishFormalBundle records reference envelope (s.run calls) = .ok true (s.run calls)) ∧
      (∀ id, id ∈ (s.run calls).locator ↔ PublishedIn sha256 (history s calls) id ∧
        ¬∃ r, TerminalIn (history s calls) r ∧ AboutShadow r id) ∧
      (∀ r r' id, PersistedIn (history s calls) r true true → PersistedIn (history s calls) r' true true →
        AboutShadow r id → AboutShadow r' id → r = r') ∧
      (FlagsAgree calls → ∀ r r' id, TerminalIn (history s calls) r →
        TerminalIn (history s calls) r' → AboutShadow r id → AboutShadow r' id → r = r')) := by
  constructor
  · intro s records reference envelope
    refine ⟨fun e s' h => publishFormalBundle_ends.of_error h, fun coalesced s' h => ?_⟩
    obtain ⟨hargs, hp⟩ := publishFormalBundle_ends.of_ok h
    have hholds : s'.outbox.Holds envelope := EvidenceOutbox.holds_insertChecked hp.outbox
    refine ⟨?_, fun r hr => ⟨hp.adds.all r hr, typed_has.mpr ⟨r, hp.adds.all r hr, rfl, rfl⟩⟩, hholds,
      publishFormalBundle_retained hargs hp.adds.all hholds⟩
    refine List.perm_of_nodup_nodup_toFinset_eq ?_ (by decide) hargs.types.2
    exact nodup_of_formalTypes hargs.types.1 hargs.types.2
  · intro s calls hs
    obtain ⟨h, hone⟩ := tracked_run calls hs.tracked .nil
    rw [List.nil_append] at h hone
    refine ⟨fun records reference envelope coalesced hmem => ?_, fun id => ?_, hone.inserted,
      fun hflags => hone.terminal ?_⟩
    · obtain ⟨hargs, hrs, hholds⟩ := h.bundles records reference envelope coalesced hmem
      exact publishFormalBundle_retained hargs hrs hholds
    · rw [h.locator]
      simp
    · rw [map_fst_history]
      exact hflags

end Steps

/-! ### A run -/

namespace Sample

/-- The fields of an object, in the order of their names. -/
def fields (l : List (String × JsonValue (List ℕ))) : List (Text × JsonValue (List ℕ)) :=
  l.map fun f => (f.1.toList, f.2)

def identity (n : ℤ) : JsonObject (List ℕ) := ⟨fields [("n", .int n)], by simp [fields]⟩

def provenance : ImmutableRecord (List ℕ) where
  recordType := .provenance
  identity := identity 0
  payload := ⟨fields [("cost_model_version", .null), ("parameter_version", .null),
    ("recorded_at", .null), ("registry_hash", .null), ("registry_version", .null),
    ("release_sha", .null), ("strategy_version", .null)], by decide +kernel⟩
  required := by decide +kernel
  valid := by decide +kernel

def marketEvent : ImmutableRecord (List ℕ) where
  recordType := .marketEvent
  identity := identity 0
  payload := ⟨fields [("event_kind", .null), ("event_time", .null), ("market_id", .null)],
    by decide +kernel⟩
  required := by decide +kernel
  valid := by decide +kernel

def formalSignal : ImmutableRecord (List ℕ) where
  recordType := .formalSignal
  identity := identity 0
  payload := ⟨fields [("approval_status", .null), ("confirmed_at", .null),
    ("formalization_status", .text "STRATEGY_ELIGIBLE".toList),
    ("market_event_id", .hex (marketEvent.recordId .coded)), ("market_id", .null),
    ("provenance_id", .hex (provenance.recordId .coded)),
    ("setup_family", .text "SWEEP_RECLAIM".toList), ("setup_mode", .null), ("side", .null),
    ("tier", .text "P1".toList)], by decide +kernel⟩
  required := by decide +kernel
  valid := by decide +kernel

def planRecord : ImmutableRecord (List ℕ) where
  recordType := .planRecord
  identity := identity 0
  payload := ⟨fields [("created_at", .null), ("planned_entry", .null),
    ("provenance_id", .hex (provenance.recordId .coded)), ("risk_reference_sizing", .null),
    ("signal_id", .hex (formalSignal.recordId .coded)), ("stop", .null), ("tp1", .null),
    ("tp2", .null)], by decide +kernel⟩
  required := by decide +kernel
  valid := by decide +kernel

def shadowOrder : ImmutableRecord (List ℕ) where
  recordType := .shadowOrder
  identity := identity 0
  payload := ⟨fields [("cost_model_version", .null), ("created_at", .null),
    ("market_event_id", .hex (marketEvent.recordId .coded)), ("market_id", .null),
    ("parameter_version", .null), ("plan_id", .hex (planRecord.recordId .coded)),
    ("planned_entry", .null), ("provenance_id", .hex (provenance.recordId .coded)),
    ("registry_hash", .null), ("registry_version", .null), ("risk_reference_sizing", .null),
    ("setup_family", .null), ("setup_mode", .null), ("side", .null),
    ("signal_id", .hex (formalSignal.recordId .coded)), ("stop", .null),
    ("strategy_version", .null), ("submission_status", .text "NOT_SUBMITTED".toList),
    ("tp1", .null), ("tp2", .null)], by decide +kernel⟩
  required := by decide +kernel
  valid := by decide +kernel

def outboxReference : ImmutableRecord (List ℕ) where
  recordType := .notificationOutboxReference
  identity := identity 0
  payload := ⟨fields [("publication_id", .text ['k']), ("published_at", .null),
    ("signal_id", .hex (formalSignal.recordId .coded))], by decide +kernel⟩
  required := by decide +kernel
  valid := by decide +kernel

/-- An outcome of the shadow order. -/
def outcome (n : ℤ) : ImmutableRecord (List ℕ) where
  recordType := .outcomeEnvelope
  identity := identity n
  payload := ⟨fields [("observed_at", .null), ("path_maturity_status", .null),
    ("shadow_order_id", .hex (shadowOrder.recordId .coded)),
    ("signal_id", .hex (formalSignal.recordId .coded))], by decide +kernel⟩
  required := by decide +kernel
  valid := by decide +kernel

def envelope : MessageEnvelope where
  schemaVersion := ['1']
  kind := .formalSignal
  idempotencyKey := ['k']
  content := []
  createdAt := Datetime.newYear

/-- The publication of the bundle. -/
def publication : Call (List ℕ) :=
  .publishFormalBundle [provenance, marketEvent, formalSignal, planRecord, shadowOrder]
    outboxReference envelope

/-- An outcome, a terminal one, and the first one again as terminal. -/
def calls : List (Call (List ℕ)) :=
  [publication, .persistOutcome (outcome 1) false, .persistOutcome (outcome 2) true,
    .persistOutcome (outcome 1) true]

end Sample

/-- **A second terminal outcome**: a record that is there already is persisted again, now
as terminal, after another one was terminal. -/
theorem second_terminal_outcome :
    TerminalIn (history (empty : EvidenceStore RecordHash.coded) Sample.calls) (Sample.outcome 1) ∧
    TerminalIn (history (empty : EvidenceStore RecordHash.coded) Sample.calls) (Sample.outcome 2) ∧
    Sample.outcome 1 ≠ Sample.outcome 2 ∧
    AboutShadow (Sample.outcome 1) (Sample.shadowOrder.recordId .coded) ∧
    AboutShadow (Sample.outcome 2) (Sample.shadowOrder.recordId .coded) := by
  have hresults : (history (empty : EvidenceStore RecordHash.coded) Sample.calls).map Prod.snd =
      [some false, some true, some true, some false] := by decide +kernel
  rw [List.zip_of_prod (map_fst_history _ _) hresults]
  refine ⟨⟨false, ?_⟩, ⟨true, ?_⟩, by decide +kernel, rfl, rfl⟩
  · simp [PersistedIn, Sample.calls]
  · simp [PersistedIn, Sample.calls]

/-- The run without its last call: the flags agree, and the worklist is empty. -/
theorem publication_atomic_worklist_exact_sample :
    (run (empty : EvidenceStore RecordHash.coded) (Sample.calls.take 1)).locator =
      {Sample.shadowOrder.recordId .coded} ∧ FlagsAgree (Sample.calls.take 3) ∧
    Sample.shadowOrder.recordId .coded ∉
      (run (empty : EvidenceStore RecordHash.coded) (Sample.calls.take 3)).locator ∧
    ∀ r r' id, TerminalIn (history (empty : EvidenceStore RecordHash.coded) (Sample.calls.take 3)) r →
      TerminalIn (history (empty : EvidenceStore RecordHash.coded) (Sample.calls.take 3)) r' →
      AboutShadow r id → AboutShadow r' id → r = r' := by
  have hflags : FlagsAgree (Sample.calls.take 3) := by
    intro r htrue hfalse
    have hne : Sample.outcome 1 ≠ Sample.outcome 2 := by decide +kernel
    simp only [Sample.calls, Sample.publication, List.take_succ_cons, List.take_zero, List.mem_cons,
      reduceCtorEq, Call.persistOutcome.injEq, Bool.true_eq_false, Bool.false_eq_true, and_false,
      and_true, false_or, or_false, List.not_mem_nil] at htrue hfalse
    exact hne (hfalse.symm.trans htrue)
  have hrun := (publication_atomic_worklist_exact RecordHash.coded).2 empty (Sample.calls.take 3)
    nofun
  exact ⟨by decide +kernel, hflags, by decide +kernel, hrun.2.2.2 hflags⟩

end EvidenceStore

end TraderAssist
