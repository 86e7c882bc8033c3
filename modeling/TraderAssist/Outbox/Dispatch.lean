/-
TraderAssist/Outbox/Dispatch.lean

`OutboxDispatcher` of `notification_engine/delivery.py`.

A call claims the due messages and hands them to the adapter one after the other.  What
the adapter and the process do with a message is an input (`Delivery`): an answer, a
transport error, an exception of another kind, or a stop of the process before or after
the message went out.  Attempts are counted by the claim, and the limit is looked at only
where a failed delivery is classified; so an attempt that went out and was never
classified is made again, whatever the limit (`deliveries_exceed_limit`).  Where every
message that goes out is classified the limit holds (`deliveries_bounded`).
-/
import TraderAssist.Outbox.DueTimes

namespace TraderAssist

open Py Relation

variable {δ : Type}

/-! ### The dispatcher -/

structure RetryPolicy where
  maxAttempts : ℕ := 5
  baseDelaySeconds : ℕ := 30
  maxDelaySeconds : ℕ := 900
  positive : 1 ≤ maxAttempts ∧ 1 ≤ baseDelaySeconds ∧ 1 ≤ maxDelaySeconds
  base_le : baseDelaySeconds ≤ maxDelaySeconds

/-- `next_attempt_at`: none where the source raises. -/
def RetryPolicy.nextAttemptAt (policy : RetryPolicy) (now : Datetime) (attemptCount : ℕ) :
    Option Datetime :=
  if attemptCount < 1 then none
  else now.addSeconds
    (min (policy.baseDelaySeconds * 2 ^ (attemptCount - 1)) policy.maxDelaySeconds)

/-- What becomes of one message of a call. -/
inductive Delivery
  | response (statusCode : ℕ)
  | deliveryError
  | unexpected
  | stopBefore
  | stopAfter
deriving DecidableEq, Repr

structure OutboxDispatcher where
  retryPolicy : RetryPolicy
  leaseSeconds : ℕ := 60
  lease_pos : 1 ≤ leaseSeconds

structure DeliveryResult where
  idempotencyKey : Text
  transition : DeliveryTransition

/-- The messages that went out, in order, and the outbox. -/
structure DispatchState (δ : Type) where
  delivered : List Text := []
  outbox : EvidenceOutbox δ := {}

namespace OutboxDispatcher

/-- `_retry_or_fail`. -/
def retryOrFail (d : OutboxDispatcher) (item : ClaimedOutboxMessage δ) (now : Datetime)
    (reason : Text) : Option DeliveryTransition :=
  if d.retryPolicy.maxAttempts ≤ item.attemptCount then
    some
      { state := .permanentFailure
        reason := "retry-exhausted".toList
        completedAt := now
        next_valid := rfl }
  else (d.retryPolicy.nextAttemptAt now item.attemptCount).map fun next =>
    { state := .pending
      reason := reason
      completedAt := now
      nextAttemptAt := some next
      next_valid := rfl }

/-- `_transition`: none where the call ends without one. -/
def transition (d : OutboxDispatcher) (item : ClaimedOutboxMessage δ) (now : Datetime) :
    Delivery → Option DeliveryTransition
  | .deliveryError => d.retryOrFail item now "transport-error".toList
  | .response status =>
    if 200 ≤ status ∧ status < 300 then
      some
        { state := .delivered
          reason := "2xx".toList
          completedAt := now
          responseStatus := some status
          next_valid := rfl }
    else if status ∈ [408, 429] ∨ (500 ≤ status ∧ status < 600) then
      d.retryOrFail item now "retryable-status".toList
    else
      some
        { state := .permanentFailure
          reason := "permanent-status".toList
          completedAt := now
          responseStatus := some status
          next_valid := rfl }
  | .unexpected | .stopBefore | .stopAfter => none

variable [DecidableEq δ] (sha256 : ClaimPayload → δ)

/-- The loop of `dispatch_due` over the claimed messages; it returns nothing if it raises
or the process stops. -/
def dispatchItems (d : OutboxDispatcher) (now : Datetime)
    (deliver : ClaimedOutboxMessage δ → Delivery) :
    List (ClaimedOutboxMessage δ) → DispatchState δ → Option (List DeliveryResult) × DispatchState δ
  | [], s => (some [], s)
  | item :: items, s =>
    if deliver item = .stopBefore then (none, s)
    else match d.transition item now (deliver item) with
      | none => (none, ⟨s.delivered ++ [item.key], s.outbox⟩)
      | some transition =>
        let (results, s') := dispatchItems d now deliver items
          ⟨s.delivered ++ [item.key], s.outbox.complete item.claimToken transition⟩
        (results.map (⟨item.key, transition⟩ :: ·), s')

/-- `dispatch_due`. -/
def dispatchDue (d : OutboxDispatcher) (s : DispatchState δ) (now : Datetime) (limit : ℕ)
    (deliver : ClaimedOutboxMessage δ → Delivery) : Option (List DeliveryResult) × DispatchState δ :=
  match s.outbox.claimDue sha256 now limit d.leaseSeconds with
  | .error _ => (none, s)
  | .ok (items, o) => d.dispatchItems now deliver items ⟨s.delivered, o⟩

/-- The calls of a run. -/
inductive Call (δ : Type)
  | enqueue (envelope : MessageEnvelope)
  | publishFormalBundle (envelope : MessageEnvelope) (accepted : Bool)
  | dispatchDue (now : Datetime) (limit : ℕ) (deliver : ClaimedOutboxMessage δ → Delivery)

def step (d : OutboxDispatcher) (s : DispatchState δ) : Call δ → DispatchState δ
  | .enqueue envelope => ⟨s.delivered, (s.outbox.step sha256 (.enqueue envelope)).2⟩
  | .publishFormalBundle envelope accepted =>
    ⟨s.delivered, (s.outbox.step sha256 (.publishFormalBundle envelope accepted)).2⟩
  | .dispatchDue now limit deliver => (d.dispatchDue sha256 s now limit deliver).2

/-- The state after some calls, on an empty outbox. -/
def run (d : OutboxDispatcher) (calls : List (Call δ)) : DispatchState δ :=
  calls.foldl (d.step sha256) {}

/-! ### The bound -/

/-- How often each message went out: at most as often as it was claimed, and less often
than the limit while it is pending. -/
structure Bounded (limit : ℕ) (s : DispatchState δ) : Prop where
  pending : ∀ key row, s.outbox.rows.get? key = some row → row.state = .pending →
    s.delivered.count key ≤ row.attemptCount ∧ s.delivered.count key < limit
  final : ∀ key row, s.outbox.rows.get? key = some row → s.delivered.count key ≤ limit
  unknown : ∀ key, s.outbox.rows.get? key = none → s.delivered.count key = 0
  tokens : ∀ key row key' row' token, s.outbox.rows.get? key = some row →
    s.outbox.rows.get? key' = some row' → row.claimToken = some token →
    row'.claimToken = some token → key = key'

/-- Each of the messages still to be handled is claimed under its token, and did not go
out for this attempt. -/
structure Holding (items : List (ClaimedOutboxMessage δ)) (s : DispatchState δ) : Prop where
  nodup : (items.map ClaimedOutboxMessage.key).Nodup
  rows : ∀ c ∈ items, ∃ row, s.outbox.rows.get? c.key = some row ∧ row.state = .pending
    ∧ row.attemptCount = c.attemptCount ∧ row.claimToken = some c.claimToken
  fresh : ∀ c ∈ items, s.delivered.count c.key < c.attemptCount

variable {sha256} {limit : ℕ} {delivered : List Text} {o : EvidenceOutbox δ} {key : Text}

omit [DecidableEq δ] in
/-- A row may be stored if no other row holds its token. -/
theorem tokens_set {rows : Dict Text (OutboxRow δ)} {row : OutboxRow δ}
    (h : ∀ key row key' row' token, rows.get? key = some row → rows.get? key' = some row' →
      row.claimToken = some token → row'.claimToken = some token → key = key')
    (huniq : ∀ token, row.claimToken = some token → ∀ other row', rows.get? other = some row' →
      row'.claimToken = some token → other = key) :
    ∀ key₁ row₁ key₂ row₂ token, (rows.set key row).get? key₁ = some row₁ →
      (rows.set key row).get? key₂ = some row₂ → row₁.claimToken = some token →
      row₂.claimToken = some token → key₁ = key₂ := by
  intro key₁ row₁ key₂ row₂ token hrow₁ hrow₂ htok₁ htok₂
  rw [Dict.get?_set] at hrow₁ hrow₂
  split_ifs at hrow₁ hrow₂ with hkey₁ hkey₂ hkey₂
  · exact hkey₁.symm.trans hkey₂
  · rw [← Option.some.inj hrow₁] at htok₁
    exact absurd (huniq token htok₁ key₂ row₂ hrow₂ htok₂).symm hkey₂
  · rw [← Option.some.inj hrow₂] at htok₂
    exact absurd (huniq token htok₂ key₁ row₁ hrow₁ htok₁).symm hkey₁
  · exact h key₁ row₁ key₂ row₂ token hrow₁ hrow₂ htok₁ htok₂

omit [DecidableEq δ] in
theorem Bounded.insert (h : Bounded limit ⟨delivered, o⟩) (hlim : 1 ≤ limit)
    (envelope : MessageEnvelope) : Bounded limit ⟨delivered, o.insert envelope⟩ := by
  unfold EvidenceOutbox.insert
  split_ifs with hhas
  · exact h
  · -- the message was not there, so it never went out
    have hzero : delivered.count envelope.idempotencyKey = 0 :=
      h.unknown _ (by simpa [Dict.has] using hhas)
    refine ⟨Dict.forall_get?_set h.pending fun _ => ?_, Dict.forall_get?_set h.final ?_,
      fun key hnone => h.unknown key (Dict.get?_set_eq_none.mp hnone).2,
      tokens_set h.tokens fun _ htok => by cases htok⟩
    · dsimp only
      omega
    · dsimp only
      omega

variable {row : OutboxRow δ}

omit [DecidableEq δ] in
/-- A claim counts an attempt; nothing goes out. -/
theorem Bounded.claim (h : Bounded limit ⟨delivered, o⟩)
    (hrow : o.rows.get? key = some row) (hpend : row.state = .pending) {token : δ}
    (huniq : ∀ other row', o.rows.get? other = some row' → row'.claimToken = some token → other = key)
    (expires : Datetime) : Bounded limit ⟨delivered, ⟨o.rows.set key (row.claim token expires)⟩⟩ := by
  obtain ⟨hle, hlt⟩ := h.pending key row hrow hpend
  refine ⟨Dict.forall_get?_set h.pending fun _ => ⟨hle.trans (Nat.le_succ _), hlt⟩,
    Dict.forall_get?_set h.final (h.final key row hrow),
    fun key' hnone => h.unknown key' (Dict.get?_set_eq_none.mp hnone).2,
    tokens_set h.tokens fun token' htok => ?_⟩
  obtain rfl : token = token' := Option.some.inj htok
  exact huniq

variable {items : List (ClaimedOutboxMessage δ)}

omit [DecidableEq δ] in
theorem Holding.claim (h : Holding items ⟨delivered, o⟩) {envelope : MessageEnvelope}
    (hnew : envelope.idempotencyKey ∉ items.map ClaimedOutboxMessage.key) (hpend : row.state = .pending)
    (hcnt : delivered.count envelope.idempotencyKey ≤ row.attemptCount) (token : δ) (expires : Datetime) :
    Holding (items ++ [⟨envelope, row.attemptCount + 1, token⟩])
      ⟨delivered, ⟨o.rows.set envelope.idempotencyKey (row.claim token expires)⟩⟩ := by
  refine ⟨?_, forall_mem_snoc (fun c hc => ?_) ⟨_, Dict.get?_set_self, hpend, rfl, rfl⟩,
    forall_mem_snoc h.fresh (Nat.lt_succ_of_le hcnt)⟩
  · rw [List.map_append]
    refine pairwise_snoc h.nodup fun x hx (heq : x = envelope.idempotencyKey) => hnew ?_
    exact heq ▸ hx
  · obtain ⟨row', hrow', hrest⟩ := h.rows c hc
    refine ⟨row', (Dict.get?_set_ne fun hkey => hnew ?_).trans hrow', hrest⟩
    exact hkey ▸ List.mem_map_of_mem hc

/-- **What a call claims** is held under its tokens, and nothing went out yet. -/
theorem claimRows_holding {now : Text} {expires : Datetime}
    {entries : List (Text × OutboxRow δ)} (hnd : (entries.map Prod.fst).Nodup) :
    ∀ {acc acc' : EvidenceOutbox.State δ},
      entries.foldlM (EvidenceOutbox.claimRow sha256 now expires) acc = .ok acc' →
      Bounded limit ⟨delivered, acc.2⟩ → Holding acc.1 ⟨delivered, acc.2⟩ →
      (∀ c ∈ acc.1, c.key ∉ entries.map Prod.fst) →
      Bounded limit ⟨delivered, acc'.2⟩ ∧ Holding acc'.1 ⟨delivered, acc'.2⟩ := by
  induction entries with
  | nil =>
    intro acc acc' h hbnd hhold _
    cases h
    exact ⟨hbnd, hhold⟩
  | cons entry entries ih =>
    intro acc acc' h hbnd hhold hapart
    rw [List.map_cons, List.nodup_cons] at hnd
    obtain ⟨acc₁, hclm, hrest⟩ := of_bind h
    obtain ⟨key, selected⟩ := entry
    obtain ⟨row, hrow, hpend, -, huniq, rfl⟩ := EvidenceOutbox.claimRow_ok hclm
    have hnew : key ∉ acc.1.map ClaimedOutboxMessage.key := by
      intro hmem
      obtain ⟨c, hc, rfl⟩ := List.mem_map.mp hmem
      exact hapart c hc (.head _)
    refine ih hnd.2 hrest (hbnd.claim hrow hpend huniq expires)
      (@Holding.claim _ _ _ _ _ hhold (selected.envelope key) hnew hpend
        (hbnd.pending key row hrow hpend).1 _ expires) (forall_mem_snoc (fun c hc hmem => ?_) hnd.1)
    exact hapart c hc (.tail _ hmem)

omit [DecidableEq δ] in
theorem nodup_selectDue (now : Text) (limit : ℕ) : ((o.selectDue now limit).map Prod.fst).Nodup := by
  refine List.Nodup.sublist ((List.take_sublist _ _).map _) ?_
  refine (((perm_sortBy _ _).map Prod.fst).nodup_iff).mpr ?_
  exact o.rows.nodup.sublist (List.filter_sublist.map _)

variable {now : Datetime}

theorem claimDue_holding {count lease : ℕ} {o' : EvidenceOutbox δ}
    (h : o.claimDue sha256 now count lease = .ok (items, o')) (hbnd : Bounded limit ⟨delivered, o⟩) :
    Bounded limit ⟨delivered, o'⟩ ∧ Holding items ⟨delivered, o'⟩ := by
  unfold EvidenceOutbox.claimDue at h
  split_ifs at h
  rcases hexp : now.addSeconds lease with - | expires
  · rw [hexp] at h
    cases h
  · rw [hexp] at h
    exact claimRows_holding (nodup_selectDue _ _) h hbnd
      ⟨List.nodup_nil, nofun, nofun⟩ nofun

/-! ### Classified deliveries -/

variable {d : OutboxDispatcher} {item : ClaimedOutboxMessage δ}

omit [DecidableEq δ] in
/-- A transition to pending is one of an attempt below the limit. -/
theorem attempt_lt_of_pending {outcome : Delivery} {transition : DeliveryTransition}
    (h : d.transition item now outcome = some transition) (hpend : transition.state = .pending) :
    item.attemptCount < d.retryPolicy.maxAttempts := by
  have hretry : ∀ reason, d.retryOrFail item now reason = some transition →
      item.attemptCount < d.retryPolicy.maxAttempts := by
    intro reason hsome
    unfold retryOrFail at hsome
    split_ifs at hsome with hmax
    · rw [← Option.some.inj hsome] at hpend
      cases hpend
    · omega
  cases outcome with
  | deliveryError => exact hretry _ h
  | response status =>
    unfold OutboxDispatcher.transition at h
    dsimp only at h
    split_ifs at h
    · rw [← Option.some.inj h] at hpend
      cases hpend
    · exact hretry _ h
    · rw [← Option.some.inj h] at hpend
      cases hpend
  | unexpected => cases h
  | stopBefore => cases h
  | stopAfter => cases h

theorem count_delivered (delivered : List Text) (sent key : Text) :
    (delivered ++ [sent]).count key = delivered.count key + if sent = key then 1 else 0 := by
  rw [List.count_append, List.count_singleton]
  simp only [beq_iff_eq]

/-- Completing a message that is held finishes its row. -/
theorem Bounded.complete_eq (h : Bounded limit ⟨delivered, o⟩) {token : δ}
    (hrow : o.rows.get? key = some row) (htok : row.claimToken = some token)
    (transition : DeliveryTransition) :
    o.complete token transition = ⟨o.rows.set key (row.finish transition)⟩ := by
  rcases EvidenceOutbox.complete_cases o token transition with
    ⟨hnone, -⟩ | ⟨key', row', hrow', htok', hset⟩
  · exact absurd htok (hnone _ row hrow)
  · obtain rfl := h.tokens key' row' key row _ hrow' hrow htok' htok
    obtain rfl : row = row' := Option.some.inj (hrow.symm.trans hrow')
    exact hset

omit [DecidableEq δ] in
/-- A message that goes out and is classified keeps the bound. -/
theorem Bounded.finish (h : Bounded limit ⟨delivered, o⟩)
    (hrow : o.rows.get? key = some row) (hsta : row.state = .pending)
    (hfr : delivered.count key < row.attemptCount) {transition : DeliveryTransition}
    (hpend : transition.state = .pending → row.attemptCount < limit) :
    Bounded limit ⟨delivered ++ [key], ⟨o.rows.set key (row.finish transition)⟩⟩ := by
  have hlt : delivered.count key < limit := (h.pending _ row hrow hsta).2
  refine ⟨fun key' row' hrow' hpend' => ?_, fun key' row' hrow' => ?_, fun key' hnone => ?_,
    tokens_set h.tokens nofun⟩
  · simp only [Dict.get?_set] at hrow'
    simp only [count_delivered]
    split_ifs at hrow' ⊢ with hkey
    · subst hkey
      cases hrow'
      have hbelow := hpend hpend'
      change _ ≤ row.attemptCount ∧ _
      omega
    · exact h.pending key' row' hrow' hpend'
  · simp only [Dict.get?_set] at hrow'
    simp only [count_delivered]
    split_ifs at hrow' ⊢ with hkey
    · subst hkey
      exact hlt
    · exact h.final key' row' hrow'
  · simp only [Dict.get?_set] at hnone
    simp only [count_delivered]
    split_ifs at hnone ⊢ with hkey
    exact h.unknown key' hnone

omit [DecidableEq δ] in
/-- The messages after it are held as before. -/
theorem Holding.tail (h : Holding (item :: items) ⟨delivered, o⟩) (row : OutboxRow δ) :
    Holding items ⟨delivered ++ [item.key], ⟨o.rows.set item.key row⟩⟩ := by
  have hnd := h.nodup
  rw [List.map_cons, List.nodup_cons] at hnd
  have hne : ∀ c ∈ items, item.key ≠ c.key := fun c hc hkey => hnd.1 (hkey ▸ List.mem_map_of_mem hc)
  refine ⟨hnd.2, fun c hc => ?_, fun c hc => ?_⟩
  · obtain ⟨row', hrow', hrest⟩ := h.rows c (.tail _ hc)
    exact ⟨row', (Dict.get?_set_ne (hne c hc)).trans hrow', hrest⟩
  · simp only [count_delivered, if_neg (hne c hc)]
    exact h.fresh c (.tail _ hc)

/-- Every message that goes out is classified: the adapter answers or raises its transport
error, the process does not stop before the completion, and the time of a retry exists. -/
structure Classified (d : OutboxDispatcher) (now : Datetime)
    (deliver : ClaimedOutboxMessage δ → Delivery) : Prop where
  answered : ∀ item, deliver item ≠ .unexpected ∧ deliver item ≠ .stopAfter
  retry : ∀ attemptCount, 1 ≤ attemptCount → attemptCount < d.retryPolicy.maxAttempts →
    (d.retryPolicy.nextAttemptAt now attemptCount).isSome

variable {deliver : ClaimedOutboxMessage δ → Delivery}

omit [DecidableEq δ] in
theorem Classified.transition_isSome
    (h : Classified d now deliver) (hatt : 1 ≤ item.attemptCount)
    (hstop : deliver item ≠ .stopBefore) : (d.transition item now (deliver item)).isSome := by
  have hretry : ∀ reason, (d.retryOrFail item now reason).isSome := by
    intro reason
    unfold retryOrFail
    split_ifs with hmax
    · rfl
    · rw [Option.isSome_map]
      exact h.retry _ hatt (by omega)
  rcases hout : deliver item with status | - | - | - | -
  · unfold OutboxDispatcher.transition
    dsimp only
    split_ifs
    · rfl
    · exact hretry _
    · rfl
  · exact hretry _
  · exact absurd hout (h.answered item).1
  · exact absurd hout hstop
  · exact absurd hout (h.answered item).2

/-- **The loop keeps the bound.** -/
theorem dispatchItems_bounded
    (hclass : Classified d now deliver) : ∀ {s : DispatchState δ},
      Bounded d.retryPolicy.maxAttempts s → Holding items s →
      Bounded d.retryPolicy.maxAttempts (d.dispatchItems now deliver items s).2 := by
  induction items with
  | nil => exact fun hbnd _ => hbnd
  | cons item items ih =>
    rintro ⟨delivered, o⟩ hbnd hhold
    unfold dispatchItems
    split_ifs with hstop
    · exact hbnd
    · obtain ⟨row, hrow, hsta, hatt, htok⟩ := hhold.rows item (.head _)
      have hfr := hhold.fresh item (.head _)
      obtain ⟨transition, htrn⟩ := Option.isSome_iff_exists.mp
        (hclass.transition_isSome (Nat.one_le_of_lt hfr) hstop)
      have hpend := attempt_lt_of_pending htrn
      rw [← hatt] at hfr hpend
      rw [htrn]
      dsimp only
      rw [hbnd.complete_eq hrow htok]
      exact ih (hbnd.finish hrow hsta hfr hpend) (hhold.tail _)

/-- **A call keeps the bound.** -/
theorem step_bounded {s : DispatchState δ} {call : Call δ} (hbnd : Bounded d.retryPolicy.maxAttempts s)
    (hcall : ∀ now limit deliver, call = .dispatchDue now limit deliver → Classified d now deliver) :
    Bounded d.retryPolicy.maxAttempts (d.step sha256 s call) := by
  have hins : ∀ envelope, Bounded d.retryPolicy.maxAttempts
      ⟨s.delivered, ((s.outbox.insertChecked envelope).toOption.map Prod.snd).getD s.outbox⟩ := by
    intro envelope
    unfold EvidenceOutbox.insertChecked
    dsimp only
    split_ifs
    · exact hbnd.insert d.retryPolicy.positive.1 envelope
    · exact hbnd
  cases call with
  | enqueue envelope =>
    simp only [step, EvidenceOutbox.step, EvidenceOutbox.enqueue]
    split_ifs
    · exact hbnd
    · exact hins envelope
  | publishFormalBundle envelope accepted =>
    simp only [step, EvidenceOutbox.step, EvidenceOutbox.publishFormalBundle]
    split_ifs
    · exact hbnd
    · exact hbnd
    · exact hins envelope
  | dispatchDue now limit deliver =>
    rw [step, dispatchDue]
    rcases hclm : s.outbox.claimDue sha256 now limit d.leaseSeconds with err | ⟨items, o⟩
    · exact hbnd
    · obtain ⟨hbnd', hhold⟩ := claimDue_holding hclm hbnd
      exact dispatchItems_bounded (hcall now limit deliver rfl) hbnd' hhold

theorem run_bounded {calls : List (Call δ)}
    (hcall : ∀ now limit deliver, .dispatchDue now limit deliver ∈ calls → Classified d now deliver) :
    Bounded d.retryPolicy.maxAttempts (d.run sha256 calls) := by
  suffices h : ∀ s, Bounded d.retryPolicy.maxAttempts s →
      Bounded d.retryPolicy.maxAttempts (calls.foldl (d.step sha256) s) from
    h {} ⟨nofun, nofun, fun _ _ => rfl,
      fun _ _ _ _ _ h => (nomatch h)⟩
  induction calls with
  | nil => exact fun s hs => hs
  | cons call calls ih =>
    intro s hs
    refine ih (fun now limit deliver hmem => hcall now limit deliver (.tail _ hmem)) _
      (step_bounded hs ?_)
    rintro now limit deliver rfl
    exact hcall now limit deliver (.head _)

/-- **Delivery attempts are bounded where they are classified**: over any calls in which
every message that goes out is classified, no message goes out more often than the limit. -/
theorem deliveries_bounded (d : OutboxDispatcher) (calls : List (Call δ))
    (hcalls : ∀ now limit deliver, .dispatchDue now limit deliver ∈ calls → Classified d now deliver)
    (key : Text) : (d.run sha256 calls).delivered.count key ≤ d.retryPolicy.maxAttempts := by
  have h := @run_bounded _ _ sha256 d calls hcalls
  rcases hrow : (d.run sha256 calls).outbox.rows.get? key with - | row
  · rw [h.unknown key hrow]
    exact Nat.zero_le _
  · exact h.final key row hrow

/-- A limit of one attempt, with short leases. -/
def onceDispatcher : OutboxDispatcher := ⟨⟨1, 30, 900, by decide, by decide⟩, 60, by decide⟩

/-- An exception of another kind: the lease runs out and the message goes out again. -/
theorem deliveries_exceed_limit :
    let at0 : Datetime := ⟨2026, 1, 1, 0, 0, 0, 0, by decide⟩
    let at90 : Datetime := ⟨2026, 1, 1, 0, 1, 30, 0, by decide⟩
    let calls : List (Call ClaimPayload) := [.enqueue ⟨['1'], .watch, ['k'], ['x'], at0⟩,
      .dispatchDue at0 10 fun _ => .unexpected, .dispatchDue at90 10 fun _ => .response 200]
    onceDispatcher.retryPolicy.maxAttempts = 1
      ∧ (onceDispatcher.run id calls).delivered = [['k'], ['k']] := by
  decide +kernel

/-- A transport error uses up the only attempt. -/
theorem deliveries_bounded_once :
    let at0 : Datetime := ⟨2026, 1, 1, 0, 0, 0, 0, by decide⟩
    let at90 : Datetime := ⟨2026, 1, 1, 0, 1, 30, 0, by decide⟩
    let calls : List (Call ClaimPayload) := [.enqueue ⟨['1'], .watch, ['k'], ['x'], at0⟩,
      .dispatchDue at0 10 fun _ => .deliveryError, .dispatchDue at90 10 fun _ => .response 200]
    (onceDispatcher.run id calls).delivered = [['k']]
      ∧ (onceDispatcher.run id calls).delivered.count ['k'] ≤ onceDispatcher.retryPolicy.maxAttempts := by
  intro at0 at90 calls
  refine ⟨by decide +kernel, deliveries_bounded onceDispatcher calls ?_ ['k']⟩
  intro now limit deliver hmem
  refine ⟨fun item => ?_, fun k hk hlt => ?_⟩
  · simp only [calls, List.mem_cons, Call.dispatchDue.injEq, reduceCtorEq, false_or,
      List.not_mem_nil, or_false] at hmem
    rcases hmem with ⟨-, -, rfl⟩ | ⟨-, -, rfl⟩
    · exact ⟨Delivery.noConfusion, Delivery.noConfusion⟩
    · exact ⟨Delivery.noConfusion, Delivery.noConfusion⟩
  · change k < 1 at hlt
    omega

end OutboxDispatcher

end TraderAssist
