/-
TraderAssist/Outbox/Lease.lean

The lease protocol of the outbox.

Every call is a sequence of changes of single rows (`Change`, `step_changes`): a row is
inserted, a pending row is claimed, or the row that holds a token is finished.  What
holds of the claims made so far and the table (`Ledger`) is kept by each of them, and
so by every run of any workers (`outbox_lease_protocol`).
-/
import TraderAssist.Outbox.Store

namespace TraderAssist

open Py Relation

variable {δ : Type}

abbrev ClaimedOutboxMessage.key (c : ClaimedOutboxMessage δ) : Text := c.envelope.idempotencyKey

namespace EvidenceOutbox

/-- The claims made so far and the outbox. -/
abbrev State (δ : Type) := List (ClaimedOutboxMessage δ) × EvidenceOutbox δ

variable {sha256 : ClaimPayload → δ} {o o' : EvidenceOutbox δ} {s s' : State δ}

/-! ### Changes of one row -/

/-- A change of one row. -/
inductive Change (sha256 : ClaimPayload → δ) : State δ → State δ → Prop
  | insert {log : List (ClaimedOutboxMessage δ)} {o : EvidenceOutbox δ} (envelope : MessageEnvelope)
      (hnew : o.rows.get? envelope.idempotencyKey = none) :
      Change sha256 (log, o) (log, o.insert envelope)
  | claim {log : List (ClaimedOutboxMessage δ)} {o : EvidenceOutbox δ} {row : OutboxRow δ}
      (envelope : MessageEnvelope) (now : Text) (expires : Datetime)
      (hrow : o.rows.get? envelope.idempotencyKey = some row) (hpending : row.state = .pending) :
      Change sha256 (log, o)
        (log ++ [⟨envelope, row.attemptCount + 1,
            sha256 ⟨envelope.idempotencyKey, row.attemptCount + 1, now⟩⟩],
          ⟨o.rows.set envelope.idempotencyKey
            (row.claim (sha256 ⟨envelope.idempotencyKey, row.attemptCount + 1, now⟩) expires)⟩)
  | finish {log : List (ClaimedOutboxMessage δ)} {o : EvidenceOutbox δ} {key : Text}
      {row : OutboxRow δ} {token : δ} (transition : DeliveryTransition)
      (hrow : o.rows.get? key = some row) (htoken : row.claimToken = some token) :
      Change sha256 (log, o) (log, ⟨o.rows.set key (row.finish transition)⟩)

theorem insertChecked_changes (log : List (ClaimedOutboxMessage δ)) {envelope : MessageEnvelope} :
    ReflTransGen (Change sha256) (log, o)
      (log, ((o.insertChecked envelope).toOption.map Prod.snd).getD o) := by
  unfold insertChecked
  dsimp only
  split_ifs
  · change ReflTransGen _ _ (log, o.insert envelope)
    by_cases hhas : o.rows.has envelope.idempotencyKey = true
    · rw [insert, if_pos hhas]
    · exact .single (.insert envelope (by simpa [Dict.has] using hhas))
  · exact .refl

variable {expires : Datetime} {key : Text}

section

variable [DecidableEq δ]

/-- What claiming a selected row does: the row still stands as it was selected, and no
other row holds the new token. -/
theorem claimRow_ok {now : Text} {acc acc' : State δ} {selected : OutboxRow δ}
    (h : claimRow sha256 now expires acc (key, selected) = .ok acc') :
    ∃ row, acc.2.rows.get? key = some row ∧ row.state = .pending ∧ row.attemptCount = selected.attemptCount
      ∧ (∀ other row', acc.2.rows.get? other = some row' →
        row'.claimToken = some (sha256 ⟨key, row.attemptCount + 1, now⟩) → other = key)
      ∧ acc' = (acc.1 ++ [⟨selected.envelope key, row.attemptCount + 1,
            sha256 ⟨key, row.attemptCount + 1, now⟩⟩],
          ⟨acc.2.rows.set key (row.claim (sha256 ⟨key, row.attemptCount + 1, now⟩) expires)⟩) := by
  unfold claimRow at h
  dsimp only at h
  generalize hrow : acc.2.rows.get? key = found at h
  rcases found with - | row
  · cases h
  · dsimp only at h
    split_ifs at h with hcond huniq
    obtain ⟨hpend, hcnt, -⟩ := hcond
    refine ⟨row, rfl, hpend, hcnt, fun other row' hoth htok => ?_, ?_⟩
    · by_contra hne
      rw [hcnt] at htok
      refine huniq (List.any_eq_true.mpr ⟨(other, row'), Dict.mem_entries.mpr hoth, ?_⟩)
      simp [hne, htok]
    · rw [← Except.ok.inj h, ← hcnt]

/-- Claiming a selected row is a change. -/
theorem claimRow_change {now : Text} {acc acc' : State δ} {entry : Text × OutboxRow δ}
    (h : claimRow sha256 now expires acc entry = .ok acc') (log : List (ClaimedOutboxMessage δ)) :
    Change sha256 (log ++ acc.1, acc.2) (log ++ acc'.1, acc'.2) := by
  obtain ⟨row, hrow, hpend, -, -, rfl⟩ := claimRow_ok h
  rw [← List.append_assoc]
  exact .claim (entry.2.envelope entry.1) now expires hrow hpend

theorem claimRows_changes {now : Text} {entries : List (Text × OutboxRow δ)}
    (log : List (ClaimedOutboxMessage δ)) : ∀ {acc acc' : State δ},
      entries.foldlM (claimRow sha256 now expires) acc = .ok acc' →
      ReflTransGen (Change sha256) (log ++ acc.1, acc.2) (log ++ acc'.1, acc'.2) := by
  induction entries with
  | nil =>
    intro acc acc' h
    rw [← Except.ok.inj h]
  | cons entry entries ih =>
    intro acc acc' h
    obtain ⟨acc₁, hclm, hrest⟩ := of_bind h
    exact .head (claimRow_change hclm log) (ih hrest)

/-- What `complete` does. -/
theorem complete_cases (o : EvidenceOutbox δ) (token : δ) (transition : DeliveryTransition) :
    ((∀ key row, o.rows.get? key = some row → row.claimToken ≠ some token) ∧ o.complete token transition = o)
      ∨ ∃ key row, o.rows.get? key = some row ∧ row.claimToken = some token
        ∧ o.complete token transition = ⟨o.rows.set key (row.finish transition)⟩ := by
  rcases hfind : o.rows.entries.find? (fun entry => decide (entry.2.claimToken = some token))
    with - | ⟨key, row⟩
  · refine .inl ⟨fun key row hrow htok => ?_, by simp only [complete, hfind]⟩
    exact List.find?_eq_none.mp hfind _ (Dict.mem_entries.mpr hrow) (decide_eq_true htok)
  · have htok := List.find?_some hfind
    exact .inr ⟨key, row, Dict.mem_entries.mp (List.mem_of_find?_eq_some hfind),
      of_decide_eq_true htok, by simp only [complete, hfind]⟩

end

section

variable (log : List (ClaimedOutboxMessage δ))

section

variable [DecidableEq δ]

theorem complete_changes (token : δ) (transition : DeliveryTransition) :
    ReflTransGen (Change sha256) (log, o) (log, o.complete token transition) := by
  rcases complete_cases o token transition with ⟨-, hsame⟩ | ⟨key, row, hrow, htok, hset⟩
  · rw [hsame]
  · rw [hset]
    exact .single (.finish transition hrow htok)

/-- **Every call is a sequence of changes.** -/
theorem step_changes (op : Op δ) :
    ReflTransGen (Change sha256) (log, o) (log ++ (o.step sha256 op).1, (o.step sha256 op).2) := by
  cases op with
  | enqueue envelope =>
    simp only [step, List.append_nil, enqueue]
    split_ifs
    · exact .refl
    · exact insertChecked_changes log
  | publishFormalBundle envelope accepted =>
    simp only [step, List.append_nil, publishFormalBundle]
    split_ifs
    · exact .refl
    · exact .refl
    · exact insertChecked_changes log
  | claimDue now limit leaseSeconds =>
    simp only [step]
    rcases hclm : o.claimDue sha256 now limit leaseSeconds with err | acc
    · simp only [Except.toOption, Option.getD_none, List.append_nil]
      exact .refl
    · unfold claimDue at hclm
      split_ifs at hclm
      rcases hexp : now.addSeconds leaseSeconds with - | expires
      · rw [hexp] at hclm
        cases hclm
      · rw [hexp] at hclm
        have h := claimRows_changes log hclm
        rwa [List.append_nil] at h
  | complete token transition =>
    simp only [step, List.append_nil]
    exact complete_changes log token transition

theorem run_changes (ops : List (Op δ)) :
    ReflTransGen (Change sha256) (log, o) (log ++ o.claims sha256 ops, o.run sha256 ops) := by
  induction ops generalizing log o with
  | nil =>
    rw [claims, List.append_nil]
    exact .refl
  | cons op ops ih =>
    rw [claims, ← List.append_assoc]
    exact (step_changes log op).trans (ih _)

/-! ### The claims and the table -/

end

end

/-- What the claims so far say about the table. -/
structure Ledger (sha256 : ClaimPayload → δ) (s : State δ) : Prop where
  counted : ∀ key row, s.2.rows.get? key = some row →
    row.attemptCount = s.1.countP fun c => c.key = key
  unknown : ∀ key, s.2.rows.get? key = none → ∀ c ∈ s.1, c.key ≠ key
  hashed : ∀ c ∈ s.1, ∃ now, c.claimToken = sha256 ⟨c.key, c.attemptCount, now⟩
  bounded : ∀ c ∈ s.1, c.attemptCount ≤ s.1.countP fun c' => c'.key = c.key
  single : ∀ c ∈ s.1, ∀ c' ∈ s.1, c.key = c'.key → c.attemptCount = c'.attemptCount →
    c.claimToken = c'.claimToken
  nodup : (s.1.map ClaimedOutboxMessage.claimToken).Nodup
  held : ∀ key row token, s.2.rows.get? key = some row → row.claimToken = some token →
    row.state = .pending
      ∧ ∃ c ∈ s.1, c.key = key ∧ c.attemptCount = row.attemptCount ∧ c.claimToken = token

theorem Ledger.start : Ledger sha256 (([], {}) : State δ) :=
  ⟨nofun, nofun, nofun,
    nofun, nofun, List.nodup_nil, nofun⟩

/-- **Every change keeps the ledger.** -/
theorem Ledger.change (hsha : Function.Injective sha256) (h : Ledger sha256 s)
    (hchg : Change sha256 s s') : Ledger sha256 s' := by
  cases hchg with
  | @insert log o envelope hnew =>
    have hrows : (o.insert envelope).rows = o.rows.set envelope.idempotencyKey
        { schemaVersion := envelope.schemaVersion
          kind := envelope.kind
          content := envelope.content
          createdAt := envelope.createdAt
          nextAttemptAt := envelope.createdAt } := by
      rw [insert, if_neg (by simp [Dict.has, hnew])]
    refine ⟨?_, ?_, h.hashed, h.bounded, h.single, h.nodup, ?_⟩ <;> dsimp only <;> rw [hrows]
    · -- nothing was claimed of a message that was not there
      refine Dict.forall_get?_set h.counted (List.countP_eq_zero.mpr fun c hc hck => ?_).symm
      exact h.unknown _ hnew c hc (of_decide_eq_true hck)
    · exact fun key hnone => h.unknown key (Dict.get?_set_eq_none.mp hnone).2
    · intro key row token
      exact Dict.forall_get?_set (fun key row => h.held key row token) (by rintro ⟨⟩) key row
  | @claim log o row envelope now expires hrow hpend =>
    have hcnt := h.counted _ row hrow
    set token := sha256 ⟨envelope.idempotencyKey, row.attemptCount + 1, now⟩ with htok
    have hcountP : ∀ key, (log ++ [(⟨envelope, row.attemptCount + 1, token⟩ :
        ClaimedOutboxMessage δ)]).countP (fun c => decide (c.key = key)) = log.countP (fun c => decide (c.key = key))
          + if envelope.idempotencyKey = key then 1 else 0 := by
      intro key
      rw [List.countP_append, List.countP_singleton]
      simp only [ClaimedOutboxMessage.key, decide_eq_true_eq]
    -- no earlier claim of the message has the new attempt count
    have hfr : ∀ c ∈ log, c.key = envelope.idempotencyKey → c.attemptCount ≠ row.attemptCount + 1 := by
      intro c hc hkey hatt
      have hle := h.bounded c hc
      simp only [hkey, ← hcnt] at hle
      omega
    refine ⟨fun key row' hrow' => ?_, fun key hnone => ?_, forall_mem_snoc h.hashed ⟨now, htok⟩,
      fun c hc => ?_, fun c hc c' hc' hkey hatt => ?_, ?_, fun key row' token' hrow' htoken => ?_⟩
    · rw [hcountP]
      simp only [Dict.get?_set] at hrow'
      split_ifs at hrow' with hkey
      · rw [← Option.some.inj hrow', if_pos hkey, ← hkey, ← hcnt]
        rfl
      · rw [if_neg hkey, h.counted key row' hrow', Nat.add_zero]
    · obtain ⟨hkey, hnone⟩ := Dict.get?_set_eq_none.mp hnone
      exact forall_mem_snoc (h.unknown key hnone) hkey
    · rw [hcountP]
      rcases List.mem_append.mp hc with hc | hc
      · exact (h.bounded c hc).trans (Nat.le_add_right _ _)
      · rw [List.mem_singleton.mp hc, if_pos rfl]
        exact Nat.succ_le_succ hcnt.le
    · rcases List.mem_append.mp hc with hc | hc <;> rcases List.mem_append.mp hc' with hc' | hc'
      · exact h.single c hc c' hc' hkey hatt
      · rw [List.mem_singleton.mp hc'] at hkey hatt
        exact absurd hatt (hfr c hc hkey)
      · rw [List.mem_singleton.mp hc] at hkey hatt
        exact absurd hatt.symm (hfr c' hc' hkey.symm)
      · rw [List.mem_singleton.mp hc, List.mem_singleton.mp hc']
    · rw [List.map_append]
      refine pairwise_snoc h.nodup fun x hx hxy => ?_
      obtain ⟨c, hc, rfl⟩ := List.mem_map.mp hx
      obtain ⟨at_, hat⟩ := h.hashed c hc
      have hpay := hsha ((hat.symm.trans hxy).trans htok)
      simp only [ClaimPayload.mk.injEq] at hpay
      exact hfr c hc hpay.1 hpay.2.1
    · simp only [Dict.get?_set] at hrow'
      split_ifs at hrow' with hkey
      · cases hrow'
        obtain rfl : token = token' := Option.some.inj htoken
        exact ⟨hpend, _, List.mem_append_right _ (List.mem_singleton_self _), hkey, rfl, rfl⟩
      · obtain ⟨hsta, c, hc, hrest⟩ := h.held key row' token' hrow' htoken
        exact ⟨hsta, c, List.mem_append_left _ hc, hrest⟩
  | @finish log o key row token transition hrow htoken =>
    refine ⟨Dict.forall_get?_set h.counted (h.counted key row hrow),
      fun key' hnone => h.unknown key' (Dict.get?_set_eq_none.mp hnone).2, h.hashed, h.bounded, h.single,
      h.nodup, fun key' row' token' => ?_⟩
    exact Dict.forall_get?_set (fun key row => h.held key row token') (by rintro ⟨⟩) key' row'

theorem Ledger.changes (hsha : Function.Injective sha256) (h : Ledger sha256 s)
    (hchgs : ReflTransGen (Change sha256) s s') : Ledger sha256 s' := by
  induction hchgs with
  | refl => exact h
  | tail _ hchg ih => exact ih.change hsha hchg

/-! ### What a row keeps -/

variable {row : OutboxRow δ}

/-- The row of a message: its contents stay, and a row that is not pending stays as it
is. -/
theorem Change.keeps (h : Ledger sha256 s) (hchg : Change sha256 s s') (hrow : s.2.rows.get? key = some row) :
    ∃ row', s'.2.rows.get? key = some row' ∧ row'.envelope key = row.envelope key
      ∧ (row.state ≠ .pending → row' = row) := by
  cases hchg with
  | @insert log o envelope hnew =>
    refine ⟨row, ?_, rfl, fun _ => rfl⟩
    rw [EvidenceOutbox.insert, if_neg (by simp [Dict.has, hnew])]
    refine (Dict.get?_set_ne ?_).trans hrow
    rintro rfl
    rw [hnew] at hrow
    cases hrow
  | @claim log o claimed envelope now expires hcld hpend =>
    by_cases hkey : envelope.idempotencyKey = key
    · subst hkey
      obtain rfl : claimed = row := Option.some.inj (hcld.symm.trans hrow)
      exact ⟨_, Dict.get?_set_self, rfl, fun hsta => absurd hpend hsta⟩
    · exact ⟨row, (Dict.get?_set_ne hkey).trans hrow, rfl, fun _ => rfl⟩
  | @finish log o key' held token transition hheld htok =>
    by_cases hkey : key' = key
    · subst hkey
      obtain rfl : held = row := Option.some.inj (hheld.symm.trans hrow)
      exact ⟨_, Dict.get?_set_self, rfl, fun hsta =>
        absurd (h.held _ _ _ hheld htok).1 hsta⟩
    · exact ⟨row, (Dict.get?_set_ne hkey).trans hrow, rfl, fun _ => rfl⟩

theorem changes_keep (hsha : Function.Injective sha256) (h : Ledger sha256 s)
    (hchgs : ReflTransGen (Change sha256) s s') (hrow : s.2.rows.get? key = some row) :
    ∃ row', s'.2.rows.get? key = some row' ∧ row'.envelope key = row.envelope key
      ∧ (row.state ≠ .pending → row' = row) := by
  induction hchgs with
  | refl => exact ⟨row, hrow, rfl, fun _ => rfl⟩
  | tail hbef hchg ih =>
    obtain ⟨mid, hmid, hsame, hstays⟩ := ih
    obtain ⟨row', hrow', hsame', hstays'⟩ := hchg.keeps (h.changes hsha hbef) hmid
    refine ⟨row', hrow', hsame'.trans hsame, fun hsta => ?_⟩
    obtain rfl := hstays hsta
    exact hstays' hsta

/-! ### Spent claims -/

/-- The row went on to a later attempt, or holds no claim. -/
def Spent (c : ClaimedOutboxMessage δ) (o : EvidenceOutbox δ) : Prop :=
  ∃ row, o.rows.get? c.key = some row
    ∧ (c.attemptCount < row.attemptCount ∨ (c.attemptCount = row.attemptCount ∧ row.claimToken = none))

variable {c : ClaimedOutboxMessage δ}

theorem Spent.change (h : Spent c s.2) (hchg : Change sha256 s s') : Spent c s'.2 := by
  obtain ⟨row, hrow, hsp⟩ := h
  cases hchg with
  | @insert log o envelope hnew =>
    refine ⟨row, ?_, hsp⟩
    rw [EvidenceOutbox.insert, if_neg (by simp [Dict.has, hnew])]
    refine (Dict.get?_set_ne fun hkey => ?_).trans hrow
    rw [← hkey, hnew] at hrow
    cases hrow
  | @claim log o claimed envelope now expires hcld hpend =>
    by_cases hkey : envelope.idempotencyKey = c.key
    · rw [hkey] at hcld
      obtain rfl : claimed = row := Option.some.inj (hcld.symm.trans hrow)
      refine ⟨claimed.claim (sha256 ⟨envelope.idempotencyKey, claimed.attemptCount + 1, now⟩) expires,
        ?_, .inl ?_⟩
      · rw [← hkey]
        exact Dict.get?_set_self
      · change c.attemptCount < claimed.attemptCount + 1
        omega
    · exact ⟨row, (Dict.get?_set_ne hkey).trans hrow, hsp⟩
  | @finish log o key' held token transition hheld htok =>
    by_cases hkey : key' = c.key
    · subst hkey
      obtain rfl : held = row := Option.some.inj (hheld.symm.trans hrow)
      exact ⟨_, Dict.get?_set_self, hsp.imp id fun heq => ⟨heq.1, rfl⟩⟩
    · exact ⟨row, (Dict.get?_set_ne hkey).trans hrow, hsp⟩

theorem Spent.changes (h : Spent c s.2) (hchgs : ReflTransGen (Change sha256) s s') : Spent c s'.2 := by
  induction hchgs with
  | refl => exact h
  | tail _ hchg ih => exact ih.change hchg

/-- A row that holds the token of a claim is the row of that claim. -/
theorem Ledger.claimed_of_held (hsha : Function.Injective sha256) (h : Ledger sha256 s)
    (hc : c ∈ s.1) (hrow : s.2.rows.get? key = some row) (htoken : row.claimToken = some c.claimToken) :
    c.key = key ∧ c.attemptCount = row.attemptCount := by
  obtain ⟨-, c', hc', hkey, hatt, htok⟩ := h.held key row _ hrow htoken
  obtain ⟨now, hnow⟩ := h.hashed c hc
  obtain ⟨now', hnow'⟩ := h.hashed c' hc'
  have hpay := hsha ((hnow.symm.trans htok.symm).trans hnow')
  simp only [ClaimPayload.mk.injEq] at hpay
  exact ⟨hpay.1.trans hkey, hpay.2.1.trans hatt⟩

/-- The message of a claim has a row, at that attempt or a later one. -/
theorem Ledger.row_of_claim (h : Ledger sha256 s) (hc : c ∈ s.1) :
    ∃ row, s.2.rows.get? c.key = some row ∧ c.attemptCount ≤ row.attemptCount := by
  rcases hrow : s.2.rows.get? c.key with - | row
  · exact absurd rfl (h.unknown _ hrow c hc)
  · exact ⟨row, rfl, (h.bounded c hc).trans (h.counted _ _ hrow).ge⟩

section

variable [DecidableEq δ]

/-- The token of a spent claim is in no row. -/
theorem Spent.complete (hsha : Function.Injective sha256) (h : Ledger sha256 s) (hc : c ∈ s.1)
    (hsp : Spent c s.2) (transition : DeliveryTransition) : s.2.complete c.claimToken transition = s.2 := by
  rcases complete_cases s.2 c.claimToken transition with ⟨-, hsame⟩ | ⟨key, row, hrow, htok, -⟩
  · exact hsame
  · obtain ⟨hkey, hatt⟩ := h.claimed_of_held hsha hc hrow htok
    obtain ⟨row', hrow', hgone⟩ := hsp
    rw [hkey] at hrow'
    obtain rfl : row = row' := Option.some.inj (hrow.symm.trans hrow')
    rcases hgone with hlt | ⟨-, hnone⟩
    · omega
    · rw [htok] at hnone
      cases hnone

/-- **A claim is spent once its token was completed.** -/
theorem spent_of_complete (hsha : Function.Injective sha256) (h : Ledger sha256 s) (hc : c ∈ s.1)
    (transition : DeliveryTransition) : Spent c (s.2.complete c.claimToken transition) := by
  rcases complete_cases s.2 c.claimToken transition with ⟨hfree, hsame⟩ | ⟨key, row, hrow, htoken, hset⟩
  · rw [hsame]
    obtain ⟨row, hrow, hle⟩ := h.row_of_claim hc
    refine ⟨row, hrow, ?_⟩
    rcases hle.lt_or_eq with hlt | heq
    · exact .inl hlt
    · refine .inr ⟨heq, ?_⟩
      -- the token of this attempt would be the claim's
      by_contra hsome
      obtain ⟨token, htoken⟩ := Option.ne_none_iff_exists'.mp hsome
      obtain ⟨-, c', hc', hkey, hatt, htok⟩ := h.held _ row token hrow htoken
      have hsgl := h.single c' hc' c hc hkey (hatt.trans heq.symm)
      exact hfree _ row hrow (by rw [htoken, ← htok, hsgl])
  · obtain ⟨hkey, hatt⟩ := h.claimed_of_held hsha hc hrow htoken
    rw [hset]
    refine ⟨row.finish transition, ?_, .inr ⟨hatt, rfl⟩⟩
    rw [hkey]
    exact Dict.get?_set_self

end

/-- **A claim is spent once the message was claimed again.** -/
theorem spent_of_claim {log later : List (ClaimedOutboxMessage δ)} {o' : EvidenceOutbox δ}
    (h : Ledger sha256 (log, o)) (h' : Ledger sha256 (log ++ later, o'))
    {c c' : ClaimedOutboxMessage δ} (hc : c ∈ log) (hc' : c' ∈ later) (hkey : c'.key = c.key) :
    Spent c o' := by
  obtain ⟨row, hrow, -⟩ := h'.row_of_claim (List.mem_append_left _ hc)
  refine ⟨row, hrow, .inl ?_⟩
  have hcnt := h'.counted _ row hrow
  rw [List.countP_append] at hcnt
  have hltr : 0 < later.countP fun c' => c'.key = c.key :=
    List.countP_pos_iff.mpr ⟨c', hc', decide_eq_true hkey⟩
  have hbef := h.bounded c hc
  dsimp only at hbef
  omega

/-! ### Runs -/

section

variable [DecidableEq δ]

theorem run_append (ops later : List (Op δ)) :
    o.run sha256 (ops ++ later) = (o.run sha256 ops).run sha256 later := List.foldl_append

variable {log : List (ClaimedOutboxMessage δ)}

theorem Ledger.run (hsha : Function.Injective sha256)
    (h : Ledger sha256 (log, o)) (ops : List (Op δ)) :
    Ledger sha256 (log ++ o.claims sha256 ops, o.run sha256 ops) :=
  h.changes hsha (run_changes log ops)

/-- A claim whose token is completed within some calls is spent after them. -/
theorem spent_of_mem (hsha : Function.Injective sha256)
    (h : Ledger sha256 (log, o)) (hc : c ∈ log) {later : List (Op δ)}
    {transition : DeliveryTransition} (hmem : Op.complete c.claimToken transition ∈ later) :
    Spent c (o.run sha256 later) := by
  obtain ⟨before, after, rfl⟩ := List.append_of_mem hmem
  have hbef := h.run hsha before
  have hsp := spent_of_complete hsha hbef (List.mem_append_left _ hc) transition
  rw [run_append]
  exact Spent.changes (s := ([], _)) hsp (run_changes [] after)

/-- **The lease protocol.**  After any calls of any workers, and after any further ones:
a row stands at as many attempts as it was claimed, and no two claims have one token;
what was enqueued stays, and a row that is not pending stays as it is; the token of a
claim that was followed by another one of the same message, or by a completion, no longer
completes anything. -/
theorem outbox_lease_protocol (hsha : Function.Injective sha256) (ops later : List (Op δ)) :
    (∀ key row, (run sha256 {} ops).rows.get? key = some row →
        row.attemptCount = (claims sha256 {} ops).countP (fun c => c.key = key)
        ∧ ∃ row', ((run sha256 {} ops).run sha256 later).rows.get? key = some row'
          ∧ row'.schemaVersion = row.schemaVersion ∧ row'.kind = row.kind
          ∧ row'.content = row.content ∧ row'.createdAt = row.createdAt ∧ (row.state ≠ .pending → row' = row))
      ∧ ((claims sha256 {} ops).map ClaimedOutboxMessage.claimToken).Nodup ∧ ∀ c ∈ claims sha256 {} ops,
        ((∃ c' ∈ (run sha256 {} ops).claims sha256 later, c'.key = c.key)
          ∨ ∃ transition, Op.complete c.claimToken transition ∈ later) →
        ∀ transition, ((run sha256 {} ops).run sha256 later).complete c.claimToken transition
          = (run sha256 {} ops).run sha256 later := by
  have h := Ledger.start.run hsha ops
  have hlater := h.run hsha later
  refine ⟨fun key row hrow => ⟨h.counted key row hrow, ?_⟩, h.nodup, fun c hc hspent transition => ?_⟩
  · obtain ⟨row', hrow', hsame, hstays⟩ := changes_keep hsha h (run_changes _ later) hrow
    simp only [OutboxRow.envelope, MessageEnvelope.mk.injEq] at hsame
    exact ⟨row', hrow', hsame.1, hsame.2.1, hsame.2.2.2.1, hsame.2.2.2.2, hstays⟩
  · have hspent : Spent c ((run sha256 {} ops).run sha256 later) := by
      rcases hspent with ⟨c', hc', hkey⟩ | ⟨transition', hmem⟩
      · exact spent_of_claim h hlater hc hc' hkey
      · exact spent_of_mem hsha h hc hmem
    exact hspent.complete hsha hlater (List.mem_append_left _ hc) transition

/-- Two claims of one message, the second after the lease of the first. -/
theorem outbox_lease_protocol_superseded :
    let at0 : Datetime := ⟨2026, 1, 1, 0, 0, 0, 0, by decide⟩
    let at90 : Datetime := ⟨2026, 1, 1, 0, 1, 30, 0, by decide⟩
    let ops : List (Op ClaimPayload) :=
      [.enqueue ⟨['1'], .watch, ['k'], ['x'], at0⟩, .claimDue at0 10 60]
    let later : List (Op ClaimPayload) := [.claimDue at90 10 60]
    let token : ClaimPayload := ⟨['k'], 1, timestamp at0⟩
    let o := (run id {} ops).run id later
    (claims id {} ops).map ClaimedOutboxMessage.claimToken = [token]
      ∧ (o.rows.get? ['k']).map OutboxRow.attemptCount = some 2
      ∧ ∀ transition, o.complete token transition = o := by
  intro at0 at90 ops later token o
  have hclaims : (claims id {} ops).map ClaimedOutboxMessage.claimToken = [token] := by decide +kernel
  have hlater : ((run id {} ops).claims id later).map (fun c => c.key) = [['k']] := by decide +kernel
  refine ⟨hclaims, by decide +kernel, fun transition => ?_⟩
  have hc : token ∈ (claims id {} ops).map ClaimedOutboxMessage.claimToken := by simp [hclaims]
  obtain ⟨c, hc, htoken⟩ := List.mem_map.mp hc
  have hkeys : c.key = ['k'] := by
    have hmem : c.key ∈ (claims id {} ops).map (fun c => c.key) := List.mem_map_of_mem hc
    rw [show (claims id {} ops).map (fun c => c.key) = [['k']] by decide +kernel] at hmem
    exact List.mem_singleton.mp hmem
  have hc' : c.key ∈ ((run id {} ops).claims id later).map (fun c => c.key) := by
    rw [hlater, hkeys]
    exact List.mem_singleton_self _
  obtain ⟨c', hc', hkey⟩ := List.mem_map.mp hc'
  rw [← htoken]
  exact (outbox_lease_protocol Function.injective_id ops later).2.2 c hc (.inl ⟨c', hc', hkey⟩) transition

end

end EvidenceOutbox

end TraderAssist
