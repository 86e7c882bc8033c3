/-
TraderAssist/Outbox/DueTimes.lean

Due times and leases as instants.

`claim_due` compares the texts of two times.  A time on the full second has no fraction
in its text, so its `Z` stands against the `.` of another time in the same second and is
the greater one (`Datetime.Early`, `Datetime.Late`).  A call respects the instants
exactly where no such pair decides about a row (`claimDue_respects_instants`).
-/
import TraderAssist.Outbox.Lease

namespace TraderAssist

open Py Datetime

variable {δ : Type} {row : OutboxRow δ} {now : Text}

namespace EvidenceOutbox

variable [DecidableEq δ] {sha256 : ClaimPayload → δ} {o o' : EvidenceOutbox δ}

/-! ### What a call claims -/

/-- The claims of the selected rows are one for each, and a row that was not selected
stays as it is. -/
theorem claimRows_spec {expires : Datetime} {entries : List (Text × OutboxRow δ)} :
    ∀ {acc acc' : State δ}, entries.foldlM (claimRow sha256 now expires) acc = .ok acc' →
      acc'.1.map ClaimedOutboxMessage.key = acc.1.map ClaimedOutboxMessage.key ++ entries.map Prod.fst
      ∧ (∀ key, key ∉ entries.map Prod.fst → acc'.2.rows.get? key = acc.2.rows.get? key)
      ∧ ∀ key ∈ entries.map Prod.fst, ∃ row, acc'.2.rows.get? key = some row ∧ row.claimToken.isSome := by
  induction entries with
  | nil =>
    intro acc acc' h
    cases h
    exact ⟨(List.append_nil _).symm, fun _ _ => rfl, nofun⟩
  | cons entry entries ih =>
    intro acc acc' h
    obtain ⟨acc₁, hclm, hrest⟩ := of_bind h
    obtain ⟨hkeys, hoth, hcld⟩ := ih hrest
    obtain ⟨key₀, selected⟩ := entry
    obtain ⟨row, -, -, -, -, rfl⟩ := claimRow_ok hclm
    refine ⟨?_, fun key hkey => ?_, fun key hkey => ?_⟩
    · rw [hkeys, List.map_append, List.append_assoc]
      rfl
    · rw [List.map_cons, List.mem_cons, not_or] at hkey
      rw [hoth key hkey.2]
      exact Dict.get?_set_ne (Ne.symm hkey.1)
    · by_cases hin : key ∈ entries.map Prod.fst
      · exact hcld key hin
      · -- claimed here, and not selected again
        obtain rfl : key = key₀ := by
          rcases List.mem_cons.mp hkey with heq | hmem
          · exact heq
          · exact absurd hmem hin
        exact ⟨_, (hoth key hin).trans Dict.get?_set_self, rfl⟩

variable {claimed : List (ClaimedOutboxMessage δ)}

/-- **What a call that returns claims**: the rows it selected. -/
theorem claimDue_spec {now : Datetime} {limit lease : ℕ}
    (h : o.claimDue sha256 now limit lease = .ok (claimed, o')) :
    claimed.map ClaimedOutboxMessage.key = (o.selectDue (timestamp now) limit).map Prod.fst
      ∧ (∀ key, key ∉ claimed.map ClaimedOutboxMessage.key → o'.rows.get? key = o.rows.get? key)
      ∧ ∀ key ∈ claimed.map ClaimedOutboxMessage.key, ∃ row, o'.rows.get? key = some row
        ∧ row.claimToken.isSome := by
  unfold claimDue at h
  split_ifs at h
  rcases hexp : now.addSeconds lease with - | expires
  · rw [hexp] at h
    cases h
  · rw [hexp] at h
    obtain ⟨hkeys, hoth, hcld⟩ := claimRows_spec h
    rw [hkeys]
    exact ⟨rfl, hoth, hcld⟩

omit [DecidableEq δ] in
theorem mem_selectDue {limit : ℕ} {key : Text}
    (h : (key, row) ∈ o.selectDue now limit) : o.rows.get? key = some row ∧ row.due now = true := by
  have hmem := mem_sortBy.mp (List.mem_of_mem_take h)
  rw [List.mem_filter] at hmem
  exact ⟨Dict.mem_entries.mp hmem.1, hmem.2⟩

omit [DecidableEq δ] in
/-- With a limit that covers the table every due row is selected. -/
theorem mem_selectDue_of_due {limit : ℕ} (hlim : o.rows.entries.length ≤ limit)
    {key : Text} (hrow : o.rows.get? key = some row)
    (hdue : row.due now = true) : (key, row) ∈ o.selectDue now limit := by
  have hlen : (sortBy claimOrder (o.rows.entries.filter fun entry => entry.2.due now)).length
      ≤ limit := by
    rw [length_sortBy]
    exact (List.length_filter_le _ _).trans hlim
  rw [selectDue, List.take_of_length_le hlen, mem_sortBy, List.mem_filter]
  exact ⟨Dict.mem_entries.mpr hrow, hdue⟩

/-! ### Instants -/

/-- What a call at `now` that made the claims `claimed` has to respect: no lease that
still runs, no row whose time is to come, and with a limit that covers the table no row
that is due is left. -/
structure RespectsInstants (o : EvidenceOutbox δ) (now : Datetime) (limit : ℕ)
    (claimed : List (ClaimedOutboxMessage δ)) (o' : EvidenceOutbox δ) : Prop where
  lease : ∀ c ∈ claimed, ∀ row, o.rows.get? c.key = some row → row.claimToken.isSome →
    ∀ expires, row.claimExpiresAt = some expires → ¬ now < expires
  time : ∀ c ∈ claimed, ∀ row, o.rows.get? c.key = some row → ¬ now < row.nextAttemptAt
  complete : o.rows.entries.length ≤ limit → ∀ key row, o'.rows.get? key = some row →
    row.state = .pending → row.claimToken = none → ¬ row.nextAttemptAt ≤ now

/-- No fraction of a second misplaces a pending row: the next attempt of one without
claim does not stand against `now` as a full second against a fraction, in either
direction, and a claimed one that the texts call due is not early. -/
def TextInOrder (o : EvidenceOutbox δ) (now : Datetime) : Prop :=
  ∀ key row, o.rows.get? key = some row → row.state = .pending →
    (row.claimToken = none → ¬ Early row.nextAttemptAt now ∧ ¬ Late row.nextAttemptAt now)
    ∧ (row.claimToken.isSome → row.due (timestamp now) = true →
        ¬ Early row.nextAttemptAt now
        ∧ ∀ expires, row.claimExpiresAt = some expires → ¬ Early expires now)

omit [DecidableEq δ] in
/-- A text that is not after `now` is the text of a time to come exactly if it is early. -/
theorem lt_iff_early {a now : Datetime} (h : timestamp a ≤ timestamp now) : now < a ↔ Early a now := by
  rcases isoText_le_iff.mp h with ⟨hle, -⟩ | herl
  · exact ⟨fun hlt => absurd hlt hle.not_gt, Early.lt⟩
  · exact ⟨fun _ => herl, Early.lt⟩

end EvidenceOutbox

theorem OutboxRow.due_iff : row.due now = true ↔
    row.state = .pending ∧ timestamp row.nextAttemptAt ≤ now ∧ row.free now = true := by
  simp only [OutboxRow.due, Bool.and_eq_true, decide_eq_true_eq, and_assoc]

theorem OutboxRow.free_of_none (h : row.claimToken = none) :
    row.free now = true := by
  rw [OutboxRow.free, h]
  rfl

/-- A claimed row is free once the text of its lease is not after `now`. -/
theorem OutboxRow.expired_of_free (h : row.free now = true)
    (hcld : row.claimToken.isSome) {expires : Datetime} (he : row.claimExpiresAt = some expires) :
    timestamp expires ≤ now := by
  rw [Option.isSome_iff_ne_none] at hcld
  simpa [OutboxRow.free, hcld, he] using h

namespace EvidenceOutbox

variable [DecidableEq δ] {sha256 : ClaimPayload → δ} {o o' : EvidenceOutbox δ}

/-- **Leases and due times are respected as instants where the texts are in order**, and
with a limit that covers the table only there. -/
theorem claimDue_respects_instants {now : Datetime} {limit lease : ℕ}
    (hcall : o.claimDue sha256 now limit lease = .ok (claimed, o')) :
    (TextInOrder o now → RespectsInstants o now limit claimed o')
      ∧ (o.rows.entries.length ≤ limit → RespectsInstants o now limit claimed o' → TextInOrder o now) := by
  obtain ⟨hkeys, hother, hheld⟩ := claimDue_spec hcall
  -- a claimed row is one that was due
  have hdue : ∀ c ∈ claimed, ∀ row, o.rows.get? c.key = some row → row.due (timestamp now) = true := by
    intro c hc row hrow
    have hmem := hkeys ▸ List.mem_map_of_mem hc
    obtain ⟨⟨key, row'⟩, hsel, hkey⟩ := List.mem_map.mp hmem
    obtain ⟨hrow', hdue⟩ := mem_selectDue hsel
    rw [show key = c.key from hkey, hrow] at hrow'
    exact Option.some.inj hrow' ▸ hdue
  -- and with a limit that covers the table every due row was claimed
  have hall : o.rows.entries.length ≤ limit → ∀ key row, o.rows.get? key = some row →
      row.due (timestamp now) = true → ∃ c ∈ claimed, c.key = key := by
    intro hlimit key row hrow hrowdue
    have hmem := hkeys ▸ List.mem_map_of_mem (f := Prod.fst) (mem_selectDue_of_due hlimit hrow hrowdue)
    exact List.mem_map.mp hmem
  constructor
  · intro horder
    refine ⟨fun c hc row hrow htoken expires he hlt => ?_, fun c hc row hrow hlt => ?_,
      fun hlimit key row hrow hpending hnone hle => ?_⟩
    · have hd := hdue c hc row hrow
      obtain ⟨hpending, -, hfree⟩ := OutboxRow.due_iff.mp hd
      have hexpired := OutboxRow.expired_of_free hfree htoken he
      exact ((horder _ row hrow hpending).2 htoken hd).2 expires he ((lt_iff_early hexpired).mp hlt)
    · have hd := hdue c hc row hrow
      obtain ⟨hpending, htext, -⟩ := OutboxRow.due_iff.mp hd
      have hearly := (lt_iff_early htext).mp hlt
      rcases htoken : row.claimToken with - | token
      · exact ((horder _ row hrow hpending).1 htoken).1 hearly
      · exact ((horder _ row hrow hpending).2 (by rw [htoken]; rfl) hd).1 hearly
    · -- a row without claim was not touched, so it was due before
      by_cases hkey : key ∈ claimed.map ClaimedOutboxMessage.key
      · obtain ⟨row', hrow', hsome⟩ := hheld key hkey
        rw [hrow] at hrow'
        rw [← Option.some.inj hrow', hnone] at hsome
        cases hsome
      · rw [hother key hkey] at hrow
        have hlate := ((horder key row hrow hpending).1 hnone).2
        have htext := isoText_le_iff.mpr (.inl ⟨hle, hlate⟩)
        obtain ⟨c, hc, hck⟩ := hall hlimit key row hrow
          (OutboxRow.due_iff.mpr ⟨hpending, htext, OutboxRow.free_of_none hnone⟩)
        exact hkey (hck ▸ List.mem_map_of_mem hc)
  · intro hlimit hrespects key row hrow hpending
    refine ⟨fun hnone => ⟨fun hearly => ?_, fun hlate => ?_⟩, fun htoken hd =>
      ⟨fun hearly => ?_, fun expires he hearly => ?_⟩⟩
    · have htext := isoText_le_iff.mpr (.inr hearly)
      obtain ⟨c, hc, rfl⟩ := hall hlimit key row hrow
        (OutboxRow.due_iff.mpr ⟨hpending, htext, OutboxRow.free_of_none hnone⟩)
      exact hrespects.time c hc row hrow hearly.lt
    · -- a late row is not claimed and stays
      have hnot : key ∉ claimed.map ClaimedOutboxMessage.key := by
        intro hmem
        obtain ⟨c, hc, rfl⟩ := List.mem_map.mp hmem
        rcases isoText_le_iff.mp (OutboxRow.due_iff.mp (hdue c hc row hrow)).2.1 with ⟨-, hno⟩ | hearly
        · exact hno hlate
        · exact hearly.2.2 hlate.2.1
      exact hrespects.complete hlimit key row ((hother key hnot).trans hrow) hpending hnone hlate.lt.le
    · obtain ⟨c, hc, rfl⟩ := hall hlimit key row hrow hd
      exact hrespects.time c hc row hrow hearly.lt
    · obtain ⟨c, hc, rfl⟩ := hall hlimit key row hrow hd
      exact hrespects.lease c hc row hrow htoken expires he hearly.lt

/-- Half a second too early: a retry due half a second after `now` is claimed at `now`. -/
theorem claimDue_early :
    let now : Datetime := ⟨2026, 1, 1, 0, 0, 0, 0, by decide⟩
    let next : Datetime := ⟨2026, 1, 1, 0, 0, 0, 500000, by decide⟩
    let o : EvidenceOutbox ClaimPayload := run id {} [.enqueue ⟨['1'], .watch, ['k'], ['x'], next⟩]
    (o.rows.get? ['k']).map OutboxRow.nextAttemptAt = some next ∧ now < next
      ∧ (o.claimDue id now 10 60).toOption.map (fun result => result.1.map ClaimedOutboxMessage.key)
        = some [['k']] := by
  decide +kernel

/-- Times on full seconds are in order: the due message is claimed, the later one is not. -/
theorem claimDue_respects_instants_seconds :
    let now : Datetime := ⟨2026, 1, 1, 0, 0, 1, 0, by decide⟩
    let later : Datetime := ⟨2026, 1, 1, 0, 0, 2, 0, by decide⟩
    let o : EvidenceOutbox ClaimPayload := run id {}
      [.enqueue ⟨['1'], .watch, ['k'], ['x'], now⟩, .enqueue ⟨['1'], .watch, ['l'], ['y'], later⟩]
    ∃ claimed o', o.claimDue id now 10 60 = .ok (claimed, o')
      ∧ claimed.map ClaimedOutboxMessage.key = [['k']] ∧ RespectsInstants o now 10 claimed o' := by
  intro now later o
  have hrows : ∀ key row, o.rows.get? key = some row → row.claimToken = none
      ∧ ¬ Early row.nextAttemptAt now ∧ ¬ Late row.nextAttemptAt now := by
    intro key row hrow
    have hall : ∀ entry ∈ o.rows.entries, entry.2.claimToken = none
        ∧ ¬ Early entry.2.nextAttemptAt now ∧ ¬ Late entry.2.nextAttemptAt now := by decide +kernel
    exact hall (key, row) (Dict.mem_entries.mpr hrow)
  have horder : TextInOrder o now := fun key row hrow _ =>
    ⟨fun _ => (hrows key row hrow).2, fun htoken => by simp [(hrows key row hrow).1] at htoken⟩
  have hkeys : (o.claimDue id now 10 60).toOption.map
      (fun result => result.1.map ClaimedOutboxMessage.key) = some [['k']] := by decide +kernel
  rcases hcall : o.claimDue id now 10 60 with err | ⟨claimed, o'⟩
  · rw [hcall] at hkeys
    cases hkeys
  · rw [hcall] at hkeys
    exact ⟨claimed, o', rfl, Option.some.inj hkeys, (claimDue_respects_instants hcall).1 horder⟩

end EvidenceOutbox

end TraderAssist
