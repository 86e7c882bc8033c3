/-
TraderAssist/Data/Chunking.lean

Chunking does not matter.

A history that one call admits is admitted by successive calls on consecutive chunks of it, with the
same bars, rows that are alike, the same last opens and the same failed markets
(`chunking_does_not_matter`).  The rows follow from `pairs_admitLoop`, since the plain loop has no
boundaries.  The failed markets need an argument: a chunk may clear a failure that the
whole call would not clear, were the later bars to leave a gap.  They do not, since
they come in order after a stored row, and none is beyond the last one by more than a step.
-/
import TraderAssist.Data.Alike

namespace TraderAssist

open Py ClosedBarStore DataAuthority

section

variable {δ : Type} {s s' : DataAuthority δ} {bar : ClosedBar δ} {m : Text} {x : ℕ}

/-! ### Last opens are stored -/

/-- Every last open in memory is that of a stored row. -/
def LastStored (s : DataAuthority δ) : Prop :=
  ∀ m o, s.lastOpen.get? m = some o → s.store.Has m o

/-- The row at `x` is stored, and so is the row of the last open. -/
def ReachedRow (m : Text) (x : ℕ) (s : DataAuthority δ) : Prop :=
  s.store.Has m x ∧ ∃ last, s.lastOpen.get? m = some last ∧ s.store.Has m last

theorem RowAdded.has (h : RowAdded bar s s') (hx : s.store.Has m x) : s'.store.Has m x :=
  h.fives.has.mpr (.inl hx)

/-- The last open after a row is stored. -/
theorem RowAdded.reached (h : RowAdded bar s s') (hlast : LastStored s) :
    ReachedRow bar.marketId bar.openTimeMs s' := by
  have hnew := h.fives.has.mpr (.inr ⟨rfl, rfl⟩)
  refine ⟨hnew, max bar.openTimeMs ((s.lastOpen.get? bar.marketId).getD bar.openTimeMs), ?_, ?_⟩
  · rw [h.lastOpen, advance, Dict.get?_set, if_pos rfl]
  · rcases max_choice bar.openTimeMs ((s.lastOpen.get? bar.marketId).getD bar.openTimeMs) with hmax | hmax
    · rw [hmax]
      exact hnew
    · rw [hmax]
      rcases hget : s.lastOpen.get? bar.marketId with - | last
      · exact hnew
      · exact h.has (hlast _ _ hget)

theorem LastStored.added (h : LastStored s) (hrow : RowAdded bar s s') : LastStored s' := by
  intro m o hget
  by_cases hm : m = bar.marketId
  · obtain ⟨-, last, hlast, hhas⟩ := hrow.reached h
    rw [hm, hlast] at hget
    rw [hm, ← Option.some.inj hget]
    exact hhas
  · rw [hrow.lastOpen, advance, Dict.get?_set_ne (Ne.symm hm)] at hget
    exact hrow.has (h m o hget)

theorem ReachedRow.added (h : ReachedRow m x s) (hlast : LastStored s) (hrow : RowAdded bar s s')
    (hm : bar.marketId = m) : ReachedRow m x s' :=
  ⟨hrow.has h.1, hm ▸ (hrow.reached hlast).2⟩

/-- After a stored row, a row that is not beyond the last one by more than a step leaves no gap. -/
theorem gapless_added (hgapless : Gapless fiveMinutesMs (s.store.Has m)) (hx : ReachedRow m x s)
    (hrow : RowAdded bar s s') (hm : bar.marketId = m) (hle : x ≤ bar.openTimeMs)
    (hgap : ∀ prior ∈ s.lastOpen.get? m, bar.openTimeMs ≤ prior + fiveMinutesMs) :
    Gapless fiveMinutesMs (s'.store.Has m) := by
  obtain ⟨hlow, last, hlast, hhigh⟩ := hx
  have hnew : s'.store.Has m bar.openTimeMs := hrow.fives.has.mpr (.inr ⟨hm.symm, rfl⟩)
  refine (hgapless.insert hlow hhigh hnew.dvd (by omega) (hgap last hlast)).congr fun o => ?_
  rw [hrow.fives.has]
  exact or_congr_right (and_iff_right hm.symm)

variable [DecidableEq δ] {R : RegistryRoot δ} {sha256 : EvidencePreimage δ → δ} {market : RegistryMarket}
  {receivedAt : Option Datetime}

/-! ### The loop -/

/-- The arrivals of bars that are not interrupted. -/
def uncut (bars : List (ClosedBar δ)) : List (Arrival δ) := bars.map fun bar => ⟨bar, none⟩

/-- While the bars of a call are admitted. -/
structure Advancing (before : DataAuthority δ) (m : Text) (bars : List (ClosedBar δ))
    (l : List (Arrival δ)) (s : DataAuthority δ) : Prop where
  arrivals : ∀ a ∈ l, a.bar.marketId = m ∧ a.bar.interval = .m5 ∧ a.bar ∈ bars
  lastStored : LastStored s
  failed : s.failed = before.failed
  reached : ∀ b ∈ bars, (∃ a ∈ l, a.bar = b) ∨ ReachedRow m b.openTimeMs s
  gapless : ∀ x, ReachedRow m x before → (∀ b ∈ bars, x ≤ b.openTimeMs) → ReachedRow m x s
    ∧ (Gapless fiveMinutesMs (before.store.Has m) → Gapless fiveMinutesMs (s.store.Has m))

variable {bars : List (ClosedBar δ)}

omit [DecidableEq δ] in
theorem Advancing.added {before : DataAuthority δ} {a : Arrival δ} {l : List (Arrival δ)}
    (h : Advancing before m bars (a :: l) s) (hrow : RowAdded a.bar s s') (hgap : s.NoGap a.bar) :
    Advancing before m bars l s' := by
  obtain ⟨hmkt, -, hmem⟩ := h.arrivals a (.head _)
  rw [NoGap, hmkt] at hgap
  refine ⟨fun b hb => h.arrivals b (.tail _ hb), h.lastStored.added hrow,
    hrow.failed.trans h.failed, fun b hb => ?_, fun x hx hle => ?_⟩
  · rcases h.reached b hb with ⟨c, hc, rfl⟩ | hb
    · rcases List.mem_cons.mp hc with rfl | hc
      · exact .inr (hmkt ▸ hrow.reached h.lastStored)
      · exact .inl ⟨c, hc, rfl⟩
    · exact .inr (hb.added h.lastStored hrow hmkt)
  · obtain ⟨hrch, hgapless⟩ := h.gapless x hx hle
    exact ⟨hrch.added h.lastStored hrow hmkt,
      fun hg => gapless_added (hgapless hg) hrch hrow hmkt (hle _ hmem) hgap⟩

/-- What the loop of a call reaches. -/
theorem admitLoop_advances (hbars : ∀ b ∈ bars, b.marketId = market.marketId ∧ b.interval = .m5)
    (hlast : LastStored s) : Ends (admitLoop R sha256 market (uncut bars) Dict.empty) s
      (fun _ s' => Advancing s market.marketId bars [] s') fun _ _ => True := by
  have hkept : KeptByRows R sha256 market True (fun l _ s₁ => Advancing s market.marketId bars l s₁)
      fun _ => True := by
    refine ⟨fun _ _ => trivial, fun h₁ a ha => ⟨(h₁.arrivals a ha).1, (h₁.arrivals a ha).2.1⟩,
      fun _ _ => trivial, fun _ _ => trivial, fun _ _ => trivial,
      fun _ d h₁ => ⟨h₁.arrivals, h₁.lastStored, h₁.failed, h₁.reached, h₁.gapless⟩, fun h₁ hgap => ?_⟩
    exact (admitRow_effect (h₁.arrivals _ (.head _)).2.1).mono
      (fun _ s₂ h₂ => h₁.added h₂.1 hgap) fun _ _ _ _ => trivial
  refine (hkept.admitLoop ⟨fun a ha => ?_, hlast, rfl, fun b hb => .inl ⟨⟨b, none⟩, List.mem_map_of_mem hb, rfl⟩,
    fun x hx _ => ⟨hx, id⟩⟩).mono (fun _ s₁ ⟨_, h₁⟩ => h₁) fun _ _ h => h
  obtain ⟨b, hb, rfl⟩ := List.mem_map.mp ha
  exact ⟨(hbars b hb).1, (hbars b hb).2, hb⟩

omit [DecidableEq δ] in
/-- The contiguity test at the end of a call changes the failed markets only. -/
theorem clearFailure_eq (s : DataAuthority δ) (m : Text) : s.clearFailureIfContiguous m
    = { s with failed := if s.store.isContiguous5m m then s.failed.erase m else s.failed } := by
  rw [clearFailureIfContiguous]
  split_ifs
  · rfl
  · rfl

omit [DecidableEq δ] in
theorem arrivals_uncut (accepted : List (ClosedBar δ)) :
    (accepted.mapIdx fun _ bar => (⟨bar, none⟩ : Arrival δ)) = uncut accepted := by
  rw [uncut, List.mapIdx_eq_zipIdx_map]
  refine List.ext_getElem (by simp) fun i hi hi' => ?_
  simp

variable {accepted : List (ClosedBar δ)}

/-- A call without interruptions: the loop and the contiguity test. -/
theorem admitRestHistory_uncut {snapshot : List Payload}
    (hacc : acceptedHistory sha256 market snapshot receivedAt = .ok accepted) :
    admitRestHistory R sha256 market snapshot receivedAt (fun _ => none) s = .ok bars s'
      ↔ ∃ s₁, admitLoop R sha256 market (uncut accepted) Dict.empty s = .ok bars s₁
        ∧ s' = s₁.clearFailureIfContiguous market.marketId := by
  rw [← outcome_eq_ok, admitRestHistory, hacc]
  show (outcome (admitLoop R sha256 market (accepted.mapIdx fun _ bar => ⟨bar, none⟩) Dict.empty >>=
    fun output => modify (fun s' => s'.clearFailureIfContiguous market.marketId) >>= fun _ => pure output) s
      = .ok (bars, s')) ↔ _
  rw [arrivals_uncut, outcome_bind, bind_eq_ok]
  constructor
  · rintro ⟨⟨bars', s₁⟩, hloop, h⟩
    obtain ⟨rfl, rfl⟩ := Prod.mk.inj (Except.ok.inj h)
    exact ⟨s₁, outcome_eq_ok.mp hloop, rfl⟩
  · rintro ⟨s₁, hloop, rfl⟩
    exact ⟨(bars, s₁), outcome_eq_ok.mpr hloop, rfl⟩

/-! ### Chunks -/

variable (R sha256) in
/-- Successive calls on chunks. -/
def admitChunks (market : RegistryMarket) (receivedAt : Option Datetime) :
    List (List Payload) → DataCall δ (List (ClosedBar δ))
  | [] => pure []
  | chunk :: chunks => do
    let bars ← admitRestHistory R sha256 market chunk receivedAt fun _ => none
    let more ← admitChunks market receivedAt chunks
    pure (bars ++ more)

variable {chunks : List (List Payload)}

theorem admitChunks_cons {chunk : List Payload} {s₁ : DataAuthority δ} {bars more : List (ClosedBar δ)}
    (h : admitRestHistory R sha256 market chunk receivedAt (fun _ => none) s = .ok bars s₁)
    (h' : admitChunks R sha256 market receivedAt chunks s₁ = .ok more s') :
    admitChunks R sha256 market receivedAt (chunk :: chunks) s = .ok (bars ++ more) s' := by
  rw [← outcome_eq_ok, admitChunks, outcome_bind, outcome_eq_ok.mpr h]
  show outcome (admitChunks R sha256 market receivedAt chunks >>= fun more => pure (bars ++ more)) s₁ = _
  rw [outcome_bind, outcome_eq_ok.mpr h']
  rfl

/-- The plain loop over bars in two parts. -/
theorem admitEach_split {l l' : List (ClosedBar δ)}
    (h : admitEach R sha256 market (uncut (l ++ l')) s = .ok bars s') :
    ∃ bars₁ bars₂ s₁, admitEach R sha256 market (uncut l) s = .ok bars₁ s₁
      ∧ admitEach R sha256 market (uncut l') s₁ = .ok bars₂ s' ∧ bars = bars₁ ++ bars₂ := by
  rw [← outcome_eq_ok, uncut, List.map_append, admitEach_append, outcome_bind] at h
  obtain ⟨⟨bars₁, s₁⟩, h₁, h⟩ := of_bind h
  rw [outcome_bind] at h
  obtain ⟨⟨bars₂, s₂⟩, h₂, h⟩ := of_bind h
  obtain ⟨rfl, rfl⟩ := Prod.mk.inj (Except.ok.inj h)
  exact ⟨bars₁, bars₂, s₁, outcome_eq_ok.mp h₁, outcome_eq_ok.mp h₂, rfl⟩

/-- Before the first bar of the rest, or after it: a stored row comes before the rest, or
there is no rest. -/
def Underway (m : Text) (rest : List (ClosedBar δ)) (s : DataAuthority δ) : Prop :=
  (∃ x, ReachedRow m x s ∧ ∀ b ∈ rest, x ≤ b.openTimeMs) ∨ rest = []

/-- **The chunks follow the plain loop.** -/
theorem admitChunks_follow (hsha : Function.Injective sha256) {parts : List (List (ClosedBar δ))}
    (hparts : List.Forall₂ (fun chunk part => acceptedHistory sha256 market chunk receivedAt = .ok part) chunks parts) :
    ∀ (c r r' : DataAuthority δ) (bars : List (ClosedBar δ)), c.Alike r → LastStored c →
      parts.flatten.Pairwise (fun a b => a.openTimeMs ≤ b.openTimeMs) →
      (Underway market.marketId parts.flatten c ∨ ∃ first rest, parts = first :: rest ∧ first ≠ []) →
      admitEach R sha256 market (uncut parts.flatten) r = .ok bars r' →
      ∃ c', admitChunks R sha256 market receivedAt chunks c = .ok bars c' ∧ c'.Alike r'
        ∧ c'.failed = (if chunks = [] then c.failed
          else if c'.store.isContiguous5m market.marketId then c.failed.erase market.marketId else c.failed)
        ∧ (chunks = [] → c' = c)
        ∧ (Underway market.marketId parts.flatten c → Gapless fiveMinutesMs (c.store.Has market.marketId) →
          Gapless fiveMinutesMs (c'.store.Has market.marketId)) := by
  induction hparts with
  | nil =>
    intro c r r' bars h _ _ _ hr
    obtain ⟨rfl, rfl⟩ : [] = bars ∧ r = r' := EStateM.Result.ok.inj hr
    exact ⟨c, rfl, h, rfl, fun _ => rfl, fun _ hg => hg⟩
  | @cons chunk part chunks parts hpart _ ih =>
    intro c r r' bars h hlast hsrt hcond hr
    obtain ⟨-, hrest, hbef⟩ := List.pairwise_append.mp hsrt
    obtain ⟨bars₁, bars₂, r₁, hr₁, hr₂, rfl⟩ := admitEach_split hr
    obtain ⟨hbars, -⟩ := acceptedHistory_ok hpart
    -- the chunk itself
    have hfives : ∀ a ∈ uncut part, a.bar.interval = .m5 ∧ a.cut = none := by
      intro a ha
      obtain ⟨b, hb, rfl⟩ := List.mem_map.mp ha
      exact ⟨(hbars b hb).2, rfl⟩
    have hmkts : ∀ a ∈ uncut part, a.bar.marketId = market.marketId := by
      intro a ha
      obtain ⟨b, hb, rfl⟩ := List.mem_map.mp ha
      exact (hbars b hb).1
    obtain ⟨out, c₁, hc₁, rfl, h₁⟩ :=
      (pairs_admitLoop hsha (uncut part) hfives hmkts c r Dict.empty h .empty).of_ok_right hr₁
    have hadv := (admitLoop_advances hbars hlast).of_ok hc₁
    have hcall := (admitRestHistory_uncut hpart).mpr ⟨c₁, hc₁, rfl⟩
    rw [clearFailure_eq, hadv.failed] at hcall
    generalize hc₂ : ({ c₁ with failed := (if c₁.store.isContiguous5m market.marketId then
      c.failed.erase market.marketId else c.failed) } : DataAuthority δ) = c₂ at hcall
    have hsto : c₂.store = c₁.store := by rw [← hc₂]
    have hfail : c₂.failed = (if c₁.store.isContiguous5m market.marketId then
        c.failed.erase market.marketId else c.failed) := by
      rw [← hc₂]
    have h₂ : c₂.Alike r₁ := by
      rw [← hc₂]
      exact ⟨h₁.store, h₁.registry, h₁.lastOpen, h₁.candidates⟩
    have hlast₂ : LastStored c₂ := by
      rw [← hc₂]
      exact hadv.lastStored
    have hrch₂ : ∀ x, ReachedRow market.marketId x c₁ → ReachedRow market.marketId x c₂ := by
      rw [← hc₂]
      exact fun x hx => hx
    have hemp : part = [] → c₁ = c := by
      rintro rfl
      rw [uncut, List.map_nil, admitLoop] at hc₁
      exact (EStateM.Result.ok.inj hc₁).2.symm
    -- the rest is under way
    have hund : Underway market.marketId parts.flatten c₂ := by
      rcases hpart' : part with - | ⟨b, l⟩
      · rcases hcond with (⟨x, hx, hle⟩ | hnil) | ⟨first, rest, heq, hne⟩
        · refine .inl ⟨x, hrch₂ x ?_, fun b hb => hle b (List.mem_append_right _ hb)⟩
          rw [hemp hpart']
          exact hx
        · exact .inr (List.append_eq_nil_iff.mp hnil).2
        · exact absurd ((List.cons.inj heq).1.symm.trans hpart') hne
      · have hb : b ∈ part := by
          rw [hpart']
          exact .head _
        refine .inl ⟨b.openTimeMs, hrch₂ _ ((hadv.reached b hb).resolve_left ?_), fun d hd => hbef b hb d hd⟩
        rintro ⟨a, ha, -⟩
        cases ha
    obtain ⟨c', hc', h', hfail', hnone, hgap'⟩ := ih c₂ r₁ r' bars₂ h₂ hlast₂ hrest (.inl hund) hr₂
    refine ⟨c', admitChunks_cons hcall hc', h', ?_, fun hnil => absurd hnil (List.cons_ne_nil _ _), fun hund₀ hg => ?_⟩
    · rw [if_neg (List.cons_ne_nil _ _), hfail', hfail]
      by_cases hlastChunk : chunks = []
      · rw [if_pos hlastChunk, hnone hlastChunk, hsto]
      · rw [if_neg hlastChunk]
        by_cases hcont : c'.store.isContiguous5m market.marketId
        · split_ifs
          · rw [Finset.erase_idem]
          · rfl
        · -- no gap after the chunk would be no gap at the end
          rw [if_neg hcont, if_neg hcont, if_neg]
          intro hcont₁
          refine hcont (isContiguous5m_iff.mpr (hgap' hund ?_))
          rw [hsto]
          exact isContiguous5m_iff.mp hcont₁
    · refine hgap' hund ?_
      rw [hsto]
      rcases hund₀ with ⟨x, hx, hle⟩ | hnil
      · exact (hadv.gapless x hx fun b hb => hle b (List.mem_append_left _ hb)).2 hg
      · rw [hemp (List.append_eq_nil_iff.mp hnil).1]
        exact hg

/-! ### Accepted histories of chunks -/

omit [DecidableEq δ] in
/-- The accepted history of candles in order. -/
theorem acceptedHistory_sorted {snapshot : List Payload}
    (hsrt : snapshot.Pairwise fun p q => p.sortKey ≤ q.sortKey) :
    acceptedHistory sha256 market snapshot receivedAt = .ok accepted
      ↔ ∃ bars, snapshot.mapM (fun payload => providerBar sha256 market payload receivedAt
          "hyperliquid-public-candleSnapshot-history".toList) = .ok bars
        ∧ accepted = bars.filter fun bar => (bar.closeTimeMs : ℤ) < bar.receivedAt.timestampMs := by
  rw [acceptedHistory, sortBy_eq_self hsrt, bind_eq_ok]
  exact exists_congr fun bars => and_congr_right fun _ => ⟨fun h => (Except.ok.inj h).symm, fun h => by rw [h]; rfl⟩

omit [DecidableEq δ] in
/-- The accepted bars of the whole are those of the chunks. -/
theorem acceptedHistory_flatten (hsrt : chunks.flatten.Pairwise fun p q => p.sortKey ≤ q.sortKey)
    (h : acceptedHistory sha256 market chunks.flatten receivedAt = .ok accepted) :
    ∃ parts, List.Forall₂ (fun chunk part => acceptedHistory sha256 market chunk receivedAt = .ok part)
      chunks parts ∧ accepted = parts.flatten := by
  induction chunks generalizing accepted with
  | nil =>
    obtain ⟨bars, hbars, rfl⟩ := (acceptedHistory_sorted hsrt).mp h
    cases hbars
    exact ⟨[], .nil, rfl⟩
  | cons chunk chunks ih =>
    rw [List.flatten_cons] at hsrt h
    obtain ⟨bars, hbars, rfl⟩ := (acceptedHistory_sorted hsrt).mp h
    obtain ⟨hfst, hrest, -⟩ := List.pairwise_append.mp hsrt
    rw [List.mapM_append] at hbars
    obtain ⟨bars₁, hbars₁, hbars⟩ := of_bind hbars
    obtain ⟨bars₂, hbars₂, hbars⟩ := of_bind hbars
    cases hbars
    obtain ⟨parts, hparts, hflat⟩ := ih hrest ((acceptedHistory_sorted hrest).mpr ⟨bars₂, hbars₂, rfl⟩)
    refine ⟨_ :: parts, .cons ((acceptedHistory_sorted hfst).mpr ⟨bars₁, hbars₁, rfl⟩) hparts, ?_⟩
    rw [List.filter_append, List.flatten_cons, hflat]

omit [DecidableEq δ] in
/-- Where no candle of the first chunk is closed, none is. -/
theorem accepted_of_first {chunk : List Payload} (hne : chunk ≠ [])
    (hsrt : (chunk ++ chunks.flatten).Pairwise fun p q => p.sortKey ≤ q.sortKey)
    (h : acceptedHistory sha256 market (chunk ++ chunks.flatten) receivedAt = .ok accepted)
    (hfst : acceptedHistory sha256 market chunk receivedAt = .ok []) : accepted = [] := by
  obtain ⟨bars, hbars, rfl⟩ := (acceptedHistory_sorted hsrt).mp h
  obtain ⟨bars₁, hbars₁, hnil⟩ := (acceptedHistory_sorted (List.pairwise_append.mp hsrt).1).mp hfst
  have hmade := forall₂_of_mapM hbars
  have hmade₁ := forall₂_of_mapM hbars₁
  cases hmade₁ with
  | nil => exact absurd rfl hne
  | @cons p b l bars' hb _ =>
    -- the first bar is not closed, and every bar closes with it or later
    have hopen : ¬(b.closeTimeMs : ℤ) < b.receivedAt.timestampMs := by
      intro hclo
      rw [List.filter_cons, if_pos (decide_eq_true hclo)] at hnil
      cases hnil
    refine List.filter_eq_nil_iff.mpr fun c hc => ?_
    obtain ⟨q, hq, hcq⟩ := forall₂_mem_right hmade hc
    obtain ⟨-, hm5, hbopen, hbtime, -⟩ := providerBar_ok hb
    obtain ⟨-, hm5', hcopen, hctime, -⟩ := providerBar_ok hcq
    have hle : p.sortKey ≤ q.sortKey := by
      rcases List.mem_cons.mp hq with rfl | hq
      · exact le_rfl
      · exact (List.pairwise_cons.mp hsrt).1 q hq
    have hcls := b.closes
    have hcls' := c.closes
    rw [hm5] at hcls
    rw [hm5'] at hcls'
    have htime : c.receivedAt = b.receivedAt := Option.some.inj (hctime.symm.trans hbtime)
    rw [htime, decide_eq_true_eq]
    omega

/-! ### Authorities that were used -/

omit [DecidableEq δ] in
theorem LastStored.rolledBack (h : LastStored s) (hback : RolledBack m s s') : LastStored s' := by
  intro m' o hget
  rw [hback.store]
  by_cases hm : m' = m
  · rw [hm, hback.lastOpen] at hget
    rw [hm]
    exact (lastOpen_eq_some.mp hget).1
  · rw [hback.others m' hm] at hget
    exact h m' o hget

/-- A row, however its admission ends. -/
theorem LastStored.admitRow (h : LastStored s) (hbar : bar.interval = .m5) {binding : RegistryVersion}
    {finality : δ} {cache : Option (WindowCache δ)} {cut : Option ℕ} :
    Ends (admitRow R sha256 bar binding finality cache cut) s (fun _ s' => LastStored s')
      fun _ s' => LastStored s' := by
  refine (admitRow_effect hbar).mono (fun _ s' hrow => h.added hrow.1) ?_
  rintro _ s' (hrow | hrow)
  · exact h.added hrow
  · intro m o hget
    rw [hrow.lastOpen] at hget
    rw [hrow.store]
    exact h m o hget

theorem LastStored.start {store : ClosedBarStore δ} {registry : RegistryDisk δ}
    (h : start R store registry = .ok s) : LastStored s := by
  obtain ⟨markets, rfl⟩ := start_eq h
  refine List.foldlRecOn (motive := fun d : Dict Text ℕ => ∀ m o, d.get? m = some o → store.Has m o) markets _
    (fun _ _ hget => by cases hget) fun lastOpen hst market _ m o hget => ?_
  rcases hlast : store.lastOpen market.marketId with - | last
  · rw [hlast] at hget
    exact hst m o hget
  · rw [hlast] at hget
    simp only [Option.elim_some, Dict.get?_set] at hget
    split_ifs at hget with hm
    · rw [← hm, ← Option.some.inj hget]
      exact (lastOpen_eq_some.mp hlast).1
    · exact hst m o hget

/-- Every event keeps the last opens stored. -/
theorem LastStored.step (h : LastStored s) (e : DataEvent δ) : LastStored (step R sha256 s e) := by
  refine step_rule h e (fun _ _ => h) (fun market snapshot receivedAt cuts _ => ?_)
    (fun market c cut _ => ?_) fun s' _ hbeg => .start hbeg
  · refine admitRestHistory_rule h fun accepted hacc => ⟨True, fun l _ s₁ => LastStored s₁
        ∧ ∀ a ∈ l, a.bar.marketId = market.marketId ∧ a.bar.interval = .m5,
      ⟨fun _ _ => trivial, fun h₁ => h₁.2, fun _ h₁ => h₁.1, fun _ h₁ => h₁.1,
        fun h₁ h₂ => h₁.1.rolledBack h₂, fun _ d h₁ => h₁, fun h₁ _ => ?_⟩,
      ⟨h, (arrivals_ok cuts hacc).1⟩, fun _ s₁ h₁ => ?_⟩
    · exact (h₁.1.admitRow (h₁.2 _ List.mem_cons_self).2).mono
        (fun _ _ h => ⟨h, fun b hb => h₁.2 b (List.mem_cons_of_mem _ hb)⟩) fun _ _ h _ => h
    · rw [clearFailure_eq]
      exact h₁.1
  · refine after_of_ends (confirmWsCandidate_rule h fun payload bar _ hbar => ?_)
    refine admitBar_rule (Q := fun _ s' => LastStored s') h h fun _ binding => ?_
    refine Ends.mono (LastStored.admitRow ?_ (providerBar_ok hbar).2.1) (fun _ s₁ h₁ d => ⟨h₁, h₁⟩) fun _ _ h => h
    exact h

/-- **The last opens are stored**: whatever is called in whatever processes, the open that the next bar of a
market is compared with is one of its 5m rows. -/
theorem last_opens_stored (store : ClosedBarStore δ) (registry : RegistryDisk δ) (events : List (DataEvent δ)) :
    LastStored (run R sha256 { store, registry } events) :=
  List.foldlRecOn events _ (fun _ _ h => by cases h) fun _ h e _ => h.step e

/-- **Chunking does not matter**: for an authority that started on any table and Registry and
was used in any way, and candles in order of their times.  Where one call on all of them returns, so do
successive calls on consecutive chunks, with the same bars, rows that are alike, the
same last opens and the same failed markets. -/
theorem chunking_does_not_matter (hsha : Function.Injective sha256) {store : ClosedBarStore δ}
    {registry : RegistryDisk δ} {s₀ s₁ : DataAuthority δ} {events : List (DataEvent δ)}
    {chunks : List (List Payload)} {bars : List (ClosedBar δ)} (hstart : start R store registry = .ok s₀)
    (hsorted : chunks.flatten.Pairwise fun p q => p.sortKey ≤ q.sortKey)
    (hchunks : chunks ≠ [] ∧ ((∀ chunk ∈ chunks, chunk ≠ []) ∨ chunks.flatten = []))
    (hwhole : admitRestHistory R sha256 market chunks.flatten receivedAt (fun _ => none)
      (run R sha256 s₀ events) = .ok bars s₁) :
    ∃ s₂, admitChunks R sha256 market receivedAt chunks (run R sha256 s₀ events) = .ok bars s₂
      ∧ List.Forall₂ EvidenceRow.Alike s₂.store.rows s₁.store.rows
      ∧ s₂.lastOpen = s₁.lastOpen ∧ s₂.failed = s₁.failed := by
  have hlast : LastStored (run R sha256 s₀ events) := by
    have hrun : ∀ (events : List (DataEvent δ)) (s : DataAuthority δ), LastStored s →
        LastStored (run R sha256 s events) := by
      intro events
      induction events with
      | nil => exact fun s h => h
      | cons e events ih => exact fun s h => ih _ (h.step e)
    exact hrun events s₀ (.start hstart)
  generalize run R sha256 s₀ events = s at hwhole hlast ⊢
  -- the whole call follows the plain loop
  rcases haccepted : acceptedHistory sha256 market chunks.flatten receivedAt with err | accepted
  · rw [admitRestHistory, haccepted] at hwhole
    cases hwhole
  obtain ⟨t, ht, rfl⟩ := (admitRestHistory_uncut haccepted).mp hwhole
  obtain ⟨hbars, hopens⟩ := acceptedHistory_ok haccepted
  have hfives : ∀ a ∈ uncut accepted, a.bar.interval = .m5 ∧ a.cut = none := by
    intro a ha
    obtain ⟨b, hb, rfl⟩ := List.mem_map.mp ha
    exact ⟨(hbars b hb).2, rfl⟩
  have hmarkets : ∀ a ∈ uncut accepted, a.bar.marketId = market.marketId := by
    intro a ha
    obtain ⟨b, hb, rfl⟩ := List.mem_map.mp ha
    exact (hbars b hb).1
  obtain ⟨_, r, hr, rfl, hsr⟩ :=
    (pairs_admitLoop hsha (uncut accepted) hfives hmarkets s s Dict.empty (.refl s) .empty).of_ok_left ht
  have hadvance := (admitLoop_advances hbars hlast).of_ok ht
  -- and so do the chunks
  obtain ⟨parts, hparts, rfl⟩ := acceptedHistory_flatten hsorted haccepted
  have hcond : Underway market.marketId parts.flatten s ∨ ∃ first rest, parts = first :: rest ∧ first ≠ [] := by
    rcases hchunks.2 with hnonempty | hnil
    · cases hparts with
      | nil => exact absurd rfl hchunks.1
      | @cons chunk first chunks rest hfirst _ =>
        by_cases hne : first = []
        · subst hne
          exact .inl (.inr (accepted_of_first (hnonempty chunk (.head _)) hsorted haccepted hfirst))
        · exact .inr ⟨first, rest, rfl, hne⟩
    · rw [hnil] at haccepted
      exact .inl (.inr (Except.ok.inj haccepted).symm)
  obtain ⟨c, hc, hcr, hfailed, -⟩ := admitChunks_follow hsha hparts s s r _ (.refl s) hlast hopens hcond hr
  have halike : c.Alike t := hcr.trans hsr.symm
  refine ⟨c, hc, ?_, ?_, ?_⟩
  · rw [clearFailure_store]
    exact halike.store
  · rw [clearFailure_eq]
    exact halike.lastOpen
  · rw [clearFailure_eq, hfailed, if_neg hchunks.1, halike.store.isContiguous5m, hadvance.failed]

end

open EvidenceTerm in
/-- The rows of a quarter in two chunks, the second of which closes it, on a Registry that the first bar
activates. -/
theorem chunking_does_not_matter_quarter :
    ∃ bars s₁ s₂, admitRestHistory registryRoot EvidenceTerm.sha256 market [candle 0, candle 1, candle 2]
        (some version.createdAt) (fun _ => none) { registry := pendingFiles } = .ok bars s₁
      ∧ admitChunks registryRoot EvidenceTerm.sha256 market (some version.createdAt)
        [[candle 0, candle 1], [candle 2]] { registry := pendingFiles } = .ok bars s₂
      ∧ List.Forall₂ EvidenceRow.Alike s₂.store.rows s₁.store.rows
      ∧ s₂.lastOpen = s₁.lastOpen ∧ s₂.failed = s₁.failed := by
  have hstart : start registryRoot {} pendingFiles = .ok { registry := pendingFiles } := by
    have hactive : registryRoot.active pendingFiles = .ok none := by decide +kernel
    have hpending : registryRoot.pendingVersion pendingFiles = .ok (some version) := by decide +kernel
    rw [start, hactive, hpending]
    rfl
  have hraised : raised (admitRestHistory registryRoot EvidenceTerm.sha256 market [candle 0, candle 1, candle 2]
      (some version.createdAt) fun _ => none) { registry := pendingFiles } = none := by
    decide +kernel
  obtain ⟨bars, s₁, hwhole⟩ := raised_eq_none.mp hraised
  have hrun : admitRestHistory registryRoot EvidenceTerm.sha256 market
      ([[candle 0, candle 1], [candle 2]] : List (List Payload)).flatten (some version.createdAt) (fun _ => none)
      (run registryRoot EvidenceTerm.sha256 { registry := pendingFiles } []) = .ok bars s₁ := hwhole
  obtain ⟨s₂, hchunks, hrows, hlast, hfailed⟩ :=
    chunking_does_not_matter sha256_injective hstart (by decide) (by decide) hrun
  exact ⟨bars, s₁, s₂, hwhole, hchunks, hrows, hlast, hfailed⟩

end TraderAssist
