/-
TraderAssist/E4/Replay.lean

The constructor of the projection, which replays the log.

`Replayable` is what it needs of the log and of the Registry it finds: every event is one that
`accept` takes, events that share a slot or an instant agree, and the Registry binds the markets
of the 5m bars as it did when they were accepted.  Then it returns with the first bars of the
log (`ends_construct`), bound as their references say.
-/
import TraderAssist.E4.Firsts
import TraderAssist.E4.Log

namespace TraderAssist.E4

open Py

variable {δ : Type} [DecidableEq δ]

/-! ### What the constructor needs -/

/-- An event that `accept` takes. -/
structure Acceptable (c : TruthConfig δ) (R : RegistryRoot δ) (d : RegistryDisk δ) (e : AdmittedEvent δ) :
    Prop where
  pit : inPit c e.source = true
  positive : 1 ≤ e.admissionOrdinal
  depth : e.source.dataKind = .depth10 → e.outOfOrder = false → checkDepth e.source.payload = .ok ()
  bar : e.source.dataKind = .bar → Selects R d e.source.marketId → ∃ f, barFacts e.source = .ok f
    ∧ (f.interval = .m1 → (f.minuteBar? e.source.marketId).isSome = true)
    ∧ (f.interval = .m5 → e.outOfOrder = false → (closedBar? c e f).isSome = true)

/-- An event and a later one. -/
structure Compatible (c : TruthConfig δ) (R : RegistryRoot δ) (d : RegistryDisk δ) (a b : AdmittedEvent δ) :
    Prop where
  ordinal : a.admissionOrdinal < b.admissionOrdinal
  hash : c.admissionHash a ≠ c.admissionHash b
  depth : a.source.dataKind = .depth10 → b.source.dataKind = .depth10 → a.outOfOrder = false →
    b.outOfOrder = false → a.source.marketId = b.source.marketId → a.source.tsEvent = b.source.tsEvent →
    a.source.payload = b.source.payload
  slot : ∀ slot, slot? a = some slot → slot? b = some slot → Selects R d b.source.marketId →
    a.source.payload = b.source.payload

/-- The Registry that the constructor finds treats the market of a 5m bar as the one did that
was there when the bar was accepted. -/
def Alike (c : TruthConfig δ) (R : RegistryRoot δ) (d : RegistryDisk δ) (offer : Offer δ) : Prop :=
  (five? offer.1).isSome = true →
    Binds c R offer.2 offer.1.source.marketId ∧ Binds c R d offer.1.source.marketId
      ∨ ¬ Selects R offer.2 offer.1.source.marketId ∧ ¬ Selects R d offer.1.source.marketId

/-- A log, each event with the Registry at its time, that can be replayed under the Registry
`d`. -/
structure Replayable (c : TruthConfig δ) (R : RegistryRoot δ) (d : RegistryDisk δ) (offers : List (Offer δ)) :
    Prop where
  readable : ∃ versions, selectedVersions R d = .ok versions
  events : ∀ offer ∈ offers, Acceptable c R d offer.1
  pairs : offers.Pairwise fun a b => Compatible c R d a.1 b.1
  alike : ∀ offer ∈ offers, Alike c R d offer

variable {c : TruthConfig δ} {R : RegistryRoot δ} {d : RegistryDisk δ} {bar : ClosedBar δ}
variable {offers : List (Offer δ)} {e : AdmittedEvent δ} {f : BarFacts} {v : RegistryVersion}

/-! ### Rows and references of the first bars -/

/-- The row of a first bar. -/
def rowOf? (c : TruthConfig δ) (R : RegistryRoot δ) (first : AdmittedEvent δ × RegistryVersion) :
    Option (EvidenceRow δ) :=
  match barFacts first.1.source with
  | .ok f => (closedBar? c first.1 f).map fun bar => evidenceRow R bar first.2 (c.admissionHash first.1)
  | .error _ => none

omit [DecidableEq δ] in
theorem rowOf?_eq
    (hfct : barFacts e.source = .ok f) (hbar : closedBar? c e f = some bar) :
    rowOf? c R (e, v) = some (evidenceRow R bar v (c.admissionHash e)) := by
  unfold rowOf?
  rw [hfct]
  dsimp only
  rw [hbar]
  rfl

/-- The reference of a first bar. -/
def referenceOf (c : TruthConfig δ) (R : RegistryRoot δ) (openMs : ℕ)
    (first : AdmittedEvent δ × RegistryVersion) : MarketBarReference δ :=
  reference c first.1 openMs first.2.version (R.content first.2)

omit [DecidableEq δ] in
theorem closedBar?_key (h : closedBar? c e f = some bar) :
    bar.key = (e.source.marketId, .m5, f.openMs) := by
  unfold closedBar? at h
  split at h
  · unfold ClosedBar.create? at h
    split at h
    · cases h
      rfl
    · cases h
  · cases h

/-! ### The replay of a log -/

/-- What a projection has after it replayed a log. -/
structure Replayed (c : TruthConfig δ) (R : RegistryRoot δ) (log : List (AdmittedEvent δ)) (firsts : Firsts δ)
    (refs : Dict (Text × ℕ) (MarketBarReference δ)) (s : TruthState δ) : Prop where
  refs : s.references = refs
  last : s.projection.lastOrdinal = 0 ∨ ∃ e ∈ log, s.projection.lastOrdinal = e.admissionOrdinal
  hashes : ∀ hash, s.projection.events.has hash = true → ∃ e ∈ log, hash = c.admissionHash e
  bars : ∀ e ∈ log, e.source.dataKind = .bar → s.projection.events.get? (c.admissionHash e) = some e
  slots : ∀ slot e, s.projection.barEvents.get? slot = some e → e ∈ log ∧ slot? e = some slot
  fives : ∀ m t, s.projection.barEvents.get? (m, .m5, t) = (firsts.get? (m, t)).map Prod.fst
  rows : ∀ m t, s.projection.store.row? (m, .m5, t) = (firsts.get? (m, t)).bind (rowOf? c R)
  aggregates : ∀ m interval t row, interval ≠ .m5 → s.projection.store.row? (m, interval, t) = some row →
    firsts.has (m, t + interval.ms - fiveMinutesMs) = true
  depth : ∀ m e, s.projection.depth.get? m = some e →
    e ∈ log ∧ e.source.dataKind = .depth10 ∧ e.outOfOrder = false ∧ e.source.marketId = m

section Step

variable {log : List (AdmittedEvent δ)} {firsts : Firsts δ} {refs : Dict (Text × ℕ) (MarketBarReference δ)}
  {s : TruthState δ} {e : AdmittedEvent δ}

theorem compatible_of_mem {l : List (AdmittedEvent δ)} (hprs : l.Pairwise (Compatible c R d))
    {a b : AdmittedEvent δ}
    (ha : a ∈ l) (hb : b ∈ l) : a = b ∨ Compatible c R d a b ∨ Compatible c R d b a := by
  induction l with
  | nil => cases ha
  | cons x l ih =>
    obtain ⟨hx, hrest⟩ := List.pairwise_cons.mp hprs
    rcases List.mem_cons.mp ha with rfl | ha' <;> rcases List.mem_cons.mp hb with rfl | hb'
    · exact .inl rfl
    · exact .inr (.inl (hx b hb'))
    · exact .inr (.inr (hx a ha'))
    · exact ih hrest ha' hb'

/-- Different events of a log have different hashes. -/
theorem hash_ne {l : List (AdmittedEvent δ)} (hprs : l.Pairwise (Compatible c R d)) {a b : AdmittedEvent δ}
    (ha : a ∈ l) (hb : b ∈ l) (hne : a ≠ b) : c.admissionHash a ≠ c.admissionHash b := by
  rcases compatible_of_mem hprs ha hb with h | h | h
  · exact absurd h hne
  · exact h.hash
  · exact h.hash.symm

/-- An event that comes after the log is not the last one, and none of those that are known: it is new. -/
theorem ends_accept_later {D : RegistryDisk δ} {replaying : Bool}
    {Q : Option BarInterval → TruthState δ → Prop}
    {E : ProjectionError → TruthState δ → Prop} (hacc : Acceptable c R D e)
    (hltr : ∀ a ∈ log, Compatible c R D a e)
    (last : s.projection.lastOrdinal = 0 ∨ ∃ e ∈ log, s.projection.lastOrdinal = e.admissionOrdinal)
    (hashes : ∀ hash, s.projection.events.has hash = true → ∃ e ∈ log, hash = c.admissionHash e)
    (h : s.projection.lastOrdinal < e.admissionOrdinal → Ends (acceptNew c R d replaying e) s Q E) :
    Ends (accept c R d replaying e) s Q E := by
  have hlast : s.projection.lastOrdinal < e.admissionOrdinal := by
    rcases last with hzero | ⟨a, ha, hlast⟩
    · rw [hzero]
      exact hacc.positive
    · rw [hlast]
      exact (hltr a ha).ordinal
  have hval : validateEvent c s.projection e = .ok () := by
    unfold validateEvent
    rw [require_bind_ok, require_bind_ok, require_eq_ok]
    exact ⟨hacc.pit, hlast.le, fun hsame => hlast.ne' hsame.1⟩
  unfold E4.accept
  rw [ends_bind, ends_get, hval]
  rw [if_neg]
  · exact h hlast
  · rintro (hsame | hsame)
    · exact hlast.ne' hsame.1
    · obtain ⟨a, ha, hhash⟩ := hashes _ hsame
      exact (hltr a ha).hash hhash.symm

/-- The projection that has counted the event. -/
def Projection.noted (c : TruthConfig δ) (p : Projection δ) (e : AdmittedEvent δ) : Projection δ :=
  { p with lastOrdinal := max p.lastOrdinal e.admissionOrdinal, lastHash := some (c.admissionHash e) }

/-- And has kept it. -/
def Projection.indexed (c : TruthConfig δ) (p : Projection δ) (e : AdmittedEvent δ) : Projection δ :=
  { p.noted c e with events := p.events.set (c.admissionHash e) e }

theorem hashes_indexed {p : Projection δ}
    (h : ∀ hash, p.events.has hash = true → ∃ a ∈ log, hash = c.admissionHash a) :
    ∀ hash, (p.indexed c e).events.has hash = true → ∃ a ∈ log ++ [e], hash = c.admissionHash a := by
  intro hash hhas
  by_cases heq : c.admissionHash e = hash
  · exact ⟨e, by simp, heq.symm⟩
  · have hold : p.events.has hash = true := by
      rwa [Dict.has, show (p.indexed c e).events.get? hash = p.events.get? hash from
        Dict.get?_set_ne heq] at hhas
    obtain ⟨a, ha, hhash⟩ := h hash hold
    exact ⟨a, List.mem_append_left _ ha, hhash⟩

section

variable (h : Replayed c R log firsts refs s)
include h

theorem Replayed.noted
    (hlast : s.projection.lastOrdinal < e.admissionOrdinal) (hkind : e.source.dataKind ≠ .bar) :
    Replayed c R (log ++ [e]) firsts refs { s with projection := s.projection.noted c e } :=
  { h with
    last := .inr ⟨e, by simp, max_eq_right hlast.le⟩
    hashes hash hhas := by
      obtain ⟨a, ha, hhash⟩ := h.hashes hash hhas
      exact ⟨a, List.mem_append_left _ ha, hhash⟩
    bars := forall_mem_snoc h.bars fun hbar => absurd hbar hkind
    slots _ _ ha := (h.slots _ _ ha).imp_left (List.mem_append_left _)
    depth _ _ ha := (h.depth _ _ ha).imp_left (List.mem_append_left _) }

theorem Replayed.indexed
    (hlast : s.projection.lastOrdinal < e.admissionOrdinal) (hltr : ∀ a ∈ log, Compatible c R d a e) :
    Replayed c R (log ++ [e]) firsts refs { s with projection := s.projection.indexed c e } :=
  { h with
    last := .inr ⟨e, by simp, max_eq_right hlast.le⟩
    hashes := hashes_indexed h.hashes
    bars a ha hbar := by
      show (s.projection.events.set (c.admissionHash e) e).get? (c.admissionHash a) = some a
      rcases List.mem_append.mp ha with ha | ha
      · rw [Dict.get?_set_ne (hltr a ha).hash.symm]
        exact h.bars a ha hbar
      · rw [List.mem_singleton.mp ha, Dict.get?_set_self]
    slots _ _ ha := (h.slots _ _ ha).imp_left (List.mem_append_left _)
    depth _ _ ha := (h.depth _ _ ha).imp_left (List.mem_append_left _) }

/-- Forgetting an event that is no bar. -/
theorem Replayed.forget (hprs : log.Pairwise (Compatible c R d))
    (he : e ∈ log) (hkind : e.source.dataKind ≠ .bar) : Replayed c R log firsts refs { s with projection :=
      { s.projection with events := s.projection.events.erase (c.admissionHash e) } } :=
  { h with
    hashes hash hhas := by
      obtain ⟨a, ha⟩ := Dict.has_eq_true.mp hhas
      rw [Dict.get?_erase] at ha
      split at ha
      · cases ha
      · exact h.hashes hash (Dict.has_eq_true.mpr ⟨a, ha⟩)
    bars a ha hbar := by
      rw [Dict.get?_erase, if_neg]
      · exact h.bars a ha hbar
      · exact hash_ne hprs ha he fun heq => hkind (heq ▸ hbar) }

theorem Replayed.setDepth (he : e ∈ log)
    (hkind : e.source.dataKind = .depth10) (hord : e.outOfOrder = false) :
    Replayed c R log firsts refs { s with projection :=
      { s.projection with depth := s.projection.depth.set e.source.marketId e } } :=
  { h with depth := Dict.forall_get?_set h.depth ⟨he, hkind, hord, rfl⟩ }

/-- **A depth snapshot is taken.** -/
theorem Replayed.acceptDepthEvent (hprs : log.Pairwise (Compatible c R d))
    (he : e ∈ log) (hkind : e.source.dataKind = .depth10)
    (hdepth : e.outOfOrder = false → checkDepth e.source.payload = .ok ()) :
    Ends (acceptDepthEvent c e) s (fun _ s' => Replayed c R log firsts refs s') fun _ _ => False := by
  have hnotBar : e.source.dataKind ≠ .bar := by
    rw [hkind]
    decide
  unfold E4.acceptDepthEvent
  rw [ends_bind, ends_onRaise]
  have hend : ∀ s', Replayed c R log firsts refs s' → Ends (modifyProjection fun p =>
      if p.depth.get? e.source.marketId = some e then p
      else { p with events := p.events.erase (c.admissionHash e) }) s'
      (fun _ s' => Replayed c R log firsts refs s') fun _ _ => False := by
    intro s' hs'
    rw [modifyProjection, ends_modify]
    split
    · exact hs'
    · exact hs'.forget hprs he hnotBar
  unfold acceptDepth
  split
  · exact hend s h
  · rename_i hord
    have hord : e.outOfOrder = false := by simpa using hord
    rw [ends_bind, ends_attempt, hdepth hord]
    show Ends _ _ _ _
    rw [ends_bind, ends_get]
    rcases hpri : s.projection.depth.get? e.source.marketId with - | prior
    · dsimp only
      rw [modifyProjection, ends_modify]
      exact hend _ (h.setDepth he hkind hord)
    · obtain ⟨hmem, hpriorKind, hpriorOrder, hmkt⟩ := h.depth _ _ hpri
      dsimp only
      split
      · -- the market has this instant already, with the same snapshot
        rename_i hconf
        rcases compatible_of_mem hprs hmem he with heq | hcomp | hcomp
        · exact absurd (heq ▸ rfl) hconf.2
        · exact absurd (hcomp.depth hpriorKind hkind hpriorOrder hord hmkt hconf.1.symm).symm hconf.2
        · exact absurd (hcomp.depth hkind hpriorKind hord hpriorOrder hmkt.symm hconf.1) hconf.2
      · split
        · rw [modifyProjection, ends_modify]
          have hpriorBar : prior.source.dataKind ≠ .bar := by
            rw [hpriorKind]
            decide
          exact hend _ ((h.setDepth he hkind hord).forget hprs hmem hpriorBar)
        · exact hend s h

/-- A 1m bar gets its slot. -/
theorem Replayed.setMinute (he : e ∈ log) {m : Text} {t : ℕ}
    (hslot : slot? e = some (m, .m1, t)) (oneMinute : Dict (Text × ℕ) OneMinuteBar) :
    Replayed c R log firsts refs { s with projection :=
      { s.projection with
        barEvents := s.projection.barEvents.set (m, .m1, t) e
        oneMinute := oneMinute } } :=
  { h with
    slots := Dict.forall_get?_set h.slots ⟨he, hslot⟩
    fives m' t' := by
      rw [Dict.get?_set_ne (by simp), h.fives] }

/-- A 5m bar gets its slot and its row, and its aggregates theirs. -/
theorem Replayed.setFive (he : e ∈ log) (hfct : barFacts e.source = .ok f)
    (hbar : closedBar? c e f = some bar)
    (hslot : slot? e = some (e.source.marketId, .m5, f.openMs)) {store : ClosedBarStore δ}
    (hrow : store.row? (e.source.marketId, .m5, f.openMs) = some (evidenceRow R bar v (c.admissionHash e)))
    (hrest : ∀ key, key ≠ (e.source.marketId, .m5, f.openMs) → store.row? key = s.projection.store.row? key
        ∨ ∃ interval, interval ≠ .m5 ∧ key = aggregateKey bar interval
          ∧ interval.ms ≤ bar.openTimeMs + fiveMinutesMs) :
    Replayed c R log (firsts.set (e.source.marketId, f.openMs) (e, v)) refs { s with projection :=
        { s.projection with
          barEvents := s.projection.barEvents.set (e.source.marketId, .m5, f.openMs) e
          store := store } } where
  refs := h.refs
  last := h.last
  hashes := h.hashes
  bars := h.bars
  slots := Dict.forall_get?_set h.slots ⟨he, hslot⟩
  fives m t := by
    rw [Dict.get?_set, Dict.get?_set, h.fives]
    simp only [Prod.mk.injEq, true_and]
    split <;> rfl
  rows m t := by
    rw [Dict.get?_set]
    split
    · rename_i heq
      obtain ⟨rfl, rfl⟩ := Prod.mk.inj heq
      rw [hrow]
      exact (rowOf?_eq hfct hbar).symm
    · rename_i hne
      rw [← h.rows]
      rcases hrest (m, .m5, t) (fun heq => hne (by simpa [Prod.ext_iff, eq_comm] using heq))
        with hsame | ⟨interval, hiv, hkey, -⟩
      · exact hsame
      · exact absurd (congrArg (fun k => k.2.1) hkey).symm hiv
  aggregates m interval t row hiv hget := by
    rw [Dict.has_eq_true]
    rw [Dict.get?_set]
    rcases hrest (m, interval, t) (fun heq => hiv (congrArg (fun k => k.2.1) heq))
      with hsame | ⟨interval', -, hkey, hfits⟩
    · rw [hsame] at hget
      have hold := Dict.has_eq_true.mp (h.aggregates m interval t row hiv hget)
      split
      · exact ⟨_, rfl⟩
      · exact hold
    · -- the aggregate of the window that ends with the bar
      obtain ⟨rfl, rfl, rfl⟩ : m = bar.marketId ∧ interval = interval'
          ∧ t = bar.openTimeMs + fiveMinutesMs - interval'.ms := by
        simpa [aggregateKey] using hkey
      have hbarKey := closedBar?_key hbar
      obtain ⟨hmkt, -, hopen⟩ : bar.marketId = e.source.marketId ∧ bar.interval = .m5
          ∧ bar.openTimeMs = f.openMs := by
        simpa [ClosedBar.key] using hbarKey
      have hback : bar.openTimeMs + fiveMinutesMs - interval.ms + interval.ms - fiveMinutesMs = bar.openTimeMs := by
        rw [Nat.sub_add_cancel hfits, Nat.add_sub_cancel]
      rw [hback, hmkt, hopen, if_pos rfl]
      exact ⟨_, rfl⟩
  depth := h.depth

/-- **A 5m bar with a new slot is taken.** -/
theorem Replayed.acceptFive (he : e ∈ log) (hfct : barFacts e.source = .ok f)
    (hbar : closedBar? c e f = some bar)
    (hslot : slot? e = some (e.source.marketId, .m5, f.openMs))
    (hbnd : boundRegistry c R d e.source.marketId = .ok v)
    (hnew : firsts.get? (e.source.marketId, f.openMs) = none) : Ends (acceptFive c R d true e f)
      { s with projection :=
        { s.projection with barEvents := s.projection.barEvents.set (e.source.marketId, .m5, f.openMs) e } }
      (fun _ s' => Replayed c R log (firsts.set (e.source.marketId, f.openMs) (e, v)) refs s')
      fun _ _ => False := by
  have hkey : bar.key = (e.source.marketId, .m5, f.openMs) := closedBar?_key hbar
  obtain ⟨hmkt, -, hopen⟩ : bar.marketId = e.source.marketId ∧ bar.interval = .m5
      ∧ bar.openTimeMs = f.openMs := by
    simpa [ClosedBar.key] using hkey
  -- there is no row of the slot, nor of an aggregate that ends with it
  have hnone : s.projection.store.row? (e.source.marketId, .m5, f.openMs) = none := by
    rw [h.rows, hnew]
    rfl
  have hfree : ∀ interval, interval ≠ .m5 → interval.ms ≤ bar.openTimeMs + fiveMinutesMs →
      s.projection.store.row? (aggregateKey bar interval) = none := by
    intro interval hiv hfits
    rcases hrow : s.projection.store.row? (aggregateKey bar interval) with - | row
    · rfl
    · have hhas := h.aggregates bar.marketId interval (bar.openTimeMs + fiveMinutesMs - interval.ms) row
        hiv hrow
      rw [Nat.sub_add_cancel hfits, Nat.add_sub_cancel, hmkt, hopen, Dict.has_eq_true] at hhas
      obtain ⟨first, hfst⟩ := hhas
      rw [hnew] at hfst
      cases hfst
  unfold E4.acceptFive
  rw [ends_bind, ends_attempt, hbnd]
  show Ends _ _ _ _
  rw [hbar]
  dsimp only
  rw [ends_bind]
  have hput : s.projection.store.row? (evidenceRow R bar v (c.admissionHash e)).bar.key = none := by
    rw [show (evidenceRow R bar v (c.admissionHash e)).bar.key = _ from hkey]
    exact hnone
  refine ends_putRow_new hput fun store₁ hrows => ?_
  have hrow₁ : ∀ key, store₁.row? key = if key = (e.source.marketId, .m5, f.openMs)
      then some (evidenceRow R bar v (c.admissionHash e)) else s.projection.store.row? key := by
    intro key
    rw [MemoryBarStore.row?_append hrows hput, show (evidenceRow R bar v (c.admissionHash e)).bar.key = _ from hkey]
    simp only [eq_comm]
  have hne : ∀ interval, interval ≠ .m5 → aggregateKey bar interval ≠ (e.source.marketId, .m5, f.openMs) :=
    fun interval hiv heq => hiv (congrArg (fun k => k.2.1) heq)
  rw [if_pos rfl, ends_bind]
  have hfree₁ : Interval.m15.ms ≤ bar.openTimeMs + fiveMinutesMs → store₁.row? (aggregateKey bar .m15) = none := by
    intro hfits
    rw [hrow₁, if_neg (hne .m15 (by decide))]
    exact hfree .m15 (by decide) hfits
  refine ends_putAggregate_new hfree₁ fun store₂ hput₂ => ?_
  have hfree₂ : Interval.h1.ms ≤ bar.openTimeMs + fiveMinutesMs → store₂.row? (aggregateKey bar .h1) = none := by
    intro hfits
    rcases hput₂ (aggregateKey bar .h1) with h₂ | ⟨h₂, -⟩
    · rw [h₂]
      show store₁.row? _ = none
      rw [hrow₁, if_neg (hne .h1 (by decide))]
      exact hfree .h1 (by decide) hfits
    · exact absurd (congrArg (fun k => k.2.1) h₂) (show Interval.h1 ≠ Interval.m15 by decide)
  rw [ends_bind]
  refine ends_putAggregate_new hfree₂ fun store₃ hput₃ => ?_
  refine h.setFive he hfct hbar hslot ?_ fun key hkey' => ?_
  · rcases hput₃ (e.source.marketId, .m5, f.openMs) with h₃ | ⟨h₃, -⟩
    · rcases hput₂ (e.source.marketId, .m5, f.openMs) with h₂ | ⟨h₂, -⟩
      · exact h₃.trans (h₂.trans ((hrow₁ _).trans (if_pos rfl)))
      · exact absurd h₂.symm (hne .m15 (by decide))
    · exact absurd h₃.symm (hne .h1 (by decide))
  · rcases hput₃ key with h₃ | ⟨h₃, hfits⟩
    · rcases hput₂ key with h₂ | ⟨h₂, hfits⟩
      · exact .inl (h₃.trans (h₂.trans ((hrow₁ _).trans (if_neg hkey'))))
      · exact .inr ⟨.m15, by decide, h₂, hfits⟩
    · exact .inr ⟨.h1, by decide, h₃, hfits⟩

/-- **A bar is taken.** -/
theorem Replayed.acceptBar (hprs : log.Pairwise (Compatible c R d))
    (he : e ∈ log) (hkind : e.source.dataKind = .bar)
    (hread : ∃ versions, selectedVersions R d = .ok versions) (hacc : Acceptable c R d e)
    (hbnd : (five? e).isSome = true → Binds c R d e.source.marketId ∨ ¬ Selects R d e.source.marketId) :
    Ends (acceptBar c R d true e) s (fun _ s' => Replayed c R log (firsts.add c R (e, d)) refs s')
      fun _ _ => False := by
  unfold E4.acceptBar
  obtain ⟨versions, hvers⟩ := hread
  rw [ends_bind, ends_attempt, hvers]
  show Ends _ _ _ _
  split
  swap
  · -- the market is not selected
    rename_i hnot
    rw [Firsts.add_of_not_any hvers hnot]
    exact h
  rename_i hany
  have hsel : Selects R d e.source.marketId := ⟨versions, hvers, hany⟩
  obtain ⟨f, hfct, hmin, hclo⟩ := hacc.bar hkind hsel
  have hslot := slot?_of_facts hkind hfct
  rw [ends_bind, ends_attempt, hfct]
  show Ends _ _ _ _
  unfold acceptSlot
  rw [ends_bind, ends_get]
  rcases hpri : s.projection.barEvents.get? (e.source.marketId, f.interval, f.openMs) with - | prior
  swap
  · -- the slot has its bar
    obtain ⟨hmem, hpriorSlot⟩ := h.slots _ _ hpri
    have hpay : prior.source.payload = e.source.payload := by
      rcases compatible_of_mem hprs hmem he with heq | hcomp | hcomp
      · rw [heq]
      · exact hcomp.slot _ hpriorSlot hslot hsel
      · have hmkt := (slot?_market hpriorSlot).2
        exact (hcomp.slot _ hslot hpriorSlot (hmkt ▸ hsel)).symm
    dsimp only
    rw [if_pos hpay]
    have hadd : firsts.add c R (e, d) = firsts := by
      cases hiv : f.interval with
      | m1 => exact Firsts.add_of_minute (hiv ▸ hslot)
      | m5 =>
        rw [hiv] at hslot hpri
        have hfive : five? e = some (e.source.marketId, f.openMs) := five?_eq_some.mpr hslot
        refine Firsts.add_of_has hfive (Dict.has_eq_true.mpr ?_)
        rw [h.fives] at hpri
        obtain ⟨first, hfst, -⟩ := Option.map_eq_some_iff.mp hpri
        exact ⟨first, hfst⟩
    rw [hadd]
    exact h
  dsimp only
  cases hiv : f.interval with
  | m1 =>
    rw [if_neg (by simp)]
    rw [hiv] at hslot
    obtain ⟨bar, hbar⟩ := Option.isSome_iff_exists.mp (hmin hiv)
    rw [ends_bind, modifyProjection, ends_modify, Firsts.add_of_minute hslot]
    unfold acceptMinute
    rw [hbar]
    exact h.setMinute he hslot _
  | m5 =>
    rw [hiv] at hslot hpri
    have hfive : five? e = some (e.source.marketId, f.openMs) := five?_eq_some.mpr hslot
    split
    · -- a bar that is out of order is passed over
      rename_i hord
      rw [Firsts.add_of_outOfOrder hord.2]
      exact h
    · rename_i hord
      have hord : e.outOfOrder = false := by simpa using hord
      have hnew : firsts.get? (e.source.marketId, f.openMs) = none := by
        rw [h.fives, Option.map_eq_none_iff] at hpri
        exact hpri
      obtain ⟨v, hv⟩ := (hbnd (by rw [hfive]; rfl)).resolve_right fun hnot => hnot hsel
      obtain ⟨bar, hbar⟩ := Option.isSome_iff_exists.mp (hclo hiv hord)
      rw [Firsts.add_new hfive hv hord hnew]
      exact h.acceptFive he hfct hbar hslot hv hnew

/-- **Every event of the log is taken.** -/
theorem Replayed.accept (hread : ∃ versions, selectedVersions R d = .ok versions) (hacc : Acceptable c R d e)
    (hprs : (log ++ [e]).Pairwise (Compatible c R d))
    (hbnd : (five? e).isSome = true → Binds c R d e.source.marketId ∨ ¬ Selects R d e.source.marketId) :
    Ends (accept c R d true e) s (fun _ s' => Replayed c R (log ++ [e]) (firsts.add c R (e, d)) refs s')
      fun _ _ => False := by
  have hltr : ∀ a ∈ log, Compatible c R d a e := fun a ha =>
    (List.pairwise_append.mp hprs).2.2 a ha e (List.mem_singleton_self e)
  have hmem : e ∈ log ++ [e] := by simp
  refine ends_accept_later hacc hltr h.last h.hashes fun hlast => ?_
  unfold acceptNew
  rw [ends_bind, modifyProjection, ends_modify]
  cases hkind : e.source.dataKind with
  | depth10 =>
    have hnot : e.source.dataKind ≠ .bar := by
      rw [hkind]
      decide
    rw [ends_bind, modifyProjection, ends_modify, ends_bind, Firsts.add_of_not_bar hnot]
    refine Ends.mono ((h.indexed hlast hltr).acceptDepthEvent hprs hmem hkind (hacc.depth hkind))
      (fun _ _ h' => h') fun _ _ he => he
  | bar =>
    rw [ends_bind]
    exact (h.indexed hlast hltr).acceptBar hprs hmem hkind hread hacc hbnd
  | bbo | trade | context =>
    have hnot : e.source.dataKind ≠ .bar := by
      rw [hkind]
      decide
    rw [Firsts.add_of_not_bar hnot]
    exact h.noted hlast hnot

end

end Step

theorem replayed_empty (refs : Dict (Text × ℕ) (MarketBarReference δ)) :
    Replayed c R [] Dict.empty refs ⟨{}, refs⟩ where
  refs := rfl
  last := .inl rfl
  hashes _ h := by cases h
  bars _ h := by cases h
  slots _ _ h := by cases h
  fives _ _ := rfl
  rows _ _ := rfl
  aggregates _ _ _ _ _ h := by cases h
  depth _ _ h := by cases h

/-- The log under one Registry. -/
def under (d : RegistryDisk δ) (log : List (AdmittedEvent δ)) : List (Offer δ) := log.map fun e => (e, d)

/-- **A log that can be replayed is.** -/
theorem Replayable.replays (h : Replayable c R d offers)
    (refs : Dict (Text × ℕ) (MarketBarReference δ)) :
    Ends ((offers.map Prod.fst).forM fun e => do
        let _ ← accept c R d true e
        pure ()) ⟨{}, refs⟩
      (fun _ s' => Replayed c R (offers.map Prod.fst) (Firsts.ofLog c R (under d (offers.map Prod.fst))) refs s')
      fun _ _ => False := by
  refine ends_forM (I := fun done s' => Replayed c R done (Firsts.ofLog c R (under d done)) refs s')
    (replayed_empty refs) fun done e rest s' hspl hs' => ?_
  have hmem : e ∈ offers.map Prod.fst := by simp [hspl]
  obtain ⟨offer, hoff, rfl⟩ := List.mem_map.mp hmem
  have hprs := List.pairwise_map.mpr h.pairs
  rw [hspl, List.append_cons, List.pairwise_append] at hprs
  have hund : under d (done ++ [offer.1]) = under d done ++ [(offer.1, d)] := List.map_append
  rw [ends_bind, hund, Firsts.ofLog_snoc]
  refine Ends.mono (hs'.accept h.readable (h.events offer hoff) hprs.1 fun hfive => ?_)
    (fun _ _ h' => h') fun _ _ he => he
  exact (h.alike offer hoff hfive).imp (fun hboth => hboth.2) fun hneither => hneither.2

/-! ### The references -/

/-- Under the Registries of their times and under the one at the end, the log has the same first
bars; only what binds them may differ. -/
theorem Firsts.same_events (h : ∀ offer ∈ offers, Alike c R d offer) (key : Text × ℕ) :
    ((Firsts.ofLog c R offers).get? key).map Prod.fst
      = ((Firsts.ofLog c R (under d (offers.map Prod.fst))).get? key).map Prod.fst := by
  induction offers using List.reverseRecOn generalizing key with
  | nil => rfl
  | append_singleton offers offer ih =>
    have ih := ih fun o ho => h o (List.mem_append_left _ ho)
    have hund : under d ((offers ++ [offer]).map Prod.fst) = under d (offers.map Prod.fst) ++ [(offer.1, d)] := by
      simp [under]
    rw [hund, Firsts.ofLog_snoc, Firsts.ofLog_snoc]
    obtain ⟨e, r⟩ := offer
    rcases hfive : five? e with - | slot
    · rw [Firsts.add_of_not_five hfive, Firsts.add_of_not_five hfive]
      exact ih key
    cases hord : e.outOfOrder with
    | true =>
      rw [Firsts.add_of_outOfOrder hord, Firsts.add_of_outOfOrder hord]
      exact ih key
    | false =>
      rcases h (e, r) (by simp) (by simp [hfive]) with ⟨⟨v, hv⟩, w, hw⟩ | ⟨hr, hd⟩
      · -- the market is bound at both times
        have hsame := ih slot
        rcases hslot : (Firsts.ofLog c R offers).get? slot with - | first
        · rw [hslot, Option.map_none, eq_comm, Option.map_eq_none_iff] at hsame
          rw [Firsts.add_new hfive hv hord hslot, Firsts.add_new hfive hw hord hsame, Dict.get?_set,
            Dict.get?_set]
          split
          · rfl
          · exact ih key
        · rw [hslot, Option.map_some, eq_comm, Option.map_eq_some_iff] at hsame
          obtain ⟨first', hfst', -⟩ := hsame
          rw [Firsts.add_of_has hfive (Dict.has_eq_true.mpr ⟨first, hslot⟩),
            Firsts.add_of_has hfive (Dict.has_eq_true.mpr ⟨first', hfst'⟩)]
          exact ih key
      · rw [Firsts.add_of_not_bound fun ⟨v, hv⟩ => hr (selects_of_bound hv),
          Firsts.add_of_not_bound fun ⟨v, hv⟩ => hd (selects_of_bound hv)]
        exact ih key

omit [DecidableEq δ] in
/-- A row whose binding is replaced by that of another version. -/
theorem rowOf?_rebound {m : Text} {t : ℕ} (hslot : slot? e = some (m, .m5, t))
    (v w : RegistryVersion) :
    (rowOf? c R (e, w)).map (MemoryBarStore.reboundRow (m, .m5, t) v.version (R.content v)) = rowOf? c R
    (e, v) := by
  have hkind := (slot?_market hslot).1
  unfold rowOf?
  rcases hfct : barFacts e.source with err | f
  · rfl
  · dsimp only
    rcases hbar : closedBar? c e f with - | bar
    · rfl
    · have hkey : bar.key = (m, .m5, t) := by
        have hslot' := slot?_of_facts hkind hfct
        rw [hslot, Option.some.injEq, Prod.mk.injEq, Prod.mk.injEq] at hslot'
        rw [closedBar?_key hbar, hslot'.1, hslot'.2.2]
      show some (MemoryBarStore.reboundRow _ _ _ _) = some _
      unfold MemoryBarStore.reboundRow
      rw [if_pos (show (evidenceRow R bar w (c.admissionHash e)).bar.key = _ from hkey)]
      rfl

section References

variable {log : List (AdmittedEvent δ)} {firsts live : Firsts δ}
  {refs : Dict (Text × ℕ) (MarketBarReference δ)} {s : TruthState δ}

/-- While the references are gone through: the bars that were met are bound as they say. -/
structure Rebinding (c : TruthConfig δ) (R : RegistryRoot δ) (firsts live : Firsts δ) (s : TruthState δ)
    (done : List (MarketBarReference δ)) (s' : TruthState δ) : Prop where
  same : ∃ store, s' = s.withStore store
  met : ∀ m t, (m, t) ∈ done.map (fun r => (r.marketId, r.openTimeMs)) →
    s'.projection.store.row? (m, .m5, t) = (live.get? (m, t)).bind (rowOf? c R)
  unmet : ∀ m t, (m, t) ∉ done.map (fun r => (r.marketId, r.openTimeMs)) →
    s'.projection.store.row? (m, .m5, t) = (firsts.get? (m, t)).bind (rowOf? c R)

/-- The references of a process that had the same first bars. -/
structure Referenced (c : TruthConfig δ) (R : RegistryRoot δ) (firsts live : Firsts δ)
    (refs : Dict (Text × ℕ) (MarketBarReference δ)) : Prop where
  same : ∀ key, (live.get? key).map Prod.fst = (firsts.get? key).map Prod.fst
  refs : ∀ m t, refs.get? (m, t) = (live.get? (m, t)).map (referenceOf c R t)

section

variable (h : Replayed c R log firsts refs s)
include h

section

variable (hrefs : Referenced c R firsts live refs)
include hrefs

/-- What a reference stands for. -/
theorem Replayed.of_reference {r : MarketBarReference δ} (hr : r ∈ refs.values) :
    ∃ e v w, r = referenceOf c R r.openTimeMs (e, v) ∧ live.get? (r.marketId, r.openTimeMs) = some (e, v)
      ∧ firsts.get? (r.marketId, r.openTimeMs) = some (e, w)
      ∧ s.projection.barEvents.get? (r.marketId, .m5, r.openTimeMs) = some e
      ∧ slot? e = some (r.marketId, .m5, r.openTimeMs) ∧ s.projection.events.get? (c.admissionHash e) = some e := by
  obtain ⟨⟨m, t⟩, hget⟩ := Dict.mem_values.mp hr
  have href := hget
  rw [hrefs.refs, Option.map_eq_some_iff] at href
  obtain ⟨⟨e, v⟩, hlive, rfl⟩ := href
  have hfst := hrefs.same (m, t)
  rw [hlive, Option.map_some, eq_comm, Option.map_eq_some_iff] at hfst
  obtain ⟨⟨e', w⟩, hfst, rfl⟩ := hfst
  have hbar : s.projection.barEvents.get? (m, .m5, t) = some e' := by
    rw [h.fives, hfst]
    rfl
  obtain ⟨hmem, hslot⟩ := h.slots _ _ hbar
  obtain ⟨hkind, hmkt⟩ := slot?_market hslot
  have hm : m = e'.source.marketId := hmkt
  subst hm
  exact ⟨e', v, w, rfl, hlive, hfst, hbar, hslot, h.bars e' hmem hkind⟩

/-- **The references agree with the log.** -/
theorem Replayed.checkReferences :
    Ends (refs.values.forM checkReference) s (fun _ s' => Rebinding c R firsts live s refs.values s')
      fun _ _ => False := by
  refine ends_forM (I := Rebinding c R firsts live s) ⟨⟨_, rfl⟩, nofun, fun m t _ => h.rows m t⟩
    fun done r rest s' hspl hs' => ?_
  have hmem : r ∈ refs.values := by simp [hspl]
  obtain ⟨e, v, w, hr, hlive, hfst, hbar, hslot, hevent⟩ := h.of_reference hrefs hmem
  obtain ⟨store, hsto⟩ := hs'.same
  have hhash : r.admissionHash = c.admissionHash e := by
    rw [hr]
    rfl
  unfold checkReference
  rw [ends_bind, ends_get, hhash, show s'.projection.events = s.projection.events by rw [hsto]; rfl, hevent]
  rw [ends_bind, ends_check]
  refine ⟨fun _ => ?_, fun hnot => hnot ?_⟩
  swap
  · rw [hr]
    exact ⟨rfl, rfl⟩
  rw [ends_bind, ends_check]
  refine ⟨fun _ => ?_, fun hnot => hnot ?_⟩
  swap
  · rw [show s'.projection.barEvents = s.projection.barEvents by rw [hsto]; rfl]
    exact hbar
  have hver : r.registryVersion = v.version ∧ r.registryContentHash = R.content v := by
    rw [hr]
    exact ⟨rfl, rfl⟩
  have hrow : ∀ key, ((s'.withStore (MemoryBarStore.rebind s'.projection.store (r.marketId, .m5, r.openTimeMs)
      r.registryVersion r.registryContentHash)).projection.store).row? key
      = (s'.projection.store.row? key).map
        (MemoryBarStore.reboundRow (r.marketId, .m5, r.openTimeMs) v.version (R.content v)) := by
    intro key
    rw [← hver.1, ← hver.2]
    exact MemoryBarStore.row?_rebind
  have hsame : ∀ m t, (m, t) ≠ (r.marketId, r.openTimeMs) →
      (s'.withStore (MemoryBarStore.rebind s'.projection.store (r.marketId, .m5, r.openTimeMs)
        r.registryVersion r.registryContentHash)).projection.store.row? (m, .m5, t)
      = s'.projection.store.row? (m, .m5, t) := by
    intro m t hne
    rw [hrow]
    rcases hget : s'.projection.store.row? (m, .m5, t) with - | row
    · rfl
    · have hkey := MemoryBarStore.row?_key hget
      show some (MemoryBarStore.reboundRow _ _ _ _) = some row
      unfold MemoryBarStore.reboundRow
      rw [if_neg]
      intro heq
      rw [hkey, Prod.mk.injEq, Prod.mk.injEq] at heq
      exact hne (Prod.ext heq.1 heq.2.2)
  have hself : (s'.withStore (MemoryBarStore.rebind s'.projection.store (r.marketId, .m5, r.openTimeMs)
      r.registryVersion r.registryContentHash)).projection.store.row? (r.marketId, .m5, r.openTimeMs)
      = (live.get? (r.marketId, r.openTimeMs)).bind (rowOf? c R) := by
    rw [hrow, hlive]
    by_cases hdone : (r.marketId, r.openTimeMs) ∈ done.map (fun r => (r.marketId, r.openTimeMs))
    · rw [hs'.met _ _ hdone, hlive]
      exact rowOf?_rebound hslot v v
    · rw [hs'.unmet _ _ hdone, hfst]
      exact rowOf?_rebound hslot v w
  refine ⟨⟨_, by rw [hsto]; rfl⟩, fun m t hm => ?_, fun m t hm => ?_⟩
  · by_cases heq : (m, t) = (r.marketId, r.openTimeMs)
    · obtain ⟨rfl, rfl⟩ := Prod.mk.inj heq
      exact hself
    · refine (hsame m t heq).trans (hs'.met m t ?_)
      rw [List.map_append, List.mem_append] at hm
      exact hm.resolve_right fun hlast => heq (List.mem_singleton.mp hlast)
  · have hne : (m, t) ≠ (r.marketId, r.openTimeMs) := by
      intro heq
      refine hm ?_
      rw [heq]
      simp
    refine (hsame m t hne).trans (hs'.unmet m t fun hdone => hm ?_)
    rw [List.map_append]
    exact List.mem_append_left _ hdone

/-- No bar lacks a reference. -/
theorem Replayed.nothing_missing (store : ClosedBarStore δ) : ∀ entries : List (Slot × AdmittedEvent δ),
      (∀ entry ∈ entries, s.projection.barEvents.get? entry.1 = some entry.2) →
      ∃ missing, entries.mapM (missingReference c R d refs.values store) = .ok missing ∧ missing.filterMap id = [] := by
  intro entries
  induction entries with
  | nil => exact fun _ => ⟨[], rfl, rfl⟩
  | cons entry entries ih =>
    intro hents
    obtain ⟨missing, hmiss, hnil⟩ := ih fun x hx => hents x (.tail _ hx)
    have hnone : missingReference c R d refs.values store entry = .ok none := by
      obtain ⟨⟨m, interval, t⟩, e⟩ := entry
      unfold missingReference
      refine if_pos ?_
      cases interval with
      | m1 => exact .inl (by decide)
      | m5 =>
        have hbar := hents _ (.head _)
        rw [h.fives, ← hrefs.same, Option.map_eq_some_iff] at hbar
        obtain ⟨first, hfst, rfl⟩ := hbar
        have hget : refs.get? (m, t) = some (referenceOf c R t first) := by
          rw [hrefs.refs, hfst]
          rfl
        refine .inr ⟨_, Dict.mem_values.mpr ⟨_, hget⟩, ?_, rfl⟩
        have hslot := (h.slots (m, .m5, t) first.1 (hents _ (.head _))).2
        exact (slot?_market hslot).2.symm
    refine ⟨none :: missing, ?_, hnil⟩
    rw [List.mapM_cons, hnone, hmiss]
    rfl

/-- **The references are checked, and none is written.** -/
theorem Replayed.checkRetainedRefs :
    Ends (checkRetainedRefs c R d) s (fun _ s' => Rebinding c R firsts live s refs.values s') fun _ _ => False := by
  unfold E4.checkRetainedRefs
  rw [ends_bind, ends_get, ends_bind, h.refs]
  refine Ends.mono (h.checkReferences hrefs) (fun _ s' hs' => ?_) fun _ _ he => he
  obtain ⟨store, hsto⟩ := hs'.same
  rw [ends_bind, ends_get, show s'.references = refs by rw [hsto]; exact h.refs, show s'.projection.barEvents = s.projection.barEvents by rw [hsto]; rfl]
  obtain ⟨missing, hmiss, hnil⟩ := h.nothing_missing hrefs (d := d) s'.projection.store
    s.projection.barEvents.entries fun entry hent => Dict.mem_entries.mp hent
  rw [hmiss]
  show Ends (transaction ((missing.filterMap id).forM writeReference)) s' _ _
  rw [hnil]
  exact hs'

end

end

/-- What a new projection has: the newest of the first bars. -/
structure Settled (c : TruthConfig δ) (R : RegistryRoot δ) (log : List (AdmittedEvent δ)) (live : Firsts δ)
    (refs : Dict (Text × ℕ) (MarketBarReference δ)) (s : TruthState δ) : Prop where
  refs : s.references = refs
  last : s.projection.lastOrdinal = 0 ∨ ∃ e ∈ log, s.projection.lastOrdinal = e.admissionOrdinal
  hashes : ∀ hash, s.projection.events.has hash = true → ∃ e ∈ log, hash = c.admissionHash e
  kept : ∀ m t, live.Retained m t →
    s.projection.barEvents.get? (m, .m5, t) = (live.get? (m, t)).map Prod.fst
      ∧ s.projection.store.row? (m, .m5, t) = (live.get? (m, t)).bind (rowOf? c R)
  cut : ∀ m t, ¬ live.Retained m t →
    s.projection.barEvents.get? (m, .m5, t) = none ∧ s.projection.store.row? (m, .m5, t) = none

/-- The last step of the constructor. -/
theorem Replayed.settle {s' : TruthState δ} (h : Replayed c R log firsts refs s)
    (hrefs : Referenced c R firsts live refs) (hs' : Rebinding c R firsts live s refs.values s') :
    Settled c R log live refs { s' with projection := s'.projection.prune c } := by
  obtain ⟨store, hsto⟩ := hs'.same
  have hbars : ∀ m t, s'.projection.barEvents.get? (m, .m5, t) = (live.get? (m, t)).map Prod.fst := by
    intro m t
    rw [hrefs.same, ← h.fives, hsto]
    rfl
  have hrows : ∀ m t, s'.projection.store.row? (m, .m5, t) = (live.get? (m, t)).bind (rowOf? c R) := by
    intro m t
    by_cases hmet : (m, t) ∈ refs.values.map (fun r => (r.marketId, r.openTimeMs))
    · exact hs'.met m t hmet
    · rw [hs'.unmet m t hmet]
      rcases hlive : live.get? (m, t) with - | first
      · have hnone := hrefs.same (m, t)
        rw [hlive, Option.map_none, eq_comm, Option.map_eq_none_iff] at hnone
        rw [hnone]
      · -- a first bar has a reference
        have hget : refs.get? (m, t) = some (referenceOf c R t first) := by
          rw [hrefs.refs, hlive]
          rfl
        have hbar := hbars m t
        rw [hlive, hsto] at hbar
        have hmkt : m = first.1.source.marketId := (slot?_market (h.slots _ _ hbar).2).2
        refine absurd (List.mem_map.mpr ⟨_, Dict.mem_values.mpr ⟨_, hget⟩, ?_⟩) hmet
        rw [hmkt]
        rfl
  have hops : ∀ m t, Newest maxBars (s'.projection.opens m .m5) t ↔ live.Retained m t := by
    have hmem : ∀ m t, t ∈ s'.projection.opens m .m5 ↔ t ∈ live.opens m := by
      intro m t
      rw [Projection.mem_opens, Firsts.mem_opens, Dict.has_eq_true, hbars]
      rcases live.get? (m, t) with - | first <;> simp
    intro m t
    have hnd : (s'.projection.opens m .m5).Nodup := Projection.opens_sorted.imp fun hlt => hlt.ne
    constructor
    · exact fun hnew => hnew.of_subset (Firsts.opens_nodup m) fun x hx => (hmem m x).mpr hx
    · exact fun hnew => hnew.of_subset hnd fun x hx => (hmem m x).mp hx
  have hprun := Projection.pruned_prune (c := c) s'.projection
  refine ⟨?_, ?_, fun hash hhas => ?_, fun m t hret => ?_, fun m t hret => ?_⟩
  · rw [hsto]
    exact h.refs
  · rw [hprun.lastOrdinal, hsto]
    exact h.last
  · obtain ⟨e, he⟩ := Dict.has_eq_true.mp hhas
    have he := hprun.events hash e he
    rw [hsto] at he
    exact h.hashes hash (Dict.has_eq_true.mpr ⟨e, he⟩)
  · have hkept := hprun.kept m t fun hcut => Projection.not_cut_of_newest ((hops m t).mpr hret) hcut.2
    exact ⟨hkept.1.trans (hbars m t), hkept.2.trans (hrows m t)⟩
  · by_cases hmem : t ∈ s'.projection.opens m .m5
    · have hcut := Projection.cut_of_not_newest hmem fun hnew => hret ((hops m t).mp hnew)
      exact hprun.cut m t (Projection.mem_markets_of_cut hcut) hcut
    · -- there is no such bar
      have hnone : live.get? (m, t) = none := by
        rw [Projection.mem_opens, hbars] at hmem
        rcases hlive : live.get? (m, t) with - | first
        · rfl
        · rw [hlive] at hmem
          exact absurd ⟨_, rfl⟩ hmem
      have hbar := hbars m t
      have hrow := hrows m t
      rw [hnone] at hbar hrow
      by_cases hcut : s'.projection.Cut m .m5 t
      · exact hprun.cut m t (Projection.mem_markets_of_cut hcut) hcut
      · have hkept := hprun.kept m t fun h => hcut h.2
        exact ⟨hkept.1.trans hbar, hkept.2.trans hrow⟩

end References

/-- **The constructor returns** over a log that can be replayed and the references of its first
bars, and has the newest of them. -/
theorem Replayable.constructs (h : Replayable c R d offers) {s : TruthState δ}
    (hrefs : ∀ m t, s.references.get? (m, t) = ((Firsts.ofLog c R offers).get? (m, t)).map (referenceOf c R t))
    {store : EvidenceStore δ} (hsto : store.admissions = offers.map Prod.fst) : Ends (construct c R d store) s
      (fun _ s' => Settled c R (offers.map Prod.fst) (Firsts.ofLog c R offers) s.references s') fun _ _ => False := by
  have hload : store.loadAdmissions = .ok (offers.map Prod.fst) := by
    refine loadAdmissions_eq_ok.mpr ⟨hsto.symm, ?_⟩
    rw [hsto]
    exact List.pairwise_map.mpr (h.pairs.imp fun hpair => hpair.ordinal.le)
  have hrefd : Referenced c R (Firsts.ofLog c R (under d (offers.map Prod.fst))) (Firsts.ofLog c R offers)
      s.references := ⟨Firsts.same_events h.alike, hrefs⟩
  unfold construct
  rw [ends_bind, modifyProjection, ends_modify, ends_bind, ends_attempt, hload]
  show Ends _ _ _ _
  rw [ends_bind]
  refine (h.replays s.references).mono (fun _ s₁ hs₁ => ?_) fun _ _ he => he
  rw [ends_bind]
  refine (hs₁.checkRetainedRefs hrefd).mono (fun _ s₂ hs₂ => ?_) fun _ _ he => he
  exact hs₁.settle hrefd hs₂

end TraderAssist.E4
