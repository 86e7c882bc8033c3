/-
TraderAssist/Data/Window.lean

Aggregate windows.

A window is served from the rolling tail of the call or read from the table.  Where every
bar of the tail stands for the stored bar at its place, by a relation `R`
(`Served`), both routes lead to the same bars: the window is, bar by bar, the run of
stored bars that ends with the new one, and where that run is not complete the
window is too short or has a gap (`aggregateWindow_spec`).
-/
import TraderAssist.Data.Authority

namespace TraderAssist

open Py ClosedBarStore

variable {δ : Type} {R : ClosedBar δ → ClosedBar δ → Prop} {store store' : ClosedBarStore δ}
  {cache : WindowCache δ} {bar : ClosedBar δ}

/-- The bars go up step by step. -/
abbrev StepByStep (bars : List (ClosedBar δ)) : Prop :=
  bars.IsChain fun left right => right.openTimeMs = left.openTimeMs + fiveMinutesMs

/-! ### The rolling tail -/

/-- A bar stands for the stored bar at its place. -/
def StandsFor (R : ClosedBar δ → ClosedBar δ → Prop) (store : ClosedBarStore δ) (c : ClosedBar δ) : Prop :=
  c.interval = .m5 ∧ ∃ b, store.bar? c.marketId .m5 c.openTimeMs = some b ∧ R c b

/-- Every rolling tail is a run of bars that stand for stored ones. -/
structure Served (R : ClosedBar δ → ClosedBar δ → Prop) (store : ClosedBarStore δ)
    (cache : WindowCache δ) : Prop where
  chain : ∀ m cached, cache.get? m = some cached → StepByStep cached
  market : ∀ m cached, cache.get? m = some cached → ∀ c ∈ cached, c.marketId = m
  stored : ∀ m cached, cache.get? m = some cached → ∀ c ∈ cached, StandsFor R store c

/-- The last bar of a tail opens with the given one. -/
def EndsAt (cache : WindowCache δ) (bar : ClosedBar δ) : Prop :=
  ∃ cached last, cache.get? bar.marketId = some cached ∧ cached.getLast? = some last
    ∧ last.openTimeMs = bar.openTimeMs

theorem StandsFor.mono {c : ClosedBar δ} (h : StandsFor R store c)
    (hext : ∀ m o b, store.bar? m .m5 o = some b → store'.bar? m .m5 o = some b) : StandsFor R store' c := by
  obtain ⟨hc, b, hb, hR⟩ := h
  exact ⟨hc, b, hext _ _ _ hb, hR⟩

namespace Served

theorem empty : Served R store Dict.empty :=
  ⟨nofun, nofun, nofun⟩

section

variable (h : Served R store cache)
include h

theorem mono (hext : ∀ m o b, store.bar? m .m5 o = some b → store'.bar? m .m5 o = some b) :
    Served R store' cache :=
  ⟨h.chain, h.market, fun m cached hm c hc => (h.stored m cached hm c hc).mono hext⟩

/-- A tail that is replaced. -/
theorem set {cached : List (ClosedBar δ)} (m : Text)
    (hch : StepByStep cached) (hmkt : ∀ c ∈ cached, c.marketId = m)
    (hst : ∀ c ∈ cached, StandsFor R store c) : Served R store (cache.set m cached) :=
  ⟨Dict.forall_get?_set h.chain hch, Dict.forall_get?_set h.market hmkt, Dict.forall_get?_set h.stored hst⟩

theorem of_mem_some : ∀ c ∈ some cache, Served R store c := by
  rintro c ⟨⟩
  exact h

theorem single (hbar : StandsFor R store bar) : Served R store (cache.set bar.marketId [bar]) := by
  refine h.set _ (.singleton bar) ?_ ?_
  · intro c hc
    rw [List.mem_singleton.mp hc]
  · intro c hc
    rw [List.mem_singleton.mp hc]
    exact hbar

/-- **Tracking a bar** that stands for a stored one, or that the tail ends with already. -/
theorem track (hbar : StandsFor R store bar ∨ EndsAt cache bar) :
    Served R store (trackWindowTail cache bar) := by
  rw [trackWindowTail]
  rcases hget : cache.get? bar.marketId with - | cached
  · refine h.single (hbar.resolve_right ?_)
    rintro ⟨cached, -, hcach, -⟩
    rw [hget] at hcach
    cases hcach
  dsimp only
  rcases hlast : cached.getLast? with - | last
  · refine h.single (hbar.resolve_right ?_)
    rintro ⟨cached', last, hcach, hlast', -⟩
    rw [hget] at hcach
    cases hcach
    rw [hlast] at hlast'
    cases hlast'
  dsimp only
  have hend : EndsAt cache bar → last.openTimeMs = bar.openTimeMs := by
    rintro ⟨cached', last', hcach, hlast', hopen⟩
    rw [hget] at hcach
    cases hcach
    rw [hlast] at hlast'
    rw [Option.some.inj hlast', hopen]
  have hpos : 0 < fiveMinutesMs := by decide
  by_cases hnext : last.openTimeMs + fiveMinutesMs = bar.openTimeMs
  · -- the tail grows by the bar
    rw [if_pos hnext]
    have hbar := hbar.resolve_right fun h' => by have := hend h'; omega
    have hall : ∀ c ∈ cached ++ [bar], c.marketId = bar.marketId ∧ StandsFor R store c :=
      forall_mem_snoc (fun c hc => ⟨h.market _ _ hget c hc, h.stored _ _ hget c hc⟩) ⟨rfl, hbar⟩
    have hch : StepByStep (cached ++ [bar]) := by
      refine List.isChain_append.mpr ⟨h.chain _ _ hget, .singleton bar, fun x hx y hy => ?_⟩
      obtain rfl : last = x := by
        rw [hlast] at hx
        exact Option.some.inj hx
      obtain rfl : bar = y := by simpa using hy
      exact hnext.symm
    refine h.set _ ?_ (fun c hc => (hall c (mem_of_mem_lastN hc)).1)
      fun c hc => (hall c (mem_of_mem_lastN hc)).2
    exact hch.drop _
  · rw [if_neg hnext]
    by_cases hsame : bar.openTimeMs = last.openTimeMs
    · rw [if_pos hsame]
      exact h
    · rw [if_neg hsame]
      exact h.single (hbar.resolve_right fun h' => hsame (hend h').symm)

end

end Served

/-- After a bar was tracked the tail ends with it. -/
theorem endsAt_track (cache : WindowCache δ) (bar : ClosedBar δ) : EndsAt
    (trackWindowTail cache bar) bar := by
  have hset : ∀ cached, cached.getLast? = some bar → EndsAt (cache.set bar.marketId cached) bar :=
    fun cached hlast => ⟨cached, bar, by rw [Dict.get?_set, if_pos rfl], hlast, rfl⟩
  rw [trackWindowTail]
  rcases hget : cache.get? bar.marketId with - | cached
  · exact hset [bar] rfl
  dsimp only
  rcases hlast : cached.getLast? with - | last
  · exact hset [bar] rfl
  dsimp only
  by_cases hnext : last.openTimeMs + fiveMinutesMs = bar.openTimeMs
  · rw [if_pos hnext]
    refine hset _ ?_
    rw [getLast?_lastN (by decide)]
    simp
  · rw [if_neg hnext]
    by_cases hsame : bar.openTimeMs = last.openTimeMs
    · rw [if_pos hsame]
      exact ⟨cached, last, hget, hlast, hsame.symm⟩
    · rw [if_neg hsame]
      exact hset [bar] rfl

/-! ### Windows -/

/-- A run of bars that ends with the given one starts where it should. -/
theorem head_of_window {start n : ℕ} {window : List (ClosedBar δ)} (hch : StepByStep window)
    (hlen : window.length = n + 1) (hlast : window.getLast? = some bar)
    (hbeg : start + n * fiveMinutesMs = bar.openTimeMs) : ∀ b ∈ window.head?, b.openTimeMs = start := by
  intro b hb
  cases window with
  | nil => cases hb
  | cons a l =>
    obtain rfl : a = b := Option.some.inj hb
    have hends := getLast_of_chain (f := ClosedBar.openTimeMs) hch hlast
    rw [Nat.succ.inj hlen] at hends
    omega

/-- **The window** is the run of stored bars that ends with the bar, by `R`; where the run
is not complete the window is read from the table, and short or with a gap. -/
theorem aggregateWindow_spec (hR : ∀ b, R b b) {cache : Option (WindowCache δ)}
    (hcache : ∀ c ∈ cache, Served R store c)
    (hbar : store.bar? bar.marketId .m5 bar.openTimeMs = some bar) {start n : ℕ}
    (hbeg : start + n * fiveMinutesMs = bar.openTimeMs) :
    (∃ w, store.members bar.marketId start (n + 1) = some w
        ∧ List.Forall₂ R (aggregateWindow store cache bar (n + 1)) w)
      ∨ store.members bar.marketId start (n + 1) = none
        ∧ aggregateWindow store cache bar (n + 1) = store.tailBars bar.marketId bar.openTimeMs (n + 1)
        ∧ ¬((aggregateWindow store cache bar (n + 1)).length = n + 1
          ∧ StepByStep (aggregateWindow store cache bar (n + 1))) := by
  have hgrid : fiveMinutesMs ∣ start := by
    have hdvd := Nat.dvd_of_mod_eq_zero (bar?_aligned hbar)
    rw [← hbeg] at hdvd
    exact (Nat.dvd_add_left (Nat.dvd_mul_left _ _)).mp hdvd
  -- the tail read from the table
  have htail : (∃ w, store.members bar.marketId start (n + 1) = some w
        ∧ List.Forall₂ R (store.tailBars bar.marketId bar.openTimeMs (n + 1)) w)
      ∨ store.members bar.marketId start (n + 1) = none
        ∧ store.tailBars bar.marketId bar.openTimeMs (n + 1) = store.tailBars bar.marketId bar.openTimeMs (n + 1)
        ∧ ¬((store.tailBars bar.marketId bar.openTimeMs (n + 1)).length = n + 1
          ∧ StepByStep (store.tailBars bar.marketId bar.openTimeMs (n + 1))) := by
    rcases hmems : store.members bar.marketId start (n + 1) with - | w
    · refine .inr ⟨rfl, rfl, fun ⟨hlen, hch⟩ => ?_⟩
      have hlast := @getLast?_tailBars δ store bar.marketId bar.openTimeMs (n + 1) bar
        (Nat.succ_pos n) hbar
      obtain ⟨w, hw, -⟩ := members_of_chain (R := Eq) (head_of_window hch hlen hlast hbeg) hch
        fun c hc => ⟨c, (mem_tailBars hc).1, rfl⟩
      rw [hlen, hmems] at hw
      cases hw
    · refine .inl ⟨w, rfl, ?_⟩
      rw [← hbeg, tailBars_of_members hgrid hmems]
      exact List.forall₂_same.mpr fun b _ => hR b
  rw [aggregateWindow]
  rcases hget : cache.bind fun c => c.get? bar.marketId with - | cached
  · exact htail
  dsimp only
  obtain ⟨c, hc, hcach⟩ := Option.bind_eq_some_iff.mp hget
  have hsrv := hcache c hc
  by_cases huse : n + 1 - 1 ≤ cached.length
      ∧ cached.getLast?.map (fun c => c.openTimeMs + fiveMinutesMs) = some bar.openTimeMs
  · -- served from memory
    rw [if_pos huse]
    rw [Nat.add_sub_cancel] at huse
    obtain ⟨last, hlast, hnext⟩ := Option.map_eq_some_iff.mp huse.2
    have hch : StepByStep (lastN n cached ++ [bar]) := by
      refine List.isChain_append.mpr ⟨(hsrv.chain _ _ hcach).drop _, .singleton bar, ?_⟩
      intro x hx y hy
      obtain rfl : bar = y := by simpa using hy
      rcases Nat.eq_zero_or_pos n with rfl | hn
      · simp [lastN] at hx
      · rw [getLast?_lastN hn, hlast] at hx
        cases hx
        exact hnext.symm
    have hlen : (lastN n cached ++ [bar]).length = n + 1 := by
      rw [List.length_append, length_lastN, min_eq_left huse.1, List.length_singleton]
    have hall : ∀ c ∈ lastN n cached ++ [bar],
        ∃ b, store.bar? bar.marketId .m5 c.openTimeMs = some b ∧ R c b := by
      refine forall_mem_snoc (fun c hc => ?_) ⟨bar, hbar, hR bar⟩
      obtain ⟨-, b, hb, hcb⟩ := hsrv.stored _ _ hcach c (mem_of_mem_lastN hc)
      rw [hsrv.market _ _ hcach c (mem_of_mem_lastN hc)] at hb
      exact ⟨b, hb, hcb⟩
    obtain ⟨w, hw, hforall⟩ := members_of_chain (head_of_window hch hlen (by simp) hbeg) hch hall
    rw [hlen] at hw
    exact .inl ⟨w, hw, hforall⟩
  · rw [if_neg huse]
    exact htail

end TraderAssist
