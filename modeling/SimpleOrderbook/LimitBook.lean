import SimpleOrderbook.Frame

/-!
# The limit side of the book

The limit chains with `_bid`, `_ask` and the two far bounds: what it means that they are right, and
that pushing, erasing and searching for a new best price keep them so.
-/
namespace SimpleOrderbook

/-- The part of the book the limit invariant is about. -/
structure LimitView where
  limits : Nat → ChainManager LimitBndl
  bid : Nat
  ask : Nat
  lowBuyLimit : Nat
  highSellLimit : Nat
  end_ : Nat

def Sob.limitView (s : Sob) : LimitView where
  limits := s.limits
  bid := s.bid
  ask := s.ask
  lowBuyLimit := s.lowBuyLimit
  highSellLimit := s.highSellLimit
  end_ := s.end_

namespace LimitView

/-- `_bid` is the level of a buy chain, or below `_beg` with no buy chain at all. -/
def BestBid (v : LimitView) : Prop :=
  (0 < v.bid → v.limits v.bid ≠ none) ∧ (v.bid = 0 → v.lowBuyLimit = v.end_)

/-- `_ask` is the level of a sell chain, or `_end` with no sell chain at all. -/
def BestAsk (v : LimitView) : Prop :=
  (v.ask < v.end_ → v.limits v.ask ≠ none) ∧ (v.ask = v.end_ → v.highSellLimit = 0)

/-- Everything but the exactness of the best prices. -/
structure Ordered (v : LimitView) : Prop where
  bid_lt_ask : v.bid < v.ask
  ask_le_end : v.ask ≤ v.end_
  window : ∀ p, v.limits p ≠ none →
    (v.lowBuyLimit ≤ p ∧ p ≤ v.bid) ∨ (v.ask ≤ p ∧ p ≤ v.highSellLimit)
  side : ∀ p, ∀ b ∈ (v.limits p).elems, if b.side then p ≤ v.bid else v.ask ≤ p
  nonempty : ∀ p, v.limits p ≠ some []
  pad : v.limits 0 = none
  top : ∀ p, v.end_ ≤ p → v.limits p = none

end LimitView

/-- The limit book is not crossed and its cached pointers are right. -/
structure LimitInv (v : LimitView) : Prop extends v.Ordered where
  bestBid : v.BestBid
  bestAsk : v.BestAsk

section Best
variable {s : Sob}

open Exec

/-! ## The search for a new best price -/

theorem jumpDown_le (s : Sob) (p : Nat) : Core.jumpDown s p ≤ p := by
  induction p with
  | zero => exact le_rfl
  | succ p ih => unfold Core.jumpDown; split <;> omega

theorem jumpDown_chain (s : Sob) (p : Nat) (h : 0 < Core.jumpDown s p) :
    s.limits (Core.jumpDown s p) ≠ none := by
  induction p with
  | zero => exact absurd h (by simp [Core.jumpDown])
  | succ p ih =>
    unfold Core.jumpDown at h ⊢
    split
    next he => exact ih (by simpa [he] using h)
    next he => intro hn; simp [hn] at he

theorem jumpDown_empty (s : Sob) {p q : Nat} (h : Core.jumpDown s p < q) (hq : q ≤ p) :
    s.limits q = none := by
  induction p with
  | zero => exact absurd h (by omega)
  | succ p ih =>
    unfold Core.jumpDown at h
    split at h
    next he =>
      by_cases hqp : q = p + 1
      · subst hqp; exact Option.isNone_iff_eq_none.mp he
      · exact ih h (by omega)
    next => omega

theorem le_jumpUp (s : Sob) (n p : Nat) : p ≤ Core.jumpUp s n p := by
  induction n generalizing p with
  | zero => exact le_rfl
  | succ n ih =>
    unfold Core.jumpUp
    split
    · exact le_trans (by omega) (ih (p + 1))
    · exact le_rfl

theorem jumpUp_le (s : Sob) (n p : Nat) : Core.jumpUp s n p ≤ p + n := by
  induction n generalizing p with
  | zero => exact le_rfl
  | succ n ih =>
    unfold Core.jumpUp
    split
    · exact le_trans (ih (p + 1)) (by omega)
    · omega

theorem jumpUp_chain (s : Sob) (n p : Nat) (h : Core.jumpUp s n p < p + n) :
    s.limits (Core.jumpUp s n p) ≠ none := by
  induction n generalizing p with
  | zero => exact absurd h (by simp [Core.jumpUp])
  | succ n ih =>
    unfold Core.jumpUp at h ⊢
    split
    next he => exact ih (p + 1) (by simpa [he, Nat.add_comm, Nat.add_left_comm] using h)
    next he => intro hn; simp [hn] at he

theorem jumpUp_empty (s : Sob) {n p q : Nat} (hp : p ≤ q) (h : q < Core.jumpUp s n p) :
    s.limits q = none := by
  induction n generalizing p with
  | zero => exact absurd h (by simp [Core.jumpUp]; omega)
  | succ n ih =>
    unfold Core.jumpUp at h
    split at h
    next he =>
      by_cases hqp : q = p
      · subst hqp; exact Option.isNone_iff_eq_none.mp he
      · exact ih (by omega) h
    next => omega

theorem LimitView.Ordered.findNewBestInside_bid (h : s.limitView.Ordered) :
    (Core.findNewBestInside true s).limitView.Ordered := by
  have hle := jumpDown_le s s.bid
  have hempty : ∀ q, Core.jumpDown s s.bid < q → q ≤ s.bid → s.limits q = none :=
    fun q => jumpDown_empty s
  obtain ⟨h1, h2, h3, h4, h5, h6, h7⟩ := h
  simp only [Sob.limitView] at *
  have hside : ∀ p, ∀ b ∈ (s.limits p).elems,
      if b.side then p ≤ Core.jumpDown s s.bid else s.ask ≤ p := by
    intro p b hb
    have := h4 p b hb
    have hp : s.limits p ≠ none := by intro hn; simp [hn] at hb
    split at this
    next hs => simp only [hs, if_true]; by_contra hlt; exact hp (hempty p (by omega) this)
    next hs => simpa [hs] using this
  have hwin : ∀ p, s.limits p ≠ none →
      (s.lowBuyLimit ≤ p ∧ p ≤ Core.jumpDown s s.bid) ∨ (s.ask ≤ p ∧ p ≤ s.highSellLimit) := by
    intro p hp
    rcases h3 p hp with ⟨hl, hb⟩ | hr
    · exact .inl ⟨hl, by by_contra hlt; exact hp (hempty p (by omega) hb)⟩
    · exact .inr hr
  unfold Core.findNewBestInside Core.jumpToNonemptyChain
  simp only [if_true, beg]
  split
  next h0 =>
    -- no buy chain is left
    refine ⟨by simp only; omega, h2, fun p hp => ?_, hside, h5, h6, h7⟩
    rcases hwin p hp with ⟨-, hb⟩ | hr
    · exact absurd h6 (by rw [show (0 : Nat) = p by simp only at *; omega]; exact hp)
    · exact .inr hr
  next h0 =>
    split
    next hlow =>
      refine ⟨by simp only; omega, h2, fun p hp => ?_, hside, h5, h6, h7⟩
      rcases hwin p hp with ⟨hl, hb⟩ | hr
      · exact .inl ⟨by simp only at *; omega, hb⟩
      · exact .inr hr
    next => exact ⟨by simp only; omega, h2, hwin, hside, h5, h6, h7⟩

/-- A new best bid is found from any book that is right but for its bid. -/
theorem findNewBestInside_bid (h : s.limitView.Ordered) (ha : s.limitView.BestAsk) :
    LimitInv (Core.findNewBestInside true s).limitView := by
  suffices hbest : (Core.findNewBestInside true s).limitView.BestBid ∧
      (Core.findNewBestInside true s).limitView.BestAsk from
    ⟨h.findNewBestInside_bid, hbest.1, hbest.2⟩
  have hle := jumpDown_le s s.bid
  have hchain := jumpDown_chain s s.bid
  have h1 : s.bid < s.ask := h.bid_lt_ask
  have h2 : s.ask ≤ s.end_ := h.ask_le_end
  unfold Core.findNewBestInside Core.jumpToNonemptyChain
  simp only [if_true, beg]
  split
  next h0 => exact ⟨⟨fun hb => absurd hb (by simp only [Sob.limitView]; omega), fun _ => rfl⟩, ha⟩
  next h0 =>
    split <;>
      exact ⟨⟨hchain, fun hb => absurd hb (by simp only [Sob.limitView] at *; omega)⟩, ha⟩

theorem LimitView.Ordered.findNewBestInside_ask (h : s.limitView.Ordered) :
    (Core.findNewBestInside false s).limitView.Ordered := by
  have hge := le_jumpUp s (s.end_ - s.ask) s.ask
  have hle := jumpUp_le s (s.end_ - s.ask) s.ask
  have hempty : ∀ q, s.ask ≤ q → q < Core.jumpUp s (s.end_ - s.ask) s.ask → s.limits q = none :=
    fun q => jumpUp_empty s
  obtain ⟨h1, h2, h3, h4, h5, h6, h7⟩ := h
  simp only [Sob.limitView] at *
  generalize hj : Core.jumpUp s (s.end_ - s.ask) s.ask = best at *
  have hend : best ≤ s.end_ := by omega
  have hside : ∀ p, ∀ b ∈ (s.limits p).elems, if b.side then p ≤ s.bid else best ≤ p := by
    intro p b hb
    have := h4 p b hb
    have hp : s.limits p ≠ none := by intro hn; simp [hn] at hb
    split at this
    next hs => simpa [hs] using this
    next hs => simp only [hs]; by_contra hlt; exact hp (hempty p this (by simpa using hlt))
  have hwin : ∀ p, s.limits p ≠ none →
      (s.lowBuyLimit ≤ p ∧ p ≤ s.bid) ∨ (best ≤ p ∧ p ≤ s.highSellLimit) := by
    intro p hp
    rcases h3 p hp with hl | ⟨ha, hh⟩
    · exact .inl hl
    · exact .inr ⟨by by_contra hlt; exact hp (hempty p ha (by omega)), hh⟩
  unfold Core.findNewBestInside Core.jumpToNonemptyChain
  simp only [Bool.false_eq_true, if_false, beg, hj]
  split
  next h0 =>
    -- no sell chain is left
    refine ⟨by simp only; omega, hend, fun p hp => ?_, hside, h5, h6, h7⟩
    rcases hwin p hp with hl | ⟨ha, -⟩
    · exact .inl hl
    · exact absurd (h7 p (by omega)) hp
  next h0 =>
    split
    next hhigh =>
      refine ⟨by simp only; omega, hend, fun p hp => ?_, hside, h5, h6, h7⟩
      rcases hwin p hp with hl | ⟨ha, hh⟩
      · exact .inl hl
      · exact .inr ⟨ha, by simp only at *; omega⟩
    next => exact ⟨by simp only; omega, hend, hwin, hside, h5, h6, h7⟩

/-- A new best ask is found from any book that is right but for its ask. -/
theorem findNewBestInside_ask (h : s.limitView.Ordered) (hb : s.limitView.BestBid) :
    LimitInv (Core.findNewBestInside false s).limitView := by
  suffices hbest : (Core.findNewBestInside false s).limitView.BestBid ∧
      (Core.findNewBestInside false s).limitView.BestAsk from
    ⟨h.findNewBestInside_ask, hbest.1, hbest.2⟩
  have hge := le_jumpUp s (s.end_ - s.ask) s.ask
  have hchain := jumpUp_chain s (s.end_ - s.ask) s.ask
  have h2 : s.ask ≤ s.end_ := h.ask_le_end
  unfold Core.findNewBestInside Core.jumpToNonemptyChain
  simp only [Bool.false_eq_true, if_false, beg]
  generalize hj : Core.jumpUp s (s.end_ - s.ask) s.ask = best at *
  have hbest : best < s.end_ → s.limits best ≠ none := fun hlt => hchain (by omega)
  split
  next h0 => exact ⟨hb, ⟨fun ha => absurd ha (by simp only [Sob.limitView] at *; omega), fun _ => rfl⟩⟩
  next h0 =>
    split <;>
      exact ⟨hb, ⟨hbest, fun ha => absurd ha (by simp only [Sob.limitView] at *; omega)⟩⟩

end Best

/-! ## Pushing, erasing and rewriting orders -/

section Updates
variable {s : Sob} {p : Nat}

/-- A level on the buy side of an ordered book holds buy orders only. -/
theorem LimitView.Ordered.side_of_le (h : s.limitView.Ordered) (hp : p ≤ s.bid) :
    ∀ b ∈ (s.limits p).elems, b.side = true := by
  intro b hb
  have hs := h.side p b hb
  have hlt := h.bid_lt_ask
  simp only [Sob.limitView] at hs hlt
  by_contra hne
  simp only [hne] at hs
  exact absurd hs (by simp only [if_false]; omega)

/-- Erasing and rewriting orders of one level, the level staying allocated. -/
theorem LimitInv.setLimits_some (h : LimitInv s.limitView) {l l' : List LimitBndl}
    (hl : s.limits p = some l) (hne : l' ≠ []) (hsub : ∀ b ∈ l', ∃ b' ∈ l, b'.side = b.side) :
    LimitInv (s.setLimits p (some l')).limitView := by
  obtain ⟨⟨h1, h2, h3, h4, h5, h6, h7⟩, ⟨hb1, hb2⟩, ⟨ha1, ha2⟩⟩ := h
  have hsome : ∀ q, (s.setLimits p (some l')).limits q = none ↔ s.limits q = none := by
    intro q
    by_cases hq : q = p
    · simp [hq, hl]
    · simp [hq]
  refine ⟨⟨h1, h2, fun q hq => h3 q (mt (hsome q).mpr hq), fun q b hb => ?_, fun q => ?_,
    (hsome 0).mpr h6, fun q hq => (hsome q).mpr (h7 q hq)⟩,
    ⟨fun hb => mt (hsome _).mp (hb1 hb), hb2⟩, ⟨fun ha => mt (hsome _).mp (ha1 ha), ha2⟩⟩
  · by_cases hq : q = p
    · subst hq
      simp only [Sob.limitView, Sob.limits_setLimits, if_true, ChainManager.elems_some] at hb
      obtain ⟨b', hb', hs⟩ := hsub b hb
      rw [← hs]
      exact h4 q b' (by simpa [Sob.limitView, hl] using hb')
    · exact h4 q b (by simpa [Sob.limitView, hq] using hb)
  · by_cases hq : q = p
    · simpa [Sob.limitView, hq] using hne
    · simpa [Sob.limitView, hq] using h5 q

/-- What remains right when the chain of a level is freed, before the best price is adjusted. -/
theorem LimitView.Ordered.setLimits_none (h : s.limitView.Ordered) :
    (s.setLimits p none).limitView.Ordered := by
  obtain ⟨h1, h2, h3, h4, h5, h6, h7⟩ := h
  have hnone : ∀ q, (s.setLimits p none).limits q ≠ none → q ≠ p ∧ s.limits q ≠ none := by
    intro q hq
    by_cases hqp : q = p
    · simp [hqp] at hq
    · exact ⟨hqp, by simpa [hqp] using hq⟩
  refine ⟨h1, h2, fun q hq => h3 q (hnone q hq).2, fun q b hb => ?_, fun q => ?_, ?_, fun q hq => ?_⟩
  · by_cases hqp : q = p
    · simp [Sob.limitView, hqp] at hb
    · exact h4 q b (by simpa [Sob.limitView, hqp] using hb)
  · by_cases hqp : q = p
    · simp [Sob.limitView, hqp]
    · simpa [Sob.limitView, hqp] using h5 q
  · by_contra hq; exact (hnone 0 hq).2 h6
  · by_contra hq'; exact (hnone q hq').2 (h7 q hq)

/-- Freeing the chain of a level below the best bid leaves the best ask alone, and the other way
round. -/
theorem LimitInv.best_setLimits_none (h : LimitInv s.limitView) :
    (p ≠ s.bid → (s.setLimits p none).limitView.BestBid) ∧
      (p ≠ s.ask → (s.setLimits p none).limitView.BestAsk) := by
  obtain ⟨-, ⟨hb1, hb2⟩, ⟨ha1, ha2⟩⟩ := h
  refine ⟨fun hp => ⟨fun hb => ?_, hb2⟩, fun hp => ⟨fun ha => ?_, ha2⟩⟩
  · have hne : s.bid ≠ p := fun heq => hp heq.symm
    simpa [Sob.limitView, Sob.setLimits, Sob.setLevel, Sob.limits, hne] using hb1 hb
  · have hne : s.ask ≠ p := fun heq => hp heq.symm
    simpa [Sob.limitView, Sob.setLimits, Sob.setLevel, Sob.limits, hne] using ha1 ha

/-- A level with a chain is on the buy side or on the sell side. -/
theorem LimitInv.le_bid_or_ask_le (h : LimitInv s.limitView) (hp : s.limits p ≠ none) :
    p ≤ s.bid ∨ s.ask ≤ p := by
  rcases h.window p hp with hl | hr
  · exact .inl hl.2
  · exact .inr hr.1

theorem LimitInv.freeAndFind (h : LimitInv s.limitView) {bidSide : Bool}
    (hs : if bidSide then p ≤ s.bid else s.ask ≤ p) :
    LimitInv (Exec.Core.findNewBestInside bidSide (s.setLimits p none)).limitView := by
  have hlt : s.bid < s.ask := h.bid_lt_ask
  cases bidSide with
  | true =>
    simp only [if_true] at hs
    exact findNewBestInside_bid h.toOrdered.setLimits_none (h.best_setLimits_none.2 (by omega))
  | false =>
    simp only [Bool.false_eq_true, if_false] at hs
    exact findNewBestInside_ask h.toOrdered.setLimits_none (h.best_setLimits_none.1 (by omega))

@[simp] theorem limitView_setStops (s : Sob) (p : Nat) (c : ChainManager StopBndl) :
    (s.setStops p c).limitView = s.limitView := by
  have h : (s.setStops p c).limits = s.limits := funext fun q => s.limits_setStops p q c
  unfold Sob.limitView
  rw [h]
  rfl

@[simp] theorem limitView_setAons (s : Sob) (p : Nat) (c : ChainManager AonBndl) (buys : Bool) :
    (s.setAons buys p c).limitView = s.limitView := by
  have h : (s.setAons buys p c).limits = s.limits := funext fun q => s.limits_setAons p q c buys
  unfold Sob.limitView
  rw [h]
  rfl

@[simp] theorem limitView_cacheEmplace (s : Sob) (id : Nat) (c : ChainIterWrap) :
    (s.cacheEmplace id c).limitView = s.limitView := by
  unfold Sob.cacheEmplace
  split <;> rfl

/-- The view after a push: the chain is longer, and the pointers of the side reach to it. -/
theorem limitView_limitPush (s : Sob) (buy : Bool) (p : Nat) (b : LimitBndl) :
    (Chain.limitPush buy s p b).limitView =
      { limits := fun q => if q = p then (s.limits p).push b else s.limits q
        bid := if buy then max p s.bid else s.bid
        ask := if buy then s.ask else min p s.ask
        lowBuyLimit := if buy then min p s.lowBuyLimit else s.lowBuyLimit
        highSellLimit := if buy then s.highSellLimit else max p s.highSellLimit
        end_ := s.end_ } := by
  have hl : (s.setLimits p ((s.limits p).push b)).limits =
      fun q => if q = p then (s.limits p).push b else s.limits q :=
    funext fun q => s.limits_setLimits p q _
  rw [← hl]
  unfold Chain.limitPush Sob.cacheEmplace
  cases buy <;> dsimp only <;> split <;> rfl

theorem limits_limitPush (s : Sob) (buy : Bool) (p q : Nat) (b : LimitBndl) :
    (Chain.limitPush buy s p b).limits q = if q = p then (s.limits p).push b else s.limits q :=
  congrFun (congrArg LimitView.limits (limitView_limitPush s buy p b)) q

/-- A new order rests on its own side of the market. -/
theorem LimitInv.limitPush (h : LimitInv s.limitView) {buy : Bool} {b : LimitBndl}
    (hp : beg ≤ p) (hpe : p < s.end_) (hs : if buy then p < s.ask else s.bid < p)
    (hb : b.side = buy) : LimitInv (Chain.limitPush buy s p b).limitView := by
  obtain ⟨⟨h1, h2, h3, h4, h5, h6, h7⟩, ⟨hb1, hb2⟩, ⟨ha1, ha2⟩⟩ := h
  rw [limitView_limitPush]
  simp only [Sob.limitView, beg] at *
  have hold : ∀ q, (if q = p then (s.limits p).push b else s.limits q) = none →
      q ≠ p ∧ s.limits q = none := by
    intro q hq
    split at hq
    next => exact absurd hq (by simp [ChainManager.push])
    next hqp => exact ⟨hqp, hq⟩
  have hnew : ∀ q, q ≠ p → s.limits q = none →
      (if q = p then (s.limits p).push b else s.limits q) = none := by
    intro q hqp hq
    simpa [hqp] using hq
  have hmem : ∀ q, ∀ c ∈ (if q = p then (s.limits p).push b else s.limits q).elems,
      c ∈ (s.limits q).elems ∨ (q = p ∧ c = b) := by
    intro q c hc
    by_cases hqp : q = p
    · subst hqp
      simpa using hc
    · exact .inl (by simpa [hqp] using hc)
  refine ⟨⟨?_, ?_, fun q hq => ?_, fun q c hc => ?_, fun q => ?_, ?_, fun q hq => ?_⟩,
    ⟨fun hq => ?_, fun hq => ?_⟩, ⟨fun hq => ?_, fun hq => ?_⟩⟩
  · cases buy <;> simp at * <;> omega
  · cases buy
    · simp at *; omega
    · exact h2
  · by_cases hqp : q = p
    · subst hqp; cases buy <;> simp at *
    · have := h3 q (by simpa [hqp] using hq)
      cases buy <;> simp at * <;> omega
  · rcases hmem q c hc with hc | ⟨rfl, rfl⟩
    · have := h4 q c hc
      cases buy <;> cases hcs : c.side <;> simp [hcs] at * <;> omega
    · rw [hb]; cases buy <;> simp
  · by_cases hqp : q = p
    · simp [hqp, ChainManager.push]
    · simpa [hqp] using h5 q
  · exact hnew 0 (by omega) h6
  · have hq : s.end_ ≤ q := hq
    exact hnew q (by omega) (h7 q hq)
  · intro hn
    obtain ⟨hqp, hn⟩ := hold _ hn
    cases buy with
    | false => exact hb1 (by simpa using hq) (by simpa using hn)
    | true =>
      have hbid : max p s.bid = s.bid := by simp at hqp; omega
      simp only [if_true, hbid] at hn hq
      exact hb1 hq hn
  · cases buy <;> simp at * <;> omega
  · intro hn
    obtain ⟨hqp, hn⟩ := hold _ hn
    cases buy with
    | true => exact ha1 (by simpa using hq) (by simpa using hn)
    | false =>
      have hask : min p s.ask = s.ask := by simp at hqp; omega
      simp only [Bool.false_eq_true, if_false, hask] at hn hq
      exact ha1 hq hn
  · cases buy <;> simp at * <;> omega

/-- The far bound of a side may move past a level that was freed. -/
theorem LimitView.Ordered.moveBound {v : LimitView} (h : v.Ordered) (hp : v.limits p = none) :
    (p = v.lowBuyLimit → ({ v with lowBuyLimit := p + 1 } : LimitView).Ordered) ∧
      (p = v.highSellLimit → ({ v with highSellLimit := p - 1 } : LimitView).Ordered) := by
  obtain ⟨h1, h2, h3, h4, h5, h6, h7⟩ := h
  refine ⟨fun heq => ⟨h1, h2, fun q hq => ?_, h4, h5, h6, h7⟩,
    fun heq => ⟨h1, h2, fun q hq => ?_, h4, h5, h6, h7⟩⟩ <;>
  · have hne : q ≠ p := by rintro rfl; exact hq hp
    have := h3 q hq
    simp only at *
    omega

theorem LimitInv.findIf_bid (ho : s.limitView.Ordered) (hb : p ≠ s.bid → s.limitView.BestBid)
    (ha : s.limitView.BestAsk) :
    LimitInv (if p = s.bid then Exec.Core.findNewBestInside true s else s).limitView := by
  split
  next => exact findNewBestInside_bid ho ha
  next hne => exact ⟨ho, hb hne, ha⟩

theorem LimitInv.findIf_ask (ho : s.limitView.Ordered) (hb : s.limitView.BestBid)
    (ha : p ≠ s.ask → s.limitView.BestAsk) :
    LimitInv (if p = s.ask then Exec.Core.findNewBestInside false s else s).limitView := by
  split
  next => exact findNewBestInside_ask ho hb
  next hne => exact ⟨ho, hb, ha hne⟩

/-- Pulling the last order of a level: the far bound follows, and the best price if it was there. -/
theorem LimitInv.adjustStateAfterPull (h : LimitInv s.limitView) (hp : s.limits p ≠ none) :
    LimitInv (Exec.Limit.adjustStateAfterPull (decide (p ≤ s.bid)) (s.setLimits p none)
      p).limitView := by
  have hordered := h.toOrdered.setLimits_none (p := p)
  obtain ⟨hbid, hask⟩ := h.best_setLimits_none (p := p)
  have hfree : (s.setLimits p none).limitView.limits p = none := by simp [Sob.limitView]
  obtain ⟨hlow, hhigh⟩ := hordered.moveBound hfree
  have hlt : s.bid < s.ask := h.bid_lt_ask
  have hpos : 0 < p := Nat.pos_of_ne_zero fun h0 => hp (h0 ▸ h.pad)
  have htop : p < s.end_ := by by_contra hge; exact hp (h.top p (not_lt.mp hge))
  unfold Exec.Limit.adjustStateAfterPull
  by_cases hside : p ≤ s.bid
  · simp only [hside, decide_true, if_true]
    split
    next heq =>
      refine LimitInv.findIf_bid (heq ▸ hlow heq) (fun hne => ?_) (hask (by omega))
      exact ⟨(hbid hne).1, fun h0 => absurd (show s.bid = 0 from h0) (by omega)⟩
    next => exact LimitInv.findIf_bid hordered hbid (hask (by omega))
  · simp only [hside, decide_false, Bool.false_eq_true, if_false]
    have hge : s.ask ≤ p := (h.le_bid_or_ask_le hp).resolve_left hside
    split
    next heq =>
      refine LimitInv.findIf_ask (heq ▸ hhigh heq) (hbid (by omega)) (fun hne => ?_)
      exact ⟨(hask hne).1, fun h0 => absurd (show s.ask = s.end_ from h0) (by omega)⟩
    next => exact LimitInv.findIf_ask hordered (hbid (by omega)) hask

end Updates
end SimpleOrderbook
