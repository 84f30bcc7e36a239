import SimpleOrderbook.LevelSweep

/-!
# The sweep takes what a scan finds

The scan of `_limit_is_fillable` sees the levels as they stand; `_trade` sweeps them while chains are
freed, windows shrink and orders move between the chains of a level. Both take what they meet in the
same order and pass over the same orders, because a level that was swept changes nothing that the
scan finds behind it.
-/
namespace SimpleOrderbook

open Hoare

/-! ## What a scan of the levels behind still finds -/

/-- Everything off level `p` stayed, and so did the best price of the other side. -/
structure Passed (bidSide : Bool) (p : Nat) (gone : List Nat) (w w' : World) : Prop where
  limits : ∀ q, q ≠ p → w'.limits q = w.limits q
  aons : ∀ q, q ≠ p → ∀ buys, w'.aons buys q = w.aons buys q
  cache : ∀ i, i ∉ gone → w'.idCache i = w.idCache i
  far : if bidSide then w'.ask = w.ask else w'.bid = w.bid
  stops : w'.stops = w.stops
  trailing : (w'.trailingBuyStops, w'.trailingSellStops) = (w.trailingBuyStops, w.trailingSellStops)
  covered : w.AonsCovered bidSide → w'.AonsCovered bidSide
  window : if bidSide then (w'.lowSellAon, w'.highSellAon) = (w.lowSellAon, w.highSellAon)
    else (w'.lowBuyAon, w'.highBuyAon) = (w.lowBuyAon, w.highBuyAon)
  queue : w'.internalOrderQueue = w.internalOrderQueue

/-- No stop has a condition of its own, and no stop trails. -/
structure Sob.Quiet (s : Sob) : Prop where
  stops : ∀ p, ∀ e ∈ (s.stops p).elems, e.Unconditional
  trailing : s.trailingBuyStops = [] ∧ s.trailingSellStops = []

/-- The orders of level `q` that a sweep of a side meets are in the cache, each once, and those of
its limit chain have no condition but being all-or-none. -/
structure Sob.Listed (s : Sob) (bidSide : Bool) (q : Nat) : Prop where
  unconditional : ∀ b ∈ (s.limits q).elems, b.Unconditional
  nodup : (s.limitIds q).Nodup
  limits : ∀ b ∈ (s.limits q).elems, s.idCache b.id = some ⟨.limit, q⟩
  aons : ∀ b ∈ (s.aons bidSide q).elems, ∃ c, s.idCache b.id = some c ∧ c.p = q ∧ c.type ≠ .limit

/-- A sweep of a side can go on at level `p`. -/
structure Sob.Ready (s : Sob) (bidSide : Bool) (p : Nat) : Prop where
  ordered : s.limitView.Ordered
  covered : s.AonsCovered bidSide
  quiet : s.Quiet
  listed : ∀ q, Exec.Core.insideOf bidSide p q = true → s.Listed bidSide q

section Behind
variable {s : Sob} {bidSide : Bool} {p q : Nat} {gone : List Nat} {w w' w1 : World}

theorem Met.passed (h : Met bidSide p gone w w') : Passed bidSide p gone w w' := by
  refine ⟨h.limits, h.aons, h.cache, ?_, h.stops, h.trailing, h.covered, h.window, h.queue⟩
  cases bidSide
  · exact congrArg (·.1) h.inside
  · exact congrArg (·.2.1) h.inside

theorem far_findNewBestInside (bidSide : Bool) (s : Sob) : if bidSide then
    (Exec.Core.findNewBestInside bidSide s).ask = s.ask
    else (Exec.Core.findNewBestInside bidSide s).bid = s.bid := by
  cases bidSide with
  | true =>
    simp only [Exec.Core.findNewBestInside, Exec.Core.jumpToNonemptyChain, if_true]
    split
    · rfl
    · split <;> rfl
  | false =>
    simp only [Exec.Core.findNewBestInside, Exec.Core.jumpToNonemptyChain, Bool.false_eq_true,
      if_false]
    split
    · rfl
    · split <;> rfl

theorem Met.freed (h : Met bidSide p gone w w1) : Passed bidSide p gone w (w1.onSob fun s =>
    Exec.Core.findNewBestInside bidSide (s.setLimits p none)) := by
  have h' : Passed bidSide p (gone ++ []) w (w1.onSob (·.setLimits p none)) :=
    (h.trans (.setLimits w1 none)).passed
  rw [List.append_nil] at h'
  have hfiles := Exec.Core.files_findNewBestInside bidSide (w1.setLimits p none)
  obtain ⟨_, _, _, _, hf⟩ := Exec.Core.findNewBestInside_eq bidSide (w1.setLimits p none)
  have hfar := far_findNewBestInside bidSide (w1.setLimits p none)
  refine ⟨fun q hq => ?_, fun q hq buys => ?_, fun i hi => ?_, ?_, ?_, ?_, fun hc q hq => ?_, ?_, ?_⟩ <;>
    rw [World.toSob_onSob]
  · rw [limits_of_files hfiles, ← h'.limits q hq]
    rfl
  · rw [aons_of_files hfiles, ← h'.aons q hq buys]
    rfl
  · rw [cache_of_files hfiles, ← h'.cache i hi]
    rfl
  · have hsame := h'.far
    cases bidSide
    · exact hfar.trans hsame
    · exact hfar.trans hsame
  · rw [stops_of_files hfiles, ← h'.stops]
    rfl
  · rw [hf, ← h'.trailing]
    rfl
  · rw [World.toSob_onSob, aons_of_files hfiles] at hq
    rw [hf]
    exact h'.covered hc q hq
  · rw [hf]
    exact h'.window
  · rw [hf]
    exact h'.queue

/-- Where there is a limit chain, its window is the part of the book on its side of the other best
price. -/
theorem LimitView.Ordered.inWindow (h : s.limitView.Ordered) (hq : s.limits q ≠ none) :
    Exec.Limit.inWindow bidSide s q = if bidSide then decide (q < s.ask) else decide (s.bid < q) := by
  have hwin := h.window q hq
  have hlt := h.bid_lt_ask
  simp only [Sob.limitView] at hwin hlt
  cases bidSide <;> simp only [Exec.Limit.inWindow, Bool.false_eq_true, if_false, if_true] <;>
    rw [decide_eq_decide] <;> omega

theorem Passed.fillableAt (h : Passed bidSide p gone w w') (ho : w.limitView.Ordered)
    (ho' : w'.limitView.Ordered) (hq : q ≠ p) :
    fillableAt bidSide w'.toSob q = fillableAt bidSide w.toSob q := by
  unfold SimpleOrderbook.fillableAt
  rw [h.aons q hq]
  by_cases hl : w.limits q = none
  · rw [h.limits q hq, hl]
    simp
  · have hl' : w'.limits q ≠ none := by rwa [h.limits q hq]
    have hfar := h.far
    rw [ho.inWindow hl, ho'.inWindow hl', h.limits q hq]
    cases bidSide
    · simp only [Bool.false_eq_true, if_false] at hfar ⊢
      rw [hfar]
    · simp only [if_true] at hfar ⊢
      rw [hfar]

theorem fillableAt_of_outside (hc : s.AonsCovered bidSide)
    (hq : Exec.Core.insideOf bidSide (Exec.Core.begin_ bidSide s) q = false ∨
      Exec.Core.insideOf bidSide q (Exec.Core.end_ bidSide s) = false) :
    fillableAt bidSide s q = [] := by
  have haons : s.aons bidSide q = none := by
    by_contra hne
    have := hc q hne
    cases bidSide <;> simp [Exec.Aon.inWindow, Exec.Core.insideOf, Exec.Core.begin_,
      Exec.Core.end_] at this hq <;> omega
  have hout : Exec.Limit.inWindow bidSide s q = false := by
    cases bidSide <;> simp [Exec.Limit.inWindow, Exec.Core.insideOf, Exec.Core.begin_,
      Exec.Core.end_] at hq ⊢ <;> omega
  unfold fillableAt
  rw [haons, hout]
  rfl

theorem Passed.listed (h : Passed bidSide p gone w w')
    (hgone : ∀ i ∈ gone, ∃ c, w.idCache i = some c ∧ c.p = p) (hq : q ≠ p)
    (hl : w.Listed bidSide q) : w'.Listed bidSide q := by
  have hkept : ∀ i c, w.idCache i = some c → c.p = q → w'.idCache i = some c := by
    intro i c hc hcp
    rw [h.cache i, hc]
    intro hi
    obtain ⟨c', hc', hcp'⟩ := hgone i hi
    rw [hc] at hc'
    cases hc'
    exact hq (hcp ▸ hcp')
  obtain ⟨h1, h2, h3, h4⟩ := hl
  unfold Sob.limitIds at h2
  refine ⟨?_, ?_, ?_, ?_⟩
  · rwa [h.limits q hq]
  · unfold Sob.limitIds
    rwa [h.limits q hq]
  · rw [h.limits q hq]
    exact fun b hb => hkept _ _ (h3 b hb) rfl
  · rw [h.aons q hq]
    intro b hb
    obtain ⟨c, hc, hcp, hty⟩ := h4 b hb
    exact ⟨c, hkept _ _ hc hcp, hcp, hty⟩

theorem Passed.quiet (h : Passed bidSide p gone w w') (hq : w.Quiet) : w'.Quiet := by
  have ht := h.trailing
  simp only [Prod.mk.injEq] at ht
  exact ⟨by rw [h.stops]; exact hq.stops, by rw [ht.1, ht.2]; exact hq.trailing⟩

end Behind

/-! ## The sweep takes what the scan finds -/

section Sweep
variable {bidSide : Bool} {p plev id size : Nat} {cb : OrderExecCbBndl} {w : World}

theorem wp_sweep_zero {endp n high low : Nat} {Q : Nat × Nat × Nat → World → Prop}
    {E : Err → World → Prop} (h : Q (0, high, low) w) :
    wp (sweep bidSide plev endp id cb n p 0 high low) Q E w := by
  cases n with
  | zero => exact wp_pure h
  | succ n => exact wp_ite (fun hc => absurd rfl hc.1) fun _ => wp_pure h

/-- Both chains of a level, from a state that is ready for it. -/
theorem wp_level_take (h : w.Ready bidSide p) :
    wp (tradeAons bidSide p id cb size >>= tradeLimits bidSide p id cb) (fun r w' =>
      r = takeOrders (fillableAt bidSide w.toSob p) size ∧ w'.Quiet ∧
      (r ≠ 0 → w'.limitView.Ordered ∧ w'.AonsCovered bidSide ∧
        (∀ q, q ≠ p → fillableAt bidSide w'.toSob q = fillableAt bidSide w.toSob q) ∧
        ∀ q, q ≠ p → w.Listed bidSide q → w'.Listed bidSide q)) (fun _ _ => False) w := by
  obtain ⟨hunc, hnodup, hlims, haons⟩ := h.listed p (by cases bidSide <;> simp [Exec.Core.insideOf])
  refine (wp_tradeAons_take h.covered).bind ?_
  rintro _ w1 ⟨rfl, gone1, hmet1, hlim1, -, -, -, hsub1⟩
  have hat1 : ∀ i ∈ gone1, ∃ c, w.idCache i = some c ∧ c.p = p := fun i hi => by
    obtain ⟨b, hb, rfl⟩ := List.mem_map.mp (hsub1 i hi)
    obtain ⟨c, hc, hp, -⟩ := haons b hb
    exact ⟨c, hc, hp⟩
  -- the orders of the limit chain are none of those of the AON chain
  have hcache1 : ∀ b ∈ (w.limits p).elems, w1.idCache b.id = some ⟨.limit, p⟩ := fun b hb => by
    rw [hmet1.cache b.id, hlims b hb]
    intro hi
    obtain ⟨x, hx, hid⟩ := List.mem_map.mp (hsub1 _ hi)
    obtain ⟨c, hc, -, hty⟩ := haons x hx
    rw [hid, hlims b hb] at hc
    cases hc
    exact hty rfl
  have hv : w1.limitView = w.limitView := by
    have hin := hmet1.inside
    simp only [Prod.mk.injEq] at hin
    obtain ⟨e1, e2, e3, e4, e5⟩ := hin
    unfold Sob.limitView
    rw [hlim1, e1, e2, e3, e4, e5]
  have ho1 : w1.limitView.Ordered := hv ▸ h.ordered
  have hside : Exec.Limit.inWindow bidSide w1.toSob p = true → decide (p < w1.ask) = bidSide := by
    have hlt : w1.bid < w1.ask := ho1.bid_lt_ask
    intro hwin
    cases bidSide <;> simp [Exec.Limit.inWindow] at hwin ⊢ <;> omega
  have hwin1 : Exec.Limit.inWindow bidSide w1.toSob p = Exec.Limit.inWindow bidSide w.toSob p := by
    simp only [Sob.limitView, LimitView.mk.injEq] at hv
    obtain ⟨-, e1, e2, e3, e4, -⟩ := hv
    unfold Exec.Limit.inWindow
    rw [e1, e2, e3, e4]
  refine (wp_tradeLimits_take (ho1.nonempty p) (by unfold Sob.limitIds; rwa [hlim1])
    (by rwa [hlim1]) (fun b hb => hcache1 b (hlim1 ▸ hb)) hside).post ?_
  rintro r w2 ⟨hr, -, gone2, w3, hmet3, hsub3, hw2⟩
  have hat3 : ∀ i ∈ gone1 ++ gone2, ∃ c, w.idCache i = some c ∧ c.p = p := fun i hi => by
    rcases List.mem_append.mp hi with hi | hi
    · exact hat1 i hi
    · have hi' := hsub3 i hi
      unfold Sob.limitIds at hi'
      rw [hlim1] at hi'
      obtain ⟨b, hb, rfl⟩ := List.mem_map.mp hi'
      exact ⟨_, hlims b hb, rfl⟩
  have hpassed : Passed bidSide p (gone1 ++ gone2) w w2 := by
    have h13 := hmet1.trans hmet3
    rcases hw2 with rfl | ⟨rfl, -⟩ | rfl
    · have h1 := hmet1.passed
      exact ⟨h1.limits, h1.aons, fun i hi => h1.cache i fun hg => hi (List.mem_append_left _ hg),
        h1.far, h1.stops, h1.trailing, h1.covered, h1.window, h1.queue⟩
    · exact h13.passed
    · exact h13.freed
  refine ⟨?_, hpassed.quiet h.quiet, fun h0 => ?_⟩
  · rw [hr, hwin1, hlim1]
    unfold fillableAt
    rw [takeOrders_append]
    rfl
  have ho2 : w2.limitView.Ordered := by
    rcases hw2 with rfl | ⟨-, rfl⟩ | rfl
    · exact ho1
    · exact absurd rfl h0
    · have h3 : (w3.setLimits p none).limitView = (w1.setLimits p none).limitView := by
        have hin := hmet3.inside
        simp only [Prod.mk.injEq] at hin
        obtain ⟨e1, e2, e3, e4, e5⟩ := hin
        refine limitView_of_off ((Sob.limits_setLimits ..).trans (if_pos rfl)) (fun q hq => ?_) e5 ?_
        · rw [Sob.limits_setLimits, if_neg hq, hmet3.limits q hq]
        · simp only [Prod.mk.injEq]
          exact ⟨e1, e2, e3, e4⟩
      have ho3 := h3 ▸ ho1.setLimits_none (p := p)
      cases bidSide
      · exact ho3.findNewBestInside_ask
      · exact ho3.findNewBestInside_bid
  exact ⟨ho2, hpassed.covered h.covered, fun q hq => hpassed.fillableAt h.ordered ho2 hq,
    fun q hq => hpassed.listed hat3 hq⟩

/-- The loop of `_trade` takes what a scan of the levels ahead finds in the state it starts from. -/
theorem wp_sweep_take {endp n high low : Nat} (h : w.Ready bidSide p) (h1 : 0 < plev)
    (hend : ∀ q, Exec.Core.insideOf bidSide p q = true → Exec.Core.insideOf bidSide q endp = false →
      fillableAt bidSide w.toSob q = [])
    (hn : Exec.Core.distance bidSide p plev ≤ n) :
    wp (sweep bidSide plev endp id cb n p size high low) (fun r w' => r.1 = takeOrders
      ((Exec.Core.scan bidSide p plev).flatMap (fillableAt bidSide w.toSob)) size ∧ w'.Quiet)
      (fun _ _ => False) w := by
  induction n generalizing w p size high low with
  | zero =>
    have hout : Exec.Core.insideOf bidSide p plev = false := by
      cases bidSide <;> simp [Exec.Core.distance, Exec.Core.insideOf] at hn ⊢ <;> omega
    rw [Exec.Core.scan_nil hout]
    exact wp_pure ⟨rfl, h.quiet⟩
  | succ n ih =>
    unfold sweep
    refine wp_ite (fun hc => ?_) fun hc => wp_pure ⟨?_, h.quiet⟩
    · obtain ⟨-, hin, -⟩ := hc
      have hp0 : bidSide = true → 0 < p := by
        rintro rfl
        simp [Exec.Core.insideOf] at hin
        omega
      rw [Exec.Core.scan_cons hin h1, List.flatMap_cons, takeOrders_append]
      -- the source trades the two chains one after the other
      suffices hlevel : wp ((tradeAons bidSide p id cb size >>= tradeLimits bidSide p id cb) >>=
          fun size => do
            let s ← getSob
            let high' := if s.last > high then s.last else high
            let low' := if s.last > high then low else if s.last < low then s.last else low
            sweep bidSide plev endp id cb n (Exec.Core.nextOrJump bidSide s p) size high' low')
          (fun r w' => r.1 = takeOrders ((Exec.Core.scan bidSide (Exec.Core.next bidSide p) plev).flatMap
            (fillableAt bidSide w.toSob)) (takeOrders (fillableAt bidSide w.toSob p) size) ∧ w'.Quiet)
          (fun _ _ => False) w by
        rwa [bind_assoc] at hlevel
      refine (wp_level_take h).bind ?_
      rintro r w2 ⟨rfl, hquiet, hgo⟩
      refine wp_getSob_bind ?_
      by_cases h0 : takeOrders (fillableAt bidSide w.toSob p) size = 0
      · rw [h0, takeOrders_zero]
        exact wp_sweep_zero ⟨rfl, hquiet⟩
      obtain ⟨ho, hcov, hfill, hlist⟩ := hgo h0
      have hahead : ∀ q, Exec.Core.insideOf bidSide (Exec.Core.next bidSide p) q = true →
          q ≠ p ∧ Exec.Core.insideOf bidSide p q = true := fun q hq => by
        cases bidSide <;> simp [Exec.Core.insideOf, Exec.Core.next] at hq hp0 ⊢ <;> omega
      have hnext : Exec.Core.insideOf bidSide (Exec.Core.next bidSide p)
          (Exec.Core.nextOrJump bidSide w2.toSob p) = true := by
        cases bidSide <;> simp [Exec.Core.insideOf, Exec.Core.nextOrJump]
      have hfar : ∀ q, Exec.Core.insideOf bidSide (Exec.Core.nextOrJump bidSide w2.toSob p) q = true →
          Exec.Core.insideOf bidSide (Exec.Core.next bidSide p) q = true := fun q hq => by
        cases bidSide <;> simp [Exec.Core.insideOf] at hnext hq ⊢ <;> omega
      have hscan : (Exec.Core.scan bidSide (Exec.Core.next bidSide p) plev).flatMap
          (fillableAt bidSide w.toSob) =
          (Exec.Core.scan bidSide (Exec.Core.nextOrJump bidSide w2.toSob p) plev).flatMap
            (fillableAt bidSide w2.toSob) := by
        rw [List.flatMap_congr fun q hq =>
          (hfill q (hahead q (Exec.Core.mem_scan hq).1).1).symm]
        refine Exec.Core.flatMap_scan_skip h1 hnext fun q hq hq' _ => fillableAt_of_outside hcov (.inl ?_)
        cases bidSide <;> simp [Exec.Core.insideOf, Exec.Core.nextOrJump] at hq hq' ⊢ <;> omega
      rw [hscan]
      refine ih ⟨ho, hcov, hquiet, fun q hq => ?_⟩ (fun q hq hq' => ?_)
        (distance_nextOrJump _ h1 hin hn)
      · obtain ⟨hne, hq'⟩ := hahead q (hfar q hq)
        exact hlist q hne (h.listed q hq')
      · obtain ⟨hne, hq''⟩ := hahead q (hfar q hq)
        rw [hfill q hne]
        exact hend q hq'' hq'
    · by_cases h0 : size = 0
      · rw [h0, takeOrders_zero]
      by_cases hin : Exec.Core.insideOf bidSide p plev = true
      · have hall : (Exec.Core.scan bidSide p plev).flatMap (fillableAt bidSide w.toSob) = [] := by
          refine List.flatMap_eq_nil_iff.mpr fun q hq => ?_
          obtain ⟨hpq, -⟩ := Exec.Core.mem_scan hq
          refine hend q hpq ?_
          have hpe : Exec.Core.insideOf bidSide p endp = false := by
            by_contra hne
            exact hc ⟨h0, hin, by simpa using hne⟩
          cases bidSide <;> simp [Exec.Core.insideOf] at hpq hpe ⊢ <;> omega
        rw [hall]
        rfl
      · rw [Exec.Core.scan_nil (by simpa using hin)]
        rfl

end Sweep

end SimpleOrderbook
