import SimpleOrderbook.Growth
import SimpleOrderbook.Resident
import SimpleOrderbook.Sweep

/-!
# The windows of the stop chains

`exec::stop` moves the bounds of a side by one level when a chain is emptied, and a scan sets them
behind itself. They need not be tight, but no stop rests outside of them.

## Main results

* `StopWindows` — the windows cover the stops, also while a scan takes chains out of the book.
* `Run.stop_windows_cover` — at the end of every window and whenever triggered stops are looked for.
-/
namespace SimpleOrderbook

/-! ## Windows -/

/-- The bounds of the stops of a side. -/
def Sob.stopWindow (s : Sob) (buy : Bool) : Nat × Nat :=
  if buy then (s.lowBuyStop, s.highBuyStop) else (s.lowSellStop, s.highSellStop)

/-- Every stop rests in the window of its side. -/
def Sob.StopsCovered (s : Sob) : Prop :=
  ∀ buy p, s.HasStop buy p → (s.stopWindow buy).1 ≤ p ∧ p ≤ (s.stopWindow buy).2

/-- The bounds of either side are the sentinels or levels of the book. -/
def Sob.StopFrame (s : Sob) : Prop :=
  ∀ buy, beg ≤ (s.stopWindow buy).1 ∧ (s.stopWindow buy).2 < s.end_

/-- What decides whether the last trade is at a level of the book. -/
def Sob.lastView (s : Sob) := (s.last, s.needCheckForStops, s.end_)

/-- The windows of both sides, with that. -/
def Sob.stopView (s : Sob) := (s.stopWindow true, s.stopWindow false, s.lastView)

section Adjust
variable (side buy : Bool) (s : Sob) (p : Nat)

theorem stopWindow_adjustAfterInsert :
    (Exec.Stop.adjustStateAfterInsert side s p).stopWindow buy = if buy = side then
      (min p (s.stopWindow buy).1, max p (s.stopWindow buy).2) else s.stopWindow buy := by
  cases side <;> cases buy <;> rfl

/-- What is left of window `w` when level `p` loses its last stop. -/
def shrinkWindow (end_ : Nat) (w : Nat × Nat) (p : Nat) : Nat × Nat :=
  if w.2 = w.1 then (end_, beg - 1)
  else if p = w.2 then (w.1, w.2 - 1)
  else if p = w.1 then (w.1 + 1, w.2)
  else w

theorem stopWindow_adjustAfterPull :
    (Exec.Stop.adjustStateAfterPull side s p).stopWindow buy = if buy = side then
      shrinkWindow s.end_ (s.stopWindow buy) p else s.stopWindow buy := by
  unfold Exec.Stop.adjustStateAfterPull shrinkWindow Sob.stopWindow
  cases side <;> cases buy <;> simp only [if_true, if_false, Bool.false_eq_true, reduceCtorEq] <;>
    split_ifs <;> rfl

/-- A window shrinks to the levels other than `p`. -/
theorem mem_shrinkWindow {end_ q : Nat} {w : Nat × Nat} (hp : w.1 ≤ p ∧ p ≤ w.2)
    (hq : w.1 ≤ q ∧ q ≤ w.2) (hne : q ≠ p) :
    (shrinkWindow end_ w p).1 ≤ q ∧ q ≤ (shrinkWindow end_ w p).2 := by
  obtain ⟨low, high⟩ := w
  unfold shrinkWindow
  dsimp only at hp hq ⊢
  split_ifs <;> dsimp only <;> omega

/-- A scan leaves the levels in front of it. -/
theorem stopWindow_adjustAfterTrigger {q : Nat} (hq : (s.stopWindow buy).1 ≤ q ∧ q ≤ (s.stopWindow buy).2)
    (hahead : buy = side → if side then p < q else q < p) :
    ((Exec.Stop.adjustStateAfterTrigger side s p).stopWindow buy).1 ≤ q ∧
      q ≤ ((Exec.Stop.adjustStateAfterTrigger side s p).stopWindow buy).2 := by
  unfold Exec.Stop.adjustStateAfterTrigger Sob.stopWindow at *
  cases side <;> cases buy <;> simp at hq hahead ⊢ <;> split_ifs <;> dsimp only <;> omega

end Adjust

/-! ## Stops that come and go -/

/-- The stops of `s'` are stops of `s`, in the same windows. -/
structure StopsFade (s s' : Sob) : Prop where
  window : ∀ buy, s'.stopWindow buy = s.stopWindow buy
  end_eq : s'.end_ = s.end_
  stops : ∀ buy p, s'.HasStop buy p → s.HasStop buy p

section Stops
variable {s s' s'' : Sob} {p q : Nat} {buy : Bool} {b : StopBndl}

theorem StopsFade.of_view (hv : s'.stopView = s.stopView)
    (hs : ∀ buy p, s'.HasStop buy p → s.HasStop buy p) : StopsFade s s' := by
  refine ⟨fun buy => ?_, congrArg (·.2.2.2.2) hv, hs⟩
  cases buy
  · exact congrArg (·.2.1) hv
  · exact congrArg (·.1) hv

theorem StopsFade.trans (h : StopsFade s s') (h' : StopsFade s' s'') : StopsFade s s'' :=
  ⟨fun buy => (h'.window buy).trans (h.window buy), h'.end_eq.trans h.end_eq,
    fun buy p hp => h.stops buy p (h'.stops buy p hp)⟩

theorem StopsFade.covered (h : StopsFade s s') (hc : s.StopsCovered) : s'.StopsCovered :=
  fun buy p hp => h.window buy ▸ hc buy p (h.stops buy p hp)

theorem Sob.HasStop.of_stops (hs : s'.stops = s.stops) (h : s'.HasStop buy p) : s.HasStop buy p := by
  obtain ⟨x, hx, hbuy⟩ := h
  exact ⟨x, hs ▸ hx, hbuy⟩

theorem hasStop_of_findStop {id : Nat} (h : Chain.findStop (s.stops p).elems id = some b) :
    s.HasStop b.isBuy p :=
  ⟨b, Chain.findStop_mem h, rfl⟩

theorem StopsCovered.erasedStop (hc : s.StopsCovered) (hb : s.HasStop b.isBuy p) :
    (s.erasedStop p b).StopsCovered := by
  intro buy q hq
  have hold := (StopsShrink.erasedStop s p b).stops buy q hq
  unfold Sob.erasedStop at hq ⊢
  dsimp only at hq ⊢
  split at hq
  next he =>
    rw [if_pos he, stopWindow_adjustAfterPull]
    split
    next hside =>
      subst hside
      refine mem_shrinkWindow p (hc _ p hb) (hc _ q hold) ?_
      rintro rfl
      obtain ⟨x, hx, -⟩ := hq
      rw [stops_of_files (Exec.Stop.files_adjustStateAfterPull _ _ _),
        Option.isNone_iff_eq_none.mp he] at hx
      cases hx
    next => exact hc buy q hold
  next he =>
    rw [if_neg he]
    exact hc buy q hold

theorem hasStop_stopPush (h : (Chain.stopPush s p b).HasStop buy q) :
    s.HasStop buy q ∨ q = p ∧ buy = b.isBuy := by
  obtain ⟨x, hx, hbuy⟩ := h
  unfold Chain.stopPush at hx
  rw [stops_of_files (Exec.Stop.files_adjustStateAfterInsert _ _ _), Sob.stops_cacheEmplace,
    Sob.stops_setStops] at hx
  split at hx
  next heq =>
    rw [ChainManager.elems_push] at hx
    rcases List.mem_append.mp hx with hx | hx
    · exact .inl ⟨x, heq ▸ hx, hbuy⟩
    · exact .inr ⟨heq, List.mem_singleton.mp hx ▸ hbuy.symm⟩
  next => exact .inl ⟨x, hx, hbuy⟩

theorem stopWindow_stopPush : (Chain.stopPush s p b).stopWindow buy = if buy = b.isBuy then
    (min p (s.stopWindow buy).1, max p (s.stopWindow buy).2) else s.stopWindow buy := by
  have hemplace : ∀ buy, ((s.setStops p ((s.stops p).push b)).cacheEmplace b.id
      ⟨.stop, p⟩).stopWindow buy = s.stopWindow buy := by
    intro buy
    unfold Sob.cacheEmplace
    split <;> rfl
  unfold Chain.stopPush
  rw [stopWindow_adjustAfterInsert, hemplace]

theorem StopsCovered.stopPush (hc : s.StopsCovered) : (Chain.stopPush s p b).StopsCovered := by
  intro buy q hq
  rw [stopWindow_stopPush]
  rcases hasStop_stopPush hq with hold | ⟨rfl, rfl⟩
  · obtain ⟨hlow, hhigh⟩ := hc buy q hold
    split
    · exact ⟨(min_le_right _ _).trans hlow, hhigh.trans (le_max_right _ _)⟩
    · exact ⟨hlow, hhigh⟩
  · rw [if_pos rfl]
    exact ⟨min_le_left _ _, le_max_left _ _⟩

/-- The chain of level `p` is taken out by a scan that has passed the stops of its side behind. -/
theorem StopsCovered.detached (hc : s.StopsCovered) (side : Bool)
    (hbehind : ∀ q, (if side then q < p else p < q) → ¬ s.HasStop side q) :
    (Exec.Stop.adjustStateAfterTrigger side (s.setStops p none) p).StopsCovered := by
  rintro buy q ⟨x, hx, hbuy⟩
  rw [stops_of_files (Exec.Stop.files_adjustStateAfterTrigger _ _ _), Sob.stops_setStops] at hx
  split at hx
  next => cases hx
  next hne =>
    have hold : s.HasStop buy q := ⟨x, hx, hbuy⟩
    refine stopWindow_adjustAfterTrigger side buy (s.setStops p none) p (hc buy q hold) ?_
    rintro rfl
    have hnot : ¬ (if buy then q < p else p < q) := fun h => hbehind q h hold
    cases buy <;> simp at hnot ⊢ <;> omega

theorem lastView_stopPush : (Chain.stopPush s p b).lastView = s.lastView := by
  obtain ⟨_, _, _, _, he⟩ := Exec.Stop.adjustStateAfterInsert_eq b.isBuy
    ((s.setStops p ((s.stops p).push b)).cacheEmplace b.id ⟨.stop, p⟩) p
  unfold Chain.stopPush
  rw [he]
  unfold Sob.cacheEmplace
  split <;> rfl

theorem end_stopPush : (Chain.stopPush s p b).end_ = s.end_ := congrArg (·.2.2) lastView_stopPush

theorem lastView_adjustAfterTrigger (side : Bool) (s : Sob) (p : Nat) :
    (Exec.Stop.adjustStateAfterTrigger side (s.setStops p none) p).lastView = s.lastView := by
  obtain ⟨_, _, _, _, he⟩ := Exec.Stop.adjustStateAfterTrigger_eq side (s.setStops p none) p
  rw [he]
  rfl

theorem StopFrame.erasedStop (h : s.StopFrame) (hend : beg ≤ s.end_) :
    (s.erasedStop p b).StopFrame := by
  intro buy
  obtain ⟨hlow, hhigh⟩ := h buy
  have hsize : (s.erasedStop p b).end_ = s.end_ :=
    congrArg Prod.snd (grid_of_bookView (bookView_erasedStop s p b))
  rw [hsize]
  unfold Sob.erasedStop
  dsimp only
  split
  · rw [stopWindow_adjustAfterPull]
    split
    · unfold shrinkWindow
      split_ifs
      · exact ⟨hend, Nat.zero_lt_of_lt hhigh⟩
      · exact ⟨hlow, (Nat.sub_le _ _).trans_lt hhigh⟩
      · exact ⟨hlow.trans (Nat.le_succ _), hhigh⟩
      · exact ⟨hlow, hhigh⟩
    · exact ⟨hlow, hhigh⟩
  · exact ⟨hlow, hhigh⟩

theorem StopFrame.stopPush (h : s.StopFrame) (hp : s.HasLevel p) :
    (Chain.stopPush s p b).StopFrame := by
  intro buy
  obtain ⟨hlow, hhigh⟩ := h buy
  rw [stopWindow_stopPush, end_stopPush]
  split
  · exact ⟨le_min hp.1 hlow, max_lt hp.2 hhigh⟩
  · exact ⟨hlow, hhigh⟩

theorem StopFrame.detached (h : s.StopFrame) (hend : beg ≤ s.end_) (side : Bool)
    (hp : side = false → p < s.end_) :
    (Exec.Stop.adjustStateAfterTrigger side (s.setStops p none) p).StopFrame := by
  have hbuy : beg ≤ s.lowBuyStop ∧ s.highBuyStop < s.end_ := h true
  have hsell : beg ≤ s.lowSellStop ∧ s.highSellStop < s.end_ := h false
  have hsize : (Exec.Stop.adjustStateAfterTrigger side (s.setStops p none) p).end_ = s.end_ :=
    congrArg (·.2.2) (lastView_adjustAfterTrigger ..)
  intro buy
  rw [hsize]
  unfold Exec.Stop.adjustStateAfterTrigger Sob.stopWindow beg at *
  cases side <;> cases buy <;> simp at hp ⊢ <;> split_ifs <;> dsimp only [Sob.setStops, Sob.setLevel] <;> omega

theorem stopView_updateAt (s : Sob) (c : ChainIterWrap) (id : Nat) (g : OrderBndl → OrderBndl) :
    (s.updateAt c id g).stopView = s.stopView := by
  unfold Sob.updateAt
  split <;> rfl

theorem stopView_copiedToAons (s : Sob) (buyLimit : Bool) (p : Nat) (b : LimitBndl)
    (c : ChainIterWrap) : (s.copiedToAons buyLimit p b c).stopView = s.stopView := by
  obtain ⟨_, _, _, _, h⟩ := Exec.Aon.adjustStateAfterInsert_eq buyLimit
    ((s.setAons true p ((s.aons true p).push b)).cacheInsert b.id
      ⟨if buyLimit then .aonBuy else .aonSell, c.p⟩) p
  unfold Sob.copiedToAons
  rw [h]
  rfl

theorem stopView_trailingErased (s : Sob) (id : Nat) (isBuy : Bool) :
    (s.trailingErased id isBuy).stopView = s.stopView := by
  cases isBuy <;> rfl

theorem stopView_report (w : World) (msg : CallbackMsg) (cb : OrderExecCbBndl) (id1 id2 : Nat)
    (price : Int) (sz : Nat) : (w.report msg cb id1 id2 price sz).stopView = w.stopView := by
  obtain ⟨_, _, h⟩ := w.report_eq msg cb id1 id2 price sz
  rw [h]
  rfl

theorem StopsFade.traded (w : World) (plev size idbuy idsell : Nat) (cbbuy cbsell : OrderExecCbBndl) :
    StopsFade w.toSob (w.traded plev size idbuy idsell cbbuy cbsell).toSob := by
  obtain ⟨_, _, h⟩ := w.traded_eq plev size idbuy idsell cbbuy cbsell
  rw [h]
  exact ⟨fun _ => rfl, rfl, fun _ _ hs => hs⟩

theorem last_traded (w : World) (plev size idbuy idsell : Nat) (cbbuy cbsell : OrderExecCbBndl) :
    (w.traded plev size idbuy idsell cbbuy cbsell).last = plev := by
  obtain ⟨_, _, h⟩ := w.traded_eq plev size idbuy idsell cbbuy cbsell
  rw [h]

/-- The window of the AONs follows a chain that was freed. -/
theorem stopView_freedAon (s : Sob) (buys : Bool) (p : Nat) :
    (Exec.Aon.adjustStateAfterPull buys (s.setAons buys p none) p).stopView = s.stopView := by
  obtain ⟨_, _, _, _, h⟩ := Exec.Aon.adjustStateAfterPull_eq buys (s.setAons buys p none) p
  rw [h]
  rfl

theorem stops_freedAon (s : Sob) (buys : Bool) (p : Nat) :
    (Exec.Aon.adjustStateAfterPull buys (s.setAons buys p none) p).stops = s.stops := by
  rw [stops_of_files (Exec.Aon.files_adjustStateAfterPull _ _ _)]
  funext q
  exact Sob.stops_setAons ..

theorem stopView_freeLimits (s : Sob) (bidSide : Bool) (p : Nat) :
    (Exec.Core.findNewBestInside bidSide (s.setLimits p none)).stopView = s.stopView := by
  obtain ⟨_, _, _, _, h⟩ := Exec.Core.findNewBestInside_eq bidSide (s.setLimits p none)
  rw [h]
  rfl

theorem stopView_erasedAon (s : Sob) (isBuy : Bool) (p id : Nat) :
    (s.erasedAon isBuy p id).stopView = s.stopView := by
  unfold Sob.erasedAon
  dsimp only
  split
  · obtain ⟨_, _, _, _, h⟩ := Exec.Aon.adjustStateAfterPull_eq isBuy ((s.setAons isBuy p
      (ChainManager.ofList (Chain.eraseLimit (s.aons isBuy p).elems id))).cacheErase id) p
    rw [h]
    rfl
  · rfl

theorem stopView_cacheEmplace (s : Sob) (id : Nat) (c : ChainIterWrap) :
    (s.cacheEmplace id c).stopView = s.stopView := by
  unfold Sob.cacheEmplace
  split <;> rfl

theorem stopView_limitPush (s : Sob) (buy : Bool) (p : Nat) (b : LimitBndl) :
    (Chain.limitPush buy s p b).stopView = s.stopView :=
  (by cases buy <;> rfl : (Chain.limitPush buy s p b).stopView = _).trans
    (stopView_cacheEmplace (s.setLimits p ((s.limits p).push b)) b.id ⟨.limit, p⟩)

theorem stops_limitPush (s : Sob) (buy : Bool) (p : Nat) (b : LimitBndl) :
    (Chain.limitPush buy s p b).stops = s.stops := by
  unfold Chain.limitPush
  rw [stops_of_files (Exec.Limit.files_adjustStateAfterInsert _ _ _)]
  funext q
  rw [Sob.stops_cacheEmplace, Sob.stops_setLimits]

theorem stopView_aonPush (s : Sob) (buy : Bool) (p : Nat) (b : AonBndl) :
    (Chain.aonPush buy s p b).stopView = s.stopView :=
  (by cases buy <;> rfl : (Chain.aonPush buy s p b).stopView = _).trans
    (stopView_cacheEmplace (s.setAons buy p ((s.aons buy p).push b)) b.id
      ⟨if buy then .aonBuy else .aonSell, p⟩)

theorem stops_aonPush (s : Sob) (buy : Bool) (p : Nat) (b : AonBndl) :
    (Chain.aonPush buy s p b).stops = s.stops := by
  unfold Chain.aonPush
  rw [stops_of_files (Exec.Aon.files_adjustStateAfterInsert _ _ _)]
  funext q
  rw [Sob.stops_cacheEmplace, Sob.stops_setAons]

end Stops

section Transitions
variable {c c' : Config}

/-- Pulls and handlers leave the windows alone, unless they take a stop out of its chain. -/
theorem Act.stopView (h : Act c c') : c'.2.stopView = c.2.stopView ∨
    ∃ p b, c.2.HasStop b.isBuy p ∧ c'.2.toSob = c.2.erasedStop p b := by
  cases h with
  | report => exact .inl (stopView_report ..)
  | moveFront => exact .inl (stopView_copiedToAons ..)
  | @settle F w p =>
    obtain ⟨_, _, _, _, h⟩ := Exec.Limit.adjustStateAfterPull_eq (decide (p ≤ w.bid)) w.toSob p
    rw [World.toSob_onSob, h]
    exact .inl rfl
  | popAon => exact .inl (stopView_erasedAon ..)
  | @popStop F w id cw b hc hb => exact .inr ⟨cw.p, b, hasStop_of_findStop hb, rfl⟩
  | trailingErase => exact .inl (stopView_trailingErased ..)
  | grow | tell => exact .inl (stopView_updateAt ..)
  | growBoth =>
    exact .inl ((stopView_updateAt ..).trans ((stopView_report ..).trans (stopView_updateAt ..)))
  | _ => exact .inl rfl

/-- The stops a scan has behind it: none below the buy stops it began with, and none above the sell
stops it turned to. -/
structure Scan.Behind (sc : Scan) (s : Sob) : Prop where
  last : 0 < s.last
  buys : ∀ p < sc.start.lowBuyStop, ¬ s.HasStop true p
  sells : ∀ t, sc.turn = some t → t.highSellStop < s.end_ ∧ ∀ p, t.highSellStop < p → ¬ s.HasStop false p

/-- A scan is called when the windows cover the stops, and looks at levels of the book only. -/
def Event.ScansLevels : Event → Prop
  | .lookForTriggeredStops s =>
    s.StopsCovered ∧ ∀ p, s.lowBuyStop ≤ p → p ≤ s.last → s.HasLevel p
  | .lookForSellStops s => ∀ p, s.last ≤ p → p ≤ s.highSellStop → s.HasLevel p
  | _ => True

structure StopWindows (c : Config) : Prop where
  covered : c.2.StopsCovered
  frame : c.2.StopFrame
  last : c.2.LastOk
  scan : ∀ sc, c.1.scan = some sc → sc.Behind c.2.toSob
  calls : ∀ ev ∈ c.2.trace, ev.ScansLevels

theorem Sob.LastOk.of_lastView {s s' : Sob} (h : s.LastOk) (hv : s'.lastView = s.lastView) :
    s'.LastOk := by
  have hlast : s'.last = s.last := congrArg (·.1) hv
  have hneed : s'.needCheckForStops = s.needCheckForStops := congrArg (·.2.1) hv
  have hend : s'.end_ = s.end_ := congrArg (·.2.2) hv
  unfold Sob.LastOk
  rwa [hlast, hneed, hend]

namespace StopWindows

theorem calls_of_news (h : StopWindows c) {trace : List Event} (hn : News c trace) :
    ∀ ev ∈ trace, ev.ScansLevels := by
  intro ev hm
  rcases hn ev hm with hm | hev
  · exact h.calls ev hm
  cases ev with
  | lookForTriggeredStops s =>
    obtain ⟨rfl, -⟩ := hev s rfl
    exact ⟨h.covered, fun p hlow hhigh => ⟨(h.frame true).1.trans hlow, hhigh.trans_lt h.last.1⟩⟩
  | lookForSellStops s =>
    obtain ⟨rfl, hscan⟩ := hev s rfl
    obtain ⟨sc, hsc⟩ := Option.ne_none_iff_exists'.mp hscan
    exact fun p hlow hhigh => ⟨(h.scan sc hsc).last.trans_le hlow, hhigh.trans_lt (h.frame false).2⟩
  | _ => trivial

/-- Some stops are gone, and the windows stay. -/
theorem fade (h : StopWindows c) (hn : News c c'.2.trace) (hf : StopsFade c.2.toSob c'.2.toSob)
    (hlast : c'.2.LastOk)
    (hscan : ∀ sc, c'.1.scan = some sc → c.1.scan = some sc ∧ c'.2.last = c.2.last) :
    StopWindows c' := by
  refine ⟨hf.covered h.covered, fun buy => ?_, hlast, fun sc hsc => ?_, h.calls_of_news hn⟩
  · rw [hf.window, hf.end_eq]
    exact h.frame buy
  · obtain ⟨hsc, hl⟩ := hscan sc hsc
    have hb := h.scan sc hsc
    refine ⟨hl.symm ▸ hb.last, fun p hp hs => hb.buys p hp (hf.stops true p hs), fun t ht => ?_⟩
    rw [hf.end_eq]
    exact ⟨(hb.sells t ht).1, fun p hp hs => (hb.sells t ht).2 p hp (hf.stops false p hs)⟩

theorem same (h : StopWindows c) (hn : News c c'.2.trace) (hv : c'.2.stopView = c.2.stopView)
    (hs : ∀ buy p, c'.2.HasStop buy p → c.2.HasStop buy p)
    (hscan : ∀ sc, c'.1.scan = some sc → c.1.scan = some sc) : StopWindows c' :=
  h.fade hn (.of_view hv hs) (h.last.of_lastView (congrArg (·.2.2) hv)) fun sc hsc =>
    ⟨hscan sc hsc, congrArg (·.2.2.1) hv⟩

theorem act (h : StopWindows c) (hend : beg ≤ c.2.end_) (ha : Act c c') : StopWindows c' := by
  have hq := ha.quiet
  have hscan : ∀ sc, c'.1.scan = some sc → c.1.scan = some sc := fun sc hsc => hq.scan ▸ hsc
  rcases ha.stopView with hv | ⟨p, b, hb, heq⟩
  · exact h.same ha.news hv hq.stops.stops hscan
  · obtain ⟨_, _, _, _, _, _, he⟩ := c.2.erasedStop_eq p b
    have hlast : c'.2.last = c.2.last ∧ c'.2.needCheckForStops = c.2.needCheckForStops ∧
        c'.2.end_ = c.2.end_ := by rw [heq, he]; exact ⟨rfl, rfl, rfl⟩
    refine ⟨?_, ?_, ?_, fun sc hsc => ?_, h.calls_of_news ha.news⟩
    · rw [heq]
      exact StopsCovered.erasedStop h.covered hb
    · rw [heq]
      exact StopFrame.erasedStop h.frame hend
    · unfold Sob.LastOk
      rw [hlast.1, hlast.2.1, hlast.2.2]
      exact h.last
    · have hbh := h.scan sc (hscan sc hsc)
      refine ⟨hlast.1.symm ▸ hbh.last, fun q hq' hs => hbh.buys q hq' (hq.stops.stops true q hs),
        fun t ht => ?_⟩
      rw [hlast.2.2]
      exact ⟨(hbh.sells t ht).1, fun q hq' hs => (hbh.sells t ht).2 q hq' (hq.stops.stops false q hs)⟩

/-- A trade at a level of the book. -/
theorem traded (h : StopWindows c) (hn : News c c'.2.trace) (hnone : c'.1.scan = none)
    (hf : StopsFade c.2.toSob c'.2.toSob) (hlevel : c.2.HasLevel c'.2.last) : StopWindows c' := by
  refine h.fade hn hf ⟨?_, fun _ => hlevel.1⟩ fun sc hsc => ?_
  · rw [hf.end_eq]
    exact hlevel.2
  · rw [hnone] at hsc
    cases hsc

/-- A stop is pushed when no scan is under way. -/
theorem pushed (h : StopWindows c) {p : Nat} {b : StopBndl} (hlevel : c.2.HasLevel p)
    (hnone : c'.1.scan = none) (hn : News c c'.2.trace)
    (heq : c'.2.toSob = Chain.stopPush c.2.toSob p b) : StopWindows c' := by
  refine ⟨heq ▸ StopsCovered.stopPush h.covered, heq ▸ StopFrame.stopPush h.frame hlevel, ?_,
    fun sc hsc => ?_, h.calls_of_news hn⟩
  · rw [heq]
    exact h.last.of_lastView lastView_stopPush
  · rw [hnone] at hsc
    cases hsc

theorem move (h : StopWindows c) (hw : WellFormed c) (hm : Move c c') : StopWindows c' := by
  have hn := hm.news
  cases hm with
  | act ha => exact h.act hw.levels.le ha
  | @fillAon F w bidSide plev id size cb b kept bs hands hh hl hne hsize hsz hscan =>
    have hf := StopsFade.traded w plev b.sz id b.id cb b.cb
    have hlevel : w.HasLevel plev := hw.aons bidSide plev (by simp [hl])
    refine h.traded hn hscan (hf.trans (.of_view rfl fun buy p hs => ?_)) ?_
    · exact Sob.HasStop.of_stops (by funext q; exact Sob.stops_setAons ..) hs
    · exact (last_traded w plev b.sz id b.id cb b.cb).symm ▸ hlevel
  | @fillLastAon F w bidSide plev id size cb b hands hh hl hsize hsz hscan =>
    have hf := StopsFade.traded w plev b.sz id b.id cb b.cb
    have hlevel : w.HasLevel plev := hw.aons bidSide plev (by simp [hl])
    let s1 := (w.traded plev b.sz id b.id cb b.cb).cacheErase b.id
    have hview := stopView_freedAon s1 bidSide plev
    refine h.traded hn hscan (hf.trans (.of_view hview fun buy p hs => ?_)) ?_
    · exact Sob.HasStop.of_stops (stops_freedAon s1 bidSide plev) hs
    · have hlast : (Exec.Aon.adjustStateAfterPull bidSide (s1.setAons bidSide plev none) plev).last =
          plev := (congrArg (·.2.2.1) hview).trans (last_traded w plev b.sz id b.id cb b.cb)
      exact hlast.symm ▸ hlevel
  | @fill F w H id size cb b todo hands hh hhit htodo hl hsize hb hact hscan =>
    have hlevel : w.HasLevel H.plev := hw.ambient.inRange fun hn => by
      rw [hn] at hl
      cases hl
    refine h.traded hn hscan (.traded ..) ?_
    exact (last_traded ..).symm ▸ hlevel
  | freeAon bidSide plev =>
    exact h.same hn (stopView_freedAon ..)
      (fun _ _ hs => hs.of_stops (stops_freedAon ..)) fun _ hs => hs
  | @moveHit F w H id size b cw =>
    exact h.same hn (stopView_copiedToAons ..) (fun buy p hs =>
      (StopsShrink.copiedToAons w.toSob _ H.plev b cw).stops buy p
        ((StopsShrink.updateLimit _ _ _ _).stops buy p hs)) fun _ hs => hs
  | rearm => exact h.same hn rfl (StopsShrink.updateLimit _ _ _ _).stops fun _ hs => hs
  | reduce => exact h.same hn rfl (StopsShrink.updateLimit _ _ _ _).stops fun _ hs => hs
  | @retire F w H a =>
    refine h.same hn rfl (fun buy p hs => ?_) fun _ hs => hs
    exact (StopsShrink.updateLimit w.toSob H.plev a.bndl.id fun x =>
      { x with sz := x.sz - a.amount }).stops buy p hs
  | eraseHit =>
    exact h.same hn rfl
      (fun _ _ hs => hs.of_stops (by funext q; exact Sob.stops_setLimits ..)) fun _ hs => hs
  | freeHit bidSide H =>
    exact h.same hn (stopView_freeLimits ..) (StopsShrink.freeLimits _ bidSide H.plev).stops
      fun _ hs => hs
  | wipeHit bidSide H =>
    exact h.same hn (stopView_freeLimits ..) (StopsShrink.freeLimits _ bidSide H.plev).stops
      fun _ hs => hs
  | @moveStop F w buyStops p id cw b nticks pAdj hc hb hn' hp hscan hlevel =>
    -- the stop is popped, reported and pushed
    have hpop : StopWindows ({ F.hold b.id b.sz with leaving := b :: F.leaving },
        w.onSob (·.erasedStop cw.p b)) := h.act hw.levels.le (.popStop id cw b hc hb)
    have hgrid : (w.onSob (·.erasedStop cw.p b)).end_ = w.end_ :=
      congrArg Prod.snd (grid_of_bookView (bookView_erasedStop w.toSob cw.p b))
    let msg := if b.isActiveTrailingStop then CallbackMsg.triggerTrailingStopAdjLoss
      else .triggerBracketAdjLoss
    have hrep : StopWindows (F, (w.onSob (·.erasedStop cw.p b)).report msg b.cb b.id b.id
        (w.itop pAdj) b.sz) := by
      refine hpop.same ?_ (stopView_report ..)
        (fun _ _ hs => hs.of_stops (stops_of_files (files_report ..))) fun _ hs => hs
      rw [trace_report]
      exact (News.refl (_, _)).cons_none rfl
    refine hrep.pushed ⟨hlevel.1, ?_⟩ hscan ?_ rfl
    · have hv := stopView_report (w.onSob (·.erasedStop cw.p b)) msg b.cb b.id b.id
        (w.itop pAdj) b.sz
      exact hlevel.2.trans_eq (hgrid.symm.trans (congrArg (·.2.2.2.2) hv).symm)
    · exact .refl (F, _)
  | @beginScan F w hscan hneed =>
    refine ⟨h.covered, h.frame, h.last, fun sc hsc => ?_, h.calls_of_news hn⟩
    cases hsc
    exact ⟨h.last.2 hneed, fun p hp hs => absurd (h.covered true p hs).1 (not_le.mpr hp),
      fun t ht => by cases ht⟩
  | @turnScan F w sc hscan hturn =>
    have hb := h.scan sc hscan
    refine ⟨h.covered, h.frame, h.last, fun sc' hsc => ?_, h.calls_of_news hn⟩
    cases hsc
    refine ⟨hb.last, hb.buys, fun t ht => ?_⟩
    cases ht
    exact ⟨(h.frame false).2, fun p hp hs => absurd (h.covered false p hs).2 (not_le.mpr hp)⟩
  | endScan =>
    refine ⟨h.covered, h.frame, ⟨h.last.1, fun hf => (by cases hf)⟩, fun sc hsc => ?_,
      h.calls_of_news hn⟩
    cases hsc
  | @detach F w buyStops plev sc hscan hdet hbuy hsell hdone =>
    have hb := h.scan sc hscan
    have hpassed : ∀ buy q, sc.Passed buyStops plev q → ¬ w.HasStop buy q := by
      rintro buy q hq ⟨x, hx, -⟩
      rw [hdone q hq] at hx
      cases hx
    have hbehind : ∀ q, (if buyStops then q < plev else plev < q) → ¬ w.HasStop buyStops q := by
      intro q hq
      cases buyStops with
      | true =>
        by_cases hlow : q < sc.start.lowBuyStop
        · exact hb.buys q hlow
        · exact hpassed true q ⟨not_lt.mp hlow, hq⟩
      | false =>
        obtain ⟨t, ht, -⟩ := hsell rfl
        by_cases hhigh : t.highSellStop < q
        · exact (hb.sells t ht).2 q hhigh
        · exact hpassed false q ⟨t, ht, hq, not_lt.mp hhigh⟩
    have hview := lastView_adjustAfterTrigger buyStops w.toSob plev
    have hend : (Exec.Stop.adjustStateAfterTrigger buyStops (w.setStops plev none) plev).end_ =
        w.end_ := congrArg (·.2.2) hview
    have hstops : ∀ buy q, (Exec.Stop.adjustStateAfterTrigger buyStops (w.setStops plev none)
        plev).HasStop buy q → w.HasStop buy q := by
      rintro buy q ⟨x, hx, hside⟩
      rw [stops_of_files (Exec.Stop.files_adjustStateAfterTrigger _ _ _), Sob.stops_setStops] at hx
      split at hx
      · cases hx
      · exact ⟨x, hx, hside⟩
    have hsize : buyStops = false → plev < w.end_ := fun hside => by
      obtain ⟨t, ht, -, hle⟩ := hsell hside
      exact hle.trans_lt (hb.sells t ht).1
    refine ⟨StopsCovered.detached h.covered buyStops hbehind,
      StopFrame.detached h.frame hw.levels.le buyStops hsize, h.last.of_lastView hview,
      fun sc' hsc' => ?_, h.calls_of_news hn⟩
    · obtain rfl : sc = sc' := Option.some.inj (hscan.symm.trans hsc')
      refine ⟨hb.last.trans_eq (congrArg Prod.fst hview).symm,
        fun q hq hs => hb.buys q hq (hstops true q hs), fun t ht => ?_⟩
      exact ⟨(hb.sells t ht).1.trans_eq hend.symm,
        fun q hq hs => (hb.sells t ht).2 q hq (hstops false q hs)⟩
  | eraseTriggered =>
    exact h.same hn (stopView_trailingErased ..)
      (fun _ _ hs => hs.of_stops (stops_of_files (files_trailingErased ..))) fun _ hs => hs
  | @turn F w d e todo order ids msg =>
    obtain ⟨_, _, heq⟩ := w.turned_eq msg e d.plev order
    refine h.same hn ?_ (fun buy p hs => ?_) fun _ hs => hs
    · rw [heq]
      rfl
    · exact hs.of_stops (stops_of_files (files_turned ..))
  | _ => exact h.same hn rfl (fun _ _ hs => hs) fun _ hs => hs

theorem step (h : StopWindows c) (hw : WellFormed c) (hnt : c.1.NoTrade) (hs : Step c c')
    (htrade : Moves c c' → StopWindows c') : StopWindows c' := by
  cases hs with
  | act ha => exact h.act hw.levels.le ha
  | trade bidSide plev id size r cb hF hp hpe hrun hm => exact htrade hm
  | @kill F w e cb id sz price =>
    refine h.same ?_ (stopView_report ..)
      (fun _ _ hs => hs.of_stops (stops_of_files (files_report ..))) fun _ hs => hs
    rw [trace_report]
    exact (News.refl (F, w)).cons_none rfl
  | @print F w p id1 id2 sz1 sz2 n cb1 cb2 hands hh hn h1 h2 hlevel =>
    refine h.traded ?_ hnt.scan (.traded (w.log (.preTradePrint w.toSob p)) ..) ?_
    · rw [trace_traded]
      exact ((((News.refl (F, w)).cons ⟨rfl, by exact trivial⟩).cons_none rfl).cons_none rfl).cons_none rfl
    · exact (last_traded (w.log (.preTradePrint w.toSob p)) p n id1 id2 cb1 cb2).symm ▸ hlevel
  | @accept F w e => exact h.same ((News.refl (F, w)).cons_none rfl) rfl (fun _ _ hs => hs) fun _ hs => hs
  | @pushLimit F w buy p b =>
    exact h.same (.refl (F, w)) (stopView_limitPush ..)
      (fun _ _ hs => hs.of_stops (stops_limitPush ..)) fun _ hs => hs
  | @pushAon F w buy p b =>
    exact h.same (.refl (F, w)) (stopView_aonPush ..)
      (fun _ _ hs => hs.of_stops (stops_aonPush ..)) fun _ hs => hs
  | @pushStop F w p b hands ids hh hids hpay e hins hb hsz hbuy hlevel =>
    exact h.pushed hlevel hnt.scan (.refl (F, w)) rfl
  | @arm F w e id cw payload =>
    exact h.same (.refl (F, w)) (stopView_updateAt ..) (StopsShrink.updateAt _ _ _ _).stops fun _ hs => hs
  | @link F w e op id1 id2 c1 c2 =>
    refine h.same (.refl (F, w)) ((stopView_updateAt ..).trans (stopView_updateAt ..))
      (fun buy p hs => ?_) fun _ hs => hs
    exact (StopsShrink.updateAt _ _ _ _).stops buy p ((StopsShrink.updateAt _ _ _ _).stops buy p hs)
  | @openLoss F w e l cw p b nticks1 nticks2 ids hgap he hl hids hcond hb hc hsz hpay hp hlevel =>
    -- the target is linked to the stop, then the stop is pushed
    let armed := w.armed cw l.id e.condition e.trigger (.linkedOrder ⟨b.id, false, nticks1⟩)
    have harm : StopWindows (F, w.onSob fun _ => armed) :=
      h.same (.refl (F, w)) (stopView_updateAt ..) (StopsShrink.updateAt _ _ _ _).stops fun _ hs => hs
    have hend : armed.end_ = w.end_ := congrArg Prod.snd (grid_updateAt ..)
    exact harm.pushed ⟨hlevel.1, hlevel.2.trans_eq hend.symm⟩ hnt.scan (.refl (F, w.onSob _)) rfl
  | @trailingInsert F w id isBuy nticks =>
    refine h.same ((News.refl (F, w)).cons_none rfl) ?_ (fun _ _ hs => hs.of_stops ?_) fun _ hs => hs
    · cases isBuy <;> rfl
    · exact stops_of_files (files_trailingInserted ..)
  | @tellEntry F w e id cw payload =>
    exact h.same (.refl (F, w)) (stopView_updateAt ..) (StopsShrink.updateAt _ _ _ _).stops fun _ hs => hs
  | @beginOrder F w => exact h.same (.refl (F, w)) rfl (fun _ _ hs => hs) fun _ hs => hs
  | @endOrder F w => exact h.same (.refl (F, w)) rfl (fun _ _ hs => hs) fun _ hs => hs
  | @announce F w => exact h.same (.refl (F, w)) rfl (fun _ _ hs => hs) fun _ hs => hs
  | @addLeg F w => exact h.same (.refl (F, w)) rfl (fun _ _ hs => hs) fun _ hs => hs
  | @finish F w => exact h.same (.refl (F, w)) rfl (fun _ _ hs => hs) fun _ hs => hs
  | @forget F w => exact h.same (.refl (F, w)) rfl (fun _ _ hs => hs) fun _ hs => hs

/-- The windows move with their levels when the book grows. -/
theorem grow {qe : Option OrderQueueElem} {w : World} {base : Int} {incr : Nat} {atBeg : Bool}
    (h : StopWindows (.opened qe, w)) (hincr : incr ≠ 0) :
    StopWindows (.opened qe, { w with toSob := growBook base incr atBeg w.toSob }) := by
  have hoff : growOffset incr atBeg ≤ incr := growOffset_le
  have hend : (growBook base incr atBeg w.toSob).end_ = w.end_ + incr := end_growBook hincr
  have hwin : ∀ buy, (growBook base incr atBeg w.toSob).stopWindow buy =
      (if (w.stopWindow buy).1 = w.end_ then w.end_ + incr
        else (w.stopWindow buy).1 + growOffset incr atBeg,
       if (w.stopWindow buy).2 = 0 then 0 else (w.stopWindow buy).2 + growOffset incr atBeg) := by
    intro buy
    rw [growBook_of_ne hincr]
    cases buy <;> rfl
  have hcovered : w.StopsCovered := h.covered
  have hframe : w.StopFrame := h.frame
  have hlast : (growBook base incr atBeg w.toSob).last =
      if w.last = 0 then 0 else w.last + growOffset incr atBeg := by
    rw [growBook_of_ne hincr]
    rfl
  refine ⟨fun buy p hs => ?_, fun buy => ?_, ⟨?_, fun hneed => ?_⟩, fun sc hsc => ?_, h.calls⟩
  · obtain ⟨x, hx, hside⟩ := hs
    rw [stops_growBook hincr] at hx
    split at hx
    next => cases hx
    next hp =>
      obtain ⟨hlow, hhigh⟩ := hcovered buy _ ⟨x, hx, hside⟩
      obtain ⟨hbeg, hlt⟩ := hframe buy
      unfold beg at hbeg
      rw [hwin, if_neg (by omega), if_neg (by omega)]
      dsimp only
      omega
  · obtain ⟨hlow, hhigh⟩ := hframe buy
    rw [hwin, hend]
    constructor
    · dsimp only
      split <;> omega
    · dsimp only
      split <;> omega
  · have := h.last.1
    rw [hlast, hend]
    dsimp only at this
    split <;> omega
  · have hneed : w.needCheckForStops = true := by
      rw [growBook_of_ne hincr] at hneed
      exact hneed
    have := h.last.2 hneed
    rw [hlast]
    dsimp only at this
    split <;> omega
  · cases hsc

theorem close {qe' : Option OrderQueueElem} {F : Flight} {w w' : World} (h : StopWindows (F, w))
    (hc : w.ClosesTo w') : StopWindows (.opened qe', w') := by
  obtain ⟨⟨cbs, queue, hs⟩, ht⟩ := hc
  refine ⟨?_, ?_, ?_, fun sc hsc => (by cases hsc), fun ev hm => ?_⟩
  · change w'.toSob.StopsCovered
    rw [hs]
    exact h.covered
  · change w'.toSob.StopFrame
    rw [hs]
    exact h.frame
  · change w'.toSob.LastOk
    rw [hs]
    exact h.last
  · rcases ht with ht | ⟨dropped, ht⟩
    · exact h.calls ev (ht ▸ hm)
    · rw [ht] at hm
      rcases List.mem_cons.mp hm with rfl | hm
      · trivial
      · exact h.calls ev hm

end StopWindows

theorem StopWindows.kept : Kept StopWindows where
  move hw hm h := h.move hw hm
  step hw hnt hs h htrade := h.step hw hnt hs htrade
  grow _ hincr h := h.grow hincr
  close h hc := h.close hc

end Transitions

/-! ## Runs -/

theorem StopWindows.initial {w : World} (h : Initial w) (qe : Option OrderQueueElem) :
    StopWindows (.opened qe, w) := by
  obtain ⟨⟨base, incr, -, hincr, hw⟩, htrace⟩ := h
  have hnone : ∀ p, w.stops p = none := fun p => by rw [hw]; rfl
  refine ⟨fun buy p ⟨x, hx, _⟩ => ?_, fun buy => ?_, ?_, fun sc hsc => (by cases hsc), fun ev hm => ?_⟩
  · rw [hnone] at hx
    cases hx
  · change beg ≤ (w.toSob.stopWindow buy).1 ∧ (w.toSob.stopWindow buy).2 < w.toSob.end_
    rw [hw]
    cases buy <;> exact ⟨Nat.le_add_left _ _, Nat.succ_pos _⟩
  · change w.toSob.LastOk
    rw [hw]
    exact ⟨Nat.succ_pos _, fun h => by cases h⟩
  · rw [htrace] at hm
    cases hm

/-- As long as prices are on the book, the stop windows cover the stops at the end of every window and
whenever triggered stops are looked for, and no level off the book is looked at. -/
theorem AddressedRun.stop_windows_cover {w₀ w : World} {rs : List (Request × Outcome)}
    (h0 : Initial w₀) (h : AddressedRun w₀ rs w) (hoff : w.OnBook) : w.StopsCovered ∧
      (∀ s, .lookForTriggeredStops s ∈ w.trace →
        s.StopsCovered ∧ ∀ p, s.lowBuyStop ≤ p → p ≤ s.last → s.HasLevel p) ∧
      ∀ s, .lookForSellStops s ∈ w.trace → ∀ p, s.last ≤ p → p ≤ s.highSellStop → s.HasLevel p := by
  have hw : StopWindows (.opened none, w) :=
    StopWindows.kept.run (fun _ h hc => h.close hc) h0 (.initial h0) (h.exact hoff) none
  exact ⟨hw.covered, fun s hs => hw.calls _ hs, fun s hs => hw.calls _ hs⟩

/-- The scan has taken the buy stop at level 15, and the windows hold the other two. -/
theorem stop_windows_after_trigger : ∃ rs w, AddressedRun (World.create 88 20) rs w ∧
    rs.map (·.1) = [.limit true 90 5, .limit false 103 6, .stop true 102 1, .stop false 95 1,
      .stop true 105 2, .market true 5] ∧
    (w.lowBuyStop, w.highBuyStop, w.lowSellStop, w.highSellStop) = (17, 18, 8, 8) ∧
    w.StopsCovered ∧ (∀ s, .lookForTriggeredStops s ∈ w.trace →
      s.StopsCovered ∧ ∀ p, s.lowBuyStop ≤ p → p ≤ s.last → s.HasLevel p) ∧
    ∀ s, .lookForSellStops s ∈ w.trace → ∀ p, s.last ≤ p → p ≤ s.highSellStop → s.HasLevel p := by
  obtain ⟨rs, w, h, hoff, hrs, hw⟩ := AddressedRun.exists_of_exec 4
    [.limit true 90 5, .limit false 103 6, .stop true 102 1, .stop false 95 1, .stop true 105 2,
      .market true 5]
    (f := fun _ w => (w.lowBuyStop, w.highBuyStop, w.lowSellStop, w.highSellStop))
    (v := (17, 18, 8, 8)) (w := World.create 88 20) (by decide +kernel)
  exact ⟨rs, w, h, hrs, hw, h.stop_windows_cover (initial_create (by decide) (by decide)) hoff⟩

/-- A scan for triggered stops begins at level `low`, the last trade being at level `last`. -/
def Event.scansFrom (low last : Nat) : Event → Bool
  | .lookForTriggeredStops s => decide ((s.lowBuyStop, s.last) = (low, last))
  | _ => false

/-- The stop of a bracket is a limit order and has no stop price, so it rests on the pad in front of
level 1, where the next trade looks for it. -/
theorem stops_looked_for_on_the_pad :
    let ticket : AdvancedOrderTicket :=
      { condition := .bracket, trigger := .fillPartial, order1 := some (.byPrice true 0 3 0)
        order2 := some (.byPrice true 0 4 0) }
    ∃ rs w, MachineRun (World.create 1 20) rs w ∧
      rs.map (·.1) = [.limit false 8 4 ticket, .market true 4, .limit true 6 1, .limit false 6 1] ∧
      ∃ s, .lookForTriggeredStops s ∈ w.trace ∧ (s.lowBuyStop, s.last) = (0, 6) ∧ ¬ s.HasLevel 0 := by
  intro ticket
  obtain ⟨rs, w, h, hrs, hw⟩ := @Run.exists_of_execAll .machine _
    (fun _ w => w.trace.any (·.scansFrom 0 6)) true 4
    [.limit false 8 4 ticket, .market true 4, .limit true 6 1, .limit false 6 1] (World.create 1 20)
    (by decide +kernel)
  obtain ⟨ev, hev, hs⟩ := List.any_eq_true.mp hw
  cases ev with
  | lookForTriggeredStops s =>
    exact ⟨rs, w, h, hrs, s, hev, of_decide_eq_true hs, fun hl => absurd hl.1 (by decide)⟩
  | _ => cases hs

end SimpleOrderbook
