import SimpleOrderbook.Windows

/-!
# The trace of a run

The trace only grows, so what holds of every call of a run holds of every call made up to any point
of it.
-/
namespace SimpleOrderbook

/-! ## What few calls change -/

/-- The last trade, the volume and the callbacks that are due. -/
def Sob.tally (s : Sob) : Nat × Nat × List DfrdCbElem := (s.last, s.totalVolume, s.callbacksSync)

/-- What only trades, callbacks and orders of the engine change. -/
def Sob.records (s : Sob) : (Nat × Nat × List DfrdCbElem) × List OrderQueueElem :=
  (s.tally, s.internalOrderQueue)

namespace Sob
variable (s : Sob)

theorem records_settled (bidSide : Bool) (p : Nat) :
    (Exec.Limit.adjustStateAfterPull bidSide s p).records = s.records := by
  obtain ⟨_, _, _, _, h⟩ := Exec.Limit.adjustStateAfterPull_eq bidSide s p
  rw [h]
  rfl

theorem records_aonAdjust (bidSide : Bool) (p : Nat) :
    (Exec.Aon.adjustStateAfterPull bidSide s p).records = s.records := by
  obtain ⟨_, _, _, _, h⟩ := Exec.Aon.adjustStateAfterPull_eq bidSide s p
  rw [h]
  rfl

theorem records_triggered (buyStop : Bool) (p : Nat) :
    (Exec.Stop.adjustStateAfterTrigger buyStop s p).records = s.records := by
  obtain ⟨_, _, _, _, h⟩ := Exec.Stop.adjustStateAfterTrigger_eq buyStop s p
  rw [h]
  rfl

theorem records_freeLimits (bidSide : Bool) (p : Nat) :
    (Exec.Core.findNewBestInside bidSide (s.setLimits p none)).records = s.records := by
  obtain ⟨_, _, _, _, h⟩ := Exec.Core.findNewBestInside_eq bidSide (s.setLimits p none)
  rw [h]
  rfl

theorem records_erasedAon (isBuy : Bool) (p id : Nat) :
    (s.erasedAon isBuy p id).records = s.records := by
  unfold Sob.erasedAon
  dsimp only
  split
  · rw [records_aonAdjust]
    rfl
  · rfl

theorem records_erasedStop (p : Nat) (b : StopBndl) : (s.erasedStop p b).records = s.records := by
  obtain ⟨_, _, _, _, _, _, h⟩ := s.erasedStop_eq p b
  rw [h]
  rfl

theorem records_copiedToAons (buyLimit : Bool) (p : Nat) (b : LimitBndl) (c : ChainIterWrap) :
    (s.copiedToAons buyLimit p b c).records = s.records := by
  unfold Sob.copiedToAons
  obtain ⟨_, _, _, _, h⟩ := Exec.Aon.adjustStateAfterInsert_eq buyLimit
    ((s.setAons true p ((s.aons true p).push b)).cacheInsert b.id
      ⟨if buyLimit then .aonBuy else .aonSell, c.p⟩) p
  rw [h]
  rfl

theorem records_updateAt (c : ChainIterWrap) (id : Nat) (g : OrderBndl → OrderBndl) :
    (s.updateAt c id g).records = s.records := by
  unfold Sob.updateAt
  split <;> rfl

theorem records_trailingErased (id : Nat) (isBuy : Bool) :
    (s.trailingErased id isBuy).records = s.records := by
  cases isBuy <;> rfl

theorem records_trailingInserted (id : Nat) (isBuy : Bool) :
    (s.trailingInserted id isBuy).records = s.records := by
  cases isBuy <;> rfl

theorem records_cacheEmplace (id : Nat) (c : ChainIterWrap) :
    (s.cacheEmplace id c).records = s.records := by
  unfold Sob.cacheEmplace
  split <;> rfl

theorem records_limitPush (buy : Bool) (p : Nat) (b : LimitBndl) :
    (Chain.limitPush buy s p b).records = s.records :=
  (by cases buy <;> rfl : (Chain.limitPush buy s p b).records = _).trans
    (records_cacheEmplace (s.setLimits p ((s.limits p).push b)) b.id ⟨.limit, p⟩)

theorem records_aonPush (buy : Bool) (p : Nat) (b : AonBndl) :
    (Chain.aonPush buy s p b).records = s.records :=
  (by cases buy <;> rfl : (Chain.aonPush buy s p b).records = _).trans
    (records_cacheEmplace (s.setAons buy p ((s.aons buy p).push b)) b.id
      ⟨if buy then .aonBuy else .aonSell, p⟩)

theorem records_stopPush (p : Nat) (b : StopBndl) : (Chain.stopPush s p b).records = s.records := by
  unfold Chain.stopPush
  obtain ⟨_, _, _, _, h⟩ := Exec.Stop.adjustStateAfterInsert_eq b.isBuy
    ((s.setStops p ((s.stops p).push b)).cacheEmplace b.id ⟨.stop, p⟩) p
  rw [h]
  exact records_cacheEmplace _ _ _

end Sob

/-! ## What is said of it -/

/-- A call that neither trades, nor pushes a callback, nor accepts an order. -/
def Event.Unrecorded : Event → Prop
  | .trade .. | .callback .. | .insertOrder _ => False
  | _ => True

/-- Nor does it trigger a stop. -/
def Event.Untriggered : Event → Prop
  | .stopTriggered .. => False
  | ev => ev.Unrecorded

/-- The order `order` of the engine is queued. -/
def World.queued (w : World) (order : OrderQueueElem) : World :=
  (w.log (.pushInternalOrder order)).onSob fun s =>
    { s with internalOrderQueue := s.internalOrderQueue ++ [order] }

/-- `P` is about the records and the trace, and trades, callbacks, orders of the engine and stops that
become orders keep it. -/
structure OfRecords (P : World → Prop) : Prop where
  log : ∀ {w : World} {ev : Event}, ev.Untriggered → P w → P (w.log ev)
  onSob : ∀ {w : World} {f : Sob → Sob}, (f w.toSob).records = w.records → P w → P (w.onSob f)
  report : ∀ {w : World} (msg : CallbackMsg) (cb : OrderExecCbBndl) (id1 id2 : Nat) (price : Int)
    (sz : Nat), P w → P (w.report msg cb id1 id2 price sz)
  traded : ∀ {w : World} (plev size idbuy idsell : Nat) (cbbuy cbsell : OrderExecCbBndl),
    P w → P (w.traded plev size idbuy idsell cbbuy cbsell)
  queued : ∀ {w : World} (order : OrderQueueElem), P w → P (w.queued order)
  turned : ∀ {w : World} (msg : CallbackMsg) (e : StopBndl) (plev : Nat) (order : OrderQueueElem),
    order.id ≠ 0 → order.sz = e.sz → P w → P (w.turned msg e plev order)

section OfRecords
variable {P : World → Prop} (hP : OfRecords P)
include hP

theorem OfRecords.act {F F' : Flight} {w w' : World} (h : Act (F, w) (F', w')) (hp : P w) :
    P w' := by
  cases h with
  | report => exact hP.report _ _ _ _ _ _ hp
  | enqueue => exact hP.queued _ hp
  | pulled | missFront | pullEmptyStop | look => exact hP.log trivial hp
  | newId | popLimit => exact hP.onSob rfl hp
  | moveFront =>
    exact hP.onSob rfl (hP.onSob (Sob.records_copiedToAons _ _ _ _ _) (hP.log trivial hp))
  | settle => exact hP.onSob (Sob.records_settled _ _ _) hp
  | popAon => exact hP.onSob (Sob.records_erasedAon _ _ _ _) (hP.log trivial hp)
  | popStop => exact hP.onSob (Sob.records_erasedStop _ _ _) hp
  | trailingErase => exact hP.onSob (Sob.records_trailingErased _ _ _) hp
  | grow | tell => exact hP.onSob (Sob.records_updateAt _ _ _ _) hp
  | growBoth =>
    exact hP.onSob (Sob.records_updateAt _ _ _ _)
      (hP.report _ _ _ _ _ _ (hP.onSob (Sob.records_updateAt _ _ _ _) hp))
  | close | drop | lose => exact hp

theorem OfRecords.move {F F' : Flight} {w w' : World} (h : Move (F, w) (F', w')) (hp : P w) :
    P w' := by
  cases h with
  | act h => exact hP.act h hp
  | call ev hev => exact hP.log (by cases ev <;> trivial) hp
  | fillAon => exact hP.onSob rfl (hP.log trivial (hP.traded _ _ _ _ _ _ hp))
  | fillLastAon =>
    exact hP.onSob (Sob.records_aonAdjust _ _ _) (hP.log trivial (hP.traded _ _ _ _ _ _ hp))
  | freeAon => exact hP.onSob (Sob.records_aonAdjust _ _ _) hp
  | moveHit =>
    exact hP.onSob rfl (hP.onSob (Sob.records_copiedToAons _ _ _ _ _) (hP.log trivial hp))
  | fill => exact hP.traded _ _ _ _ _ _ hp
  | retire => exact hP.onSob rfl (hP.log trivial (hP.onSob rfl hp))
  | freeHit | wipeHit => exact hP.onSob (Sob.records_freeLimits _ _ _) hp
  | moveStop =>
    exact hP.onSob (Sob.records_stopPush _ _ _)
      (hP.report _ _ _ _ _ _ (hP.onSob (Sob.records_erasedStop _ _ _) hp))
  | beginHit | beginScan | turnScan => exact hP.log trivial hp
  | detach => exact hP.onSob (Sob.records_triggered _ _ _) hp
  | eraseTriggered => exact hP.onSob (Sob.records_trailingErased _ _ _) hp
  | turn _ _ _ _ _ _ _ _ _ _ hsz _ _ hid => exact hP.turned _ _ _ _ hid hsz hp
  | rearm | reduce | eraseHit | endScan | endTrigger => exact hP.onSob rfl hp
  | skip | missHit | beginTrigger | endDetached => exact hp

theorem OfRecords.moves {c c' : Config} (h : Moves c c') (hp : P c.2) : P c'.2 := by
  induction h with
  | refl => exact hp
  | tail _ h ih => exact hP.move h ih

/-- A step accepts an order, takes one off the queue, or does nothing of the kind. -/
theorem OfRecords.step {F F' : Flight} {w w' : World} (h : Step (F, w) (F', w'))
    (haccept : ∀ e ids, F.ids = e.id :: ids → F.cur = none → w' = w.log (.insertOrder e) → P w →
      P w')
    (hend : F' = { F with front := 0 } → F.front = 1 → F.ids = [] → w' = w.onSob (fun s =>
      { s with internalOrderQueue := s.internalOrderQueue.tail }) → P w → P w') (hp : P w) : P w' := by
  cases h with
  | act h => exact hP.act h hp
  | trade _ _ _ _ _ _ _ _ _ _ hm => exact hP.moves hm hp
  | kill => exact hP.report _ _ _ _ _ _ hp
  | print => exact hP.traded _ _ _ _ _ _ (hP.log trivial hp)
  | pushLimit => exact hP.onSob (Sob.records_limitPush _ _ _ _) hp
  | pushAon => exact hP.onSob (Sob.records_aonPush _ _ _ _) hp
  | pushStop => exact hP.onSob (Sob.records_stopPush _ _ _) hp
  | arm | tellEntry => exact hP.onSob (Sob.records_updateAt _ _ _ _) hp
  | link => exact hP.onSob ((Sob.records_updateAt _ _ _ _).trans (Sob.records_updateAt _ _ _ _)) hp
  | openLoss =>
    exact hP.onSob ((Sob.records_stopPush _ _ _).trans (Sob.records_updateAt _ _ _ _)) hp
  | trailingInsert => exact hP.onSob (Sob.records_trailingInserted _ _ _) (hP.log trivial hp)
  | accept e ids hids hhands hcur => exact haccept e ids hids hcur rfl hp
  | endOrder hfront hids => exact hend rfl hfront hids rfl hp
  | beginOrder | addLeg | finish | forget | announce => exact hp

end OfRecords

/-- `P` is about the tally and the trace, and trades and callbacks keep it. -/
structure OfTally (P : World → Prop) : Prop where
  log : ∀ {w : World} {ev : Event}, ev.Unrecorded → P w → P (w.log ev)
  onSob : ∀ {w : World} {f : Sob → Sob}, (f w.toSob).tally = w.tally → P w → P (w.onSob f)
  report : ∀ {w : World} (msg : CallbackMsg) (cb : OrderExecCbBndl) (id1 id2 : Nat) (price : Int)
    (sz : Nat), P w → P (w.report msg cb id1 id2 price sz)
  traded : ∀ {w : World} (plev size idbuy idsell : Nat) (cbbuy cbsell : OrderExecCbBndl),
    P w → P (w.traded plev size idbuy idsell cbbuy cbsell)

section OfTally
variable {P : World → Prop} (hP : OfTally P)
include hP

theorem OfTally.ofRecords : OfRecords P where
  log {w ev} hev h := hP.log (by cases ev <;> trivial) h
  onSob hf h := hP.onSob (congrArg Prod.fst hf) h
  report := hP.report
  traded := hP.traded
  queued _ h := hP.onSob rfl (hP.log trivial h)
  turned _ _ _ _ _ _ h :=
    hP.onSob rfl (hP.log trivial (hP.report _ _ _ _ _ _ (hP.log trivial h)))

theorem OfTally.moves {c c' : Config} (h : Moves c c') (hp : P c.2) : P c'.2 :=
  hP.ofRecords.moves h hp

theorem OfTally.steps (haccept : ∀ {w : World} (e : OrderQueueElem), P w → P (w.log (.insertOrder e)))
    {c c' : Config} (h : Steps c c') (hp : P c.2) : P c'.2 := by
  induction h with
  | refl => exact hp
  | tail _ h ih =>
    refine hP.ofRecords.step h (fun e _ _ _ heq hp => ?_) (fun _ _ _ heq hp => ?_) ih
    · exact heq ▸ haccept e hp
    · exact heq ▸ hP.onSob rfl hp

end OfTally

/-- Only an insertion accepts an order. -/
theorem OfTally.accepted (e : OrderQueueElem) (trace : List Event) :
    OfTally fun w => .insertOrder e ∈ w.trace → .insertOrder e ∈ trace where
  log {w ev} hev h hm := by
    rcases List.mem_cons.mp hm with rfl | hm
    · exact hev.elim
    · exact h hm
  onSob _ h hm := h hm
  report {w} msg cb id1 id2 price sz h hm := by
    rw [trace_report] at hm
    exact h ((List.mem_cons.mp hm).resolve_left (by simp))
  traded {w} plev size idbuy idsell cb1 cb2 h hm := by
    rw [trace_traded] at hm
    exact h (by simpa using hm)

theorem Moves.accepted {c c' : Config} (h : Moves c c') {e : OrderQueueElem}
    (he : .insertOrder e ∈ c'.2.trace) : .insertOrder e ∈ c.2.trace :=
  (OfTally.accepted e c.2.trace).moves h (fun hm => hm) he

/-! ## The trace grows -/

theorem trace_movedStop (w : World) (p : Nat) (b : StopBndl) (pAdj : Nat) :
    (w.movedStop p b pAdj).trace = .callback
      (if b.isActiveTrailingStop then .triggerTrailingStopAdjLoss else .triggerBracketAdjLoss)
      b.cb b.id b.id (w.itop pAdj) b.sz :: w.trace := by
  unfold World.movedStop
  rw [World.trace_onSob, trace_report]
  rfl

theorem Act.trace_suffix {c c' : Config} (h : Act c c') : c.2.trace <:+ c'.2.trace := by
  cases h with
  | report =>
    rw [trace_report]
    exact List.suffix_cons _ _
  | growBoth =>
    rw [World.trace_onSob, trace_report]
    exact List.suffix_cons _ _
  | enqueue | moveFront | missFront | popAon | pulled | pullEmptyStop | look => exact List.suffix_cons _ _
  | _ => exact List.suffix_refl _

theorem Move.trace_suffix {c c' : Config} (h : Move c c') : c.2.trace <:+ c'.2.trace := by
  cases h with
  | act h => exact h.trace_suffix
  | fillAon | fillLastAon =>
    rw [World.trace_onSob, World.trace_log, trace_traded]
    exact ⟨[_, _, _, _], rfl⟩
  | fill =>
    rw [trace_traded]
    exact ⟨[_, _, _], rfl⟩
  | moveStop =>
    rw [trace_movedStop]
    exact List.suffix_cons _ _
  | turn =>
    rw [trace_turned]
    exact ⟨[_, _, _], rfl⟩
  | call | beginHit | moveHit | retire | beginScan | turnScan => exact List.suffix_cons _ _
  | _ => exact List.suffix_refl _

/-- The state that a recorded call was made in. -/
def Event.state : Event → Option Sob
  | .lookForTriggeredStops s | .lookForSellStops s | .copyBndlToAonChain s .. | .hitChain s ..
  | .hitChainEnd s .. | .hitAonChain s .. | .popAon s .. | .trailingStopsAdjust s ..
  | .preTradePrint s _ | .tradeCall s .. => some s
  | _ => none

/-- What is under way when a call is made. -/
def Event.MadeIn (F : Flight) : Event → Prop
  | .lookForSellStops _ => F.scan ≠ none
  | .hitChain .. => F.gap = none
  | .trailingStopsAdjust .. => F.Calm
  | _ => True

/-- What `trace'` has more than the trace of `c` was recorded in `c`. -/
def News (c : Config) (trace' : List Event) : Prop :=
  ∀ ev ∈ trace', ev ∈ c.2.trace ∨ ∀ s, ev.state = some s → s = c.2.toSob ∧ ev.MadeIn c.1

section News
variable {c c' : Config} {trace' : List Event} {ev : Event}

theorem News.refl (c : Config) : News c c.2.trace := fun _ hm => .inl hm

theorem News.cons (h : News c trace') (hev : ev.state = some c.2.toSob ∧ ev.MadeIn c.1) :
    News c (ev :: trace') := fun x hm => (List.mem_cons.mp hm).elim
  (fun heq => .inr fun s hs => by
    subst heq
    exact ⟨Option.some.inj (hs.symm.trans hev.1), hev.2⟩) (h x)

theorem News.cons_none (h : News c trace') (hev : ev.state = none) : News c (ev :: trace') :=
  fun x hm => (List.mem_cons.mp hm).elim
    (fun heq => .inr fun s hs => by rw [heq, hev] at hs; cases hs) (h x)

theorem Act.news (h : Act c c') : News c c'.2.trace := by
  cases h with
  | report =>
    rw [trace_report]
    exact (News.refl _).cons_none rfl
  | growBoth =>
    rw [World.trace_onSob, trace_report]
    exact (News.refl (_, _)).cons_none rfl
  | moveFront | missFront | popAon => exact (News.refl (_, _)).cons ⟨rfl, trivial⟩
  | enqueue | pulled | pullEmptyStop | look => exact (News.refl (_, _)).cons_none rfl
  | _ => exact .refl (_, _)

/-- A call is recorded in the state it was made in. -/
theorem Move.news (h : Move c c') : News c c'.2.trace := by
  cases h with
  | act h => exact h.news
  | call ev hev hcalm =>
    refine (News.refl (_, _)).cons ?_
    cases ev with
    | trailingStopsAdjust s buyStops p => cases hev; exact ⟨rfl, hcalm _ buyStops p rfl⟩
    | _ => first | exact hev.elim | (cases hev; exact ⟨rfl, trivial⟩)
  | fillAon | fillLastAon =>
    rw [World.trace_onSob, World.trace_log, trace_traded]
    exact ((((News.refl (_, _)).cons_none rfl).cons_none rfl).cons_none rfl).cons_none rfl
  | fill =>
    rw [trace_traded]
    exact (((News.refl (_, _)).cons_none rfl).cons_none rfl).cons_none rfl
  | moveStop =>
    rw [trace_movedStop]
    exact (News.refl (_, _)).cons_none rfl
  | turn =>
    rw [trace_turned]
    exact (((News.refl (_, _)).cons_none rfl).cons_none rfl).cons_none rfl
  | retire => exact (News.refl (_, _)).cons_none rfl
  | moveHit | beginScan => exact (News.refl (_, _)).cons ⟨rfl, trivial⟩
  | beginHit plev id size hands hh hgap => exact (News.refl (_, _)).cons ⟨rfl, hgap⟩
  | turnScan sc hscan => exact (News.refl (_, _)).cons ⟨rfl, Option.ne_none_iff_exists'.mpr ⟨sc, hscan⟩⟩
  | _ => exact .refl (_, _)

end News

theorem Moves.trace_suffix {c c' : Config} (h : Moves c c') : c.2.trace <:+ c'.2.trace := by
  induction h with
  | refl => exact List.suffix_refl _
  | tail _ h ih => exact ih.trans h.trace_suffix

theorem Step.trace_suffix {c c' : Config} (h : Step c c') : c.2.trace <:+ c'.2.trace := by
  cases h with
  | act h => exact h.trace_suffix
  | trade _ _ _ _ _ _ _ _ _ _ hm => exact Moves.trace_suffix hm
  | kill =>
    rw [trace_report]
    exact List.suffix_cons _ _
  | print =>
    rw [trace_traded]
    exact ⟨[_, _, _, _], rfl⟩
  | accept | trailingInsert => exact List.suffix_cons _ _
  | _ => exact List.suffix_refl _

theorem Steps.trace_suffix {c c' : Config} (h : Steps c c') : c.2.trace <:+ c'.2.trace := by
  induction h with
  | refl => exact List.suffix_refl _
  | tail _ h ih => exact ih.trans h.trace_suffix

theorem Closes.trace_suffix {r : Request} {w w' : World} {o : Outcome} (h : Closes r w o w') :
    w.trace <:+ w'.trace := by
  cases h with
  | refused => exact List.suffix_refl _
  | rejected => exact List.suffix_cons _ _
  | grown => exact List.suffix_refl _
  | value _ hs => exact Steps.trace_suffix hs
  | left _ hs herr =>
    refine List.IsSuffix.trans ?_ (List.suffix_cons _ _)
    cases hs with
    | undefined => exact absurd rfl herr
    | failed hs hm => exact (Steps.trace_suffix hs).trans (Moves.trace_suffix hm)
    | refused hs => exact Steps.trace_suffix hs

end SimpleOrderbook
