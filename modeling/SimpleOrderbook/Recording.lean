import SimpleOrderbook.Keeping
import SimpleOrderbook.Frame

/-!
# What the engine records

The trace of a program only grows: the events of a run stand in front of those from before it.
`Records ok m` also says of which kind the new events are. The rules follow the programs, and below
them stands one fact for each function of the engine, in the order they call each other.
-/
namespace SimpleOrderbook

open Hoare

/-- The events of `w'` that are not in `w` are `ok`, and stand in front. -/
def World.Extends (ok : Event → Prop) (w w' : World) : Prop :=
  ∃ evs, w'.trace = evs ++ w.trace ∧ ∀ ev ∈ evs, ok ev

/-- An event that is `P` was recorded. -/
def World.Recorded (P : Event → Prop) (w : World) : Prop := ∃ ev ∈ w.trace, P ev

/-- The kinds of events this file is about: those with every event but a `_hit_chain` called with
nothing left to trade. -/
class Regular (ok : Event → Prop) : Prop where
  regular {ev : Event} : (∀ s plev, ev ≠ .hitChain s plev 0) → ok ev

instance : Regular fun _ => True := ⟨fun _ => trivial⟩

/-- However the program ends, the events it added are `ok`. -/
structure Records (ok : Event → Prop) {α : Type} (m : M α) : Prop where
  run : ∀ w, wp m (fun _ => w.Extends ok) (fun _ => w.Extends ok) w

/-- The program takes nothing from the trace. -/
abbrev Grows {α : Type} (m : M α) : Prop := Records (fun _ => True) m

section Extends
variable {ok : Event → Prop} {w w' w'' : World}

theorem World.Extends.of_trace (h : w'.trace = w.trace) : w.Extends ok w' :=
  ⟨[], h, fun _ hm => by cases hm⟩

theorem World.Extends.trans (h : w.Extends ok w') (h' : w'.Extends ok w'') : w.Extends ok w'' := by
  obtain ⟨evs, heq, hok⟩ := h
  obtain ⟨evs', heq', hok'⟩ := h'
  refine ⟨evs' ++ evs, by rw [heq', heq, List.append_assoc], fun ev hm => ?_⟩
  exact (List.mem_append.mp hm).elim (hok' ev) (hok ev)

theorem World.Extends.log {ev : Event} (h : ok ev) : w.Extends ok (w.log ev) :=
  ⟨[ev], rfl, fun _ hm => List.mem_singleton.mp hm ▸ h⟩

theorem World.Extends.mem (h : w.Extends ok w') {ev : Event} (hm : ev ∈ w.trace) : ev ∈ w'.trace := by
  obtain ⟨evs, heq, -⟩ := h
  exact heq ▸ List.mem_append_right evs hm

end Extends

namespace Records
variable {ok : Event → Prop} {α β : Type} {m m' : M α} {f : α → M β}

theorem pure (a : α) : Records ok (pure a : M α) := ⟨fun _ => wp_pure (.of_trace rfl)⟩

theorem throw (err : Err) : Records ok (throw err : M α) := ⟨fun _ => wp_throw (.of_trace rfl)⟩

theorem bind (hm : Records ok m) (hf : ∀ a, Records ok (f a)) : Records ok (m >>= f) :=
  ⟨fun w => (hm.run w).bind fun a w' h => ((hf a).run w').mono (fun _ _ => h.trans) fun _ _ => h.trans⟩

theorem discard (hm : Records ok m) : Records ok (discard m) := ⟨fun w => wp.discard (hm.run w)⟩

theorem ite {c : Prop} [Decidable c] (hm : Records ok m) (hm' : Records ok m') :
    Records ok (if c then m else m') := ⟨fun w => wp_ite (fun _ => hm.run w) fun _ => hm'.run w⟩

theorem tryCatch {handler : Err → M α} (hm : Records ok m) (hh : ∀ err, Records ok (handler err)) :
    Records ok (tryCatch m handler) :=
  ⟨fun w => (hm.run w).tryCatch fun err w' h =>
    ((hh err).run w').mono (fun _ _ => h.trans) fun _ _ => h.trans⟩

theorem forM {f : α → M Unit} (hf : ∀ a, Records ok (f a)) (l : List α) : Records ok (l.forM f) := by
  induction l with
  | nil => exact pure _
  | cons a l ih => exact bind (hf a) fun _ => ih

theorem getSob : Records ok SimpleOrderbook.getSob := ⟨fun _ => wp_getSob (.of_trace rfl)⟩

theorem get : Records ok (get : M World) := ⟨fun _ => wp_get (.of_trace rfl)⟩

theorem modifySob (f : Sob → Sob) : Records ok (SimpleOrderbook.modifySob f) :=
  ⟨fun _ => wp_modifySob (.of_trace rfl)⟩

theorem event {ev : Event} (h : ok ev) : Records ok (SimpleOrderbook.record ev) :=
  ⟨fun _ => wp_record (.log h)⟩

theorem record [Regular ok] {ev : Event} (h : ∀ s plev, ev ≠ .hitChain s plev 0) :
    Records ok (SimpleOrderbook.record ev) := event (Regular.regular h)

/-- What was recorded stays recorded. -/
theorem keeps (hm : Records ok m) (P : Event → Prop) : Keeps (World.Recorded P) m :=
  ⟨fun w ⟨ev, hev, hp⟩ => (hm.run w).mono (fun _ _ h => ⟨ev, h.mem hev, hp⟩)
    fun _ _ h => ⟨ev, h.mem hev, hp⟩⟩

end Records

section Functions
variable {ok : Event → Prop} [Regular ok]

/-! ## Pulls -/

theorem records_pushExecCallback (msg : CallbackMsg) (cb : OrderExecCbBndl) (id1 id2 : Nat)
    (price : Int) (sz : Nat) : Records ok (pushExecCallback msg cb id1 id2 price sz) := by
  refine .bind (.record nofun) fun _ => ?_
  split
  · exact .pure _
  · cases cb.cbType with
    | synchronous => exact .modifySob _
    | asynchronous => exact .modifySob _

omit [Regular ok] in
theorem records_fromCache (id : Nat) : Records ok (fromCache id) := by
  refine .bind .getSob fun s => ?_
  split
  · exact .pure _
  · exact .throw _

omit [Regular ok] in
theorem records_deref (c : ChainIterWrap) (id : Nat) : Records ok (deref c id) := by
  refine .bind .getSob fun s => ?_
  split
  · exact .pure _
  · exact .throw _

omit [Regular ok] in
theorem records_generateId : Records ok generateId :=
  .bind (.modifySob _) fun _ => .bind .getSob fun _ => .pure _

theorem records_copyBndlToAonChain (p : Nat) (b : LimitBndl) :
    Records ok (Chain.copyBndlToAonChain p b) :=
  .bind .getSob fun _ => .bind .getSob fun _ => .bind (.record nofun) fun _ =>
    .bind (records_fromCache _) fun _ => .modifySob _

theorem records_moveFrontAons (p n : Nat) : Records ok (Chain.moveFrontAons p n) := by
  induction n with
  | zero => exact .pure _
  | succ n ih =>
    refine .bind .getSob fun s => ?_
    split
    · exact .pure _
    · exact .throw _
    · exact .ite (.bind (records_copyBndlToAonChain _ _) fun _ =>
        .bind (.modifySob _) fun _ => ih) (.pure _)

theorem records_limitPop (id : Nat) : Records ok (Chain.limitPop id) := by
  refine .bind (records_fromCache id) fun c => .bind .getSob fun s => ?_
  dsimp only
  split
  · exact .throw _
  · exact .bind (.modifySob _) fun _ => .bind (records_moveFrontAons _ _) fun _ =>
      .bind .getSob fun _ => .ite (.bind (.modifySob _) fun _ => .pure _) (.pure _)

omit [Regular ok] in
theorem records_stopPop (id : Nat) : Records ok (Chain.stopPop id) := by
  refine .bind (records_fromCache id) fun c => .bind .getSob fun s => ?_
  dsimp only
  split
  · exact .throw _
  · exact .bind (.modifySob _) fun _ => .bind .getSob fun _ =>
      .ite (.bind (.modifySob _) fun _ => .pure _) (.pure _)

theorem records_aonPop (id : Nat) : Records ok (Chain.aonPop id) := by
  refine .bind (records_fromCache id) fun c =>
    .ite (records_limitPop id) (.ite (.throw _) (.bind .getSob fun s => ?_))
  dsimp only
  split
  · exact .throw _
  · exact .bind .getSob fun _ => .bind (.record nofun) fun _ =>
      .bind (.modifySob _) fun _ => .bind .getSob fun _ =>
        .ite (.bind (.modifySob _) fun _ => .pure _) (.pure _)

theorem records_finishPull {f : OrderBndl → M Unit} (hf : ∀ b, Records ok (f b))
    (b : OrderBndl) : Records ok (finishPull f b) :=
  .ite (.pure _) (.bind (.record nofun) fun _ =>
    .bind (records_pushExecCallback ..) fun _ => .bind (hf b) fun _ => .pure _)

theorem records_pullOrderWith {pullLinked : OrderBndl → M Unit} (hf : ∀ b, Records ok (pullLinked b))
    (id : Nat) : Records ok (pullOrderWith pullLinked id) := by
  have hfinish := records_finishPull hf
  refine .bind .getSob fun s => ?_
  split
  · exact .pure _
  refine .tryCatch ?_ fun err => ?_
  · split
    · exact .bind (records_limitPop id) fun b => hfinish _
    · exact .bind (records_stopPop id) fun b => .bind (hfinish _) fun _ =>
        .ite (.bind (.modifySob _) fun _ => .pure _) (.bind (.record nofun) fun _ => .pure _)
    · exact .bind (records_aonPop id) fun b => records_finishPull (fun _ => .pure _) _
    · exact .bind (records_aonPop id) fun b => records_finishPull (fun _ => .pure _) _
  · split
    · exact .pure _
    · exact .throw _

theorem records_pullUnlinked (id : Nat) : Records ok (pullUnlinked id) :=
  records_pullOrderWith (fun _ => .pure _) id

theorem records_pullOrder (id : Nat) : Records ok (pullOrder id) := by
  refine records_pullOrderWith (fun b => ?_) id
  refine .ite ?_ (.pure _)
  split
  · exact .discard (records_pullUnlinked _)
  · exact .throw _

/-! ## Handlers -/

theorem records_pushInternalOrder (e : OrderQueueElem) : Records ok (pushInternalOrder e) :=
  .bind (.record nofun) fun _ => .modifySob _

omit [Regular ok] in
theorem records_plevelOffset (isStop buy : Bool) (nticks start : Nat) :
    Records ok (plevelOffset isStop buy nticks start) :=
  .bind .getSob fun _ => .ite (.throw _) (.ite (.ite (.throw _) (.pure _)) (.ite (.throw _) (.pure _)))

theorem records_execOTOOrder (op : OrderParamaters) (cb : OrderExecCbBndl) (id : Nat) :
    Records ok (execOTOOrder op cb id) :=
  .bind records_generateId fun _ => .bind (records_pushExecCallback ..) fun _ =>
    records_pushInternalOrder _

theorem records_execOCOOrder (condition : OrderCondition) (cb : OrderExecCbBndl)
    (idOld idNew idPull : Nat) : Records ok (execOCOOrder condition cb idOld idNew idPull) := by
  refine .bind ?_ fun _ => .ite (.discard (records_pullUnlinked idPull)) (.pure _)
  unfold reportOCO
  split
  · exact records_pushExecCallback ..
  · exact records_pushExecCallback ..
  · exact records_pushExecCallback ..
  · exact .throw _

theorem records_execBracketOrder (isTrailing : Bool) (op1 op2 : OrderParamaters) (sz : Nat)
    (cb : OrderExecCbBndl) (trigger : ConditionTrigger) (id : Nat) :
    Records ok (execBracketOrder isTrailing op1 op2 sz cb trigger id) := by
  refine .bind records_generateId fun _ => .bind (records_pushExecCallback ..) fun _ =>
    .bind ?_ fun _ => records_pushInternalOrder _
  exact .ite (.bind (.bind .getSob fun _ => records_plevelOffset ..) fun _ =>
    .bind .getSob fun _ => .pure _) (.pure _)

theorem records_execTrailingStopOrder (op : OrderParamaters) (sz : Nat)
    (cb : OrderExecCbBndl) (trigger : ConditionTrigger) (id : Nat) :
    Records ok (execTrailingStopOrder op sz cb trigger id) :=
  .bind records_generateId fun _ => .bind (records_pushExecCallback ..) fun _ =>
    records_pushInternalOrder _

theorem records_handleOTO (b : OrderBndl) (id : Nat) : Records ok (handleOTO b id) := by
  unfold handleOTO
  split
  · exact .bind (records_execOTOOrder ..) fun _ => .pure _
  · exact .throw _

theorem records_handleOCO (b : OrderBndl) (id : Nat) : Records ok (handleOCO b id) := by
  unfold handleOCO
  split
  · exact .bind (records_execOCOOrder ..) fun _ => .pure _
  · exact .throw _

theorem records_growLeg (msg : CallbackMsg) (id : Nat) (c : ChainIterWrap) (sz : Nat) :
    Records ok (growLeg msg id c sz) :=
  .bind (.modifySob _) fun _ => .bind (records_deref c id) fun _ => .bind .getSob fun _ =>
    records_pushExecCallback ..

theorem records_handleBracket (isTrailing : Bool) (b : OrderBndl) (id sz : Nat) :
    Records ok (handleBracket isTrailing b id sz) := by
  unfold handleBracket
  split
  · refine .bind (.bind .getSob fun s => ?_) fun _ => .pure _
    split
    · exact .bind (records_growLeg ..) fun _ => records_growLeg ..
    · exact records_execBracketOrder ..
  · exact .throw _

theorem records_handleActiveBracket (b : OrderBndl) (sz : Nat) :
    Records ok (handleActiveBracket b sz) := by
  unfold handleActiveBracket
  split
  · exact .ite (.pure _) (.bind (records_fromCache _) fun _ => .bind (.modifySob _) fun _ =>
      .bind (records_deref ..) fun _ => .bind .getSob fun _ =>
        .bind (records_pushExecCallback ..) fun _ => .pure _)
  · exact .throw _

theorem records_handleTrailingStop (b : OrderBndl) (id sz : Nat) :
    Records ok (handleTrailingStop b id sz) := by
  unfold handleTrailingStop
  split
  · refine .bind (.bind .getSob fun s => ?_) fun _ => .pure _
    split
    · exact records_growLeg ..
    · exact records_execTrailingStopOrder ..
  · exact .throw _

theorem records_handleAdvancedOrderTrigger (b : OrderBndl) (id sz : Nat) :
    Records ok (handleAdvancedOrderTrigger b id sz) := by
  unfold handleAdvancedOrderTrigger
  split
  · exact .pure _
  · exact .pure _
  · exact .bind (records_pushExecCallback ..) fun _ => .pure _
  · exact records_handleActiveBracket b sz
  · exact records_handleActiveBracket b sz
  · exact records_handleOTO b id
  · exact records_handleBracket true b id sz
  · exact records_handleBracket false b id sz
  · exact records_handleTrailingStop b id sz
  · exact .throw _
  · exact .throw _

theorem records_handleAdvancedOrderCancel (b : OrderBndl) (id sz : Nat) :
    Records ok (handleAdvancedOrderCancel b id sz) := by
  unfold handleAdvancedOrderCancel
  have hOCO : Records ok (do return (true, ← handleOCO b id)) :=
    .bind (records_handleOCO b id) fun _ => .pure _
  split
  case h_7 | h_8 => exact .ite (.pure _) hOCO
  case h_9 => exact hOCO
  case h_10 | h_11 => exact .throw _
  all_goals exact .pure _

theorem records_handleAdvancedOrder (b : OrderBndl) (id sz : Nat) :
    Records ok (handleAdvancedOrder b id sz) :=
  .bind (records_handleAdvancedOrderCancel b id sz) fun _ =>
    .ite (.pure _) (records_handleAdvancedOrderTrigger _ id sz)

/-! ## Trades -/

theorem records_tradeHasOccured (plev size idbuy idsell : Nat)
    (cbbuy cbsell : OrderExecCbBndl) :
    Records ok (tradeHasOccured plev size idbuy idsell cbbuy cbsell) :=
  .bind .getSob fun _ => .bind (records_pushExecCallback ..) fun _ =>
    .bind (records_pushExecCallback ..) fun _ => .bind (.record nofun) fun _ =>
      .modifySob _

theorem records_handleFill (plev : Nat) (b : LimitBndl) (amount : Nat) :
    Records ok (handleFill plev b amount) :=
  .ite (.bind (records_handleAdvancedOrder ..) fun _ => .modifySob _) (.pure _)

theorem records_hitOrder (plev id : Nat) (cb : OrderExecCbBndl) (b : LimitBndl) (size : Nat) :
    Records ok (hitOrder plev id cb b size) := by
  refine .ite (.bind (records_copyBndlToAonChain plev b) fun _ => .bind (.modifySob _) fun _ =>
    .pure _) (.bind (records_tradeHasOccured ..) fun _ => .bind (records_handleFill ..)
      fun _ => .bind (.modifySob _) fun _ => .bind .getSob fun s => ?_)
  split
  · exact .throw _
  · exact .ite (.bind (.record nofun) fun _ => .bind (.modifySob _) fun _ =>
      .pure _) (.pure _)

theorem records_hitOrders (plev id : Nat) (cb : OrderExecCbBndl) (ids : List Nat) :
    ∀ (pos : Option Nat) (size : Nat), Records ok (hitOrders plev id cb ids pos size) := by
  induction ids with
  | nil => exact fun _ _ => .pure _
  | cons i ids ih =>
    intro pos size
    refine .ite (.pure _) (.bind .getSob fun s => ?_)
    split
    · exact ih pos size
    · exact .bind (records_hitOrder ..) fun _ => ih _ _

theorem records_hitChain {plev size : Nat} (h : ∀ s, ok (.hitChain s plev size)) (id : Nat)
    (cb : OrderExecCbBndl) : Records ok (hitChain plev id size cb) := by
  refine .bind .getSob fun s => .bind (.event (h s)) fun _ =>
    .bind (records_hitOrders ..) fun r => .bind .getSob fun s' => ?_
  split
  · exact .bind .getSob fun _ => .bind (.record nofun) fun _ => .bind (.modifySob _) fun _ => .pure _
  · exact .bind .get fun _ => .ite (.bind (.modifySob _) fun _ => .pure _) (.pure _)
  · exact .throw _

theorem records_tradeLimits {p size : Nat} (h : ∀ s, ok (.hitChain s p size)) (bidSide : Bool)
    (id : Nat) (cb : OrderExecCbBndl) : Records ok (tradeLimits bidSide p id cb size) := by
  refine .bind .getSob fun s => .ite ?_ (.pure _)
  split
  · exact .pure _
  · exact .bind (records_hitChain h id cb) fun _ =>
      .ite (.bind (.modifySob _) fun _ => .pure _) (.pure _)

theorem records_trailingStopAdjust (id : Nat) (buyStop : Bool) (p : Nat) :
    Records ok (trailingStopAdjust id buyStop p) := by
  refine .bind (records_stopPop id) fun b => .bind ?_ fun _ =>
    .bind (records_plevelOffset ..) fun _ => .bind .getSob fun _ =>
      .bind (records_pushExecCallback ..) fun _ => .modifySob _
  unfold trailingNticks
  split
  · exact .pure _
  · exact .pure _
  · exact .throw _

theorem records_trailingStopsAdjust (buyStops : Bool) (p : Nat) :
    Records ok (trailingStopsAdjust buyStops p) :=
  .bind .getSob fun _ => .bind (.record nofun) fun _ =>
    .forM (fun id => records_trailingStopAdjust id buyStops p) _

theorem records_adjustTrailingStops (oldLast high low : Nat) :
    Records ok (adjustTrailingStops oldLast high low) :=
  .bind (.ite (records_trailingStopsAdjust ..) (.pure _)) fun _ =>
    .ite (records_trailingStopsAdjust ..) (.pure _)

theorem records_handleTriggeredStop (buyStops : Bool) (plev : Nat) (e : StopBndl) :
    Records ok (handleTriggeredStop buyStops plev e) := by
  refine .bind (.modifySob _) fun _ => .bind ?_ fun b => .bind records_generateId fun _ =>
    .bind .getSob fun _ => .bind (.record nofun) fun _ =>
      .bind (records_pushExecCallback ..) fun _ => .bind ?_ fun _ =>
        .bind (records_pushInternalOrder _) fun _ => .bind ?_ fun _ => .modifySob _
  · exact .ite (.bind (records_handleAdvancedOrderCancel ..) fun _ => .pure _) (.pure _)
  · refine .ite ?_ (.ite ?_ (.pure _))
    · split
      · exact .pure _
      · exact .throw _
    · split
      · exact .pure _
      · exact .throw _
  · exact .ite (.discard (records_handleAdvancedOrderTrigger ..)) (.pure _)

theorem records_handleTriggeredStopChain (buyStops : Bool) (plev : Nat) :
    Records ok (handleTriggeredStopChain buyStops plev) :=
  .bind .getSob fun _ => .bind (.modifySob _) fun _ =>
    .forM (records_handleTriggeredStop buyStops plev) _

theorem records_triggerBuyStops (n : Nat) : ∀ p, Records ok (triggerBuyStops n p) := by
  induction n with
  | zero => exact fun _ => .pure _
  | succ n ih => exact fun p => .bind (records_handleTriggeredStopChain true p) fun _ => ih _

theorem records_triggerSellStops (n : Nat) : ∀ p, Records ok (triggerSellStops n p) := by
  induction n with
  | zero => exact fun _ => .pure _
  | succ n ih => exact fun p => .bind (records_handleTriggeredStopChain false p) fun _ => ih _

theorem records_checkForStops : Records ok checkForStops :=
  .bind .getSob fun _ => .ite (.bind .getSob fun _ => .bind (.record nofun) fun _ =>
    .bind (records_triggerBuyStops ..) fun _ => .bind .getSob fun _ =>
      .bind (.record nofun) fun _ =>
        .bind (records_triggerSellStops ..) fun _ => .modifySob _) (.pure _)

theorem records_hitAonChain (bidSide : Bool) (plev id : Nat) (cb : OrderExecCbBndl) (l : List AonBndl) :
    ∀ (kept : List AonBndl) (size : Nat), Records ok (hitAonChain bidSide plev id cb kept l size) := by
  induction l with
  | nil => exact fun _ _ => .pure _
  | cons b bs ih =>
    exact fun kept size => .ite (.pure _) (.ite (.bind (records_tradeHasOccured ..) fun _ =>
      .bind (.record nofun) fun _ => .bind (.modifySob _) fun _ => ih _ _) (ih _ _))

theorem records_tradeAons (bidSide : Bool) (p id : Nat) (cb : OrderExecCbBndl) (size : Nat) :
    Records ok (tradeAons bidSide p id cb size) := by
  refine .bind .getSob fun s => .ite ?_ (.pure _)
  split
  · exact .pure _
  · exact .bind (.record nofun) fun _ => .bind (records_hitAonChain ..) fun _ =>
      .ite (.bind (.modifySob _) fun _ => .pure _) (.pure _)

theorem records_lookAhead (isBuy : Bool) (p sz : Nat) (allowPartial : Bool) (rmndr : Nat) :
    Records ok (lookAhead isBuy p sz allowPartial rmndr) :=
  .bind .getSob fun _ => .bind (.record nofun) fun _ => .pure _

end Functions

/-! ## Whole trades -/

theorem grows_sweep (bidSide : Bool) (plev endp id : Nat) (cb : OrderExecCbBndl) (n : Nat) :
    ∀ p size high low, Grows (sweep bidSide plev endp id cb n p size high low) := by
  induction n with
  | zero => exact fun _ _ _ _ => .pure _
  | succ n ih =>
    exact fun p size high low => .ite (.bind (records_tradeAons ..) fun _ =>
      .bind (records_tradeLimits (fun _ => trivial) ..) fun _ => .bind .getSob fun _ => ih ..) (.pure _)

theorem grows_trade (bidSide : Bool) (plev id size : Nat) (cb : OrderExecCbBndl) :
    Grows (trade bidSide plev id size cb) :=
  .bind .getSob fun _ => .bind (.event trivial) fun _ => .bind (grows_sweep ..) fun _ =>
    .bind (records_adjustTrailingStops ..) fun _ => .bind records_checkForStops fun _ => .pure _

/-! ## All-or-none matching -/

theorem grows_matchAonsPre (isBuy : Bool) (e : OrderQueueElem) (p : Nat) (l : List (Nat × AonBndl)) :
    ∀ rmndr, Grows (matchAonsPre isBuy e p l rmndr) := by
  induction l with
  | nil => exact fun _ => .pure _
  | cons x rest ih =>
    refine fun rmndr => .bind (records_lookAhead ..) fun _ => .ite (.bind (records_aonPop _) fun _ =>
      .bind (grows_trade ..) fun _ => .ite (.throw _) (.bind ?_ fun _ => .ite (.pure _) (ih _))) (ih _)
    exact .ite (.bind .getSob fun _ => .bind (.event trivial) fun _ => records_tradeHasOccured ..)
      (.pure _)

theorem grows_matchAonOrdersPreTrade (isBuy : Bool) (e : OrderQueueElem) (p : Nat) :
    Grows (matchAonOrdersPreTrade isBuy e p) := .bind .getSob fun _ => grows_matchAonsPre ..

theorem grows_matchAonsPost (isBuy : Bool) (l : List (Nat × AonBndl)) : Grows (matchAonsPost isBuy l) := by
  induction l with
  | nil => exact .pure _
  | cons x rest ih =>
    exact .bind (records_lookAhead ..) fun _ => .ite (.bind (records_aonPop _) fun _ =>
      .bind (grows_trade ..) fun _ => .ite (.throw _) ih) ih

theorem grows_restLimitOrder (buyLimit : Bool) (e : OrderQueueElem) (passConditions : Bool)
    (p rmndr : Nat) : Grows (restLimitOrder buyLimit e passConditions p rmndr) := by
  refine .bind .getSob fun _ => .bind (.modifySob _) fun _ =>
    .bind (.bind .getSob fun _ => grows_matchAonsPost ..) fun _ => .bind .getSob fun s => ?_
  split
  · exact .pure _
  · exact .bind (records_deref ..) fun _ => .pure _

theorem grows_mayTrade (buyLimit : Bool) (e : OrderQueueElem) (p rmndr : Nat) :
    Grows (mayTrade buyLimit e p rmndr) :=
  .bind .getSob fun _ => .ite (.ite (.bind (records_lookAhead ..) fun _ => .pure _) (.pure _)) (.pure _)

theorem grows_insertMarketOrder (buyMarket : Bool) (e : OrderQueueElem) :
    Grows (insertMarketOrder buyMarket e) :=
  .bind .getSob fun _ => .bind (grows_matchAonOrdersPreTrade ..) fun _ =>
    .ite (.bind (grows_trade ..) fun _ => .ite (.throw _) (.pure _)) (.pure _)

/-! ## Advanced orders -/

theorem grows_armOrder (c : ChainIterWrap) (id : Nat) (condition : OrderCondition)
    (trigger : ConditionTrigger) (payload : Payload) : Grows (armOrder c id condition trigger payload) :=
  .modifySob _

theorem grows_derefParams (o : Option OrderParamaters) : Grows (derefParams o) := by
  cases o with
  | none => exact .throw _
  | some op => exact .pure op

theorem grows_idCacheAt (id : Nat) : Grows (idCacheAt id) := by
  refine .bind .getSob fun s => ?_
  split
  · exact .pure _
  · exact .throw _

theorem grows_armRemainder (e : OrderQueueElem) (filled : Nat) (payload : Payload) :
    Grows (armRemainder e filled payload) :=
  .ite (.bind (grows_idCacheAt _) fun _ => grows_armOrder ..) (.pure _)

theorem grows_tellEntry (parentId : Nat) (f : Payload → Option Payload) :
    Grows (tellEntry parentId f) := by
  refine .bind .getSob fun s => ?_
  split
  · exact .pure _
  · refine .bind (records_deref ..) fun b => ?_
    split
    · exact .throw _
    · exact .modifySob _

theorem grows_insertTrailingLeg (id : Nat) (isBuy : Bool) (nticks : Nat) :
    Grows (insertTrailingLeg id isBuy nticks) :=
  .bind .getSob fun _ => .bind (.event trivial) fun _ => .modifySob _

theorem grows_insertLossLeg (isTrailing : Bool) (e : OrderQueueElem) (cp1 : OrderParamaters)
    (p rmndr : Nat) : Grows (insertLossLeg isTrailing e cp1 p rmndr) :=
  .bind records_generateId fun _ => .bind (grows_idCacheAt _) fun _ => .bind (grows_armOrder ..)
    fun _ => .bind (.modifySob _) fun _ => .bind (.ite (grows_insertTrailingLeg ..) (.pure _))
      fun _ => .bind .getSob fun _ => .bind (records_pushExecCallback ..) fun _ => grows_tellEntry ..

theorem grows_trailingStopPlevel (buyStop : Bool) (nticks : Nat) :
    Grows (trailingStopPlevel buyStop nticks) := .bind .getSob fun _ => records_plevelOffset ..

theorem grows_insertTrailingStopActiveOrder (e : OrderQueueElem) :
    Grows (insertTrailingStopActiveOrder e) :=
  .bind (grows_derefParams _) fun _ => .bind (grows_trailingStopPlevel ..) fun _ =>
    .bind (.modifySob _) fun _ => .bind (grows_insertTrailingLeg ..) fun _ => .bind .getSob fun _ =>
      .bind (records_pushExecCallback ..) fun _ => grows_tellEntry ..

end SimpleOrderbook
