import SimpleOrderbook.Chain

/-!
# Handlers of the advanced conditions

What `_hit_chain` and `_handle_triggered_stop_chain` call when an order with a condition trades or
is triggered (`advanced.cpp`). The source passes the bundle by reference; here a handler returns
the bundle with its new condition, trigger and union, and the caller writes them back.
-/
namespace SimpleOrderbook

/-- `_push_internal_order`. -/
def pushInternalOrder (e : OrderQueueElem) : M Unit := do
  record (.pushInternalOrder e)
  modifySob fun s => { s with internalOrderQueue := s.internalOrderQueue ++ [e] }

/-- `_plevel_offset<IsStop>`. From a null `_last` there is nothing to count from. -/
def plevelOffset (isStop buy : Bool) (nticks start : Nat) : M Nat := do
  let s ← getSob
  if start < beg ∨ s.end_ ≤ start then throw .undefinedBehaviour
  else if (if isStop then buy else !buy) then
    if nticks > s.end_ - 1 - start then throw .derivedPriceException else return start + nticks
  else
    if nticks > start - beg then throw .derivedPriceException else return start - nticks

/-- `_trailing_stop_plevel`. -/
def trailingStopPlevel (buyStop : Bool) (nticks : Nat) : M Nat := do
  plevelOffset true buyStop nticks (← getSob).last

/-- `_trailing_limit_plevel`. -/
def trailingLimitPlevel (buyLimit : Bool) (nticks : Nat) : M Nat := do
  plevelOffset false buyLimit nticks (← getSob).last

/-- `chain_iter_wrap::incr_size`. An exit grows by what its entry order fills and stays within the size
of that order, so this sum does not wrap around. -/
def incrSize (sz : Nat) (b : OrderBndl) : OrderBndl := { b with sz := b.sz + sz }

/-- `chain_iter_wrap::decr_size`; `size_t` wraps around. -/
def decrSize (sz : Nat) (b : OrderBndl) : OrderBndl :=
  { b with sz := if sz ≤ b.sz then b.sz - sz else b.sz + 2 ^ 64 - sz }

/-! ## Executing the second half of an advanced order -/

/-- `_exec_OTO_order`. -/
def execOTOOrder (op : OrderParamaters) (cb : OrderExecCbBndl) (id : Nat) : M Unit := do
  let idNew ← generateId
  pushExecCallback .triggerOTO cb id idNew 0 0
  pushInternalOrder
    { type := op.getOrderType, isBuy := op.isBuy, limit := op.limitPrice, stop := op.stopPrice,
      sz := op.size, cb := cb, id := idNew }

/-- The callback of `_exec_OCO_order`. -/
def reportOCO (condition : OrderCondition) (cb : OrderExecCbBndl) (idOld idNew : Nat) :
    M Unit := do
  match condition with
  | .oneCancelsOther => pushExecCallback .triggerOCO cb idOld idNew 0 0
  | .bracketActive | .trailingBracketActive =>
    pushExecCallback .triggerBracketClose cb idOld idNew 0 0
  | _ => throw (.runtimeError "invalid condition in exec_OCO")

/-- `_exec_OCO_order`; of its first argument only the condition and the callback are read. -/
def execOCOOrder (condition : OrderCondition) (cb : OrderExecCbBndl)
    (idOld idNew idPull : Nat) : M Unit := do
  reportOCO condition cb idOld idNew
  if idPull ≠ 0 then discard (pullUnlinked idPull) else return ()

/-- The limit price of a bracket's target. -/
def bracketLimit (isTrailing : Bool) (op : OrderParamaters) : M Int := do
  if isTrailing then
    let p ← trailingLimitPlevel op.isBuy op.limitNticks
    return (← getSob).itop p
  else return op.limitPrice

/-- `_exec_bracket_order<IsTrailing>`. -/
def execBracketOrder (isTrailing : Bool) (op1 op2 : OrderParamaters) (sz : Nat)
    (cb : OrderExecCbBndl) (trigger : ConditionTrigger) (id : Nat) : M Unit := do
  let idNew ← generateId
  pushExecCallback .triggerBracketOpen cb id idNew 0 0
  let limit ← bracketLimit isTrailing op2
  pushInternalOrder
    { type := .limit, isBuy := op2.isBuy, limit := limit, stop := 0, sz := sz, cb := cb,
      id := idNew, condition := if isTrailing then .trailingBracketActive else .bracketActive,
      trigger := trigger, cparams1 := some (op1.changeSize sz), parentId := id }

/-- `_exec_TRAILING_STOP_order`. -/
def execTrailingStopOrder (op : OrderParamaters) (sz : Nat) (cb : OrderExecCbBndl)
    (trigger : ConditionTrigger) (id : Nat) : M Unit := do
  let idNew ← generateId
  pushExecCallback .triggerTrailingStopOpen cb id idNew 0 0
  pushInternalOrder
    { type := .stop, isBuy := op.isBuy, limit := 0, stop := 0, sz := sz, cb := cb, id := idNew,
      condition := .trailingStopActive, trigger := trigger,
      cparams1 := some (op.changeSize sz), parentId := id }

/-! ## Handlers -/

/-- `_handle_OTO`. -/
def handleOTO (b : OrderBndl) (id : Nat) : M OrderBndl := do
  match b.payload with
  | .contingentPriceOrder params =>
    execOTOOrder params b.cb id
    return { b with payload := .null, condition := .none, trigger := .none }
  | _ => throw .undefinedBehaviour

/-- `_handle_OCO`. -/
def handleOCO (b : OrderBndl) (id : Nat) : M OrderBndl := do
  match b.payload with
  | .linkedOrder link =>
    execOCOOrder b.condition b.cb (if link.isPrimary then link.id else id) id link.id
    return { b with payload := .null, condition := .none, trigger := .none }
  | _ => throw .undefinedBehaviour

/-- Grow one exit leg of a bracket or trailing stop, and report it. -/
def growLeg (msg : CallbackMsg) (id : Nat) (w : ChainIterWrap) (sz : Nat) : M Unit := do
  modifySob fun s => s.updateAt w id (incrSize sz)
  let leg ← deref w id
  pushExecCallback msg leg.cb leg.id leg.id ((← getSob).itop w.p) leg.sz

/-- Grow both exits of a bracket if both still rest, else open a bracket for this fill. -/
def growOrOpenBracket (isTrailing : Bool) (first second : OrderParamaters)
    (active1 active2 sz : Nat) (cb : OrderExecCbBndl) (id : Nat) : M Unit := do
  let s ← getSob
  match (if active1 ≠ 0 then s.idCache active1 else none),
      (if active1 ≠ 0 then s.idCache active2 else none) with
  | some w1, some w2 =>
    growLeg .triggerBracketAdjLoss active1 w1 sz
    growLeg .triggerBracketAdjTarget active2 w2 sz
  | _, _ => execBracketOrder isTrailing first second sz cb .fillPartial id

/-- `_handle_bracket<IsTrailing>`. -/
def handleBracket (isTrailing : Bool) (b : OrderBndl) (id sz : Nat) :
    M OrderBndl := do
  match b.payload with
  | .bracketOrders first second active1 active2 =>
    let first := first.changeSize sz
    let second := second.changeSize sz
    growOrOpenBracket isTrailing first second active1 active2 sz b.cb id
    return { b with payload :=
      if sz = b.sz then .null else .bracketOrders first second active1 active2 }
  | _ => throw .undefinedBehaviour

/-- `_handle_active_bracket`. -/
def handleActiveBracket (b : OrderBndl) (sz : Nat) : M OrderBndl := do
  match b.payload with
  | .linkedOrder link =>
    if sz = b.sz then return b
    else
      let w ← fromCache link.id
      modifySob fun s => s.updateAt w link.id (decrSize sz)
      let other ← deref w link.id
      let msg := if w.type = .limit then .triggerBracketAdjTarget else .triggerBracketAdjLoss
      pushExecCallback msg other.cb link.id link.id ((← getSob).itop w.p) other.sz
      return b
  | _ => throw .undefinedBehaviour

/-- Grow the exit of a trailing stop if it still rests, else open one for this fill. -/
def growOrOpenTrailingStop (params : OrderParamaters) (active sz : Nat) (cb : OrderExecCbBndl)
    (id : Nat) : M Unit := do
  let s ← getSob
  match (if active ≠ 0 then s.idCache active else none) with
  | some w => growLeg .triggerTrailingStopAdjLoss active w sz
  | none => execTrailingStopOrder params sz cb .fillPartial id

/-- `_handle_TRAILING_STOP`. -/
def handleTrailingStop (b : OrderBndl) (id sz : Nat) : M OrderBndl := do
  match b.payload with
  | .contingentNticksOrder params active =>
    let params := params.changeSize sz
    growOrOpenTrailingStop params active sz b.cb id
    return { b with payload :=
      if sz = b.sz then .null else .contingentNticksOrder params active }
  | _ => throw .undefinedBehaviour

/-- `_handle_TRAILING_STOP_ACTIVE`. -/
def handleTrailingStopActive (b : OrderBndl) (id : Nat) : M OrderBndl := do
  pushExecCallback .triggerTrailingStopClose b.cb id id 0 0
  return b

/-- `_handle_advanced_order_trigger`. -/
def handleAdvancedOrderTrigger (b : OrderBndl) (id sz : Nat) : M OrderBndl := do
  match b.condition with
  | .oneCancelsOther | .allOrNone => return b
  | .trailingStopActive => handleTrailingStopActive b id
  | .trailingBracketActive | .bracketActive => handleActiveBracket b sz
  | .oneTriggersOther => handleOTO b id
  | .trailingBracket => handleBracket true b id sz
  | .bracket => handleBracket false b id sz
  | .trailingStop => handleTrailingStop b id sz
  | .none | .fillOrKill => throw (.runtimeError "invalid order condition")

/-- `_handle_advanced_order_cancel`: whether it acted, and the bundle after. -/
def handleAdvancedOrderCancel (b : OrderBndl) (id sz : Nat) :
    M (Bool × OrderBndl) := do
  match b.condition with
  | .oneTriggersOther | .bracket | .trailingBracket | .trailingStop | .trailingStopActive
  | .allOrNone => return (false, b)
  | .trailingBracketActive | .bracketActive =>
    if sz ≠ b.sz then return (false, b)
    else return (true, ← handleOCO b id)
  | .oneCancelsOther => return (true, ← handleOCO b id)
  | .none | .fillOrKill => throw (.runtimeError "invalid order condition")

/-- `_handle_advanced_order_cancel(..) || _handle_advanced_order_trigger(..)`. -/
def handleAdvancedOrder (b : OrderBndl) (id sz : Nat) : M OrderBndl := do
  let (cancelled, b) ← handleAdvancedOrderCancel b id sz
  if cancelled then return b else handleAdvancedOrderTrigger b id sz

end SimpleOrderbook
