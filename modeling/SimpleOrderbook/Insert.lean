import SimpleOrderbook.Matching

/-!
# Inserting orders

The basic order types of `core.cpp`, with the pre- and post-match of resting all-or-none orders,
and the advanced order types of `advanced.cpp`.
-/
namespace SimpleOrderbook

/-! ## All-or-none matching -/

/-- The trade between a resting AON `b` and the new order, at the new order's level. -/
def preTradePrint (p size : Nat) (b : AonBndl) (e : OrderQueueElem) : M Unit := do
  if size > 0 then
    let s ← getSob
    record (.preTradePrint s p)
    tradeHasOccured p size b.id e.id b.cb e.cb
  else return ()

/-- The loop of `_match_aon_orders_PRE_trade<IsBuy>` over the overlapping AONs still to visit;
`rmndr` is what the new order has left. -/
def matchAonsPre (isBuy : Bool) (e : OrderQueueElem) (p : Nat) :
    List (Nat × AonBndl) → Nat → M Nat
  | [], rmndr => return rmndr
  | (paon, aon) :: rest, rmndr => do
    let fillable ← lookAhead (!isBuy) paon aon.sz false rmndr
    let available := asSize (rmndr + fillable.2)
    if fillable.1 ∨ (e.isAON ∧ aon.sz = available) ∨ (¬ e.isAON ∧ aon.sz < available) then
      let b ← Chain.aonPop aon.id
      let r ← trade isBuy paon b.id b.sz b.cb
      if r > rmndr then throw (.runtimeError "AON has left over size(PRE)")
      else
        let filledThis := min r rmndr
        preTradePrint p filledThis b e
        if rmndr - filledThis = 0 then return 0
        else matchAonsPre isBuy e p rest (rmndr - filledThis)
    else matchAonsPre isBuy e p rest rmndr

/-- `_match_aon_orders_PRE_trade<IsBuy>`. -/
def matchAonOrdersPreTrade (isBuy : Bool) (e : OrderQueueElem) (p : Nat) : M Nat := do
  matchAonsPre isBuy e p (Exec.Aon.overlapping (!isBuy) (← getSob) p).reverse e.sz

/-- The loop of `_match_aon_orders_POST_trade<IsBuy>`. -/
def matchAonsPost (isBuy : Bool) : List (Nat × AonBndl) → M Unit
  | [] => return ()
  | (p, aon) :: rest => do
    if (← lookAhead (!isBuy) p aon.sz false 0).1 then
      let b ← Chain.aonPop aon.id
      let r ← trade isBuy p b.id b.sz b.cb
      if r ≠ 0 then throw (.runtimeError "AON has left over size(POST)")
      else matchAonsPost isBuy rest
    else matchAonsPost isBuy rest

/-- `_match_aon_orders_POST_trade<IsBuy>`. -/
def matchAonOrdersPostTrade (isBuy : Bool) (p : Nat) : M Unit := do
  matchAonsPost isBuy (Exec.Aon.overlapping (!isBuy) (← getSob) p).reverse

/-! ## Basic orders -/

/-- The end of `_insert_limit_order`: the order's remainder rests, resting AONs are matched
against it, and the size filled is read back from the cache. -/
def restLimitOrder (buyLimit : Bool) (e : OrderQueueElem) (passConditions : Bool) (p : Nat)
    (rmndr : Nat) : M Nat := do
  let b : LimitBndl :=
    { id := e.id, sz := rmndr, cb := e.cb, side := e.isBuy,
      condition := if passConditions then e.condition else .none,
      trigger := if passConditions then e.trigger else .none }
  let s ← getSob
  modifySob fun s' =>
    if e.isAON ∧ (Exec.Limit.isTradable (!buyLimit) s p ∨ (s.limits p).empty) then
      Chain.aonPush buyLimit s' p b
    else Chain.limitPush buyLimit s' p b
  matchAonOrdersPostTrade buyLimit p
  match (← getSob).idCache e.id with
  | none => return e.sz
  | some w =>
    let x ← deref w e.id
    return e.sz - x.sz

/-- Whether an order at `p` trades before it rests: there is somebody to trade with, for an AON with
all of it. -/
def mayTrade (buyLimit : Bool) (e : OrderQueueElem) (p rmndr : Nat) : M Bool := do
  let s ← getSob
  if Exec.Core.isTradable (!buyLimit) s p then
    if e.isAON then return (← lookAhead buyLimit p rmndr false 0).1 else return true
  else return false

/-- `_insert_limit_order<BuyLimit>`; returns the size filled. -/
def insertLimitOrder [Pointers] (buyLimit : Bool) (e : OrderQueueElem) (passConditions : Bool) : M Nat := do
  let p ← ptoi e.limit
  let rmndr ← matchAonOrdersPreTrade buyLimit e p
  if rmndr = 0 then return e.sz
  else
    if ← mayTrade buyLimit e p rmndr then
      let rmndr ← trade (!buyLimit) p e.id rmndr e.cb
      if rmndr = 0 then return e.sz else restLimitOrder buyLimit e passConditions p rmndr
    else restLimitOrder buyLimit e passConditions p rmndr

/-- `_insert_market_order<BuyMarket>`. -/
def insertMarketOrder (buyMarket : Bool) (e : OrderQueueElem) : M Unit := do
  let s ← getSob
  let p := if buyMarket then s.end_ - 1 else beg
  let rmndr ← matchAonOrdersPreTrade buyMarket e p
  if rmndr ≠ 0 then
    let rmndr ← trade (!buyMarket) p e.id rmndr e.cb
    if rmndr ≠ 0 then throw (.liquidityException e.sz rmndr e.id)

/-- `_insert_stop_order<BuyStop>`. -/
def insertStopOrder [Pointers] (buyStop : Bool) (e : OrderQueueElem) (passConditions : Bool) : M Unit := do
  let p ← ptoi e.stop
  modifySob fun s => Chain.stopPush s p
    { id := e.id, sz := e.sz, cb := e.cb, isBuy := buyStop, limit := e.limit,
      condition := if passConditions then e.condition else .none,
      trigger := if passConditions then e.trigger else .none }

/-- `_route_basic_order`; returns the size filled. -/
def routeBasicOrder [Pointers] (e : OrderQueueElem) (passConditions : Bool := false) : M Nat := do
  match e.type with
  | .limit => insertLimitOrder e.isBuy e passConditions
  | .market =>
    insertMarketOrder e.isBuy e
    return e.sz
  | .stop | .stopLimit =>
    insertStopOrder e.isBuy e passConditions
    return 0
  | .null => throw (.runtimeError "invalid order type in order_queue")

/-- `_inject_basic_order`. -/
def injectBasicOrder [Pointers] (e : OrderQueueElem) (partialOk : Bool) : M Bool := do
  let filled ← routeBasicOrder e
  return filled ≠ 0 && (filled = e.sz || partialOk)

/-! ## Advanced orders -/

/-- Set condition, trigger and union of a resting order. -/
def armOrder (w : ChainIterWrap) (id : Nat) (condition : OrderCondition)
    (trigger : ConditionTrigger) (payload : Payload) : M Unit :=
  modifySob fun s => s.updateAt w id fun b =>
    { b with condition := condition, trigger := trigger, payload := payload }

/-- A `*e.cparams1` the source dereferences. -/
def derefParams (o : Option OrderParamaters) : M OrderParamaters :=
  match o with
  | some op => return op
  | none => throw .undefinedBehaviour

/-- `_insert_OTO_order`. -/
def insertOTOOrder [Pointers] (e : OrderQueueElem) : M Unit := do
  let cp1 ← derefParams e.cparams1
  if ← injectBasicOrder e e.needsPartialFill then execOTOOrder cp1 e.cb e.id
  else
    let w ← idCacheAt e.id
    armOrder w e.id e.condition e.trigger (.contingentPriceOrder cp1)

/-- `_insert_OCO_order`; returns the id the order goes by afterwards. -/
def insertOCOOrder [Pointers] (e : OrderQueueElem) : M Nat := do
  let cp1 ← derefParams e.cparams1
  if ← injectBasicOrder e e.needsPartialFill then
    execOCOOrder e.condition e.cb e.id e.id 0
    return e.id
  else
    let id2 ← generateId
    let e2 : OrderQueueElem :=
      { type := cp1.getOrderType, isBuy := cp1.isBuy, limit := cp1.limitPrice,
        stop := cp1.stopPrice, sz := cp1.size, cb := e.cb, id := id2,
        condition := e.condition, trigger := e.trigger }
    if ← injectBasicOrder e2 e.needsPartialFill then
      execOCOOrder e.condition e.cb e.id id2 e.id
      return id2
    else
      let w1 ← idCacheAt e.id
      let w2 ← idCacheAt id2
      armOrder w1 e.id e.condition e.trigger (.linkedOrder ⟨id2, false, none⟩)
      armOrder w2 id2 e.condition e.trigger (.linkedOrder ⟨e.id, true, none⟩)
      return e.id

/-- Whether an immediate fill of an entry order opens its exits. -/
def OrderQueueElem.opensExits (e : OrderQueueElem) (filled : Nat) : Bool :=
  (e.needsPartialFill && filled ≠ 0) || filled = e.sz

/-- What did not fill at once waits with its condition and union. -/
def armRemainder (e : OrderQueueElem) (filled : Nat) (payload : Payload) : M Unit := do
  if filled ≠ e.sz then
    let w ← idCacheAt e.id
    armOrder w e.id e.condition e.trigger payload
  else return ()

/-- `_insert_bracket_order<IsTrailing>`. -/
def insertBracketOrder [Pointers] (isTrailing : Bool) (e : OrderQueueElem) : M Unit := do
  let cp1 ← derefParams e.cparams1
  let cp2 ← derefParams e.cparams2
  let filled ← routeBasicOrder e true
  (if e.opensExits filled then
    execBracketOrder isTrailing cp1 cp2 filled e.cb .fillPartial e.id
  else pure ())
  armRemainder e filled
    (.bracketOrders (cp1.changeSize (cp1.size - filled)) (cp2.changeSize (cp2.size - filled)) 0 0)

/-- Tell the entry order of an exit leg which exits are active. -/
def tellEntry (parentId : Nat) (f : Payload → Option Payload) : M Unit := do
  match (← getSob).idCache parentId with
  | none => return ()
  | some w =>
    let b ← deref w parentId
    match f b.payload with
    | none => throw .undefinedBehaviour
    | some payload => modifySob fun s => s.updateAt w parentId fun b => { b with payload := payload }

/-- `_trailing_stop_insert` of a new exit leg. -/
def insertTrailingLeg (id : Nat) (isBuy : Bool) (nticks : Nat) : M Unit := do
  let s ← getSob
  record (.trailingStopInsert id isBuy nticks (s.itop s.last))
  trailingStopInsert id isBuy

/-- The loss leg of a bracket: link the target order to it, push it, and tell the entry. -/
def insertLossLeg (isTrailing : Bool) (e : OrderQueueElem) (cp1 : OrderParamaters)
    (p rmndr : Nat) : M Unit := do
  let id2 ← generateId
  let w1 ← idCacheAt e.id
  let nticks := cp1.stopNticks
  armOrder w1 e.id e.condition e.trigger
    (.linkedOrder ⟨id2, false, if isTrailing then some 0 else none⟩)
  modifySob fun s => Chain.stopPush s p
    { id := id2, sz := rmndr, cb := e.cb, isBuy := cp1.isBuy, limit := cp1.limitPrice,
      condition := e.condition, trigger := e.trigger,
      payload := .linkedOrder ⟨e.id, true, if isTrailing then some nticks else none⟩ }
  (if isTrailing then insertTrailingLeg id2 cp1.isBuy nticks else pure ())
  let s ← getSob
  pushExecCallback .triggerBracketOpenLoss e.cb e.parentId id2 (s.itop p) rmndr
  tellEntry e.parentId fun
    | .bracketOrders first second _ _ => some (.bracketOrders first second id2 e.id)
    | _ => none

/-- `_insert_active_bracket_order<IsTrailing>`. -/
def insertActiveBracketOrder [Pointers] (isTrailing : Bool) (e : OrderQueueElem) : M Unit := do
  let cp1 ← derefParams e.cparams1
  let filled ← routeBasicOrder e
  let rmndr := e.sz - filled
  if rmndr = 0 then pushExecCallback .triggerBracketClose e.cb e.id e.id 0 0
  else
    pushExecCallback .triggerBracketOpenTarget e.cb e.parentId e.id e.limit rmndr
    let p ←
      (if isTrailing then trailingStopPlevel cp1.isBuy cp1.stopNticks else ptoi cp1.stopPrice)
    insertLossLeg isTrailing e cp1 p rmndr

/-- `_insert_TRAILING_STOP_order`. -/
def insertTrailingStopOrder [Pointers] (e : OrderQueueElem) : M Unit := do
  let cp1 ← derefParams e.cparams1
  let filled ← routeBasicOrder e true
  (if e.opensExits filled then execTrailingStopOrder cp1 filled e.cb e.trigger e.id
  else pure ())
  armRemainder e filled (.contingentNticksOrder (cp1.changeSize (cp1.size - filled)) 0)

/-- `_insert_TRAILING_STOP_ACTIVE_order`. -/
def insertTrailingStopActiveOrder (e : OrderQueueElem) : M Unit := do
  let cp1 ← derefParams e.cparams1
  let nticks := cp1.stopNticks
  let p ← trailingStopPlevel cp1.isBuy nticks
  modifySob fun s => Chain.stopPush s p
    { id := e.id, sz := e.sz, cb := e.cb, isBuy := e.isBuy, limit := 0,
      condition := e.condition, trigger := e.trigger, payload := .nticks nticks }
  insertTrailingLeg e.id e.isBuy nticks
  pushExecCallback .triggerTrailingStopOpenLoss e.cb e.parentId e.id ((← getSob).itop p) e.sz
  tellEntry e.parentId fun
    | .contingentNticksOrder params _ => some (.contingentNticksOrder params e.id)
    | _ => none

/-- `_insert_FOK_order`. -/
def insertFOKOrder [Pointers] (e : OrderQueueElem) : M Unit := do
  let p ← ptoi e.limit
  if (← lookAhead e.isBuy p e.sz e.needsPartialFill 0).1 then
    discard (routeBasicOrder e)
  else pushExecCallback .kill e.cb e.id e.id e.limit e.sz

/-- `_insert_ALL_OR_NONE_order`. -/
def insertAllOrNoneOrder [Pointers] (e : OrderQueueElem) : M Unit :=
  discard (routeBasicOrder e true)

/-- `_route_advanced_order`; returns the id the order goes by afterwards. -/
def routeAdvancedOrder [Pointers] (e : OrderQueueElem) : M Nat := do
  match e.condition with
  | .trailingBracketActive => insertActiveBracketOrder true e; return e.id
  | .bracketActive => insertActiveBracketOrder false e; return e.id
  | .oneCancelsOther => insertOCOOrder e
  | .trailingStop => insertTrailingStopOrder e; return e.id
  | .trailingBracket => insertBracketOrder true e; return e.id
  | .bracket => insertBracketOrder false e; return e.id
  | .oneTriggersOther => insertOTOOrder e; return e.id
  | .fillOrKill => insertFOKOrder e; return e.id
  | .trailingStopActive => insertTrailingStopActiveOrder e; return e.id
  | .allOrNone => insertAllOrNoneOrder e; return e.id
  | .none => throw (.runtimeError "invalid advanced order condition")

/-- `_insert_order`; returns the id the order goes by afterwards. -/
def insertOrder [Pointers] (e : OrderQueueElem) : M Nat := do
  record (.insertOrder e)
  if e.isAdvanced then routeAdvancedOrder e
  else
    discard (routeBasicOrder e)
    return e.id

end SimpleOrderbook
