import SimpleOrderbook.Advanced

/-!
# The matching engine

`_trade` and everything it calls (`core.cpp`, `advanced.cpp`): the sweep over the levels of one
side, the fills of limit and AON chains, the trailing stops and the triggered stops; and the
look-ahead `_limit_is_fillable`.

Loops over levels recurse on the number of levels left, loops over a chain on its elements.
-/
namespace SimpleOrderbook

/-! ## Fills -/

/-- `_trade_has_occured`. -/
def tradeHasOccured (plev size idbuy idsell : Nat)
    (cbbuy cbsell : OrderExecCbBndl) : M Unit := do
  let p := (← getSob).itop plev
  pushExecCallback .fill cbbuy idbuy idbuy p size
  pushExecCallback .fill cbsell idsell idsell p size
  record (.trade p plev size idbuy idsell)
  modifySob fun s =>
    { s with timesales := s.timesales ++ [(p, size)], last := plev,
             totalVolume := asSize (s.totalVolume + size), lastSize := size, needCheckForStops := true }

/-- `_hit_aon_chain`: `kept` are the orders in front of the ones still to visit. Returns the size
left and whether the chain was emptied. -/
def hitAonChain (bidSide : Bool) (plev id : Nat) (cb : OrderExecCbBndl)
    (kept : List AonBndl) : List AonBndl → Nat → M (Nat × Bool)
  | [], size => return (size, kept.isEmpty)
  | b :: bs, size => do
    if size = 0 then return (size, false)
    else if size ≥ b.sz then
      tradeHasOccured plev b.sz id b.id cb b.cb
      record (.filled b.id)
      modifySob fun s => (s.cacheErase b.id).setAons bidSide plev (some (kept ++ bs))
      hitAonChain bidSide plev id cb kept bs (size - b.sz)
    else hitAonChain bidSide plev id cb (kept ++ [b]) bs size

/-- Rewrite order `id` of the limit chain of level `plev`. -/
def Sob.updateLimit (s : Sob) (plev id : Nat) (f : LimitBndl → LimitBndl) : Sob :=
  s.setLimits plev ((s.limits plev).map (Chain.updateLimit f id))

/-- The condition handlers of a resting order that just traded `amount`; they run before its size
is reduced. -/
def handleFill (plev : Nat) (b : LimitBndl) (amount : Nat) : M Unit := do
  if b.isAdvanced && b.hasConditionTrigger && (!b.needsFullFill || amount = b.sz) then
    let b' ← handleAdvancedOrder b.toOrderBndl b.id amount
    modifySob fun s => s.updateLimit plev b.id fun x =>
      { x with condition := b'.condition, trigger := b'.trigger, payload := b'.payload }
  else return ()

/-- One resting order of the loop of `_hit_chain`; returns the size left. -/
def hitOrder (plev id : Nat) (cb : OrderExecCbBndl) (b : LimitBndl) (size : Nat) :
    M Nat := do
  if b.isAON ∧ size < b.sz then
    Chain.copyBndlToAonChain plev b
    -- the size `0` marks the original for erasure
    modifySob fun s => s.updateLimit plev b.id fun x => { x with sz := 0 }
    return size
  else
    let amount := min size b.sz
    tradeHasOccured plev amount id b.id cb b.cb
    handleFill plev b amount
    modifySob fun s => s.updateLimit plev b.id fun x => { x with sz := x.sz - amount }
    match Chain.findLimit ((← getSob).limits plev).elems b.id with
    | none => throw .undefinedBehaviour
    | some x =>
      if x.sz = 0 then
        record (.filled b.id)
        modifySob fun s => s.cacheErase b.id
        return size - amount
      else return size - amount

/-- The loop of `_hit_chain` over the orders `ids` not visited yet; `pos` is the last visited.
An order that left the chain meanwhile is not met any more. -/
def hitOrders (plev id : Nat) (cb : OrderExecCbBndl) :
    List Nat → Option Nat → Nat → M (Nat × Option Nat)
  | [], pos, size => return (size, pos)
  | i :: ids, pos, size => do
    if size = 0 then return (size, pos)
    else
      match Chain.findLimit ((← getSob).limits plev).elems i with
      | none => hitOrders plev id cb ids pos size
      | some b =>
        let size ← hitOrder plev id cb b size
        hitOrders plev id cb ids (some i) size

/-- The bulk erase at the end of `_hit_chain`: everything in front of the last visited order goes,
and that order too if nothing is left of it. -/
def eraseVisited (pos : Nat) (l : List LimitBndl) : List LimitBndl :=
  match l.dropWhile (·.id ≠ pos) with
  | [] => []
  | b :: bs => if b.sz = 0 then bs else b :: bs

/-- `_hit_chain`. -/
def hitChain (plev id size : Nat) (cb : OrderExecCbBndl) :
    M (Nat × Bool) := do
  let s ← getSob
  record (.hitChain s plev size)
  let (size, pos) ← hitOrders plev id cb ((s.limits plev).elems.map (·.id)) none size
  match pos, (← getSob).limits plev with
  | some pos, some l =>
    record (.hitChainEnd (← getSob) plev pos)
    modifySob fun s => s.setLimits plev (some (eraseVisited pos l))
    return (size, (eraseVisited pos l).isEmpty)
  | none, some l =>
    -- nothing was visited: `--pos` leaves the list at its sentinel node, whose neighbouring
    -- memory decides between `erase(begin(), end())` and `erase(begin(), begin())`
    let w ← get
    if w.sentinelSz w.trace.length ≠ 0 then
      modifySob fun s => s.setLimits plev (some [])
      return (size, true)
    else return (size, l.isEmpty)
  | _, none => throw .undefinedBehaviour

/-! ## Trailing stops -/

/-- The distance of an active trailing stop, or of the loss leg of a trailing bracket. -/
def trailingNticks (b : StopBndl) : M Nat :=
  match b.isActiveTrailingStop, b.payload with
  | true, .nticks n => return n
  | false, .linkedOrder ⟨_, _, some n⟩ => return n
  | _, _ => throw .undefinedBehaviour

/-- `_trailing_stop_adjust`. -/
def trailingStopAdjust (id : Nat) (buyStop : Bool) (p : Nat) : M Unit := do
  let b ← Chain.stopPop id
  let nticks ← trailingNticks b
  let pAdj ← plevelOffset true buyStop nticks p
  let s ← getSob
  let msg := if b.isActiveTrailingStop then .triggerTrailingStopAdjLoss else .triggerBracketAdjLoss
  pushExecCallback msg b.cb id id (s.itop pAdj) b.sz
  modifySob fun s => Chain.stopPush s pAdj b

/-- `_trailing_stops_adjust`. -/
def trailingStopsAdjust (buyStops : Bool) (p : Nat) : M Unit := do
  let s ← getSob
  record (.trailingStopsAdjust s buyStops p)
  (if buyStops then s.trailingBuyStops else s.trailingSellStops).forM fun id =>
    trailingStopAdjust id buyStops p

/-! ## Triggered stops -/

/-- The market or limit order a triggered stop becomes. -/
def triggeredOrder (b : OrderBndl) (e : StopBndl) (idNew : Nat) : M OrderQueueElem := do
  let order : OrderQueueElem :=
    { type := if e.limit ≠ 0 then .limit else .market, isBuy := e.isBuy, limit := e.limit,
      stop := 0, sz := e.sz, cb := e.cb, id := idNew, parentId := e.id }
  if b.isTrailingStop then
    match b.payload with
    | .contingentNticksOrder params _ =>
      return { order with condition := b.condition, trigger := b.trigger,
                          cparams1 := some params }
    | _ => throw .undefinedBehaviour
  else if b.isTrailingBracket then
    match b.payload with
    | .bracketOrders first second _ _ =>
      return { order with condition := b.condition, trigger := b.trigger,
                          cparams1 := some first, cparams2 := some second }
    | _ => throw .undefinedBehaviour
  else return order

/-- The cancel conditions of a triggered stop; returns its bundle afterwards. -/
def cancelTriggered (e : StopBndl) : M OrderBndl := do
  if e.isAdvanced then
    let (_, b) ← handleAdvancedOrderCancel e.toOrderBndl e.id e.sz
    return b
  else return e.toOrderBndl

/-- The trigger conditions of a triggered stop; those of trailing stops and trailing brackets went
to the new order. -/
def triggerTriggered (b : OrderBndl) (e : StopBndl) : M Unit := do
  if b.isAdvanced && !b.isTrailingStop && !b.isTrailingBracket then
    discard (handleAdvancedOrderTrigger b e.id e.sz)
  else return ()

/-- One stop of the loop of `_handle_triggered_stop_chain<BuyStops>`. Without a functor the source
skips the callback, as `pushExecCallback` does. -/
def handleTriggeredStop (buyStops : Bool) (plev : Nat) (e : StopBndl) : M Unit := do
  trailingStopErase e.id buyStops
  let b ← cancelTriggered e
  let idNew ← generateId
  let s ← getSob
  record (.stopTriggered e plev s.last idNew)
  let msg := if e.limit ≠ 0 then .stopToLimit else .stopToMarket
  pushExecCallback msg e.cb e.id idNew e.limit e.sz
  let order ← triggeredOrder b e idNew
  pushInternalOrder order
  triggerTriggered b e
  modifySob fun s => s.cacheErase e.id

/-- `_handle_triggered_stop_chain<BuyStops>`: both sides of the chain are triggered. -/
def handleTriggeredStopChain (buyStops : Bool) (plev : Nat) : M Unit := do
  let cchain := ((← getSob).stops plev).elems
  modifySob fun s => Exec.Stop.adjustStateAfterTrigger buyStops (s.setStops plev none) plev
  cchain.forM (handleTriggeredStop buyStops plev)

/-- `for( p = _low_buy_stop; p <= _last; ++p )`, `n` levels. -/
def triggerBuyStops : (n : Nat) → Nat → M Unit
  | 0, _ => return ()
  | n + 1, p => do
    handleTriggeredStopChain true p
    triggerBuyStops n (p + 1)

/-- `for( p = _high_sell_stop; p >= _last; --p )`, `n` levels. -/
def triggerSellStops : (n : Nat) → Nat → M Unit
  | 0, _ => return ()
  | n + 1, p => do
    handleTriggeredStopChain false p
    triggerSellStops n (p - 1)

/-- `_look_for_triggered_stops`. -/
def lookForTriggeredStops : M Unit := do
  let s ← getSob
  record (.lookForTriggeredStops s)
  triggerBuyStops (s.last + 1 - s.lowBuyStop) s.lowBuyStop
  let s ← getSob
  record (.lookForSellStops s)
  triggerSellStops (s.highSellStop + 1 - s.last) s.highSellStop
  modifySob fun s => { s with needCheckForStops := false }

/-! ## The sweep -/

/-- The AON chain of level `p`, if it is in the window. -/
def tradeAons (bidSide : Bool) (p id : Nat) (cb : OrderExecCbBndl) (size : Nat) :
    M Nat := do
  let s ← getSob
  if Exec.Aon.inWindow bidSide s p then
    match s.aons bidSide p with
    | none => return size
    | some l =>
      record (.hitAonChain s bidSide p size)
      let (size, all) ← hitAonChain bidSide p id cb [] l size
      if all then
        modifySob fun s =>
          Exec.Aon.adjustStateAfterPull bidSide (s.setAons bidSide p none) p
        return size
      else return size
  else return size

/-- The limit chain of level `p`, if it is in the window. -/
def tradeLimits (bidSide : Bool) (p id : Nat) (cb : OrderExecCbBndl)
    (size : Nat) : M Nat := do
  let s ← getSob
  if Exec.Limit.inWindow bidSide s p then
    match s.limits p with
    | none => return size
    | some _ =>
      let (size, all) ← hitChain p id size cb
      if all then
        modifySob fun s => Exec.Core.findNewBestInside bidSide (s.setLimits p none)
        return size
      else return size
  else return size

/-- The loop of `_trade` from level `p`, with the extremes of `_last` so far. `n` bounds the
levels still inside of `plev`. -/
def sweep (bidSide : Bool) (plev endp id : Nat) (cb : OrderExecCbBndl) :
    (n : Nat) → Nat → Nat → Nat → Nat → M (Nat × Nat × Nat)
  | 0, _, size, high, low => return (size, high, low)
  | n + 1, p, size, high, low => do
    if size ≠ 0 ∧ Exec.Core.insideOf bidSide p plev ∧ Exec.Core.insideOf bidSide p endp then
      let size ← tradeAons bidSide p id cb size
      let size ← tradeLimits bidSide p id cb size
      let s ← getSob
      let high' := if s.last > high then s.last else high
      let low' := if s.last > high then low else if s.last < low then s.last else low
      sweep bidSide plev endp id cb n (Exec.Core.nextOrJump bidSide s p) size high' low'
    else return (size, high, low)

/-- The trailing stops follow a new high and a new low of `_last` within one `_trade`. -/
def adjustTrailingStops (oldLast high low : Nat) : M Unit := do
  (if high > oldLast then trailingStopsAdjust false high else pure ())
  (if low < oldLast then trailingStopsAdjust true low else pure ())

/-- The stops are looked for if anything traded. -/
def checkForStops : M Unit := do
  let s ← getSob
  if s.needCheckForStops then lookForTriggeredStops else return ()

/-- `_trade<BidSide>`: sweep the resting orders of a side from its best level through `plev`.
Returns what could not be filled. -/
def trade (bidSide : Bool) (plev id size : Nat) (cb : OrderExecCbBndl) :
    M Nat := do
  let s ← getSob
  record (.tradeCall s bidSide plev id size)
  let p := Exec.Core.begin_ bidSide s
  let (size, high, low) ← sweep bidSide plev (Exec.Core.end_ bidSide s) id cb
    (Exec.Core.distance bidSide p plev) p size s.last s.last
  adjustTrailingStops s.last high low
  checkForStops
  return size

/-! ## The look-ahead -/

/-- `check_elem` over the orders of a scan, each with whether it is all-or-none. -/
def checkElems (sz : Nat) (allowPartial : Bool) : List (Nat × Bool) → Nat → Bool × Nat
  | [], tot => (false, tot)
  | (elemSz, isAon) :: es, tot =>
    if isAon ∧ sz - tot < elemSz then
      if tot ≥ sz then (true, tot) else checkElems sz allowPartial es tot
    else
      let tot := asSize (tot + elemSz)
      if allowPartial ∨ tot ≥ sz then (true, tot) else checkElems sz allowPartial es tot

/-- The orders `_limit_is_fillable` meets at level `b`: the AON chain, then the limit chain. -/
def fillableAt (bidSide : Bool) (s : Sob) (b : Nat) : List (Nat × Bool) :=
  (s.aons bidSide b).elems.map (fun x => (x.sz, true)) ++
    (if Exec.Limit.inWindow bidSide s b then
      (s.limits b).elems.map fun x => (x.sz, x.isAON) else [])

/-- `_limit_is_fillable<IsBuy>`: can a limit order at `p` of size `sz` be filled, and the size
found up to there. -/
def limitIsFillable (isBuy : Bool) (s : Sob) (p sz : Nat) (allowPartial : Bool) :
    Bool × Nat :=
  checkElems sz allowPartial
    ((Exec.Core.levels (!isBuy) s p).flatMap (fillableAt (!isBuy) s)) 0

/-- A call of `_limit_is_fillable<IsBuy>`. -/
def lookAhead (isBuy : Bool) (p sz : Nat) (allowPartial : Bool) (rmndr : Nat) : M (Bool × Nat) := do
  let s ← getSob
  record (.lookAhead s isBuy p sz rmndr)
  return limitIsFillable isBuy s p sz allowPartial

end SimpleOrderbook
