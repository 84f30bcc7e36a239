import SimpleOrderbook.Insert

/-!
# Requests and runs

What a client asks for (`orders.cpp`), the checks an external order passes before it is inserted
(`objects.cpp`, `advanced.cpp`), the execution window of the dispatcher with its internal queue
(`core.cpp`), the growth of the book (`impl.tpp`), and runs of such windows.
-/
namespace SimpleOrderbook

/-! ## Checking an external order -/

/-- The texts of `to_string(order_condition)`. -/
def OrderCondition.toString : OrderCondition → String
  | .none => "none"
  | .oneCancelsOther => "one-cancels-other"
  | .oneTriggersOther => "one-triggers-other"
  | .fillOrKill => "fill-or-kill"
  | .bracket => "bracket"
  | .bracketActive => "bracket-active"
  | .trailingStop => "trailing-stop"
  | .trailingStopActive => "trailing-stop-active"
  | .trailingBracket => "trailing-bracket"
  | .trailingBracketActive => "trailing-bracket-active"
  | .allOrNone => "all-or-noting"

/-- `_tick_price_or_throw`; `advanced_order_error` is an `std::invalid_argument`. -/
def tickPriceOrThrow [Pointers] (s : Sob) (price : Int) (msg : String) : Except Err Int :=
  if s.isValidPrice price then return price else throw (.invalidArgument msg)

/-- A `*order` the source dereferences. -/
def orderOrThrow (o : Option OrderParamaters) : Except Err OrderParamaters :=
  match o with
  | some op => return op
  | none => throw .undefinedBehaviour

/-- `static_cast<long>` of a `size_t`. -/
def asLong (n : Nat) : Int := (n : Int).bmod (2 ^ 64)

/-- `_build_nticks_params`. -/
def buildNticksParams (s : Sob) (buy : Bool) (size : Nat) (order : Option OrderParamaters) :
    Except Err OrderParamaters := do
  let order ← orderOrThrow order
  let ticks := s.itop (s.end_ - 1) - s.itop beg
  if asLong order.limitNticks > ticks then throw (.invalidArgument "limit_nticks too large")
  else if asLong order.stopNticks > ticks then throw (.invalidArgument "stop_nticks too large")
  else return .byNTicks buy size order.limitNticks order.stopNticks

/-- `_build_price_params`. -/
def buildPriceParams [Pointers] (s : Sob) (size : Nat) (order : Option OrderParamaters) :
    Except Err OrderParamaters := do
  if size = 0 then throw (.invalidArgument "invalid order size")
  else
    let order ← orderOrThrow order
    match order.getOrderType with
    | .stopLimit =>
      let stop ← tickPriceOrThrow s order.stopPrice "invalid stop price"
      let limit ← tickPriceOrThrow s order.limitPrice "invalid limit price"
      return .byPrice order.isBuy size limit stop
    | .limit =>
      let limit ← tickPriceOrThrow s order.limitPrice "invalid limit price"
      return .byPrice order.isBuy size limit 0
    | .stop =>
      let stop ← tickPriceOrThrow s order.stopPrice "invalid stop price"
      return .byPrice order.isBuy size 0 stop
    | .market => return .byPrice order.isBuy size 0 0
    | .null => throw (.invalidArgument "invalid order type")

/-- `_build_advanced_params`. -/
def buildAdvancedParams [Pointers] (s : Sob) (buy : Bool) (size : Nat) (advanced : AdvancedOrderTicket) :
    Except Err (Option OrderParamaters × Option OrderParamaters) := do
  match advanced.condition with
  | .trailingBracket =>
    let pp2 ← buildNticksParams s (!buy) size advanced.order2
    let pp1 ← buildNticksParams s (!buy) size advanced.order1
    return (some pp1, some pp2)
  | .trailingStop =>
    let pp1 ← buildNticksParams s (!buy) size advanced.order1
    return (some pp1, none)
  | .bracket =>
    let pp1 ← buildPriceParams s size advanced.order1
    let pp2 ← buildPriceParams s size advanced.order2
    return (some pp1, some pp2)
  | .oneTriggersOther | .oneCancelsOther =>
    let order1 ← orderOrThrow advanced.order1
    let pp1 ← buildPriceParams s order1.size (some order1)
    return (some pp1, none)
  | .fillOrKill | .allOrNone => return (none, none)
  | _ => throw (.invalidArgument "invalid order condition")

/-- `_check_limit_order`. -/
def checkLimitOrder (buy : Bool) (limit : Int) (op : Option OrderParamaters)
    (oc : OrderCondition) : Except Err Unit := do
  let op ← orderOrThrow op
  if op.size = 0 then throw (.invalidArgument (oc.toString ++ " invalid order size"))
  else
    match op.getOrderType with
    | .market => throw (.invalidArgument (oc.toString ++ " limit/market not valid order type"))
    | .limit =>
      if buy ∧ ¬ op.isBuy ∧ limit ≥ op.limitPrice then
        throw (.invalidArgument (oc.toString ++ " limit/limit buy price >= sell price"))
      else if ¬ buy ∧ op.isBuy ∧ limit ≤ op.limitPrice then
        throw (.invalidArgument (oc.toString ++ " limit/limit sell price <= buy price"))
      else if op.limitPrice = limit then
        throw (.invalidArgument (oc.toString ++ " limit/limit of same price"))
      else return ()
    | _ => return ()

/-- `_check_nticks`. -/
def checkNticks [Pointers] (s : Sob) (above : Bool) (limit : Int) (nticks : Nat) : Except Err Unit :=
  if nticks = 0 then throw (.invalidArgument "nticks can not be 0")
  else
    let p := (s.indexOf limit).toNat
    if nticks > (if above then s.end_ - 1 - p else p - beg) then
      throw (.invalidArgument "nticks would create order outside of tradable range")
    else return ()

/-- The distances of a trailing ticket, checked from a price `base` of its entry order. -/
def checkTrailing [Pointers] (s : Sob) (isBuy : Bool) (condition : OrderCondition) (bases : List Int)
    (cp1 cp2 : Option OrderParamaters) : Except Err Unit := do
  (if condition = .trailingBracket then
    bases.forM fun price => do checkNticks s isBuy price (← orderOrThrow cp2).limitNticks
  else pure ())
  (if condition = .trailingBracket ∨ condition = .trailingStop then
    bases.forM fun price => do checkNticks s (!isBuy) price (← orderOrThrow cp1).stopNticks
  else pure ())

/-- The checks on the ticket of a limit order. -/
def checkLimitTicket [Pointers] (s : Sob) (isBuy : Bool) (condition : OrderCondition) (limit : Int)
    (cp1 cp2 : Option OrderParamaters) : Except Err Unit :=
  match condition with
  | .bracket => checkLimitOrder isBuy limit cp2 condition
  | .oneCancelsOther => checkLimitOrder isBuy limit cp1 condition
  | _ => checkTrailing s isBuy condition [limit] cp1 cp2

/-- `order_queue_elem(const external_order_queue_elem&, const SimpleOrderbookBase*)`. -/
def orderQueueElem [Pointers] (s : Sob) (e : ExternalOrderQueueElem) : Except Err OrderQueueElem := do
  let qe : OrderQueueElem :=
    { type := e.type, isBuy := e.isBuy, limit := e.limit, stop := e.stop, sz := e.sz, cb := e.cb,
      id := e.id, condition := e.aot.condition, trigger := e.aot.trigger }
  let isAdvanced := e.aot.condition ≠ .none
  match e.type with
  | .market =>
    if isAdvanced then
      let (cp1, cp2) ← buildAdvancedParams s e.isBuy e.sz e.aot
      return { qe with cparams1 := cp1, cparams2 := cp2 }
    else return qe
  | .limit =>
    let limit ← tickPriceOrThrow s e.limit "invalid limit price"
    if isAdvanced then
      let (cp1, cp2) ← buildAdvancedParams s e.isBuy e.sz e.aot
      checkLimitTicket s e.isBuy e.aot.condition limit cp1 cp2
      return { qe with cparams1 := cp1, cparams2 := cp2 }
    else return qe
  | .stopLimit | .stop =>
    let limit ←
      (if e.type = .stopLimit then tickPriceOrThrow s e.limit "invalid limit price"
      else pure e.limit)
    let stop ← tickPriceOrThrow s e.stop "invalid stop price"
    if isAdvanced then
      let (cp1, cp2) ← buildAdvancedParams s e.isBuy e.sz e.aot
      let op ← orderOrThrow cp1
      if op.stopPrice = stop then throw (.invalidArgument "stop orders of same price")
      else
        checkTrailing s e.isBuy e.aot.condition (if limit ≠ 0 then [limit, stop] else [stop]) cp1 cp2
        return { qe with cparams1 := cp1, cparams2 := cp2 }
    else return qe
  | .null => throw (.runtimeError "invalid order type")

/-! ## The execution window -/

/-- The loop of `_execute_external_order` over the internally generated orders. The front element
stays in the queue while it is inserted. `none`: more than `fuel` orders. -/
def drainInternalOrders [Pointers] : (fuel : Nat) → M (Option Unit)
  | 0 => do
    if (← getSob).internalOrderQueue.isEmpty then return some () else return none
  | fuel + 1 => do
    match (← getSob).internalOrderQueue with
    | [] => return some ()
    | ie :: _ =>
      let id ← (if ie.id = 0 then generateId else pure ie.id)
      discard (insertOrder { ie with id := id })
      modifySob fun s => { s with internalOrderQueue := s.internalOrderQueue.tail }
      drainInternalOrders fuel

/-- Insert an external order under a new id. -/
def insertExternalOrder [Pointers] (qe : OrderQueueElem) : M Nat := do
  let id ← generateId
  insertOrder { qe with id := id }

/-- `_execute_external_order`. -/
def executeExternalOrder [Pointers] (fuel : Nat) (ee : ExternalOrderQueueElem) : M (Option Nat) := do
  if ee.id ≠ 0 ∧ ee.type = .null then
    if ← pullOrder ee.id then
      return (← drainInternalOrders fuel).map fun _ => 1
    else return some 0
  else
    match orderQueueElem (← getSob) ee with
    | .error err => throw err
    | .ok qe =>
      if ee.id ≠ 0 then
        if ← pullOrder ee.id then
          let ret ← insertExternalOrder qe
          return (← drainInternalOrders fuel).map fun _ => ret
        else return some 0
      else
        let ret ← insertExternalOrder qe
        return (← drainInternalOrders fuel).map fun _ => ret

/-- How a request ends for its client: a value, with the synchronous callbacks it is handed, or an
exception. -/
inductive Outcome where
  | value (ret : Nat) (copies : List DfrdCbElem)
  | exception (err : Err)
deriving DecidableEq, Repr

/-- `_dispatch_external_order`. There is no window for a run into undefined behaviour. -/
def dispatchExternalOrder [Pointers] (fuel : Nat) (ee : ExternalOrderQueueElem) (w : World) :
    Option (Outcome × World) :=
  match executeExternalOrder fuel ee w with
  | .ok none _ => none
  | .ok (some ret) w =>
    match ee.cb.cbType with
    | .synchronous => some (.value ret w.callbacksSync, { w with callbacksSync := [] })
    | .asynchronous => some (.value ret [], w)
  | .error .undefinedBehaviour _ => none
  | .error err w =>
    some (.exception err,
      { w with internalOrderQueue := [], trace := .dropped w.internalOrderQueue :: w.trace })

/-! ## Growing the book -/

/-- `_reset_internal_pointers`, after `incr` levels were added below (`atBeg`) or above. -/
def resetInternalPointers (s : Sob) (incr : Nat) (atBeg : Bool) : Sob :=
  let offset := if atBeg then incr else 0
  let oldEnd := s.end_
  let newEnd := s.end_ + incr
  let low (p : Nat) : Nat := if p = 0 then 0 else p + offset
  let high (p : Nat) : Nat := if p = oldEnd then newEnd else p + offset
  { s with
    end_ := newEnd
    last := if s.last = 0 then 0 else s.last + offset
    bid := low s.bid
    highSellLimit := low s.highSellLimit
    highBuyStop := low s.highBuyStop
    highSellStop := low s.highSellStop
    highBuyAon := low s.highBuyAon
    highSellAon := low s.highSellAon
    ask := high s.ask
    lowBuyLimit := high s.lowBuyLimit
    lowBuyStop := high s.lowBuyStop
    lowSellStop := high s.lowSellStop
    lowBuyAon := high s.lowBuyAon
    lowSellAon := high s.lowSellAon
    idCache := fun id => (s.idCache id).map fun w => { w with p := w.p + offset } }

/-- `_grow_book`. -/
def growBook (min : Int) (incr : Nat) (atBeg : Bool) (s : Sob) : Sob :=
  if incr = 0 then s
  else
    let book : Nat → Level :=
      if atBeg then fun p => if p < incr then {} else s.book (p - incr) else s.book
    resetInternalPointers { s with base := min, book := book } incr atBeg

/-- The largest `long`. -/
def longMax : Int := 2 ^ 63 - 1

/-- `grow_book_above`. -/
def growBookAbove (newMax : Int) (s : Sob) : Except Err Sob :=
  let diff := newMax - s.itop (s.end_ - 1)
  if diff > longMax then throw (.invalidArgument "new_max too far from old max to grow")
  else return if diff > 0 then growBook s.base diff.toNat false s else s

/-- `grow_book_below`. -/
def growBookBelow (newMin : Int) (s : Sob) : Except Err Sob :=
  if s.base = 1 then return s
  else
    let newBase := if newMin < 1 then 1 else newMin
    let diff := s.base - newBase
    if diff > longMax then throw (.invalidArgument "new_min too far from old min to grow")
    else return if diff > 0 then growBook newBase diff.toNat true s else s

/-! ## Requests -/

/-- The calls of the public interface that change the book, each with the callback of its
synchronous or asynchronous form. -/
inductive Request where
  | insertLimitOrder (buy : Bool) (limit : Int) (size : Nat) (cb : OrderExecCbBndl)
      (advanced : AdvancedOrderTicket)
  | insertMarketOrder (buy : Bool) (size : Nat) (cb : OrderExecCbBndl)
      (advanced : AdvancedOrderTicket)
  | insertStopOrder (buy : Bool) (stop limit : Int) (size : Nat) (cb : OrderExecCbBndl)
      (advanced : AdvancedOrderTicket)
  | pullOrder (id : Nat) (cbType : CallbackType)
  | replaceWithLimitOrder (id : Nat) (buy : Bool) (limit : Int) (size : Nat)
      (cb : OrderExecCbBndl) (advanced : AdvancedOrderTicket)
  | replaceWithMarketOrder (id : Nat) (buy : Bool) (size : Nat) (cb : OrderExecCbBndl)
      (advanced : AdvancedOrderTicket)
  | replaceWithStopOrder (id : Nat) (buy : Bool) (stop limit : Int) (size : Nat)
      (cb : OrderExecCbBndl) (advanced : AdvancedOrderTicket)
  | growBookAbove (newMax : Int)
  | growBookBelow (newMin : Int)
deriving DecidableEq, Repr

/-- `check_order_params(size)`. -/
def checkOrderSize (size : Nat) : Except Err Unit :=
  if size = 0 then throw (.invalidArgument "invalid order size") else return ()

/-- `check_order_params(size, id)`. -/
def checkOrderParams (size id : Nat) : Except Err Unit := do
  checkOrderSize size
  if id = 0 then throw (.invalidArgument "invalid order id(0)") else return ()

/-- The conditions `check_market_order_params` refuses. -/
def checkMarketCondition (advanced : AdvancedOrderTicket) : Except Err Unit :=
  match advanced.condition with
  | .oneCancelsOther => throw (.invalidArgument "OCO invalid for market order")
  | .fillOrKill => throw (.invalidArgument "FOK invalid for market order")
  | .allOrNone => throw (.invalidArgument "AON invalid for market order")
  | _ => return ()

/-- The conditions `check_stop_order_params` refuses. -/
def checkStopCondition (advanced : AdvancedOrderTicket) : Except Err Unit :=
  match advanced.condition with
  | .fillOrKill => throw (.invalidArgument "FOK invalid for stop order")
  | .allOrNone => throw (.invalidArgument "AON invalid for stop order")
  | _ => return ()

def stopOrderType (limit : Int) : OrderType := if limit ≠ 0 then .stopLimit else .stop

/-- What a request does: an element for the external queue, or a growth of the book. -/
inductive Action where
  | external (ee : ExternalOrderQueueElem)
  | grow (f : Sob → Except Err Sob)

/-- The checks made in the client's thread, and what passes them on. -/
def Request.action : Request → Except Err Action
  | .insertLimitOrder buy limit size cb advanced => do
    checkOrderSize size
    return .external ⟨.limit, buy, limit, 0, size, cb, 0, advanced⟩
  | .insertMarketOrder buy size cb advanced => do
    checkOrderSize size
    checkMarketCondition advanced
    return .external ⟨.market, buy, 0, 0, size, cb, 0, advanced⟩
  | .insertStopOrder buy stop limit size cb advanced => do
    checkOrderSize size
    checkStopCondition advanced
    return .external ⟨stopOrderType limit, buy, limit, stop, size, cb, 0, advanced⟩
  | .pullOrder id cbType => do
    checkOrderParams 1 id
    return .external ⟨.null, false, 0, 0, 0, { cbType := cbType }, id, .null⟩
  | .replaceWithLimitOrder id buy limit size cb advanced => do
    checkOrderParams size id
    return .external ⟨.limit, buy, limit, 0, size, cb, id, advanced⟩
  | .replaceWithMarketOrder id buy size cb advanced => do
    checkOrderParams size id
    checkMarketCondition advanced
    return .external ⟨.market, buy, 0, 0, size, cb, id, advanced⟩
  | .replaceWithStopOrder id buy stop limit size cb advanced => do
    checkOrderParams size id
    checkStopCondition advanced
    return .external ⟨stopOrderType limit, buy, limit, stop, size, cb, id, advanced⟩
  | .growBookAbove newMax => return .grow (SimpleOrderbook.growBookAbove newMax)
  | .growBookBelow newMin => return .grow (SimpleOrderbook.growBookBelow newMin)

/-- One request, from the call to the close of its window. `none`: the internal queue held more
than `fuel` orders, or the window ran into undefined behaviour. -/
def Request.exec [Pointers] (fuel : Nat) (r : Request) (w : World) : Option (Outcome × World) :=
  match r.action with
  | .error err => some (.exception err, w)
  | .ok (.external ee) => dispatchExternalOrder fuel ee w
  | .ok (.grow f) =>
    match f w.toSob with
    | .error err => some (.exception err, w)
    | .ok s => some (.value 0 [], { w with toSob := s })

/-! ## Runs -/

/-- Request `r`, executed in `w`, ends with outcome `o` in `w'`. -/
def Window [Pointers] (r : Request) (w : World) (o : Outcome) (w' : World) : Prop :=
  ∃ fuel, r.exec fuel w = some (o, w')

/-- The book `create` makes for the prices from `base` on, `incr` of them. -/
structure Initial (w : World) : Prop where
  exists_book : ∃ base incr, 1 ≤ base ∧ 3 ≤ incr ∧ w.toSob = Sob.init base incr
  trace_nil : w.trace = []

/-- A run of requests from `w₀`, each with its outcome. -/
inductive Run [Pointers] (w₀ : World) : List (Request × Outcome) → World → Prop where
  | nil : Run w₀ [] w₀
  | snoc {rs : List (Request × Outcome)} {w w' : World} {r : Request} {o : Outcome} :
      Run w₀ rs w → Window r w o w' → Run w₀ (rs ++ [(r, o)]) w'

/-! ## Runs can be computed -/

/-- The run of a list of requests, each with at most `fuel` internal orders. -/
def execAll [Pointers] (fuel : Nat) : List Request → World → Option (List (Request × Outcome) × World)
  | [], w => some ([], w)
  | r :: rs, w => do
    let (o, w) ← r.exec fuel w
    let (os, w) ← execAll fuel rs w
    return ((r, o) :: os, w)

/-- The world of `create`, with nothing in front of a chain. -/
def World.create (base : Int) (incr : Nat) : World :=
  { toSob := Sob.init base incr, sentinelSz := fun _ => 0 }

namespace Request
variable (buy : Bool) (price : Int) (size : Nat)

/-- Requests without a functor. -/
def limit (advanced : AdvancedOrderTicket := .null) : Request :=
  .insertLimitOrder buy price size {} advanced

def market : Request := .insertMarketOrder buy size {} .null

def stop (advanced : AdvancedOrderTicket := .null) : Request :=
  .insertStopOrder buy price 0 size {} advanced

end Request
end SimpleOrderbook
