import Mathlib.Algebra.Ring.Int.Defs
import Mathlib.Algebra.Ring.Nat
import Mathlib.Data.List.Sort
import Mathlib.Logic.Relation
import Mathlib.Order.Bounds.Defs

/-!
# The data of the orderbook

Order parameters, advanced tickets, the bundles stored in the chains and the elements of the
external and internal queues, field for field as in `common.hpp`, `order_paramaters.hpp` and
`simpleorderbook.hpp`.

Prices are whole numbers of ticks (`TickPrice::as_ticks`); `0` is the source's "no price".
Sizes (`size_t`) and ids (`id_type`) are natural numbers, and so are levels: a `level*` into the
vector `_book` is an index. A callback functor is only an opaque name. Sums of sizes wrap around
(`asSize`).
-/
namespace SimpleOrderbook

/-- What a `size_t` keeps of a number. -/
def asSize (n : Nat) : Nat := n % 2 ^ 64

theorem asSize_of_lt {n : Nat} (h : n < 2 ^ 64) : asSize n = n := Nat.mod_eq_of_lt h

theorem asSize_lt (n : Nat) : asSize n < 2 ^ 64 := Nat.mod_lt _ (by decide)

theorem asSize_le (n : Nat) : asSize n ≤ n := Nat.mod_le _ _

@[simp] theorem asSize_asSize_add (m n : Nat) : asSize (asSize m + n) = asSize (m + n) :=
  Nat.mod_add_mod m (2 ^ 64) n

theorem asSize_eq_iff {n : Nat} : asSize n = n ↔ n < 2 ^ 64 :=
  ⟨fun h => h ▸ asSize_lt n, asSize_of_lt⟩

inductive OrderType where
  | null | market | limit | stop | stopLimit
deriving DecidableEq, Repr

inductive OrderCondition where
  | none | oneCancelsOther | oneTriggersOther | fillOrKill | bracket | bracketActive
  | trailingStop | trailingStopActive | trailingBracket | trailingBracketActive | allOrNone
deriving DecidableEq, Repr

inductive ConditionTrigger where
  | none | fillPartial | fillFull
deriving DecidableEq, Repr

inductive CallbackMsg where
  | cancel | fill | stopToLimit | stopToMarket | triggerOCO | triggerOTO
  | triggerBracketOpen | triggerBracketOpenTarget | triggerBracketOpenLoss
  | triggerBracketAdjTarget | triggerBracketAdjLoss | triggerBracketClose
  | triggerTrailingStopOpen | triggerTrailingStopOpenLoss | triggerTrailingStopAdjLoss
  | triggerTrailingStopClose | kill
deriving DecidableEq, Repr

inductive CallbackType where
  | synchronous | asynchronous
deriving DecidableEq, Repr

/-- `order_exec_cb_bndl`: the user's functor (if any) and the queue its calls go to. -/
structure OrderExecCbBndl where
  cbObj : Option Nat := .none
  cbType : CallbackType := .synchronous
deriving DecidableEq, Repr

/-! ## Order parameters and advanced tickets -/

/-- `OrderParamatersByPrice` and `OrderParamatersByNTicks`. -/
inductive OrderParamaters where
  | byPrice (isBuy : Bool) (size : Nat) (limit stop : Int)
  | byNTicks (isBuy : Bool) (size : Nat) (limit stop : Nat)
deriving DecidableEq, Repr

namespace OrderParamaters

def isBuy : OrderParamaters → Bool
  | .byPrice b _ _ _ => b
  | .byNTicks b _ _ _ => b

def size : OrderParamaters → Nat
  | .byPrice _ n _ _ => n
  | .byNTicks _ n _ _ => n

def changeSize : OrderParamaters → Nat → OrderParamaters
  | .byPrice b _ l s, n => .byPrice b n l s
  | .byNTicks b _ l s, n => .byNTicks b n l s

def limitPrice : OrderParamaters → Int
  | .byPrice _ _ l _ => l
  | .byNTicks .. => 0

def stopPrice : OrderParamaters → Int
  | .byPrice _ _ _ s => s
  | .byNTicks .. => 0

def limitNticks : OrderParamaters → Nat
  | .byPrice .. => 0
  | .byNTicks _ _ l _ => l

def stopNticks : OrderParamaters → Nat
  | .byPrice .. => 0
  | .byNTicks _ _ _ s => s

def getOrderType : OrderParamaters → OrderType
  | .byPrice _ n l s => go n (l ≠ 0) (s ≠ 0)
  | .byNTicks _ n l s => go n (l ≠ 0) (s ≠ 0)
where
  go (n : Nat) (limit stop : Bool) : OrderType :=
    if n = 0 ∧ ¬ stop ∧ ¬ limit then .null
    else if stop then (if limit then .stopLimit else .stop)
    else if limit then .limit else .market

end OrderParamaters

structure AdvancedOrderTicket where
  condition : OrderCondition := .none
  trigger : ConditionTrigger := .none
  order1 : Option OrderParamaters := .none
  order2 : Option OrderParamaters := .none
deriving DecidableEq, Repr

def AdvancedOrderTicket.null : AdvancedOrderTicket := {}

/-! ## Bundles -/

/-- `order_link` and `trailing_order_link`; only the latter has `nticks`. -/
structure OrderLink where
  id : Nat
  isPrimary : Bool
  nticks : Option Nat := .none
deriving DecidableEq, Repr

/-- The union of `_order_bndl`. The price and the nticks bracket share one layout, and the
source reads them through either member; `null` is the zeroed union of a fresh bundle. -/
inductive Payload where
  | null
  | linkedOrder (link : OrderLink)
  | contingentPriceOrder (params : OrderParamaters)
  | contingentNticksOrder (params : OrderParamaters) (active : Nat)
  | bracketOrders (first second : OrderParamaters) (active1 active2 : Nat)
  | nticks (n : Nat)
deriving DecidableEq, Repr

/-- `_order_bndl`. -/
structure OrderBndl where
  id : Nat
  sz : Nat
  cb : OrderExecCbBndl := {}
  condition : OrderCondition := .none
  trigger : ConditionTrigger := .none
  payload : Payload := .null
deriving DecidableEq, Repr

/-- `limit_bndl`. `side` is a ghost: the side the order was inserted on. The source does not
store it and no definition below reads it. -/
structure LimitBndl extends OrderBndl where
  side : Bool
deriving DecidableEq, Repr

/-- `aon_bndl` has the fields of `limit_bndl`, and either is built from the other. -/
abbrev AonBndl := LimitBndl

/-- `stop_bndl`; a `limit` of `0` makes it a stop-market order. -/
structure StopBndl extends OrderBndl where
  isBuy : Bool
  limit : Int
deriving DecidableEq, Repr

namespace OrderBndl

def isAdvanced (b : OrderBndl) : Bool := b.condition ≠ .none
def isOCO (b : OrderBndl) : Bool := b.condition = .oneCancelsOther
def isAON (b : OrderBndl) : Bool := b.condition = .allOrNone
def isActiveBracket (b : OrderBndl) : Bool := b.condition = .bracketActive
def isActiveTrailingStop (b : OrderBndl) : Bool := b.condition = .trailingStopActive
def isActiveTrailingBracket (b : OrderBndl) : Bool := b.condition = .trailingBracketActive
def isActiveTrailing (b : OrderBndl) : Bool := b.isActiveTrailingStop || b.isActiveTrailingBracket
def isTrailingStop (b : OrderBndl) : Bool := b.condition = .trailingStop
def isTrailingBracket (b : OrderBndl) : Bool := b.condition = .trailingBracket
def needsFullFill (b : OrderBndl) : Bool := b.trigger = .fillFull
def hasConditionTrigger (b : OrderBndl) : Bool := b.trigger ≠ .none

def shouldPullLinked (b : OrderBndl) : Bool :=
  b.isOCO || b.isActiveBracket || b.isActiveTrailingBracket

end OrderBndl

/-! ## Queue elements -/

/-- `external_order_queue_elem`, less its promise: a nonzero `id` asks for a pull, or with a
type other than `null` for a replace. -/
structure ExternalOrderQueueElem where
  type : OrderType
  isBuy : Bool
  limit : Int
  stop : Int
  sz : Nat
  cb : OrderExecCbBndl
  id : Nat := 0
  aot : AdvancedOrderTicket := {}
deriving DecidableEq, Repr

/-- `order_queue_elem`. -/
structure OrderQueueElem where
  type : OrderType
  isBuy : Bool
  limit : Int
  stop : Int
  sz : Nat
  cb : OrderExecCbBndl := {}
  id : Nat := 0
  condition : OrderCondition := .none
  trigger : ConditionTrigger := .none
  cparams1 : Option OrderParamaters := .none
  cparams2 : Option OrderParamaters := .none
  parentId : Nat := 0
deriving DecidableEq, Repr

namespace OrderQueueElem

def isAdvanced (e : OrderQueueElem) : Bool := e.condition ≠ .none
def isAON (e : OrderQueueElem) : Bool := e.condition = .allOrNone
def needsPartialFill (e : OrderQueueElem) : Bool := e.trigger = .fillPartial

end OrderQueueElem

/-- `dfrd_cb_elem`: one deferred callback. -/
structure DfrdCbElem where
  msg : CallbackMsg
  execCb : Nat
  id1 : Nat
  id2 : Nat
  price : Int
  sz : Nat
deriving DecidableEq, Repr

/-! ## Exceptions -/

/-- How a window can be left other than by a value. `undefinedBehaviour` is not an exception of
the source: it marks a null or dangling access, after which C++ promises nothing. -/
inductive Err where
  | invalidArgument (msg : String)
  | liquidityException (initialSize remainingSize : Nat) (orderId : Nat)
  | derivedPriceException
  | orderNotInCache (id : Nat)
  | outOfRange
  | runtimeError (msg : String)
  | undefinedBehaviour
deriving DecidableEq, Repr

end SimpleOrderbook
