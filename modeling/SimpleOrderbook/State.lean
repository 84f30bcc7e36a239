import SimpleOrderbook.Types

/-!
# The state of an orderbook

`Sob` is the object of class `SimpleOrderbookBase` (with the `_base` price of its derived class),
less its threads and mutexes. Cached pointers are indices into `_book`, whose first element is the
pad: `_beg` is always index `1`, the "empty" pointer below it is `0`, and `end_` is the size of the
vector. A null `_last` is `0` as well; it compares below every level, as a null pointer does.

`World` adds the calls made so far, a ghost that no function of the engine reads, and the memory
behind the sentinel node of a chain, which `_hit_chain` reads when it is called with size `0`.
-/
namespace SimpleOrderbook

/-! ## Chains -/

/-- `chain_manager<T>`: the list is allocated on the first push and freed when emptied. -/
abbrev ChainManager (α : Type) := Option (List α)

namespace ChainManager
variable {α : Type}

def empty (c : ChainManager α) : Bool := c.isNone

/-- The elements of the chain, none when it is not allocated. -/
def elems (c : ChainManager α) : List α := c.getD []

def push (c : ChainManager α) (b : α) : ChainManager α := some (c.elems ++ [b])

/-- What is left of a chain after an element was erased: an empty one is freed. -/
def ofList : List α → ChainManager α
  | [] => none
  | b :: bs => some (b :: bs)

@[simp] theorem elems_none : elems (none : ChainManager α) = [] := rfl
@[simp] theorem elems_some (l : List α) : elems (some l) = l := rfl
@[simp] theorem elems_push (c : ChainManager α) (b : α) : (push c b).elems = c.elems ++ [b] := rfl
@[simp] theorem elems_ofList (l : List α) : (ofList l).elems = l := by cases l <;> rfl
@[simp] theorem empty_none : empty (none : ChainManager α) = true := rfl
@[simp] theorem empty_some (l : List α) : empty (some l) = false := rfl
@[simp] theorem empty_push (c : ChainManager α) (b : α) : (push c b).empty = false := rfl

end ChainManager

structure Level where
  limits : ChainManager LimitBndl := none
  stops : ChainManager StopBndl := none
  aonBuys : ChainManager AonBndl := none
  aonSells : ChainManager AonBndl := none

/-- `level::aon_chain<Buys>`. -/
def Level.aonChain (l : Level) (buys : Bool) : ChainManager AonBndl :=
  if buys then l.aonBuys else l.aonSells

def Level.setAonChain (l : Level) (buys : Bool) (c : ChainManager AonBndl) : Level :=
  if buys then { l with aonBuys := c } else { l with aonSells := c }

/-- `chain_iter_wrap::itype`. -/
inductive IType where
  | limit | stop | aonBuy | aonSell
deriving DecidableEq, Repr

/-- `chain_iter_wrap`. Its iterator is the element of that chain of level `p` with the cached id. -/
structure ChainIterWrap where
  type : IType
  p : Nat
deriving DecidableEq, Repr

/-! ## The orderbook -/

structure Sob where
  base : Int
  book : Nat → Level
  end_ : Nat
  /-- `0` is null, and the pad as well, which only an order of an `offBook` event comes to. -/
  last : Nat := 0
  bid : Nat := 0
  ask : Nat
  lowBuyLimit : Nat
  highSellLimit : Nat := 0
  lowBuyStop : Nat
  highBuyStop : Nat := 0
  lowSellStop : Nat
  highSellStop : Nat := 0
  lowBuyAon : Nat
  highBuyAon : Nat := 0
  lowSellAon : Nat
  highSellAon : Nat := 0
  idCache : Nat → Option ChainIterWrap := fun _ => none
  trailingSellStops : List Nat := []
  trailingBuyStops : List Nat := []
  totalVolume : Nat := 0
  lastId : Nat := 0
  lastSize : Nat := 0
  timesales : List (Int × Nat) := []
  callbacksSync : List DfrdCbElem := []
  callbacksAsync : List DfrdCbElem := []
  internalOrderQueue : List OrderQueueElem := []
  needCheckForStops : Bool := false

/-- `_beg`. -/
def beg : Nat := 1

/-- The book of `SimpleOrderbookBase(incr, ..)` with lowest price `base`. -/
def Sob.init (base : Int) (incr : Nat) : Sob where
  base := base
  book := fun _ => {}
  end_ := incr + 1
  ask := incr + 1
  lowBuyLimit := incr + 1
  lowBuyStop := incr + 1
  lowSellStop := incr + 1
  lowBuyAon := incr + 1
  lowSellAon := incr + 1

/-! ## Pointers -/

/-- How far pointers are followed. The source computes the level of a price as `_beg + offset`,
compares the result with `_beg` and `_end`, and in `_ptoi` with nothing at all. -/
class Pointers where
  /-- The index an address has that would be `i` if addresses had no bound. -/
  wrap : Int → Int
  /-- An order may come to the pad in front of `_beg`. -/
  pad : Bool

/-- Addresses without a bound, and no order on the pad. -/
@[reducible] instance Pointers.exact : Pointers := ⟨fun i => i, false⟩

/-- Addresses of 64 bits: a `level` has 32 bytes, so indices are numbers modulo `2 ^ 59`. The pad is a
level like any other. -/
@[reducible] def Pointers.machine : Pointers := ⟨fun i => i % 2 ^ 59, true⟩

namespace Sob

/-! ## Accessors -/

def limits (s : Sob) (p : Nat) : ChainManager LimitBndl := (s.book p).limits
def stops (s : Sob) (p : Nat) : ChainManager StopBndl := (s.book p).stops
def aons (s : Sob) (buys : Bool) (p : Nat) : ChainManager AonBndl := (s.book p).aonChain buys

def setLevel (s : Sob) (p : Nat) (l : Level) : Sob :=
  { s with book := fun q => if q = p then l else s.book q }

def setLimits (s : Sob) (p : Nat) (c : ChainManager LimitBndl) : Sob :=
  s.setLevel p { s.book p with limits := c }

def setStops (s : Sob) (p : Nat) (c : ChainManager StopBndl) : Sob :=
  s.setLevel p { s.book p with stops := c }

def setAons (s : Sob) (buys : Bool) (p : Nat) (c : ChainManager AonBndl) : Sob :=
  s.setLevel p ((s.book p).setAonChain buys c)

def cacheInsert (s : Sob) (id : Nat) (w : ChainIterWrap) : Sob :=
  { s with idCache := fun i => if i = id then some w else s.idCache i }

def cacheErase (s : Sob) (id : Nat) : Sob :=
  { s with idCache := fun i => if i = id then none else s.idCache i }

/-- `unordered_map::emplace`: an id that is already cached keeps its entry. -/
def cacheEmplace (s : Sob) (id : Nat) (w : ChainIterWrap) : Sob :=
  match s.idCache id with
  | some _ => s
  | none => s.cacheInsert id w

/-! ## Prices and levels -/

/-- `_itop`; `plevel_offset` divides unsigned, which tells in front of `_beg` only. -/
def itop (s : Sob) (p : Nat) : Int :=
  s.base + if p < beg then 2 ^ 59 - 1 else (p : Int) - beg

/-- The index of a price, counted without bounds. -/
def levelOf (s : Sob) (price : Int) : Int := price - s.base + beg

/-- The index of `_beg + offset`. -/
def indexOf [Pointers] (s : Sob) (price : Int) : Int := Pointers.wrap (s.levelOf price)

/-- `_is_valid_price`. -/
def isValidPrice [Pointers] (s : Sob) (price : Int) : Bool :=
  (beg : Int) ≤ s.indexOf price ∧ s.indexOf price < s.end_

end Sob

/-! ## The ghost record of calls -/

/-- The calls and results a claim about runs can speak of, with the state they were made in. -/
inductive Event where
  /-- `_insert_order(e)`, `e` with its id. -/
  | insertOrder (e : OrderQueueElem)
  /-- `_push_internal_order(e)`. -/
  | pushInternalOrder (e : OrderQueueElem)
  /-- `_trade_has_occured(plev, size, idbuy, idsell, ..)`, at the price of level `plev`. -/
  | trade (price : Int) (plev size idbuy idsell : Nat)
  /-- Nothing is left of resting order `id`. -/
  | filled (id : Nat)
  /-- `_push_exec_callback(msg, cb, id1, id2, price, sz)`, whether or not there is a functor. -/
  | callback (msg : CallbackMsg) (cb : OrderExecCbBndl) (id1 id2 : Nat) (price : Int) (sz : Nat)
  /-- `_pull_order` took order `id` of size `sz` out of the book. -/
  | pulled (id sz : Nat)
  /-- `_look_for_triggered_stops` called in state `s`. -/
  | lookForTriggeredStops (s : Sob)
  /-- It turned to the sell stops in state `s`. -/
  | lookForSellStops (s : Sob)
  /-- `_handle_triggered_stop_chain` turned a stop at level `plev` into order `idNew`. -/
  | stopTriggered (e : StopBndl) (plev last idNew : Nat)
  /-- `copy_bndl_to_aon_chain<BuyLimit>` called in state `s`. -/
  | copyBndlToAonChain (s : Sob) (p : Nat) (b : LimitBndl) (buyLimit : Bool)
  /-- `_hit_chain` called on the limit chain of level `plev` with `size`, in state `s`. -/
  | hitChain (s : Sob) (plev size : Nat)
  /-- The loop of `_hit_chain` over that chain ended in state `s`, `pos` being the last order
  visited. -/
  | hitChainEnd (s : Sob) (plev pos : Nat)
  /-- `_hit_aon_chain` called on the chain of AON buy or sell orders of level `plev` with `size`, in
  state `s`. -/
  | hitAonChain (s : Sob) (buys : Bool) (plev size : Nat)
  /-- `chain<aon_chain_type>::pop` takes order `id` out of the chain of level `p`, in state `s`. -/
  | popAon (s : Sob) (buys : Bool) (p id : Nat)
  /-- `_pull_order` found a size of 0 in stop `id`, and leaves its id in the trailing stops. -/
  | pullEmptyStop (id : Nat)
  /-- `_trailing_stops_adjust(buy_stops, p)` called in state `s`. -/
  | trailingStopsAdjust (s : Sob) (buyStops : Bool) (p : Nat)
  /-- `_trailing_stop_insert(id, is_buy)` for a stop of distance `nticks`, at the price of `_last`. -/
  | trailingStopInsert (id : Nat) (isBuy : Bool) (nticks : Nat) (last : Int)
  /-- `_match_aon_orders_PRE_trade` prints a trade between a resting AON and the new order. -/
  | preTradePrint (s : Sob) (p : Nat)
  /-- `_ptoi(price)` called in state `s` for a price that is not on the book: it is read modulo
  `2 ^ 59`, or its level is the pad. -/
  | offBook (s : Sob) (price : Int)
  /-- `_limit_is_fillable<IsBuy>(p, sz, ..)` called in state `s`, when `rmndr` of the new order is to
  be added to the size found. -/
  | lookAhead (s : Sob) (isBuy : Bool) (p sz rmndr : Nat)
  /-- `_trade<BidSide>` called in state `s` for `size` of order `id`. -/
  | tradeCall (s : Sob) (bidSide : Bool) (plev id size : Nat)
  /-- The internal orders a window dropped when it ended in an exception. -/
  | dropped (queue : List OrderQueueElem)

structure World extends Sob where
  trace : List Event := []
  /-- What `pos->sz` reads when `pos` was stepped in front of `begin()`; it may differ from call
  to call, and nothing below assumes anything about it. -/
  sentinelSz : Nat → Nat

/-- The engine: a step on the world that returns a value or leaves by an exception, which keeps
the state reached so far. -/
abbrev M := EStateM Err World

def modifySob (f : Sob → Sob) : M Unit := modify fun w => { w with toSob := f w.toSob }

def getSob : M Sob := return (← get).toSob

/-- Record a call; the newest is at the head. -/
def record (ev : Event) : M Unit := modify fun w => { w with trace := ev :: w.trace }

end SimpleOrderbook
