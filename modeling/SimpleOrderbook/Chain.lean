import SimpleOrderbook.Exec

/-!
# Chains, cache and pulls

`detail::chain` of `specials.tpp` with the cache lookups, callbacks and `_pull_order` of `core.cpp`.

An iterator into a chain is the id of its element: `find`, `update` and `eraseId` act on the first
element with that id. `undefinedBehaviour` is raised where the source would follow an iterator of
an element that is not in the chain it is used on.
-/
namespace SimpleOrderbook

/-! ## Elements of a chain by id -/

namespace Chain

def findLimit (l : List LimitBndl) (id : Nat) : Option LimitBndl := l.find? (·.id = id)
def findStop (l : List StopBndl) (id : Nat) : Option StopBndl := l.find? (·.id = id)

def eraseLimit (l : List LimitBndl) (id : Nat) : List LimitBndl := l.eraseP (·.id = id)
def eraseStop (l : List StopBndl) (id : Nat) : List StopBndl := l.eraseP (·.id = id)

/-- Rewrite the first element with the given id. -/
def updateLimit (f : LimitBndl → LimitBndl) (id : Nat) : List LimitBndl → List LimitBndl
  | [] => []
  | b :: bs => if b.id = id then f b :: bs else b :: updateLimit f id bs

def updateStop (f : StopBndl → StopBndl) (id : Nat) : List StopBndl → List StopBndl
  | [] => []
  | b :: bs => if b.id = id then f b :: bs else b :: updateStop f id bs

end Chain

namespace Sob

/-- The element a cache entry points at, as its `_order_bndl` base. -/
def bndlAt (s : Sob) (w : ChainIterWrap) (id : Nat) : Option OrderBndl :=
  match w.type with
  | .limit => (Chain.findLimit (s.limits w.p).elems id).map (·.toOrderBndl)
  | .stop => (Chain.findStop (s.stops w.p).elems id).map (·.toOrderBndl)
  | .aonBuy => (Chain.findLimit (s.aons true w.p).elems id).map (·.toOrderBndl)
  | .aonSell => (Chain.findLimit (s.aons false w.p).elems id).map (·.toOrderBndl)

/-- Write through a cache entry. -/
def updateAt (s : Sob) (w : ChainIterWrap) (id : Nat) (f : OrderBndl → OrderBndl) : Sob :=
  let g : LimitBndl → LimitBndl := fun b => { b with toOrderBndl := f b.toOrderBndl }
  match w.type with
  | .limit => s.setLimits w.p ((s.limits w.p).map (Chain.updateLimit g id))
  | .stop => s.setStops w.p ((s.stops w.p).map
      (Chain.updateStop (fun b => { b with toOrderBndl := f b.toOrderBndl }) id))
  | .aonBuy => s.setAons true w.p ((s.aons true w.p).map (Chain.updateLimit g id))
  | .aonSell => s.setAons false w.p ((s.aons false w.p).map (Chain.updateLimit g id))

end Sob

/-! ## Lookups, ids and callbacks -/

/-- `_from_cache`. -/
def fromCache (id : Nat) : M ChainIterWrap := do
  match (← getSob).idCache id with
  | some w => return w
  | none => throw (.orderNotInCache id)

/-- `_id_cache.at`. -/
def idCacheAt (id : Nat) : M ChainIterWrap := do
  match (← getSob).idCache id with
  | some w => return w
  | none => throw .outOfRange

/-- Read the element behind a cache entry. -/
def deref (w : ChainIterWrap) (id : Nat) : M OrderBndl := do
  match (← getSob).bndlAt w id with
  | some b => return b
  | none => throw .undefinedBehaviour

/-- `_generate_id`. -/
def generateId : M Nat := do
  modifySob fun s => { s with lastId := s.lastId + 1 }
  return (← getSob).lastId

/-- `_push_exec_callback`. -/
def pushExecCallback (msg : CallbackMsg) (cb : OrderExecCbBndl) (id1 id2 : Nat)
    (price : Int) (sz : Nat) : M Unit := do
  record (.callback msg cb id1 id2 price sz)
  match cb.cbObj with
  | none => return ()
  | some f =>
    let elem : DfrdCbElem := ⟨msg, f, id1, id2, price, sz⟩
    match cb.cbType with
    | .synchronous => modifySob fun s => { s with callbacksSync := s.callbacksSync ++ [elem] }
    | .asynchronous => modifySob fun s => { s with callbacksAsync := s.callbacksAsync ++ [elem] }

/-- `_ptoi`. Nothing keeps it to the levels of the book: a bracket ticket leaves the price of an exit
at `0` when the type of that exit was changed, and on a book with `_base` 1 that is the pad. -/
def ptoi [Pointers] (price : Int) : M Nat := do
  let s ← getSob
  let p := s.indexOf price
  if (if Pointers.pad then beg - 1 else beg : Int) ≤ p ∧ p < s.end_ then
    (if (beg : Int) ≤ p ∧ p = s.levelOf price then pure () else record (.offBook s price))
    return p.toNat
  else throw .undefinedBehaviour

/-- `_trailing_stop_insert`; the source's sets iterate in the order of the ids. -/
def trailingStopInsert (id : Nat) (isBuy : Bool) : M Unit :=
  modifySob fun s =>
    if isBuy then { s with trailingBuyStops := insertId s.trailingBuyStops }
    else { s with trailingSellStops := insertId s.trailingSellStops }
where
  insertId (l : List Nat) : List Nat := if id ∈ l then l else l.orderedInsert (· ≤ ·) id

/-- `_trailing_stop_erase`. -/
def trailingStopErase (id : Nat) (isBuy : Bool) : M Unit :=
  modifySob fun s =>
    if isBuy then { s with trailingBuyStops := s.trailingBuyStops.filter (· ≠ id) }
    else { s with trailingSellStops := s.trailingSellStops.filter (· ≠ id) }

namespace Chain

/-! ## Limit chains -/

def limitPush (buyLimit : Bool) (s : Sob) (p : Nat) (b : LimitBndl) : Sob :=
  let s := (s.setLimits p ((s.limits p).push b)).cacheEmplace b.id ⟨.limit, p⟩
  Exec.Limit.adjustStateAfterInsert buyLimit s p

/-- `copy_bndl_to_aon_chain<BuyLimit>`, with the copy always pushed onto `aon_buys`. -/
def copyBndlToAonChainSide (buyLimit : Bool) (p : Nat) (b : LimitBndl) : M Unit := do
  record (.copyBndlToAonChain (← getSob) p b buyLimit)
  let w ← fromCache b.id
  modifySob fun s =>
    let s := s.setAons true p ((s.aons true p).push b)
    let s := s.cacheInsert b.id ⟨if buyLimit then .aonBuy else .aonSell, w.p⟩
    Exec.Aon.adjustStateAfterInsert buyLimit s p

/-- `copy_bndl_to_aon_chain`: `_is_buy_order` of a limit order is `p < _ask`. -/
def copyBndlToAonChain (p : Nat) (b : LimitBndl) : M Unit := do
  let s ← getSob
  copyBndlToAonChainSide (decide (p < s.ask)) p b

/-- The loop of `pop` that moves AONs now at the front to the AON chain, `n` elements at most. -/
def moveFrontAons (p : Nat) : (n : Nat) → M Unit
  | 0 => return ()
  | n + 1 => do
    match (← getSob).limits p with
    | none => return ()
    | some [] => throw .undefinedBehaviour
    | some (b :: _) =>
      if b.isAON then
        copyBndlToAonChain p b
        modifySob fun s => s.setLimits p (ChainManager.ofList (s.limits p).elems.tail)
        moveFrontAons p n
      else return ()

/-- `chain<limit_chain_type>::pop`. -/
def limitPop (id : Nat) : M LimitBndl := do
  let w ← fromCache id
  let l := ((← getSob).limits w.p).elems
  match findLimit l id with
  | none => throw .undefinedBehaviour
  | some b =>
    modifySob fun s =>
      (s.setLimits w.p (ChainManager.ofList (eraseLimit l id))).cacheErase id
    moveFrontAons w.p l.length
    let s ← getSob
    if (s.limits w.p).empty then
      modifySob fun s => Exec.Limit.adjustStateAfterPull (decide (w.p ≤ s.bid)) s w.p
      return b
    else return b

/-! ## AON chains -/

def aonPush (buyLimit : Bool) (s : Sob) (p : Nat) (b : AonBndl) : Sob :=
  let s := (s.setAons buyLimit p ((s.aons buyLimit p).push b)).cacheEmplace b.id
    ⟨if buyLimit then .aonBuy else .aonSell, p⟩
  Exec.Aon.adjustStateAfterInsert buyLimit s p

/-- `chain<aon_chain_type>::pop`. -/
def aonPop (id : Nat) : M AonBndl := do
  let w ← fromCache id
  if w.type = .limit then limitPop id
  else if w.type = .stop then throw .undefinedBehaviour
  else
    let isBuy : Bool := w.type = .aonBuy
    let l := ((← getSob).aons isBuy w.p).elems
    match findLimit l id with
    | none => throw .undefinedBehaviour
    | some b =>
      record (.popAon (← getSob) isBuy w.p id)
      modifySob fun s =>
        (s.setAons isBuy w.p (ChainManager.ofList (eraseLimit l id))).cacheErase id
      let s ← getSob
      if (s.aons isBuy w.p).empty then
        modifySob fun s => Exec.Aon.adjustStateAfterPull isBuy s w.p
        return b
      else return b

/-! ## Stop chains -/

def stopPush (s : Sob) (p : Nat) (b : StopBndl) : Sob :=
  let s := (s.setStops p ((s.stops p).push b)).cacheEmplace b.id ⟨.stop, p⟩
  Exec.Stop.adjustStateAfterInsert b.isBuy s p

/-- `chain<stop_chain_type>::pop`. -/
def stopPop (id : Nat) : M StopBndl := do
  let w ← fromCache id
  let l := ((← getSob).stops w.p).elems
  match findStop l id with
  | none => throw .undefinedBehaviour
  | some b =>
    modifySob fun s =>
      (s.setStops w.p (ChainManager.ofList (eraseStop l id))).cacheErase id
    let s ← getSob
    if (s.stops w.p).empty then
      modifySob fun s => Exec.Stop.adjustStateAfterPull b.isBuy s w.p
      return b
    else return b

end Chain

/-! ## Pulls -/

/-- `_pull_order<ChainTy>` after its `pop`: report the cancel, then pull what it is linked to. -/
def finishPull (pullLinked : OrderBndl → M Unit) (b : OrderBndl) : M Bool := do
  if b.sz = 0 then return false
  else
    record (.pulled b.id b.sz)
    pushExecCallback .cancel b.cb b.id b.id 0 0
    pullLinked b
    return true

/-- `_pull_order`, given what it does about a linked order. -/
def pullOrderWith (pullLinked : OrderBndl → M Unit) (id : Nat) : M Bool := do
  match (← getSob).idCache id with
  | none => return false
  | some w =>
    tryCatch
      (match w.type with
      | .limit => do
        let b ← Chain.limitPop id
        finishPull pullLinked b.toOrderBndl
      | .stop => do
        let b ← Chain.stopPop id
        if ← finishPull pullLinked b.toOrderBndl then
          trailingStopErase id b.isBuy
          return true
        else
          record (.pullEmptyStop id)
          return false
      | .aonBuy | .aonSell => do
        let b ← Chain.aonPop id
        finishPull (fun _ => return ()) b.toOrderBndl)
      fun
        | .orderNotInCache _ => return false
        | err => throw err

/-- `_pull_order(id, false)`. -/
def pullUnlinked (id : Nat) : M Bool := pullOrderWith (fun _ => return ()) id

/-- `_pull_linked_order`. -/
def pullLinkedOrder (b : OrderBndl) : M Unit := do
  if b.shouldPullLinked then
    match b.payload with
    | .linkedOrder link => discard (pullUnlinked link.id)
    | _ => throw .undefinedBehaviour
  else return ()

/-- `_pull_order(id, true)`. -/
def pullOrder (id : Nat) : M Bool := pullOrderWith pullLinkedOrder id

end SimpleOrderbook
