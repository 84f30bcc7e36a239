import SimpleOrderbook.Frame

/-!
# The engine as a transition system

Every function of the engine is a sequence of small changes of the world. They come in three layers:
what pulls and condition handlers do (`Act`), what a trade does (`Move`), and what the insertion of
an order does (`Step`). A configuration is the world with the `Flight` of the calls under way: what
they hold in their local variables and have not written to the book yet.
-/
namespace SimpleOrderbook

/-! ## What is under way -/

/-- The order whose conditions are run: what it traded, or all of it for a triggered stop, and
whether the other leg of its bracket was told. -/
structure Acting where
  bndl : OrderBndl
  amount : Nat
  told : Bool := false

/-- `_hit_chain` under way: the orders it visited, in their order, and the ones to come. The cache
has no entry any more for the `spent` ones of this chain. -/
structure Hit where
  plev : Nat
  done : List Nat
  todo : List Nat
  spent : List Nat

/-- The chain `_handle_triggered_stop_chain` took out of level `plev`, less the stops that became
orders; `turning` is the last of these until it leaves the cache. -/
structure Detached where
  buyStops : Bool
  plev : Nat
  todo : List StopBndl
  turning : Option Nat := none

/-- `_look_for_triggered_stops` under way: the state it was called in, and the state in which it
turned from the buy stops to the sell stops. -/
structure Scan where
  start : Sob
  turn : Option Sob := none

/-- An order that came into the book with the order under insertion: where it went and its size. -/
structure Leg where
  id : Nat
  type : IType
  p : Nat
  sz : Nat

structure Flight where
  /-- How many orders at the front of the internal queue are being inserted. -/
  front : Nat := 0
  /-- The ids handed out to orders that neither rest nor are queued. -/
  ids : List Nat := []
  /-- The orders that were taken out of the book or did not get there yet, with what is left of
  them; the one that trades is first. -/
  hands : List (Nat × Nat) := []
  /-- The level an order was popped from, when its pointers are not adjusted yet. -/
  gap : Option Nat := none
  hit : Option Hit := none
  acting : Option Acting := none
  scan : Option Scan := none
  detached : Option Detached := none
  /-- The order the window was opened for, if it inserts one. -/
  ext : Option OrderQueueElem := none
  /-- The order under insertion, with the orders it put into the book and does not link yet. -/
  cur : Option OrderQueueElem := none
  legs : List Leg := []
  /-- The stop and the target it opened as the exits of its entry order. -/
  exits : Option (Nat × Nat) := none
  /-- The stops that were pulled and whose ids are not erased from the trailing stops yet. -/
  leaving : List StopBndl := []
  /-- The trailing stops that are pushed before their ids are inserted there, with their side. -/
  arriving : List (Nat × Bool) := []

/-- The conditions that open exits when an order fills. -/
def OrderCondition.opensExits (c : OrderCondition) : Prop :=
  c = .bracket ∨ c = .trailingBracket ∨ c = .trailingStop

/-- The conditions of the stops that trail the market. -/
def OrderCondition.trails (c : OrderCondition) : Prop :=
  c = .trailingStopActive ∨ c = .trailingBracketActive

theorem OrderBndl.isActiveTrailing_iff {b : OrderBndl} :
    b.isActiveTrailing ↔ b.condition.trails := by
  simp [isActiveTrailing, isActiveTrailingStop, isActiveTrailingBracket, OrderCondition.trails]

theorem OrderCondition.opensExits.not_trails {c : OrderCondition} (h : c.opensExits) :
    ¬ c.trails := by
  rcases h with rfl | rfl | rfl <;> simp [trails]

namespace Flight

def give (F : Flight) (id : Nat) : Flight := { F with ids := id :: F.ids }

def hold (F : Flight) (id sz : Nat) : Flight := { F with hands := (id, sz) :: F.hands }

/-- The conditions of `b` are run, which traded `amount`. -/
def runs (F : Flight) (b : OrderBndl) (amount : Nat) (told : Bool) : Flight :=
  { F with acting := some ⟨b, amount, told⟩ }

/-- No call that walks a chain of the book is under way. -/
structure Calm (F : Flight) : Prop where
  gap : F.gap = none
  hit : F.hit = none
  acting : F.acting = none
  scan : F.scan = none
  detached : F.detached = none
  leaving : F.leaving = []
  arriving : F.arriving = []

/-- The sizes an order generated now may have: what the acting order traded or the order under
insertion filled, or the size of the order that waits for that. -/
def Sizes (F : Flight) (n : Nat) : Prop :=
  (∃ a, F.acting = some a ∧
    (n = a.amount ∨ ∃ op, a.bndl.payload = .contingentPriceOrder op ∧ n = op.size)) ∨
  ∃ e, F.cur = some e ∧ ((e.sz ≠ 0 → n ≠ 0) ∧ n ≤ e.sz ∨
    e.condition = .oneTriggersOther ∧ ∃ op, e.cparams1 = some op ∧ n = op.size)

/-- The acting order or the one under insertion has exits to open. -/
def OpensExits (F : Flight) : Prop :=
  (∃ a, F.acting = some a ∧ a.bndl.condition.opensExits) ∨
  ∃ e, F.cur = some e ∧ e.condition.opensExits

/-- The acting order or the one under insertion has another order to generate. -/
def Fires (F : Flight) : Prop :=
  (∃ a, F.acting = some a ∧ a.bndl.payload ≠ .null) ∨
  ∃ e, F.cur = some e ∧ (e.condition = .oneTriggersOther ∨ e.condition.opensExits)

/-- The orders the engine generates. -/
structure Generates (F : Flight) (e : OrderQueueElem) : Prop where
  size : F.Sizes e.sz
  condition : e.condition ≠ .oneCancelsOther ∧ e.condition ≠ .oneTriggersOther ∧
    e.condition ≠ .fillOrKill ∧ e.condition ≠ .allOrNone
  type : e.condition = .bracketActive ∨ e.condition = .trailingBracketActive → e.type = .limit
  opensExits : e.condition ≠ .none → F.OpensExits

/-- `e` is the order under insertion, or the second leg of one. -/
def Inserts (F : Flight) (e : OrderQueueElem) : Prop :=
  ∃ e', F.cur = some e' ∧ (e = e' ∨ e'.condition = .oneCancelsOther ∧ e.condition = e'.condition ∧
    ∃ op, e'.cparams1 = some op ∧ e.type = op.getOrderType ∧ e.isBuy = op.isBuy ∧
      e.limit = op.limitPrice ∧ e.stop = op.stopPrice ∧ e.sz = op.size)

theorem Inserts.cur_ne {F : Flight} {e : OrderQueueElem} (h : F.Inserts e) : F.cur ≠ none := by
  obtain ⟨e', he', -⟩ := h
  rw [he']
  exact Option.some_ne_none e'

/-- While a limit chain is hit, only an order linked to the one that trades is pulled. -/
def MayPull (F : Flight) (id : Nat) : Prop :=
  ∀ h, F.hit = some h → ∃ a link, F.acting = some a ∧ a.bndl.payload = .linkedOrder link ∧
    id = link.id

theorem MayPull.of_hit_none {F : Flight} (h : F.hit = none) (id : Nat) : F.MayPull id :=
  fun _ hh => by rw [h] at hh; cases hh

/-- The insertion of an order is over. -/
def idle (F : Flight) : Flight := { F with cur := none, legs := [], exits := none }

theorem acting_none {F : Flight} (h : F.acting = none) : { F with acting := none } = F := by
  rw [← h]

theorem hit_none {F : Flight} (h : F.hit = none) : { F with hit := none } = F := by rw [← h]

end Flight

abbrev Config := Flight × World

/-! ## The effects of the basic calls -/

def Sob.limitIds (s : Sob) (p : Nat) : List Nat := (s.limits p).elems.map (·.id)

/-- The ids of other orders a union refers to. -/
def Payload.refs : Payload → List Nat
  | .linkedOrder link => [link.id]
  | .contingentNticksOrder _ active => if active = 0 then [] else [active]
  | .bracketOrders _ _ active1 active2 => if active1 = 0 then [] else [active1, active2]
  | .null | .contingentPriceOrder _ | .nticks _ => []

/-- What `_push_exec_callback` adds to a callback queue. -/
def Sob.pushDfrdCb (s : Sob) (cb : OrderExecCbBndl) (elem : Nat → DfrdCbElem) : Sob :=
  match cb.cbObj, cb.cbType with
  | none, _ => s
  | some f, .synchronous => { s with callbacksSync := s.callbacksSync ++ [elem f] }
  | some f, .asynchronous => { s with callbacksAsync := s.callbacksAsync ++ [elem f] }

/-- `_push_exec_callback`. -/
def World.report (w : World) (msg : CallbackMsg) (cb : OrderExecCbBndl) (id1 id2 : Nat)
    (price : Int) (sz : Nat) : World :=
  (w.log (.callback msg cb id1 id2 price sz)).onSob fun s =>
    s.pushDfrdCb cb fun f => ⟨msg, f, id1, id2, price, sz⟩

/-- `_trade_has_occured`. -/
def World.traded (w : World) (plev size idbuy idsell : Nat) (cbbuy cbsell : OrderExecCbBndl) :
    World :=
  let p := w.itop plev
  (((w.report .fill cbbuy idbuy idbuy p size).report .fill cbsell idsell idsell p size).log
    (.trade p plev size idbuy idsell)).onSob fun s =>
      { s with timesales := s.timesales ++ [(p, size)], last := plev,
               totalVolume := asSize (s.totalVolume + size), lastSize := size, needCheckForStops := true }

/-- Stop `e` becomes `order`. -/
def World.turned (w : World) (msg : CallbackMsg) (e : StopBndl) (plev : Nat)
    (order : OrderQueueElem) : World :=
  (((w.log (.stopTriggered e plev w.last order.id)).report msg e.cb e.id order.id e.limit e.sz).log
    (.pushInternalOrder order)).onSob fun s =>
      { s with internalOrderQueue := s.internalOrderQueue ++ [order] }

namespace Sob
variable (s : Sob)

def erasedLimit (p id : Nat) : Sob :=
  (s.setLimits p (ChainManager.ofList (Chain.eraseLimit (s.limits p).elems id))).cacheErase id

/-- Order `id` leaves an AON chain, and the window follows if the chain is empty. -/
def erasedAon (isBuy : Bool) (p id : Nat) : Sob :=
  let s' := (s.setAons isBuy p
    (ChainManager.ofList (Chain.eraseLimit (s.aons isBuy p).elems id))).cacheErase id
  if (s'.aons isBuy p).empty then Exec.Aon.adjustStateAfterPull isBuy s' p else s'

/-- Stop `b` leaves its chain, and the window follows if the chain is empty. -/
def erasedStop (p : Nat) (b : StopBndl) : Sob :=
  let s' := (s.setStops p
    (ChainManager.ofList (Chain.eraseStop (s.stops p).elems b.id))).cacheErase b.id
  if (s'.stops p).empty then Exec.Stop.adjustStateAfterPull b.isBuy s' p else s'

/-- `copy_bndl_to_aon_chain<BuyLimit>` of an order with cache entry `c`. -/
def copiedToAons (buyLimit : Bool) (p : Nat) (b : LimitBndl) (c : ChainIterWrap) : Sob :=
  Exec.Aon.adjustStateAfterInsert buyLimit
    ((s.setAons true p ((s.aons true p).push b)).cacheInsert b.id
      ⟨if buyLimit then .aonBuy else .aonSell, c.p⟩) p

/-- `_trailing_buy_stops` or `_trailing_sell_stops`. -/
def trailingStops (isBuy : Bool) : List Nat :=
  if isBuy then s.trailingBuyStops else s.trailingSellStops

def trailingErased (id : Nat) (isBuy : Bool) : Sob :=
  if isBuy then { s with trailingBuyStops := s.trailingBuyStops.filter (· ≠ id) }
  else { s with trailingSellStops := s.trailingSellStops.filter (· ≠ id) }

def trailingInserted (id : Nat) (isBuy : Bool) : Sob :=
  if isBuy then { s with trailingBuyStops := trailingStopInsert.insertId id s.trailingBuyStops }
  else { s with trailingSellStops := trailingStopInsert.insertId id s.trailingSellStops }

/-- Order `id` gets a condition, a trigger and a union. -/
def armed (c : ChainIterWrap) (id : Nat) (condition : OrderCondition)
    (trigger : ConditionTrigger) (payload : Payload) : Sob :=
  s.updateAt c id fun b =>
    { b with condition := condition, trigger := trigger, payload := payload }

/-- The reduction of a resting order that traded `amount`. -/
def reduced (plev id amount : Nat) : Sob :=
  s.updateLimit plev id fun x => { x with sz := x.sz - amount }

end Sob

theorem Sob.erasedStop_eq (s : Sob) (p : Nat) (b : StopBndl) : ∃ book cache lb hb ls hs,
    s.erasedStop p b = { s with book := book, idCache := cache, lowBuyStop := lb, highBuyStop := hb,
                                lowSellStop := ls, highSellStop := hs } := by
  unfold Sob.erasedStop
  dsimp only
  split
  · obtain ⟨_, _, _, _, h⟩ := Exec.Stop.adjustStateAfterPull_eq b.isBuy ((s.setStops p
      (ChainManager.ofList (Chain.eraseStop (s.stops p).elems b.id))).cacheErase b.id) p
    rw [h]
    exact ⟨_, _, _, _, _, _, rfl⟩
  · exact ⟨_, _, _, _, _, _, rfl⟩

theorem Sob.pushDfrdCb_eq (s : Sob) (cb : OrderExecCbBndl) (elem : Nat → DfrdCbElem) :
    ∃ sync async, s.pushDfrdCb cb elem =
      { s with callbacksSync := sync, callbacksAsync := async } := by
  unfold Sob.pushDfrdCb
  split <;> exact ⟨_, _, rfl⟩

theorem World.report_eq (w : World) (msg : CallbackMsg) (cb : OrderExecCbBndl) (id1 id2 : Nat)
    (price : Int) (sz : Nat) : ∃ sync async, w.report msg cb id1 id2 price sz =
      { w with callbacksSync := sync, callbacksAsync := async,
               trace := .callback msg cb id1 id2 price sz :: w.trace } := by
  obtain ⟨sync, async, h⟩ := w.pushDfrdCb_eq cb fun f => ⟨msg, f, id1, id2, price, sz⟩
  exact ⟨sync, async, by simp only [report, onSob, log, h]⟩

theorem World.traded_eq (w : World) (plev size idbuy idsell : Nat)
    (cbbuy cbsell : OrderExecCbBndl) : ∃ sync async,
      w.traded plev size idbuy idsell cbbuy cbsell =
        { w with callbacksSync := sync, callbacksAsync := async, last := plev,
                 timesales := w.timesales ++ [(w.itop plev, size)],
                 totalVolume := asSize (w.totalVolume + size), lastSize := size, needCheckForStops := true,
                 trace := .trade (w.itop plev) plev size idbuy idsell ::
                   .callback .fill cbsell idsell idsell (w.itop plev) size ::
                   .callback .fill cbbuy idbuy idbuy (w.itop plev) size :: w.trace } := by
  obtain ⟨_, _, h⟩ := w.report_eq .fill cbbuy idbuy idbuy (w.itop plev) size
  obtain ⟨sync, async, h'⟩ := World.report_eq (w.report .fill cbbuy idbuy idbuy (w.itop plev) size)
    .fill cbsell idsell idsell (w.itop plev) size
  refine ⟨sync, async, ?_⟩
  unfold World.traded
  simp only [h', onSob, log]
  rw [h]

theorem World.turned_eq (w : World) (msg : CallbackMsg) (e : StopBndl) (plev : Nat)
    (order : OrderQueueElem) : ∃ sync async, w.turned msg e plev order =
      { w with callbacksSync := sync, callbacksAsync := async,
               internalOrderQueue := w.internalOrderQueue ++ [order],
               trace := .pushInternalOrder order :: .callback msg e.cb e.id order.id e.limit e.sz ::
                 .stopTriggered e plev w.last order.id :: w.trace } := by
  obtain ⟨sync, async, h⟩ := (w.log (.stopTriggered e plev w.last order.id)).report_eq msg e.cb e.id
    order.id e.limit e.sz
  refine ⟨sync, async, ?_⟩
  unfold World.turned
  rw [h]
  rfl

theorem trace_report (w : World) (msg : CallbackMsg) (cb : OrderExecCbBndl) (id1 id2 : Nat)
    (price : Int) (sz : Nat) :
    (w.report msg cb id1 id2 price sz).trace = .callback msg cb id1 id2 price sz :: w.trace := by
  obtain ⟨_, _, h⟩ := w.report_eq msg cb id1 id2 price sz
  rw [h]

theorem trace_traded (w : World) (plev size idbuy idsell : Nat) (cbbuy cbsell : OrderExecCbBndl) :
    (w.traded plev size idbuy idsell cbbuy cbsell).trace =
      .trade (w.itop plev) plev size idbuy idsell ::
        .callback .fill cbsell idsell idsell (w.itop plev) size ::
          .callback .fill cbbuy idbuy idbuy (w.itop plev) size :: w.trace := by
  obtain ⟨_, _, h⟩ := w.traded_eq plev size idbuy idsell cbbuy cbsell
  rw [h]

theorem trace_turned (w : World) (msg : CallbackMsg) (e : StopBndl) (plev : Nat)
    (order : OrderQueueElem) : (w.turned msg e plev order).trace =
      .pushInternalOrder order :: .callback msg e.cb e.id order.id e.limit e.sz ::
        .stopTriggered e plev w.last order.id :: w.trace := by
  obtain ⟨_, _, h⟩ := w.turned_eq msg e plev order
  rw [h]

theorem files_turned (w : World) (msg : CallbackMsg) (e : StopBndl) (plev : Nat)
    (order : OrderQueueElem) : (w.turned msg e plev order).files = w.files := by
  obtain ⟨_, _, h⟩ := w.turned_eq msg e plev order
  rw [h]; rfl

theorem files_report (w : World) (msg : CallbackMsg) (cb : OrderExecCbBndl) (id1 id2 : Nat)
    (price : Int) (sz : Nat) : (w.report msg cb id1 id2 price sz).files = w.files := by
  obtain ⟨_, _, h⟩ := w.report_eq msg cb id1 id2 price sz
  rw [h]; rfl

theorem files_traded (w : World) (plev size idbuy idsell : Nat) (cbbuy cbsell : OrderExecCbBndl) :
    (w.traded plev size idbuy idsell cbbuy cbsell).files = w.files := by
  obtain ⟨_, _, h⟩ := w.traded_eq plev size idbuy idsell cbbuy cbsell
  rw [h]; rfl

theorem files_trailingErased (s : Sob) (id : Nat) (isBuy : Bool) :
    (s.trailingErased id isBuy).files = s.files := by
  cases isBuy <;> rfl

theorem files_trailingInserted (s : Sob) (id : Nat) (isBuy : Bool) :
    (s.trailingInserted id isBuy).files = s.files := by
  cases isBuy <;> rfl

/-! ## Pulls and condition handlers -/

inductive Act : Config → Config → Prop where
  | report {F w} (msg : CallbackMsg) (cb : OrderExecCbBndl) (id1 id2 : Nat) (price : Int)
      (sz : Nat) : Act (F, w) (F, w.report msg cb id1 id2 price sz)
  | newId {F w} : Act (F, w) (F.give (w.lastId + 1), w.onSob fun s => { s with lastId := s.lastId + 1 })
  | enqueue {F w} (e : OrderQueueElem) (ids : List Nat) (hids : F.ids = e.id :: ids)
      (hgen : F.Generates e) (hfires : F.Fires) :
      Act (F, w) ({ F with ids := ids }, (w.log (.pushInternalOrder e)).onSob fun s =>
        { s with internalOrderQueue := s.internalOrderQueue ++ [e] })
  /-- A limit order leaves its chain. -/
  | popLimit {F w} (id : Nat) (c : ChainIterWrap) (b : LimitBndl) (hgap : F.gap = none)
      (hpull : F.MayPull id)
      (hc : w.idCache id = some c) (hty : c.type = .limit)
      (hb : Chain.findLimit (w.limits c.p).elems id = some b) :
      Act (F, w) ({ F.hold b.id b.sz with gap := some c.p }, w.onSob (·.erasedLimit c.p id))
  /-- An AON now at the front of that chain moves to an AON chain. -/
  | moveFront {F w} (p : Nat) (b : LimitBndl) (bs : List LimitBndl) (c : ChainIterWrap)
      (hgap : F.gap = some p) (hl : w.limits p = some (b :: bs)) (hb : b.isAON)
      (hc : w.idCache b.id = some c) :
      Act (F, w) (F, ((w.log (.copyBndlToAonChain w.toSob p b (decide (p < w.ask)))).onSob
        (·.copiedToAons (decide (p < w.ask)) p b c)).onSob
          (·.setLimits p (ChainManager.ofList bs)))
  /-- That AON is not in the cache, and the pop gives up. -/
  | missFront {F w} (p : Nat) (b : LimitBndl) (bs : List LimitBndl) (hgap : F.gap = some p)
      (hl : w.limits p = some (b :: bs)) (hb : b.isAON) (hc : w.idCache b.id = none) :
      Act (F, w) ({ F with gap := none },
        w.log (.copyBndlToAonChain w.toSob p b (decide (p < w.ask))))
  | settle {F w} (p : Nat) (hgap : F.gap = some p) (hl : w.limits p = none) :
      Act (F, w) ({ F with gap := none },
        w.onSob fun s => Exec.Limit.adjustStateAfterPull (decide (p ≤ s.bid)) s p)
  | close {F w} (p : Nat) (hgap : F.gap = some p) (hl : w.limits p ≠ none)
      (hfront : ∀ b bs, w.limits p = some (b :: bs) → b.isAON = false) :
      Act (F, w) ({ F with gap := none }, w)
  | popAon {F w} (id : Nat) (c : ChainIterWrap) (isBuy : Bool) (b : AonBndl)
      (hc : w.idCache id = some c) (hty : c.type = if isBuy then .aonBuy else .aonSell)
      (hb : Chain.findLimit (w.aons isBuy c.p).elems id = some b) :
      Act (F, w) (F.hold b.id b.sz,
        (w.log (.popAon w.toSob isBuy c.p id)).onSob (·.erasedAon isBuy c.p id))
  | popStop {F w} (id : Nat) (c : ChainIterWrap) (b : StopBndl)
      (hc : w.idCache id = some c)
      (hb : Chain.findStop (w.stops c.p).elems id = some b) :
      Act (F, w) ({ F.hold b.id b.sz with leaving := b :: F.leaving },
        w.onSob (·.erasedStop c.p b))
  /-- The order in hand was pulled. -/
  | pulled {F w} (id sz : Nat) (hands : List (Nat × Nat)) (hh : F.hands = (id, sz) :: hands)
      (hsz : sz ≠ 0) : Act (F, w) ({ F with hands := hands }, w.log (.pulled id sz))
  /-- Nothing is left of the order in hand. -/
  | drop {F w} (id : Nat) (hands : List (Nat × Nat)) (hh : F.hands = (id, 0) :: hands) :
      Act (F, w) ({ F with hands := hands }, w)
  /-- A pull gave up half way, on an AON at the front of a chain that is not in the cache. -/
  | lose {F w} (id sz p : Nat) (hands : List (Nat × Nat)) (b : LimitBndl) (bs : List LimitBndl)
      (hh : F.hands = (id, sz) :: hands) (hl : w.limits p = some (b :: bs)) (hb : b.isAON)
      (hc : w.idCache b.id = none) (hpull : F.MayPull id) :
      Act (F, w) ({ F with hands := hands }, w)
  | trailingErase {F w} (b : StopBndl) (leaving : List StopBndl) (hleft : F.leaving = b :: leaving) :
      Act (F, w) ({ F with leaving := leaving }, w.onSob (·.trailingErased b.id b.isBuy))
  /-- Nothing is left of a stop that was pulled, and its id is not erased. -/
  | pullEmptyStop {F w} (b : StopBndl) (leaving : List StopBndl) (hleft : F.leaving = b :: leaving)
      (hsz : b.sz = 0) : Act (F, w) ({ F with leaving := leaving }, w.log (.pullEmptyStop b.id))
  | look {F w} (isBuy : Bool) (p sz rmndr : Nat) :
      Act (F, w) (F, w.log (.lookAhead w.toSob isBuy p sz rmndr))
  /-- The exit of a trailing stop grows with the fill of its entry. -/
  | grow {F w} (params : OrderParamaters) (id : Nat) (c : ChainIterWrap) (a : Acting)
      (hgap : F.gap = none) (ha : F.acting = some a)
      (hpay : a.bndl.payload = .contingentNticksOrder params id) (hid : id ≠ 0)
      (hc : w.idCache id = some c) :
      Act (F, w) (F, w.onSob (·.updateAt c id (incrSize a.amount)))
  /-- The exits of a bracket grow with the fill of their entry. -/
  | growBoth {F w} (first second : OrderParamaters) (id1 id2 : Nat) (c1 c2 : ChainIterWrap)
      (a : Acting) (msg : CallbackMsg) (cb : OrderExecCbBndl) (id : Nat) (price : Int) (sz : Nat)
      (hgap : F.gap = none) (ha : F.acting = some a)
      (hpay : a.bndl.payload = .bracketOrders first second id1 id2) (hid : id1 ≠ 0)
      (hc1 : w.idCache id1 = some c1) (hc2 : w.idCache id2 = some c2) :
      Act (F, w) (F, ((w.onSob (·.updateAt c1 id1 (incrSize a.amount))).report msg cb id id price
        sz).onSob (·.updateAt c2 id2 (incrSize a.amount)))
  /-- The other leg of a bracket shrinks with the fill of this one. -/
  | tell {F w} (link : OrderLink) (c : ChainIterWrap) (a : Acting) (hgap : F.gap = none)
      (ha : F.acting = some a)
      (hl : a.bndl.payload = .linkedOrder link)
      (hcond : a.bndl.isActiveBracket ∨ a.bndl.isActiveTrailingBracket) (htold : a.told = false)
      (hamount : a.amount ≠ a.bndl.sz) (hc : w.idCache link.id = some c) :
      Act (F, w) ({ F with acting := some { a with told := true } },
        w.onSob (·.updateAt c link.id (decrSize a.amount)))

abbrev Acts : Config → Config → Prop := Relation.ReflTransGen Act

theorem Acts.act {c c' c'' : Config} (h : Acts c c') (h' : Act c' c'') : Acts c c'' := h.tail h'

/-! ## Trades -/

/-- The bundle a condition handler leaves of `b`. -/
inductive OrderBndl.Settled (b : OrderBndl) : OrderBndl → Prop where
  | same : b.Settled b
  | disarmed (h : b.isAON = false) :
      b.Settled { b with payload := .null, condition := .none, trigger := .none }
  | spent : b.Settled { b with payload := .null }
  | bracket {first second first' second' : OrderParamaters} {active1 active2 : Nat}
      (h : b.payload = .bracketOrders first second active1 active2) :
      b.Settled { b with payload := .bracketOrders first' second' active1 active2 }
  | nticks {params params' : OrderParamaters} {active : Nat}
      (h : b.payload = .contingentNticksOrder params active) :
      b.Settled { b with payload := .contingentNticksOrder params' active }

/-- The events that only record a call in state `s`. -/
def Event.CallIn (s : Sob) : Event → Prop
  | .tradeCall s' .. | .trailingStopsAdjust s' .. | .copyBndlToAonChain s' .. | .hitChainEnd s' ..
  | .hitAonChain s' .. => s' = s
  | _ => False

/-- `_trailing_stop_adjust` from the pop to the push, at the new level `pAdj`. -/
def World.movedStop (w : World) (p : Nat) (b : StopBndl) (pAdj : Nat) : World :=
  ((w.onSob (·.erasedStop p b)).report
    (if b.isActiveTrailingStop then .triggerTrailingStopAdjLoss else .triggerBracketAdjLoss)
    b.cb b.id b.id (w.itop pAdj) b.sz).onSob fun s => Chain.stopPush s pAdj b

/-- `p` is a level of the book, where an order can rest. -/
def Sob.HasLevel (s : Sob) (p : Nat) : Prop := beg ≤ p ∧ p < s.end_

/-- `nticks` away from level `start` on the side of a stop, where the book has such a level. -/
def Sob.StopOffset (s : Sob) (buy : Bool) (nticks start p : Nat) : Prop :=
  if buy then p = start + nticks ∧ nticks ≤ s.end_ - 1 - start
  else p = start - nticks ∧ nticks ≤ start - beg

/-- The total size of the orders in the AON chain of a level. -/
def Sob.aonTotal (s : Sob) (buys : Bool) (p : Nat) : Nat := ((s.aons buys p).elems.map (·.sz)).sum

/-- The pointers of the AON windows. -/
def Sob.aonPointers (s : Sob) : Nat × Nat × Nat × Nat :=
  (s.lowBuyAon, s.highBuyAon, s.lowSellAon, s.highSellAon)

/-- The AON chain of level `p` was hit with enough to fill it, and that is all that happened to the
AON chains of its side since. -/
def World.HitAons (w : World) (buys : Bool) (p : Nat) : Prop :=
  ∃ s size, .hitAonChain s buys p size ∈ w.trace ∧ s.aonTotal buys p ≤ size ∧
    s.aonPointers = w.aonPointers ∧ ∀ q, q ≠ p → w.aons buys q = s.aons buys q

/-- Level `p` is one a scan that is at level `plev` has passed. -/
def Scan.Passed (sc : Scan) (buyStops : Bool) (plev p : Nat) : Prop :=
  if buyStops then sc.start.lowBuyStop ≤ p ∧ p < plev
  else ∃ s, sc.turn = some s ∧ plev < p ∧ p ≤ s.highSellStop

inductive Move : Config → Config → Prop where
  | act {c c'} (h : Act c c') : Move c c'
  | call {F w} (ev : Event) (h : ev.CallIn w.toSob)
      (hcalm : ∀ s buyStops p, ev = .trailingStopsAdjust s buyStops p → F.Calm) :
      Move (F, w) (F, w.log ev)
  /-- An order of an AON chain trades in full, others stay. -/
  | fillAon {F w} (bidSide : Bool) (plev id size : Nat) (cb : OrderExecCbBndl) (b : AonBndl)
      (kept bs : List AonBndl) (hands : List (Nat × Nat)) (hh : F.hands = (id, size) :: hands)
      (hl : w.aons bidSide plev = some (kept ++ b :: bs)) (hne : kept ++ bs ≠ [])
      (hsize : size ≠ 0) (hsz : b.sz ≤ size) (hscan : F.scan = none) :
      Move (F, w) ({ F with hands := (id, size - b.sz) :: hands },
        ((w.traded plev b.sz id b.id cb b.cb).log (.filled b.id)).onSob fun s =>
          (s.cacheErase b.id).setAons bidSide plev (some (kept ++ bs)))
  /-- The last order of an AON chain trades in full. -/
  | fillLastAon {F w} (bidSide : Bool) (plev id size : Nat) (cb : OrderExecCbBndl) (b : AonBndl)
      (hands : List (Nat × Nat)) (hh : F.hands = (id, size) :: hands)
      (hl : w.aons bidSide plev = some [b])
      (hsize : size ≠ 0) (hsz : b.sz ≤ size) (hscan : F.scan = none)
      (hfrom : w.HitAons bidSide plev) :
      Move (F, w) ({ F with hands := (id, size - b.sz) :: hands },
        ((w.traded plev b.sz id b.id cb b.cb).log (.filled b.id)).onSob fun s =>
          Exec.Aon.adjustStateAfterPull bidSide
            ((s.cacheErase b.id).setAons bidSide plev none) plev)
  /-- An AON chain without orders is freed. -/
  | freeAon {F w} (bidSide : Bool) (plev : Nat) (hl : w.aons bidSide plev = some []) :
      Move (F, w) (F, w.onSob fun s =>
        Exec.Aon.adjustStateAfterPull bidSide (s.setAons bidSide plev none) plev)
  | beginHit {F w} (plev id size : Nat) (hands : List (Nat × Nat))
      (hh : F.hands = (id, size) :: hands) (hgap : F.gap = none) (hhit : F.hit = none)
      (hact : F.acting = none) (hl : w.limits plev ≠ none) :
      Move (F, w) ({ F with hit := some ⟨plev, [], (w.limits plev).elems.map (·.id), []⟩ },
        w.log (.hitChain w.toSob plev size))
  /-- The next order left the chain in the meantime. -/
  | skip {F w} (h : Hit) (i : Nat) (todo : List Nat) (hhit : F.hit = some h)
      (htodo : h.todo = i :: todo) (hl : Chain.findLimit (w.limits h.plev).elems i = none) :
      Move (F, w) ({ F with hit := some { h with todo := todo } }, w)
  /-- An AON of the limit chain is too large and moves to an AON chain. -/
  | moveHit {F w} (h : Hit) (id size : Nat) (b : LimitBndl) (c : ChainIterWrap) (todo : List Nat)
      (hands : List (Nat × Nat)) (hgap : F.gap = none) (hact : F.acting = none)
      (hh : F.hands = (id, size) :: hands) (hhit : F.hit = some h)
      (htodo : h.todo = b.id :: todo)
      (hl : Chain.findLimit (w.limits h.plev).elems b.id = some b) (hsize : size ≠ 0)
      (hb : b.isAON) (hsz : size < b.sz) (hnew : b.id ∉ h.spent) (hc : w.idCache b.id = some c) :
      Move (F, w) ({ F with hit := some { h with
          done := h.done ++ [b.id], todo := todo, spent := b.id :: h.spent } },
        ((w.log (.copyBndlToAonChain w.toSob h.plev b (decide (h.plev < w.ask)))).onSob
          (·.copiedToAons (decide (h.plev < w.ask)) h.plev b c)).onSob
            (·.updateLimit h.plev b.id fun x => { x with sz := 0 }))
  /-- The next order of the limit chain trades; its conditions are run next. -/
  | fill {F w} (h : Hit) (id size : Nat) (cb : OrderExecCbBndl) (b : LimitBndl) (todo : List Nat)
      (hands : List (Nat × Nat)) (hh : F.hands = (id, size) :: hands) (hhit : F.hit = some h)
      (htodo : h.todo = b.id :: todo)
      (hl : Chain.findLimit (w.limits h.plev).elems b.id = some b) (hsize : size ≠ 0)
      (hb : ¬ (b.isAON ∧ size < b.sz)) (hact : F.acting = none) (hscan : F.scan = none) :
      Move (F, w) ({ F with
        hit := some { h with done := h.done ++ [b.id], todo := todo }
        hands := (id, size - min size b.sz) :: hands
        acting := some { bndl := b.toOrderBndl, amount := min size b.sz } },
        w.traded h.plev (min size b.sz) id b.id cb b.cb)
  /-- The handlers leave the order with another condition, trigger and union. -/
  | rearm {F w} (h : Hit) (a : Acting) (b' : OrderBndl) (hgap : F.gap = none)
      (hhit : F.hit = some h)
      (ha : F.acting = some a) (hb : a.bndl.Settled b') :
      Move (F, w) (F, w.onSob (·.updateLimit h.plev a.bndl.id fun x =>
        { x with condition := b'.condition, trigger := b'.trigger, payload := b'.payload }))
  | reduce {F w} (h : Hit) (a : Acting) (x : LimitBndl) (hgap : F.gap = none)
      (hhit : F.hit = some h)
      (ha : F.acting = some a)
      (hx : Chain.findLimit ((w.reduced h.plev a.bndl.id a.amount).limits h.plev).elems
        a.bndl.id = some x) (hsz : x.sz ≠ 0) (hAON : a.bndl.isAON = false) :
      Move (F, w) ({ F with acting := none }, w.onSob (·.reduced h.plev a.bndl.id a.amount))
  /-- Nothing is left of the order; it stays in the chain until the end of the hit. -/
  | retire {F w} (h : Hit) (a : Acting) (x : LimitBndl) (hgap : F.gap = none)
      (hhit : F.hit = some h)
      (ha : F.acting = some a)
      (hx : Chain.findLimit ((w.reduced h.plev a.bndl.id a.amount).limits h.plev).elems
        a.bndl.id = some x) (hsz : x.sz = 0) (hnew : a.bndl.id ∉ h.spent) :
      Move (F, w) ({ F with acting := none, hit := some { h with spent := a.bndl.id :: h.spent } },
        ((w.onSob (·.reduced h.plev a.bndl.id a.amount)).log (.filled a.bndl.id)).onSob
          (·.cacheErase a.bndl.id))
  /-- The orders in front of the last one visited go, and that one if nothing is left of it. -/
  | eraseHit {F w} (h : Hit) (pos : Nat) (l : List LimitBndl) (hgap : F.gap = none)
      (hact : F.acting = none) (hhit : F.hit = some h)
      (hpos : h.done.getLast? = some pos) (hl : w.limits h.plev = some l)
      (hspent : eraseVisited pos l = l.filter (·.id ∉ h.spent)) (hne : eraseVisited pos l ≠ [])
      (hend : ∃ trace, w.trace = .hitChainEnd w.toSob h.plev pos :: trace) :
      Move (F, w) ({ F with hit := none },
        w.onSob (·.setLimits h.plev (some (eraseVisited pos l))))
  /-- None are left. -/
  | freeHit {F w} (bidSide : Bool) (h : Hit) (pos : Nat) (l : List LimitBndl)
      (hgap : F.gap = none) (hact : F.acting = none) (hhit : F.hit = some h)
      (hpos : h.done.getLast? = some pos) (hl : w.limits h.plev = some l)
      (hspent : ∀ b ∈ l, b.id ∈ h.spent) (hne : eraseVisited pos l = [])
      (hside : if bidSide then h.plev ≤ w.bid else w.ask ≤ h.plev) :
      Move (F, w) ({ F with hit := none },
        w.onSob fun s => Exec.Core.findNewBestInside bidSide (s.setLimits h.plev none))
  /-- A hit with nothing to trade finds a zero in front of the chain. -/
  | missHit {F w} (h : Hit) (s : Sob) (trace : List Event) (hhit : F.hit = some h)
      (hdone : h.done = []) (hspent : h.spent = [])
      (htrace : w.trace = .hitChain s h.plev 0 :: trace) :
      Move (F, w) ({ F with hit := none }, w)
  /-- A hit with nothing to trade finds something else there, and the chain is lost. -/
  | wipeHit {F w} (bidSide : Bool) (h : Hit) (s : Sob) (trace : List Event)
      (hgap : F.gap = none) (hhit : F.hit = some h) (hdone : h.done = [])
      (htrace : w.trace = .hitChain s h.plev 0 :: trace)
      (hside : if bidSide then h.plev ≤ w.bid else w.ask ≤ h.plev) :
      Move (F, w) ({ F with hit := none },
        w.onSob fun s => Exec.Core.findNewBestInside bidSide (s.setLimits h.plev none))
  | moveStop {F w} (buyStops : Bool) (p id : Nat) (c : ChainIterWrap) (b : StopBndl)
      (nticks pAdj : Nat) (hc : w.idCache id = some c)
      (hb : Chain.findStop (w.stops c.p).elems id = some b)
      (hn : ∀ w, trailingNticks b w = .ok nticks w) (hp : w.StopOffset buyStops nticks p pAdj)
      (hscan : F.scan = none) (hlevel : w.HasLevel pAdj) :
      Move (F, w) (F, w.movedStop c.p b pAdj)
  | beginScan {F w} (hscan : F.scan = none) (hneed : w.needCheckForStops = true) :
      Move (F, w) ({ F with scan := some { start := w.toSob } },
        w.log (.lookForTriggeredStops w.toSob))
  | turnScan {F w} (sc : Scan) (hscan : F.scan = some sc) (hturn : sc.turn = none) :
      Move (F, w) ({ F with scan := some { sc with turn := some w.toSob } },
        w.log (.lookForSellStops w.toSob))
  | endScan {F w} (hdet : F.detached = none) : Move (F, w) ({ F with scan := none },
      w.onSob fun s => { s with needCheckForStops := false })
  | detach {F w} (buyStops : Bool) (plev : Nat) (sc : Scan) (hscan : F.scan = some sc)
      (hdet : F.detached = none)
      (hbuy : buyStops = true → sc.start.lowBuyStop ≤ plev ∧ plev ≤ sc.start.last)
      (hsell : buyStops = false → ∃ s, sc.turn = some s ∧ s.last ≤ plev ∧ plev ≤ s.highSellStop)
      (hdone : ∀ p, sc.Passed buyStops plev p → w.stops p = none) (hact : F.acting = none) :
      Move (F, w) ({ F with detached := some ⟨buyStops, plev, (w.stops plev).elems, none⟩ },
        w.onSob fun s => Exec.Stop.adjustStateAfterTrigger buyStops (s.setStops plev none) plev)
  /-- The next stop of the chain is erased from the trailing stops of the scan's side. -/
  | eraseTriggered {F w} (d : Detached) (e : StopBndl) (todo : List StopBndl)
      (hdet : F.detached = some d) (htodo : d.todo = e :: todo) :
      Move (F, w) (F, w.onSob (·.trailingErased e.id d.buyStops))
  | beginTrigger {F w} (d : Detached) (e : StopBndl) (todo : List StopBndl)
      (hdet : F.detached = some d) (htodo : d.todo = e :: todo) (hact : F.acting = none)
      (hhit : F.hit = none) (herased : e.id ∉ w.trailingStops d.buyStops) :
      Move (F, w) ({ F with acting := some { bndl := e.toOrderBndl, amount := e.sz } }, w)
  /-- The next stop of the chain becomes `order`. -/
  | turn {F w} (d : Detached) (e : StopBndl) (todo : List StopBndl) (order : OrderQueueElem)
      (ids : List Nat) (msg : CallbackMsg) (hdet : F.detached = some d) (htodo : d.todo = e :: todo)
      (hturn : d.turning = none) (hids : F.ids = order.id :: ids) (hsz : order.sz = e.sz)
      (hgen : F.Generates order) (hact : F.acting ≠ none) (hid : order.id ≠ 0) :
      Move (F, w) ({ F with
        ids := ids, detached := some { d with todo := todo, turning := some e.id } },
        w.turned msg e d.plev order)
  | endTrigger {F w} (d : Detached) (id : Nat) (hdet : F.detached = some d)
      (hturn : d.turning = some id) (hhit : F.hit = none) :
      Move (F, w) ({ F with detached := some { d with turning := none }, acting := none },
        w.onSob (·.cacheErase id))
  | endDetached {F w} (d : Detached) (hdet : F.detached = some d) (htodo : d.todo = [])
      (hturn : d.turning = none) :
      Move (F, w) ({ F with detached := none }, w)

abbrev Moves : Config → Config → Prop := Relation.ReflTransGen Move

theorem Moves.move {c c' c'' : Config} (h : Moves c c') (h' : Move c' c'') : Moves c c'' :=
  h.tail h'

theorem Moves.congr {c : Config} {F F' : Flight} {w : World} (h : Moves c (F, w)) (hF : F = F') :
    Moves c (F', w) :=
  hF ▸ h

theorem Moves.acts {c c' c'' : Config} (h : Moves c c') (h' : Acts c' c'') : Moves c c'' :=
  h.trans (Relation.ReflTransGen.mono (fun _ _ => Move.act) _ _ h')

/-! ## Insertions -/

/-- Bundle `b` is what rests of order `e`. -/
structure OrderQueueElem.Rests (e : OrderQueueElem) (b : OrderBndl) : Prop where
  id : b.id = e.id
  condition : b.condition = .none ∨ b.condition = e.condition
  le : b.sz ≤ e.sz

inductive Step : Config → Config → Prop where
  | act {c c'} (h : Act c c') : Step c c'
  /-- `_trade` of the order in hand, which leaves `r` of it. -/
  | trade {F : Flight} {w w' : World} (bidSide : Bool) (plev id size r : Nat) (cb : OrderExecCbBndl) (hF : F.Calm)
      (hp : 0 < plev) (hpe : plev < w.end_)
      (hrun : SimpleOrderbook.trade bidSide plev id size cb w = .ok r w')
      (hm : Moves (F.hold id size, w) (F.hold id r, w')) (hcur : F.cur ≠ none) :
      Step (F.hold id size, w) (F.hold id r, w')
  /-- The front order of the internal queue is up next. -/
  | beginOrder {F w} (ie : OrderQueueElem) (queue : List OrderQueueElem) (hfront : F.front = 0)
      (hq : w.internalOrderQueue = ie :: queue) (hcur : F.cur = none) :
      Step (F, w) ({ F with front := 1, ids := if ie.id = 0 then F.ids else ie.id :: F.ids }, w)
  /-- Its id went where the order went. -/
  | endOrder {F w} (hfront : F.front = 1) (hids : F.ids = []) :
      Step (F, w) ({ F with front := 0 },
        w.onSob fun s => { s with internalOrderQueue := s.internalOrderQueue.tail })
  /-- `_insert_order(e)`, `e` being the external order or the one at the front of the queue. -/
  | accept {F w} (e : OrderQueueElem) (ids : List Nat) (hids : F.ids = e.id :: ids)
      (hhands : F.hands = []) (hcur : F.cur = none)
      (hext : F.front = 0 → ∃ e', F.ext = some e' ∧ e = { e' with id := e.id })
      (hint : F.front ≠ 0 → ∃ e' queue, w.internalOrderQueue = e' :: queue ∧
        e = { e' with id := e.id })
      (hid : F.front ≠ 0 → ∀ e' ∈ w.internalOrderQueue.head?, e'.id ≠ 0 → e'.id = e.id) :
      Step (F, w) ({ F with hands := [(e.id, e.sz)], cur := some e, legs := [], exits := none },
        w.log (.insertOrder e))
  /-- The second leg of an OCO order. -/
  | addLeg {F w} (e : OrderQueueElem) (op : OrderParamaters) (id : Nat) (ids : List Nat)
      (hids : F.ids = id :: ids) (hhands : F.hands = []) (he : F.cur = some e)
      (hcond : e.condition = .oneCancelsOther) (hop : e.cparams1 = some op) :
      Step (F, w) ({ F with hands := [(id, op.size)] }, w)
  | finish {F w} (hhands : F.hands = []) (hids : ∀ e, F.cur = some e → e.id ∉ F.ids) :
      Step (F, w) (F.idle, w)
  /-- An order of which nothing will rest. -/
  | forget {F w} (id : Nat) (ids : List Nat) (hids : F.ids = id :: ids) (hcur : F.cur ≠ none) :
      Step (F, w) ({ F with ids := ids }, w)
  | kill {F w} (e : OrderQueueElem) (cb : OrderExecCbBndl) (id sz : Nat) (price : Int)
      (hands : List (Nat × Nat)) (he : F.cur = some e) (hcond : e.condition = .fillOrKill)
      (hh : F.hands = (id, sz) :: hands) :
      Step (F, w) ({ F with hands := hands }, w.report .kill cb id id price sz)
  /-- A resting AON trades with the new order, at the new order's level. -/
  | print {F w} (p id1 id2 sz1 sz2 n : Nat) (cb1 cb2 : OrderExecCbBndl) (hands : List (Nat × Nat))
      (hh : F.hands = (id1, sz1) :: (id2, sz2) :: hands) (hn : 0 < n) (h1 : n ≤ sz1)
      (h2 : n ≤ sz2) (hlevel : w.HasLevel p) :
      Step (F, w) ({ F with hands := (id1, sz1 - n) :: (id2, sz2 - n) :: hands },
        (w.log (.preTradePrint w.toSob p)).traded p n id1 id2 cb1 cb2)
  | pushLimit {F w} (buy : Bool) (p : Nat) (b : LimitBndl) (hands : List (Nat × Nat))
      (ids : List Nat) (hgap : F.gap = none) (hh : F.hands = (b.id, b.sz) :: hands)
      (hids : F.ids = b.id :: ids) (hsz : b.sz ≠ 0) (hp : beg ≤ p) (hpe : p < w.end_)
      (hs : if buy then p < w.ask else w.bid < p) (hside : b.side = buy)
      (hpay : b.payload = .null) (hAON : b.isAON → w.limits p ≠ none) (e : OrderQueueElem)
      (hins : F.Inserts e) (hb : e.Rests b.toOrderBndl) (hbuy : buy = e.isBuy)
      (hlevel : (p : Int) = w.levelOf e.limit) :
      Step (F, w) ({ F with
        hands := hands, ids := ids, legs := ⟨b.id, .limit, p, b.sz⟩ :: F.legs },
        w.onSob fun s => Chain.limitPush buy s p b)
  | pushAon {F w} (buy : Bool) (p : Nat) (b : AonBndl) (hands : List (Nat × Nat))
      (ids : List Nat) (hh : F.hands = (b.id, b.sz) :: hands) (hids : F.ids = b.id :: ids)
      (hsz : b.sz ≠ 0) (hp : beg ≤ p) (hpe : p < w.end_) (hside : b.side = buy)
      (hpay : b.payload = .null) (hAON : b.isAON) (e : OrderQueueElem)
      (hins : F.Inserts e) (hb : e.Rests b.toOrderBndl) (hbuy : buy = e.isBuy)
      (hlevel : (p : Int) = w.levelOf e.limit) :
      Step (F, w) ({ F with
        hands := hands, ids := ids
        legs := ⟨b.id, if buy then .aonBuy else .aonSell, p, b.sz⟩ :: F.legs },
        w.onSob fun s => Chain.aonPush buy s p b)
  | pushStop {F w} (p : Nat) (b : StopBndl) (hands : List (Nat × Nat)) (ids : List Nat)
      (hh : F.hands = (b.id, b.sz) :: hands) (hids : F.ids = b.id :: ids)
      (hpay : b.payload = .null ∨ ∃ n, b.payload = .nticks n ∧
        (∃ e, F.cur = some e ∧ e.condition = .trailingStopActive) ∧
        ∃ isBuy, w.StopOffset isBuy n w.last p) (e : OrderQueueElem) (hins : F.Inserts e)
      (hb : e.Rests b.toOrderBndl) (hsz : b.sz = e.sz) (hbuy : b.isBuy = e.isBuy)
      (hlevel : w.HasLevel p) (htype : e.condition = .trailingBracketActive → e.type ≠ .limit)
      (htrail : b.isActiveTrailing → (b.id, b.isBuy) ∈ F.arriving) (hleft : F.leaving = []) :
      Step (F, w) ({ F with
        hands := hands, ids := ids, legs := ⟨b.id, .stop, p, b.sz⟩ :: F.legs },
        w.onSob fun s => Chain.stopPush s p b)
  /-- The remainder of an entry order waits with its condition. -/
  | arm {F w} (e : OrderQueueElem) (id : Nat) (c : ChainIterWrap) (payload : Payload)
      (hgap : F.gap = none) (he : F.cur = some e) (hl : e.sz ≠ 0 → ∃ l ∈ F.legs, l.id = id)
      (hc : w.idCache id = some c)
      (hcond : e.condition = .oneTriggersOther ∧
          (∃ op, e.cparams1 = some op ∧ payload = .contingentPriceOrder op) ∨
        e.condition.opensExits ∧ payload.refs = [] ∧ ∀ op, payload ≠ .contingentPriceOrder op)
      (hid : id = e.id) :
      Step (F, w) (F, w.onSob (·.armed c id e.condition e.trigger payload))
  /-- Both legs of an OCO order rest and refer to each other. -/
  | link {F w} (e : OrderQueueElem) (op : OrderParamaters) (id1 id2 : Nat) (c1 c2 : ChainIterWrap)
      (hgap : F.gap = none) (he : F.cur = some e) (hcond : e.condition = .oneCancelsOther)
      (hop : e.cparams1 = some op)
      (hl1 : e.sz ≠ 0 → ∃ l ∈ F.legs, l.id = id1 ∧
        (l.type = .limit → e.type = .limit ∧ (l.p : Int) = w.levelOf e.limit))
      (hl2 : op.size ≠ 0 → ∃ l ∈ F.legs, l.id = id2 ∧
        (l.type = .limit → op.getOrderType = .limit ∧ (l.p : Int) = w.levelOf op.limitPrice))
      (hc1 : w.idCache id1 = some c1) (hc2 : w.idCache id2 = some c2) (hne : id1 ≠ id2) :
      Step (F, w) ({ F with legs := [] }, w.onSob fun s =>
        (s.armed c1 id1 e.condition e.trigger (.linkedOrder ⟨id2, false, none⟩)).armed c2 id2
          e.condition e.trigger (.linkedOrder ⟨id1, true, none⟩))
  /-- The loss leg of a bracket is pushed and refers to the target, and the other way round. -/
  | openLoss {F w} (e : OrderQueueElem) (l : Leg) (c : ChainIterWrap) (p : Nat) (b : StopBndl)
      (nticks1 nticks2 : Option Nat) (ids : List Nat) (hgap : F.gap = none)
      (he : F.cur = some e) (hl : l ∈ F.legs) (hids : F.ids = b.id :: ids)
      (hcond : e.condition = .bracketActive ∨ e.condition = .trailingBracketActive)
      (hb : b.condition = e.condition ∧ b.trigger = e.trigger)
      (hc : w.idCache l.id = some c)
      (hsz : b.sz ≠ 0 ∧ ∀ x, w.bndlAt c l.id = some x → x.sz ≤ l.sz → x.sz ≤ b.sz)
      (hpay : b.payload = .linkedOrder ⟨l.id, true, nticks2⟩)
      (hp : ∀ n, nticks2 = some n → w.StopOffset b.isBuy n w.last p) (hlevel : w.HasLevel p)
      (htrail : b.isActiveTrailing → (b.id, b.isBuy) ∈ F.arriving) (hleft : F.leaving = []) :
      Step (F, w) ({ F with ids := ids, legs := [], exits := some (b.id, l.id) },
        w.onSob fun s => Chain.stopPush
          (s.armed c l.id e.condition e.trigger (.linkedOrder ⟨b.id, false, nticks1⟩)) p b)
  /-- A trailing stop is about to be pushed. -/
  | announce {F w} (id : Nat) (isBuy : Bool) :
      Step (F, w) ({ F with arriving := (id, isBuy) :: F.arriving }, w)
  | trailingInsert {F w} (id : Nat) (isBuy : Bool) (nticks : Nat) (arriving : List (Nat × Bool))
      (harr : F.arriving = (id, isBuy) :: arriving)
      (hrest : ∃ p, ∃ b ∈ (w.stops p).elems, b.id = id ∧ b.isBuy = isBuy ∧ b.isActiveTrailing) :
      Step (F, w) ({ F with arriving := arriving },
        (w.log (.trailingStopInsert id isBuy nticks (w.itop w.last))).onSob
          (·.trailingInserted id isBuy))
  /-- An entry order is told which exits are active. -/
  | tellEntry {F w} (e : OrderQueueElem) (id : Nat) (c : ChainIterWrap) (payload : Payload)
      (hgap : F.gap = none) (he : F.cur = some e)
      (hcond : e.condition = .bracketActive ∨ e.condition = .trailingBracketActive ∨
        e.condition = .trailingStopActive)
      (hc : w.idCache id = some c)
      (hpay : (∃ first second exits, F.exits = some exits ∧
          payload = .bracketOrders first second exits.1 exits.2) ∨
        ∃ params, ∃ l ∈ F.legs, l.type = .stop ∧ payload = .contingentNticksOrder params l.id)
      (hself : ∀ p, id ∈ w.limitIds p → id ∉ payload.refs) :
      Step (F, w) (F, w.onSob (·.updateAt c id fun b => { b with payload := payload }))

abbrev Steps : Config → Config → Prop := Relation.ReflTransGen Step

theorem Steps.step {c c' c'' : Config} (h : Steps c c') (h' : Step c' c'') : Steps c c'' :=
  h.tail h'

theorem Steps.acts {c c' c'' : Config} (h : Steps c c') (h' : Acts c' c'') : Steps c c'' :=
  h.trans (Relation.ReflTransGen.mono (fun _ _ => Step.act) _ _ h')

end SimpleOrderbook
