import Mathlib.Algebra.BigOperators.Group.List.Basic
import Mathlib.Algebra.Order.BigOperators.Group.List
import Mathlib.Algebra.Order.Group.Nat
import Mathlib.Order.Bounds.Basic
import SimpleOrderbook.AonFree

/-!
# Queries

What the market data calls of `query.cpp` read off the chains and cached pointers, and
`get_order_info`, compared with the resting orders themselves.
-/
namespace SimpleOrderbook

/-! ## Market data -/

/-- `side_of_trade`. -/
inductive SideOfTrade where
  | buy | sell | both
deriving DecidableEq, Repr

/-- `side_of_market`. -/
inductive SideOfMarket where
  | bid | ask | both
deriving DecidableEq, Repr

/-- `order::is_not_AON`. -/
def LimitBndl.isNotAON (b : LimitBndl) : Bool := !b.isAON

/-- `chain<limit_chain_type>::size_if`. -/
def Chain.sizeIf (c : ChainManager LimitBndl) (pred : LimitBndl → Bool) : Nat :=
  asSize ((c.elems.filter pred).map (·.sz)).sum

/-- `chain<limit_chain_type>::atleast_if`. -/
def Chain.atleastIf (c : ChainManager LimitBndl) (sz : Nat) (pred : LimitBndl → Bool) : Bool :=
  go 0 c.elems
where
  go (tot : Nat) : List LimitBndl → Bool
    | [] => false
    | b :: bs =>
      if pred b then
        let tot := asSize (tot + b.sz)
        if tot ≥ sz then true else go tot bs
      else go tot bs

/-- The levels of a loop from `l` up to `h`. -/
def levelsFrom (l h : Nat) : List Nat := List.range' l (h + 1 - l)

/-- `range<Side>::get<limit_chain_type>(sob)`. -/
def limitRange (s : Sob) : SideOfTrade → Nat × Nat
  | .buy => (s.lowBuyLimit, s.bid)
  | .sell => (s.ask, s.highSellLimit)
  | .both => (min s.lowBuyLimit s.ask, max s.highSellLimit s.bid)

/-- `range<Side>::get<limit_chain_type>(sob, depth)`, the offsets taken as whole numbers. -/
def limitRangeWithin (s : Sob) (depth : Nat) : SideOfTrade → Nat × Nat
  | .buy => (max (s.bid + 1 - depth) (limitRange s .buy).1, s.bid)
  | .sell => (s.ask, min (s.ask + depth - 1) (limitRange s .sell).2)
  | .both => (max (s.bid + 1 - depth) (limitRange s .both).1,
      min (s.ask + depth - 1) (limitRange s .both).2)

namespace Sob
variable (s : Sob)

/-- The size `size_if` finds at level `p`. -/
def limitSize (p : Nat) : Nat := Chain.sizeIf (s.limits p) LimitBndl.isNotAON

/-- `bid_price`. -/
def bidPrice : Int :=
  match (levelsFrom s.lowBuyLimit s.bid).reverse.find? fun h =>
      Chain.atleastIf (s.limits h) 1 LimitBndl.isNotAON with
  | some h => s.itop h
  | none => 0

/-- `ask_price`. -/
def askPrice : Int :=
  match (levelsFrom s.ask s.highSellLimit).find? fun l =>
      Chain.atleastIf (s.limits l) 1 LimitBndl.isNotAON with
  | some l => s.itop l
  | none => 0

/-- `bid_size`: the loop ends at the first level with a size. -/
def bidSize : Nat :=
  (((levelsFrom s.lowBuyLimit s.bid).reverse.map s.limitSize).find? (· ≠ 0)).getD 0

/-- `ask_size`. -/
def askSize : Nat :=
  (((levelsFrom s.ask s.highSellLimit).map s.limitSize).find? (· ≠ 0)).getD 0

/-- `_total_depth<Side, limit_chain_type>`. -/
def totalDepth (side : SideOfTrade) : Nat :=
  let (l, h) := limitRange s side
  asSize ((levelsFrom l h).reverse.map s.limitSize).sum

/-- `total_bid_size`. -/
def totalBidSize : Nat := s.totalDepth .buy

/-- `total_ask_size`. -/
def totalAskSize : Nat := s.totalDepth .sell

/-- `total_size`. -/
def totalSize : Nat := s.totalDepth .both

/-- `_limit_depth`, with `depth<Side>::build_value`. A `std::map` lists its entries by price, in
whichever order they were emplaced. -/
def limitDepth {α : Type} (range : Nat × Nat) (buildValue : Nat → Nat → α) : List (Int × α) :=
  (levelsFrom range.1 range.2).filterMap fun h =>
    if (s.limits h).empty then none else some (s.itop h, buildValue h (s.limitSize h))

/-- `bid_depth`. -/
def bidDepth (depth : Nat) : List (Int × Nat) :=
  s.limitDepth (limitRangeWithin s depth .buy) fun _ sz => sz

/-- `ask_depth`. -/
def askDepth (depth : Nat) : List (Int × Nat) :=
  s.limitDepth (limitRangeWithin s depth .sell) fun _ sz => sz

/-- `market_depth`. -/
def marketDepth (depth : Nat) : List (Int × Nat × SideOfMarket) :=
  s.limitDepth (limitRangeWithin s depth .both) fun p sz =>
    (sz, if p ≥ s.ask then .ask else .bid)

end Sob

/-! ## Order information -/

/-- `order_info`. -/
structure OrderInfo where
  type : OrderType := .null
  isBuy : Bool := false
  limit : Int := 0
  stop : Int := 0
  size : Nat := 0
  advanced : AdvancedOrderTicket := {}
deriving DecidableEq, Repr

namespace Sob
variable (s : Sob)

/-- `_is_buy_order` of a limit order at level `p`. -/
def isBuyOrder (p : Nat) : Bool := p < s.ask

/-- `order::as_price_params` of the order with cache entry `w`. -/
def asPriceParams (w : ChainIterWrap) (id : Nat) : Except Err OrderParamaters :=
  match w.type with
  | .limit =>
    match Chain.findLimit (s.limits w.p).elems id with
    | some b => return .byPrice (s.isBuyOrder w.p) b.sz (s.itop w.p) 0
    | none => throw .undefinedBehaviour
  | .stop =>
    match Chain.findStop (s.stops w.p).elems id with
    | some b => return .byPrice b.isBuy b.sz b.limit (s.itop w.p)
    | none => throw .undefinedBehaviour
  | .aonBuy =>
    match Chain.findLimit (s.aons true w.p).elems id with
    | some b => return .byPrice true b.sz (s.itop w.p) 0
    | none => throw .undefinedBehaviour
  | .aonSell =>
    match Chain.findLimit (s.aons false w.p).elems id with
    | some b => return .byPrice false b.sz (s.itop w.p) 0
    | none => throw .undefinedBehaviour

/-- What `_bndl_to_aot` reads through `linked_order`. -/
def linkedParams (loc : OrderLink) : Except Err OrderParamaters :=
  match s.idCache loc.id with
  | some w => s.asPriceParams w loc.id
  | none => throw (.orderNotInCache loc.id)

/-- `_bndl_to_aot`. -/
def bndlToAot (b : OrderBndl) : Except Err AdvancedOrderTicket :=
  let aot : AdvancedOrderTicket := { condition := b.condition, trigger := b.trigger }
  match b.condition, b.payload with
  | .bracketActive, .linkedOrder loc | .trailingBracketActive, .linkedOrder loc
  | .oneCancelsOther, .linkedOrder loc => do
    let order1 ← s.linkedParams loc
    return { aot with order1 := some order1 }
  | .bracketActive, .null | .trailingBracketActive, .null | .oneCancelsOther, .null => return aot
  | .trailingStop, .contingentNticksOrder params _ => return { aot with order1 := some params }
  | .oneTriggersOther, .contingentPriceOrder params => return { aot with order1 := some params }
  | .trailingBracket, .bracketOrders first second _ _
  | .bracket, .bracketOrders first second _ _ =>
    return { aot with order1 := some first, order2 := some second }
  | .fillOrKill, _ | .trailingStopActive, _ | .allOrNone, _ | .none, _ => return aot
  | _, _ => throw .undefinedBehaviour

/-- `order::as_order_info(sob, id)` inside its `try`. -/
def asOrderInfo (id : Nat) : Except Err OrderInfo := do
  match s.idCache id with
  | none => throw (.orderNotInCache id)
  | some w =>
    match w.type with
    | .limit =>
      match Chain.findLimit (s.limits w.p).elems id with
      | none => throw .undefinedBehaviour
      | some b =>
        let aot ← s.bndlToAot b.toOrderBndl
        return ⟨.limit, s.isBuyOrder w.p, s.itop w.p, 0, b.sz, aot⟩
    | .stop =>
      match Chain.findStop (s.stops w.p).elems id with
      | none => throw .undefinedBehaviour
      | some b =>
        let aot ← s.bndlToAot b.toOrderBndl
        return ⟨if b.limit ≠ 0 then .stopLimit else .stop, b.isBuy, b.limit, s.itop w.p, b.sz, aot⟩
    | .aonBuy =>
      match Chain.findLimit (s.aons true w.p).elems id with
      | none => throw .undefinedBehaviour
      | some b =>
        let aot ← s.bndlToAot b.toOrderBndl
        return ⟨.limit, true, s.itop w.p, 0, b.sz, aot⟩
    | .aonSell =>
      match Chain.findLimit (s.aons false w.p).elems id with
      | none => throw .undefinedBehaviour
      | some b =>
        let aot ← s.bndlToAot b.toOrderBndl
        return ⟨.limit, false, s.itop w.p, 0, b.sz, aot⟩

/-- `get_order_info`: whoever throws `OrderNotInCache`, the null info is returned. -/
def getOrderInfo (id : Nat) : Except Err OrderInfo :=
  match s.asOrderInfo id with
  | .error (.orderNotInCache _) => return {}
  | r => r

end Sob

/-! ## What the queries should say -/

namespace Sob
variable (s : Sob)

/-- The total size of the limit orders of one side that rest at level `p`. -/
def restingSize (side : Bool) (p : Nat) : Nat :=
  (((s.limits p).elems.filter (·.side = side)).map (·.sz)).sum

/-- The total size of the resting limit orders of one side. -/
def restingTotal (side : Bool) : Nat := ((List.range s.end_).map (s.restingSize side)).sum

/-- `p` is the best level with a resting limit order of one side. -/
def IsBest (side : Bool) (p : Nat) : Prop :=
  if side then IsGreatest {q | s.HasLimit true q} p else IsLeast {q | s.HasLimit false q} p

/-- Level `p` has an order of the side, and is one of the `depth` levels from its best one on. -/
def Within (side : Bool) (depth p : Nat) : Prop :=
  s.HasLimit side p ∧
    ∃ best, s.IsBest side best ∧ if side then best < p + depth else p < best + depth

/-- The best price and its size. -/
structure BestAgrees (side : Bool) (price : Int) (size : Nat) : Prop where
  best : ∀ p, s.IsBest side p → price = s.itop p ∧ size = s.restingSize side p
  none : (∀ p, ¬ s.HasLimit side p) → price = 0 ∧ size = 0

/-- The entries of a depth map are those of `entry`, each price once. -/
structure DepthAgrees {α : Type} (map : List (Int × α)) (entry : Nat → α → Prop) : Prop where
  sorted : map.Pairwise (·.1 < ·.1)
  mem_iff : ∀ x, x ∈ map ↔ ∃ p, x.1 = s.itop p ∧ entry p x.2

/-- The queries agree with the resting orders. -/
structure QueriesAgree : Prop where
  bid : s.BestAgrees true s.bidPrice s.bidSize
  ask : s.BestAgrees false s.askPrice s.askSize
  totalBid : s.totalBidSize = s.restingTotal true
  totalAsk : s.totalAskSize = s.restingTotal false
  total : s.totalSize = s.restingTotal true + s.restingTotal false
  bidDepth : ∀ depth, 1 ≤ depth → s.DepthAgrees (s.bidDepth depth) fun p sz =>
    s.Within true depth p ∧ sz = s.restingSize true p
  askDepth : ∀ depth, 1 ≤ depth → s.DepthAgrees (s.askDepth depth) fun p sz =>
    s.Within false depth p ∧ sz = s.restingSize false p
  marketDepth : ∀ depth, 1 ≤ depth → s.DepthAgrees (s.marketDepth depth) fun p v =>
    ∃ side, s.Within side depth p ∧ v = (s.restingSize side p, if side then .bid else .ask)
  limitInfo : ∀ p, ∀ b ∈ (s.limits p).elems, ∃ aot,
    s.getOrderInfo b.id = .ok ⟨.limit, b.side, s.itop p, 0, b.sz, aot⟩
  stopInfo : ∀ p, ∀ b ∈ (s.stops p).elems, ∃ aot, s.getOrderInfo b.id =
    .ok ⟨if b.limit ≠ 0 then .stopLimit else .stop, b.isBuy, b.limit, s.itop p, b.sz, aot⟩
  nullInfo : ∀ id, (∀ p, ∀ b ∈ (s.limits p).elems, b.id ≠ id) →
    (∀ p, ∀ b ∈ (s.stops p).elems, b.id ≠ id) → s.getOrderInfo id = .ok {}

/-- What the condition of an order refers to is there: its union is set, and a linked order is in
the cache. -/
def Known (b : OrderBndl) : Prop :=
  match b.condition, b.payload with
  | .bracketActive, .linkedOrder loc | .trailingBracketActive, .linkedOrder loc
  | .oneCancelsOther, .linkedOrder loc => s.idCache loc.id ≠ .none
  | .bracketActive, .null | .trailingBracketActive, .null | .oneCancelsOther, .null
  | .trailingStop, .contingentNticksOrder _ _ | .oneTriggersOther, .contingentPriceOrder _
  | .trailingBracket, .bracketOrders .. | .bracket, .bracketOrders ..
  | .fillOrKill, _ | .trailingStopActive, _ | .allOrNone, _ | .none, _ => True
  | _, _ => False

/-- All sizes together are the size of a `size_t`, the best levels hold an order with a size, and no
resting order refers to one that is gone. -/
structure Answerable : Prop where
  fits : s.restingTotal true + s.restingTotal false < 2 ^ 64
  best : ∀ side p, s.IsBest side p → ∃ b ∈ (s.limits p).elems, b.sz ≠ 0
  limits : ∀ p, ∀ b ∈ (s.limits p).elems, s.Known b.toOrderBndl
  stops : ∀ p, ∀ b ∈ (s.stops p).elems, s.Known b.toOrderBndl

end Sob

/-! ## Sizes and levels -/

section Levels
variable {s : Sob}

theorem mem_levelsFrom {l h p : Nat} : p ∈ levelsFrom l h ↔ l ≤ p ∧ p ≤ h := by
  unfold levelsFrom
  rw [List.mem_range'_1]
  omega

theorem levelsFrom_succ {l h : Nat} (hle : l ≤ h) :
    (levelsFrom l h).reverse = h :: (List.range' l (h - l)).reverse := by
  unfold levelsFrom
  obtain ⟨n, rfl⟩ := Nat.exists_eq_add_of_le hle
  rw [show l + n + 1 - l = n + 1 by omega, show l + n - l = n by omega, List.range'_concat,
    List.reverse_append]
  simp

theorem levelsFrom_cons {l h : Nat} (hle : l ≤ h) :
    levelsFrom l h = l :: List.range' (l + 1) (h - l) := by
  unfold levelsFrom
  rw [show h + 1 - l = h - l + 1 by omega, List.range'_succ]

theorem sum_map_eq_zero {f : Nat → Nat} {ps : List Nat} (h : ∀ p ∈ ps, f p = 0) :
    (ps.map f).sum = 0 :=
  List.sum_eq_zero fun x hx => by
    obtain ⟨p, hp, rfl⟩ := List.mem_map.mp hx
    exact h p hp

/-- The levels from `n` on do not count. -/
theorem sum_range_of_le {f : Nat → Nat} {n m : Nat} (hnm : n ≤ m) (hf : ∀ p, f p ≠ 0 → p < n) :
    ((List.range m).map f).sum = ((List.range n).map f).sum := by
  have hsplit : List.range m = List.range n ++ List.range' n (m - n) := by
    have h := @List.range'_append 0 n (m - n) 1
    rw [show 0 + 1 * n = n by omega, show n + (m - n) = m by omega] at h
    rw [List.range_eq_range', List.range_eq_range', h]
  have hzero : ((List.range' n (m - n)).map f).sum = 0 := sum_map_eq_zero fun p hp => by
    by_contra hne
    exact absurd (hf p hne) (by rw [List.mem_range'_1] at hp; omega)
  rw [hsplit, List.map_append, List.sum_append, hzero, Nat.add_zero]

/-- The levels of a loop are all that count. -/
theorem sum_levelsFrom {f : Nat → Nat} {l h n : Nat} (hn : ∀ p, f p ≠ 0 → p < n)
    (hf : ∀ p, f p ≠ 0 → l ≤ p ∧ p ≤ h) :
    ((levelsFrom l h).map f).sum = ((List.range n).map f).sum := by
  have hzero : ∀ p, ¬ (l ≤ p ∧ p ≤ h) → f p = 0 := fun p hp => by
    by_contra hne
    exact hp (hf p hne)
  by_cases hle : l ≤ h
  · have hsplit : List.range (h + 1) = List.range' 0 l ++ levelsFrom l h := by
      unfold levelsFrom
      have h1 := @List.range'_append 0 l (h + 1 - l) 1
      rw [show 0 + 1 * l = l by omega, show l + (h + 1 - l) = h + 1 by omega] at h1
      rw [List.range_eq_range', h1]
    have hloop : ((levelsFrom l h).map f).sum = ((List.range (h + 1)).map f).sum := by
      have hbelow : ((List.range' 0 l).map f).sum = 0 := sum_map_eq_zero fun p hp =>
        hzero p (by rw [List.mem_range'_1] at hp; omega)
      rw [hsplit, List.map_append, List.sum_append, hbelow, Nat.zero_add]
    rw [hloop, ← sum_range_of_le (Nat.le_max_left n (h + 1)) hn]
    exact (sum_range_of_le (Nat.le_max_right n (h + 1)) fun p hp => by have := hf p hp; omega).symm
  · rw [sum_map_eq_zero fun p hp => hzero p (by omega),
      sum_map_eq_zero fun p _ => hzero p (by omega)]

theorem sum_filter_side (l : List LimitBndl) :
    (l.map (·.sz)).sum = ((l.filter (·.side = true)).map (·.sz)).sum +
      ((l.filter (·.side = false)).map (·.sz)).sum := by
  induction l with
  | nil => rfl
  | cons b bs ih => cases hb : b.side <;> simp [hb, ih] <;> omega

/-- Without AONs the size found at a level is what rests there on both sides. -/
theorem limitSize_eq_asSize (hf : ∀ p, ∀ b ∈ (s.limits p).elems, b.condition ≠ .allOrNone) (p : Nat) :
    s.limitSize p = asSize (s.restingSize true p + s.restingSize false p) := by
  have hall : (s.limits p).elems.filter LimitBndl.isNotAON = (s.limits p).elems :=
    List.filter_eq_self.mpr fun b hb => by simp [LimitBndl.isNotAON, OrderBndl.isAON, hf p b hb]
  unfold Sob.limitSize Chain.sizeIf Sob.restingSize
  rw [hall, sum_filter_side]

theorem restingSize_eq_zero {side : Bool} {p : Nat} (h : ¬ s.HasLimit side p) :
    s.restingSize side p = 0 := by
  have hnil : (s.limits p).elems.filter (·.side = side) = [] :=
    List.filter_eq_nil_iff.mpr fun b hb hs => h ⟨b, hb, of_decide_eq_true hs⟩
  unfold Sob.restingSize
  rw [hnil]
  rfl

theorem hasLimit_of_restingSize {side : Bool} {p : Nat} (h : s.restingSize side p ≠ 0) :
    s.HasLimit side p := by
  by_contra hno
  exact h (restingSize_eq_zero hno)

theorem sz_le_restingSize {p : Nat} {b : LimitBndl} (hb : b ∈ (s.limits p).elems) :
    b.sz ≤ s.restingSize b.side p :=
  List.single_le_sum (fun _ _ => Nat.zero_le _) _
    (List.mem_map_of_mem (List.mem_filter.mpr ⟨hb, decide_eq_true rfl⟩))

theorem Chain.atleastIf_one (pred : LimitBndl → Bool) (c : ChainManager LimitBndl)
    (hsz : ∀ b ∈ c.elems, b.sz < 2 ^ 64) :
    Chain.atleastIf c 1 pred = true ↔ ∃ b ∈ c.elems, pred b = true ∧ b.sz ≠ 0 := by
  unfold Chain.atleastIf
  generalize c.elems = l at hsz ⊢
  induction l with
  | nil => simp [Chain.atleastIf.go]
  | cons b bs ih =>
    have ih := ih fun x hx => hsz x (List.mem_cons_of_mem b hx)
    have hself : asSize (0 + b.sz) = b.sz := by
      rw [Nat.zero_add]
      exact asSize_of_lt (hsz b List.mem_cons_self)
    unfold Chain.atleastIf.go
    rw [hself]
    by_cases hp : pred b = true
    · rcases Nat.eq_zero_or_pos b.sz with h0 | hpos
      · simp [hp, h0, ih]
      · simp [hp, show 1 ≤ b.sz from hpos, show b.sz ≠ 0 by omega]
    · simp [hp, ih]

/-! ## The queries of an uncrossed book -/

section Uncrossed
variable (hu : s.Uncrossed) (hf : ∀ p, ∀ b ∈ (s.limits p).elems, b.condition ≠ .allOrNone)
  (hfits : s.restingTotal true + s.restingTotal false < 2 ^ 64)
include hu

theorem bid_of_best {p : Nat} (h : s.IsBest true p) : p = s.bid := by
  rcases hu.bid with hb | ⟨hno, -⟩
  · exact IsGreatest.unique h hb
  · exact absurd h.1 (hno p)

theorem ask_of_best {p : Nat} (h : s.IsBest false p) : p = s.ask := by
  rcases hu.ask with ha | ⟨hno, -⟩
  · exact IsLeast.unique h ha
  · exact absurd h.1 (hno p)

theorem isBest_bid {p : Nat} (h : s.HasLimit true p) : s.IsBest true s.bid :=
  hu.bid.resolve_right fun hno => hno.1 p h

theorem isBest_ask {p : Nat} (h : s.HasLimit false p) : s.IsBest false s.ask :=
  hu.ask.resolve_right fun hno => hno.1 p h

theorem not_buy_of_lt {p : Nat} (h : s.bid < p) : ¬ s.HasLimit true p := fun hb =>
  absurd (hu.buys p hb).2 (not_le.mpr h)

theorem not_sell_of_lt {p : Nat} (h : p < s.ask) : ¬ s.HasLimit false p := fun hb =>
  absurd (hu.sells p hb).1 (not_le.mpr h)

theorem Sob.HasLimit.lt_end {side : Bool} {p : Nat} (h : s.HasLimit side p) :
    beg ≤ p ∧ p < s.end_ := by
  obtain ⟨b, hb, -⟩ := h
  exact hu.levels p (List.ne_nil_of_mem hb)

theorem lt_end_of_restingSize {side : Bool} {p : Nat} (h : s.restingSize side p ≠ 0) :
    p < s.end_ :=
  (Sob.HasLimit.lt_end hu (hasLimit_of_restingSize h)).2

theorem restingSize_le_total (side : Bool) (p : Nat) : s.restingSize side p ≤ s.restingTotal side := by
  by_cases h0 : s.restingSize side p = 0
  · omega
  · exact List.single_le_sum (fun _ _ => Nat.zero_le _) _
      (List.mem_map_of_mem (List.mem_range.mpr (lt_end_of_restingSize hu h0)))

include hfits

theorem sz_lt_of_fits {p : Nat} {b : LimitBndl} (hb : b ∈ (s.limits p).elems) : b.sz < 2 ^ 64 := by
  have hle := (sz_le_restingSize hb).trans (restingSize_le_total hu b.side p)
  cases hside : b.side <;> rw [hside] at hle <;> omega

include hf

theorem limitSize_eq (p : Nat) : s.limitSize p = s.restingSize true p + s.restingSize false p := by
  have := restingSize_le_total hu true p
  have := restingSize_le_total hu false p
  rw [limitSize_eq_asSize hf]
  exact asSize_of_lt (by omega)

theorem limitSize_of_le_bid {p : Nat} (hp : p ≤ s.bid) : s.limitSize p = s.restingSize true p := by
  rw [limitSize_eq hu hf hfits, restingSize_eq_zero (not_sell_of_lt hu (hp.trans_lt hu.bid_lt_ask)),
    Nat.add_zero]

theorem limitSize_of_ask_le {p : Nat} (hp : s.ask ≤ p) : s.limitSize p = s.restingSize false p := by
  rw [limitSize_eq hu hf hfits, restingSize_eq_zero (not_buy_of_lt hu (hu.bid_lt_ask.trans_le hp)),
    Nat.zero_add]

/-! ### Totals -/

theorem totalBidSize_eq : s.totalBidSize = s.restingTotal true := by
  have hsum : ((levelsFrom s.lowBuyLimit s.bid).map s.limitSize).sum = s.restingTotal true := by
    unfold Sob.restingTotal
    rw [← sum_levelsFrom (fun p hp => lt_end_of_restingSize hu hp)
      fun p hp => hu.buys p (hasLimit_of_restingSize hp)]
    exact congrArg List.sum (List.map_congr_left fun p hp =>
      limitSize_of_le_bid hu hf hfits (mem_levelsFrom.mp hp).2)
  unfold Sob.totalBidSize Sob.totalDepth limitRange
  dsimp only
  rw [List.map_reverse, List.sum_reverse, hsum]
  exact asSize_of_lt (by omega)

theorem totalAskSize_eq : s.totalAskSize = s.restingTotal false := by
  have hsum : ((levelsFrom s.ask s.highSellLimit).map s.limitSize).sum = s.restingTotal false := by
    unfold Sob.restingTotal
    rw [← sum_levelsFrom (fun p hp => lt_end_of_restingSize hu hp)
      fun p hp => hu.sells p (hasLimit_of_restingSize hp)]
    exact congrArg List.sum (List.map_congr_left fun p hp =>
      limitSize_of_ask_le hu hf hfits (mem_levelsFrom.mp hp).1)
  unfold Sob.totalAskSize Sob.totalDepth limitRange
  dsimp only
  rw [List.map_reverse, List.sum_reverse, hsum]
  exact asSize_of_lt (by omega)

theorem totalSize_eq : s.totalSize = s.restingTotal true + s.restingTotal false := by
  have hpick : ∀ p, s.limitSize p ≠ 0 → ∃ side, s.HasLimit side p := fun p hp => by
    rw [limitSize_eq hu hf hfits] at hp
    by_cases hb : s.restingSize true p = 0
    · exact ⟨false, hasLimit_of_restingSize (by omega)⟩
    · exact ⟨true, hasLimit_of_restingSize hb⟩
  have hsum : ((levelsFrom (min s.lowBuyLimit s.ask) (max s.highSellLimit s.bid)).map s.limitSize).sum =
      s.restingTotal true + s.restingTotal false := by
    unfold Sob.restingTotal
    rw [sum_levelsFrom (n := s.end_) (fun p hp => ?_) fun p hp => ?_, ← List.sum_map_add]
    · exact congrArg List.sum (List.map_congr_left fun p _ => limitSize_eq hu hf hfits p)
    · obtain ⟨side, hl⟩ := hpick p hp
      exact (Sob.HasLimit.lt_end hu hl).2
    · obtain ⟨side, hl⟩ := hpick p hp
      cases side with
      | true => have := hu.buys p hl; omega
      | false => have := hu.sells p hl; omega
  unfold Sob.totalSize Sob.totalDepth limitRange
  dsimp only
  rw [List.map_reverse, List.sum_reverse, hsum]
  exact asSize_of_lt hfits

/-! ### Best prices -/

theorem atleastIf_iff (p : Nat) : Chain.atleastIf (s.limits p) 1 LimitBndl.isNotAON = true ↔
    ∃ b ∈ (s.limits p).elems, b.sz ≠ 0 := by
  rw [Chain.atleastIf_one _ _ fun b hb => sz_lt_of_fits hu hfits hb]
  refine exists_congr fun b => and_congr_right fun hb => and_iff_right ?_
  simp [LimitBndl.isNotAON, OrderBndl.isAON, hf p b hb]

theorem limitSize_ne_zero {p : Nat} (h : ∃ b ∈ (s.limits p).elems, b.sz ≠ 0) :
    s.limitSize p ≠ 0 := by
  obtain ⟨b, hb, hsz⟩ := h
  have hle := sz_le_restingSize hb
  rw [limitSize_eq hu hf hfits]
  cases hside : b.side <;> rw [hside] at hle <;> omega

theorem bid_agrees {p : Nat} (hp : s.IsBest true p) (h : ∃ b ∈ (s.limits p).elems, b.sz ≠ 0) :
    s.bidPrice = s.itop p ∧ s.bidSize = s.restingSize true p := by
  obtain rfl := bid_of_best hu hp
  have hlow : s.lowBuyLimit ≤ s.bid := (hu.buys _ hp.1).1
  have hsize := limitSize_ne_zero hu hf hfits h
  constructor
  · unfold Sob.bidPrice
    rw [levelsFrom_succ hlow, List.find?_cons_of_pos
      (p := fun h => Chain.atleastIf (s.limits h) 1 LimitBndl.isNotAON)
      ((atleastIf_iff hu hf hfits _).mpr h)]
  · unfold Sob.bidSize
    rw [levelsFrom_succ hlow, List.map_cons, List.find?_cons_of_pos (by simpa using hsize)]
    exact limitSize_of_le_bid hu hf hfits le_rfl

theorem ask_agrees {p : Nat} (hp : s.IsBest false p) (h : ∃ b ∈ (s.limits p).elems, b.sz ≠ 0) :
    s.askPrice = s.itop p ∧ s.askSize = s.restingSize false p := by
  obtain rfl := ask_of_best hu hp
  have hhigh : s.ask ≤ s.highSellLimit := (hu.sells _ hp.1).2
  have hsize := limitSize_ne_zero hu hf hfits h
  constructor
  · unfold Sob.askPrice
    rw [levelsFrom_cons hhigh, List.find?_cons_of_pos
      (p := fun h => Chain.atleastIf (s.limits h) 1 LimitBndl.isNotAON)
      ((atleastIf_iff hu hf hfits _).mpr h)]
  · unfold Sob.askSize
    rw [levelsFrom_cons hhigh, List.map_cons, List.find?_cons_of_pos (by simpa using hsize)]
    exact limitSize_of_ask_le hu hf hfits le_rfl

omit hu hf hfits in
theorem itop_ne {p q : Nat} (hp : beg ≤ p) (hq : beg ≤ q) (h : p ≠ q) : s.itop p ≠ s.itop q := by
  unfold Sob.itop
  unfold beg at *
  omega

omit hu hf hfits in
theorem itop_ne_zero {p : Nat} (hbase : 1 ≤ s.base) (hp : beg ≤ p) : s.itop p ≠ 0 := by
  unfold Sob.itop
  unfold beg at *
  omega

theorem itop_ne_of_atleast {p q : Nat} (hp : beg ≤ p) (h : ¬ ∃ b ∈ (s.limits p).elems, b.sz ≠ 0)
    (hq : Chain.atleastIf (s.limits q) 1 LimitBndl.isNotAON = true) : s.itop q ≠ s.itop p := by
  obtain ⟨b, hb, hsz⟩ := (atleastIf_iff hu hf hfits q).mp hq
  refine itop_ne (hu.levels q (List.ne_nil_of_mem hb)).1 hp ?_
  rintro rfl
  exact h ⟨b, hb, hsz⟩

/-- A best level without a size is passed over. -/
theorem bidPrice_ne {p : Nat} (hbase : 1 ≤ s.base) (hp : s.IsBest true p)
    (h : ¬ ∃ b ∈ (s.limits p).elems, b.sz ≠ 0) : s.bidPrice ≠ s.itop p := by
  unfold Sob.bidPrice
  split
  next q hq =>
    exact itop_ne_of_atleast hu hf hfits (Sob.HasLimit.lt_end hu hp.1).1 h
      (by simpa using List.find?_some hq)
  next => exact (itop_ne_zero hbase (Sob.HasLimit.lt_end hu hp.1).1).symm

theorem askPrice_ne {p : Nat} (hbase : 1 ≤ s.base) (hp : s.IsBest false p)
    (h : ¬ ∃ b ∈ (s.limits p).elems, b.sz ≠ 0) : s.askPrice ≠ s.itop p := by
  unfold Sob.askPrice
  split
  next q hq =>
    exact itop_ne_of_atleast hu hf hfits (Sob.HasLimit.lt_end hu hp.1).1 h
      (by simpa using List.find?_some hq)
  next => exact (itop_ne_zero hbase (Sob.HasLimit.lt_end hu hp.1).1).symm

omit hf hfits in
theorem bid_none (hno : ∀ p, ¬ s.HasLimit true p) (hend : 1 ≤ s.end_) :
    s.bidPrice = 0 ∧ s.bidSize = 0 := by
  obtain ⟨-, hbid, hlow⟩ := hu.bid.resolve_left fun h => hno _ h.1
  have hnil : levelsFrom s.lowBuyLimit s.bid = [] := by
    unfold levelsFrom
    rw [hbid, hlow, show beg - 1 + 1 - s.end_ = 0 by unfold beg; omega]
    rfl
  constructor
  · unfold Sob.bidPrice
    rw [hnil]
    rfl
  · unfold Sob.bidSize
    rw [hnil]
    rfl

omit hf hfits in
theorem ask_none (hno : ∀ p, ¬ s.HasLimit false p) (hend : 1 ≤ s.end_) :
    s.askPrice = 0 ∧ s.askSize = 0 := by
  obtain ⟨-, hask, hhigh⟩ := hu.ask.resolve_left fun h => hno _ h.1
  have hnil : levelsFrom s.ask s.highSellLimit = [] := by
    unfold levelsFrom
    rw [hask, hhigh, show beg - 1 + 1 - s.end_ = 0 by unfold beg; omega]
    rfl
  constructor
  · unfold Sob.askPrice
    rw [hnil]
    rfl
  · unfold Sob.askSize
    rw [hnil]
    rfl

/-! ### Depth -/

omit hu hf hfits in
/-- The entries of a depth map are the occupied levels of its range. -/
theorem limitDepth_agrees {α : Type} {range : Nat × Nat} {value : Nat → Nat → α}
    {entry : Nat → α → Prop} (hbeg : ∀ p, s.limits p ≠ none → beg ≤ p) (h : ∀ p v, entry p v ↔
      (range.1 ≤ p ∧ p ≤ range.2) ∧ s.limits p ≠ none ∧ v = value p (s.limitSize p)) :
    s.DepthAgrees (s.limitDepth range value) entry := by
  unfold Sob.limitDepth
  constructor
  · refine List.Pairwise.filterMap _ (fun p q hpq x hx y hy => ?_)
      (List.pairwise_lt_range' (s := range.1) (n := range.2 + 1 - range.1))
    split at hx
    · cases hx
    next hne =>
      have hp := hbeg p fun hn => hne (by rw [hn]; rfl)
      split at hy
      · cases hy
      cases hx
      cases hy
      unfold Sob.itop
      unfold beg at *
      dsimp only
      omega
  · rintro ⟨price, v⟩
    rw [List.mem_filterMap]
    constructor
    · rintro ⟨p, hp, hx⟩
      split at hx
      · cases hx
      next hne =>
        cases hx
        exact ⟨p, rfl, (h p _).mpr ⟨mem_levelsFrom.mp hp, fun hn => hne (by rw [hn]; rfl), rfl⟩⟩
    · rintro ⟨p, hprice, he⟩
      obtain ⟨hp, hne, hv⟩ := (h p v).mp he
      refine ⟨p, mem_levelsFrom.mpr hp, ?_⟩
      have hempty : ¬ (s.limits p).empty = true := fun hn => hne (Option.isNone_iff_eq_none.mp hn)
      rw [if_neg hempty]
      dsimp only at hprice hv
      rw [hprice, hv]

omit hf hfits in
theorem hasLimit_of_le_bid (hn : ∀ p, s.limits p ≠ some []) {p : Nat} (hne : s.limits p ≠ none)
    (hp : p ≤ s.bid) : s.HasLimit true p := by
  cases hl : s.limits p with
  | none => exact absurd hl hne
  | some l =>
    cases l with
    | nil => exact absurd hl (hn p)
    | cons b bs =>
      have hb : b ∈ (s.limits p).elems := by rw [hl]; exact List.mem_cons_self
      rcases hu.sides p (List.ne_nil_of_mem hb) with ⟨-, hside⟩ | ⟨hask, -⟩
      · exact ⟨b, hb, hside b hb⟩
      · exact absurd (hask.trans hp) (not_le.mpr hu.bid_lt_ask)

omit hf hfits in
theorem hasLimit_of_ask_le (hn : ∀ p, s.limits p ≠ some []) {p : Nat} (hne : s.limits p ≠ none)
    (hp : s.ask ≤ p) : s.HasLimit false p := by
  cases hl : s.limits p with
  | none => exact absurd hl hne
  | some l =>
    cases l with
    | nil => exact absurd hl (hn p)
    | cons b bs =>
      have hb : b ∈ (s.limits p).elems := by rw [hl]; exact List.mem_cons_self
      rcases hu.sides p (List.ne_nil_of_mem hb) with ⟨hbid, -⟩ | ⟨-, hside⟩
      · exact absurd (hp.trans hbid) (not_le.mpr hu.bid_lt_ask)
      · exact ⟨b, hb, hside b hb⟩

omit hf hfits in
theorem le_bid_or_ask_le (hn : ∀ p, s.limits p ≠ some []) {p : Nat} (hne : s.limits p ≠ none) :
    p ≤ s.bid ∨ s.ask ≤ p := by
  cases hl : s.limits p with
  | none => exact absurd hl hne
  | some l =>
    cases l with
    | nil => exact absurd hl (hn p)
    | cons b bs =>
      exact (hu.sides p (by rw [hl]; exact List.cons_ne_nil b bs)).imp (·.1) (·.1)

omit hf hfits in
theorem within_buy {depth p : Nat} :
    s.Within true depth p ↔ s.HasLimit true p ∧ s.bid < p + depth := by
  refine and_congr_right fun hl => ⟨fun ⟨best, hbest, hlt⟩ => ?_, fun hlt => ?_⟩
  · exact bid_of_best hu hbest ▸ hlt
  · exact ⟨s.bid, isBest_bid hu hl, hlt⟩

omit hf hfits in
theorem within_sell {depth p : Nat} :
    s.Within false depth p ↔ s.HasLimit false p ∧ p < s.ask + depth := by
  refine and_congr_right fun hl => ⟨fun ⟨best, hbest, hlt⟩ => ?_, fun hlt => ?_⟩
  · exact ask_of_best hu hbest ▸ (by simpa using hlt)
  · exact ⟨s.ask, isBest_ask hu hl, by simpa using hlt⟩

omit hf hfits in
theorem beg_le_of_limits (hn : ∀ p, s.limits p ≠ some []) (p : Nat) (hne : s.limits p ≠ none) :
    beg ≤ p := by
  cases hl : s.limits p with
  | none => exact absurd hl hne
  | some l => exact (hu.levels p (by rw [hl]; exact fun h => hn p (hl.trans (congrArg some h)))).1

theorem bidDepth_agrees (hn : ∀ p, s.limits p ≠ some []) (depth : Nat) :
    s.DepthAgrees (s.bidDepth depth) fun p sz =>
      s.Within true depth p ∧ sz = s.restingSize true p := by
  refine limitDepth_agrees (beg_le_of_limits hu hn) fun p v => ?_
  dsimp only [limitRangeWithin, limitRange]
  rw [within_buy hu]
  constructor
  · rintro ⟨⟨hl, hlt⟩, rfl⟩
    have hp := hu.buys p hl
    exact ⟨⟨max_le (by omega) hp.1, hp.2⟩, hl.ne_none, (limitSize_of_le_bid hu hf hfits hp.2).symm⟩
  · rintro ⟨⟨hlow, hle⟩, hne, rfl⟩
    have hlow := (max_le_iff.mp hlow).1
    exact ⟨⟨hasLimit_of_le_bid hu hn hne hle, by omega⟩, limitSize_of_le_bid hu hf hfits hle⟩

theorem askDepth_agrees (hn : ∀ p, s.limits p ≠ some []) {depth : Nat} (hd : 1 ≤ depth) :
    s.DepthAgrees (s.askDepth depth) fun p sz =>
      s.Within false depth p ∧ sz = s.restingSize false p := by
  refine limitDepth_agrees (beg_le_of_limits hu hn) fun p v => ?_
  dsimp only [limitRangeWithin, limitRange]
  rw [within_sell hu]
  constructor
  · rintro ⟨⟨hl, hlt⟩, rfl⟩
    have hp := hu.sells p hl
    exact ⟨⟨hp.1, le_min (by omega) hp.2⟩, hl.ne_none, (limitSize_of_ask_le hu hf hfits hp.1).symm⟩
  · rintro ⟨⟨hle, hhigh⟩, hne, rfl⟩
    have hhigh := (le_min_iff.mp hhigh).1
    exact ⟨⟨hasLimit_of_ask_le hu hn hne hle, by omega⟩, limitSize_of_ask_le hu hf hfits hle⟩

theorem marketDepth_agrees (hn : ∀ p, s.limits p ≠ some []) {depth : Nat} (hd : 1 ≤ depth) :
    s.DepthAgrees (s.marketDepth depth) fun p v =>
      ∃ side, s.Within side depth p ∧ v = (s.restingSize side p, if side then .bid else .ask) := by
  have hcross := hu.bid_lt_ask
  refine limitDepth_agrees (beg_le_of_limits hu hn) fun p v => ?_
  dsimp only [limitRangeWithin, limitRange]
  constructor
  · rintro ⟨side, hw, rfl⟩
    cases side with
    | true =>
      obtain ⟨hl, hlt⟩ := (within_buy hu).mp hw
      have hp := hu.buys p hl
      refine ⟨⟨by omega, by omega⟩, hl.ne_none, ?_⟩
      rw [limitSize_of_le_bid hu hf hfits hp.2, if_pos rfl, if_neg (by omega)]
    | false =>
      obtain ⟨hl, hlt⟩ := (within_sell hu).mp hw
      have hp := hu.sells p hl
      refine ⟨⟨by omega, by omega⟩, hl.ne_none, ?_⟩
      rw [limitSize_of_ask_le hu hf hfits hp.1, if_neg (by simp), if_pos hp.1]
  · rintro ⟨⟨hlow, hhigh⟩, hne, rfl⟩
    rcases le_bid_or_ask_le hu hn hne with hle | hle
    · refine ⟨true, (within_buy hu).mpr ⟨hasLimit_of_le_bid hu hn hne hle, by omega⟩, ?_⟩
      rw [limitSize_of_le_bid hu hf hfits hle, if_pos rfl, if_neg (by omega)]
    · refine ⟨false, (within_sell hu).mpr ⟨hasLimit_of_ask_le hu hn hne hle, by omega⟩, ?_⟩
      rw [limitSize_of_ask_le hu hf hfits hle, if_pos (show p ≥ s.ask from hle),
        if_neg (show ¬ (false = true) by simp)]

end Uncrossed

end Levels

/-! ## The information on an order -/

section Info
variable {w : World} (hi : Filed {} w) (hfree : AonFree {} w)

theorem resident_of_mem_limits {p : Nat} {b : LimitBndl} (hb : b ∈ (w.limits p).elems) :
    Resident {} w (.limit, p) b.toOrderBndl :=
  resident_limit.mpr ⟨b, hb, by simp [Flight.spentAt_of_none], rfl⟩

theorem resident_of_mem_stops {p : Nat} {b : StopBndl} (hb : b ∈ (w.stops p).elems) :
    Resident {} w (.stop, p) b.toOrderBndl :=
  resident_stop.mpr ⟨b, .inl hb, rfl⟩

include hi

/-- A resting limit order is found where its cache entry points. -/
theorem cached_limit {p : Nat} {b : LimitBndl} (hb : b ∈ (w.limits p).elems) :
    w.idCache b.id = some ⟨.limit, p⟩ ∧ Chain.findLimit (w.limits p).elems b.id = some b := by
  constructor
  · obtain ⟨⟨ty, q⟩, hc, heq⟩ := (resident_of_mem_limits hb).cached hi
    obtain ⟨hty, rfl⟩ := Prod.mk.inj heq
    cases ty with
    | limit => exact hc
    | _ => cases hty
  · have hn : ((w.limitIds p).filter (· ∉ Flight.spentAt {} p)).Nodup :=
      hi.cabinet.nodup (.limit, p)
    rw [Flight.spentAt_of_none rfl] at hn
    have hn' : (w.limitIds p).Nodup := by simpa using hn
    exact Chain.findLimit_of_mem hn' hb

theorem cached_stop {p : Nat} {b : StopBndl} (hb : b ∈ (w.stops p).elems) :
    w.idCache b.id = some ⟨.stop, p⟩ ∧ Chain.findStop (w.stops p).elems b.id = some b := by
  constructor
  · obtain ⟨⟨ty, q⟩, hc, heq⟩ := (resident_of_mem_stops hb).cached hi
    obtain ⟨hty, rfl⟩ := Prod.mk.inj heq
    cases ty with
    | stop => exact hc
    | _ => cases hty
  · have hn : (w.stopIds p ++ Flight.detachedAt {} p).Nodup := hi.cabinet.nodup (.stop, p)
    exact Chain.findStop_of_mem (List.nodup_append.mp hn).1 hb

include hfree

/-- Without AONs a cached order is in a limit or a stop chain. -/
theorem rests_of_cached {id : Nat} {c : ChainIterWrap} (hc : w.idCache id = some c) :
    (∃ b ∈ (w.limits c.p).elems, b.id = id ∧ c.type = .limit) ∨
      ∃ b ∈ (w.stops c.p).elems, b.id = id ∧ c.type = .stop := by
  rcases hi.resident hc with ⟨b, hb, hid⟩ | ⟨d, hd, -⟩
  · obtain ⟨ty, p⟩ := c
    cases ty with
    | limit =>
      obtain ⟨x, hx, -, rfl⟩ := resident_limit.mp hb
      exact .inl ⟨x, hx, hid, rfl⟩
    | stop =>
      obtain ⟨x, hx | hx, rfl⟩ := resident_stop.mp hb
      · exact .inr ⟨x, hx, hid, rfl⟩
      · cases hx
    | aonBuy | aonSell =>
      obtain ⟨buys, x, hx, -⟩ := resident_aon.mp hb
      rw [hfree.aons] at hx
      cases hx
  · cases hd

theorem linkedParams_ok {loc : OrderLink} (h : w.idCache loc.id ≠ none) :
    ∃ op, w.linkedParams loc = .ok op := by
  obtain ⟨c, hc⟩ := Option.ne_none_iff_exists'.mp h
  have hof : w.linkedParams loc = w.asPriceParams c loc.id := by
    unfold Sob.linkedParams
    rw [hc]
  rw [hof]
  unfold Sob.asPriceParams
  rcases rests_of_cached hi hfree hc with ⟨b, hb, hid, hty⟩ | ⟨b, hb, hid, hty⟩
  · rw [hty, ← hid, (cached_limit hi hb).2]
    exact ⟨_, rfl⟩
  · rw [hty, ← hid, (cached_stop hi hb).2]
    exact ⟨_, rfl⟩

omit hi hfree in
theorem linkedParams_gone {loc : OrderLink} (h : w.idCache loc.id = none) :
    w.linkedParams loc = .error (.orderNotInCache loc.id) := by
  unfold Sob.linkedParams
  rw [h]
  rfl

/-- The ticket of an order can be read if what it refers to is there. -/
theorem bndlToAot_ok_iff (b : OrderBndl) : (∃ aot, w.bndlToAot b = .ok aot) ↔ w.Known b := by
  have hlinked : ∀ (loc : OrderLink) (aot : AdvancedOrderTicket), (∃ aot', (do
      let order1 ← w.linkedParams loc
      return { aot with order1 := some order1 } : Except Err AdvancedOrderTicket) = .ok aot') ↔
        w.idCache loc.id ≠ none := fun loc aot => by
    constructor
    · rintro ⟨aot', h⟩ hn
      rw [linkedParams_gone hn] at h
      cases h
    · intro hne
      obtain ⟨op, hop⟩ := linkedParams_ok hi hfree hne
      rw [hop]
      exact ⟨_, rfl⟩
  have hok : ∀ aot : AdvancedOrderTicket,
      (∃ aot', (Except.ok aot : Except Err AdvancedOrderTicket) = .ok aot') ↔ True := fun aot =>
    iff_true_intro ⟨aot, rfl⟩
  have herr : (∃ aot', (Except.error .undefinedBehaviour : Except Err AdvancedOrderTicket) =
      .ok aot') ↔ False := iff_false_intro fun ⟨_, h⟩ => by cases h
  obtain ⟨id, sz, cb, condition, trigger, payload⟩ := b
  unfold Sob.bndlToAot Sob.Known
  cases condition <;> cases payload <;>
    first | exact hlinked _ _ | exact hok _ | exact herr

/-- The null info, or no answer at all, is given where the ticket cannot be read. -/
theorem limitInfo_iff (hu : w.Uncrossed) {p : Nat} {b : LimitBndl} (hb : b ∈ (w.limits p).elems) :
    (∃ aot, w.getOrderInfo b.id = .ok ⟨.limit, b.side, w.itop p, 0, b.sz, aot⟩) ↔
      w.Known b.toOrderBndl := by
  obtain ⟨hc, hfind⟩ := cached_limit hi hb
  have hside : w.isBuyOrder p = b.side := by
    unfold Sob.isBuyOrder
    rcases hu.sides p (List.ne_nil_of_mem hb) with ⟨hp, hs⟩ | ⟨hp, hs⟩
    · rw [hs b hb]
      exact decide_eq_true (hp.trans_lt hu.bid_lt_ask)
    · rw [hs b hb]
      exact decide_eq_false (not_lt.mpr hp)
  have hinfo : w.asOrderInfo b.id = (w.bndlToAot b.toOrderBndl).bind fun aot =>
      .ok ⟨.limit, b.side, w.itop p, 0, b.sz, aot⟩ := by
    unfold Sob.asOrderInfo
    rw [hc]
    dsimp only
    rw [hfind, hside]
    rfl
  rw [← bndlToAot_ok_iff hi hfree]
  unfold Sob.getOrderInfo
  rw [hinfo]
  cases haot : w.bndlToAot b.toOrderBndl with
  | ok aot => exact iff_of_true ⟨aot, rfl⟩ ⟨aot, rfl⟩
  | error err =>
    refine iff_of_false (fun ⟨aot, h⟩ => ?_) fun ⟨aot, h⟩ => by cases h
    cases err <;> cases h

theorem stopInfo_iff {p : Nat} {b : StopBndl} (hb : b ∈ (w.stops p).elems) :
    (∃ aot, w.getOrderInfo b.id = .ok ⟨if b.limit ≠ 0 then .stopLimit else .stop, b.isBuy, b.limit,
      w.itop p, b.sz, aot⟩) ↔ w.Known b.toOrderBndl := by
  obtain ⟨hc, hfind⟩ := cached_stop hi hb
  have hinfo : w.asOrderInfo b.id = (w.bndlToAot b.toOrderBndl).bind fun aot =>
      .ok ⟨if b.limit ≠ 0 then .stopLimit else .stop, b.isBuy, b.limit, w.itop p, b.sz, aot⟩ := by
    unfold Sob.asOrderInfo
    rw [hc]
    dsimp only
    rw [hfind]
    rfl
  rw [← bndlToAot_ok_iff hi hfree]
  unfold Sob.getOrderInfo
  rw [hinfo]
  cases haot : w.bndlToAot b.toOrderBndl with
  | ok aot => exact iff_of_true ⟨aot, rfl⟩ ⟨aot, rfl⟩
  | error err =>
    refine iff_of_false (fun ⟨aot, h⟩ => ?_) fun ⟨aot, h⟩ => by cases h
    have hty : (if b.limit ≠ 0 then OrderType.stopLimit else .stop) ≠ .null := by split <;> simp
    cases err with
    | orderNotInCache id =>
      have h' := congrArg OrderInfo.type (Except.ok.inj h)
      exact hty h'.symm
    | _ => cases h

theorem nullInfo {id : Nat} (hl : ∀ p, ∀ b ∈ (w.limits p).elems, b.id ≠ id)
    (hs : ∀ p, ∀ b ∈ (w.stops p).elems, b.id ≠ id) : w.getOrderInfo id = .ok {} := by
  have hc : w.idCache id = none := by
    by_contra hne
    obtain ⟨c, hc⟩ := Option.ne_none_iff_exists'.mp hne
    rcases rests_of_cached hi hfree hc with ⟨b, hb, hid, -⟩ | ⟨b, hb, hid, -⟩
    · exact hl c.p b hb hid
    · exact hs c.p b hb hid
  unfold Sob.getOrderInfo Sob.asOrderInfo
  rw [hc]
  rfl

/-- The queries agree with the resting orders exactly when they can be answered. -/
theorem queriesAgree_iff (hinv : LimitInv w.limitView) (hbase : 1 ≤ w.base) :
    w.QueriesAgree ↔ w.Answerable := by
  have hu := hinv.uncrossed
  have hf := hfree.limits
  have hend : 1 ≤ w.end_ := by
    have := hu.bid_lt_ask
    have : w.ask ≤ w.end_ := hinv.ask_le_end
    omega
  constructor
  · intro h
    have hfits : w.restingTotal true + w.restingTotal false < 2 ^ 64 := h.total ▸ asSize_lt _
    refine ⟨hfits, fun side p hp => ?_, fun p b hb => ?_, fun p b hb => ?_⟩
    · by_contra hno
      cases side with
      | true => exact bidPrice_ne hu hf hfits hbase hp hno (h.bid.best p hp).1
      | false => exact askPrice_ne hu hf hfits hbase hp hno (h.ask.best p hp).1
    · exact (limitInfo_iff hi hfree hu hb).mp (h.limitInfo p b hb)
    · exact (stopInfo_iff hi hfree hb).mp (h.stopInfo p b hb)
  · intro h
    have hfits := h.fits
    exact
      { bid := ⟨fun p hp => bid_agrees hu hf hfits hp (h.best true p hp),
          fun hno => bid_none hu hno hend⟩
        ask := ⟨fun p hp => ask_agrees hu hf hfits hp (h.best false p hp),
          fun hno => ask_none hu hno hend⟩
        totalBid := totalBidSize_eq hu hf hfits
        totalAsk := totalAskSize_eq hu hf hfits
        total := totalSize_eq hu hf hfits
        bidDepth := fun depth _ => bidDepth_agrees hu hf hfits hinv.nonempty depth
        askDepth := fun _ hd => askDepth_agrees hu hf hfits hinv.nonempty hd
        marketDepth := fun _ hd => marketDepth_agrees hu hf hfits hinv.nonempty hd
        limitInfo := fun p b hb => (limitInfo_iff hi hfree hu hb).mpr (h.limits p b hb)
        stopInfo := fun p b hb => (stopInfo_iff hi hfree hb).mpr (h.stops p b hb)
        nullInfo := fun _ hl hs => nullInfo hi hfree hl hs }

end Info

/-! ## Runs -/

section Runs
variable {w w' : World}

theorem base_growBook (base : Int) (incr : Nat) (atBeg : Bool) (s : Sob) :
    (growBook base incr atBeg s).base = if incr = 0 then s.base else base := by
  by_cases hincr : incr = 0
  · rw [if_pos hincr]
    unfold growBook
    rw [if_pos hincr]
  · rw [if_neg hincr, growBook_of_ne hincr]
    rfl

/-- No book is grown below the first tick. -/
theorem Request.base_pos {r : Request} {f : Sob → Except Err Sob} (hact : r.action = .ok (.grow f))
    {s s' : Sob} (hs : f s = .ok s') (h : 1 ≤ s.base) : 1 ≤ s'.base := by
  cases r with
  | growBookAbove newMax =>
    cases hact
    unfold SimpleOrderbook.growBookAbove at hs
    dsimp only at hs
    split at hs
    · cases hs
    · cases hs
      split
      · rw [base_growBook]
        split <;> exact h
      · exact h
  | growBookBelow newMin =>
    cases hact
    unfold SimpleOrderbook.growBookBelow at hs
    dsimp only at hs
    split at hs
    · cases hs
      exact h
    have hnew : 1 ≤ if newMin < 1 then 1 else newMin := by split <;> omega
    generalize (if newMin < 1 then 1 else newMin) = newBase at hs hnew
    split at hs
    · cases hs
    · cases hs
      split
      · rw [base_growBook]
        split
        · exact h
        · exact hnew
      · exact h
  | _ =>
    repeat obtain ⟨_, -, hact⟩ := Except.bind_ok hact
    cases hact

theorem Closes.base_pos {r : Request} {o : Outcome} (h : Closes r w o w') (ho : o.Expected)
    (hb : 1 ≤ w.base) : 1 ≤ w'.base := by
  cases h with
  | refused => exact hb
  | rejected => exact hb
  | grown f hact hs => exact Request.base_pos hact hs hb
  | value _ hs =>
    have hbase : _ = w.base := congrArg Prod.fst hs.grid_eq
    exact hb.trans_eq hbase.symm
  | left _ hs herr =>
    cases hs with
    | undefined => exact absurd rfl herr
    | failed _ _ _ he => exact absurd ho (by simp [Outcome.Expected, he])
    | refused hs =>
      have hbase : _ = w.base := congrArg Prod.fst hs.grid_eq
      exact hb.trans_eq hbase.symm

theorem Run.base_pos {w₀ : World} {rs : List (Request × Outcome)} (h0 : Initial w₀)
    (h : Run w₀ rs w) (ho : ∀ ro ∈ rs, ro.2.Expected) : 1 ≤ w.base := by
  induction h with
  | nil =>
    obtain ⟨⟨base, incr, hbase, -, hw⟩, -⟩ := h0
    rw [hw]
    exact hbase
  | @snoc rs w w' r o hrun hw ih =>
    obtain ⟨hwf, hq⟩ := hrun.wellFormed h0
    exact (hw.closes hwf hq).base_pos (ho (r, o) (by simp)) (ih fun ro hro => ho ro (by simp [hro]))

/-- After a run without all-or-none orders, with prices on the book, the queries agree with the resting
orders exactly when all sizes together fit a `size_t`, the best levels hold an order with a size and no
resting order refers to one that is gone. -/
theorem AddressedRun.queries_agree_iff {w₀ : World} {rs : List (Request × Outcome)} (h0 : Initial w₀)
    (h : AddressedRun w₀ rs w) (hoff : w.OnBook) (hr : ∀ ro ∈ rs, ro.1.NotAON)
    (ho : ∀ ro ∈ rs, ro.2.Expected) : w.QueriesAgree ↔ w.Answerable := by
  have hrun := h.exact hoff
  obtain ⟨hfree, hzero⟩ := hrun.aonFree h0 hr ho
  have hfiled := (hrun.tidy h0 ho hzero).filed
  exact queriesAgree_iff hfiled hfree (hrun.limitInv h0) (hrun.base_pos h0 ho)

/-- A buy, a sell and a stop rest; there are no other orders. -/
theorem queries_agree_iff_four : ∃ rs w, AddressedRun (World.create 1 20) rs w ∧
    rs.map (·.1) = [.limit true 5 5, .limit false 9 3, .stop false 4 2] ∧
    (w.bidPrice, w.askPrice, w.totalSize) = (5, 9, 8) ∧ (w.QueriesAgree ↔ w.Answerable) := by
  obtain ⟨rs, w, h, hoff, hrs, hw⟩ := AddressedRun.exists_of_exec 0
    [.limit true 5 5, .limit false 9 3, .stop false 4 2]
    (f := fun os w => (os.all Outcome.isValue, w.bidPrice, w.askPrice, w.totalSize))
    (v := (true, 5, 9, 8)) (w := World.create 1 20) (by decide +kernel)
  obtain ⟨hall, hq⟩ := Prod.mk.inj hw
  have hr : ∀ ro ∈ rs, ro.1.NotAON := fun ro hro => by
    have hm : ro.1 ∈ rs.map (·.1) := List.mem_map_of_mem hro
    rw [hrs] at hm
    simp only [List.mem_cons, List.not_mem_nil, or_false] at hm
    rcases hm with hm | hm | hm <;> rw [hm] <;> exact fun h => by cases h
  have ho : ∀ ro ∈ rs, ro.2.Expected := fun ro hro =>
    Outcome.expected_of_isValue (List.all_eq_true.mp hall ro.2 (List.mem_map_of_mem hro))
  exact ⟨rs, w, h, hrs, hq, h.queries_agree_iff (initial_create (by decide) (by decide)) hoff hr ho⟩

/-- A limit order whose one-cancels-other ticket has no trigger. -/
def untriggered : AdvancedOrderTicket :=
  { condition := .oneCancelsOther, order1 := some (.byPrice false 5 8 0) }

/-- Order 1 fills without cancelling order 2, whose link then leads nowhere. -/
theorem not_queries_agree : ∃ rs w, AddressedRun (World.create 1 20) rs w ∧ w.OnBook ∧
    rs.map (·.1) = [.limit false 6 5 untriggered, .limit true 6 5] ∧
    (∀ ro ∈ rs, ro.1.NotAON) ∧ (∀ ro ∈ rs, ro.2.Expected) ∧ ¬ w.QueriesAgree := by
  obtain ⟨rs, w, h, hoff, hrs, hw⟩ := AddressedRun.exists_of_exec 5
    [.limit false 6 5 untriggered, .limit true 6 5]
    (f := fun os w => (os.all Outcome.isValue, w.limitIds 8, w.getOrderInfo 2))
    (v := (true, [2], .ok {})) (w := World.create 1 20) (by decide +kernel)
  obtain ⟨hall, hids, hinfo⟩ : _ ∧ _ ∧ _ := by simpa only [Prod.mk.injEq] using hw
  refine ⟨rs, w, h, hoff, hrs, fun ro hro => ?_, fun ro hro => ?_, fun hagree => ?_⟩
  · have hm : ro.1 ∈ rs.map (·.1) := List.mem_map_of_mem hro
    rw [hrs] at hm
    simp only [List.mem_cons, List.not_mem_nil, or_false] at hm
    rcases hm with hm | hm <;> rw [hm] <;> exact fun h => by cases h
  · exact Outcome.expected_of_isValue (List.all_eq_true.mp hall ro.2 (List.mem_map_of_mem hro))
  · have hm : 2 ∈ w.limitIds 8 := by simp [hids]
    obtain ⟨b, hb, hid⟩ := List.mem_map.mp hm
    obtain ⟨aot, hlim⟩ := hagree.limitInfo 8 b hb
    rw [hid, hinfo] at hlim
    cases hlim

end Runs
end SimpleOrderbook
