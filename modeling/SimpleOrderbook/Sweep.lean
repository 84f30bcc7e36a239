import SimpleOrderbook.Trading
import SimpleOrderbook.PriceTime

/-!
# A sweep over plain limit orders

In a book of limit orders without conditions, with no all-or-none order and no stop anywhere,
`_trade` fills the incoming order from the orders of the other side, by price and then by arrival.
-/
namespace SimpleOrderbook
open Hoare

/-! ## The sides of the book as lists -/

/-- An order of a limit chain as an entry of the list of its side. -/
def LimitBndl.entry (price : Int) (b : LimitBndl) : PriceTime.Order Int := ⟨b.id, price, b.sz⟩

/-- The levels from the best price of a side outwards. -/
def Sob.ladder (s : Sob) (buy : Bool) : List Nat :=
  if buy then (List.range' beg (s.end_ - beg)).reverse else List.range' beg (s.end_ - beg)

/-- The orders of one side at level `p`, by arrival. -/
def Sob.queue (s : Sob) (buy : Bool) (p : Nat) : List (PriceTime.Order Int) :=
  ((s.limits p).elems.filter (·.side = buy)).map (LimitBndl.entry (s.itop p))

/-- The orders of one side, by price and then by arrival. -/
def Sob.side (s : Sob) (buy : Bool) : List (PriceTime.Order Int) :=
  (s.ladder buy).flatMap (s.queue buy)

/-- The trade an event is. -/
def Event.asTrade : Event → Option (PriceTime.Trade Int)
  | .trade price _ size id1 id2 => some ⟨id1, id2, price, size⟩
  | _ => none

/-- The trades made so far, in their order. -/
def World.trades (w : World) : List (PriceTime.Trade Int) := w.trace.reverse.filterMap Event.asTrade

/-! ## The fills of one chain -/

/-- The orders of a chain that trade with an order of size `n`, what rests of them, and what is left
of the order. -/
def Chain.consume : List LimitBndl → Nat → List (Nat × Nat) × List LimitBndl × Nat
  | [], n => ([], [], n)
  | b :: bs, n =>
    if n = 0 then ([], b :: bs, 0)
    else if n < b.sz then ([(b.id, n)], { b with sz := b.sz - n } :: bs, 0)
    else
      let r := consume bs (n - b.sz)
      ((b.id, b.sz) :: r.1, r.2)

section Consume
variable {l : List LimitBndl} {n : Nat}

theorem fill_eq_consume (ok : Int → Bool) (price : Int) (hok : ok price = true) (l : List LimitBndl)
    (n : Nat) : PriceTime.fill ok (l.map (LimitBndl.entry price)) n =
      ((Chain.consume l n).1.map (fun f => ⟨f.1, price, f.2⟩),
        (Chain.consume l n).2.1.map (LimitBndl.entry price), (Chain.consume l n).2.2) := by
  induction l generalizing n with
  | nil => rfl
  | cons b bs ih =>
    rw [List.map_cons]
    simp only [PriceTime.fill, Chain.consume, show (b.entry price).price = price from rfl, hok,
      Bool.true_eq_false, or_false, show (b.entry price).size = b.sz from rfl]
    split
    next h => simp [h, LimitBndl.entry]
    next =>
      split
      next => rfl
      next =>
        rw [ih]
        rfl

/-- What rests of a chain: each order is one of before, but for its size. -/
theorem mem_consume {x : LimitBndl} (h : x ∈ (Chain.consume l n).2.1) (hpos : ∀ b ∈ l, b.sz ≠ 0) :
    x.sz ≠ 0 ∧ ∃ b ∈ l, b.id = x.id ∧ b.side = x.side ∧ b.condition = x.condition := by
  induction l generalizing n with
  | nil => cases h
  | cons b bs ih =>
    simp only [Chain.consume] at h
    split at h
    next => exact ⟨hpos x h, x, h, rfl, rfl, rfl⟩
    next =>
      split at h
      next hlt =>
        rcases List.mem_cons.mp h with rfl | h
        · exact ⟨by change b.sz - n ≠ 0; omega, b, List.mem_cons_self, rfl, rfl, rfl⟩
        · have hm := List.mem_cons_of_mem b h
          exact ⟨hpos x hm, x, hm, rfl, rfl, rfl⟩
      next =>
        obtain ⟨hsz, y, hy, hrest⟩ := ih h fun z hz => hpos z (List.mem_cons_of_mem _ hz)
        exact ⟨hsz, y, List.mem_cons_of_mem _ hy, hrest⟩

theorem consume_ids (l : List LimitBndl) (n : Nat) :
    ((Chain.consume l n).2.1.map (·.id)).Sublist (l.map (·.id)) := by
  induction l generalizing n with
  | nil => exact .slnil
  | cons b bs ih =>
    simp only [Chain.consume]
    split
    next => exact .refl _
    next =>
      split
      next => exact .refl _
      next => exact (ih _).cons _

/-- Nothing is left of the order or nobody is left in the chain. -/
theorem consume_left : (Chain.consume l n).2.2 = 0 ∨ (Chain.consume l n).2.1 = [] := by
  induction l generalizing n with
  | nil => exact .inr rfl
  | cons b bs ih =>
    simp only [Chain.consume]
    split
    next => exact .inl rfl
    next =>
      split
      next => exact .inl rfl
      next => exact ih

end Consume

/-! ## `_hit_chain` -/

/-- What a sweep over limit orders does not touch. -/
def Sob.others (s : Sob) :=
  (s.base, s.end_, s.aons, s.stops, (s.lowBuyStop, s.highSellStop),
    (s.lowBuyAon, s.highBuyAon, s.lowSellAon, s.highSellAon),
    (s.trailingBuyStops, s.trailingSellStops), s.internalOrderQueue, s.lastId)

/-- The last trade is at a level of the book, or there is none yet. -/
def Sob.LastOk (s : Sob) : Prop := s.last < s.end_ ∧ (s.needCheckForStops = true → 0 < s.last)

/-- Order `id` traded at level `p`, and the orders `gone` left the cache. -/
structure Struck (p id : Nat) (w w' : World) (fills : List (Nat × Nat)) (gone : List Nat) :
    Prop where
  others : w'.others = w.others
  inside : (w'.bid, w'.ask, w'.lowBuyLimit, w'.highSellLimit) =
    (w.bid, w.ask, w.lowBuyLimit, w.highSellLimit)
  limits : ∀ q, q ≠ p → w'.limits q = w.limits q
  trades : w'.trades = w.trades ++ fills.map fun f => ⟨id, f.1, w.itop p, f.2⟩
  cache : ∀ i, w'.idCache i = if i ∈ gone then none else w.idCache i
  last : 0 < p → p < w.end_ → w.LastOk → w'.LastOk

namespace Struck
variable {p id : Nat} {w w' w'' : World} {fills fills' : List (Nat × Nat)} {gone gone' : List Nat}

theorem refl (w : World) : Struck p id w w [] [] :=
  ⟨rfl, rfl, fun _ _ => rfl, by simp, fun _ => by simp, fun _ _ h => h⟩

theorem end_eq (h : Struck p id w w' fills gone) : w'.end_ = w.end_ := congrArg (·.2.1) h.others

theorem itop_eq (h : Struck p id w w' fills gone) (q : Nat) : w'.itop q = w.itop q := by
  have : w'.base = w.base := congrArg (·.1) h.others
  unfold Sob.itop
  rw [this]

theorem trans (h : Struck p id w w' fills gone) (h' : Struck p id w' w'' fills' gone') :
    Struck p id w w'' (fills ++ fills') (gone ++ gone') := by
  refine ⟨h'.others.trans h.others, h'.inside.trans h.inside, fun q hq => ?_, ?_, fun i => ?_,
    fun h0 h1 hl => h'.last h0 (h.end_eq ▸ h1) (h.last h0 h1 hl)⟩
  · rw [h'.limits q hq, h.limits q hq]
  · rw [h'.trades, h.trades, h.itop_eq, List.map_append, List.append_assoc]
  · rw [h'.cache, h.cache]
    by_cases hi : i ∈ gone <;> by_cases hi' : i ∈ gone' <;> simp [hi, hi']

end Struck

section Traded
variable {w : World} {p : Nat}

theorem others_setLimits (s : Sob) (p : Nat) (c : ChainManager LimitBndl) :
    (s.setLimits p c).others = s.others := by
  have ha : (s.setLimits p c).aons = s.aons := by
    funext buys q
    exact Sob.aons_setLimits ..
  have hs : (s.setLimits p c).stops = s.stops := by
    funext q
    exact Sob.stops_setLimits ..
  unfold Sob.others
  rw [ha, hs]
  rfl

theorem trades_onSob (w : World) (f : Sob → Sob) : (w.onSob f).trades = w.trades := rfl

theorem trades_log (w : World) {ev : Event} (h : ev.asTrade = none) : (w.log ev).trades = w.trades := by
  unfold World.trades
  simp [World.log, h]

/-- Chain `p` is rewritten. -/
theorem Struck.setLimits (w : World) (p id : Nat) (c : ChainManager LimitBndl) :
    Struck p id w (w.onSob (·.setLimits p c)) [] [] :=
  ⟨others_setLimits _ _ _, rfl, fun q hq => (Sob.limits_setLimits ..).trans (if_neg hq),
    (trades_onSob ..).trans (by simp), fun _ => (if_neg List.not_mem_nil).symm, fun _ _ h => h⟩

theorem Struck.log (w : World) (p id : Nat) (ev : Event) (h : ev.asTrade = none) :
    Struck p id w (w.log ev) [] [] :=
  ⟨rfl, rfl, fun _ _ => rfl, (trades_log w h).trans (by simp),
    fun _ => (if_neg List.not_mem_nil).symm, fun _ _ h => h⟩

theorem Struck.cacheErase (w : World) (p id i : Nat) :
    Struck p id w (w.onSob (·.cacheErase i)) [] [i] :=
  ⟨rfl, rfl, fun _ _ => rfl, (trades_onSob ..).trans (by simp), fun j => by
    rw [World.toSob_onSob, Sob.idCache_cacheErase]
    simp only [List.mem_singleton], fun _ _ h => h⟩

theorem Struck.traded (w : World) (p n id i : Nat) (cb cb' : OrderExecCbBndl) :
    Struck p id w (w.traded p n id i cb cb') [(i, n)] [] := by
  obtain ⟨_, _, h⟩ := w.traded_eq p n id i cb cb'
  refine ⟨?_, ?_, fun q _ => ?_, ?_, fun j => ?_, fun h0 h1 _ => ?_⟩
  · rw [h]
    rfl
  · rw [h]
  · rw [h]
    rfl
  · unfold World.trades
    rw [trace_traded]
    simp only [List.reverse_cons, List.filterMap_append, List.append_assoc]
    rfl
  · rw [h]
    simp
  · rw [h]
    exact ⟨h1, fun _ => h0⟩

end Traded

/-- The bulk erase takes the orders in front of the last one visited, and that one if nothing is
left of it. -/
theorem eraseVisited_append {done todo : List LimitBndl} {b : LimitBndl}
    (h : ∀ x ∈ done, x.id ≠ b.id) :
    eraseVisited b.id (done ++ b :: todo) = if b.sz = 0 then todo else b :: todo := by
  have hpos : ∀ x ∈ done, decide (x.id ≠ b.id) = true := fun x hx => decide_eq_true (h x hx)
  unfold eraseVisited
  rw [List.dropWhile_append_of_pos hpos]
  simp

theorem updateLimit_append {f : LimitBndl → LimitBndl} {done todo : List LimitBndl} {b : LimitBndl}
    (h : ∀ x ∈ done, x.id ≠ b.id) :
    Chain.updateLimit f b.id (done ++ b :: todo) = done ++ f b :: todo := by
  induction done with
  | nil => simp [Chain.updateLimit]
  | cons x done ih =>
    have hx := h x List.mem_cons_self
    rw [List.cons_append, Chain.updateLimit, if_neg hx, ih fun y hy => h y (List.mem_cons_of_mem _ hy)]
    rfl

theorem findLimit_append {done todo : List LimitBndl} {b : LimitBndl}
    (h : ∀ x ∈ done, x.id ≠ b.id) : Chain.findLimit (done ++ b :: todo) b.id = some b := by
  unfold Chain.findLimit
  rw [List.find?_append, List.find?_eq_none.mpr fun x hx => by simpa using h x hx]
  simp

section Hit
variable {p id : Nat} {cb : OrderExecCbBndl} {w : World}

/-- A limit order without conditions. -/
def LimitBndl.Basic (b : LimitBndl) : Prop := b.condition = .none ∧ b.sz ≠ 0

theorem wp_handleFill_basic {Q : Unit → World → Prop} {E : Err → World → Prop} {b : LimitBndl}
    {amount : Nat} (hb : b.condition = .none) (h : Q () w) : wp (handleFill p b amount) Q E w := by
  have hadv : b.isAdvanced = false := by simp [OrderBndl.isAdvanced, hb]
  unfold handleFill
  rw [hadv]
  exact wp_pure h

/-- One order of the chain trades, and what is left of it stays in the chain. -/
theorem wp_hitOrder_basic {b : LimitBndl} {done todo : List LimitBndl} {size : Nat}
    (hl : w.limits p = some (done ++ b :: todo)) (hdone : ∀ x ∈ done, x.id ≠ b.id)
    (hb : b.Basic) : wp (hitOrder p id cb b size) (fun r w' => r = size - min size b.sz ∧
      w'.limits p = some (done ++ { b with sz := b.sz - min size b.sz } :: todo) ∧
      Struck p id w w' [(b.id, min size b.sz)] (if b.sz - min size b.sz = 0 then [b.id] else []))
      (fun _ _ => False) w := by
  let amount := min size b.sz
  let b' : LimitBndl := { b with sz := b.sz - amount }
  let w1 := w.traded p amount id b.id cb b.cb
  let w2 := w1.onSob fun s => s.updateLimit p b.id fun x => { x with sz := x.sz - amount }
  have hAON : b.isAON = false := by simp [OrderBndl.isAON, hb.1]
  have h1 : w1.limits p = some (done ++ b :: todo) := by
    rw [limits_of_files (files_traded _ _ _ _ _ _ _), hl]
  have h2 : w2.toSob = w1.setLimits p (some (done ++ b' :: todo)) := by
    change w1.setLimits p ((w1.limits p).map (Chain.updateLimit _ b.id)) = _
    rw [h1, Option.map_some, updateLimit_append hdone]
  have hw2 : w2 = w1.onSob (·.setLimits p (some (done ++ b' :: todo))) := by
    exact congrArg (fun t : Sob => ({ w1 with toSob := t } : World)) h2
  have hl2 : w2.limits p = some (done ++ b' :: todo) := by
    rw [h2, Sob.limits_setLimits, if_pos rfl]
  have hs2 : Struck p id w w2 [(b.id, amount)] [] := by
    have := (Struck.traded w p amount id b.id cb b.cb).trans
      (hw2 ▸ Struck.setLimits w1 p id (some (done ++ b' :: todo)))
    simpa using this
  unfold hitOrder
  refine wp_ite (fun h => absurd h.1 (by simp [hAON])) fun _ => ?_
  refine wp_tradeHasOccured_bind ((wp_handleFill_basic hb.1 rfl).bind (R := fun _ w' => w' = w1) ?_)
  rintro _ _ rfl
  refine wp_modifySob_bind (wp_getSob_bind ?_)
  have hfind : Chain.findLimit (w2.limits p).elems b.id = some b' := by
    rw [hl2]
    exact findLimit_append (b := b') hdone
  split
  next hnone => cases hnone.symm.trans hfind
  next x hx =>
    obtain rfl : x = b' := Option.some.inj (hx.symm.trans hfind)
    refine wp_ite (fun h => ?_) fun h => wp_pure ⟨rfl, hl2, ?_⟩
    · refine wp_record_bind (wp_modifySob_bind (wp_pure ⟨rfl, hl2, ?_⟩))
      rw [if_pos h]
      have := (hs2.trans (Struck.log w2 p id (.filled b.id) rfl)).trans
        (Struck.cacheErase (w2.log (.filled b.id)) p id b.id)
      simpa using this
    · rw [if_neg h]
      exact hs2

/-- The loop over the orders `todo` still to visit, behind those of which nothing is left. -/
theorem wp_hitOrders_basic {done todo : List LimitBndl} {pos : Option Nat} {size : Nat}
    (hl : w.limits p = some (done ++ todo)) (hnodup : ((done ++ todo).map (·.id)).Nodup)
    (hbasic : ∀ b ∈ todo, b.Basic)
    (hpos : todo = [] ∨ size = 0 → ∃ q, pos = some q ∧ eraseVisited q (done ++ todo) = todo) :
    wp (hitOrders p id cb (todo.map (·.id)) pos size) (fun r w' =>
      r.1 = (Chain.consume todo size).2.2 ∧ (∃ q l, r.2 = some q ∧ w'.limits p = some l ∧
        eraseVisited q l = (Chain.consume todo size).2.1) ∧
      ∃ gone, Struck p id w w' (Chain.consume todo size).1 gone ∧ ∀ i, i ∈ gone ↔
        i ∈ todo.map (·.id) ∧ i ∉ (Chain.consume todo size).2.1.map (·.id))
      (fun _ _ => False) w := by
  induction todo generalizing w done pos size with
  | nil =>
    obtain ⟨q, rfl, hq⟩ := hpos (.inl rfl)
    exact wp_pure ⟨rfl, ⟨q, _, rfl, hl, hq⟩, [], .refl w, fun i => by simp⟩
  | cons b todo ih =>
    have hdone : ∀ x ∈ done, x.id ≠ b.id := fun x hx heq => by
      rw [List.map_append] at hnodup
      exact List.disjoint_of_nodup_append hnodup (List.mem_map_of_mem hx) (heq ▸ List.mem_cons_self)
    have hb : b.id ∉ todo.map (·.id) := by
      rw [List.map_append, List.nodup_append] at hnodup
      exact (List.nodup_cons.mp hnodup.2.1).1
    unfold hitOrders
    refine wp_ite (fun h0 => ?_) fun h0 => wp_getSob_bind ?_
    · obtain ⟨q, rfl, hq⟩ := hpos (.inr h0)
      subst h0
      exact wp_pure ⟨rfl, ⟨q, _, rfl, hl, hq⟩, [], .refl w, fun i =>
        ⟨fun h => (by cases h), fun h => absurd h.1 h.2⟩⟩
    rw [hl, ChainManager.elems_some, findLimit_append hdone]
    refine (wp_hitOrder_basic hl hdone (hbasic b List.mem_cons_self)).bind ?_
    rintro size' w1 ⟨rfl, hl1, hs1⟩
    by_cases hlt : size < b.sz
    · -- the incoming order is used up, and the loop ends
      have hmin : min size b.sz = size := by omega
      rw [hmin] at hl1 hs1
      rw [if_neg (by omega)] at hs1
      have hend : ∀ ids, hitOrders p id cb ids (some b.id) 0 = pure (0, some b.id) := by
        intro ids
        cases ids <;> rfl
      rw [hmin, Nat.sub_self, hend]
      refine wp_pure ⟨?_, ⟨b.id, _, rfl, hl1, ?_⟩, [], ?_, fun i => ?_⟩ <;>
        simp only [Chain.consume, if_neg h0, if_pos hlt]
      · rw [eraseVisited_append (b := { b with sz := b.sz - size }) hdone, if_neg (by dsimp only; omega)]
      · exact hs1
      · exact ⟨fun h => (by cases h), fun h => absurd h.1 h.2⟩
    · have hmin : min size b.sz = b.sz := by omega
      rw [hmin] at hl1 hs1 ⊢
      rw [if_pos (Nat.sub_self _)] at hs1
      have hl1' : w1.limits p = some ((done ++ [{ b with sz := b.sz - b.sz }]) ++ todo) := by
        rw [hl1, List.append_assoc]
        rfl
      have hids : (done ++ [{ b with sz := b.sz - b.sz }] ++ todo).map (fun x : LimitBndl => x.id) =
          (done ++ b :: todo).map (fun x => x.id) := by simp
      refine (ih hl1' (hids ▸ hnodup) (fun x hx => hbasic x (List.mem_cons_of_mem _ hx))
        fun _ => ⟨b.id, rfl, ?_⟩).mono ?_ fun _ _ h => h
      · rw [List.append_assoc]
        refine (eraseVisited_append (b := { b with sz := b.sz - b.sz }) hdone).trans ?_
        exact if_pos (Nat.sub_self _)
      · rintro r w2 ⟨hr, ⟨q, l, hq, hl2, he⟩, gone, hs2, hgone⟩
        simp only [Chain.consume, if_neg h0, if_neg hlt]
        refine ⟨hr, ⟨q, l, hq, hl2, he⟩, [b.id] ++ gone, hs1.trans hs2, fun i => ?_⟩
        have hrest : b.id ∉ (Chain.consume todo (size - b.sz)).2.1.map (·.id) := fun hm => by
          obtain ⟨x, hx, hid⟩ := List.mem_map.mp hm
          obtain ⟨-, y, hy, hyid, -⟩ := mem_consume hx fun z hz =>
            (hbasic z (List.mem_cons_of_mem _ hz)).2
          exact hb (List.mem_map.mpr ⟨y, hy, hyid.trans hid⟩)
        rw [List.mem_append, hgone, List.mem_singleton, List.map_cons, List.mem_cons]
        constructor
        · rintro (rfl | h)
          · exact ⟨.inl rfl, hrest⟩
          · exact ⟨.inr h.1, h.2⟩
        · rintro ⟨rfl | h, h'⟩
          · exact .inl rfl
          · exact .inr ⟨h, h'⟩

/-- `_hit_chain` fills from the front of a chain of limit orders without conditions. -/
theorem wp_hitChain_basic {l : List LimitBndl} {size : Nat} (hl : w.limits p = some l)
    (hne : l ≠ []) (hnodup : (l.map (·.id)).Nodup) (hbasic : ∀ b ∈ l, b.Basic) (h0 : size ≠ 0) :
    wp (hitChain p id size cb) (fun r w' => r.1 = (Chain.consume l size).2.2 ∧
      r.2 = (Chain.consume l size).2.1.isEmpty ∧
      w'.limits p = some (Chain.consume l size).2.1 ∧
      ∃ gone, Struck p id w w' (Chain.consume l size).1 gone ∧ ∀ i, i ∈ gone ↔
        i ∈ l.map (·.id) ∧ i ∉ (Chain.consume l size).2.1.map (·.id))
      (fun _ _ => False) w := by
  have hlog := Struck.log w p id (.hitChain w.toSob p size) rfl
  unfold hitChain
  refine wp_getSob_bind (wp_record_bind ?_)
  rw [hl, ChainManager.elems_some]
  refine (@wp_hitOrders_basic p id cb (w.log _) [] l none size hl hnodup hbasic ?_).bind ?_
  · rintro (h | h)
    · exact absurd h hne
    · exact absurd h h0
  rintro ⟨_, pos⟩ w1 ⟨rfl, ⟨q, l1, rfl, hl1, he⟩, gone, hs, hgone⟩
  refine wp_getSob_bind ?_
  rw [hl1]
  refine wp_getSob_bind (wp_record_bind (wp_modifySob_bind
    (wp_pure ⟨rfl, ?_, ?_, gone, ?_, hgone⟩)))
  · rw [← he]
  · rw [← he, World.toSob_onSob, Sob.limits_setLimits, if_pos rfl]
  · have := ((hlog.trans hs).trans (Struck.log w1 p id (.hitChainEnd w1.toSob p q) rfl)).trans
      (Struck.setLimits _ p id (some (eraseVisited q l1)))
    simpa using this

end Hit

/-! ## The lists of the two sides -/

section Sides
variable {s s' : Sob} {buy : Bool} {p : Nat}

theorem Sob.itop_le_itop {q : Nat} (hp : beg ≤ p) (hq : beg ≤ q) :
    s.itop p ≤ s.itop q ↔ p ≤ q := by
  rw [s.itop_of_beg_le hp, s.itop_of_beg_le hq]
  omega

theorem ladder_pairwise (s : Sob) (buy : Bool) :
    (s.ladder buy).Pairwise fun i j => if buy then j < i else i < j := by
  cases buy with
  | true =>
    exact List.pairwise_reverse.mpr (List.pairwise_lt_range' 1)
  | false => exact List.pairwise_lt_range' 1

theorem mem_ladder {q : Nat} : q ∈ s.ladder buy ↔ beg ≤ q ∧ q < s.end_ := by
  cases buy <;> simp [Sob.ladder, List.mem_range'_1] <;> omega

/-- The ladder from both sides of a level. -/
theorem exists_ladder (buy : Bool) (hp : beg ≤ p) (hpe : p < s.end_) : ∃ front back,
    s.ladder buy = front ++ p :: back ∧ (∀ q ∈ front, if buy then p < q else q < p) := by
  obtain ⟨front, back, h⟩ := List.append_of_mem (mem_ladder.mpr ⟨hp, hpe⟩ : p ∈ s.ladder buy)
  have := h ▸ ladder_pairwise s buy
  exact ⟨front, back, h, fun q hq =>
    (List.pairwise_append.mp this).2.2 q hq p List.mem_cons_self⟩

theorem queue_of_forall (h : ∀ b ∈ (s.limits p).elems, b.side = buy) :
    s.queue buy p = (s.limits p).elems.map (LimitBndl.entry (s.itop p)) := by
  unfold Sob.queue
  rw [List.filter_eq_self.mpr fun b hb => decide_eq_true (h b hb)]

theorem queue_eq_nil (h : ∀ b ∈ (s.limits p).elems, b.side ≠ buy) : s.queue buy p = [] := by
  unfold Sob.queue
  rw [List.filter_eq_nil_iff.mpr fun b hb => by simpa using h b hb]
  rfl

theorem queue_congr (hb : s'.base = s.base) (hl : s'.limits p = s.limits p) :
    s'.queue buy p = s.queue buy p := by
  unfold Sob.queue Sob.itop
  rw [hb, hl]

theorem mem_side {o : PriceTime.Order Int} : o ∈ s.side buy ↔
    ∃ p, (beg ≤ p ∧ p < s.end_) ∧
      ∃ b ∈ (s.limits p).elems, b.side = buy ∧ b.entry (s.itop p) = o := by
  unfold Sob.side Sob.queue
  simp only [List.mem_flatMap, mem_ladder, List.mem_map, List.mem_filter, decide_eq_true_eq,
    and_assoc]

/-- Only the chain of level `p` changes, which is the best level of the side. -/
theorem side_of_best (hp : beg ≤ p) (hpe : p < s.end_)
    (hfront : ∀ q, (if buy then p < q else q < p) → s.queue buy q = []) : ∃ back,
    ∀ s' : Sob, s'.base = s.base → s'.end_ = s.end_ → (∀ q, q ≠ p → s'.limits q = s.limits q) →
      s'.side buy = s'.queue buy p ++ back := by
  obtain ⟨front, back, hlad, hf⟩ := exists_ladder buy hp hpe
  refine ⟨back.flatMap (s.queue buy), fun s' hb he hl => ?_⟩
  have hnodup : (front ++ p :: back).Nodup := by
    rw [← hlad]
    exact (ladder_pairwise s buy).imp fun h => by
      split at h <;> omega
  unfold Sob.side
  have hl' : s'.ladder buy = front ++ p :: back := by
    rw [← hlad]
    unfold Sob.ladder
    rw [he]
  rw [hl', PriceTime.flatMap_of_eq_off hnodup fun j hj => queue_congr hb (hl j hj),
    List.flatMap_eq_nil_iff.mpr fun q hq => hfront q (hf q hq), List.nil_append]

/-- Level `p` has no order of the side, before and after. -/
theorem side_congr (hb : s'.base = s.base) (he : s'.end_ = s.end_)
    (hl : ∀ q, q ≠ p → s'.limits q = s.limits q) (h : s.queue buy p = []) (h' : s'.queue buy p = []) :
    s'.side buy = s.side buy := by
  unfold Sob.side
  have : s'.ladder buy = s.ladder buy := by
    unfold Sob.ladder
    rw [he]
  rw [this]
  refine List.flatMap_congr fun q _ => ?_
  by_cases hq : q = p
  · rw [hq, h, h']
  · exact queue_congr hb (hl q hq)

end Sides

/-! ## A book of plain limit orders -/

/-- No all-or-none order, no stop, no trailing stop and no internal order is anywhere. -/
structure Sob.AtRest (s : Sob) : Prop where
  aons : ∀ buys p, s.aons buys p = none
  stops : ∀ p, s.stops p = none
  stopWindows : s.lowBuyStop = s.end_ ∧ s.highSellStop = 0
  aonWindows : s.lowBuyAon = s.end_ ∧ s.highBuyAon = 0 ∧ s.lowSellAon = s.end_ ∧ s.highSellAon = 0
  trailing : s.trailingBuyStops = [] ∧ s.trailingSellStops = []
  queue : s.internalOrderQueue = []

/-- The book holds limit orders without conditions only. -/
structure Sob.Bare (s : Sob) : Prop where
  inv : LimitInv s.limitView
  basic : ∀ p, ∀ b ∈ (s.limits p).elems, b.Basic
  nodup : ∀ p, (s.limitIds p).Nodup
  filed : ∀ p, ∀ b ∈ (s.limits p).elems, s.idCache b.id = some ⟨.limit, p⟩
  cached : ∀ i c, s.idCache i = some c → c.type = .limit ∧ i ∈ s.limitIds c.p
  known : ∀ i c, s.idCache i = some c → 0 < i ∧ i ≤ s.lastId
  atRest : s.AtRest
  last : s.LastOk

/-- `_bid` or `_ask`. -/
def Sob.best (s : Sob) (bidSide : Bool) : Nat := if bidSide then s.bid else s.ask

section Bare
variable {s s' : Sob} {bidSide buy : Bool} {p : Nat}

theorem Sob.AtRest.of_others (h : s.AtRest) (ho : s'.others = s.others) : s'.AtRest := by
  simp only [Sob.others, Prod.mk.injEq] at ho
  obtain ⟨-, he, ha, hs, ⟨hs1, hs2⟩, ⟨ha1, ha2, ha3, ha4⟩, ⟨ht1, ht2⟩, hq, -⟩ := ho
  obtain ⟨h1, h1', h2, h3, h4, h5⟩ := h
  exact ⟨by rwa [ha], by rwa [hs], by rwa [hs1, hs2, he], by rwa [ha1, ha2, ha3, ha4, he], by rwa [ht1, ht2],
    by rwa [hq]⟩

theorem Sob.Bare.begin_eq (h : s.Bare) (bidSide : Bool) :
    Exec.Core.begin_ bidSide s = s.best bidSide := by
  obtain ⟨-, h2, h3, -⟩ := h.atRest.aonWindows
  have := h.inv.ask_le_end
  simp only [Sob.limitView] at this
  cases bidSide <;> simp only [Exec.Core.begin_, Sob.best, h2, h3, if_true, Bool.false_eq_true,
    if_false] <;> omega

theorem Sob.Bare.end_eq (h : s.Bare) (bidSide : Bool) : Exec.Core.end_ bidSide s =
    if bidSide then min s.lowBuyLimit s.end_ else s.highSellLimit := by
  obtain ⟨h1, -, -, h4⟩ := h.atRest.aonWindows
  cases bidSide <;> simp [Exec.Core.end_, h1, h4]

/-- The orders of a side stand at its best price or behind it. -/
theorem Sob.Bare.side_level (h : s.Bare) {b : LimitBndl} (hb : b ∈ (s.limits p).elems) :
    if b.side then p ≤ s.bid else s.ask ≤ p := h.inv.side p b hb

theorem Sob.Bare.behind (h : s.Bare) {b : LimitBndl} (hb : b ∈ (s.limits p).elems)
    (hside : b.side = bidSide) : Exec.Core.insideOf bidSide (s.best bidSide) p = true := by
  have := h.side_level hb
  subst hside
  cases hs : b.side <;> simpa [Exec.Core.insideOf, Sob.best, hs] using this

/-- The best price of a side, when there is one, is the level of a chain of that side. -/
theorem Sob.Bare.best_chain (h : s.Bare) (h0 : 0 < s.best bidSide)
    (he : s.best bidSide < s.end_) : ∃ l, s.limits (s.best bidSide) = some l ∧ l ≠ [] ∧
      ∀ b ∈ l, b.side = bidSide := by
  have hne : s.limits (s.best bidSide) ≠ none := by
    cases bidSide with
    | true => exact h.inv.bestBid.1 h0
    | false => exact h.inv.bestAsk.1 he
  obtain ⟨l, hl⟩ := Option.ne_none_iff_exists'.mp hne
  refine ⟨l, hl, fun hnil => h.inv.nonempty _ (by rw [← hnil]; exact hl), fun b hb => ?_⟩
  have hlt : s.bid < s.ask := h.inv.bid_lt_ask
  have := h.side_level (b := b) (by rw [hl]; exact hb)
  cases bidSide <;> cases hs : b.side <;> simp [Sob.best, hs] at this ⊢ <;> omega

/-- A best price that a level of the book accepts is itself a level of the book. -/
theorem Sob.Bare.best_inside {plev : Nat} (h : s.Bare)
    (hin : Exec.Core.insideOf bidSide (s.best bidSide) plev = true) (h1 : 0 < plev)
    (h2 : plev < s.end_) : 0 < s.best bidSide ∧ s.best bidSide < s.end_ := by
  have hlt : s.bid < s.ask := h.inv.bid_lt_ask
  have hle : s.ask ≤ s.end_ := h.inv.ask_le_end
  cases bidSide <;> simp [Exec.Core.insideOf, Sob.best] at hin ⊢ <;> omega

/-- In front of the best price no order of the side stands. -/
theorem Sob.Bare.queue_front (h : s.Bare) {q : Nat}
    (hq : if bidSide then s.best bidSide < q else q < s.best bidSide) : s.queue bidSide q = [] :=
  queue_eq_nil fun b hb hbs => by
    have := h.behind hb hbs
    cases bidSide <;> simp [Exec.Core.insideOf] at this hq <;> omega

end Bare

/-! ## `_trade` -/

/-- Order `id` swept the orders of one side. -/
structure Swept (bidSide : Bool) (id : Nat) (w w' : World) (fills : List (PriceTime.Fill Int)) :
    Prop where
  bare : w'.Bare
  others : w'.others = w.others
  trades : w'.trades = w.trades ++ fills.map fun f => ⟨id, f.id, f.price, f.size⟩
  far : w'.side (!bidSide) = w.side (!bidSide)
  shrinks : ∀ q, w'.queue bidSide q ≠ [] → w.queue bidSide q ≠ []
  uncached : ∀ i, w.idCache i = none → w'.idCache i = none

namespace Swept
variable {bidSide : Bool} {id : Nat} {w w' w'' : World} {fills fills' : List (PriceTime.Fill Int)}

theorem refl (h : w.Bare) : Swept bidSide id w w [] :=
  ⟨h, rfl, by simp, rfl, fun _ h => h, fun _ h => h⟩

theorem trans (h : Swept bidSide id w w' fills) (h' : Swept bidSide id w' w'' fills') :
    Swept bidSide id w w'' (fills ++ fills') :=
  ⟨h'.bare, h'.others.trans h.others, by rw [h'.trades, h.trades, List.map_append, List.append_assoc],
    h'.far.trans h.far, fun q hq => h.shrinks q (h'.shrinks q hq),
    fun i hi => h'.uncached i (h.uncached i hi)⟩

theorem base_eq (h : Swept bidSide id w w' fills) : w'.base = w.base := congrArg (·.1) h.others

theorem end_eq (h : Swept bidSide id w w' fills) : w'.end_ = w.end_ := congrArg (·.2.1) h.others

end Swept

section Sweep
variable {bidSide : Bool} {plev p id : Nat} {cb : OrderExecCbBndl} {w w' : World} {size : Nat}

theorem wp_tradeAons_bare {Q : Nat → World → Prop} {E : Err → World → Prop} (h : w.Bare)
    (hq : Q size w) : wp (tradeAons bidSide p id cb size) Q E w := by
  unfold tradeAons
  refine wp_getSob_bind (wp_ite (fun _ => ?_) fun _ => wp_pure hq)
  rw [h.atRest.aons bidSide p]
  exact wp_pure hq

/-- Orders of level `p` were reduced or left the book, and `gone` are those that left. -/
theorem Sob.Bare.shrink {s s' : Sob} (h : s.Bare) {l l' : List LimitBndl}
    (hl : (s.limits p).elems = l) (gone : List Nat) (hinv : LimitInv s'.limitView)
    (ho : s'.others = s.others) (hoff : ∀ q, q ≠ p → s'.limits q = s.limits q)
    (hel : (s'.limits p).elems = l')
    (hsub : (l'.map (·.id)).Sublist (l.map (·.id)))
    (hmem : ∀ x ∈ l', x.sz ≠ 0 ∧ ∃ b ∈ l, b.id = x.id ∧ b.side = x.side ∧ b.condition = x.condition)
    (hcache : ∀ i, s'.idCache i = if i ∈ gone then none else s.idCache i)
    (hgone : ∀ i, i ∈ gone ↔ i ∈ l.map (·.id) ∧ i ∉ l'.map (·.id)) (hlast : s'.LastOk) :
    s'.Bare := by
  have hlid : s'.lastId = s.lastId := congrArg (·.2.2.2.2.2.2.2.2) ho
  have hfiled : ∀ b ∈ l, s.idCache b.id = some ⟨.limit, p⟩ := fun b hb => h.filed p b (hl ▸ hb)
  refine ⟨hinv, fun q b hb => ?_, fun q => ?_, fun q b hb => ?_, fun i c hc => ?_, fun i c hc => ?_,
    h.atRest.of_others ho, hlast⟩
  · by_cases hq : q = p
    · subst hq
      obtain ⟨hsz, y, hy, -, -, hcond⟩ := hmem b (hel ▸ hb)
      exact ⟨hcond ▸ (h.basic q y (hl ▸ hy)).1, hsz⟩
    · exact h.basic q b (hoff q hq ▸ hb)
  · by_cases hq : q = p
    · subst hq
      unfold Sob.limitIds
      rw [hel]
      exact hsub.nodup (hl ▸ h.nodup q)
    · unfold Sob.limitIds
      rw [hoff q hq]
      exact h.nodup q
  · by_cases hq : q = p
    · subst hq
      rw [hel] at hb
      obtain ⟨-, y, hy, hid, -⟩ := hmem b hb
      rw [hcache, if_neg fun hg => ((hgone _).mp hg).2 (List.mem_map_of_mem hb), ← hid]
      exact hfiled y hy
    · rw [hoff q hq] at hb
      rw [hcache, if_neg, h.filed q b hb]
      intro hg
      obtain ⟨y, hy, hid⟩ := List.mem_map.mp ((hgone _).mp hg).1
      have := hfiled y hy
      rw [hid, h.filed q b hb] at this
      exact hq (congrArg ChainIterWrap.p (Option.some.inj this))
  · rw [hcache] at hc
    split at hc
    next => cases hc
    next hg =>
      obtain ⟨htype, hin⟩ := h.cached i c hc
      refine ⟨htype, ?_⟩
      unfold Sob.limitIds at hin ⊢
      by_cases hq : c.p = p
      · rw [hq, hl] at hin
        rw [hq, hel]
        by_contra hnot
        exact hg ((hgone i).mpr ⟨hin, hnot⟩)
      · rwa [hoff _ hq]
  · rw [hcache] at hc
    split at hc
    next => cases hc
    next => exact hlid ▸ h.known i c hc

theorem limitView_of_off {s s' : Sob} {c : ChainManager LimitBndl} (hp : s'.limits p = c)
    (hoff : ∀ q, q ≠ p → s'.limits q = s.limits q) (he : s'.end_ = s.end_)
    (hin : (s'.bid, s'.ask, s'.lowBuyLimit, s'.highSellLimit) =
      (s.bid, s.ask, s.lowBuyLimit, s.highSellLimit)) :
    s'.limitView = (s.setLimits p c).limitView := by
  have hl : s'.limits = (s.setLimits p c).limits := by
    funext q
    rw [Sob.limits_setLimits]
    split
    next hq => rw [hq, hp]
    next hq => exact hoff q hq
  simp only [Prod.mk.injEq] at hin
  obtain ⟨h1, h2, h3, h4⟩ := hin
  unfold Sob.limitView
  rw [hl, h1, h2, h3, h4, he]
  rfl

/-- The freed level was the best one: the best price is found again from a book that is right but
for it. -/
theorem LimitInv.findNewBestInside {s s' : Sob} (h : LimitInv s.limitView)
    (hv : s'.limitView = (s.setLimits (s.best bidSide) none).limitView) :
    LimitInv (Exec.Core.findNewBestInside bidSide s').limitView := by
  have hlt : s.bid < s.ask := h.bid_lt_ask
  have ho := hv ▸ h.toOrdered.setLimits_none (p := s.best bidSide)
  cases bidSide with
  | true => exact findNewBestInside_bid ho (hv ▸ h.best_setLimits_none.2 (by simp [Sob.best]; omega))
  | false => exact findNewBestInside_ask ho (hv ▸ h.best_setLimits_none.1 (by simp [Sob.best]; omega))

/-- After the best level was used up the sweep goes on at the new best price. -/
theorem nextOrJump_best (h : w'.Bare) (hlim : w'.limits p = none)
    (hp : if bidSide then w'.bid ≤ p else p ≤ w'.ask) (h0 : 0 < p) (he : p < w'.end_) :
    Exec.Core.nextOrJump bidSide w'.toSob p = w'.best bidSide := by
  have hb := h.begin_eq bidSide
  cases bidSide with
  | true =>
    simp only [if_true] at hp
    have hne : w'.bid ≠ p := by
      rintro rfl
      exact h.inv.bestBid.1 h0 hlim
    simp only [Exec.Core.nextOrJump, if_true, hb, Exec.Core.next, Sob.best]
    omega
  | false =>
    simp only [Bool.false_eq_true, if_false] at hp
    have hne : w'.ask ≠ p := by
      rintro rfl
      exact h.inv.bestAsk.1 he hlim
    simp only [Exec.Core.nextOrJump, Bool.false_eq_true, if_false, hb, Exec.Core.next, Sob.best]
    omega

theorem best_findNewBestInside (bidSide : Bool) (s : Sob) : if bidSide then
    (Exec.Core.findNewBestInside bidSide s).bid ≤ s.bid
    else s.ask ≤ (Exec.Core.findNewBestInside bidSide s).ask := by
  cases bidSide with
  | true =>
    have := jumpDown_le s s.bid
    simp only [Exec.Core.findNewBestInside, Exec.Core.jumpToNonemptyChain, if_true]
    split
    · exact this
    · split <;> exact this
  | false =>
    have := le_jumpUp s (s.end_ - s.ask) s.ask
    simp only [Exec.Core.findNewBestInside, Exec.Core.jumpToNonemptyChain, Bool.false_eq_true,
      if_false]
    split
    · exact this
    · split <;> exact this

/-- The limit chain of the best level. -/
theorem wp_tradeLimits_bare (h : w.Bare) (hp0 : 0 < w.best bidSide)
    (hpe : w.best bidSide < w.end_) (h0 : size ≠ 0) (id : Nat) (cb : OrderExecCbBndl) : ∃ l back,
    w.side bidSide = l.map (LimitBndl.entry (w.itop (w.best bidSide))) ++ back ∧
    wp (tradeLimits bidSide (w.best bidSide) id cb size) (fun r w' =>
      r = (Chain.consume l size).2.2 ∧
      w'.side bidSide = (Chain.consume l size).2.1.map
        (LimitBndl.entry (w.itop (w.best bidSide))) ++ back ∧
      (r ≠ 0 → Exec.Core.nextOrJump bidSide w'.toSob (w.best bidSide) = w'.best bidSide) ∧
      Swept bidSide id w w' ((Chain.consume l size).1.map
        fun f => ⟨f.1, w.itop (w.best bidSide), f.2⟩)) (fun _ _ => False) w := by
  obtain ⟨l, hl, hnil, hside⟩ := h.best_chain hp0 hpe
  have hlt : w.bid < w.ask := h.inv.bid_lt_ask
  have hel : (w.limits (w.best bidSide)).elems = l := by rw [hl, ChainManager.elems_some]
  have hq : w.queue bidSide (w.best bidSide) = l.map (LimitBndl.entry (w.itop (w.best bidSide))) := by
    rw [queue_of_forall fun b hb => hside b (hel ▸ hb), hel]
  obtain ⟨back, hback⟩ := side_of_best hp0 hpe fun _ hq => h.queue_front hq
  refine ⟨l, back, by rw [hback w.toSob rfl rfl fun _ _ => rfl, hq], ?_⟩
  have hkept : ∀ x ∈ (Chain.consume l size).2.1, x.sz ≠ 0 ∧
      ∃ b ∈ l, b.id = x.id ∧ b.side = x.side ∧ b.condition = x.condition :=
    fun x hx => mem_consume hx fun b hb => (h.basic _ b (hel ▸ hb)).2
  have hmem : ∀ x ∈ (Chain.consume l size).2.1, x.side = bidSide := fun x hx => by
    obtain ⟨-, y, hy, -, hys, -⟩ := hkept x hx
    exact hys ▸ hside y hy
  -- what holds once the level is rewritten
  have hdone : ∀ (w' : World) {gone : List Nat} (w1 : World),
      Struck (w.best bidSide) id w w1 (Chain.consume l size).1 gone →
      (∀ i, i ∈ gone ↔ i ∈ l.map (·.id) ∧ i ∉ (Chain.consume l size).2.1.map (·.id)) →
      LimitInv w'.limitView → w'.others = w.others →
      (∀ q, q ≠ w.best bidSide → w'.limits q = w1.limits q) →
      (w'.limits (w.best bidSide)).elems = (Chain.consume l size).2.1 →
      w'.idCache = w1.idCache → w'.trades = w1.trades → (w1.LastOk → w'.LastOk) →
      w'.side bidSide = (Chain.consume l size).2.1.map
        (LimitBndl.entry (w.itop (w.best bidSide))) ++ back ∧
      Swept bidSide id w w' ((Chain.consume l size).1.map
        fun f => ⟨f.1, w.itop (w.best bidSide), f.2⟩) := by
    intro w' gone w1 hs hgone hinv ho hoff hel' hcache htr hlast
    have hb' : w'.base = w.base := congrArg (·.1) ho
    have he' : w'.end_ = w.end_ := congrArg (·.2.1) ho
    have hoff' : ∀ q, q ≠ w.best bidSide → w'.limits q = w.limits q :=
      fun q hne => (hoff q hne).trans (hs.limits q hne)
    have hq' : w'.queue bidSide (w.best bidSide) = (Chain.consume l size).2.1.map
        (LimitBndl.entry (w.itop (w.best bidSide))) := by
      rw [queue_of_forall fun b hb => hmem b (hel' ▸ hb), hel']
      unfold Sob.itop
      rw [hb']
    have hbare : w'.Bare := h.shrink hel gone hinv ho hoff' hel' (consume_ids l size) hkept
      (fun i => by rw [hcache, hs.cache]) hgone (hlast (hs.last hp0 hpe h.last))
    refine ⟨by rw [hback w'.toSob hb' he' hoff', hq'], hbare, ho, ?_, ?_, fun q hne => ?_,
      fun i hi => ?_⟩
    · rw [htr, hs.trades, List.map_map]
      rfl
    · refine side_congr hb' he' hoff' (queue_eq_nil fun b hb => ?_) (queue_eq_nil fun b hb => ?_)
      · rw [hside b (hel ▸ hb)]
        simp
      · rw [hmem b (hel' ▸ hb)]
        simp
    · by_cases hqp : q = w.best bidSide
      · rw [hqp, hq]
        exact fun hn => hnil (List.map_eq_nil_iff.mp hn)
      · rwa [queue_congr hb' (hoff' q hqp)] at hne
    · rw [hcache, hs.cache, hi, ite_self]
  unfold tradeLimits
  refine wp_getSob_bind (wp_ite (fun _ => ?_) fun hnot => absurd ?_ hnot)
  · rw [hl]
    refine (wp_hitChain_basic hl hnil (hel ▸ h.nodup _) (fun b hb => h.basic _ b (hel ▸ hb))
      h0).bind ?_
    rintro ⟨_, _⟩ w1 ⟨rfl, rfl, hl1, gone, hs, hgone⟩
    have hv : ∀ c, (w1.setLimits (w.best bidSide) c).limitView =
        (w.setLimits (w.best bidSide) c).limitView := fun c => by
      refine limitView_of_off ?_ (fun q hq => ?_) hs.end_eq hs.inside
      · rw [Sob.limits_setLimits, if_pos rfl]
      · rw [Sob.limits_setLimits, if_neg hq, hs.limits q hq]
    refine wp_ite (fun hall => wp_modifySob_bind (wp_pure ?_)) fun hall => wp_pure ?_
    · have hrest : (Chain.consume l size).2.1 = [] := List.isEmpty_iff.mp hall
      have hinv := h.inv.findNewBestInside (hv none)
      obtain ⟨bid, ask, low, high, hf⟩ := Exec.Core.findNewBestInside_eq bidSide
        (w1.setLimits (w.best bidSide) none)
      have hlim : ∀ q, (Exec.Core.findNewBestInside bidSide
          (w1.setLimits (w.best bidSide) none)).limits q =
            if q = w.best bidSide then none else w1.limits q := fun q => by
        rw [hf]
        exact Sob.limits_setLimits ..
      have ho : (Exec.Core.findNewBestInside bidSide
          (w1.setLimits (w.best bidSide) none)).others = w.others := by
        rw [← hs.others, ← others_setLimits w1.toSob (w.best bidSide) none, hf]
        rfl
      have hd := hdone (w1.onSob fun s =>
        Exec.Core.findNewBestInside bidSide (s.setLimits (w.best bidSide) none)) w1 hs hgone hinv ho
        (fun q hq => (hlim q).trans (if_neg hq))
        (by rw [World.toSob_onSob, hlim, if_pos rfl, hrest]; rfl)
        (by rw [World.toSob_onSob, hf]; rfl) rfl
        (fun hx => by rw [World.toSob_onSob, hf]; exact hx)
      refine ⟨rfl, hd.1, fun _ => ?_, hd.2⟩
      refine nextOrJump_best hd.2.bare ((hlim _).trans (if_pos rfl)) ?_ hp0 ?_
      · have hb := best_findNewBestInside bidSide (w1.setLimits (w.best bidSide) none)
        have hin := hs.inside
        simp only [Prod.mk.injEq] at hin
        cases bidSide with
        | true => exact hb.trans hin.1.le
        | false => exact hin.2.1.ge.trans hb
      · exact hpe.trans_eq hd.2.end_eq.symm
    · have hrest : (Chain.consume l size).2.1 ≠ [] := fun hn => hall (List.isEmpty_iff.mpr hn)
      have hinv : LimitInv w1.limitView := by
        have := h.inv.setLimits_some hl hrest fun b hb => by
          obtain ⟨-, y, hy, -, hys, -⟩ := hkept b hb
          exact ⟨y, hy, hys⟩
        rwa [← limitView_of_off hl1 hs.limits hs.end_eq hs.inside] at this
      have hd := hdone w1 w1 hs hgone hinv hs.others (fun _ _ => rfl)
        (by rw [hl1, ChainManager.elems_some]) rfl rfl fun hx => hx
      exact ⟨rfl, hd.1, fun hr => absurd (consume_left.resolve_left hr) hrest, hd.2⟩
  · have hwin := h.inv.window (w.best bidSide) (by
      change w.limits (w.best bidSide) ≠ none
      rw [hl]
      simp)
    simp only [Sob.limitView] at hwin
    cases bidSide <;> simp [Exec.Limit.inWindow, Sob.best] at hwin ⊢ <;> omega

/-- The orders of a side stand at its best price or behind it, and so not one has a price that is
accepted when that price is not. -/
theorem side_refused (h : w.Bare) {ok : Int → Bool}
    (hok : ∀ q, beg ≤ q → ok (w.itop q) = Exec.Core.insideOf bidSide q plev)
    (hp : Exec.Core.insideOf bidSide (w.best bidSide) plev = false) :
    ∀ o ∈ w.side bidSide, ok o.price = false := by
  intro o ho
  obtain ⟨q, hq, b, hb, hbs, rfl⟩ := mem_side.mp ho
  have := h.behind hb hbs
  change ok (w.itop q) = false
  rw [hok q hq.1]
  cases bidSide <;> simp [Exec.Core.insideOf] at this hp ⊢ <;> omega

theorem distance_nextOrJump (s : Sob) {n : Nat} (h0 : 0 < plev)
    (hin : Exec.Core.insideOf bidSide p plev = true)
    (hn : Exec.Core.distance bidSide p plev ≤ n + 1) :
    Exec.Core.distance bidSide (Exec.Core.nextOrJump bidSide s p) plev ≤ n := by
  cases bidSide <;> simp [Exec.Core.insideOf, Exec.Core.distance, Exec.Core.nextOrJump,
    Exec.Core.next] at hin hn ⊢ <;> omega

/-- What a sweep of `size` from the orders of a side does. -/
def SweepPost (ok : Int → Bool) (bidSide : Bool) (id size : Nat) (w : World) (r : Nat)
    (w' : World) : Prop :=
  r = (PriceTime.fill ok (w.side bidSide) size).2.2 ∧
  w'.side bidSide = (PriceTime.fill ok (w.side bidSide) size).2.1 ∧
  Swept bidSide id w w' (PriceTime.fill ok (w.side bidSide) size).1

/-- Nothing is left of the incoming order, or it does not accept the best price. -/
theorem sweepPost_stop (h : w.Bare) {ok : Int → Bool}
    (hok : ∀ q, beg ≤ q → ok (w.itop q) = Exec.Core.insideOf bidSide q plev)
    (hs : size = 0 ∨ Exec.Core.insideOf bidSide (w.best bidSide) plev = false) :
    SweepPost ok bidSide id size w size w := by
  have : PriceTime.fill ok (w.side bidSide) size = ([], w.side bidSide, size) := by
    rcases hs with rfl | hout
    · exact PriceTime.fill_zero
    · exact PriceTime.fill_refused (side_refused h hok hout)
  unfold SweepPost
  rw [this]
  exact ⟨rfl, rfl, .refl h⟩

/-- A level that is accepted, and then the levels behind it. -/
theorem sweepPost_level {ok : Int → Bool} {l : List LimitBndl} {back : List (PriceTime.Order Int)}
    {price : Int} {w1 w2 : World} {r : Nat} (hok : ok price = true)
    (hside : w.side bidSide = l.map (LimitBndl.entry price) ++ back)
    (hside1 : w1.side bidSide = (Chain.consume l size).2.1.map (LimitBndl.entry price) ++ back)
    (h1 : Swept bidSide id w w1 ((Chain.consume l size).1.map fun f => ⟨f.1, price, f.2⟩))
    (h2 : SweepPost ok bidSide id (Chain.consume l size).2.2 w1 r w2) :
    SweepPost ok bidSide id size w r w2 := by
  have hfill := fill_eq_consume ok price hok l size
  obtain ⟨hr, hs2, hsw⟩ := h2
  unfold SweepPost
  rcases consume_left (l := l) (n := size) with h0 | hnil
  · rw [h0, PriceTime.fill_zero] at hr hs2 hsw
    rw [hside, PriceTime.fill_append_of_left (by rw [hfill]; exact h0), hfill]
    refine ⟨hr, hs2.trans hside1, ?_⟩
    have := h1.trans hsw
    rwa [List.append_nil] at this
  · rw [hnil, List.map_nil, List.nil_append] at hside1
    rw [hside1] at hr hs2 hsw
    rw [hside, PriceTime.fill_append (by rw [hfill, hnil]; rfl), hfill]
    exact ⟨hr, hs2, h1.trans hsw⟩

/-- The loop of `_trade` fills the incoming order from the list of the side. -/
theorem wp_sweep_bare {ok : Int → Bool} {endp n high low : Nat} (h : w.Bare)
    (hok : ∀ q, beg ≤ q → ok (w.itop q) = Exec.Core.insideOf bidSide q plev) (h1 : 0 < plev)
    (h2 : plev < w.end_)
    (hend : ∀ q, w.queue bidSide q ≠ [] → Exec.Core.insideOf bidSide q endp = true)
    (hn : Exec.Core.distance bidSide p plev ≤ n) (hp : size = 0 ∨ p = w.best bidSide) :
    wp (sweep bidSide plev endp id cb n p size high low)
      (fun r w' => SweepPost ok bidSide id size w r.1 w') (fun _ _ => False) w := by
  induction n generalizing w p size high low with
  | zero =>
    refine wp_pure (sweepPost_stop h hok (hp.imp_right fun hp => ?_))
    subst hp
    cases bidSide <;> simp [Exec.Core.distance, Exec.Core.insideOf] at hn ⊢ <;> omega
  | succ n ih =>
    unfold sweep
    refine wp_ite (fun hc => ?_) fun hc => wp_pure (sweepPost_stop h hok ?_)
    · obtain ⟨hsz, hin, -⟩ := hc
      obtain rfl := hp.resolve_left hsz
      have hpos := h.best_inside hin h1 h2
      obtain ⟨l, back, hside, hlevel⟩ := wp_tradeLimits_bare h hpos.1 hpos.2 hsz id cb
      refine (wp_tradeAons_bare (Q := fun r w' => r = size ∧ w' = w) h ⟨rfl, rfl⟩).bind ?_
      rintro _ _ ⟨rfl, rfl⟩
      refine hlevel.bind ?_
      rintro _ w1 ⟨rfl, hside1, hjump, hs1⟩
      refine wp_getSob_bind ?_
      have hok1 : ∀ q, beg ≤ q → ok (w1.itop q) = Exec.Core.insideOf bidSide q plev := fun q hq => by
        rw [← hok q hq]
        unfold Sob.itop
        rw [hs1.base_eq]
      exact (ih hs1.bare hok1 (hs1.end_eq ▸ h2) (fun q hq => hend q (hs1.shrinks q hq))
        (distance_nextOrJump _ h1 hin hn) (or_iff_not_imp_left.mpr hjump)).mono
        (fun _ _ hq => sweepPost_level ((hok _ hpos.1).trans hin) hside hside1 hs1 hq) fun _ _ hf => hf
    · rcases hp with h0 | rfl
      · exact .inl h0
      · by_contra hno
        rw [not_or, Bool.not_eq_false] at hno
        obtain ⟨hsz, hin⟩ := hno
        have hpos := h.best_inside hin h1 h2
        obtain ⟨l, hl, hnil, hls⟩ := h.best_chain hpos.1 hpos.2
        refine hc ⟨hsz, hin, hend _ fun hq => hnil ?_⟩
        rw [queue_of_forall fun b hb => hls b (by rw [hl] at hb; exact hb), hl] at hq
        exact List.map_eq_nil_iff.mp hq

theorem SweepPost.log {ok : Int → Bool} {r : Nat} (h : SweepPost ok bidSide id size w r w')
    {ev : Event} (hev : ev.asTrade = none) : SweepPost ok bidSide id size w r (w'.log ev) := by
  obtain ⟨h1, h2, ⟨hb, ho, ht, hf, hs, hu⟩⟩ := h
  exact ⟨h1, h2, hb, ho, (trades_log w' hev).trans ht, hf, hs, hu⟩

theorem SweepPost.of_log {ok : Int → Bool} {r : Nat} {ev : Event} (hev : ev.asTrade = none)
    (h : SweepPost ok bidSide id size (w.log ev) r w') : SweepPost ok bidSide id size w r w' := by
  obtain ⟨h1, h2, ⟨hb, ho, ht, hf, hs, hu⟩⟩ := h
  exact ⟨h1, h2, hb, ho, by rw [ht, trades_log w hev]; rfl, hf, hs, hu⟩

theorem SweepPost.checked {ok : Int → Bool} {r : Nat} (h : SweepPost ok bidSide id size w r w') :
    SweepPost ok bidSide id size w r (w'.onSob fun s => { s with needCheckForStops := false }) := by
  obtain ⟨h1, h2, ⟨⟨b1, b2, b3, b4, b5, b6, b7, b8⟩, ho, ht, hf, hs, hu⟩⟩ := h
  exact ⟨h1, h2, ⟨b1, b2, b3, b4, b5, b6, ⟨b7.1, b7.2, b7.3, b7.4, b7.5, b7.6⟩,
    b8.1, fun hn => by cases hn⟩, ho, ht, hf, hs, hu⟩

/-- With no trailing stop the moves of `_last` change nothing. -/
theorem wp_adjustTrailingStops_rest {Q : Unit → World → Prop} {E : Err → World → Prop}
    {oldLast high low : Nat} (hstep : ∀ w b q, Q () w → Q () (w.log (.trailingStopsAdjust w.toSob b q)))
    (hrest : ∀ w, Q () w → w.trailingBuyStops = [] ∧ w.trailingSellStops = []) (hq : Q () w) :
    wp (adjustTrailingStops oldLast high low) Q E w := by
  have hadj : ∀ w b q, Q () w → wp (trailingStopsAdjust b q) Q E w := by
    intro w b q hq
    obtain ⟨h1, h2⟩ := hrest w hq
    unfold trailingStopsAdjust
    refine wp_getSob_bind (wp_record_bind ?_)
    cases b <;> simp only [h1, h2, if_true, Bool.false_eq_true, if_false] <;>
      exact wp_pure (hstep w _ q hq)
  unfold adjustTrailingStops
  refine (wp_ite (fun _ => hadj w _ _ hq) fun _ => wp_pure hq).bind fun _ w1 h1 => ?_
  exact wp_ite (fun _ => hadj w1 _ _ h1) fun _ => wp_pure h1

/-- With no stop in the windows no level is looked at. -/
theorem wp_checkForStops_bare {Q : Unit → World → Prop} {E : Err → World → Prop} (h : w.Bare)
    (hq : Q () w) (hlog : Q () (((w.log (.lookForTriggeredStops w.toSob)).log
      (.lookForSellStops w.toSob)).onSob fun s => { s with needCheckForStops := false })) :
    wp checkForStops Q E w := by
  unfold checkForStops
  refine wp_getSob_bind (wp_ite (fun hneed => ?_) fun _ => wp_pure hq)
  obtain ⟨hlow, hhigh⟩ := h.atRest.stopWindows
  obtain ⟨hlast, hpos⟩ := h.last
  have h0 : w.last + 1 - w.lowBuyStop = 0 := by omega
  have h1 : w.highSellStop + 1 - w.last = 0 := by have := hpos hneed; omega
  unfold lookForTriggeredStops
  refine wp_getSob_bind (wp_record_bind ?_)
  rw [h0]
  refine (wp_pure (Q := fun _ w' => w' = w.log (.lookForTriggeredStops w.toSob)) rfl).bind ?_
  rintro _ _ rfl
  refine wp_getSob_bind (wp_record_bind ?_)
  rw [show (w.log (.lookForTriggeredStops w.toSob)).highSellStop + 1 -
    (w.log (.lookForTriggeredStops w.toSob)).last = 0 from h1]
  refine (wp_pure (Q := fun _ w' => w' = (w.log (.lookForTriggeredStops w.toSob)).log
    (.lookForSellStops w.toSob)) rfl).bind ?_
  rintro _ _ rfl
  exact wp_modifySob hlog

/-- `_trade` fills the incoming order from the list of the side. -/
theorem wp_trade_bare {ok : Int → Bool} (h : w.Bare)
    (hok : ∀ q, beg ≤ q → ok (w.itop q) = Exec.Core.insideOf bidSide q plev) (h1 : 0 < plev)
    (h2 : plev < w.end_) : wp (trade bidSide plev id size cb) (SweepPost ok bidSide id size w)
      (fun _ _ => False) w := by
  have hend : ∀ q, w.queue bidSide q ≠ [] →
      Exec.Core.insideOf bidSide q (Exec.Core.end_ bidSide w.toSob) = true := by
    intro q hq
    have hlt : w.bid < w.ask := h.inv.bid_lt_ask
    have hne : ∃ b ∈ (w.limits q).elems, b.side = bidSide := by
      by_contra hno
      exact hq (queue_eq_nil fun b hb hbs => hno ⟨b, hb, hbs⟩)
    obtain ⟨b, hb, hbs⟩ := hne
    have hlev := h.side_level hb
    have hwin := h.inv.window q fun hn => by
      have : w.limits q = none := hn
      rw [this] at hb
      cases hb
    simp only [Sob.limitView] at hwin
    rw [h.end_eq]
    subst hbs
    cases hs : b.side <;> simp [Exec.Core.insideOf, hs] at hlev hwin ⊢ <;> omega
  unfold trade
  refine wp_getSob_bind (wp_record_bind ?_)
  refine (wp_sweep_bare (w := w.log (.tradeCall w.toSob bidSide plev id size)) h hok h1 h2 hend
    le_rfl (.inr (h.begin_eq bidSide))).bind ?_
  rintro ⟨r, high, low⟩ w1 hp
  have hp' : SweepPost ok bidSide id size w r w1 := .of_log rfl hp
  refine (wp_adjustTrailingStops_rest (Q := fun _ => SweepPost ok bidSide id size w r)
    (fun _ _ _ hq => hq.log rfl) (fun _ hq => hq.2.2.bare.atRest.trailing) hp').bind fun _ w2 h2 => ?_
  refine (wp_checkForStops_bare (Q := fun _ => SweepPost ok bidSide id size w r) h2.2.2.bare h2
    ((h2.log rfl).log rfl).checked).bind fun _ w3 h3 => wp_pure h3

end Sweep
end SimpleOrderbook
