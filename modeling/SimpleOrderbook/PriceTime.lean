import Mathlib.Algebra.Ring.Int.Defs
import Mathlib.Data.List.Nodup
import Mathlib.Data.List.Sort
import Mathlib.Data.List.TakeWhile

/-!
# A book with price-time priority

Each side of the book is one list of orders, by price and then by arrival. An incoming order trades
with the first orders of the other side for as long as it accepts their price, and what is left of
it queues behind the orders that are at least as good.

## Main definitions

* `fill` — an incoming order against the orders of the other side.
* `enqueue` — a new order among those of its side.
* `Book.step` — what a command answers, the trades it makes and the book after it.
-/
namespace PriceTime

structure Order (π : Type) where
  id : Nat
  price : π
  size : Nat
deriving DecidableEq

/-- A resting order that trades, and how much. -/
structure Fill (π : Type) where
  id : Nat
  price : π
  size : Nat
deriving DecidableEq

variable {π : Type}

/-! ## Filling -/

/-- The fills of an incoming order of size `n`, what rests of the other side, and what is left of
the order. -/
def fill (ok : π → Bool) : List (Order π) → Nat → List (Fill π) × List (Order π) × Nat
  | [], n => ([], [], n)
  | o :: os, n =>
    if n = 0 ∨ ok o.price = false then ([], o :: os, n)
    else if n < o.size then ([⟨o.id, o.price, n⟩], { o with size := o.size - n } :: os, 0)
    else
      let r := fill ok os (n - o.size)
      (⟨o.id, o.price, o.size⟩ :: r.1, r.2)

section Fill
variable {ok : π → Bool} {l l' : List (Order π)} {n : Nat}

@[simp] theorem fill_zero : fill ok l 0 = ([], l, 0) := by
  cases l <;> simp [fill]

/-- No price is accepted. -/
theorem fill_refused (h : ∀ o ∈ l, ok o.price = false) : fill ok l n = ([], l, n) := by
  cases l with
  | nil => rfl
  | cons o os => simp [fill, h o]

/-- The orders in front are used up, and what is left trades with the others. -/
theorem fill_append (h : (fill ok l n).2.1 = []) : fill ok (l ++ l') n =
    ((fill ok l n).1 ++ (fill ok l' (fill ok l n).2.2).1, (fill ok l' (fill ok l n).2.2).2) := by
  induction l generalizing n with
  | nil => rfl
  | cons o os ih =>
    simp only [fill, List.cons_append] at h ⊢
    split at h
    next => simp at h
    next hn =>
      split at h
      next => simp at h
      next hlt =>
        rw [if_neg hn, if_neg hlt, ih h, if_neg hn, if_neg hlt]
        simp

/-- The order is used up before the first of the others. -/
theorem fill_append_of_left (h : (fill ok l n).2.2 = 0) :
    fill ok (l ++ l') n = ((fill ok l n).1, (fill ok l n).2.1 ++ l', 0) := by
  induction l generalizing n with
  | nil =>
    obtain rfl : n = 0 := h
    simp
  | cons o os ih =>
    simp only [fill, List.cons_append] at h ⊢
    by_cases hn : n = 0 ∨ ok o.price = false
    · simp only [if_pos hn] at h ⊢
      subst h
      rfl
    · rw [if_neg hn] at h ⊢
      rw [if_neg hn]
      split at h
      next hlt => simp [hlt]
      next hlt => simp [hlt, ih h]

/-- What is left of the order does not accept the first price that rests. -/
theorem fill_head (h : (fill ok l n).2.2 ≠ 0) :
    ∀ o ∈ (fill ok l n).2.1.head?, ok o.price = false := by
  induction l generalizing n with
  | nil => exact fun o ho => by cases ho
  | cons o os ih =>
    simp only [fill] at h ⊢
    by_cases hn : n = 0 ∨ ok o.price = false
    · rw [if_pos hn] at h ⊢
      rintro x hx
      obtain rfl : o = x := Option.some.inj hx
      exact hn.resolve_left h
    · rw [if_neg hn] at h ⊢
      split at h
      next hlt => exact absurd rfl h
      next hlt =>
        rw [if_neg hlt]
        exact ih h

theorem fill_congr {ok' : π → Bool} (h : ∀ o ∈ l, ok o.price = ok' o.price) :
    fill ok l n = fill ok' l n := by
  induction l generalizing n with
  | nil => rfl
  | cons o os ih =>
    simp only [fill, h o List.mem_cons_self, ih fun x hx => h x (List.mem_cons_of_mem _ hx)]

end Fill

/-! ## Queueing -/

/-- The order queues in front of the first one that it is strictly better than. -/
def enqueue (better : π → π → Bool) (o : Order π) (l : List (Order π)) : List (Order π) :=
  l.takeWhile (fun x => ! better o.price x.price) ++
    o :: l.dropWhile (fun x => ! better o.price x.price)

theorem enqueue_append {better : π → π → Bool} {o : Order π} {l l' : List (Order π)}
    (h : ∀ x ∈ l, better o.price x.price = false) (h' : ∀ x ∈ l', better o.price x.price = true) :
    enqueue better o (l ++ l') = l ++ o :: l' := by
  have hl : ∀ x ∈ l, (! better o.price x.price) = true := fun x hx => by rw [h x hx]; rfl
  unfold enqueue
  rw [List.takeWhile_append_of_pos hl, List.dropWhile_append_of_pos hl]
  cases l' with
  | nil => simp
  | cons x l' => simp [h' x]

/-! ## Orders on the levels of a ladder -/

section Ladder
variable {κ : Type} {q q' : κ → List (Order π)} {ladder front back : List κ} {k : κ}

/-- Only the queue of level `k` changes. -/
theorem flatMap_of_eq_off (hn : (front ++ k :: back).Nodup) (h : ∀ j, j ≠ k → q' j = q j) :
    (front ++ k :: back).flatMap q' = front.flatMap q ++ (q' k ++ back.flatMap q) := by
  have hk := List.nodup_middle.mp hn
  obtain ⟨hmem, -⟩ := List.nodup_cons.mp hk
  have hoff : ∀ l : List κ, k ∉ l → l.flatMap q' = l.flatMap q := fun l hl =>
    List.flatMap_congr fun j hj => h j fun heq => hl (heq ▸ hj)
  rw [List.flatMap_append, List.flatMap_cons, hoff front fun h => hmem (List.mem_append_left _ h),
    hoff back fun h => hmem (List.mem_append_right _ h)]

/-- Only level `k` has orders of the kind that is erased. -/
theorem eraseP_flatMap {kind : Order π → Bool} (hn : ladder.Nodup)
    (h : ∀ j, j ≠ k → ∀ o ∈ q j, kind o = false) :
    (ladder.flatMap q).eraseP kind = ladder.flatMap fun j => (q j).eraseP kind := by
  have hskip : ∀ j, j ≠ k → (q j).eraseP kind = q j := fun j hj =>
    List.eraseP_of_forall_not fun o ho => by simp [h j hj o ho]
  induction ladder with
  | nil => rfl
  | cons j ladder ih =>
    obtain ⟨hj, hn⟩ := List.nodup_cons.mp hn
    rw [List.flatMap_cons, List.flatMap_cons, List.eraseP_append]
    split
    next hany =>
      -- the order stands on level `j`, and on no other
      have hjk : j = k := by
        by_contra hne
        obtain ⟨o, ho, hkind⟩ := List.any_eq_true.mp hany
        rw [h j hne o ho] at hkind
        cases hkind
      refine congrArg _ (List.flatMap_congr fun i hi => ?_)
      exact (hskip i fun heq => hj (hjk ▸ heq ▸ hi)).symm
    next hany =>
      rw [ih hn, List.eraseP_of_forall_not fun o ho hk => hany (List.any_eq_true.mpr ⟨o, ho, hk⟩)]

/-- An order queues at the end of the queue of its level. -/
theorem enqueue_flatMap (better : π → π → Bool) (price : κ → π) {o : Order π}
    (hsort : (front ++ k :: back).Pairwise fun i j => better (price j) (price i) = false ∧
      better (price i) (price j) = true)
    (hirrefl : ∀ p, better p p = false) (hq : ∀ j, ∀ x ∈ q j, x.price = price j)
    (ho : o.price = price k) :
    enqueue better o ((front ++ k :: back).flatMap q) =
      front.flatMap q ++ (q k ++ [o] ++ back.flatMap q) := by
  obtain ⟨-, hback, hfront⟩ := List.pairwise_append.mp hsort
  have hbk := (List.pairwise_cons.mp hback).1
  rw [List.flatMap_append, List.flatMap_cons, ← List.append_assoc, enqueue_append]
  · simp
  · intro x hx
    rcases List.mem_append.mp hx with hx | hx
    · obtain ⟨j, hj, hx⟩ := List.mem_flatMap.mp hx
      rw [hq j x hx, ho]
      exact (hfront j hj k List.mem_cons_self).1
    · rw [hq k x hx, ho]
      exact hirrefl _
  · intro x hx
    obtain ⟨j, hj, hx⟩ := List.mem_flatMap.mp hx
    rw [hq j x hx, ho]
    exact (hbk j hj).2

end Ladder

/-! ## The book -/

structure Book (π : Type) where
  /-- The buy orders and the sell orders, best first. -/
  side : Bool → List (Order π)
  lastId : Nat

inductive Command (π : Type) where
  | limit (buy : Bool) (price : π) (size : Nat)
  | market (buy : Bool) (size : Nat)
  | pull (id : Nat)
  | replaceLimit (id : Nat) (buy : Bool) (price : π) (size : Nat)
  | replaceMarket (id : Nat) (buy : Bool) (size : Nat)

/-- What a command answers: an id, whether an order was pulled, that it was refused, or that a
market order of a size was left with some of it. -/
inductive Answer where
  | value (ret : Nat)
  | refused
  | liquidity (size left id : Nat)
deriving DecidableEq

structure Trade (π : Type) where
  incoming : Nat
  resting : Nat
  price : π
  size : Nat
deriving DecidableEq

namespace Book

def empty : Book π := ⟨fun _ => [], 0⟩

variable [LinearOrder π] (b : Book π)

/-- Price `p` is strictly better than `q` on a side. -/
def better (buy : Bool) (p q : π) : Bool := if buy then decide (q < p) else decide (p < q)

/-- An order accepts the prices that are no worse than its limit, a market order all of them. -/
def accepts (buy : Bool) : Option π → π → Bool
  | none, _ => true
  | some limit, p => if buy then decide (p ≤ limit) else decide (limit ≤ p)

def setSide (buy : Bool) (l : List (Order π)) : Book π :=
  { b with side := Function.update b.side buy l }

/-- A limit order, or a market order without a limit. -/
def insert (buy : Bool) (limit : Option π) (size : Nat) : Answer × List (Trade π) × Book π :=
  let id := b.lastId + 1
  let r := fill (accepts buy limit) (b.side (!buy)) size
  let trades := r.1.map fun f => ⟨id, f.id, f.price, f.size⟩
  let b := { b.setSide (!buy) r.2.1 with lastId := id }
  if r.2.2 = 0 then (.value id, trades, b)
  else
    match limit with
    | none => (.liquidity size r.2.2 id, trades, b)
    | some p => (.value id, trades,
        b.setSide buy (enqueue (better buy) ⟨id, p, r.2.2⟩ (b.side buy)))

section Insert
variable {b : Book π} {buy : Bool} {limit : Option π} {size : Nat}

theorem insert_far : (b.insert buy limit size).2.2.side (!buy) =
    (fill (accepts buy limit) (b.side (!buy)) size).2.1 := by
  unfold insert
  dsimp only
  split
  · exact Function.update_self ..
  · cases limit with
    | none => exact Function.update_self ..
    | some p =>
      refine (Function.update_of_ne ?_ ..).trans (Function.update_self ..)
      cases buy <;> simp

theorem insert_near : (b.insert buy limit size).2.2.side buy = match limit with
    | some p => if (fill (accepts buy limit) (b.side (!buy)) size).2.2 = 0 then b.side buy
      else enqueue (better buy)
        ⟨b.lastId + 1, p, (fill (accepts buy limit) (b.side (!buy)) size).2.2⟩ (b.side buy)
    | none => b.side buy := by
  have hne : buy ≠ !buy := by cases buy <;> simp
  unfold insert
  dsimp only
  split
  · cases limit <;> exact Function.update_of_ne hne ..
  · cases limit with
    | none => exact Function.update_of_ne hne ..
    | some p =>
      refine (Function.update_self ..).trans ?_
      exact congrArg _ (Function.update_of_ne hne ..)

theorem insert_lastId : (b.insert buy limit size).2.2.lastId = b.lastId + 1 := by
  unfold insert
  dsimp only
  split
  · rfl
  · cases limit <;> rfl

theorem insert_trades : (b.insert buy limit size).2.1 =
    (fill (accepts buy limit) (b.side (!buy)) size).1.map
      fun f => ⟨b.lastId + 1, f.id, f.price, f.size⟩ := by
  unfold insert
  dsimp only
  split
  · rfl
  · cases limit <;> rfl

/-- Only a market order can be left with some of it. -/
theorem insert_answer : (b.insert buy limit size).1 =
    if limit = none ∧ (fill (accepts buy limit) (b.side (!buy)) size).2.2 ≠ 0 then
      .liquidity size (fill (accepts buy limit) (b.side (!buy)) size).2.2 (b.lastId + 1)
    else .value (b.lastId + 1) := by
  unfold insert
  dsimp only
  split
  next h => simp [h]
  next h => cases limit <;> simp_all

end Insert

/-- The order rests on some side. -/
def holds (id : Nat) : Bool := (b.side true ++ b.side false).any (·.id = id)

def erase (id : Nat) : Book π := { b with side := fun buy => (b.side buy).eraseP (·.id = id) }

/-- Pull an order and insert one for it. -/
def replace (id : Nat) (buy : Bool) (limit : Option π) (size : Nat) :
    Answer × List (Trade π) × Book π :=
  if b.holds id then (b.erase id).insert buy limit size else (.value 0, [], b)

/-- A command on a book with the valid prices `valid`. -/
def step (valid : π → Bool) : Command π → Answer × List (Trade π) × Book π
  | .limit buy price size =>
    if size = 0 ∨ valid price = false then (.refused, [], b) else b.insert buy (some price) size
  | .market buy size => if size = 0 then (.refused, [], b) else b.insert buy none size
  | .pull id =>
    if id = 0 then (.refused, [], b)
    else if b.holds id then (.value 1, [], b.erase id) else (.value 0, [], b)
  | .replaceLimit id buy price size =>
    if size = 0 ∨ id = 0 ∨ valid price = false then (.refused, [], b)
    else b.replace id buy (some price) size
  | .replaceMarket id buy size =>
    if size = 0 ∨ id = 0 then (.refused, [], b) else b.replace id buy none size

end Book

/-- The commands one after the other: all the answers, and all the trades in their order. -/
def Book.run [LinearOrder π] (valid : π → Bool) :
    List (Command π) → Book π → List Answer × List (Trade π) × Book π
  | [], b => ([], [], b)
  | c :: cs, b =>
    let r := b.step valid c
    let rs := run valid cs r.2.2
    (r.1 :: rs.1, r.2.1 ++ rs.2.1, rs.2.2)

theorem Book.run_append [LinearOrder π] (valid : π → Bool) (cs cs' : List (Command π)) (b : Book π) :
    run valid (cs ++ cs') b = ((run valid cs b).1 ++ (run valid cs' (run valid cs b).2.2).1,
      (run valid cs b).2.1 ++ (run valid cs' (run valid cs b).2.2).2.1,
      (run valid cs' (run valid cs b).2.2).2.2) := by
  induction cs generalizing b with
  | nil => rfl
  | cons c cs ih => simp [run, ih, List.append_assoc]

end PriceTime
