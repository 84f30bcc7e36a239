import SimpleOrderbook.Sweep

/-!
# Scans of the book

A fill-or-kill order, and a limit order that meets all-or-none orders, first ask
`_limit_is_fillable` how much a sweep would find. It goes over the levels in the order of the sweep
and adds up what it meets in a `size_t`. This file says what it counts, and which levels it visits.

## Main definitions

* `takeOrders` — what is left of a size after the orders of a scan.
* `Overflows` — the total of a look-ahead passes what a `size_t` holds.
* `Sob.AonsCovered` — the window of an AON side covers its chains.
-/
namespace SimpleOrderbook

open Hoare

/-! ## Taking orders in turn -/

/-- What is left of `n` after orders of given sizes: one that is all-or-none and too large is
passed over. -/
def takeOrders : List (Nat × Bool) → Nat → Nat
  | [], n => n
  | (sz, isAon) :: es, n => if isAon ∧ n < sz then takeOrders es n else takeOrders es (n - sz)

section Take
variable {es es' : List (Nat × Bool)} {n : Nat}

@[simp] theorem takeOrders_zero : takeOrders es 0 = 0 := by
  induction es with
  | nil => rfl
  | cons e es ih => simp [takeOrders, ih]

theorem takeOrders_append : takeOrders (es ++ es') n = takeOrders es' (takeOrders es n) := by
  induction es generalizing n with
  | nil => rfl
  | cons e es ih =>
    simp only [List.cons_append, takeOrders]
    split <;> exact ih

theorem takeOrders_le : takeOrders es n ≤ n := by
  induction es generalizing n with
  | nil => exact le_rfl
  | cons e es ih =>
    simp only [takeOrders]
    split
    next => exact ih
    next => exact ih.trans (Nat.sub_le _ _)

theorem le_takeOrders_add : n ≤ takeOrders es n + (es.map Prod.fst).sum := by
  induction es generalizing n with
  | nil => simp [takeOrders]
  | cons e es ih =>
    obtain ⟨elemSz, isAon⟩ := e
    simp only [takeOrders, List.map_cons, List.sum_cons]
    split
    next =>
      have := @ih n
      omega
    next =>
      have := @ih (n - elemSz)
      omega

/-- The look-ahead counts up what `takeOrders` counts down, as long as the size asked for is not
found. -/
theorem checkElems_append {sz tot : Nat} (h : tot < sz) (hsz : sz < 2 ^ 64)
    (hleft : takeOrders es (sz - tot) ≠ 0) : checkElems sz false (es ++ es') tot =
      checkElems sz false es' (sz - takeOrders es (sz - tot)) := by
  induction es generalizing tot with
  | nil =>
    have htot : sz - (sz - tot) = tot := by omega
    simp [takeOrders, htot]
  | cons e es ih =>
    obtain ⟨elemSz, isAon⟩ := e
    simp only [takeOrders] at hleft ⊢
    simp only [List.cons_append, checkElems, Bool.false_eq_true, false_or]
    split at hleft
    next hbig =>
      rw [if_pos hbig, if_neg (by omega), if_pos hbig]
      exact ih h hleft
    next hfit =>
      have hmore : sz - tot - elemSz ≠ 0 := fun h0 => hleft (by rw [h0, takeOrders_zero])
      have hwrap : asSize (tot + elemSz) = tot + elemSz := asSize_of_lt (by omega)
      rw [if_neg hfit, if_neg hfit, hwrap, if_neg (by omega)]
      rw [Nat.sub_sub] at hleft ⊢
      exact ih (by omega) hleft

/-- The order that completes the size. -/
theorem exists_completing {n : Nat} (hn : n ≠ 0) (h : takeOrders es n = 0) :
    ∃ front e back, es = front ++ e :: back ∧ takeOrders front n ≠ 0 ∧
      ¬ (e.2 = true ∧ takeOrders front n < e.1) ∧ takeOrders front n ≤ e.1 := by
  induction es generalizing n with
  | nil => exact absurd h hn
  | cons e es ih =>
    obtain ⟨elemSz, isAon⟩ := e
    simp only [takeOrders] at h
    split at h
    next hbig =>
      obtain ⟨front, e, back, rfl, h1, h2, h3⟩ := ih hn h
      refine ⟨(elemSz, isAon) :: front, e, back, rfl, ?_⟩
      simp only [takeOrders, if_pos hbig]
      exact ⟨h1, h2, h3⟩
    next hfit =>
      by_cases hdone : n - elemSz = 0
      · exact ⟨[], (elemSz, isAon), es, rfl, hn, hfit, by simp only [takeOrders]; omega⟩
      · obtain ⟨front, e, back, rfl, h1, h2, h3⟩ := ih hdone h
        refine ⟨(elemSz, isAon) :: front, e, back, rfl, ?_⟩
        simp only [takeOrders, if_neg hfit]
        exact ⟨h1, h2, h3⟩

/-- With order `e` behind `front`, what a look-ahead for `sz` found is more than a `size_t` holds. -/
structure Overflows (sz : Nat) (front : List (Nat × Bool)) (e : Nat × Bool) : Prop where
  unfilled : takeOrders front sz ≠ 0
  plain : e.2 = false
  total : 2 ^ 64 ≤ sz - takeOrders front sz + e.1

/-- The answer of the look-ahead for `sz` is what `takeOrders` leaves. -/
def Counts (sz : Nat) (es : List (Nat × Bool)) : Prop :=
  ((checkElems sz false es 0).1 = true ↔ takeOrders es sz = 0) ∧
    ((checkElems sz false es 0).1 = false → takeOrders es sz = sz - (checkElems sz false es 0).2)

/-- The look-ahead at the order with which the total overflows: it goes on with what is left of the
total. -/
theorem Overflows.checkElems {sz : Nat} {e : Nat × Bool} (h : Overflows sz es e) (hsz : sz < 2 ^ 64)
    (back : List (Nat × Bool)) :
    (SimpleOrderbook.checkElems sz false (es ++ e :: back) 0).1 = true ↔
      sz ≤ asSize (sz - takeOrders es sz + e.1) ∨
        (SimpleOrderbook.checkElems sz false back (asSize (sz - takeOrders es sz + e.1))).1 = true := by
  obtain ⟨elemSz, isAon⟩ := e
  obtain ⟨hleft, rfl, -⟩ := h
  have hpos : 0 < sz := Nat.pos_of_ne_zero fun h0 => hleft (by rw [h0, takeOrders_zero])
  rw [checkElems_append hpos hsz hleft]
  simp only [SimpleOrderbook.checkElems, Bool.false_eq_true, false_and, if_false, false_or, Nat.sub_zero]
  split
  next hdone => simp [hdone]
  next hmore => simp [hmore]

theorem Overflows.takeOrders_eq_zero {sz : Nat} {e : Nat × Bool} (h : Overflows sz es e)
    (hsz : sz < 2 ^ 64) (back : List (Nat × Bool)) : takeOrders (es ++ e :: back) sz = 0 := by
  obtain ⟨elemSz, isAon⟩ := e
  obtain ⟨hleft, rfl, htotal⟩ := h
  rw [takeOrders_append]
  simp only [takeOrders, Bool.false_eq_true, false_and, if_false]
  have hle : takeOrders es sz ≤ sz := takeOrders_le
  have hzero : takeOrders es sz - elemSz = 0 := by
    dsimp only at htotal
    omega
  rw [hzero, takeOrders_zero]

/-- The look-ahead is right exactly if no total overflows, or it finds the size all the same. -/
theorem counts_iff {sz : Nat} (hpos : 0 < sz) (hsz : sz < 2 ^ 64) : Counts sz es ↔
    ∀ front e back, es = front ++ e :: back → Overflows sz front e →
      sz ≤ asSize (sz - takeOrders front sz + e.1) ∨
        (checkElems sz false back (asSize (sz - takeOrders front sz + e.1))).1 = true := by
  constructor
  · rintro ⟨hyes, -⟩ front e back rfl hover
    exact (hover.checkElems hsz back).mp (hyes.mpr (hover.takeOrders_eq_zero hsz back))
  · intro hall
    by_cases hzero : takeOrders es sz = 0
    · obtain ⟨front, e, back, rfl, hleft, hfit, hdone⟩ := exists_completing (by omega) hzero
      have hyes : (checkElems sz false (front ++ e :: back) 0).1 = true := by
        by_cases hover : Overflows sz front e
        · exact (hover.checkElems hsz back).mpr (hall front e back rfl hover)
        · obtain ⟨elemSz, isAon⟩ := e
          have hle : takeOrders front sz ≤ sz := takeOrders_le
          have htotal : sz - takeOrders front sz + elemSz < 2 ^ 64 := by
            cases isAon with
            | false => exact not_le.mp fun hle => hover ⟨hleft, rfl, hle⟩
            | true =>
              have : ¬ takeOrders front sz < elemSz := fun hlt => hfit ⟨rfl, hlt⟩
              omega
          rw [checkElems_append hpos hsz hleft]
          have hneed : sz - (sz - takeOrders front sz) = takeOrders front sz := by omega
          simp only [checkElems, Nat.sub_zero, hneed, if_neg hfit, asSize_of_lt htotal]
          rw [if_pos (.inr (by dsimp only at hdone; omega))]
      exact ⟨iff_of_true hyes hzero, fun hno => absurd hyes (by simp [hno])⟩
    · have heq := @checkElems_append es [] sz 0 hpos hsz (by rwa [Nat.sub_zero])
      rw [List.append_nil, Nat.sub_zero] at heq
      have hle : takeOrders es sz ≤ sz := takeOrders_le
      unfold Counts
      rw [heq]
      simp only [checkElems, Bool.false_eq_true, false_iff, true_implies]
      omega

/-- Orders that a `size_t` counts do not overflow it. -/
theorem not_overflows_of_sum {sz : Nat} (h : (es.map Prod.fst).sum < 2 ^ 64)
    {front back : List (Nat × Bool)} {e : Nat × Bool} (heq : es = front ++ e :: back) :
    ¬ Overflows sz front e := by
  intro hover
  rw [heq, List.map_append, List.sum_append, List.map_cons, List.sum_cons] at h
  have := hover.total
  have := @le_takeOrders_add front sz
  omega

/-- Without an overflow the look-ahead is right. -/
theorem counts_of_not_overflows {sz : Nat} (hpos : 0 < sz) (hsz : sz < 2 ^ 64)
    (h : ∀ front e back, es = front ++ e :: back → ¬ Overflows sz front e) : Counts sz es :=
  (counts_iff hpos hsz).mpr fun front e back heq hover => absurd hover (h front e back heq)

end Take

/-! ## The levels of a scan -/

namespace Exec.Core
variable {bidSide : Bool} {p p' plev : Nat}

/-- The levels from `p` through `plev`. -/
def scan (bidSide : Bool) (p plev : Nat) : List Nat :=
  (List.range (distance bidSide p plev)).map fun i => if bidSide then p - i else p + i

theorem levels_eq_scan (bidSide : Bool) (s : Sob) (plev : Nat) :
    levels bidSide s plev = scan bidSide (begin_ bidSide s) plev := by
  cases bidSide <;> rfl

theorem mem_scan {q : Nat} (h : q ∈ scan bidSide p plev) :
    insideOf bidSide p q = true ∧ insideOf bidSide q plev = true := by
  obtain ⟨i, hi, rfl⟩ := List.mem_map.mp h
  have hi := List.mem_range.mp hi
  cases bidSide <;> simp [distance, insideOf] at hi ⊢ <;> omega

theorem scan_cons (h : insideOf bidSide p plev = true) (h0 : 0 < plev) :
    scan bidSide p plev = p :: scan bidSide (next bidSide p) plev := by
  have hd : distance bidSide p plev = distance bidSide (next bidSide p) plev + 1 := by
    cases bidSide <;> simp [insideOf, distance, next] at h ⊢ <;> omega
  unfold scan
  rw [hd, List.range_succ_eq_map, List.map_cons, List.map_map]
  congr 1
  · cases bidSide <;> rfl
  · refine List.map_congr_left fun i hi => ?_
    cases bidSide <;> simp [next] <;> omega

theorem scan_nil (h : insideOf bidSide p plev = false) : scan bidSide p plev = [] := by
  have hd : distance bidSide p plev = 0 := by
    cases bidSide <;> simp [insideOf, distance] at h ⊢ <;> omega
  unfold scan
  rw [hd]
  rfl

/-- Levels with nothing on them may be skipped. -/
theorem flatMap_scan_skip {β : Type} {f : Nat → List β} (h0 : 0 < plev)
    (hin : insideOf bidSide p p' = true)
    (hskip : ∀ q, insideOf bidSide p q = true → insideOf bidSide p' q = false →
      insideOf bidSide q plev = true → f q = []) :
    (scan bidSide p plev).flatMap f = (scan bidSide p' plev).flatMap f := by
  induction hd : distance bidSide p plev generalizing p with
  | zero =>
    have hout : insideOf bidSide p plev = false := by
      cases bidSide <;> simp [insideOf, distance] at hd ⊢ <;> omega
    have hout' : insideOf bidSide p' plev = false := by
      cases bidSide <;> simp [insideOf] at hin hout ⊢ <;> omega
    rw [scan_nil hout, scan_nil hout']
  | succ n ih =>
    have hp : insideOf bidSide p plev = true := by
      cases bidSide <;> simp [insideOf, distance] at hd ⊢ <;> omega
    by_cases heq : p = p'
    · rw [heq]
    rw [scan_cons hp h0, List.flatMap_cons, hskip p (by cases bidSide <;> simp [insideOf])
      (by cases bidSide <;> simp [insideOf] at hin ⊢ <;> omega) hp, List.nil_append]
    refine ih ?_ (fun q hq => hskip q ?_) ?_
    · cases bidSide <;> simp [insideOf, next] at hin ⊢ <;> omega
    · cases bidSide <;> simp [insideOf, next] at hq ⊢ <;> omega
    · cases bidSide <;> simp [distance, next, insideOf] at hd hp ⊢ <;> omega

end Exec.Core

/-! ## Windows of the all-or-none chains -/

/-- The AON chains of a side are in its window. -/
def Sob.AonsCovered (s : Sob) (bidSide : Bool) : Prop :=
  ∀ p, s.aons bidSide p ≠ none → Exec.Aon.inWindow bidSide s p = true

section Window
variable {s : Sob} {p : Nat} {bidSide : Bool}

theorem scanDown_empty {buys : Bool} {low high q : Nat} (hlow : low ≤ q) (hq : q ≤ high)
    (h : Exec.Aon.scanDown s buys low high < q) : s.aons buys q = none := by
  induction high with
  | zero => exact absurd h (by omega)
  | succ p ih =>
    unfold Exec.Aon.scanDown at h
    split at h
    next he =>
      by_cases hqp : q = p + 1
      · subst hqp
        exact Option.isNone_iff_eq_none.mp he.2
      · exact ih (by omega) h
    next => omega

theorem scanUp_empty {buys : Bool} {n low q : Nat} (hlow : low ≤ q)
    (h : q < Exec.Aon.scanUp s buys n low) : s.aons buys q = none := by
  induction n generalizing low with
  | zero => exact absurd h (by simp [Exec.Aon.scanUp]; omega)
  | succ n ih =>
    unfold Exec.Aon.scanUp at h
    split at h
    next he =>
      by_cases hql : q = low
      · subst hql
        exact Option.isNone_iff_eq_none.mp he
      · exact ih (by omega) h
    next => omega

/-- The scans of `adjust_state_after_pull` pass over empty levels only; the bound that the source
takes from the other side can only end one of them early. -/
theorem Sob.AonsCovered.adjustStateAfterPull (h : s.AonsCovered bidSide) (p : Nat) :
    (Exec.Aon.adjustStateAfterPull bidSide s p).AonsCovered bidSide := by
  intro q hq
  rw [aons_of_files (Exec.Aon.files_adjustStateAfterPull _ _ _)] at hq
  have hwin := h q hq
  cases bidSide with
  | true =>
    simp only [Exec.Aon.inWindow, if_true, decide_eq_true_eq] at hwin
    have hdown : ¬ Exec.Aon.scanDown s true s.lowBuyAon s.highBuyAon < q := fun hlt =>
      hq (scanDown_empty hwin.1 hwin.2 hlt)
    have hup : ¬ q < Exec.Aon.scanUp s true (s.highSellAon + 1 - s.lowBuyAon) s.lowBuyAon :=
      fun hlt => hq (scanUp_empty hwin.1 hlt)
    unfold Exec.Aon.adjustStateAfterPull Exec.Aon.inWindow
    simp only [if_true, decide_eq_true_eq]
    by_cases h1 : p = s.highBuyAon
    · simp only [if_pos h1]
      split <;> simp only at * <;> omega
    · simp only [if_neg h1]
      by_cases h2 : p = s.lowBuyAon
      · simp only [if_pos h2]
        split <;> simp only at * <;> omega
      · simp only [if_neg h2]
        split <;> omega
  | false =>
    simp only [Exec.Aon.inWindow, Bool.false_eq_true, if_false, decide_eq_true_eq] at hwin
    have hdown : ¬ Exec.Aon.scanDown s false s.lowSellAon s.highSellAon < q := fun hlt =>
      hq (scanDown_empty hwin.2 hwin.1 hlt)
    have hup : ¬ q < Exec.Aon.scanUp s false (s.highSellAon + 1 - s.lowSellAon) s.lowSellAon :=
      fun hlt => hq (scanUp_empty hwin.2 hlt)
    unfold Exec.Aon.adjustStateAfterPull Exec.Aon.inWindow
    simp only [Bool.false_eq_true, if_false, decide_eq_true_eq]
    by_cases h1 : p = s.lowSellAon
    · simp only [if_pos h1]
      split <;> simp only at * <;> omega
    · simp only [if_neg h1]
      by_cases h2 : p = s.highSellAon
      · simp only [if_pos h2]
        split <;> simp only at * <;> omega
      · simp only [if_neg h2]
        split <;> omega

end Window

end SimpleOrderbook
