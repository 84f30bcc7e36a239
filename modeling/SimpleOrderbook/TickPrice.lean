import Mathlib.Algebra.Order.Floor.Ring
import Mathlib.Data.Finset.Card
import Mathlib.Data.Nat.Log
import Mathlib.Data.Rat.Floor
import Mathlib.Tactic.FieldSimp
import Mathlib.Tactic.Linarith
import Mathlib.Tactic.NormNum
import Mathlib.Tactic.Ring

/-!
# Prices as whole units and ticks

`TickPrice` of `tick_price.hpp`: a price is a number of whole units and a number of ticks below one
unit. Every operation goes through the constructor that carries ticks into units.

A `long` is an integer here; only where the source computes with `unsigned long long` is the result
taken modulo `2 ^ 64`. A `double` is a rational number, and `RoundFunction` rounds half away from
zero.

## Main results

* `Steps.normal`, `Steps.value_eq` — what is computed is in normal form, and is the right integer.
* `comparisons_agree_iff` — the comparison operators are the order of the integers, but for the
  reversed ones at equality.
* `roundTrip_iff` — the ratios for which a price survives its external form.
-/
namespace SimpleOrderbook

/-- A `std::ratio` in lowest terms that the assertions of the class admit. -/
structure TickRatio where
  num : Nat
  den : Nat
  pos : 0 < num
  coprime : num.Coprime den
  le_one : num ≤ den
  ge_min : den ≤ 1000000 * num
  divides : den % num = 0

namespace TickRatio
variable (R : TickRatio)

def ticksPerUnit : Nat := R.den / R.num

theorem num_eq_one : R.num = 1 :=
  Nat.Coprime.eq_one_of_dvd R.coprime (Nat.dvd_of_mod_eq_zero R.divides)

theorem ticksPerUnit_eq : R.ticksPerUnit = R.den := by
  unfold ticksPerUnit
  rw [R.num_eq_one, Nat.div_one]

theorem ticksPerUnit_pos : 0 < R.ticksPerUnit := by
  rw [ticksPerUnit_eq]
  exact R.pos.trans_le R.le_one

theorem ticksPerUnit_le : R.ticksPerUnit ≤ 1000000 := by
  have := R.ge_min
  rw [R.num_eq_one] at this
  rwa [ticksPerUnit_eq, ← Nat.mul_one 1000000]

end TickRatio

/-- The ratio `1/n`. -/
def TickRatio.inv (n : Nat) (hpos : 0 < n) (hle : n ≤ 1000000) : TickRatio where
  num := 1
  den := n
  pos := Nat.one_pos
  coprime := Nat.coprime_one_left n
  le_one := hpos
  ge_min := by omega
  divides := Nat.mod_one n

structure TickPrice (R : TickRatio) where
  whole : Int
  ticks : Int
deriving DecidableEq

/-- An `unsigned long long` converted to a `long`. -/
def toLong (x : Int) : Int := x.bmod (2 ^ 64)

theorem toLong_eq {x : Int} (h : -2 ^ 63 ≤ x) (h' : x < 2 ^ 63) : toLong x = x := by
  unfold toLong
  exact Int.bmod_eq_of_le (by omega) (by omega)

namespace TickPrice
variable {R : TickRatio}

/-! ## Construction and arithmetic -/

/-- `TickPrice(long whole, long ticks)`; `ldiv` truncates. -/
def ofWholeTicks (whole ticks : Int) : TickPrice R :=
  let quot := ticks.tdiv R.ticksPerUnit
  let rem := ticks.tmod R.ticksPerUnit
  if rem < 0 then ⟨whole + quot - 1, toLong (rem + R.ticksPerUnit)⟩ else ⟨whole + quot, rem⟩

/-- `TickPrice(long ticks)`, and of an `int`. -/
def ofTicks (ticks : Int) : TickPrice R := ofWholeTicks 0 ticks

/-- `as_ticks`, where the product and the sum are unsigned. -/
def asTicks (t : TickPrice R) : Int := toLong (R.ticksPerUnit * t.whole + t.ticks)

def add (t tr : TickPrice R) : TickPrice R := ofWholeTicks (t.whole + tr.whole) (t.ticks + tr.ticks)
def sub (t tr : TickPrice R) : TickPrice R := ofWholeTicks (t.whole - tr.whole) (t.ticks - tr.ticks)
def addTicks (t : TickPrice R) (n : Int) : TickPrice R := ofWholeTicks t.whole (t.ticks + n)
def subTicks (t : TickPrice R) (n : Int) : TickPrice R := ofWholeTicks t.whole (t.ticks - n)

/-- `operator+=` and `operator-=` of a number of ticks convert it first. -/
def addAssignTicks (t : TickPrice R) (n : Int) : TickPrice R := t.add (ofTicks n)
def subAssignTicks (t : TickPrice R) (n : Int) : TickPrice R := t.sub (ofTicks n)

def incr (t : TickPrice R) : TickPrice R := ofWholeTicks t.whole (t.ticks + 1)
def decr (t : TickPrice R) : TickPrice R := ofWholeTicks t.whole (t.ticks - 1)

/-- What every operation of the class leaves behind. -/
def Normal (t : TickPrice R) : Prop := 0 ≤ t.ticks ∧ t.ticks < R.ticksPerUnit

/-- The integer that `as_ticks` stands for. -/
def value (t : TickPrice R) : Int := R.ticksPerUnit * t.whole + t.ticks

theorem asTicks_eq {t : TickPrice R} (h : -2 ^ 63 ≤ t.value) (h' : t.value < 2 ^ 63) :
    t.asTicks = t.value := toLong_eq h h'

theorem ofWholeTicks_cases (whole ticks : Int) : (ofWholeTicks whole ticks : TickPrice R).Normal ∧
    (ofWholeTicks whole ticks : TickPrice R).value = R.ticksPerUnit * whole + ticks := by
  have hpos := R.ticksPerUnit_pos
  have hle := R.ticksPerUnit_le
  have hdiv := Int.mul_tdiv_add_tmod ticks R.ticksPerUnit
  have hlt := Int.tmod_lt_of_pos ticks (by omega : (0 : Int) < R.ticksPerUnit)
  have hgt := Int.lt_tmod_of_pos ticks (by omega : (0 : Int) < R.ticksPerUnit)
  unfold ofWholeTicks Normal value
  dsimp only
  split
  next h =>
    rw [toLong_eq (by omega) (by omega)]
    refine ⟨⟨?_, ?_⟩, ?_⟩
    · dsimp only
      omega
    · dsimp only
      omega
    · dsimp only
      rw [Int.mul_sub, Int.mul_add]
      omega
  next h =>
    refine ⟨⟨?_, hlt⟩, ?_⟩
    · dsimp only
      omega
    · dsimp only
      rw [Int.mul_add]
      omega

theorem normal_ofWholeTicks (whole ticks : Int) : (ofWholeTicks whole ticks : TickPrice R).Normal :=
  (ofWholeTicks_cases whole ticks).1

@[simp] theorem value_ofWholeTicks (whole ticks : Int) :
    (ofWholeTicks whole ticks : TickPrice R).value = R.ticksPerUnit * whole + ticks :=
  (ofWholeTicks_cases whole ticks).2

@[simp] theorem value_ofTicks (n : Int) : (ofTicks n : TickPrice R).value = n := by
  unfold ofTicks
  rw [value_ofWholeTicks]
  omega

@[simp] theorem value_add (t tr : TickPrice R) : (t.add tr).value = t.value + tr.value := by
  unfold add
  rw [value_ofWholeTicks]
  unfold value
  ring

@[simp] theorem value_sub (t tr : TickPrice R) : (t.sub tr).value = t.value - tr.value := by
  unfold sub
  rw [value_ofWholeTicks]
  unfold value
  ring

@[simp] theorem value_addTicks (t : TickPrice R) (n : Int) : (t.addTicks n).value = t.value + n := by
  unfold addTicks
  rw [value_ofWholeTicks]
  unfold value
  ring

@[simp] theorem value_subTicks (t : TickPrice R) (n : Int) : (t.subTicks n).value = t.value - n := by
  unfold subTicks
  rw [value_ofWholeTicks]
  unfold value
  ring

/-- Prices in normal form are ordered as their integers are. -/
theorem value_lt_value {a b : TickPrice R} (ha : a.Normal) (hb : b.Normal) :
    a.value < b.value ↔ a.whole < b.whole ∨ a.whole = b.whole ∧ a.ticks < b.ticks := by
  obtain ⟨ha0, hat⟩ := ha
  obtain ⟨hb0, hbt⟩ := hb
  unfold value
  rcases lt_trichotomy a.whole b.whole with h | h | h
  · have := Int.mul_le_mul_of_nonneg_left (Int.add_one_le_of_lt h) (Int.natCast_nonneg R.ticksPerUnit)
    rw [Int.mul_add] at this
    simp only [h, true_or, iff_true]
    omega
  · rw [h]
    omega
  · have := Int.mul_le_mul_of_nonneg_left (Int.add_one_le_of_lt h) (Int.natCast_nonneg R.ticksPerUnit)
    rw [Int.mul_add] at this
    omega

theorem ext_value {a b : TickPrice R} (ha : a.Normal) (hb : b.Normal) (h : a.value = b.value) :
    a = b := by
  have h1 := (value_lt_value ha hb).not.mp (by omega)
  have h2 := (value_lt_value hb ha).not.mp (by omega)
  obtain ⟨aw, at'⟩ := a
  obtain ⟨bw, bt⟩ := b
  simp only [TickPrice.mk.injEq] at *
  omega

/-- The prices that constructors and operators compute, each with its integer expression. -/
inductive Steps : TickPrice R → Int → Prop where
  | ofWholeTicks (whole ticks : Int) :
      Steps (.ofWholeTicks whole ticks) (R.ticksPerUnit * whole + ticks)
  | ofTicks (n : Int) : Steps (.ofTicks n) n
  | add {t tr : TickPrice R} {m n : Int} : Steps t m → Steps tr n → Steps (t.add tr) (m + n)
  | sub {t tr : TickPrice R} {m n : Int} : Steps t m → Steps tr n → Steps (t.sub tr) (m - n)
  | addTicks {t : TickPrice R} {m : Int} (n : Int) : Steps t m → Steps (t.addTicks n) (m + n)
  | subTicks {t : TickPrice R} {m : Int} (n : Int) : Steps t m → Steps (t.subTicks n) (m - n)
  | addAssignTicks {t : TickPrice R} {m : Int} (n : Int) :
      Steps t m → Steps (t.addAssignTicks n) (m + n)
  | subAssignTicks {t : TickPrice R} {m : Int} (n : Int) :
      Steps t m → Steps (t.subAssignTicks n) (m - n)
  | incr {t : TickPrice R} {m : Int} : Steps t m → Steps t.incr (m + 1)
  | decr {t : TickPrice R} {m : Int} : Steps t m → Steps t.decr (m - 1)

theorem Steps.normal {t : TickPrice R} {n : Int} (h : Steps t n) : t.Normal := by
  cases h <;> exact normal_ofWholeTicks ..

theorem Steps.value_eq {t : TickPrice R} {n : Int} (h : Steps t n) : t.value = n := by
  induction h with
  | ofWholeTicks whole ticks => exact value_ofWholeTicks whole ticks
  | ofTicks n => exact value_ofTicks n
  | add _ _ ih ih' => rw [value_add, ih, ih']
  | sub _ _ ih ih' => rw [value_sub, ih, ih']
  | addTicks n _ ih => rw [value_addTicks, ih]
  | subTicks n _ ih => rw [value_subTicks, ih]
  | addAssignTicks n _ ih => rw [TickPrice.addAssignTicks, value_add, value_ofTicks, ih]
  | subAssignTicks n _ ih => rw [TickPrice.subAssignTicks, value_sub, value_ofTicks, ih]
  | incr _ ih => exact (value_addTicks _ 1).trans (by rw [ih])
  | decr _ ih => exact (value_subTicks _ 1).trans (by rw [ih])

/-! ## Comparisons -/

def opEq (t tr : TickPrice R) : Bool := decide (t.whole = tr.whole) && decide (t.ticks = tr.ticks)
def opNe (t tr : TickPrice R) : Bool := !t.opEq tr

def opGt (t tr : TickPrice R) : Bool :=
  if t.whole > tr.whole then true
  else if t.whole = tr.whole then decide (t.ticks > tr.ticks) else false

def opLe (t tr : TickPrice R) : Bool := !t.opGt tr
def opGe (t tr : TickPrice R) : Bool := t.opGt tr || t.opEq tr
def opLt (t tr : TickPrice R) : Bool := !t.opGe tr

inductive Comparison where
  | eq | ne | lt | le | gt | ge
deriving DecidableEq

/-- A comparison of integers. -/
def Comparison.holds : Comparison → Int → Int → Bool
  | eq, m, n => decide (m = n)
  | ne, m, n => decide (m ≠ n)
  | lt, m, n => decide (m < n)
  | le, m, n => decide (m ≤ n)
  | gt, m, n => decide (m > n)
  | ge, m, n => decide (m ≥ n)

/-- The operator of the class for a comparison. -/
def compare : Comparison → TickPrice R → TickPrice R → Bool
  | .eq => opEq
  | .ne => opNe
  | .lt => opLt
  | .le => opLe
  | .gt => opGt
  | .ge => opGe

/-- The operators with a number of ticks on the right convert it. -/
def compareTicks (c : Comparison) (t : TickPrice R) (n : Int) : Bool := compare c t (ofTicks n)

/-- The operators with a number of ticks on the left. The source turns `>` into `<=`, `<=` into `>`,
`>=` into `<` and `<` into `>=`. -/
def compareReversed : Comparison → Int → TickPrice R → Bool
  | .eq, n, tr => compareTicks .eq tr n
  | .ne, n, tr => compareTicks .ne tr n
  | .gt, n, tr => compareTicks .le tr n
  | .le, n, tr => compareTicks .gt tr n
  | .ge, n, tr => compareTicks .lt tr n
  | .lt, n, tr => compareTicks .ge tr n

theorem normal_ofTicks (n : Int) : (ofTicks n : TickPrice R).Normal := normal_ofWholeTicks 0 n

section Compare
variable {a b : TickPrice R} (ha : a.Normal) (hb : b.Normal)
include ha hb

theorem opEq_iff : a.opEq b = true ↔ a.value = b.value := by
  unfold opEq
  rw [Bool.and_eq_true, decide_eq_true_iff, decide_eq_true_iff]
  constructor
  · rintro ⟨h, h'⟩
    unfold value
    rw [h, h']
  · intro h
    rw [ext_value ha hb h]
    exact ⟨rfl, rfl⟩

theorem opGt_iff : a.opGt b = true ↔ b.value < a.value := by
  rw [value_lt_value hb ha]
  unfold opGt
  split
  next h => simp [h]
  next h =>
    split
    next h' => simp [h']
    next h' =>
      simp only [Bool.false_eq_true, false_iff]
      omega

theorem compare_eq (c : Comparison) : compare c a b = c.holds a.value b.value := by
  have he := opEq_iff ha hb
  have hg := opGt_iff ha hb
  rw [Bool.eq_iff_iff]
  cases c <;>
    simp only [compare, Comparison.holds, opNe, opLe, opGe, opLt, decide_eq_true_eq,
      Bool.not_eq_true', Bool.or_eq_true, Bool.eq_false_iff, ne_eq, he, hg] <;>
    omega

end Compare

theorem compareTicks_eq {t : TickPrice R} (h : t.Normal) (c : Comparison) (n : Int) :
    compareTicks c t n = c.holds t.value n := by
  unfold compareTicks
  rw [compare_eq h (normal_ofTicks n), value_ofTicks]

/-- The operators with a number of ticks on the left answer rightly, but for the four orders at
equality. -/
theorem compareReversed_eq_iff {t : TickPrice R} (h : t.Normal) (c : Comparison) (n : Int) :
    compareReversed c n t = c.holds n t.value ↔ t.value ≠ n ∨ c = .eq ∨ c = .ne := by
  cases c <;> simp only [compareReversed, compareTicks_eq h, Comparison.holds, reduceCtorEq, or_false,
    or_true, iff_true, decide_eq_decide] <;> omega

/-- All eighteen operators on `a`, `b` and `n` are the comparisons of the integers, and those with
`n` on the left are the ones with `TickPrice(n)` there, if and only if `a` is not the price of `n`
ticks. -/
theorem comparisons_agree_iff {a b : TickPrice R} (ha : a.Normal) (hb : b.Normal) (n : Int) :
    (∀ c, compare c a b = c.holds a.value b.value ∧ compareTicks c a n = c.holds a.value n ∧
      compareReversed c n a = c.holds n a.value ∧
      compareReversed c n a = compare c (ofTicks n) a) ↔ a.value ≠ n := by
  constructor
  · intro h
    have := (compareReversed_eq_iff ha .lt n).mp (h .lt).2.2.1
    simpa using this
  · intro hne c
    have hrev := (compareReversed_eq_iff ha c n).mpr (.inl hne)
    refine ⟨compare_eq ha hb c, compareTicks_eq ha c n, hrev, hrev.trans ?_⟩
    rw [compare_eq (normal_ofTicks n) ha, value_ofTicks]

/-- With ticks of `1/4`, `6 > TickPrice(5)` holds and `6 <= TickPrice(5)` does not. -/
theorem comparisons_agree_quarters :
    compareReversed .gt 6 (ofTicks 5 : TickPrice (.inv 4 (by decide) (by decide))) = true ∧
      compareReversed .le 6 (ofTicks 5 : TickPrice (.inv 4 (by decide) (by decide))) = false :=
  have h := (comparisons_agree_iff (normal_ofTicks 5) (normal_ofTicks 5) 6).mpr (by decide)
  ⟨(h .gt).2.2.1, (h .le).2.2.1⟩

/-- `5 > TickPrice(5)` holds. -/
theorem reversed_gt_at_equality : ¬ ∀ (R : TickRatio) (a b : TickPrice R) (n : Int), a.Normal →
    b.Normal → ∀ c, compare c a b = c.holds a.value b.value ∧
      compareTicks c a n = c.holds a.value n ∧ compareReversed c n a = c.holds n a.value ∧
      compareReversed c n a = compare c (ofTicks n) a := fun h =>
  absurd (h (.inv 4 (by decide) (by decide)) (ofTicks 5) (ofTicks 5) 5 (normal_ofTicks 5)
    (normal_ofTicks 5) .gt).2.2.1 (by decide)

end TickPrice

/-! ## The external form -/

/-- `static_cast<long>` of a `double`. -/
def truncate (r : ℚ) : Int := if r < 0 then ⌈r⌉ else ⌊r⌋

/-- `std::round`. -/
def round (r : ℚ) : Int := if r < 0 then ⌈r - 1 / 2⌉ else ⌊r + 1 / 2⌋

/-- `round(log10(n))`: the logarithm and a half is half of the logarithm of `10 * n ^ 2`. -/
def roundLog10 (n : Nat) : Nat := Nat.log 10 (10 * n ^ 2) / 2

theorem le_roundLog10_iff {n : Nat} (hn : 0 < n) (m : Nat) :
    m ≤ roundLog10 n ↔ 10 ^ (2 * m) ≤ 10 * n ^ 2 := by
  have hne : 10 * n ^ 2 ≠ 0 := by positivity
  unfold roundLog10
  rw [Nat.le_div_iff_mul_le (by decide), Nat.mul_comm m 2]
  exact Nat.le_log_iff_pow_le (by decide) hne

namespace TickRatio
variable (R : TickRatio)

/-- `tp::round_precision`. -/
def roundPrecision : Nat := max 5 (roundLog10 (R.den / R.num))

def radj : Nat := 10 ^ R.roundPrecision

def tickSize : ℚ := R.num / R.den

theorem tickSize_eq : R.tickSize = 1 / R.ticksPerUnit := by
  rw [tickSize, ticksPerUnit_eq, R.num_eq_one, Nat.cast_one]

theorem radj_pos : 0 < R.radj := Nat.pow_pos (by decide)

/-- Between `10 ^ 5` and the square root of `10 ^ 11` ticks the logarithm is rounded down to the
five digits that are always there. -/
theorem ticksPerUnit_le_radj_iff :
    R.ticksPerUnit ≤ R.radj ↔ R.ticksPerUnit ≤ 100000 ∨ 316228 ≤ R.ticksPerUnit := by
  have hpos := R.ticksPerUnit_pos
  have hle := R.ticksPerUnit_le
  have hprec : R.roundPrecision = max 5 (roundLog10 R.ticksPerUnit) := rfl
  have h6 := le_roundLog10_iff hpos 6
  have hsq : 10 ^ (2 * 6) ≤ 10 * R.ticksPerUnit ^ 2 ↔ 316228 ≤ R.ticksPerUnit := by
    constructor
    · intro h
      by_contra hlt
      have := Nat.pow_le_pow_left (show R.ticksPerUnit ≤ 316227 by omega) 2
      omega
    · intro h
      have := Nat.pow_le_pow_left h 2
      omega
  rw [hsq] at h6
  unfold radj
  constructor
  · intro h
    by_contra hno
    have : R.roundPrecision = 5 := by omega
    rw [this] at h
    omega
  · rintro (h | h)
    · exact h.trans (Nat.pow_le_pow_right (show 0 < 10 by decide) (show 5 ≤ _ by omega))
    · exact hle.trans (Nat.pow_le_pow_right (show 0 < 10 by decide) (show 6 ≤ _ by omega))

end TickRatio

namespace TickPrice
variable {R : TickRatio}

/-- `operator double`. -/
def toDouble (t : TickPrice R) : ℚ := round ((t.whole + t.ticks * R.tickSize) * R.radj) / R.radj

/-- `TickPrice(double r)`. -/
def ofDouble (r : ℚ) : TickPrice R :=
  let whole := truncate r - if r < 0 then 1 else 0
  let ticks := round ((r - whole) * R.ticksPerUnit)
  if ticks = R.ticksPerUnit then ⟨whole + 1, 0⟩ else ⟨whole, ticks⟩

/-- A fraction of non-negative integers rounded half up. -/
def nearest (a b : Nat) : Nat := (2 * a + b) / (2 * b)

theorem round_div {a b : Nat} (hb : 0 < b) : round ((a : ℚ) / b) = nearest a b := by
  have hb' : (b : ℚ) ≠ 0 := by positivity
  have hnn : ¬ (a : ℚ) / b < 0 := not_lt.mpr (by positivity)
  have hsum : (a : ℚ) / b + 1 / 2 = ((2 * a + b : Nat) : ℚ) / ((2 * b : Nat) : ℚ) := by
    push_cast
    field_simp
  unfold round nearest
  rw [if_neg hnn, hsum, Rat.floor_natCast_div_natCast]
  norm_cast

/-- The fraction of a unit, in multiples of `1 / radj`, that the external form shows. -/
def shown (R : TickRatio) (k : Nat) : Nat := nearest (k * R.radj) R.ticksPerUnit

theorem toDouble_eq (w k : Nat) :
    toDouble (⟨w, k⟩ : TickPrice R) = ((w * R.radj + shown R k : Nat) : ℚ) / R.radj := by
  have hpos := R.ticksPerUnit_pos
  have hne : (R.ticksPerUnit : ℚ) ≠ 0 := by positivity
  have hfrac : ((w : ℚ) + k * R.tickSize) * R.radj
      = ((w * R.radj * R.ticksPerUnit + k * R.radj : Nat) : ℚ) / R.ticksPerUnit := by
    rw [R.tickSize_eq]
    push_cast
    field_simp
  have hround : nearest (w * R.radj * R.ticksPerUnit + k * R.radj) R.ticksPerUnit
      = w * R.radj + shown R k := by
    unfold shown nearest
    rw [show 2 * (w * R.radj * R.ticksPerUnit + k * R.radj) + R.ticksPerUnit
        = (2 * (k * R.radj) + R.ticksPerUnit) + 2 * R.ticksPerUnit * (w * R.radj) by ring,
      Nat.add_mul_div_left _ _ (by omega), Nat.add_comm]
  unfold toDouble
  dsimp only
  rw [Int.cast_natCast, Int.cast_natCast, hfrac, round_div hpos, hround, Int.cast_natCast]

/-- A fraction below one unit is read as the tick that is nearest. -/
theorem ofDouble_div (w : Nat) {j : Nat} (hj : j < R.radj)
    (hlt : nearest (j * R.ticksPerUnit) R.radj < R.ticksPerUnit) :
    (ofDouble (((w * R.radj + j : Nat) : ℚ) / R.radj) : TickPrice R)
      = ⟨w, nearest (j * R.ticksPerUnit) R.radj⟩ := by
  have hpos := R.radj_pos
  have hne : (R.radj : ℚ) ≠ 0 := by positivity
  have hnn : ¬ ((w * R.radj + j : Nat) : ℚ) / R.radj < 0 := not_lt.mpr (by positivity)
  have hwhole : truncate (((w * R.radj + j : Nat) : ℚ) / R.radj) = w := by
    unfold truncate
    rw [if_neg hnn, Rat.floor_natCast_div_natCast]
    norm_cast
    rw [Nat.add_comm, Nat.add_mul_div_right _ _ hpos, Nat.div_eq_of_lt hj, Nat.zero_add]
  have hfrac : (((w * R.radj + j : Nat) : ℚ) / R.radj - ((w : Int) : ℚ)) * R.ticksPerUnit
      = ((j * R.ticksPerUnit : Nat) : ℚ) / R.radj := by
    push_cast
    field_simp
    ring
  unfold ofDouble
  simp only [hwhole, if_neg hnn, Int.sub_zero, hfrac, round_div hpos]
  rw [if_neg (by omega)]

/-- Rounding to at least as many steps as there are ticks loses nothing. -/
theorem nearest_shown {k : Nat} (hk : k < R.ticksPerUnit) (hle : R.ticksPerUnit ≤ R.radj) :
    shown R k < R.radj ∧ nearest (shown R k * R.ticksPerUnit) R.radj = k := by
  have hpos := R.ticksPerUnit_pos
  unfold shown nearest
  generalize hj : (2 * (k * R.radj) + R.ticksPerUnit) / (2 * R.ticksPerUnit) = j
  obtain ⟨hlow, hhigh⟩ := (Nat.div_eq_iff (by omega)).mp hj
  generalize R.ticksPerUnit = N at *
  generalize R.radj = M at *
  have hkM : (k + 1) * M ≤ N * M := Nat.mul_le_mul_right M hk
  rw [Nat.add_mul] at hkM
  refine ⟨?_, (Nat.div_eq_iff (by omega)).mpr ⟨?_, ?_⟩⟩
  · by_contra hge
    have : M * (2 * N) ≤ j * (2 * N) := Nat.mul_le_mul_right _ (by omega)
    rw [show M * (2 * N) = 2 * (N * M) by ring] at this
    omega
  · rw [show k * (2 * M) = 2 * (k * M) by ring]
    rw [show j * (2 * N) = 2 * (j * N) by ring] at hhigh
    omega
  · rw [show k * (2 * M) = 2 * (k * M) by ring]
    rw [show j * (2 * N) = 2 * (j * N) by ring] at hlow
    rcases Nat.lt_or_ge N M with hlt | hge
    · omega
    · -- as many steps as ticks: nothing is rounded
      obtain rfl : N = M := by omega
      have : j * N < (k + 1) * N := by
        rw [Nat.add_mul]
        omega
      have := Nat.mul_le_mul_right N (Nat.le_of_lt_succ (Nat.lt_of_mul_lt_mul_right this))
      omega

theorem ofDouble_toDouble {t : TickPrice R} (ht : t.Normal) (hw : 0 ≤ t.whole)
    (hle : R.ticksPerUnit ≤ R.radj) : ofDouble (toDouble t) = t := by
  obtain ⟨whole, ticks⟩ := t
  obtain ⟨w, rfl⟩ := Int.eq_ofNat_of_zero_le hw
  obtain ⟨k, rfl⟩ := Int.eq_ofNat_of_zero_le ht.1
  have hk : k < R.ticksPerUnit := Int.ofNat_lt.mp ht.2
  obtain ⟨hlt, hnear⟩ := nearest_shown hk hle
  rw [toDouble_eq, ofDouble_div w hlt (by rwa [hnear]), hnear]

/-- The ticks of one unit and the next unit, all shown differently, need as many steps. -/
theorem le_radj_of_injective
    (h : ∀ s t : TickPrice R, s.Normal → t.Normal → 0 ≤ s.whole → 0 ≤ t.whole →
      toDouble s = toDouble t → s = t) : R.ticksPerUnit ≤ R.radj := by
  have hpos := R.ticksPerUnit_pos
  have hnormal (k : Nat) (w : Int) (hk : k < R.ticksPerUnit) : (⟨w, k⟩ : TickPrice R).Normal :=
    ⟨Int.natCast_nonneg k, Int.ofNat_lt.mpr hk⟩
  have hinj (k l w x : Nat) (hk : k < R.ticksPerUnit) (hl : l < R.ticksPerUnit)
      (heq : w * R.radj + shown R k = x * R.radj + shown R l) : w = x ∧ k = l := by
    have := h ⟨w, k⟩ ⟨x, l⟩ (hnormal k w hk) (hnormal l x hl) (Int.natCast_nonneg w)
      (Int.natCast_nonneg x) (by rw [toDouble_eq, toDouble_eq, heq])
    simpa using this
  have hshown (k : Nat) (hk : k < R.ticksPerUnit) : shown R k < R.radj := by
    have hle : shown R k ≤ R.radj := by
      have : (k + 1) * R.radj ≤ R.ticksPerUnit * R.radj := Nat.mul_le_mul_right _ hk
      rw [Nat.add_mul] at this
      unfold shown nearest
      refine Nat.le_of_lt_succ ((Nat.div_lt_iff_lt_mul (by omega)).mpr ?_)
      rw [show (R.radj + 1) * (2 * R.ticksPerUnit)
        = 2 * (R.ticksPerUnit * R.radj) + 2 * R.ticksPerUnit by ring]
      have := R.radj_pos
      omega
    refine lt_of_le_of_ne hle fun heq => ?_
    have hzero : shown R 0 = 0 := by
      unfold shown nearest
      rw [Nat.zero_mul, Nat.mul_zero, Nat.zero_add]
      exact Nat.div_eq_of_lt (by omega)
    have := hinj k 0 0 1 hk hpos (by omega)
    omega
  by_contra hlt
  obtain ⟨k, hk, l, hl, hne, heq⟩ := Finset.exists_ne_map_eq_of_card_lt_of_maps_to
    (s := Finset.range R.ticksPerUnit) (t := Finset.range R.radj) (f := shown R)
    (by rw [Finset.card_range, Finset.card_range]; omega)
    (fun k hk => Finset.mem_coe.mpr (Finset.mem_range.mpr (hshown k (Finset.mem_range.mp hk))))
  exact hne (hinj k l 0 0 (Finset.mem_range.mp hk) (Finset.mem_range.mp hl) (by rw [heq])).2

/-- Every price that is not negative survives its external form if and only if a unit has at most
`10 ^ 5` ticks or at least as many as the logarithm rounds up to `6`. -/
theorem roundTrip_iff (R : TickRatio) :
    (∀ t : TickPrice R, t.Normal → 0 ≤ t.whole → ofDouble (toDouble t) = t)
      ↔ R.ticksPerUnit ≤ 100000 ∨ 316228 ≤ R.ticksPerUnit := by
  rw [← R.ticksPerUnit_le_radj_iff]
  constructor
  · intro h
    refine le_radj_of_injective fun s t hs ht hsw htw heq => ?_
    rw [← h s hs hsw, heq, h t ht htw]
  · intro hle t ht hw
    exact ofDouble_toDouble ht hw hle

/-- One tick of `1/200000` is shown as `0.00001` and read as two ticks. -/
theorem roundTrip_200000 : ¬ ∀ (R : TickRatio) (t : TickPrice R), t.Normal → 0 ≤ t.whole →
    ofDouble (toDouble t) = t := by
  intro h
  have := h (.inv 200000 (by decide) (by decide)) ⟨0, 1⟩ ⟨by decide, by decide⟩ (by decide)
  exact absurd this (by decide +kernel)

end TickPrice
end SimpleOrderbook
