import SimpleOrderbook.TickPrice
import SimpleOrderbook.Windows

/-!
# Levels and prices

`_itop` and `_ptoi` with the prices of the source. The book keeps its lowest price, `_base`, as a
`TickPrice`; elsewhere in this development it is the number of its ticks.
-/
namespace SimpleOrderbook

/-- A book with its `_base`. -/
structure TickBook (R : TickRatio) where
  base : TickPrice R
  sob : Sob
  normal : base.Normal
  base_eq : sob.base = base.value

namespace TickBook
variable {R : TickRatio} (b : TickBook R)

/-- `_itop` -/
def itop (p : Nat) : TickPrice R :=
  b.base.addTicks (if p < beg then 2 ^ 59 - 1 else (p : Int) - beg)

/-- `_ptoi` -/
def ptoi (price : TickPrice R) : Int := beg + (price.sub b.base).asTicks

theorem growBook_base {s : Sob} {min : Int} {incr : Nat} {atBeg : Bool} (hincr : incr ≠ 0) :
    (SimpleOrderbook.growBook min incr atBeg s).base = min := by
  rw [growBook_of_ne hincr]
  rfl

/-- `_grow_book` -/
def growBook (min : TickPrice R) (hmin : min.Normal) (incr : Nat) (atBeg : Bool) : TickBook R :=
  if h : incr = 0 then b
  else ⟨min, SimpleOrderbook.growBook min.value incr atBeg b.sob, hmin, growBook_base h⟩

/-- `grow_book_above` -/
def growBookAbove (newMax : TickPrice R) : Except Err (TickBook R) :=
  let diff := newMax.sub (b.itop (b.sob.end_ - 1))
  if TickPrice.compareTicks .gt diff longMax then
    throw (.invalidArgument "new_max too far from old max to grow")
  else if TickPrice.compareTicks .gt diff 0 then
    return b.growBook b.base b.normal diff.asTicks.toNat false
  else return b

/-- The base `grow_book_below` goes down to. -/
def newBase (newMin : TickPrice R) (hmin : newMin.Normal) : {t : TickPrice R // t.Normal} :=
  if TickPrice.compareTicks .lt newMin 1 then ⟨.ofTicks 1, TickPrice.normal_ofTicks 1⟩
  else ⟨newMin, hmin⟩

/-- `grow_book_below` -/
def growBookBelow (newMin : TickPrice R) (hmin : newMin.Normal) : Except Err (TickBook R) :=
  if TickPrice.compareTicks .eq b.base 1 then return b
  else
    let newBase := newBase newMin hmin
    let diff := b.base.sub newBase
    if TickPrice.compareTicks .gt diff longMax then
      throw (.invalidArgument "new_min too far from old min to grow")
    else if TickPrice.compareTicks .gt diff 0 then
      return b.growBook newBase newBase.2 diff.asTicks.toNat true
    else return b

theorem value_newBase {newMin : TickPrice R} (hmin : newMin.Normal) :
    (newBase newMin hmin).1.value = if newMin.value < 1 then 1 else newMin.value := by
  unfold newBase
  rw [TickPrice.compareTicks_eq hmin]
  simp only [TickPrice.Comparison.holds, decide_eq_true_eq]
  split
  · exact TickPrice.value_ofTicks 1
  · rfl

@[simp] theorem value_itop (p : Nat) : (b.itop p).value = b.sob.itop p := by
  unfold itop Sob.itop
  rw [TickPrice.value_addTicks, b.base_eq]

theorem normal_itop (p : Nat) : (b.itop p).Normal := TickPrice.normal_ofWholeTicks ..

/-- No price of the book, and no distance in it, overflows a `long long`. -/
def Fits : Prop :=
  -2 ^ 63 ≤ b.base.value ∧ b.base.value + b.sob.end_ ≤ 2 ^ 63 ∧ b.sob.end_ ≤ 2 ^ 63

end TickBook

/-- A difference that passed the check of its size is what `as_ticks` says. -/
theorem TickPrice.asTicks_of_positive {R : TickRatio} {t : TickPrice R} (h0 : 0 < t.value)
    (hle : ¬ t.value > longMax) : t.asTicks = t.value :=
  TickPrice.asTicks_eq (by omega) (by unfold longMax at hle; omega)

namespace TickBook
variable {R : TickRatio} {b b' : TickBook R}

/-! ## Growing with prices is growing with ticks -/

theorem growBook_sob (min : TickPrice R) (hmin : min.Normal) (incr : Nat) (atBeg : Bool) :
    (b.growBook min hmin incr atBeg).sob = SimpleOrderbook.growBook min.value incr atBeg b.sob := by
  unfold growBook
  split
  next h =>
    unfold SimpleOrderbook.growBook
    rw [if_pos h]
  next => rfl

theorem growBook_base_of_ne {min : TickPrice R} {hmin : min.Normal} {incr : Nat} {atBeg : Bool}
    (hincr : incr ≠ 0) : (b.growBook min hmin incr atBeg).base = min := by
  unfold growBook
  rw [dif_neg hincr]

/-- `grow_book_above` by the integers of its prices. -/
theorem growBookAbove_eq (newMax : TickPrice R) : b.growBookAbove newMax =
    let diff := newMax.value - b.sob.itop (b.sob.end_ - 1)
    if diff > longMax then throw (.invalidArgument "new_max too far from old max to grow")
    else if diff > 0 then return b.growBook b.base b.normal diff.toNat false else return b := by
  have hdiff : (newMax.sub (b.itop (b.sob.end_ - 1))).Normal := TickPrice.normal_ofWholeTicks ..
  have hval : (newMax.sub (b.itop (b.sob.end_ - 1))).value
      = newMax.value - b.sob.itop (b.sob.end_ - 1) := by
    rw [TickPrice.value_sub, value_itop]
  unfold growBookAbove
  simp only [TickPrice.compareTicks_eq hdiff, TickPrice.Comparison.holds, hval, decide_eq_true_eq]
  split
  next => rfl
  next hle =>
    split
    next h0 => rw [TickPrice.asTicks_of_positive (by omega) (by omega), hval]
    next => rfl

/-- `grow_book_below` by the integers of its prices. -/
theorem growBookBelow_eq {newMin : TickPrice R} (hmin : newMin.Normal) :
    b.growBookBelow newMin hmin =
    if b.sob.base = 1 then return b
    else
      let newBase := newBase newMin hmin
      let diff := b.sob.base - newBase.1.value
      if diff > longMax then throw (.invalidArgument "new_min too far from old min to grow")
      else if diff > 0 then return b.growBook newBase newBase.2 diff.toNat true else return b := by
  have hdiff : (b.base.sub (newBase newMin hmin)).Normal := TickPrice.normal_ofWholeTicks ..
  have hval : (b.base.sub (newBase newMin hmin)).value
      = b.sob.base - (newBase newMin hmin).1.value := by
    rw [TickPrice.value_sub, b.base_eq]
  unfold growBookBelow
  simp only [TickPrice.compareTicks_eq b.normal, TickPrice.compareTicks_eq hdiff,
    TickPrice.Comparison.holds, decide_eq_true_eq, ← b.base_eq, hval]
  split
  next => rfl
  next =>
    split
    next => rfl
    next hle =>
      split
      next h0 => rw [TickPrice.asTicks_of_positive (by omega) (by omega), hval]
      next => rfl

theorem growBookAbove_sob (newMax : TickPrice R) :
    (b.growBookAbove newMax).map (·.sob)
      = SimpleOrderbook.growBookAbove newMax.value b.sob := by
  rw [growBookAbove_eq]
  unfold SimpleOrderbook.growBookAbove
  dsimp only
  split
  next => rfl
  next =>
    split
    next => exact congrArg Except.ok ((growBook_sob ..).trans (by rw [b.base_eq]))
    next => rfl

theorem growBookBelow_sob {newMin : TickPrice R} (hmin : newMin.Normal) :
    (b.growBookBelow newMin hmin).map (·.sob)
      = SimpleOrderbook.growBookBelow newMin.value b.sob := by
  rw [growBookBelow_eq]
  unfold SimpleOrderbook.growBookBelow
  simp only [← value_newBase hmin]
  split
  next => rfl
  next =>
    split
    next => rfl
    next =>
      split
      next => exact congrArg Except.ok (growBook_sob ..)
      next => rfl

/-! ## Sequences of growths -/

/-- Growths that add `k` levels in front of those of `b`. -/
inductive Growths (b : TickBook R) : Nat → TickBook R → Prop where
  | refl : Growths b 0 b
  | aboveMax {k : Nat} {b' b'' : TickBook R} (newMax : TickPrice R) : newMax.Normal →
      Growths b k b' → b'.growBookAbove newMax = .ok b'' → Growths b k b''
  | belowMin {k : Nat} {b' b'' : TickBook R} (newMin : TickPrice R) (hmin : newMin.Normal) :
      Growths b k b' → b'.growBookBelow newMin hmin = .ok b'' →
      Growths b (k + (b'.base.value - b''.base.value).toNat) b''

/-- The levels of `b` are those of `b'` from `k` on, at their old prices. -/
structure Embeds (b : TickBook R) (k : Nat) (b' : TickBook R) : Prop where
  base : b'.base.value + k = b.base.value
  end_ : b.sob.end_ + k ≤ b'.sob.end_
  level : ∀ p, b'.sob.book (p + k) = b.sob.book p

theorem Embeds.trans {b'' : TickBook R} {k l : Nat} (h : Embeds b k b') (h' : Embeds b' l b'') :
    Embeds b (k + l) b'' where
  base := by
    have := h.base
    have := h'.base
    omega
  end_ := by
    have := h.end_
    have := h'.end_
    omega
  level p := by rw [← Nat.add_assoc, h'.level, h.level]

/-- What one growth does, at either end. -/
theorem growBook_embeds {min : TickPrice R} {hmin : min.Normal} {incr : Nat} (atBeg : Bool)
    (hbase : min.value + growOffset incr atBeg = b.base.value) :
    Embeds b (growOffset incr atBeg) (b.growBook min hmin incr atBeg) := by
  have hsob : (b.growBook min hmin incr atBeg).sob = _ := growBook_sob min hmin incr atBeg
  by_cases hincr : incr = 0
  · have hoff : growOffset incr atBeg = 0 := by
      unfold growOffset
      split <;> omega
    unfold growBook
    rw [dif_pos hincr, hoff]
    exact ⟨Int.add_zero _, le_rfl, fun p => rfl⟩
  · refine ⟨?_, ?_, fun p => ?_⟩
    · rw [← (b.growBook min hmin incr atBeg).base_eq, hsob, growBook_base hincr]
      exact hbase
    · rw [hsob, end_growBook hincr]
      exact Nat.add_le_add_left growOffset_le _
    · rw [hsob, growBook_of_ne hincr]
      change (if p + growOffset incr atBeg < growOffset incr atBeg then _ else _) = _
      rw [if_neg (by omega), Nat.add_sub_cancel]

theorem growBookAbove_embeds {newMax : TickPrice R}
    (h : b.growBookAbove newMax = .ok b') : Embeds b 0 b' := by
  have hrefl : Embeds b 0 b := ⟨Int.add_zero _, le_rfl, fun p => rfl⟩
  rw [growBookAbove_eq] at h
  dsimp only at h
  split at h
  next => exact nomatch h
  next =>
    split at h
    next =>
      obtain rfl := Except.ok.inj h
      exact growBook_embeds false (Int.add_zero _)
    next => exact Except.ok.inj h ▸ hrefl

theorem growBookBelow_embeds {newMin : TickPrice R} {hmin : newMin.Normal}
    (h : b.growBookBelow newMin hmin = .ok b') :
    Embeds b (b.base.value - b'.base.value).toNat b' := by
  have hrefl : Embeds b (b.base.value - b.base.value).toNat b := by
    rw [Int.sub_self]
    exact ⟨Int.add_zero _, le_rfl, fun p => rfl⟩
  rw [growBookBelow_eq] at h
  dsimp only at h
  split at h
  next => exact Except.ok.inj h ▸ hrefl
  next =>
    split at h
    next => exact nomatch h
    next =>
      split at h
      next hpos =>
        obtain rfl := Except.ok.inj h
        rw [growBook_base_of_ne (by omega), ← b.base_eq]
        refine growBook_embeds true ?_
        change (newBase newMin hmin).1.value + ((_ : Int).toNat : Int) = _
        rw [← b.base_eq]
        omega
      next => exact Except.ok.inj h ▸ hrefl

theorem Growths.embeds {k : Nat} (h : Growths b k b') : Embeds b k b' := by
  induction h with
  | refl => exact ⟨Int.add_zero _, le_rfl, fun p => rfl⟩
  | aboveMax newMax _ _ hgrow ih => exact ih.trans (growBookAbove_embeds hgrow)
  | belowMin newMin hmin _ hgrow ih => exact ih.trans (growBookBelow_embeds hgrow)

/-! ## Conversions -/

theorem ptoi_itop (hfits : b.Fits) {p : Nat} (hp : beg ≤ p) (hpe : p < b.sob.end_) :
    b.ptoi (b.itop p) = p := by
  have hval : ((b.itop p).sub b.base).value = (p : Int) - beg := by
    rw [TickPrice.value_sub, value_itop, Sob.itop_of_beg_le _ hp, b.base_eq]
    omega
  obtain ⟨-, -, hsize⟩ := hfits
  unfold ptoi
  rw [TickPrice.asTicks_eq (by omega) (by omega), hval]
  omega

theorem asTicks_itop (hfits : b.Fits) {p : Nat} (hp : beg ≤ p) (hpe : p < b.sob.end_) :
    (b.itop p).asTicks = b.sob.itop p := by
  obtain ⟨hlow, hhigh, -⟩ := hfits
  have hval : b.sob.itop p = b.base.value + ((p : Int) - beg) := by
    rw [Sob.itop_of_beg_le _ hp, b.base_eq]
  rw [TickPrice.asTicks_eq, value_itop] <;>
    rw [value_itop, hval] <;> unfold beg at * <;> omega

theorem itop_lt_itop {p q : Nat} (hp : beg ≤ p) (hq : beg ≤ q) :
    (b.itop p).opLt (b.itop q) = true ↔ p < q := by
  have h := TickPrice.compare_eq (b.normal_itop p) (b.normal_itop q) .lt
  rw [value_itop, value_itop] at h
  change (b.itop p).opLt (b.itop q) = _ at h
  rw [h, TickPrice.Comparison.holds, decide_eq_true_iff, Sob.itop_of_beg_le _ hp,
    Sob.itop_of_beg_le _ hq]
  omega

theorem Embeds.itop_eq {k : Nat} (h : Embeds b k b') {p : Nat} (hp : beg ≤ p) :
    b'.itop (p + k) = b.itop p := by
  refine TickPrice.ext_value (b'.normal_itop _) (b.normal_itop p) ?_
  have := h.base
  rw [value_itop, value_itop, Sob.itop_of_beg_le _ (hp.trans (Nat.le_add_right p k)),
    Sob.itop_of_beg_le _ hp, b.base_eq, b'.base_eq]
  omega

/-- After any growths, levels and prices correspond one to one and in order, one tick a level, and the
level that holds the chains of an old one has its price. What constructors and operators compute is a
price in normal form, and `as_ticks` is the integer they stand for when that does not overflow. -/
theorem levels_are_prices {k : Nat} (h : Growths b k b') :
    (∀ p q, beg ≤ p → p < b'.sob.end_ → beg ≤ q → q < b'.sob.end_ →
      ((b'.itop p).opLt (b'.itop q) = true ↔ p < q) ∧
      (b'.Fits → b'.ptoi (b'.itop p) = p ∧
        (b'.itop q).asTicks - (b'.itop p).asTicks = (q : Int) - p)) ∧
    (∀ p, beg ≤ p → p < b.sob.end_ → p + k < b'.sob.end_ ∧
      b'.sob.book (p + k) = b.sob.book p ∧ b'.itop (p + k) = b.itop p) ∧
    ∀ (t : TickPrice R) n, t.Steps n → t.Normal ∧ (-2 ^ 63 ≤ n → n < 2 ^ 63 → t.asTicks = n) := by
  refine ⟨fun p q hp hpe hq hqe => ⟨itop_lt_itop hp hq, fun hfits => ⟨ptoi_itop hfits hp hpe, ?_⟩⟩,
    fun p hp hpe => ?_, fun t n ht => ⟨ht.normal, fun hlow hhigh => ?_⟩⟩
  · rw [asTicks_itop hfits hp hpe, asTicks_itop hfits hq hqe, Sob.itop_of_beg_le _ hp,
      Sob.itop_of_beg_le _ hq]
    omega
  · have := h.embeds.end_
    exact ⟨by omega, h.embeds.level p, h.embeds.itop_eq hp⟩
  · rw [TickPrice.asTicks_eq (by rwa [ht.value_eq]) (by rwa [ht.value_eq]), ht.value_eq]

/-- A book of quarters from `5/4` on that grows above and below. -/
theorem levels_are_prices_quarters :
    let b : TickBook (.inv 4 (by decide) (by decide)) :=
      ⟨.ofTicks 5, Sob.init 5 8, TickPrice.normal_ofTicks 5, rfl⟩
    ∃ b', Growths b 3 b' ∧ b'.sob.end_ = 17 ∧ b'.ptoi (b'.itop 9) = 9 ∧ b'.itop (4 + 3) = b.itop 4 := by
  intro b
  have h := (Growths.refl (b := b)).aboveMax (.ofTicks 17) (TickPrice.normal_ofTicks 17)
    ((growBookAbove_eq _).trans rfl)
  have h' := h.belowMin (.ofTicks 2) (TickPrice.normal_ofTicks 2) ((growBookBelow_eq _).trans rfl)
  have hall := levels_are_prices h'
  exact ⟨_, h', rfl, ((hall.1 9 9 (by decide) (by decide) (by decide) (by decide)).2
      ⟨by decide, by decide, by decide⟩).1,
    (hall.2.1 4 (by decide) (by decide)).2.2⟩

end TickBook
end SimpleOrderbook
