import SimpleOrderbook.Scan
import SimpleOrderbook.Resident
import SimpleOrderbook.Growth
import Mathlib.Order.Bounds.Basic

/-!
# The windows of the all-or-none chains

`exec::aon` keeps the lowest and the highest level with an all-or-none chain for each side. An order
that comes widens the window of its side, and when the chain at one end of the window is emptied,
the end is moved to the next chain. At the low end of the buys the source looks no further than
`_high_sell_aon`, and an order of a limit chain is always copied to the buys.

## Main results

* `Spans` — the ends of a window are the least and the greatest level, or the sentinels.
* `Run.aon_windows_exact` — the windows span the chains, in runs where the low end is found again.
-/
namespace SimpleOrderbook

/-! ## Windows and levels -/

/-- Window `w` of a book that ends at `end_` spans the levels `L`. -/
def Spans (L : Set Nat) (end_ : Nat) (w : Nat × Nat) : Prop :=
  L = ∅ ∧ w = (end_, beg - 1) ∨ IsLeast L w.1 ∧ IsGreatest L w.2

namespace Spans
variable {L : Set Nat} {end_ p : Nat} {w : Nat × Nat}

theorem insert (h : Spans L end_ w) (hp : p < end_) :
    Spans (insert p L) end_ (min p w.1, max p w.2) := by
  rcases h with ⟨rfl, rfl⟩ | ⟨hlow, hhigh⟩
  · have hmin : min p end_ = p := min_eq_left hp.le
    have hmax : max p (beg - 1) = p := max_eq_left (Nat.zero_le p)
    refine .inr ⟨?_, ?_⟩
    · simp [hmin, isLeast_singleton]
    · simp [hmax, isGreatest_singleton]
  · exact .inr ⟨hlow.insert p, hhigh.insert p⟩

theorem insert_of_mem (h : Spans L end_ w) (hp : p < end_) (hw : w.1 ≤ p ∧ p ≤ w.2) :
    Spans (Insert.insert p L) end_ w := by
  have hins := h.insert hp
  rwa [min_eq_right hw.1, max_eq_right hw.2] at hins

end Spans

/-- A window with nothing in it goes back to the sentinels. -/
def closeWindow (end_ : Nat) (w : Nat × Nat) : Nat × Nat := if w.2 < w.1 then (end_, beg - 1) else w

theorem Spans.closeWindow {L : Set Nat} {end_ : Nat} {w : Nat × Nat}
    (h : L = ∅ ∧ w.2 < w.1 ∨ IsLeast L w.1 ∧ IsGreatest L w.2) :
    Spans L end_ (closeWindow end_ w) := by
  unfold SimpleOrderbook.closeWindow
  rcases h with ⟨hL, hlt⟩ | ⟨hlow, hhigh⟩
  · rw [if_pos hlt]
    exact .inl ⟨hL, rfl⟩
  · rw [if_neg (not_lt.mpr (hlow.2 hhigh.1))]
    exact .inr ⟨hlow, hhigh⟩

/-- The levels at which a side has an all-or-none order. -/
def Sob.AonLevels (s : Sob) (buys : Bool) : Set Nat := {p | (s.aons buys p).elems ≠ []}

/-- The bounds of the all-or-none orders of a side. -/
def Sob.aonWindow (s : Sob) (buys : Bool) : Nat × Nat :=
  if buys then (s.lowBuyAon, s.highBuyAon) else (s.lowSellAon, s.highSellAon)

/-- The bounds of a side are the lowest and the highest level with an all-or-none order. -/
def Sob.AonExact (s : Sob) (buys : Bool) : Prop := Spans (s.AonLevels buys) s.end_ (s.aonWindow buys)

/-- The bounds are sentinels or levels of the book. -/
def Sob.AonInside (s : Sob) : Prop :=
  ∀ buys, beg ≤ (s.aonWindow buys).1 ∧ (s.aonWindow buys).1 ≤ s.end_ ∧
    beg - 1 ≤ (s.aonWindow buys).2 ∧ (s.aonWindow buys).2 < s.end_

/-- When the chain at the low end of the buys is emptied, the scan that is bounded by the sells comes
to the next one. -/
def Sob.NextBuyReached (s : Sob) (p : Nat) : Prop :=
  p = s.lowBuyAon → p ≠ s.highBuyAon →
    ∃ q ∈ s.AonLevels true, p < q ∧ q ≤ s.highSellAon + 1

/-- No chain is there without orders. -/
def Sob.AonsFull (s : Sob) : Prop := ∀ buys p, s.aons buys p ≠ some []

/-- What the windows and the levels they span depend on. -/
def Sob.aonView (s : Sob) :=
  ((fun buys p => (s.aons buys p).map List.length), s.aonPointers, s.end_)

section Adjust
variable {s s' : Sob} {buys side : Bool} {p : Nat}

theorem aonWindow_of_pointers (h : s'.aonPointers = s.aonPointers) (buys : Bool) :
    s'.aonWindow buys = s.aonWindow buys := by
  have h1 : s'.lowBuyAon = s.lowBuyAon := congrArg (·.1) h
  have h2 : s'.highBuyAon = s.highBuyAon := congrArg (·.2.1) h
  have h3 : s'.lowSellAon = s.lowSellAon := congrArg (·.2.2.1) h
  have h4 : s'.highSellAon = s.highSellAon := congrArg (·.2.2.2) h
  unfold Sob.aonWindow
  rw [h1, h2, h3, h4]

theorem mem_aonLevels (hf : s.AonsFull) : p ∈ s.AonLevels buys ↔ s.aons buys p ≠ none := by
  unfold Sob.AonLevels
  rw [Set.mem_ofPred_eq]
  cases h : s.aons buys p with
  | none => simp
  | some l =>
    have hne : l ≠ [] := fun hl => hf buys p (hl ▸ h)
    simpa using hne

theorem aonLevels_of_aons (h : ∀ q, s'.aons buys q = s.aons buys q) :
    s'.AonLevels buys = s.AonLevels buys := by
  unfold Sob.AonLevels
  simp only [h]

theorem scanDown_spec (s : Sob) (buys : Bool) {low : Nat} (high : Nat) (hlow : 0 < low) :
    Exec.Aon.scanDown s buys low high ≤ high ∧ (Exec.Aon.scanDown s buys low high < low ∨
      s.aons buys (Exec.Aon.scanDown s buys low high) ≠ none) := by
  induction high with
  | zero => exact ⟨le_rfl, .inl hlow⟩
  | succ p ih =>
    unfold Exec.Aon.scanDown
    split
    next => exact ⟨ih.1.trans (Nat.le_succ p), ih.2⟩
    next h =>
      refine ⟨le_rfl, ?_⟩
      by_cases hge : p + 1 ≥ low
      · exact .inr fun hn => h ⟨hge, Option.isNone_iff_eq_none.mpr hn⟩
      · exact .inl (not_le.mp hge)

theorem scanUp_spec (s : Sob) (buys : Bool) (n low : Nat) :
    low ≤ Exec.Aon.scanUp s buys n low ∧ Exec.Aon.scanUp s buys n low ≤ low + n ∧
      (Exec.Aon.scanUp s buys n low = low + n ∨
        s.aons buys (Exec.Aon.scanUp s buys n low) ≠ none) := by
  induction n generalizing low with
  | zero => exact ⟨le_rfl, le_rfl, .inl rfl⟩
  | succ n ih =>
    unfold Exec.Aon.scanUp
    split
    next =>
      obtain ⟨h1, h2, h3⟩ := ih (low + 1)
      exact ⟨by omega, by omega, h3.imp_left fun h => by omega⟩
    next h => exact ⟨le_rfl, by omega, .inr fun hn => h (Option.isNone_iff_eq_none.mpr hn)⟩

/-- The scan down from the high end comes to the highest level that is left. -/
theorem isGreatest_scanDown (hf : s.AonsFull) {low high q : Nat} (hlow : 0 < low)
    (hin : ∀ x ∈ s.AonLevels buys, low ≤ x ∧ x ≤ high) (hq : q ∈ s.AonLevels buys) :
    IsGreatest (s.AonLevels buys) (Exec.Aon.scanDown s buys low high) := by
  have hup : ∀ x ∈ s.AonLevels buys, x ≤ Exec.Aon.scanDown s buys low high := fun x hx =>
    not_lt.mp fun hlt => (mem_aonLevels hf).mp hx (scanDown_empty (hin x hx).1 (hin x hx).2 hlt)
  refine ⟨?_, hup⟩
  rcases (scanDown_spec s buys high hlow).2 with hlt | hne
  · exact absurd ((hin q hq).1.trans (hup q hq)) (not_le.mpr hlt)
  · exact (mem_aonLevels hf).mpr hne

/-- The scan up from the low end comes to the lowest level that is left, if its bound allows. -/
theorem isLeast_scanUp (hf : s.AonsFull) {low n q : Nat} (hin : ∀ x ∈ s.AonLevels buys, low ≤ x)
    (hq : q ∈ s.AonLevels buys) (hn : q ≤ low + n) :
    IsLeast (s.AonLevels buys) (Exec.Aon.scanUp s buys n low) := by
  have hdown : ∀ x ∈ s.AonLevels buys, Exec.Aon.scanUp s buys n low ≤ x := fun x hx =>
    not_lt.mp fun hlt => (mem_aonLevels hf).mp hx (scanUp_empty (hin x hx) hlt)
  refine ⟨?_, hdown⟩
  rcases (scanUp_spec s buys n low).2.2 with heq | hne
  · rw [heq, le_antisymm (heq ▸ hdown q hq) hn]
    exact hq
  · exact (mem_aonLevels hf).mpr hne

theorem isLeast_diff {L : Set Nat} {x : Nat} (h : IsLeast L x) (hne : x ≠ p) :
    IsLeast (L \ {p}) x :=
  ⟨⟨h.1, hne⟩, fun _ hy => h.2 hy.1⟩

theorem isGreatest_diff {L : Set Nat} {x : Nat} (h : IsGreatest L x) (hne : x ≠ p) :
    IsGreatest (L \ {p}) x :=
  ⟨⟨h.1, hne⟩, fun _ hy => h.2 hy.1⟩

theorem aonWindow_adjustBuysAfterPull :
    (Exec.Aon.adjustStateAfterPull true s p).aonWindow true = closeWindow s.end_
      (if p = s.highBuyAon then (s.lowBuyAon, Exec.Aon.scanDown s true s.lowBuyAon s.highBuyAon)
      else if p = s.lowBuyAon then
        (Exec.Aon.scanUp s true (s.highSellAon + 1 - s.lowBuyAon) s.lowBuyAon, s.highBuyAon)
      else (s.lowBuyAon, s.highBuyAon)) := by
  unfold Exec.Aon.adjustStateAfterPull Sob.aonWindow closeWindow
  simp only [if_true]
  split_ifs <;> rfl

theorem aonWindow_adjustSellsAfterPull :
    (Exec.Aon.adjustStateAfterPull false s p).aonWindow false = closeWindow s.end_
      (if p = s.lowSellAon then
        (Exec.Aon.scanUp s false (s.highSellAon + 1 - s.lowSellAon) s.lowSellAon, s.highSellAon)
      else if p = s.highSellAon then
        (s.lowSellAon, Exec.Aon.scanDown s false s.lowSellAon s.highSellAon)
      else (s.lowSellAon, s.highSellAon)) := by
  unfold Exec.Aon.adjustStateAfterPull Sob.aonWindow closeWindow
  simp only [Bool.false_eq_true, if_false]
  split_ifs <;> rfl

/-- The last order of the chain at level `p` is gone, and the window of its side follows. -/
theorem spans_adjustAfterPull (hf : s.AonsFull) {L : Set Nat}
    (h : Spans L s.end_ (s.aonWindow side)) (hp : p ∈ L) (hbeg : ∀ x ∈ L, beg ≤ x)
    (hL : s.AonLevels side = L \ {p}) (hreach : side = true → p = s.lowBuyAon → p ≠ s.highBuyAon →
      ∃ q ∈ s.AonLevels true, q ≤ s.highSellAon + 1) :
    Spans (s.AonLevels side) s.end_ ((Exec.Aon.adjustStateAfterPull side s p).aonWindow side) := by
  rcases h with ⟨rfl, -⟩ | ⟨hleast, hgreat⟩
  · cases hp
  have hlow : 0 < (s.aonWindow side).1 := hbeg _ hleast.1
  have hin : ∀ x ∈ s.AonLevels side, (s.aonWindow side).1 ≤ x ∧ x ≤ (s.aonWindow side).2 := by
    intro x hx
    rw [hL] at hx
    exact ⟨hleast.2 hx.1, hgreat.2 hx.1⟩
  have hleast' : (s.aonWindow side).1 ≠ p → IsLeast (s.AonLevels side) (s.aonWindow side).1 :=
    fun hne => hL ▸ isLeast_diff hleast hne
  have hgreat' : (s.aonWindow side).2 ≠ p → IsGreatest (s.AonLevels side) (s.aonWindow side).2 :=
    fun hne => hL ▸ isGreatest_diff hgreat hne
  cases side with
  | true =>
    rw [aonWindow_adjustBuysAfterPull]
    refine .closeWindow ?_
    split
    next hhigh =>
      rcases Set.eq_empty_or_nonempty (s.AonLevels true) with he | ⟨q, hq⟩
      · refine .inl ⟨he, ?_⟩
        rcases (scanDown_spec s true s.highBuyAon hlow).2 with hlt | hne
        · exact hlt
        · exact absurd ((mem_aonLevels hf).mpr hne) (he ▸ Set.notMem_empty _)
      · have hne : s.lowBuyAon ≠ p := fun heq => by
          have hq' := hin q hq
          have : q = p := le_antisymm (hhigh ▸ hq'.2) (heq ▸ hq'.1)
          rw [hL] at hq
          exact hq.2 this
        exact .inr ⟨hleast' hne, isGreatest_scanDown hf hlow hin hq⟩
    next hhigh =>
      have hg : IsGreatest (s.AonLevels true) s.highBuyAon := hgreat' (Ne.symm hhigh)
      split
      next hlow' =>
        obtain ⟨q, hq, hle⟩ := hreach rfl hlow' hhigh
        have := (hin q hq).1
        exact .inr ⟨isLeast_scanUp hf (fun x hx => (hin x hx).1) hq (by omega), hg⟩
      next hlow' => exact .inr ⟨hleast' (Ne.symm hlow'), hg⟩
  | false =>
    rw [aonWindow_adjustSellsAfterPull]
    refine .closeWindow ?_
    split
    next hlow' =>
      rcases Set.eq_empty_or_nonempty (s.AonLevels false) with he | ⟨q, hq⟩
      · refine .inl ⟨he, ?_⟩
        obtain ⟨-, -, heq | hne⟩ := scanUp_spec s false (s.highSellAon + 1 - s.lowSellAon) s.lowSellAon
        · dsimp only
          omega
        · exact absurd ((mem_aonLevels hf).mpr hne) (he ▸ Set.notMem_empty _)
      · have hq' : s.lowSellAon ≤ q ∧ q ≤ s.highSellAon := hin q hq
        refine .inr ⟨isLeast_scanUp hf (fun x hx => (hin x hx).1) hq (by omega), hgreat' fun heq => ?_⟩
        have : q = p := le_antisymm (heq ▸ hq'.2) (hlow' ▸ hq'.1)
        rw [hL] at hq
        exact hq.2 this
    next hlow' =>
      have hl : IsLeast (s.AonLevels false) s.lowSellAon := hleast' (Ne.symm hlow')
      split
      next => exact .inr ⟨hl, isGreatest_scanDown hf hlow hin hl.1⟩
      next hhigh => exact .inr ⟨hl, hgreat' (Ne.symm hhigh)⟩

theorem aonWindow_adjustAfterPull_of_ne (hne : buys ≠ side) :
    (Exec.Aon.adjustStateAfterPull side s p).aonWindow buys = s.aonWindow buys := by
  obtain rfl : buys = !side := by cases side <;> cases buys <;> simp at hne ⊢
  unfold Exec.Aon.adjustStateAfterPull Sob.aonWindow
  cases side <;> simp only [Bool.not_true, Bool.not_false, Bool.false_eq_true, if_true, if_false] <;>
    split_ifs <;> rfl

theorem aonWindow_adjustAfterInsert :
    (Exec.Aon.adjustStateAfterInsert side s p).aonWindow buys = if buys = side then
      (min p (s.aonWindow buys).1, max p (s.aonWindow buys).2) else s.aonWindow buys := by
  cases side <;> cases buys <;> rfl

theorem Sob.AonInside.closeWindow {w : Nat × Nat} {end_ : Nat} (hend : beg ≤ end_)
    (hlow : beg ≤ w.1 ∧ w.1 ≤ end_) (hhigh : w.2 < end_) :
    beg ≤ (SimpleOrderbook.closeWindow end_ w).1 ∧ (SimpleOrderbook.closeWindow end_ w).1 ≤ end_ ∧
      beg - 1 ≤ (SimpleOrderbook.closeWindow end_ w).2 ∧ (SimpleOrderbook.closeWindow end_ w).2 < end_ := by
  unfold SimpleOrderbook.closeWindow
  split
  · exact ⟨hend, le_rfl, le_rfl, hend⟩
  · exact ⟨hlow.1, hlow.2, Nat.zero_le _, hhigh⟩

/-- Wherever the scans of `adjust_state_after_pull` begin, they stay in the book. -/
theorem Sob.AonInside.adjustAfterPull (h : s.AonInside) (hend : beg ≤ s.end_) (side : Bool) (p : Nat) :
    (Exec.Aon.adjustStateAfterPull side s p).AonInside := by
  have hsize : (Exec.Aon.adjustStateAfterPull side s p).end_ = s.end_ :=
    congrArg Prod.snd (grid_of_bookView (bookView_aonAdjust s side p).1)
  have hbuys : beg ≤ s.lowBuyAon ∧ s.lowBuyAon ≤ s.end_ ∧ beg - 1 ≤ s.highBuyAon ∧
    s.highBuyAon < s.end_ := h true
  have hsells : beg ≤ s.lowSellAon ∧ s.lowSellAon ≤ s.end_ ∧ beg - 1 ≤ s.highSellAon ∧
    s.highSellAon < s.end_ := h false
  intro buys
  rw [hsize]
  by_cases hside : buys = side
  · subst hside
    cases buys with
    | true =>
      rw [aonWindow_adjustBuysAfterPull]
      have hd := scanDown_spec s true s.highBuyAon hbuys.1
      have hu := scanUp_spec s true (s.highSellAon + 1 - s.lowBuyAon) s.lowBuyAon
      refine Sob.AonInside.closeWindow hend ?_ ?_ <;> split_ifs <;> dsimp only <;> omega
    | false =>
      rw [aonWindow_adjustSellsAfterPull]
      have hd := scanDown_spec s false s.highSellAon hsells.1
      have hu := scanUp_spec s false (s.highSellAon + 1 - s.lowSellAon) s.lowSellAon
      refine Sob.AonInside.closeWindow hend ?_ ?_ <;> split_ifs <;> dsimp only <;> omega
  · rw [aonWindow_adjustAfterPull_of_ne hside]
    exact h buys

end Adjust

/-! ## Windows that span the chains -/

/-- The windows of both sides span their levels. -/
structure Sob.AonsSpanned (s : Sob) : Prop where
  full : s.AonsFull
  exact : ∀ buys, s.AonExact buys

namespace Sob.AonsSpanned
variable {s s' : Sob} {side wside : Bool} {p : Nat}

theorem of_view (h : s.AonsSpanned) (hv : s'.aonView = s.aonView) : s'.AonsSpanned := by
  have hlen : ∀ buys q, (s'.aons buys q).map List.length = (s.aons buys q).map List.length :=
    fun buys q => congrFun (congrFun (congrArg (·.1) hv) buys) q
  have hend : s'.end_ = s.end_ := congrArg (·.2.2) hv
  refine ⟨fun buys q hq => h.full buys q ?_, fun buys => ?_⟩
  · have := hlen buys q
    rw [hq] at this
    obtain ⟨l, hl, hz⟩ := Option.map_eq_some_iff.mp this.symm
    rw [hl, List.length_eq_zero_iff.mp hz]
  · have hlevels : s'.AonLevels buys = s.AonLevels buys := by
      ext q
      unfold Sob.AonLevels
      rw [Set.mem_ofPred_eq, Set.mem_ofPred_eq, ← List.length_pos_iff, ← List.length_pos_iff]
      have := hlen buys q
      cases h1 : s'.aons buys q <;> cases h2 : s.aons buys q <;> rw [h1, h2] at this <;>
        simp_all
    unfold Sob.AonExact
    rw [hlevels, hend, aonWindow_of_pointers (congrArg (·.2.1) hv)]
    exact h.exact buys

/-- An order comes to the chain of one side, and the window of that side is widened, or both windows
have its level already. -/
theorem inserted (side : Bool) (h : s.AonsSpanned) {b : AonBndl} (hp : p < s.end_)
    (haons : ∀ buys q, s'.aons buys q =
      if q = p ∧ buys = side then (s.aons side p).push b else s.aons buys q)
    (hptr : s'.aonPointers = s.aonPointers) (hend : s'.end_ = s.end_)
    (hside : wside = side ∨ ∀ buys, (s.aonWindow buys).1 ≤ p ∧ p ≤ (s.aonWindow buys).2) :
    (Exec.Aon.adjustStateAfterInsert wside s' p).AonsSpanned := by
  have haons' : ∀ buys q, (Exec.Aon.adjustStateAfterInsert wside s' p).aons buys q =
      if q = p ∧ buys = side then (s.aons side p).push b else s.aons buys q := fun buys q => by
    rw [aons_of_files (Exec.Aon.files_adjustStateAfterInsert _ _ _)]
    exact haons buys q
  have hsize : (Exec.Aon.adjustStateAfterInsert wside s' p).end_ = s.end_ :=
    (congrArg Prod.snd (grid_of_bookView (bookView_aonAdjust s' wside p).2)).trans hend
  refine ⟨fun buys q hq => ?_, fun buys => ?_⟩
  · rw [haons'] at hq
    split at hq
    next => simp [ChainManager.push] at hq
    next => exact h.full buys q hq
  · have hlevels : (Exec.Aon.adjustStateAfterInsert wside s' p).AonLevels buys =
        if buys = side then insert p (s.AonLevels buys) else s.AonLevels buys := by
      ext q
      unfold Sob.AonLevels
      rw [Set.mem_ofPred_eq, haons']
      by_cases hb : buys = side
      · subst hb
        by_cases hq : q = p
        · simp [hq, ChainManager.elems_push]
        · simp [hq]
      · simp [hb]
    unfold Sob.AonExact
    rw [hlevels, hsize, aonWindow_adjustAfterInsert, aonWindow_of_pointers hptr]
    have hold : Spans (s.AonLevels buys) s.end_ (s.aonWindow buys) := h.exact buys
    rcases hside with rfl | hin
    · split
      · exact hold.insert hp
      · exact hold
    · have hw : (if buys = wside then (min p (s.aonWindow buys).1, max p (s.aonWindow buys).2)
          else s.aonWindow buys) = s.aonWindow buys := by
        rw [min_eq_right (hin buys).1, max_eq_right (hin buys).2, ite_self]
      rw [hw]
      split
      · exact hold.insert_of_mem hp (hin buys)
      · exact hold

/-- The chain at level `p` of one side is freed, and the window of that side follows. -/
theorem freed (side : Bool) (h : s.AonsSpanned) (hr : AonsInRange s) (hp : s.aons side p ≠ none)
    (haons : ∀ buys q, s'.aons buys q = if q = p ∧ buys = side then none else s.aons buys q)
    (hptr : s'.aonPointers = s.aonPointers) (hend : s'.end_ = s.end_)
    (hreach : side = true → s.NextBuyReached p) :
    (Exec.Aon.adjustStateAfterPull side s' p).AonsSpanned := by
  have hfull : s'.AonsFull := fun buys q hq => by
    rw [haons] at hq
    split at hq
    · cases hq
    · exact h.full buys q hq
  have hadj : ∀ buys, (Exec.Aon.adjustStateAfterPull side s' p).AonLevels buys = s'.AonLevels buys :=
    fun buys => aonLevels_of_aons fun q => by
      rw [aons_of_files (Exec.Aon.files_adjustStateAfterPull _ _ _)]
  have hsize : (Exec.Aon.adjustStateAfterPull side s' p).end_ = s'.end_ :=
    congrArg Prod.snd (grid_of_bookView (bookView_aonAdjust s' side p).1)
  have hlevels : s'.AonLevels side = s.AonLevels side \ {p} := by
    ext q
    unfold Sob.AonLevels
    rw [Set.mem_ofPred_eq, haons]
    by_cases hq : q = p <;> simp [hq]
  refine ⟨fun buys q hq => hfull buys q ?_, fun buys => ?_⟩
  · rwa [aons_of_files (Exec.Aon.files_adjustStateAfterPull _ _ _)] at hq
  unfold Sob.AonExact
  rw [hadj, hsize]
  by_cases hb : buys = side
  · subst hb
    refine spans_adjustAfterPull hfull (L := s.AonLevels buys) ?_ ((mem_aonLevels h.full).mpr hp)
      (fun x hx => (hr buys x ((mem_aonLevels h.full).mp hx)).1) hlevels fun hbuy hlow hhigh => ?_
    · rw [hend, aonWindow_of_pointers hptr]
      exact h.exact buys
    · subst hbuy
      have hl : s'.lowBuyAon = s.lowBuyAon := congrArg (·.1) hptr
      have hh : s'.highBuyAon = s.highBuyAon := congrArg (·.2.1) hptr
      have hs : s'.highSellAon = s.highSellAon := congrArg (·.2.2.2) hptr
      obtain ⟨q, hq, hlt, hle⟩ := hreach rfl (hlow.trans hl) fun heq => hhigh (heq.trans hh.symm)
      exact ⟨q, hlevels ▸ ⟨hq, fun heq => hlt.ne' heq⟩, hs ▸ hle⟩
  · have hother : s'.AonLevels buys = s.AonLevels buys :=
      aonLevels_of_aons fun q => by rw [haons, if_neg fun hx => hb hx.2]
    rw [aonWindow_adjustAfterPull_of_ne hb, hother, hend, aonWindow_of_pointers hptr]
    exact h.exact buys

theorem inside (h : s.AonsSpanned) (hr : AonsInRange s) (hend : beg ≤ s.end_) : s.AonInside := by
  intro buys
  rcases h.exact buys with ⟨-, hw⟩ | ⟨hlow, hhigh⟩
  · rw [hw]
    exact ⟨hend, le_rfl, le_rfl, hend⟩
  · have hl := hr buys _ ((mem_aonLevels h.full).mp hlow.1)
    have hh := hr buys _ ((mem_aonLevels h.full).mp hhigh.1)
    exact ⟨hl.1, hl.2.le, Nat.zero_le _, hh.2⟩

/-- A chain is replaced by one that is not empty either. -/
theorem replaced (side : Bool) (h : s.AonsSpanned) {l : List AonBndl} (hp : s.aons side p ≠ none) (hl : l ≠ [])
    (haons : ∀ buys q, s'.aons buys q = if q = p ∧ buys = side then some l else s.aons buys q)
    (hptr : s'.aonPointers = s.aonPointers) (hend : s'.end_ = s.end_) : s'.AonsSpanned := by
  have hfull : s'.AonsFull := fun buys q hq => by
    rw [haons] at hq
    split at hq
    · exact hl (Option.some.inj hq)
    · exact h.full buys q hq
  refine ⟨hfull, fun buys => ?_⟩
  have hlevels : s'.AonLevels buys = s.AonLevels buys := by
    ext q
    rw [mem_aonLevels hfull, mem_aonLevels h.full, haons]
    split
    next heq =>
      obtain ⟨rfl, rfl⟩ := heq
      simp [hp]
    next => exact Iff.rfl
  unfold Sob.AonExact
  rw [hlevels, hend, aonWindow_of_pointers hptr]
  exact h.exact buys

end Sob.AonsSpanned

section Views
variable (s : Sob)

theorem Chain.length_updateLimit (f : LimitBndl → LimitBndl) (id : Nat) (l : List LimitBndl) :
    (updateLimit f id l).length = l.length := by
  have h : (updateLimit f id l).map (fun _ => ()) = l.map fun _ => () := map_updateLimit fun _ => rfl
  simpa using congrArg List.length h

theorem aonView_updateAt (c : ChainIterWrap) (id : Nat) (g : OrderBndl → OrderBndl) :
    (s.updateAt c id g).aonView = s.aonView := by
  refine Prod.ext (funext fun buys => funext fun p => ?_) (by unfold Sob.updateAt; split <;> rfl)
  unfold Sob.aonView
  dsimp only
  rw [aons_updateAt]
  by_cases hc : c.type = (if buys then .aonBuy else .aonSell) ∧ p = c.p
  · rw [if_pos hc]
    cases s.aons buys p with
    | none => rfl
    | some l => exact congrArg some (Chain.length_updateLimit ..)
  · rw [if_neg hc]

theorem aonView_of (s' : Sob) (haons : s'.aons = s.aons) (hrest : (s'.aonPointers, s'.end_) =
    (s.aonPointers, s.end_)) : s'.aonView = s.aonView :=
  Prod.ext (by unfold Sob.aonView; rw [haons]) hrest

theorem aonView_updateLimit (p id : Nat) (f : LimitBndl → LimitBndl) :
    (s.updateLimit p id f).aonView = s.aonView :=
  aonView_of _ _ (by funext buys q; simp [Sob.updateLimit]) rfl

theorem aonView_setLimits (p : Nat) (c : ChainManager LimitBndl) :
    (s.setLimits p c).aonView = s.aonView :=
  aonView_of _ _ (by funext buys q; simp) rfl

theorem aonView_trailingErased (s : Sob) (id : Nat) (isBuy : Bool) :
    (s.trailingErased id isBuy).aonView = s.aonView := by
  cases isBuy <;> rfl

theorem aonView_report (w : World) (msg : CallbackMsg) (cb : OrderExecCbBndl) (id1 id2 : Nat)
    (price : Int) (sz : Nat) : (w.report msg cb id1 id2 price sz).aonView = w.aonView := by
  obtain ⟨_, _, h⟩ := w.report_eq msg cb id1 id2 price sz
  rw [h]
  rfl

theorem aonView_traded (w : World) (plev size idbuy idsell : Nat) (cbbuy cbsell : OrderExecCbBndl) :
    (w.traded plev size idbuy idsell cbbuy cbsell).aonView = w.aonView := by
  obtain ⟨_, _, h⟩ := w.traded_eq plev size idbuy idsell cbbuy cbsell
  rw [h]
  rfl

theorem aonView_freeLimits (bidSide : Bool) (p : Nat) :
    (Exec.Core.findNewBestInside bidSide (s.setLimits p none)).aonView = s.aonView := by
  obtain ⟨_, _, _, _, h⟩ := Exec.Core.findNewBestInside_eq bidSide (s.setLimits p none)
  refine Eq.trans ?_ (aonView_setLimits s p none)
  rw [h]
  rfl

theorem aonView_cacheEmplace (id : Nat) (c : ChainIterWrap) :
    (s.cacheEmplace id c).aonView = s.aonView := by
  unfold Sob.cacheEmplace
  split <;> rfl

theorem aonView_limitPush (buy : Bool) (p : Nat) (b : LimitBndl) :
    (Chain.limitPush buy s p b).aonView = s.aonView :=
  (by cases buy <;> rfl : (Chain.limitPush buy s p b).aonView = _).trans
    ((aonView_cacheEmplace (s.setLimits p ((s.limits p).push b)) b.id ⟨.limit, p⟩).trans
      (aonView_setLimits ..))

theorem aonView_setStops (p : Nat) (c : ChainManager StopBndl) :
    (s.setStops p c).aonView = s.aonView :=
  aonView_of _ _ (by funext buys q; simp) rfl

theorem aonView_stopPush (p : Nat) (b : StopBndl) : (Chain.stopPush s p b).aonView = s.aonView := by
  obtain ⟨_, _, _, _, h⟩ := Exec.Stop.adjustStateAfterInsert_eq b.isBuy
    ((s.setStops p ((s.stops p).push b)).cacheEmplace b.id ⟨.stop, p⟩) p
  refine Eq.trans ?_ ((aonView_cacheEmplace (s.setStops p ((s.stops p).push b)) b.id
    ⟨.stop, p⟩).trans (aonView_setStops ..))
  unfold Chain.stopPush
  rw [h]
  rfl

theorem aonView_erasedStop (p : Nat) (b : StopBndl) : (s.erasedStop p b).aonView = s.aonView := by
  refine aonView_of _ _ aons_erasedStop ?_
  obtain ⟨_, _, _, _, _, _, h⟩ := s.erasedStop_eq p b
  rw [h]
  rfl

theorem aonView_detached (buyStops : Bool) (p : Nat) :
    (Exec.Stop.adjustStateAfterTrigger buyStops (s.setStops p none) p).aonView = s.aonView := by
  obtain ⟨_, _, _, _, h⟩ := Exec.Stop.adjustStateAfterTrigger_eq buyStops (s.setStops p none) p
  refine Eq.trans ?_ (aonView_setStops s p none)
  rw [h]
  rfl

end Views

/-! ## Transitions -/

/-- The chain at the low end of the buys was never emptied out of reach of the next one, and orders
that were copied to the chains without a bound of their own came into both windows. -/
structure World.AonsReached (w : World) : Prop where
  pulls : ∀ s p id, .popAon s true p id ∈ w.trace → (s.aons true p).elems.length = 1 →
    s.NextBuyReached p
  hits : ∀ s p size, .hitAonChain s true p size ∈ w.trace → s.aonTotal true p ≤ size →
    s.NextBuyReached p
  copies : ∀ s p b, .copyBndlToAonChain s p b false ∈ w.trace →
    ∀ buys, (s.aonWindow buys).1 ≤ p ∧ p ≤ (s.aonWindow buys).2

theorem World.AonsReached.of_suffix {w w' : World} (h : w'.AonsReached) (ht : w.trace <:+ w'.trace) :
    w.AonsReached :=
  ⟨fun s p id hm => h.pulls s p id (ht.subset hm), fun s p n hm => h.hits s p n (ht.subset hm),
    fun s p b hm => h.copies s p b (ht.subset hm)⟩

/-- Whenever the call that follows adjusts a window, it keeps to the book. -/
def Event.PullsInside : Event → Prop
  | .popAon s buys p _ | .hitAonChain s buys p _ => ∀ s' : Sob, s'.aonPointers = s.aonPointers →
      s'.end_ = s.end_ → (Exec.Aon.adjustStateAfterPull buys s' p).AonInside
  | _ => True

structure AonWindows (c : Config) : Prop where
  spanned : c.2.AonsSpanned
  calls : ∀ ev ∈ c.2.trace, ev.PullsInside

namespace AonWindows
variable {c c' : Config} {w w' : World}

theorem calls_of_news (h : AonWindows c) (hw : WellFormed c) {trace : List Event}
    (hn : News c trace) : ∀ ev ∈ trace, ev.PullsInside := by
  have hin : ∀ s' : Sob, s'.aonPointers = c.2.aonPointers → s'.end_ = c.2.end_ → ∀ buys p,
      (Exec.Aon.adjustStateAfterPull buys s' p).AonInside := fun s' hptr hend buys p => by
    refine Sob.AonInside.adjustAfterPull (fun side => ?_) (hend ▸ hw.levels.le) buys p
    rw [aonWindow_of_pointers hptr, hend]
    exact h.spanned.inside hw.aons hw.levels.le side
  intro ev hm
  rcases hn ev hm with hm | hev
  · exact h.calls ev hm
  cases ev with
  | popAon s buys p id =>
    obtain ⟨rfl, -⟩ := hev s rfl
    exact fun s' hptr hend => hin s' hptr hend buys p
  | hitAonChain s buys p size =>
    obtain ⟨rfl, -⟩ := hev s rfl
    exact fun s' hptr hend => hin s' hptr hend buys p
  | _ => trivial

theorem same (h : AonWindows c) (hw : WellFormed c) (hn : News c c'.2.trace)
    (hv : c'.2.aonView = c.2.aonView) : AonWindows c' :=
  ⟨h.spanned.of_view hv, h.calls_of_news hw hn⟩

theorem copied (h : w.AonsSpanned) {p : Nat} (b : LimitBndl) (cw : ChainIterWrap) (hp : p < w.end_)
    (hin : decide (p < w.ask) = false → ∀ buys, (w.aonWindow buys).1 ≤ p ∧ p ≤ (w.aonWindow buys).2) :
    (w.copiedToAons (decide (p < w.ask)) p b cw).AonsSpanned := by
  refine Sob.AonsSpanned.inserted true (s := w.toSob) (b := b) h hp (fun buys q => ?_) rfl rfl ?_
  · exact Sob.aons_setAons ..
  · cases hask : decide (p < w.ask) with
    | true => exact .inl rfl
    | false => exact .inr (hin hask)

theorem erased (h : w.AonsSpanned) (hr : AonsInRange w.toSob) {isBuy : Bool} {p id : Nat} {b : AonBndl}
    (hb : Chain.findLimit (w.aons isBuy p).elems id = some b)
    (hreach : isBuy = true → (w.aons true p).elems.length = 1 → w.NextBuyReached p) :
    (w.erasedAon isBuy p id).AonsSpanned := by
  have hp : w.aons isBuy p ≠ none := fun hn => by
    rw [hn] at hb
    cases hb
  obtain ⟨hmem, hid⟩ := Chain.findLimit_mem hb
  have hlen : (Chain.eraseLimit (w.aons isBuy p).elems id).length + 1 =
      (w.aons isBuy p).elems.length := by
    have hpos := List.length_pos_of_mem hmem
    have herase : (Chain.eraseLimit (w.aons isBuy p).elems id).length =
        (w.aons isBuy p).elems.length - 1 := List.length_eraseP_of_mem hmem (by simpa using hid)
    omega
  unfold Sob.erasedAon
  dsimp only
  cases he : Chain.eraseLimit (w.aons isBuy p).elems id with
  | nil =>
    rw [if_pos (by simp [ChainManager.ofList])]
    refine Sob.AonsSpanned.freed isBuy (s := w.toSob) h hr hp (fun buys q => ?_) rfl rfl fun hbuy => ?_
    · exact Sob.aons_setAons ..
    · subst hbuy
      rw [he] at hlen
      exact hreach rfl hlen.symm
  | cons x xs =>
    rw [if_neg (by simp [ChainManager.ofList])]
    refine Sob.AonsSpanned.replaced isBuy (s := w.toSob) h hp (List.cons_ne_nil x xs) (fun buys q => ?_) rfl rfl
    exact Sob.aons_setAons ..

theorem act (h : AonWindows c) (hw : WellFormed c) (ha : Act c c') (hexp : c'.2.AonsReached) :
    AonWindows c' := by
  have hn := ha.news
  cases ha with
  | report => exact h.same hw hn (aonView_report ..)
  | @popLimit F w id cw b =>
    exact h.same hw hn (aonView_setLimits w.toSob cw.p _)
  | @moveFront F w p b bs cw hgap hl hb hc =>
    have hp := hw.ambient.inRange (p := p) (by simp [hl])
    have hcopy := copied h.spanned b cw hp.2 fun hask =>
      hexp.copies w.toSob p b (hask ▸ List.mem_cons_self)
    exact ⟨hcopy.of_view (aonView_setLimits ..), h.calls_of_news hw hn⟩
  | @settle F w p =>
    refine h.same hw hn (aonView_of _ _ (aons_of_files (Exec.Limit.files_adjustStateAfterPull ..)) ?_)
    obtain ⟨_, _, _, _, he⟩ := Exec.Limit.adjustStateAfterPull_eq (decide (p ≤ w.bid)) w.toSob p
    rw [World.toSob_onSob, he]
    rfl
  | @popAon F w id cw isBuy b hc hty hb =>
    refine ⟨erased h.spanned hw.aons hb fun hbuy hlen => ?_, h.calls_of_news hw hn⟩
    subst hbuy
    exact hexp.pulls w.toSob cw.p id List.mem_cons_self hlen
  | popStop => exact h.same hw hn (aonView_erasedStop ..)
  | trailingErase => exact h.same hw hn (aonView_trailingErased ..)
  | grow | tell => exact h.same hw hn (aonView_updateAt ..)
  | growBoth =>
    exact h.same hw hn ((aonView_updateAt ..).trans ((aonView_report ..).trans (aonView_updateAt ..)))
  | _ => exact h.same hw hn rfl

theorem move (h : AonWindows c) (hw : WellFormed c) (hm : Move c c') (hexp : c'.2.AonsReached) :
    AonWindows c' := by
  have hn := hm.news
  have hsuf := hm.trace_suffix
  cases hm with
  | act ha => exact h.act hw ha hexp
  | @fillAon F w bidSide plev id size cb b kept bs hands hh hl hne =>
    have htr : (w.traded plev b.sz id b.id cb b.cb).AonsSpanned := h.spanned.of_view (aonView_traded ..)
    have haons := aons_of_files (files_traded w plev b.sz id b.id cb b.cb)
    refine ⟨Sob.AonsSpanned.replaced bidSide (p := plev) htr ?_ hne (fun buys q => ?_) rfl rfl,
      h.calls_of_news hw hn⟩
    · simp [haons, hl]
    · exact Sob.aons_setAons ..
  | @fillLastAon F w bidSide plev id size cb b hands hh hl hsize hsz hscan hfrom =>
    have htr : (w.traded plev b.sz id b.id cb b.cb).AonsSpanned := h.spanned.of_view (aonView_traded ..)
    have haons := aons_of_files (files_traded w plev b.sz id b.id cb b.cb)
    have hptr : (w.traded plev b.sz id b.id cb b.cb).aonPointers = w.aonPointers :=
      congrArg (·.2.1) (aonView_traded ..)
    have hend : (w.traded plev b.sz id b.id cb b.cb).end_ = w.end_ := congrArg (·.2.2) (aonView_traded ..)
    have hr : AonsInRange (w.traded plev b.sz id b.id cb b.cb).toSob := fun buys q hq => by
      rw [haons] at hq
      rw [hend]
      exact hw.aons buys q hq
    refine ⟨Sob.AonsSpanned.freed bidSide htr hr (p := plev) (by simp [haons, hl])
      (fun buys q => ?_) rfl rfl fun hbuy => ?_, h.calls_of_news hw hn⟩
    · exact Sob.aons_setAons ..
    · -- since the hit began nothing changed but at the level that is emptied
      subst hbuy
      obtain ⟨s, n, hmem, hle, hptr', hsame⟩ := hfrom
      have hptr4 := hptr'.trans hptr.symm
      intro hlow hhigh
      obtain ⟨q, hq, hlt, hqs⟩ := hexp.hits s plev n (hsuf.subset hmem) hle
        (hlow.trans (congrArg (·.1) hptr4).symm) fun heq => hhigh (heq.trans (congrArg (·.2.1) hptr4))
      refine ⟨q, ?_, hlt, hqs.trans_eq (congrArg (·.2.2.2 + 1) hptr4)⟩
      change ((w.traded plev b.sz id b.id cb b.cb).aons true q).elems ≠ []
      rw [haons, hsame q hlt.ne']
      exact hq
  | @freeAon F w bidSide plev hl => exact absurd hl (h.spanned.full bidSide plev)
  | @moveHit F w H id size b cw todo hands hgap hact hh hhit htodo hl =>
    have hp := hw.ambient.inRange (p := H.plev) fun hn => by
      rw [hn] at hl
      cases hl
    have hcopy := copied h.spanned b cw hp.2 fun hask =>
      hexp.copies w.toSob H.plev b (hask ▸ List.mem_cons_self)
    exact ⟨hcopy.of_view (aonView_updateLimit ..), h.calls_of_news hw hn⟩
  | fill => exact h.same hw hn (aonView_traded ..)
  | rearm => exact h.same hw hn (aonView_updateLimit ..)
  | reduce => exact h.same hw hn (aonView_updateLimit ..)
  | retire => exact h.same hw hn (aonView_updateLimit ..)
  | eraseHit => exact h.same hw hn (aonView_setLimits ..)
  | freeHit => exact h.same hw hn (aonView_freeLimits ..)
  | wipeHit => exact h.same hw hn (aonView_freeLimits ..)
  | moveStop =>
    exact h.same hw hn ((aonView_stopPush ..).trans ((aonView_report ..).trans (aonView_erasedStop ..)))
  | detach => exact h.same hw hn (aonView_detached ..)
  | eraseTriggered => exact h.same hw hn (aonView_trailingErased ..)
  | @turn F w d e todo order ids msg =>
    obtain ⟨_, _, heq⟩ := w.turned_eq msg e d.plev order
    refine h.same hw hn ?_
    rw [heq]
    rfl
  | _ => exact h.same hw hn rfl

theorem step (h : AonWindows c) (hw : WellFormed c) (hs : Step c c') (hexp : c'.2.AonsReached)
    (htrade : Moves c c' → AonWindows c') : AonWindows c' := by
  cases hs with
  | act ha => exact h.act hw ha hexp
  | trade bidSide plev id size r cb hF hp hpe hrun hm => exact htrade hm
  | @kill F w e cb id sz price =>
    refine h.same hw ?_ (aonView_report ..)
    rw [trace_report]
    exact (News.refl (F, w)).cons_none rfl
  | @print F w p id1 id2 sz1 sz2 n cb1 cb2 hands hh hn h1 h2 hlevel =>
    refine h.same hw ?_ (aonView_traded ..)
    rw [trace_traded]
    exact ((((News.refl (F, w)).cons ⟨rfl, by exact trivial⟩).cons_none rfl).cons_none rfl).cons_none rfl
  | @accept F w e => exact h.same hw ((News.refl (F, w)).cons_none rfl) rfl
  | @pushLimit F w buy p b => exact h.same hw (.refl (F, w)) (aonView_limitPush ..)
  | @pushAon F w buy p b hands ids hh hids hsz hp hpe =>
    refine ⟨?_, h.calls⟩
    have hv := aonView_cacheEmplace (w.setAons buy p ((w.aons buy p).push b)) b.id
      ⟨if buy then .aonBuy else .aonSell, p⟩
    refine Sob.AonsSpanned.inserted buy (b := b) h.spanned hpe (fun buys q => ?_)
      (congrArg (·.2.1) hv) (congrArg (·.2.2) hv) (.inl rfl)
    rw [Sob.aons_cacheEmplace]
    exact Sob.aons_setAons ..
  | @pushStop F w p b => exact h.same hw (.refl (F, w)) (aonView_stopPush ..)
  | @arm F w e id cw payload => exact h.same hw (.refl (F, w)) (aonView_updateAt ..)
  | @link F w e op id1 id2 c1 c2 =>
    exact h.same hw (.refl (F, w)) ((aonView_updateAt ..).trans (aonView_updateAt ..))
  | @openLoss F w e l cw p b =>
    exact h.same hw (.refl (F, w)) ((aonView_stopPush ..).trans (aonView_updateAt ..))
  | @trailingInsert F w id isBuy nticks =>
    exact h.same hw ((News.refl (F, w)).cons_none rfl) (by cases isBuy <;> rfl)
  | @tellEntry F w e id cw payload => exact h.same hw (.refl (F, w)) (aonView_updateAt ..)
  | @beginOrder F w => exact h.same hw (.refl (F, w)) rfl
  | @endOrder F w => exact h.same hw (.refl (F, w)) rfl
  | @addLeg F w => exact h.same hw (.refl (F, w)) rfl
  | @announce F w => exact h.same hw (.refl (F, w)) rfl
  | @finish F w => exact h.same hw (.refl (F, w)) rfl
  | @forget F w => exact h.same hw (.refl (F, w)) rfl

/-- The windows move with their levels when the book grows. -/
theorem grow {qe : Option OrderQueueElem} {base : Int} {incr : Nat} {atBeg : Bool}
    (h : AonWindows (.opened qe, w)) (hw : WellFormed (.opened qe, w)) (hincr : incr ≠ 0) :
    AonWindows (.opened qe, { w with toSob := growBook base incr atBeg w.toSob }) := by
  have hspan : w.AonsSpanned := h.spanned
  have haons : ∀ buys p, (growBook base incr atBeg w.toSob).aons buys p =
      if p < growOffset incr atBeg then none else w.aons buys (p - growOffset incr atBeg) := by
    intro buys p
    rw [growBook_of_ne hincr]
    unfold Sob.aons resetInternalPointers
    dsimp only
    split <;> cases buys <;> rfl
  have hend : (growBook base incr atBeg w.toSob).end_ = w.end_ + incr := end_growBook hincr
  have hwin : ∀ buys, (growBook base incr atBeg w.toSob).aonWindow buys =
      (if (w.aonWindow buys).1 = w.end_ then w.end_ + incr
        else (w.aonWindow buys).1 + growOffset incr atBeg,
       if (w.aonWindow buys).2 = 0 then 0 else (w.aonWindow buys).2 + growOffset incr atBeg) := by
    intro buys
    rw [growBook_of_ne hincr]
    cases buys <;> rfl
  have hlevels : ∀ buys, (growBook base incr atBeg w.toSob).AonLevels buys =
      (· + growOffset incr atBeg) '' w.AonLevels buys := fun buys => by
    ext p
    unfold Sob.AonLevels
    rw [Set.mem_ofPred_eq, haons]
    constructor
    · intro hp
      split at hp
      · exact absurd rfl hp
      · exact ⟨p - growOffset incr atBeg, hp, by dsimp only; omega⟩
    · rintro ⟨q, hq, rfl⟩
      simpa using hq
  refine ⟨⟨fun buys p hp => ?_, fun buys => ?_⟩, h.calls⟩
  · change (growBook base incr atBeg w.toSob).aons buys p = some [] at hp
    rw [haons] at hp
    split at hp
    · cases hp
    · exact hspan.full buys _ hp
  · change Spans ((growBook base incr atBeg w.toSob).AonLevels buys) _ _
    rw [hlevels, hwin, hend]
    rcases hspan.exact buys with ⟨he, hw'⟩ | ⟨hlow, hhigh⟩
    · refine .inl ⟨by rw [he, Set.image_empty], ?_⟩
      rw [hw']
      simp [beg]
    · have hl := hw.aons buys _ ((mem_aonLevels hspan.full).mp hlow.1)
      have hh := hw.aons buys _ ((mem_aonLevels hspan.full).mp hhigh.1)
      have hmono : Monotone (· + growOffset incr atBeg) := fun x y hxy => Nat.add_le_add_right hxy _
      rw [if_neg hl.2.ne, if_neg (Nat.pos_iff_ne_zero.mp hh.1)]
      exact .inr ⟨hmono.map_isLeast hlow, hmono.map_isGreatest hhigh⟩

theorem close {qe' : Option OrderQueueElem} {F : Flight} (h : AonWindows (F, w))
    (hc : w.ClosesTo w') : AonWindows (.opened qe', w') := by
  obtain ⟨⟨cbs, queue, hs⟩, ht⟩ := hc
  refine ⟨?_, fun ev hm => ?_⟩
  · change w'.toSob.AonsSpanned
    rw [hs]
    exact h.spanned.of_view rfl
  · rcases ht with ht | ⟨dropped, ht⟩
    · exact h.calls ev (ht ▸ hm)
    · rw [ht] at hm
      rcases List.mem_cons.mp hm with rfl | hm
      · trivial
      · exact h.calls ev hm

theorem initial (h : Initial w) (qe : Option OrderQueueElem) : AonWindows (.opened qe, w) := by
  obtain ⟨⟨base, incr, -, hincr, hw⟩, htrace⟩ := h
  have hnone : ∀ buys p, w.aons buys p = none := fun buys p => by
    rw [hw]
    cases buys <;> rfl
  refine ⟨⟨fun buys p hp => ?_, fun buys => .inl ⟨?_, ?_⟩⟩, fun ev hm => ?_⟩
  · change w.aons buys p = some [] at hp
    rw [hnone] at hp
    cases hp
  · ext p
    change (w.aons buys p).elems ≠ [] ↔ _
    simp [hnone]
  · change w.toSob.aonWindow buys = (w.toSob.end_, beg - 1)
    rw [hw]
    cases buys <;> rfl
  · rw [htrace] at hm
    cases hm

theorem kept : Kept fun c => c.2.AonsReached → AonWindows c where
  move hw hm h hexp := (h (hexp.of_suffix hm.trace_suffix)).move hw hm hexp
  step hw _ hs h htrade hexp :=
    (h (hexp.of_suffix hs.trace_suffix)).step hw hs hexp fun hm => htrade hm hexp
  grow hw hincr h hexp := (h ⟨hexp.pulls, hexp.hits, hexp.copies⟩).grow hw hincr
  close h hc hexp := (h (hexp.of_suffix hc.trace_suffix)).close hc

end AonWindows

/-! ## Runs -/

/-- In every run the windows span the all-or-none chains of their sides and are only moved inside the
book, if no chain at the low end of the buys was emptied with the next one above `_high_sell_aon + 1`,
and no order came to the buys with the window of the sells. -/
theorem Run.aon_windows_exact {w₀ w : World} {rs : List (Request × Outcome)} (h0 : Initial w₀)
    (h : Run w₀ rs w)
    (hpulls : ∀ s p id, .popAon s true p id ∈ w.trace → (s.aons true p).elems.length = 1 →
      s.NextBuyReached p)
    (hhits : ∀ s p size, .hitAonChain s true p size ∈ w.trace → s.aonTotal true p ≤ size →
      s.NextBuyReached p)
    (hcopies : ∀ s p b, .copyBndlToAonChain s p b false ∈ w.trace →
      ∀ buys, (s.aonWindow buys).1 ≤ p ∧ p ≤ (s.aonWindow buys).2) :
    (∀ buys, w.AonExact buys) ∧ ∀ s buys p,
      ((∃ id, .popAon s buys p id ∈ w.trace) ∨ ∃ size, .hitAonChain s buys p size ∈ w.trace) →
        ∀ s' : Sob, s'.aonPointers = s.aonPointers → s'.end_ = s.end_ →
          (Exec.Aon.adjustStateAfterPull buys s' p).AonInside := by
  have hw : AonWindows (.opened none, w) :=
    AonWindows.kept.run (fun _ h hc hexp => (h (hexp.of_suffix hc.trace_suffix)).close hc) h0
      (fun qe _ => .initial h0 qe) h none ⟨hpulls, hhits, hcopies⟩
  refine ⟨hw.spanned.exact, fun s buys p hm => ?_⟩
  rcases hm with ⟨id, hm⟩ | ⟨size, hm⟩
  · exact hw.calls _ hm
  · exact hw.calls _ hm

/-- Level `p` is not the low end of several, or the next one is in reach. -/
def Sob.FindsNextBuy (s : Sob) (p : Nat) : Bool :=
  decide (p ≠ s.lowBuyAon ∨ p = s.highBuyAon) ||
    (List.range (s.highSellAon + 2)).any fun q => decide (p < q ∧ (s.aons true q).elems ≠ [])

theorem Sob.nextBuyReached {s : Sob} {p : Nat} (h : s.FindsNextBuy p) : s.NextBuyReached p := by
  intro hlow hhigh
  rcases (Bool.or_eq_true _ _).mp h with h | h
  · rcases of_decide_eq_true h with hne | heq
    · exact absurd hlow hne
    · exact absurd heq hhigh
  · obtain ⟨q, hq, hp⟩ := List.any_eq_true.mp h
    obtain ⟨hlt, hne⟩ := of_decide_eq_true hp
    exact ⟨q, hne, hlt, Nat.lt_succ_iff.mp (List.mem_range.mp hq)⟩

/-- A call that empties no chain, or one with the next in reach. -/
def Event.FindsNextBuy : Event → Bool
  | .popAon s true p _ | .hitAonChain s true p _ => s.FindsNextBuy p
  | .copyBndlToAonChain _ _ _ false => false
  | _ => true

/-- The lower buy is pulled, and the bound of the scan is above the other one. -/
theorem aon_window_after_pull : ∃ rs w, Run (World.create 1 20) rs w ∧
    rs.map (·.1) = [.limit true 3 10 { condition := .allOrNone },
      .limit true 7 10 { condition := .allOrNone }, .limit false 9 8 { condition := .allOrNone },
      .pullOrder 1 .synchronous] ∧ w.aonPointers = (7, 7, 9, 9) ∧
    (∀ buys, w.AonExact buys) ∧ ∀ s buys p,
      ((∃ id, .popAon s buys p id ∈ w.trace) ∨ ∃ size, .hitAonChain s buys p size ∈ w.trace) →
        ∀ s' : Sob, s'.aonPointers = s.aonPointers → s'.end_ = s.end_ →
          (Exec.Aon.adjustStateAfterPull buys s' p).AonInside := by
  obtain ⟨rs, w, h, hrs, hw⟩ := Run.exists_of_execAll 0
    [.limit true 3 10 { condition := .allOrNone }, .limit true 7 10 { condition := .allOrNone },
      .limit false 9 8 { condition := .allOrNone }, .pullOrder 1 .synchronous]
    (f := fun _ w => (w.trace.all Event.FindsNextBuy, w.aonPointers)) (v := (true, 7, 7, 9, 9))
    (w := World.create 1 20) (by decide +kernel)
  obtain ⟨hall, hptr⟩ := Prod.mk.inj hw
  have hev := List.all_eq_true.mp hall
  exact ⟨rs, w, h, hrs, hptr, h.aon_windows_exact (initial_create (by decide) (by decide))
    (fun s p id hm _ => Sob.nextBuyReached (hev _ hm))
    (fun s p size hm _ => Sob.nextBuyReached (hev _ hm))
    fun s p b hm => absurd (hev _ hm) (Bool.false_ne_true)⟩

/-- Without sells the low end of the buys stays where the lower one was pulled. -/
theorem aon_window_left_behind : ∃ rs w, Run (World.create 1 20) rs w ∧
    rs.map (·.1) = [.limit true 3 10 { condition := .allOrNone },
      .limit true 7 10 { condition := .allOrNone }, .pullOrder 1 .synchronous] ∧
    (∀ ro ∈ rs, ro.2.isValue) ∧ ¬ w.AonExact true := by
  obtain ⟨rs, w, h, hrs, hw⟩ := Run.exists_of_execAll 0
    [.limit true 3 10 { condition := .allOrNone }, .limit true 7 10 { condition := .allOrNone },
      .pullOrder 1 .synchronous]
    (f := fun os w => (os.all Outcome.isValue, w.lowBuyAon, (w.aons true 3).elems.map (·.id),
      (w.aons true 7).elems.map (·.id))) (v := (true, 3, [], [2])) (w := World.create 1 20)
    (by decide +kernel)
  obtain ⟨hall, hlow, h3, h7⟩ : _ ∧ _ ∧ _ ∧ _ := by simpa only [Prod.mk.injEq] using hw
  refine ⟨rs, w, h, hrs, fun ro hro => List.all_eq_true.mp hall ro.2 (List.mem_map_of_mem hro), ?_⟩
  rintro (⟨he, -⟩ | ⟨hleast, -⟩)
  · have hm : 7 ∈ w.AonLevels true := fun hn => by
      rw [hn] at h7
      cases h7
    rw [he] at hm
    cases hm
  · have hm : w.lowBuyAon ∈ w.AonLevels true := hleast.1
    rw [hlow] at hm
    exact hm (List.map_eq_nil_iff.mp h3)

end SimpleOrderbook
