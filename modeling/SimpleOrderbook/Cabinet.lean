import Mathlib.Data.List.Perm.Basic
import Mathlib.Data.List.Count
import Mathlib.Data.List.Nodup

/-!
# Cabinets

Drawers that hold items, and an index that says for an item which drawer it is in. The two are
consistent when every indexed item is in its drawer once and nothing else is in any drawer. Filing,
taking and moving an item keep them so.
-/
namespace SimpleOrderbook

structure Cabinet (ι κ : Type) where
  drawer : κ → List ι
  index : ι → Option κ

namespace Cabinet
variable {ι κ : Type} [DecidableEq ι] [DecidableEq κ] {C C' : Cabinet ι κ} {i : ι} {k k' : κ}

def Consistent (C : Cabinet ι κ) : Prop :=
  ∀ k i, (C.drawer k).count i = if C.index i = some k then 1 else 0

theorem Consistent.mem_iff (h : C.Consistent) : i ∈ C.drawer k ↔ C.index i = some k := by
  rw [← List.count_pos_iff, h k i]
  split <;> simp_all

theorem Consistent.nodup (h : C.Consistent) (k : κ) : (C.drawer k).Nodup := by
  refine List.nodup_iff_count_le_one.mpr fun i => ?_
  rw [h k i]
  split <;> omega

theorem Consistent.eq_of_mem (h : C.Consistent) (hk : i ∈ C.drawer k) (hk' : i ∈ C.drawer k') :
    k = k' :=
  Option.some.inj ((h.mem_iff.mp hk).symm.trans (h.mem_iff.mp hk'))

/-- The order of the items in a drawer does not matter. -/
theorem Consistent.congr (h : C.Consistent) (hd : ∀ q, (C'.drawer q).Perm (C.drawer q))
    (hi : ∀ j, C'.index j = C.index j) : C'.Consistent := fun q j => by
  rw [(hd q).count_eq, hi]
  exact h q j

/-- An item that is nowhere is filed in drawer `k`. -/
theorem Consistent.file (h : C.Consistent) (hi : C.index i = none)
    (hk : (C'.drawer k).Perm (i :: C.drawer k)) (hd : ∀ q ≠ k, (C'.drawer q).Perm (C.drawer q))
    (hidx : ∀ j, C'.index j = if j = i then some k else C.index j) : C'.Consistent := fun q j => by
  rw [hidx]
  by_cases hq : q = k
  · subst hq
    rw [hk.count_eq, List.count_cons, h q j]
    by_cases hj : j = i
    · subst hj
      simp [hi]
    · simp [hj, Ne.symm hj]
  · rw [(hd q hq).count_eq, h q j]
    by_cases hj : j = i
    · subst hj
      simp [hi, Ne.symm hq]
    · simp [hj]

/-- An item is taken out of drawer `k`. -/
theorem Consistent.take (h : C.Consistent) (hk : (C.drawer k).Perm (i :: C'.drawer k))
    (hd : ∀ q ≠ k, (C'.drawer q).Perm (C.drawer q))
    (hidx : ∀ j, C'.index j = if j = i then none else C.index j) : C'.Consistent := fun q j => by
  have hi : C.index i = some k := h.mem_iff.mp (hk.mem_iff.mpr List.mem_cons_self)
  rw [hidx]
  by_cases hq : q = k
  · subst hq
    have := h q j
    rw [hk.count_eq, List.count_cons] at this
    by_cases hj : j = i
    · subst hj
      simpa [hi] using this
    · simpa [hj, Ne.symm hj] using this
  · rw [(hd q hq).count_eq, h q j]
    by_cases hj : j = i
    · subst hj
      simp [hi, Ne.symm hq]
    · simp [hj]

/-- An item moves from drawer `k` to another drawer `k'`. -/
theorem Consistent.move {l : κ} (h : C.Consistent) (hne : k ≠ l)
    (hk : (C.drawer k).Perm (i :: C'.drawer k)) (hk' : (C'.drawer l).Perm (i :: C.drawer l))
    (hd : ∀ q, q ≠ k → q ≠ l → (C'.drawer q).Perm (C.drawer q))
    (hidx : ∀ j, C'.index j = if j = i then some l else C.index j) : C'.Consistent := by
  -- by way of the cabinet without the item
  let D : Cabinet ι κ := ⟨fun q => if q = k then C'.drawer k else C.drawer q,
    fun j => if j = i then none else C.index j⟩
  have hD : D.Consistent := by
    refine h.take (k := k) (i := i) ?_ (fun q hq => ?_) fun _ => rfl
    · simpa [D] using hk
    · simp [D, hq]
  refine hD.file (k := l) (i := i) (by simp [D]) ?_ (fun q hq => ?_) fun j => ?_
  · simpa [D, hne.symm] using hk'
  · by_cases hqk : q = k
    · simp [D, hqk]
    · simpa [D, hqk] using hd q hqk hq
  · rw [hidx]
    by_cases hj : j = i <;> simp [D, hj]

/-- The drawers and the index are renamed alike. -/
theorem Consistent.rename {f : κ → κ} (h : C.Consistent) (hf : Function.Injective f)
    (hd : ∀ q, (C'.drawer (f q)).Perm (C.drawer q)) (hnil : ∀ q, (∀ r, f r ≠ q) → C'.drawer q = [])
    (hidx : ∀ j, C'.index j = (C.index j).map f) : C'.Consistent := fun q j => by
  rw [hidx]
  by_cases hq : ∃ r, f r = q
  · obtain ⟨r, rfl⟩ := hq
    rw [(hd r).count_eq, h r j]
    simp [Option.map_eq_some_iff, hf.eq_iff]
  · rw [hnil q fun r hr => hq ⟨r, hr⟩, List.count_nil, if_neg]
    intro heq
    obtain ⟨r, -, hr⟩ := Option.map_eq_some_iff.mp heq
    exact hq ⟨r, hr⟩

end Cabinet
end SimpleOrderbook
