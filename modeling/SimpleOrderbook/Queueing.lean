import Mathlib.Data.List.Sublists

/-!
# Places in a queue

A queue serves its members in the order they came in. Members may leave from anywhere, and who joins
goes to the end: what is left of the queue keeps its order and stays in front of those who joined.

## Main definitions

* `QueuedBehind` — the second queue is what is left of the first one, with new members behind it.
-/
namespace SimpleOrderbook

variable {α : Type*} {New New' : α → Prop} {l l' l'' : List α} {a : α}

/-- `l'` begins with what is left of `l`, in its order, and all that is behind it is `New`. -/
def QueuedBehind (New : α → Prop) (l l' : List α) : Prop :=
  ∃ kept joined, l' = kept ++ joined ∧ kept.Sublist l ∧ ∀ a ∈ joined, New a

namespace QueuedBehind

theorem of_sublist (h : l'.Sublist l) : QueuedBehind New l l' :=
  ⟨l', [], (List.append_nil l').symm, h, by simp⟩

theorem refl (l : List α) : QueuedBehind New l l := of_sublist (.refl l)

theorem mono (h : QueuedBehind New l l') (hN : ∀ a, New a → New' a) : QueuedBehind New' l l' := by
  obtain ⟨kept, joined, heq, hk, hj⟩ := h
  exact ⟨kept, joined, heq, hk, fun a ha => hN a (hj a ha)⟩

theorem mem (h : QueuedBehind New l l') (ha : a ∈ l') : a ∈ l ∨ New a := by
  obtain ⟨kept, joined, rfl, hk, hj⟩ := h
  rcases List.mem_append.mp ha with ha | ha
  · exact .inl (hk.subset ha)
  · exact .inr (hj a ha)

/-- Some leave. -/
theorem shed (h : QueuedBehind New l l') (hs : l''.Sublist l') : QueuedBehind New l l'' := by
  obtain ⟨kept, joined, rfl, hk, hj⟩ := h
  obtain ⟨kept', joined', rfl, hk', hj'⟩ := List.sublist_append_iff.mp hs
  exact ⟨kept', joined', rfl, hk'.trans hk, fun a ha => hj a (hj'.subset ha)⟩

/-- One joins. -/
theorem push (h : QueuedBehind New l l') (ha : New a) : QueuedBehind New l (l' ++ [a]) := by
  obtain ⟨kept, joined, rfl, hk, hj⟩ := h
  refine ⟨kept, joined ++ [a], List.append_assoc .., hk, fun b hb => ?_⟩
  rcases List.mem_append.mp hb with hb | hb
  · exact hj b hb
  · rw [List.mem_singleton.mp hb]
    exact ha

theorem trans (h : QueuedBehind New l l') (h' : QueuedBehind New l' l'') :
    QueuedBehind New l l'' := by
  obtain ⟨kept, joined, rfl, hk, hj⟩ := h'
  induction joined using List.reverseRecOn with
  | nil => exact (List.append_nil kept).symm ▸ h.shed hk
  | append_singleton joined a ih =>
    rw [← List.append_assoc]
    refine (ih fun b hb => hj b ?_).push (hj a ?_)
    · exact List.mem_append_left _ hb
    · exact List.mem_append_right _ (List.mem_singleton_self a)

end QueuedBehind

end SimpleOrderbook
