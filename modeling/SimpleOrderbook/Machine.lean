import Mathlib.Data.List.Basic

/-!
# Machines

Transition systems whose steps are labelled with events. A run carries its events, the oldest first.
-/
namespace SimpleOrderbook

structure Machine (σ ε : Type) where
  init : σ → Prop
  step : σ → ε → σ → Prop

namespace Machine
variable {σ ε : Type} {M : Machine σ ε} {s s' : σ} {trace : List ε} {e : ε}

inductive Run (M : Machine σ ε) : List ε → σ → Prop where
  | init {s : σ} : M.init s → Run M [] s
  | step {trace : List ε} {s s' : σ} {e : ε} :
      Run M trace s → M.step s e s' → Run M (trace ++ [e]) s'

/-- What holds at the start and is kept by every step after a run for which it holds. -/
theorem Run.invariant {I : List ε → σ → Prop} (hinit : ∀ s, M.init s → I [] s)
    (hstep : ∀ trace s e s', M.Run trace s → I trace s → M.step s e s' → I (trace ++ [e]) s')
    (h : M.Run trace s) : I trace s := by
  induction h with
  | init h => exact hinit _ h
  | step hrun h ih => exact hstep _ _ _ _ hrun ih h

/-- The last step of a run. -/
theorem Run.last (h : M.Run (trace ++ [e]) s') : ∃ s, M.Run trace s ∧ M.step s e s' := by
  generalize htr : trace ++ [e] = tr at h
  cases h with
  | init => simp at htr
  | step hrun h =>
    obtain ⟨rfl, he⟩ := List.append_inj' htr rfl
    obtain rfl := List.singleton_inj.mp he
    exact ⟨_, hrun, h⟩

/-- Under `abs` and `ev`, a state of `M` with `I` is one of `M'` and a step of it one of `M'`, or no step
at all. -/
structure Refines {σ' ε' : Type} (M : Machine σ ε) (M' : Machine σ' ε') (I : σ → Prop) (abs : σ → σ')
    (ev : ε → Option ε') : Prop where
  init : ∀ {s}, M.init s → I s ∧ M'.init (abs s)
  keep : ∀ {s e s'}, I s → M.step s e s' → I s'
  step : ∀ {s e s' e'}, I s → M.step s e s' → ev e = some e' → M'.step (abs s) e' (abs s')
  stutter : ∀ {s e s'}, I s → M.step s e s' → ev e = none → abs s' = abs s

theorem Refines.run {σ' ε' : Type} {M' : Machine σ' ε'} {I : σ → Prop} {abs : σ → σ'}
    {ev : ε → Option ε'} (hR : M.Refines M' I abs ev) (h : M.Run trace s) :
    I s ∧ M'.Run (trace.filterMap ev) (abs s) := by
  induction h with
  | init h =>
    obtain ⟨hI, hinit⟩ := hR.init h
    exact ⟨hI, .init hinit⟩
  | @step trace s s' e _ hstep ih =>
    obtain ⟨hI, hrun⟩ := ih
    refine ⟨hR.keep hI hstep, ?_⟩
    rw [List.filterMap_append]
    cases he : ev e with
    | none =>
      rw [List.filterMap_cons_none he, List.filterMap_nil, List.append_nil, hR.stutter hI hstep he]
      exact hrun
    | some e' =>
      rw [List.filterMap_cons_some he, List.filterMap_nil]
      exact hrun.step (hR.step hI hstep he)

end Machine
end SimpleOrderbook
