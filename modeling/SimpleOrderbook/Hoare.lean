import Mathlib.Data.List.Basic

/-!
# Weakest preconditions of programs with a state and exceptions

`wp m Q E s`: the program `m`, run in state `s`, either returns and establishes `Q`, or leaves by an
exception and establishes `E`. The rules follow the programs: one for each way of composing them,
and an invariant rule for each loop.
-/
namespace Hoare

variable {ε σ α β : Type}

def wp (m : EStateM ε σ α) (Q : α → σ → Prop) (E : ε → σ → Prop) (s : σ) : Prop :=
  match m s with
  | .ok a s' => Q a s'
  | .error e s' => E e s'

variable {m : EStateM ε σ α} {f : α → EStateM ε σ β} {Q R : α → σ → Prop} {E E' : ε → σ → Prop}
  {s : σ}

/-! ## From a run to its postcondition, and back -/

theorem wp.ok {a : α} {s' : σ} (h : wp m Q E s) (hm : m s = .ok a s') : Q a s' := by
  simpa [wp, hm] using h

theorem wp.error {e : ε} {s' : σ} (h : wp m Q E s) (hm : m s = .error e s') : E e s' := by
  simpa [wp, hm] using h

theorem wp_of (hok : ∀ a s', m s = .ok a s' → Q a s') (herr : ∀ e s', m s = .error e s' → E e s') :
    wp m Q E s := by
  unfold wp
  split
  next a s' hm => exact hok a s' hm
  next e s' hm => exact herr e s' hm

/-! ## Consequence and conjunction -/

theorem wp.mono (h : wp m Q E s) (hQ : ∀ a s, Q a s → R a s) (hE : ∀ e s, E e s → E' e s) :
    wp m R E' s :=
  wp_of (fun _ _ hm => hQ _ _ (h.ok hm)) fun _ _ hm => hE _ _ (h.error hm)

theorem wp.post (h : wp m Q E s) (hQ : ∀ a s, Q a s → R a s) : wp m R E s :=
  h.mono hQ fun _ _ he => he

/-- A program that leaves by no exception. -/
theorem wp.returns (h : wp m Q (fun _ _ => False) s) : wp m Q E s :=
  h.mono (fun _ _ hq => hq) fun _ _ he => he.elim

theorem wp.and (h : wp m Q E s) (h' : wp m R E' s) :
    wp m (fun a s => Q a s ∧ R a s) (fun e s => E e s ∧ E' e s) s :=
  wp_of (fun _ _ hm => ⟨h.ok hm, h'.ok hm⟩) fun _ _ hm => ⟨h.error hm, h'.error hm⟩

/-- A run that returns establishes, besides `Q`, that it is a run. -/
theorem wp.run (h : wp m Q E s) : wp m (fun a s' => Q a s' ∧ m s = .ok a s') E s :=
  wp_of (fun _ _ hm => ⟨h.ok hm, hm⟩) fun _ _ hm => h.error hm

/-! ## Composition -/

theorem wp_pure {a : α} (h : Q a s) : wp (pure a) Q E s := h

theorem wp_throw {e : ε} (h : E e s) : wp (throw e : EStateM ε σ α) Q E s := h

theorem wp.bind {Q : β → σ → Prop} (h : wp m R E s)
    (hf : ∀ a s', R a s' → wp (f a) Q E s') : wp (m >>= f) Q E s := by
  unfold wp at h ⊢
  change match EStateM.bind m f s with | .ok a s' => Q a s' | .error e s' => E e s'
  unfold EStateM.bind
  split at h
  next a s' hm => simpa [wp, hm] using hf a s' h
  next e s' hm => simpa [hm] using h

/-- A program whose first step is known. -/
theorem wp_bind_ok {Q : β → σ → Prop} {a : α} {s' : σ} (hm : m s = .ok a s')
    (hf : wp (f a) Q E s') : wp (m >>= f) Q E s :=
  wp.bind (R := fun b t => b = a ∧ t = s') (wp_of (by simp [hm]) (by simp [hm]))
    fun _ _ ⟨ha, hs⟩ => ha ▸ hs ▸ hf

theorem wp_get {Q : σ → σ → Prop} (h : Q s s) : wp (get : EStateM ε σ σ) Q E s := h

theorem wp.discard {Q : PUnit → σ → Prop} (h : wp m (fun _ => Q ⟨⟩) E s) :
    wp (discard m) Q E s := by
  change wp (m >>= fun _ => pure ⟨⟩) Q E s
  exact h.bind fun _ _ hq => wp_pure hq

theorem wp.tryCatch {handler : ε → EStateM ε σ α} (h : wp m Q E s)
    (hh : ∀ e s', E e s' → wp (handler e) Q E' s') : wp (tryCatch m handler) Q E' s := by
  change wp (fun s => EStateM.tryCatch m handler s) Q E' s
  unfold wp at h ⊢
  unfold EStateM.tryCatch
  simp only [EStateM.Backtrackable.restore, EStateM.dummyRestore]
  split at h
  next a s' hm => simpa [hm] using h
  next e s' hm => simpa [wp, hm] using hh e s' h

theorem wp_ite {c : Prop} [Decidable c] {m' : EStateM ε σ α} (h : c → wp m Q E s)
    (h' : ¬ c → wp m' Q E s) : wp (if c then m else m') Q E s := by
  split
  next hc => exact h hc
  next hc => exact h' hc

/-- What holds of a program that only returns a value does not depend on how it was reached. -/
theorem wp_bind_of {Q : β → σ → Prop} (hf : ∀ a s', wp (f a) Q E s') (hE : ∀ e s', E e s') :
    wp (m >>= f) Q E s :=
  wp.bind (R := fun _ _ => True) (wp_of (fun _ _ _ => trivial) fun _ _ _ => hE _ _) fun a s' _ =>
    hf a s'

/-! ## Loops -/

/-- The invariant `I` of a loop over a list speaks of the elements still to come. -/
theorem wp_forM {f : α → EStateM ε σ PUnit} (I : List α → σ → Prop) {l : List α}
    (h : I l s) (step : ∀ a l s, I (a :: l) s → wp (f a) (fun _ => I l) E s) :
    wp (l.forM f) (fun _ => I []) E s := by
  induction l generalizing s with
  | nil => exact wp_pure h
  | cons a l ih => exact (step a l s h).bind fun _ _ hl => ih hl

end Hoare
