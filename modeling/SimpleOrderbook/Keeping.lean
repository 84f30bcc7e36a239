import SimpleOrderbook.Hoare

/-!
# Programs that keep an invariant

`Keeps I m`: run in a state with `I`, the program `m` ends in one with `I`, whether it returns or
leaves by an exception. The rules follow the programs. What a program reads or returns may be used
after it as a fact about that value, as long as the fact does not depend on the state.

## Main definitions

* `Keeps` — an invariant of a program, whichever way it ends.
* `Keeps.bind_of` — the rule for a program that establishes a fact about its result.
* `Unless` — a postcondition that holds unless something went wrong, which is never undone.
-/
namespace Hoare

variable {ε σ α β : Type} {I : σ → Prop} {m : EStateM ε σ α} {f : α → EStateM ε σ β}

structure Keeps (I : σ → Prop) (m : EStateM ε σ α) : Prop where
  run : ∀ s, I s → wp m (fun _ => I) (fun _ => I) s

namespace Keeps

theorem pure (a : α) : Keeps I (pure a : EStateM ε σ α) := ⟨fun _ h => wp_pure h⟩

theorem throw (e : ε) : Keeps I (throw e : EStateM ε σ α) := ⟨fun _ h => wp_throw h⟩

theorem bind (hm : Keeps I m) (hf : ∀ a, Keeps I (f a)) : Keeps I (m >>= f) :=
  ⟨fun s h => (hm.run s h).bind fun a s' h' => (hf a).run s' h'⟩

/-- The result of `m` has `R`. -/
theorem bind_of {R : α → Prop} (hm : ∀ s, I s → wp m (fun a s' => R a ∧ I s') (fun _ => I) s)
    (hf : ∀ a, R a → Keeps I (f a)) : Keeps I (m >>= f) :=
  ⟨fun s h => (hm s h).bind fun a s' ⟨ha, h'⟩ => (hf a ha).run s' h'⟩

theorem discard (hm : Keeps I m) : Keeps I (discard m) := ⟨fun s h => wp.discard (hm.run s h)⟩

theorem ite {c : Prop} [Decidable c] {m' : EStateM ε σ α} (hm : c → Keeps I m)
    (hm' : ¬ c → Keeps I m') : Keeps I (if c then m else m') :=
  ⟨fun s h => wp_ite (fun hc => (hm hc).run s h) fun hc => (hm' hc).run s h⟩

theorem tryCatch {handler : ε → EStateM ε σ α} (hm : Keeps I m) (hh : ∀ e, Keeps I (handler e)) :
    Keeps I (tryCatch m handler) :=
  ⟨fun s h => (hm.run s h).tryCatch fun e s' h' => (hh e).run s' h'⟩

theorem forM {g : α → EStateM ε σ PUnit} {l : List α} (hg : ∀ a ∈ l, Keeps I (g a)) :
    Keeps I (l.forM g) := by
  induction l with
  | nil => exact pure _
  | cons a l ih =>
    exact bind (hg a List.mem_cons_self) fun _ => ih fun b hb => hg b (List.mem_cons_of_mem a hb)

/-- What holds in the states with `I` may be used. -/
theorem assuming (hm : ∀ s, I s → Keeps I m) : Keeps I m := ⟨fun s h => (hm s h).run s h⟩

end Keeps

/-! ## Up to a fault -/

/-- Where nothing `bad` happened, `m` establishes `Q` or leaves by an exception with `E`. -/
abbrev Unless (bad : σ → Prop) (m : EStateM ε σ α) (Q : α → σ → Prop) (E : ε → σ → Prop) (s : σ) :
    Prop := wp m (fun a s' => bad s' ∨ Q a s') (fun e s' => bad s' ∨ E e s') s

namespace Unless
variable {bad : σ → Prop} {Q R : α → σ → Prop} {E E' : ε → σ → Prop} {s : σ}

theorem of_wp (h : wp m Q E s) : Unless bad m Q E s :=
  h.mono (fun _ _ => .inr) fun _ _ => .inr

theorem of_bad (hm : Keeps bad m) (hs : bad s) : Unless bad m Q E s :=
  (hm.run s hs).mono (fun _ _ => .inl) fun _ _ => .inl

theorem mono (h : Unless bad m Q E s) (hQ : ∀ a s, Q a s → R a s) (hE : ∀ e s, E e s → E' e s) :
    Unless bad m R E' s :=
  wp.mono h (fun a s => Or.imp_right (hQ a s)) fun e s => Or.imp_right (hE e s)

theorem post (h : Unless bad m Q E s) (hQ : ∀ a s, Q a s → R a s) : Unless bad m R E s :=
  h.mono hQ fun _ _ he => he

theorem bind {Q : β → σ → Prop} (h : Unless bad m R E s) (hk : ∀ a, Keeps bad (f a))
    (hf : ∀ a s', R a s' → Unless bad (f a) Q E s') : Unless bad (m >>= f) Q E s :=
  wp.bind h fun a s' hr => hr.elim (of_bad (hk a)) (hf a s')

theorem discard {Q : PUnit → σ → Prop} (h : Unless bad m (fun _ => Q ⟨⟩) E s) :
    Unless bad (discard m) Q E s := wp.discard h

end Unless
end Hoare
