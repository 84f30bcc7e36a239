import SimpleOrderbook.Keeping

/-!
# Programs that agree until something goes wrong

Two programs may differ only where the first one does something that leaves a mark on the state,
and marks are never removed. Then every run of the first that ends without a mark is a run of the
second. The rules follow the programs, as those of `Keeps` do.

## Main definitions

* `Agrees` — the same end from every state, or a mark.
* `Agrees.ok`, `Agrees.error` — a run without a mark, transferred.
-/
namespace Hoare

variable {ε σ α β : Type} {bad : σ → Prop} {m m' : EStateM ε σ α} {f f' : α → EStateM ε σ β} {s s' : σ}

structure Agrees (bad : σ → Prop) (m m' : EStateM ε σ α) : Prop where
  keeps : Keeps bad m
  run : ∀ s, m s = m' s ∨ wp m (fun _ => bad) (fun _ => bad) s

namespace Agrees

theorem refl (h : Keeps bad m) : Agrees bad m m := ⟨h, fun _ => .inl rfl⟩

theorem pure (a : α) : Agrees bad (pure a : EStateM ε σ α) (pure a) := refl (.pure a)

theorem throw (e : ε) : Agrees bad (throw e : EStateM ε σ α) (throw e) := refl (.throw e)

theorem ok (h : Agrees bad m m') {a : α} (hm : m s = .ok a s') (hs : ¬ bad s') : m' s = .ok a s' := by
  rcases h.run s with heq | hbad
  · exact heq ▸ hm
  · exact absurd (hbad.ok hm) hs

theorem error (h : Agrees bad m m') {e : ε} (hm : m s = .error e s') (hs : ¬ bad s') :
    m' s = .error e s' := by
  rcases h.run s with heq | hbad
  · exact heq ▸ hm
  · exact absurd (hbad.error hm) hs

theorem bind (hm : Agrees bad m m') (hf : ∀ a, Agrees bad (f a) (f' a)) :
    Agrees bad (m >>= f) (m' >>= f') := by
  refine ⟨hm.keeps.bind fun a => (hf a).keeps, fun s => ?_⟩
  rcases hm.run s with heq | hbad
  · change EStateM.bind m f s = EStateM.bind m' f' s ∨ wp (EStateM.bind m f) _ _ s
    unfold wp EStateM.bind
    rw [← heq]
    cases m s with
    | ok a s' => exact (hf a).run s'
    | error e s' => exact .inl rfl
  · exact .inr (hbad.bind fun a s' h => (hf a).keeps.run s' h)

theorem discard (hm : Agrees bad m m') : Agrees bad (discard m) (discard m') :=
  bind hm fun _ => pure _

theorem ite {c : Prop} [Decidable c] {n n' : EStateM ε σ α} (hm : Agrees bad m m')
    (hn : Agrees bad n n') : Agrees bad (if c then m else n) (if c then m' else n') := by
  split
  · exact hm
  · exact hn

end Agrees
end Hoare
