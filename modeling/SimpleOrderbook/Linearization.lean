import SimpleOrderbook.Machine
import Mathlib.Data.List.Nodup
import Mathlib.Logic.Function.Basic

/-!
# Atomic objects

Calls from any number of threads on one object, each of which takes effect at one point between its
invocation and its response. What the callers see of them is explained by the order of these points.

## Main results

* `Linearizes` — the calls of a history, in an order that respects real time, are calls on the object
  one after the other.
* `linearizes_commits` — an atomic object is linearized by the points at which its calls take effect.
-/
namespace SimpleOrderbook

/-- What the callers of an object see. -/
inductive HistoryEvent (κ ω ρ : Type) where
  | invoke (c : κ) (op : ω)
  | respond (c : κ) (rep : ρ)

section Serial
variable {σ κ ω ρ : Type}

/-- Calls on an object with meaning `sem`, one after the other. -/
inductive Serial (sem : σ → ω → ρ → σ → Prop) (s₀ : σ) : List (κ × ω × ρ) → σ → Prop where
  | nil : Serial sem s₀ [] s₀
  | snoc {calls : List (κ × ω × ρ)} {s s' : σ} {c : κ} {op : ω} {rep : ρ} :
      Serial sem s₀ calls s → sem s op rep s' → Serial sem s₀ (calls ++ [(c, op, rep)]) s'

/-- `calls` explains what the callers saw, and ends in state `s`. -/
structure Linearizes (sem : σ → ω → ρ → σ → Prop) (s₀ : σ) (history : List (HistoryEvent κ ω ρ))
    (calls : List (κ × ω × ρ)) (s : σ) : Prop where
  serial : Serial sem s₀ calls s
  once : (calls.map (·.1)).Nodup
  invoked : ∀ x ∈ calls, .invoke x.1 x.2.1 ∈ history
  responded : ∀ c rep, .respond c rep ∈ history → ∃ op, (c, op, rep) ∈ calls
  /-- What has returned when a call is made comes before it. -/
  realTime : ∀ before after c op, history = before ++ .invoke c op :: after →
    ∃ calls₁ calls₂, calls = calls₁ ++ calls₂ ∧
      (∀ c' rep, .respond c' rep ∈ before → c' ∈ calls₁.map (·.1)) ∧ c ∉ calls₁.map (·.1)

end Serial

/-! ## An object whose calls take effect at one point -/

inductive CallStatus (ω ρ : Type) where
  | idle
  | called (op : ω)
  | settled (op : ω) (rep : ρ)
  | returned

structure AtomicState (σ κ ω ρ : Type) where
  state : σ
  status : κ → CallStatus ω ρ

inductive AtomicEvent (κ ω ρ : Type) where
  | invoke (c : κ) (op : ω)
  | commit (c : κ) (op : ω) (rep : ρ)
  | respond (c : κ) (rep : ρ)

section Atomic
variable {σ κ ω ρ : Type} [DecidableEq κ]

inductive AtomicState.Step (sem : σ → ω → ρ → σ → Prop) :
    AtomicState σ κ ω ρ → AtomicEvent κ ω ρ → AtomicState σ κ ω ρ → Prop where
  | invoke {a : AtomicState σ κ ω ρ} {c : κ} {op : ω} : a.status c = .idle →
      Step sem a (.invoke c op) { a with status := Function.update a.status c (.called op) }
  | commit {a : AtomicState σ κ ω ρ} {c : κ} {op : ω} {rep : ρ} {s' : σ} : a.status c = .called op →
      sem a.state op rep s' →
      Step sem a (.commit c op rep) ⟨s', Function.update a.status c (.settled op rep)⟩
  | respond {a : AtomicState σ κ ω ρ} {c : κ} {op : ω} {rep : ρ} : a.status c = .settled op rep →
      Step sem a (.respond c rep) { a with status := Function.update a.status c .returned }

/-- An object with meaning `sem`, in state `s₀` when it is made. -/
def atomicObject (sem : σ → ω → ρ → σ → Prop) (s₀ : σ) :
    Machine (AtomicState σ κ ω ρ) (AtomicEvent κ ω ρ) where
  init a := a.state = s₀ ∧ ∀ c, a.status c = .idle
  step := AtomicState.Step sem

def AtomicEvent.history : AtomicEvent κ ω ρ → Option (HistoryEvent κ ω ρ)
  | invoke c op => some (.invoke c op)
  | commit .. => none
  | respond c rep => some (.respond c rep)

def AtomicEvent.commits : AtomicEvent κ ω ρ → Option (κ × ω × ρ)
  | commit c op rep => some (c, op, rep)
  | _ => none

/-- What a status says of the events so far. -/
def CallStatus.Records (c : κ) (history : List (HistoryEvent κ ω ρ)) (calls : List (κ × ω × ρ)) :
    CallStatus ω ρ → Prop
  | idle => c ∉ calls.map (·.1)
  | called op => c ∉ calls.map (·.1) ∧ .invoke c op ∈ history
  | settled op rep => (c, op, rep) ∈ calls
  | returned => True

omit [DecidableEq κ] in
theorem CallStatus.Records.mono {st : CallStatus ω ρ} {c : κ} {history history' : List (HistoryEvent κ ω ρ)}
    {calls calls' : List (κ × ω × ρ)} (h : st.Records c history calls) (hh : history ⊆ history')
    (hc : calls ⊆ calls') (hn : c ∈ calls'.map (·.1) → c ∈ calls.map (·.1)) :
    st.Records c history' calls' := by
  cases st with
  | idle => exact fun hm => h (hn hm)
  | called op => exact ⟨fun hm => h.1 (hn hm), hh h.2⟩
  | settled op rep => exact hc h
  | returned => trivial

/-- What holds of an atomic object after its events. -/
structure Committed (sem : σ → ω → ρ → σ → Prop) (s₀ : σ) (history : List (HistoryEvent κ ω ρ))
    (calls : List (κ × ω × ρ)) (a : AtomicState σ κ ω ρ) : Prop extends
    Linearizes sem s₀ history calls a.state where
  records : ∀ c, (a.status c).Records c history calls

omit [DecidableEq κ] in
/-- The last of some events, or one before it. -/
theorem append_cons_eq_concat {α : Type} {before after l : List α} {x y : α}
    (h : before ++ x :: after = l ++ [y]) :
    (before = l ∧ x = y) ∨ ∃ after', l = before ++ x :: after' := by
  rcases List.eq_nil_or_concat after with rfl | ⟨after', z, rfl⟩
  · obtain ⟨rfl, hx⟩ := List.append_inj' h rfl
    exact .inl ⟨rfl, List.singleton_inj.mp hx⟩
  · rw [List.concat_eq_append, ← List.cons_append, ← List.append_assoc] at h
    exact .inr ⟨after', (List.append_inj' h rfl).1.symm⟩

section Step
variable {sem : σ → ω → ρ → σ → Prop} {s₀ s' : σ} {history : List (HistoryEvent κ ω ρ)}
  {calls : List (κ × ω × ρ)} {a : AtomicState σ κ ω ρ} {c : κ} {op : ω} {rep : ρ}

/-- The statuses after an event of call `c`. -/
theorem Committed.records_update (h : Committed sem s₀ history calls a)
    {history' : List (HistoryEvent κ ω ρ)} {calls' : List (κ × ω × ρ)} {st : CallStatus ω ρ}
    (hh : history ⊆ history') (hc : calls ⊆ calls')
    (hn : ∀ c', c' ≠ c → c' ∈ calls'.map (·.1) → c' ∈ calls.map (·.1))
    (hst : st.Records c history' calls') (c' : κ) :
    (Function.update a.status c st c').Records c' history' calls' := by
  by_cases hc' : c' = c
  · rw [hc', Function.update_self]
    exact hst
  · rw [Function.update_of_ne hc']
    exact (h.records c').mono hh hc (hn c' hc')

theorem Committed.invoke (h : Committed sem s₀ history calls a) (hc : a.status c = .idle) :
    Committed sem s₀ (history ++ [.invoke c op]) calls
      { a with status := Function.update a.status c (.called op) } := by
  have hnew : c ∉ calls.map (·.1) := by
    have := h.records c
    rwa [hc] at this
  have hsub : history ⊆ history ++ [.invoke c op] := List.subset_append_left _ _
  refine ⟨⟨h.serial, h.once, fun x hx => hsub (h.invoked x hx), fun c' rep' hm => ?_,
    fun before after c' op' heq => ?_⟩,
    h.records_update hsub (List.Subset.refl _) (fun _ _ hm => hm) ⟨hnew, by simp⟩⟩
  · rcases List.mem_append.mp hm with hm | hm
    · exact h.responded c' rep' hm
    · cases List.mem_singleton.mp hm
  · rcases append_cons_eq_concat heq.symm with ⟨rfl, hx⟩ | ⟨after', heq'⟩
    · cases hx
      refine ⟨calls, [], (List.append_nil _).symm, fun c' rep' hm => ?_, hnew⟩
      obtain ⟨op'', hm'⟩ := h.responded c' rep' hm
      exact List.mem_map_of_mem hm'
    · exact h.realTime before after' c' op' heq'

theorem Committed.commit (h : Committed sem s₀ history calls a) (hc : a.status c = .called op)
    (hsem : sem a.state op rep s') : Committed sem s₀ history (calls ++ [(c, op, rep)])
      ⟨s', Function.update a.status c (.settled op rep)⟩ := by
  have hrec := h.records c
  rw [hc] at hrec
  obtain ⟨hnew, hin⟩ := hrec
  have hsub : calls ⊆ calls ++ [(c, op, rep)] := List.subset_append_left _ _
  refine ⟨⟨h.serial.snoc hsem, ?_, fun x hx => ?_, fun c' rep' hm => ?_,
    fun before after c' op' heq => ?_⟩,
    h.records_update (List.Subset.refl _) hsub (fun c' hne hm => ?_) ?_⟩
  · rw [List.map_append, List.map_singleton]
    refine List.nodup_append.mpr ⟨h.once, List.nodup_singleton _, fun x hx y hy hxy => ?_⟩
    have hy : y = c := List.mem_singleton.mp hy
    exact hnew (hy ▸ hxy ▸ hx)
  · rcases List.mem_append.mp hx with hx | hx
    · exact h.invoked x hx
    · cases List.mem_singleton.mp hx
      exact hin
  · obtain ⟨op', hm'⟩ := h.responded c' rep' hm
    exact ⟨op', hsub hm'⟩
  · obtain ⟨calls₁, calls₂, rfl, hbefore, hn⟩ := h.realTime before after c' op' heq
    exact ⟨calls₁, calls₂ ++ [(c, op, rep)], List.append_assoc .., hbefore, hn⟩
  · rw [List.map_append, List.map_singleton, List.mem_append, List.mem_singleton] at hm
    exact hm.resolve_right hne
  · exact List.mem_append_right _ (List.mem_singleton_self _)

theorem Committed.respond (h : Committed sem s₀ history calls a) (hc : a.status c = .settled op rep) :
    Committed sem s₀ (history ++ [.respond c rep]) calls
      { a with status := Function.update a.status c .returned } := by
  have hin : (c, op, rep) ∈ calls := by
    have := h.records c
    rwa [hc] at this
  have hsub : history ⊆ history ++ [.respond c rep] := List.subset_append_left _ _
  refine ⟨⟨h.serial, h.once, fun x hx => hsub (h.invoked x hx), fun c' rep' hm => ?_,
    fun before after c' op' heq => ?_⟩,
    h.records_update hsub (List.Subset.refl _) (fun _ _ hm => hm) trivial⟩
  · rcases List.mem_append.mp hm with hm | hm
    · exact h.responded c' rep' hm
    · cases List.mem_singleton.mp hm
      exact ⟨op, hin⟩
  · rcases append_cons_eq_concat heq.symm with ⟨-, hx⟩ | ⟨after', heq'⟩
    · cases hx
    · exact h.realTime before after' c' op' heq'

theorem Committed.init (h : (atomicObject sem s₀).init a) : Committed sem s₀ [] [] a := by
  obtain ⟨hs, hidle⟩ := h
  refine ⟨⟨hs ▸ .nil, List.nodup_nil, fun x hx => (by cases hx), fun c rep hm => (by cases hm),
    fun before after c op heq => ?_⟩, fun c => ?_⟩
  · exact absurd heq.symm (by simp)
  · rw [hidle c]
    exact List.not_mem_nil

end Step

/-- The points at which its calls take effect linearize an atomic object. -/
theorem linearizes_commits {sem : σ → ω → ρ → σ → Prop} {s₀ : σ} {trace : List (AtomicEvent κ ω ρ)}
    {a : AtomicState σ κ ω ρ} (h : (atomicObject sem s₀).Run trace a) :
    Linearizes sem s₀ (trace.filterMap AtomicEvent.history) (trace.filterMap AtomicEvent.commits)
      a.state := by
  suffices Committed sem s₀ (trace.filterMap AtomicEvent.history)
      (trace.filterMap AtomicEvent.commits) a from this.toLinearizes
  refine h.invariant (I := fun trace a => Committed sem s₀ (trace.filterMap AtomicEvent.history)
    (trace.filterMap AtomicEvent.commits) a) (fun a hinit => .init hinit) ?_
  intro trace a e a' _ ih hstep
  rw [List.filterMap_append, List.filterMap_append]
  cases hstep with
  | invoke hc =>
    rw [List.filterMap_cons_none (f := AtomicEvent.commits) rfl, List.filterMap_nil, List.append_nil]
    exact ih.invoke hc
  | commit hc hsem =>
    rw [List.filterMap_cons_none (f := AtomicEvent.history) rfl, List.filterMap_nil, List.append_nil]
    exact ih.commit hc hsem
  | respond hc =>
    rw [List.filterMap_cons_none (f := AtomicEvent.commits) rfl, List.filterMap_nil, List.append_nil]
    exact ih.respond hc

end Atomic
end SimpleOrderbook
