import SimpleOrderbook.Machine
import Mathlib.Data.List.Nodup
import Mathlib.Logic.Function.Basic

/-!
# Resource managers

`resource_manager.hpp`: maps of resources that are linked by naming each other as relatives. The entry
of the manager that added the resource owns it: the deleter runs when that entry is destroyed.

The code is stated for any managers; the calls and the results are about two of them.

## Main results

* `Paired` — what the two maps have in common after any calls.
* `linked_managers_iff` — the calls after which the managers are in step.
-/
namespace SimpleOrderbook

/-- An entry; its resource is its key and its deleter is the manager's. -/
structure ResourceInfo (μ : Type) where
  relatives : List μ
  owner : Bool
deriving DecidableEq

/-- The `_resources` of every manager, and what deleters have run in the current call. -/
structure Managers (μ ρ : Type) where
  resources : μ → ρ → Option (ResourceInfo μ)
  deletions : List ρ

namespace Managers
variable {μ ρ : Type} [DecidableEq μ] [DecidableEq ρ]

def set (s : Managers μ ρ) (m : μ) (r : ρ) (info : Option (ResourceInfo μ)) : Managers μ ρ :=
  { s with resources := Function.update s.resources m (Function.update (s.resources m) r info) }

/-- `_add` -/
def addEntry (s : Managers μ ρ) (m : μ) (r : ρ) (relatives : List μ) : Bool × Managers μ ρ :=
  match s.resources m r with
  | none => (true, s.set m r (some ⟨relatives, false⟩))
  | some _ => (false, s)

/-- `_remove`, with the destructor of the entry. -/
def removeEntry (s : Managers μ ρ) (m : μ) (r : ρ) : Managers μ ρ :=
  match s.resources m r with
  | none => s
  | some info =>
    if info.owner then { s.set m r none with deletions := s.deletions ++ [r] } else s.set m r none

def remove (s : Managers μ ρ) (m : μ) (r : ρ) : Managers μ ρ :=
  match s.resources m r with
  | none => s
  | some info => (info.relatives.foldl (fun s rm => s.removeEntry rm r) s).removeEntry m r

/-- The loop of `add` over the other managers. -/
def reciprocate (s : Managers μ ρ) (m : μ) (r : ρ) : List μ → Bool × Managers μ ρ
  | [] => (true, s)
  | o :: others =>
    match s.addEntry o r [m] with
    | (true, s') => s'.reciprocate m r others
    | (false, s') => (false, s'.remove m r)

def adopt (s : Managers μ ρ) (m : μ) (r : ρ) : Managers μ ρ :=
  match s.resources m r with
  | none => s
  | some info => s.set m r (some { info with owner := true })

def add (s : Managers μ ρ) (m : μ) (r : ρ) (relatives : List μ) : Bool × Managers μ ρ :=
  let others := relatives.filter (· ≠ m)
  match s.addEntry m r others with
  | (false, s') => (false, s')
  | (true, s') =>
    match s'.reciprocate m r others with
    | (false, s'') => (false, s'')
    | (true, s'') => (true, s''.adopt m r)

/-- `remove_all`, where `get_all` lists the resources in the given order. -/
def removeAll (s : Managers μ ρ) (m : μ) (order : List ρ) : Managers μ ρ :=
  order.foldl (fun s r => s.remove m r) s

/-- `is_managed` -/
def Manages (s : Managers μ ρ) (m : μ) (r : ρ) : Prop := s.resources m r ≠ none

@[simp] theorem set_resources (s : Managers μ ρ) (m n : μ) (r q : ρ)
    (info : Option (ResourceInfo μ)) :
    (s.set m r info).resources n q = if n = m ∧ q = r then info else s.resources n q := by
  unfold set
  dsimp only
  rw [Function.update_apply]
  split
  next h =>
    rw [Function.update_apply, h]
    simp
  next h => simp [h]

@[simp] theorem set_deletions (s : Managers μ ρ) (m : μ) (r : ρ) (info : Option (ResourceInfo μ)) :
    (s.set m r info).deletions = s.deletions := rfl

end Managers

/-! ## Two managers -/

inductive Manager where
  | a | b
deriving DecidableEq

def Manager.other : Manager → Manager
  | a => b
  | b => a

@[simp] theorem Manager.other_other (m : Manager) : m.other.other = m := by cases m <;> rfl
@[simp] theorem Manager.other_ne (m : Manager) : m.other ≠ m := by cases m <;> decide
@[simp] theorem Manager.ne_other (m : Manager) : m ≠ m.other := by cases m <;> decide

theorem Manager.eq_or_other (m n : Manager) : n = m ∨ n = m.other := by
  cases m <;> cases n <;> decide

namespace Managers
variable {ρ : Type} {s s' : Managers Manager ρ} {m : Manager} {r q : ρ}

/-- An entry has no relative and is owner, or it is one of two that name each other and one of them
is owner. -/
def Paired (s : Managers Manager ρ) : Prop :=
  ∀ m r, s.resources m r = none ∨ s.resources m r = some ⟨[], true⟩ ∨
    ∃ owner, s.resources m r = some ⟨[m.other], owner⟩ ∧
      s.resources m.other r = some ⟨[m], !owner⟩

/-- The entry names a relative. -/
def hasRelative (s : Managers Manager ρ) (m : Manager) (r : ρ) : Bool :=
  (s.resources m r).any fun info => info.relatives ≠ []

/-- What `remove` does: the entry of the other manager goes with a linked one, and a deleter runs once
where there was an entry. -/
structure Removes (s s' : Managers Manager ρ) (m : Manager) (r : ρ) : Prop where
  self : s'.resources m r = none
  other : s'.resources m.other r = if s.hasRelative m r then none else s.resources m.other r
  rest : ∀ n, ∀ q ≠ r, s'.resources n q = s.resources n q
  deletions : s'.deletions = s.deletions ++ if (s.resources m r).isSome then [r] else []

variable [DecidableEq ρ]

theorem remove_removes (hp : s.Paired) (m : Manager) (r : ρ) : Removes s (s.remove m r) m r := by
  rcases hp m r with h | h | ⟨owner, h, h'⟩
  · have hrem : s.remove m r = s := by simp [remove, h]
    constructor <;> simp [hrem, hasRelative, h]
  · have hrem : s.remove m r = { s.set m r none with deletions := s.deletions ++ [r] } := by
      simp [remove, removeEntry, h]
    rw [hrem]
    constructor
    · rw [set_resources, if_pos ⟨rfl, rfl⟩]
    · dsimp only
      rw [set_resources, if_neg (by simp)]
      simp [hasRelative, h]
    · intro n q hq
      dsimp only
      rw [set_resources, if_neg (by simp [hq])]
    · simp [h]
  · have hrem : s.remove m r =
        { (s.set m.other r none).set m r none with deletions := s.deletions ++ [r] } := by
      cases owner <;> simp [remove, removeEntry, h, h']
      rfl
    rw [hrem]
    constructor
    · dsimp only
      rw [set_resources, if_pos ⟨rfl, rfl⟩]
    · dsimp only
      rw [set_resources, if_neg (by simp), set_resources, if_pos ⟨rfl, rfl⟩]
      simp [hasRelative, h]
    · intro n q hq
      dsimp only
      rw [set_resources, if_neg (by simp [hq]), set_resources, if_neg (by simp [hq])]
    · simp [h]

/-- Entries that agree with paired ones, but where both are gone, or one without relatives is. -/
theorem Removes.paired (h : Removes s s' m r) (hp : s.Paired) : s'.Paired := by
  intro n q
  by_cases hq : q = r
  · subst hq
    have hother := h.other
    cases hrel : s.hasRelative m q with
    | true =>
      rw [hrel, if_pos rfl] at hother
      left
      rcases m.eq_or_other n with rfl | rfl
      · exact h.self
      · exact hother
    | false =>
      rw [hrel, if_neg (by decide)] at hother
      rcases m.eq_or_other n with rfl | rfl
      · exact .inl h.self
      · rw [hother]
        rcases hp m.other q with hr | hr | ⟨owner, hr, hr'⟩
        · exact .inl hr
        · exact .inr (.inl hr)
        · rw [m.other_other] at hr'
          simp [hasRelative, hr'] at hrel
  · rw [h.rest n q hq, h.rest n.other q hq]
    exact hp n q

/-- What `add` does with at most one relative. -/
inductive Adds (s : Managers Manager ρ) (m : Manager) (r : ρ) (relative : Option Manager) :
    Bool × Managers Manager ρ → Prop where
  | refused : s.Manages m r → Adds s m r relative (false, s)
  | alone : ¬ s.Manages m r → relative ≠ some m.other →
      Adds s m r relative (true, s.set m r (some ⟨[], true⟩))
  | linked : ¬ s.Manages m r → ¬ s.Manages m.other r → relative = some m.other →
      Adds s m r relative (true, ((s.set m r (some ⟨[m.other], false⟩)).set m.other r
        (some ⟨[m], false⟩)).set m r (some ⟨[m.other], true⟩))
  /-- The relative has an entry of its own; the rollback removes that one. -/
  | rolledBack {s' : Managers Manager ρ} : ¬ s.Manages m r → s.Manages m.other r →
      relative = some m.other → Removes s s' m.other r → Adds s m r relative (false, s')

theorem set_set (s : Managers Manager ρ) (m : Manager) (r : ρ) (i j : Option (ResourceInfo Manager)) :
    (s.set m r i).set m r j = s.set m r j := by
  simp [set]

theorem set_comm (s : Managers Manager ρ) (m : Manager) (r : ρ)
    (i j : Option (ResourceInfo Manager)) :
    (s.set m r i).set m.other r j = (s.set m.other r j).set m r i := by
  simp [set, Function.update_comm m.ne_other]

/-- The rollback of an entry that the relative refused. -/
theorem rollback_removes (hp : s.Paired) (hm : s.resources m r = none)
    (ho : s.Manages m.other r) :
    Removes s ((s.set m r (some ⟨[m.other], false⟩)).remove m r) m.other r := by
  have hother : s.resources m.other r = some ⟨[], true⟩ := by
    rcases hp m.other r with h | h | ⟨owner, -, h⟩
    · exact absurd h ho
    · exact h
    · rw [m.other_other, hm] at h
      exact nomatch h
  have hrem : (s.set m r (some ⟨[m.other], false⟩)).remove m r
      = { (s.set m.other r none).set m r none with deletions := s.deletions ++ [r] } := by
    simp [remove, removeEntry, hother]
    rw [set_comm]
    simp [set]
  rw [hrem]
  constructor
  · dsimp only
    rw [set_resources, if_neg (by simp), set_resources, if_pos ⟨rfl, rfl⟩]
  · dsimp only
    rw [m.other_other, set_resources, if_pos ⟨rfl, rfl⟩]
    simp [hm]
  · intro n q hq
    dsimp only
    rw [set_resources, if_neg (by simp [hq]), set_resources, if_neg (by simp [hq])]
  · simp [hother]

theorem add_adds (hp : s.Paired) (m : Manager) (r : ρ) (relative : Option Manager) :
    Adds s m r relative (s.add m r relative.toList) := by
  by_cases hm : s.resources m r = none
  swap
  · obtain ⟨info, hinfo⟩ := Option.ne_none_iff_exists'.mp hm
    have : s.add m r relative.toList = (false, s) := by simp [add, addEntry, hinfo]
    rw [this]
    exact .refused hm
  by_cases hrel : relative = some m.other
  swap
  · have hothers : relative.toList.filter (· ≠ m) = [] := by
      rcases relative with _ | n
      · rfl
      · rcases m.eq_or_other n with rfl | rfl
        · simp
        · exact absurd rfl hrel
    have : s.add m r relative.toList = (true, s.set m r (some ⟨[], true⟩)) := by
      unfold add
      rw [hothers]
      simp [addEntry, hm, reciprocate, adopt, set_set]
    rw [this]
    exact .alone (not_not.mpr hm) hrel
  subst hrel
  by_cases ho : s.resources m.other r = none
  · have : s.add m r (some m.other).toList = (true, ((s.set m r (some ⟨[m.other], false⟩)).set m.other r
        (some ⟨[m], false⟩)).set m r (some ⟨[m.other], true⟩)) := by
      simp [add, addEntry, hm, ho, reciprocate, adopt]
    rw [this]
    exact .linked (not_not.mpr hm) (not_not.mpr ho) rfl
  · obtain ⟨info, hinfo⟩ := Option.ne_none_iff_exists'.mp ho
    have : s.add m r (some m.other).toList
        = (false, (s.set m r (some ⟨[m.other], false⟩)).remove m r) := by
      simp [add, addEntry, hm, hinfo, reciprocate]
    rw [this]
    exact .rolledBack (not_not.mpr hm) ho rfl (rollback_removes hp hm ho)

theorem Adds.paired {relative : Option Manager} {res : Bool × Managers Manager ρ}
    (h : Adds s m r relative res) (hp : s.Paired) : res.2.Paired := by
  cases h with
  | refused => exact hp
  | alone hm hrel =>
    intro n q
    by_cases hq : q = r
    · subst hq
      rcases m.eq_or_other n with rfl | rfl
      · simp
      · rcases hp m.other q with h | h | ⟨owner, -, h⟩
        · simp [h]
        · simp [h]
        · rw [m.other_other] at h
          exact absurd (by rw [Manages, h]; simp) hm
    · simpa [hq] using hp n q
  | linked hm ho hrel =>
    intro n q
    by_cases hq : q = r
    · subst hq
      rcases m.eq_or_other n with rfl | rfl <;> simp
    · simpa [hq] using hp n q
  | rolledBack _ _ _ h => exact h.paired hp

theorem removeAll_paired (hp : s.Paired) (m : Manager) (order : List ρ) :
    (s.removeAll m order).Paired := by
  induction order generalizing s with
  | nil => exact hp
  | cons r order ih => exact ih ((remove_removes hp m r).paired hp)

/-- Removing resources one after the other is removing each of them. -/
theorem removeAll_cases (hp : s.Paired) (m : Manager) {order : List ρ} (hnodup : order.Nodup)
    (hmem : ∀ r ∈ order, (s.resources m r).isSome) :
    (s.removeAll m order).deletions = s.deletions ++ order ∧
      (∀ n, ∀ q ∉ order, (s.removeAll m order).resources n q = s.resources n q) ∧
      ∀ r ∈ order, (s.removeAll m order).resources m r = none ∧
        (s.removeAll m order).resources m.other r
          = if s.hasRelative m r then none else s.resources m.other r := by
  induction order generalizing s with
  | nil => exact ⟨(List.append_nil _).symm, fun _ _ _ => rfl, fun _ h => nomatch h⟩
  | cons r order ih =>
    obtain ⟨hr, hnodup⟩ := List.nodup_cons.mp hnodup
    have hstep := remove_removes hp m r
    have hsame (q : ρ) (hq : q ∈ order) (n : Manager) :
        (s.remove m r).resources n q = s.resources n q := hstep.rest n q fun h => hr (h ▸ hq)
    obtain ⟨hdel, hrest, hgone⟩ := ih (hstep.paired hp) hnodup fun q hq => by
      rw [hsame q hq]
      exact hmem q (List.mem_cons_of_mem _ hq)
    change ((s.remove m r).removeAll m order).deletions = _ ∧
      (∀ n, ∀ q ∉ r :: order, ((s.remove m r).removeAll m order).resources n q = _) ∧
      ∀ q ∈ r :: order, ((s.remove m r).removeAll m order).resources m q = _ ∧
        ((s.remove m r).removeAll m order).resources m.other q = _
    refine ⟨?_, ?_, ?_⟩
    · rw [hdel, hstep.deletions, if_pos (hmem r List.mem_cons_self), List.append_assoc]
      rfl
    · intro n q hq
      rw [hrest n q fun h => hq (List.mem_cons_of_mem _ h)]
      exact hstep.rest n q fun h => hq (h ▸ List.mem_cons_self)
    · intro q hq
      rcases List.mem_cons.mp hq with rfl | hq
      · rw [hrest _ _ hr, hrest _ _ hr]
        exact ⟨hstep.self, hstep.other⟩
      · have := hgone q hq
        rwa [hasRelative, hsame q hq, hsame q hq] at this

end Managers

/-! ## Calls -/

inductive Call (ρ : Type) where
  | add (r : ρ) (relative : Option Manager)
  | remove (r : ρ)
  | removeAll

/-- A call with the states around it; only `add` has an answer. -/
structure Called (ρ : Type) where
  manager : Manager
  call : Call ρ
  before : Managers Manager ρ
  answer : Option Bool
  after : Managers Manager ρ

section Calls
variable {ρ : Type}

/-- The managers at the start of a call. -/
def Managers.enter (s : Managers Manager ρ) : Managers Manager ρ := { s with deletions := [] }

/-- `m` has the resource, added to it alone, and the other manager has it too. -/
def Managers.Separate (s : Managers Manager ρ) (m : Manager) (r : ρ) : Prop :=
  (∀ n, s.Manages n r) ∧ s.hasRelative m r = false

/-- An `add` that fails changes no set of resources and runs no deleter. A deleter runs at most once,
in the call that takes the resource from the last manager, and in no other. -/
structure Called.Kept (e : Called ρ) : Prop where
  failed : e.answer = some false →
    (∀ m r, e.after.Manages m r ↔ e.before.Manages m r) ∧ e.after.deletions = []
  once : e.after.deletions.Nodup
  removed : ∀ r, r ∈ e.after.deletions ↔ (∃ m, e.before.Manages m r) ∧ ∀ m, ¬ e.after.Manages m r

/-- The relative of an `add` does not have the resource, unless the manager has it and refuses; and a
resource that is removed from one manager is not separately in the other. -/
def Called.Meets (e : Called ρ) : Prop :=
  match e.call with
  | .add r relative => relative = some e.manager.other → e.before.Manages e.manager.other r →
      e.before.Manages e.manager r
  | .remove r => ¬ e.before.Separate e.manager r
  | .removeAll => ∀ r, ¬ e.before.Separate e.manager r

variable [DecidableEq ρ]

inductive Managers.Calls : Managers Manager ρ → Called ρ → Managers Manager ρ → Prop where
  | add (s : Managers Manager ρ) (m : Manager) (r : ρ) (relative : Option Manager) :
      Calls s ⟨m, .add r relative, s, some (s.enter.add m r relative.toList).1,
        (s.enter.add m r relative.toList).2⟩ (s.enter.add m r relative.toList).2
  | remove (s : Managers Manager ρ) (m : Manager) (r : ρ) :
      Calls s ⟨m, .remove r, s, none, s.enter.remove m r⟩ (s.enter.remove m r)
  | removeAll (s : Managers Manager ρ) (m : Manager) (order : List ρ) : order.Nodup →
      (∀ r, r ∈ order ↔ s.Manages m r) →
      Calls s ⟨m, .removeAll, s, none, s.enter.removeAll m order⟩ (s.enter.removeAll m order)

/-- Two managers, at first without resources. -/
def managers (ρ : Type) [DecidableEq ρ] : Machine (Managers Manager ρ) (Called ρ) where
  init s := ∀ m r, s.resources m r = none
  step := Managers.Calls

/-- The relative with which a call has added the resource. -/
def Called.added (e : Called ρ) (r : ρ) : Option (Option Manager) :=
  match e.call, e.answer with
  | .add q relative, some true => if q = r then some relative else none
  | _, _ => none

/-- What a call does to one resource. -/
inductive Effect (e : Called ρ) (r : ρ) : Prop where
  | unchanged : e.added r = none → (∀ n, e.after.resources n r = e.before.resources n r) →
      e.after.deletions.count r = 0 → Effect e r
  | alone (relative : Option Manager) : e.answer = some true → e.added r = some relative →
      relative ≠ some e.manager.other → e.before.resources e.manager r = none →
      e.after.resources e.manager r = some ⟨[], true⟩ →
      e.after.resources e.manager.other r = e.before.resources e.manager.other r →
      e.after.deletions.count r = 0 → Effect e r
  | linked : e.answer = some true → e.added r = some (some e.manager.other) →
      (∀ n, e.before.resources n r = none) →
      e.after.resources e.manager r = some ⟨[e.manager.other], true⟩ →
      e.after.resources e.manager.other r = some ⟨[e.manager], false⟩ →
      e.after.deletions.count r = 0 → Effect e r
  | removed (n : Manager) : e.added r = none → (e.before.resources n r).isSome →
      e.after.resources n r = none →
      e.after.resources n.other r
        = (if e.before.hasRelative n r then none else e.before.resources n.other r) →
      e.after.deletions.count r = 1 →
      (e.answer = none ∧ n = e.manager ∨ e.answer = some false ∧ n = e.manager.other ∧
        e.before.resources e.manager r = none) → Effect e r

variable {s s' : Managers Manager ρ} {e : Called ρ} {r : ρ}

theorem Managers.Calls.states (h : s.Calls e s') : e.before = s ∧ e.after = s' := by
  cases h <;> exact ⟨rfl, rfl⟩

theorem Managers.Calls.paired (h : s.Calls e s') (hp : s.Paired) : s'.Paired := by
  have henter : s.enter.Paired := hp
  cases h with
  | add m r relative => exact (Managers.add_adds henter m r relative).paired henter
  | remove m r => exact (Managers.remove_removes henter m r).paired henter
  | removeAll m order => exact Managers.removeAll_paired henter m order

/-- What `add` does to the resources. -/
theorem Managers.Adds.effect {m : Manager} {q : ρ} {relative : Option Manager}
    {res : Bool × Managers Manager ρ} (h : Adds s.enter m q relative res) (r : ρ) :
    Effect ⟨m, .add q relative, s, some res.1, res.2⟩ r := by
  by_cases hr : q = r
  · subst hr
    cases h with
    | refused => exact .unchanged rfl (fun _ => rfl) rfl
    | alone hm hrel =>
      refine .alone relative rfl (if_pos rfl) hrel (not_not.mp hm) ?_ ?_ rfl
      · simp
      · simp [enter]
    | linked hm ho hrel =>
      subst hrel
      refine .linked rfl (if_pos rfl) (fun n => ?_) ?_ ?_ rfl
      · rcases m.eq_or_other n with rfl | rfl
        · exact not_not.mp hm
        · exact not_not.mp ho
      · simp
      · simp
    | rolledBack hm ho hrel h =>
      refine .removed m.other rfl ?_ h.self h.other ?_ (.inr ⟨rfl, rfl, not_not.mp hm⟩)
      · exact Option.isSome_iff_ne_none.mpr ho
      · dsimp only
        rw [h.deletions, if_pos (Option.isSome_iff_ne_none.mpr ho)]
        simp [enter]
  · have hadded (b : Bool) (t : Managers Manager ρ) :
        (Called.mk m (.add q relative) s (some b) t).added r = none := by
      cases b
      · rfl
      · exact if_neg hr
    refine .unchanged (hadded ..) (fun n => ?_) ?_
    · cases h with
      | refused => rfl
      | alone => simp [Ne.symm hr, enter]
      | linked => simp [Ne.symm hr, enter]
      | rolledBack _ _ _ h => exact h.rest n r (Ne.symm hr)
    · cases h with
      | refused => rfl
      | alone => rfl
      | linked => rfl
      | rolledBack _ ho _ h =>
        dsimp only
        rw [h.deletions, if_pos (Option.isSome_iff_ne_none.mpr ho)]
        simp [enter, hr]

/-- What removals from one manager do to the resources. -/
theorem Managers.removeAll_effect (hp : s.Paired) (m : Manager) (call : Call ρ) {order : List ρ}
    (hnodup : order.Nodup) (hmem : ∀ r ∈ order, (s.resources m r).isSome)
    (hadded : ∀ t r, (Called.mk m call s none t).added r = none) (r : ρ) :
    Effect ⟨m, call, s, none, s.enter.removeAll m order⟩ r := by
  have henter : s.enter.Paired := hp
  obtain ⟨hdel, hrest, hgone⟩ := removeAll_cases henter m hnodup hmem
  have hcount : (s.enter.removeAll m order).deletions.count r = order.count r := by
    rw [hdel]
    rfl
  by_cases hr : r ∈ order
  · obtain ⟨hself, hother⟩ := hgone r hr
    exact .removed m (hadded ..) (hmem r hr) hself hother
      (hcount.trans (List.count_eq_one_of_mem hnodup hr)) (.inl ⟨rfl, rfl⟩)
  · exact .unchanged (hadded ..) (fun n => hrest n r hr) (hcount.trans (List.count_eq_zero.mpr hr))

/-- `remove` is the removal of all of at most one resource. -/
theorem Managers.remove_eq_removeAll (s : Managers Manager ρ) (m : Manager) (r : ρ) :
    s.remove m r = s.removeAll m (if (s.resources m r).isSome then [r] else []) := by
  split
  next => rfl
  next h =>
    unfold remove
    rw [Option.not_isSome_iff_eq_none.mp h]
    rfl

theorem Managers.Calls.effect (h : s.Calls e s') (hp : s.Paired) (r : ρ) : Effect e r := by
  cases h with
  | add m q relative => exact (Managers.add_adds (s := s.enter) hp m q relative).effect r
  | remove m q =>
    rw [Managers.remove_eq_removeAll]
    refine Managers.removeAll_effect hp m (.remove q) ?_ ?_ (fun _ _ => rfl) r
    · split <;> simp
    · intro r hr
      split at hr
      next h => exact List.mem_singleton.mp hr ▸ h
      next => exact nomatch hr
  | removeAll m order hnodup hmem =>
    exact Managers.removeAll_effect hp m .removeAll hnodup
      (fun r hr => Option.isSome_iff_ne_none.mpr ((hmem r).mp hr)) (fun _ _ => rfl) r

/-! ## Runs -/

/-- One for a manager whose entry owns the resource. -/
def Managers.owns (s : Managers Manager ρ) (m : Manager) (r : ρ) : Nat :=
  if (s.resources m r).any (·.owner) then 1 else 0

def Managers.owners (s : Managers Manager ρ) (r : ρ) : Nat := s.owns .a r + s.owns .b r

omit [DecidableEq ρ] in
theorem Managers.owners_eq (s : Managers Manager ρ) (m : Manager) (r : ρ) :
    s.owners r = s.owns m r + s.owns m.other r := by
  cases m
  · rfl
  · exact Nat.add_comm ..

/-- The `add`s of the resource that have succeeded. -/
def successes (trace : List (Called ρ)) (r : ρ) : Nat := trace.countP fun e => (e.added r).isSome

/-- How often a deleter has run on the resource. -/
def deletions (trace : List (Called ρ)) (r : ρ) : Nat :=
  (trace.flatMap fun e => e.after.deletions).count r

/-- The last `add` of the resource that has succeeded had the other manager as relative. -/
def LinkedLast (trace : List (Called ρ)) (r : ρ) : Prop :=
  (trace.filterMap fun e => (e.added r).map fun relative =>
    decide (relative = some e.manager.other)).getLast? = some true

/-- Each `add` that succeeds is paid for by one owner, and each deleter that runs by one that ends. -/
theorem Effect.balance (h : Effect e r) (hp : e.before.Paired) :
    (if (e.added r).isSome then 1 else 0) + e.before.owners r
      = e.after.deletions.count r + e.after.owners r := by
  cases h with
  | unchanged hadded hsame hcount =>
    rw [hadded, hcount]
    simp [Managers.owners, Managers.owns, hsame]
  | alone relative _ hadded _ hnone hself hother hcount =>
    rw [hadded, hcount, e.before.owners_eq e.manager, e.after.owners_eq e.manager]
    simp [Managers.owns, hnone, hself, hother]
  | linked _ hadded hnone hself hother hcount =>
    rw [hadded, hcount, e.before.owners_eq e.manager, e.after.owners_eq e.manager]
    simp [Managers.owns, hnone, hself, hother]
  | removed n hadded hsome hself hother hcount =>
    rw [hadded, hcount, e.before.owners_eq n, e.after.owners_eq n]
    rcases hp n r with hr | hr | ⟨owner, hr, hr'⟩
    · simp [hr] at hsome
    · simp [Managers.owns, hself, hother, hr, Managers.hasRelative]
    · cases owner <;> simp [Managers.owns, hself, hother, hr, hr', Managers.hasRelative]

/-- A call that does not add the resource alone leaves no entry without a relative where none was. -/
theorem Effect.linked_keeps (h : Effect e r) (hlink : ∀ relative, e.added r = some relative →
      relative = some e.manager.other)
    (hno : e.added r = none → ∀ n, e.before.resources n r ≠ some ⟨[], true⟩) (n : Manager) :
    e.after.resources n r ≠ some ⟨[], true⟩ := by
  cases h with
  | unchanged hadded hsame _ =>
    rw [hsame]
    exact hno hadded n
  | alone relative _ hadded hne => exact absurd (hlink relative hadded) hne
  | linked _ _ _ hself hother =>
    rcases e.manager.eq_or_other n with rfl | rfl
    · simp [hself]
    · simp [hother]
  | removed k hadded _ hself hother =>
    rcases k.eq_or_other n with rfl | rfl
    · simp [hself]
    · rw [hother]
      split
      · simp
      · exact hno hadded k.other

omit [DecidableEq ρ] in
/-- Entries that all have relatives come in pairs. -/
theorem Managers.Paired.manages_iff (hp : s.Paired)
    (hno : ∀ n, s.resources n r ≠ some ⟨[], true⟩) : s.Manages .a r ↔ s.Manages .b r := by
  have himp (m : Manager) (h : s.Manages m r) : s.Manages m.other r := by
    rcases hp m r with hr | hr | ⟨owner, -, hr⟩
    · exact absurd hr h
    · exact absurd hr (hno m)
    · rw [Managers.Manages, hr]
      simp
  exact ⟨himp .a, himp .b⟩

/-- What `Called.Kept` says about one resource. -/
structure Called.KeptAt (e : Called ρ) (r : ρ) : Prop where
  failed : e.answer = some false →
    (∀ m, e.after.Manages m r ↔ e.before.Manages m r) ∧ e.after.deletions.count r = 0
  once : e.after.deletions.count r ≤ 1
  removed : r ∈ e.after.deletions ↔ (∃ m, e.before.Manages m r) ∧ ∀ m, ¬ e.after.Manages m r

theorem Called.kept_iff (e : Called ρ) : e.Kept ↔ ∀ r, e.KeptAt r := by
  constructor
  · intro h r
    exact ⟨fun hf => ⟨fun m => (h.failed hf).1 m r, by rw [(h.failed hf).2]; rfl⟩,
      List.nodup_iff_count_le_one.mp h.once r, h.removed r⟩
  · intro h
    refine ⟨fun hf => ⟨fun m r => ((h r).failed hf).1 m, ?_⟩,
      List.nodup_iff_count_le_one.mpr fun r => (h r).once, fun r => (h r).removed⟩
    refine List.eq_nil_iff_forall_not_mem.mpr fun r => ?_
    exact List.count_eq_zero.mp ((h r).failed hf).2

/-- A call that does not take the resource from a manager keeps what it should. -/
theorem Called.KeptAt.ofManages (hmono : ∀ m, e.before.Manages m r → e.after.Manages m r)
    (hsame : e.answer = some false → ∀ m, e.after.Manages m r ↔ e.before.Manages m r)
    (hcount : e.after.deletions.count r = 0) : e.KeptAt r where
  failed hf := ⟨hsame hf, hcount⟩
  once := by omega
  removed := by
    refine ⟨fun h => absurd h (List.count_eq_zero.mp hcount), ?_⟩
    rintro ⟨⟨m, hm⟩, hno⟩
    exact absurd (hmono m hm) (hno m)

/-- A call that runs a deleter must be a removal, of a resource that is not separately in the other
manager. -/
theorem Effect.keptAt_iff (h : Effect e r) : e.KeptAt r ↔
    (e.after.deletions.count r = 1 → e.answer = none ∧ ¬ e.before.Separate e.manager r) := by
  cases h with
  | unchanged _ hsame hcount =>
    refine ⟨fun _ h => by omega, fun _ => .ofManages ?_ ?_ hcount⟩
    · intro m
      rw [Managers.Manages, Managers.Manages, hsame]
      exact id
    · intro _ m
      rw [Managers.Manages, Managers.Manages, hsame]
  | alone _ hanswer _ _ _ hself hother hcount =>
    refine ⟨fun _ h => by omega, fun _ => .ofManages ?_ ?_ hcount⟩
    · intro m hm
      rcases e.manager.eq_or_other m with rfl | rfl
      · simp [Managers.Manages, hself]
      · rwa [Managers.Manages, hother]
    · intro hf
      rw [hanswer] at hf
      exact nomatch hf
  | linked hanswer _ hnone _ _ hcount =>
    refine ⟨fun _ h => by omega, fun _ => .ofManages ?_ ?_ hcount⟩
    · intro m hm
      exact absurd (hnone m) hm
    · intro hf
      rw [hanswer] at hf
      exact nomatch hf
  | removed n _ hsome hself hother hcount hwho =>
    have hbefore : e.before.Manages n r := Option.isSome_iff_ne_none.mp hsome
    have hafter : ¬ e.after.Manages n r := not_not.mpr hself
    have hmem : r ∈ e.after.deletions := List.count_pos_iff.mp (by omega)
    rcases hwho with ⟨hanswer, rfl⟩ | ⟨hanswer, -, -⟩
    · constructor
      · intro hk _
        refine ⟨hanswer, fun ⟨hall, hrel⟩ => ?_⟩
        refine (hk.removed.mp hmem).2 e.manager.other ?_
        rw [Managers.Manages, hother, hrel]
        exact hall e.manager.other
      · intro hsep
        refine ⟨fun hf => ?_, by omega, iff_of_true hmem ⟨⟨_, hbefore⟩, fun m => ?_⟩⟩
        · rw [hanswer] at hf
          exact nomatch hf
        · rcases e.manager.eq_or_other m with rfl | rfl
          · exact hafter
          · rw [Managers.Manages, not_not, hother]
            cases hrel : e.before.hasRelative e.manager r with
            | true => rfl
            | false =>
              by_contra hm
              refine (hsep hcount).2 ⟨fun k => ?_, hrel⟩
              rcases e.manager.eq_or_other k with rfl | rfl
              · exact hbefore
              · exact hm
    · constructor
      · intro hk
        exact absurd (((hk.failed hanswer).1 n).mpr hbefore) hafter
      · intro h
        rw [hanswer] at h
        exact nomatch (h hcount).1

/-- The calls that run deleters where they should are those that meet the condition. -/
theorem Managers.Calls.meets_iff (h : s.Calls e s') (hp : s.Paired) : e.Meets ↔
    ∀ r, e.after.deletions.count r = 1 → e.answer = none ∧ ¬ e.before.Separate e.manager r := by
  have henter : s.enter.Paired := hp
  cases h with
  | add m q relative =>
    have hadds := Managers.add_adds henter m q relative
    generalize s.enter.add m q relative.toList = res at hadds
    dsimp only [Called.Meets]
    cases hadds with
    | refused hm => exact iff_of_true (fun _ _ => hm) (fun r h => nomatch h)
    | alone _ hrel => exact iff_of_true (fun h => absurd h hrel) (fun r h => nomatch h)
    | linked _ ho _ => exact iff_of_true (fun _ h => absurd h ho) (fun r h => nomatch h)
    | rolledBack hm ho hrel h =>
      refine iff_of_false (fun h => hm (h hrel ho)) fun h' => nomatch (h' q ?_).1
      rw [h.deletions, if_pos (Option.isSome_iff_ne_none.mpr ho)]
      simp [enter]
  | remove m q =>
    have hdel := (Managers.remove_removes henter m q).deletions
    dsimp only [Called.Meets]
    rw [hdel]
    constructor
    · intro hsep r hcount
      refine ⟨rfl, ?_⟩
      split at hcount
      · have hmem : r ∈ s.enter.deletions ++ [q] := List.count_pos_iff.mp (by omega)
        have : r = q := by simpa [enter] using hmem
        exact this ▸ hsep
      · exact nomatch hcount
    · intro h hsep
      refine (h q ?_).2 hsep
      rw [if_pos (show (s.enter.resources m q).isSome from
        Option.isSome_iff_ne_none.mpr (hsep.1 m))]
      simp [enter]
  | removeAll m order hnodup hmem =>
    have hdel := (Managers.removeAll_cases henter m hnodup
      fun r hr => Option.isSome_iff_ne_none.mpr ((hmem r).mp hr)).1
    dsimp only [Called.Meets]
    rw [hdel]
    constructor
    · intro hsep r _
      exact ⟨rfl, hsep r⟩
    · intro h r hsep
      exact (h r (List.count_eq_one_of_mem hnodup ((hmem r).mpr (hsep.1 m)))).2 hsep

theorem Managers.Calls.kept_iff_meets (h : s.Calls e s') (hp : s.Paired) : e.Kept ↔ e.Meets := by
  rw [h.meets_iff hp, e.kept_iff]
  exact forall_congr' fun r => (h.effect hp r).keptAt_iff

/-- What every run, good or bad, leaves behind. -/
structure Reckoned (trace : List (Called ρ)) (s : Managers Manager ρ) : Prop where
  paired : s.Paired
  balance : ∀ r, successes trace r = deletions trace r + s.owners r
  linked : ∀ r, LinkedLast trace r → ∀ m, s.resources m r ≠ some ⟨[], true⟩

theorem Reckoned.step {trace : List (Called ρ)} (h : Reckoned trace s) (hcalls : s.Calls e s') :
    Reckoned (trace ++ [e]) s' := by
  obtain ⟨hbefore, hafter⟩ := hcalls.states
  subst hbefore hafter
  refine ⟨hcalls.paired h.paired, fun r => ?_, fun r hlast => ?_⟩
  · have hbal := (hcalls.effect h.paired r).balance h.paired
    have hprev := h.balance r
    unfold successes deletions at *
    rw [List.countP_append, List.flatMap_append, List.count_append, List.countP_singleton,
      List.flatMap_singleton]
    omega
  · unfold LinkedLast at hlast
    rw [List.filterMap_append, List.getLast?_append] at hlast
    refine (hcalls.effect h.paired r).linked_keeps ?_ ?_
    · intro relative hadded
      simpa [hadded] using hlast
    · intro hadded
      refine h.linked r ?_
      unfold LinkedLast
      simpa [hadded] using hlast

theorem reckoned_of_run {trace : List (Called ρ)} (h : (managers ρ).Run trace s) :
    Reckoned trace s := by
  refine h.invariant (I := Reckoned) ?_ fun trace s e s' _ ih hcalls => ih.step hcalls
  intro s hnone
  refine ⟨fun m r => .inl (hnone m r), fun r => ?_, fun r hlast => nomatch hlast⟩
  simp [successes, deletions, Managers.owners, Managers.owns, hnone _ r]

/-- In every run, the managers stay in step if and only if every call meets the condition: no `add` is
refused by its relative only, and no resource that was added to both managers separately is removed.
Then failed `add`s change nothing, a resource that was last added with the other manager as relative
is in both or in neither, and for every `add` that succeeded either its deleter has run once, when the
resource left the last manager, or it has its owner. -/
theorem linked_managers_iff {trace : List (Called ρ)} (h : (managers ρ).Run trace s) :
    ((∀ e ∈ trace, e.Kept) ∧ (∀ r, LinkedLast trace r → (s.Manages .a r ↔ s.Manages .b r)) ∧
      ∀ r, successes trace r = deletions trace r + s.owners r) ↔ ∀ e ∈ trace, e.Meets := by
  have hreck := reckoned_of_run h
  have hkept : ∀ e ∈ trace, (e.Kept ↔ e.Meets) := by
    refine h.invariant (I := fun tr _ => ∀ e ∈ tr, (e.Kept ↔ e.Meets)) (fun _ _ e h => nomatch h) ?_
    intro tr s e s' hrun ih hcalls e' he'
    rcases List.mem_append.mp he' with he' | he'
    · exact ih e' he'
    · obtain rfl := List.mem_singleton.mp he'
      exact hcalls.kept_iff_meets (reckoned_of_run hrun).paired
  constructor
  · rintro ⟨hall, -, -⟩ e he
    exact (hkept e he).mp (hall e he)
  · intro hall
    exact ⟨fun e he => (hkept e he).mpr (hall e he),
      fun r hlast => hreck.paired.manages_iff (hreck.linked r hlast), hreck.balance⟩

/-- A resource added by `a` with `b` as relative and removed by `b`. -/
theorem linked_managers_add_remove : ∃ trace s, (managers Nat).Run trace s ∧ successes trace 1 = 1 ∧
    (∀ e ∈ trace, e.Kept) ∧ (s.Manages .a 1 ↔ s.Manages .b 1) := by
  let s₀ : Managers Manager Nat := ⟨fun _ _ => none, []⟩
  have h₀ : (managers Nat).Run [] s₀ := .init fun _ _ => rfl
  have h₂ := (h₀.step (.add s₀ .a 1 (some .b))).step (.remove _ .b 1)
  have hall := (linked_managers_iff h₂).mpr (by
    intro e he
    rcases List.mem_cons.mp he with rfl | he
    · exact fun _ h => absurd rfl h
    · obtain rfl := List.mem_singleton.mp he
      exact fun h => absurd h.2 (by decide))
  exact ⟨_, _, h₂, by decide, hall.1, hall.2.1 1 rfl⟩

/-- An `add` by `a`, with `b` as relative, of a resource that `b` has alone is refused, and its
rollback deletes the resource. -/
theorem rollback_deletes : ¬ ∀ (trace : List (Called Nat)) s, (managers Nat).Run trace s →
    (∀ e ∈ trace, e.Kept) ∧ (∀ r, LinkedLast trace r → (s.Manages .a r ↔ s.Manages .b r)) ∧
      ∀ r, successes trace r = deletions trace r + s.owners r := by
  intro h
  let s₀ : Managers Manager Nat := ⟨fun _ _ => none, []⟩
  have h₀ : (managers Nat).Run [] s₀ := .init fun _ _ => rfl
  have h₂ := (h₀.step (.add s₀ .b 1 none)).step (.add _ .a 1 (some .b))
  have hkept := (h _ _ h₂).1 _ (List.mem_append_right _ List.mem_cons_self)
  exact absurd (hkept.failed (by decide)).2 (by decide)

end Calls
end SimpleOrderbook
