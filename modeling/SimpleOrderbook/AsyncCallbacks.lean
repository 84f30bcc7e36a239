import SimpleOrderbook.Machine
import SimpleOrderbook.Types

/-!
# The thread of the asynchronous callbacks

The dispatcher appends callbacks to `_callbacks_async`; `_threaded_async_callback_executor` takes all
of them at once and executes them in order; any number of threads call `wait_for_async_callbacks`.
A step is a block that holds `_async_callback_mtx`, or the execution of one callback, and the steps of
the threads come in any order.

The element that `dfrd_cb_elem()` builds, with a null `exec_cb`, is `none`; the destructor of
`AsyncCallbackThreadGuard` pushes it to end the thread.
-/
namespace SimpleOrderbook

/-- Where the executor is in its loop; `copies` is what it has taken and not executed yet. -/
inductive Executor where
  | waiting
  | running (copies : List (Option DfrdCbElem))
  | returned

/-- Where a thread is in `wait_for_async_callbacks`. -/
inductive Waiter where
  | outside
  | called
  | blocked

structure AsyncState (τ : Type) where
  callbacksAsync : List (Option DfrdCbElem)
  asyncCallbacksDone : Bool
  executor : Executor
  waiter : τ → Waiter

inductive AsyncEvent (τ : Type) where
  | pushed (elem : Option DfrdCbElem)
  | taken
  | executed (elem : DfrdCbElem)
  | notifiedDone
  | called (t : τ)
  | blocked (t : τ)
  | returned (t : τ)

namespace AsyncState
variable {τ : Type} [DecidableEq τ]

/-- The predicate of `_async_callback_done_cond`, and the negation of the test before it. -/
def Done (s : AsyncState τ) : Prop := s.asyncCallbacksDone = true ∧ s.callbacksAsync = []

inductive Step : AsyncState τ → AsyncEvent τ → AsyncState τ → Prop where
  /-- `_push_async_callback` -/
  | push {s : AsyncState τ} (elem : Option DfrdCbElem) :
      Step s (.pushed elem) { s with callbacksAsync := s.callbacksAsync ++ [elem] }
  | take {s : AsyncState τ} : s.executor = .waiting → s.callbacksAsync ≠ [] →
      Step s .taken { s with
        asyncCallbacksDone := false
        executor := .running s.callbacksAsync
        callbacksAsync := [] }
  | execute {s : AsyncState τ} {elem : DfrdCbElem} {copies : List (Option DfrdCbElem)} :
      s.executor = .running (some elem :: copies) →
      Step s (.executed elem) { s with executor := .running copies }
  /-- What is left of the copies after the null element is not executed. -/
  | leave {s : AsyncState τ} {copies : List (Option DfrdCbElem)} :
      s.executor = .running (none :: copies) →
      Step s .notifiedDone { s with asyncCallbacksDone := true, executor := .returned }
  /-- `_notify_async_callbacks_done` at the end of the loop's body -/
  | notifyDone {s : AsyncState τ} : s.executor = .running [] →
      Step s .notifiedDone { s with asyncCallbacksDone := true, executor := .waiting }
  | call {s : AsyncState τ} {t : τ} : s.waiter t = .outside →
      Step s (.called t) { s with waiter := Function.update s.waiter t .called }
  | block {s : AsyncState τ} {t : τ} : s.waiter t = .called → ¬ s.Done →
      Step s (.blocked t) { s with waiter := Function.update s.waiter t .blocked }
  | skipWait {s : AsyncState τ} {t : τ} : s.waiter t = .called → s.Done →
      Step s (.returned t) { s with waiter := Function.update s.waiter t .outside }
  /-- A thread that wakes up and finds the predicate false goes on waiting. -/
  | wake {s : AsyncState τ} {t : τ} : s.waiter t = .blocked → s.Done →
      Step s (.returned t) { s with waiter := Function.update s.waiter t .outside }

end AsyncState

/-- The executor and the threads that wait for it. -/
def asyncCallbacks (τ : Type) [DecidableEq τ] : Machine (AsyncState τ) (AsyncEvent τ) where
  init s := s.callbacksAsync = [] ∧ s.asyncCallbacksDone = true ∧ s.executor = .waiting ∧
    ∀ t, s.waiter t = .outside
  step := AsyncState.Step

section Callbacks
variable {τ : Type}

def pushes (trace : List (AsyncEvent τ)) : List (Option DfrdCbElem) :=
  trace.filterMap fun
    | .pushed elem => some elem
    | _ => none

def executions (trace : List (AsyncEvent τ)) : List DfrdCbElem :=
  trace.filterMap fun
    | .executed elem => some elem
    | _ => none

@[simp] theorem pushes_append (a b : List (AsyncEvent τ)) : pushes (a ++ b) = pushes a ++ pushes b :=
  List.filterMap_append

@[simp] theorem executions_append (a b : List (AsyncEvent τ)) :
    executions (a ++ b) = executions a ++ executions b := List.filterMap_append

def Executor.copies : Executor → List (Option DfrdCbElem)
  | running copies => copies
  | _ => []

/-- Until the null element is met, what was pushed is what was executed, what the executor has taken
and what waits for it; and between two batches nothing is taken. -/
structure Lossless (trace : List (AsyncEvent τ)) (s : AsyncState τ) : Prop where
  split : (executions trace).map some ++ s.executor.copies ++ s.callbacksAsync = pushes trace
  idle : s.asyncCallbacksDone = true → s.executor.copies = []

/-- One step keeps it, while there is no null element. -/
theorem Lossless.step [DecidableEq τ] {trace : List (AsyncEvent τ)} {s s' : AsyncState τ}
    {e : AsyncEvent τ} (h : Lossless trace s) (hstep : s.Step e s') (hnull : none ∉ pushes trace) :
    Lossless (trace ++ [e]) s' := by
  obtain ⟨hsplit, hidle⟩ := h
  cases hstep with
  | push elem =>
    refine ⟨?_, hidle⟩
    rw [pushes_append, executions_append, ← hsplit]
    simp [pushes, executions]
  | take hex _ =>
    refine ⟨?_, fun h => nomatch h⟩
    rw [hex] at hsplit
    rw [pushes_append, executions_append, ← hsplit]
    simp [pushes, executions, Executor.copies]
  | execute hex =>
    rw [hex] at hsplit hidle
    refine ⟨?_, fun h => nomatch hidle h⟩
    rw [pushes_append, executions_append, ← hsplit]
    simp [pushes, executions, Executor.copies]
  | leave hex =>
    refine absurd ?_ hnull
    rw [← hsplit, hex]
    simp [Executor.copies]
  | notifyDone hex =>
    rw [hex] at hsplit
    refine ⟨?_, fun _ => rfl⟩
    rw [pushes_append, executions_append, ← hsplit]
    simp [pushes, executions, Executor.copies]
  | _ =>
    refine ⟨?_, hidle⟩
    rw [pushes_append, executions_append, ← hsplit]
    simp [pushes, executions]

variable [DecidableEq τ]

theorem lossless_of_run {trace : List (AsyncEvent τ)} {s : AsyncState τ}
    (h : (asyncCallbacks τ).Run trace s) (hnull : .pushed none ∉ trace) : Lossless trace s := by
  have hpushes {tr : List (AsyncEvent τ)} (h : .pushed none ∉ tr) : none ∉ pushes tr := by
    intro hmem
    obtain ⟨e, he, heq⟩ := List.mem_filterMap.mp hmem
    cases e <;> simp at heq
    exact h (heq ▸ he)
  refine h.invariant (I := fun tr s => .pushed none ∉ tr → Lossless tr s) ?_ ?_ hnull
  · rintro s ⟨hqueue, -, hex, -⟩ -
    exact ⟨by rw [hqueue, hex]; rfl, fun _ => by rw [hex]; rfl⟩
  · intro tr s e s' _ ih hstep hnull
    have hnull' : .pushed none ∉ tr := fun h => hnull (List.mem_append_left _ h)
    exact (ih hnull').step hstep (hpushes hnull')

/-- When a call returns, nothing that was pushed is left. -/
theorem Lossless.executed_all {trace : List (AsyncEvent τ)} {s s' : AsyncState τ} {t : τ}
    (h : Lossless trace s) (hstep : s.Step (.returned t) s') :
    (executions trace).map some = pushes trace := by
  have hdone : s.Done := by
    cases hstep with
    | skipWait _ hdone => exact hdone
    | wake _ hdone => exact hdone
  rw [← h.split, h.idle hdone.1, hdone.2, List.append_nil, List.append_nil]

/-- While the thread is not told to end, the callbacks executed are at every point a prefix of those
pushed, and when `wait_for_async_callbacks` returns, those pushed before it was called are executed. -/
theorem async_callbacks_in_order {trace : List (AsyncEvent τ)} {s : AsyncState τ}
    (h : (asyncCallbacks τ).Run trace s) (hnull : .pushed none ∉ trace) :
    (executions trace).map some <+: pushes trace ∧
      ∀ before during t, trace = before ++ .called t :: during ++ [.returned t] →
        pushes before <+: (executions trace).map some := by
  constructor
  · rw [← (lossless_of_run h hnull).split, List.append_assoc]
    exact List.prefix_append ..
  · rintro before during t rfl
    obtain ⟨s, hrun, hstep⟩ := h.last
    have hall := (lossless_of_run hrun fun h => hnull (List.mem_append_left _ h)).executed_all hstep
    rw [executions_append, List.map_append, hall, pushes_append, List.append_assoc]
    exact List.prefix_append ..

/-- A thread that waits for one callback returns when it is executed. -/
theorem async_callbacks_one : [some ⟨.fill, 0, 1, 1, 10, 5⟩] <+:
    (executions [.pushed (some ⟨.fill, 0, 1, 1, 10, 5⟩), .called (), .taken, .blocked (),
      .executed ⟨.fill, 0, 1, 1, 10, 5⟩, .notifiedDone, .returned ()]).map some := by
  let start : AsyncState Unit := ⟨[], true, .waiting, fun _ => .outside⟩
  have h0 : (asyncCallbacks Unit).Run [] start := .init ⟨rfl, rfl, rfl, fun _ => rfl⟩
  have h1 := h0.step (.push (some ⟨.fill, 0, 1, 1, 10, 5⟩))
  have h2 := h1.step (.call (t := ()) rfl)
  have h3 := h2.step (.take rfl (List.cons_ne_nil _ _))
  have h4 := h3.step (.block (t := ()) rfl (fun h => nomatch h.1))
  have h5 := h4.step (.execute rfl)
  have h6 := h5.step (.notifyDone rfl)
  have h7 := h6.step (.wake (t := ()) rfl ⟨rfl, rfl⟩)
  exact (async_callbacks_in_order h7 (by simp)).2 [.pushed (some ⟨.fill, 0, 1, 1, 10, 5⟩)]
    [.taken, .blocked (), .executed ⟨.fill, 0, 1, 1, 10, 5⟩, .notifiedDone] () rfl

/-! ## The end of the thread -/

omit [DecidableEq τ] in
theorem takeWhile_isSome_map {α : Type} (l : List α) (rest : List (Option α)) :
    (l.map some ++ rest).takeWhile (·.isSome) = l.map some ++ rest.takeWhile (·.isSome) :=
  List.takeWhile_append_of_pos fun x hx => by
    obtain ⟨a, -, rfl⟩ := List.mem_map.mp hx
    rfl

/-- What was pushed is executed, taken or waits in this order, until the thread meets a null element
and leaves with what is behind it. -/
structure Drained (trace : List (AsyncEvent τ)) (s : AsyncState τ) : Prop where
  running : s.executor ≠ .returned →
    (executions trace).map some ++ s.executor.copies ++ s.callbacksAsync = pushes trace
  returned : s.executor = .returned → ∃ rest,
    (executions trace).map some ++ none :: rest = pushes trace

theorem Drained.step {trace : List (AsyncEvent τ)} {s s' : AsyncState τ} {e : AsyncEvent τ}
    (h : Drained trace s) (hstep : s.Step e s') : Drained (trace ++ [e]) s' := by
  obtain ⟨hrun, hret⟩ := h
  cases hstep with
  | push elem =>
    refine ⟨fun hne => ?_, fun heq => ?_⟩
    · rw [pushes_append, executions_append, ← hrun hne]
      simp [pushes, executions]
    · obtain ⟨rest, hrest⟩ := hret heq
      rw [pushes_append, executions_append, ← hrest]
      exact ⟨rest ++ [elem], by simp [pushes, executions]⟩
  | take hex _ =>
    have hrun := hrun (by rw [hex]; nofun)
    rw [hex] at hrun
    refine ⟨fun _ => ?_, nofun⟩
    rw [pushes_append, executions_append, ← hrun]
    simp [pushes, executions, Executor.copies]
  | execute hex =>
    have hrun := hrun (by rw [hex]; nofun)
    rw [hex] at hrun
    refine ⟨fun _ => ?_, nofun⟩
    rw [pushes_append, executions_append, ← hrun]
    simp [pushes, executions, Executor.copies]
  | @leave copies hex =>
    have hrun := hrun (by rw [hex]; nofun)
    rw [hex] at hrun
    refine ⟨fun hne => absurd rfl hne, fun _ => ⟨copies ++ s.callbacksAsync, ?_⟩⟩
    rw [pushes_append, executions_append, ← hrun]
    simp [pushes, executions, Executor.copies]
  | notifyDone hex =>
    have hrun := hrun (by rw [hex]; nofun)
    rw [hex] at hrun
    refine ⟨fun _ => ?_, nofun⟩
    rw [pushes_append, executions_append, ← hrun]
    simp [pushes, executions, Executor.copies]
  | call | block | skipWait | wake =>
    refine ⟨fun hne => ?_, fun heq => ?_⟩
    · rw [pushes_append, executions_append, ← hrun hne]
      simp [pushes, executions]
    · obtain ⟨rest, hrest⟩ := hret heq
      rw [pushes_append, executions_append, ← hrest]
      exact ⟨rest, by simp [pushes, executions]⟩

/-- Whatever is pushed when, also after the thread was told to end: the callbacks executed are at every
point a prefix of those pushed before the first null element, and all of these when the thread has
returned; the thread returns only if it was told to end. -/
theorem async_callbacks_until_null {trace : List (AsyncEvent τ)} {s : AsyncState τ}
    (h : (asyncCallbacks τ).Run trace s) :
    (executions trace).map some <+: (pushes trace).takeWhile (·.isSome) ∧
      (s.executor = .returned → none ∈ pushes trace ∧
        (executions trace).map some = (pushes trace).takeWhile (·.isSome)) := by
  obtain ⟨hrun, hret⟩ : Drained trace s := by
    refine h.invariant (fun s hs => ?_) fun _ _ _ _ _ ih hstep => ih.step hstep
    obtain ⟨hqueue, -, hex, -⟩ := hs
    refine ⟨fun _ => by rw [hqueue, hex]; rfl, fun heq => ?_⟩
    rw [hex] at heq
    cases heq
  by_cases hex : s.executor = .returned
  · obtain ⟨rest, hrest⟩ := hret hex
    rw [← hrest, takeWhile_isSome_map]
    exact ⟨List.prefix_append _ _, fun _ => ⟨by simp, by simp⟩⟩
  · rw [← hrun hex, List.append_assoc, takeWhile_isSome_map]
    exact ⟨List.prefix_append _ _, fun heq => absurd heq hex⟩

/-- A callback behind the null element is never executed. -/
theorem async_callbacks_ended : ∃ s, (asyncCallbacks Unit).Run [.pushed (some ⟨.fill, 0, 1, 1, 10, 5⟩),
    .pushed none, .pushed (some ⟨.fill, 1, 2, 2, 10, 5⟩), .taken, .executed ⟨.fill, 0, 1, 1, 10, 5⟩,
    .notifiedDone] s ∧ s.executor = .returned ∧
      [some ⟨.fill, 0, 1, 1, 10, 5⟩] = (pushes [.pushed (some ⟨.fill, 0, 1, 1, 10, 5⟩), .pushed none,
        .pushed (some ⟨.fill, 1, 2, 2, 10, 5⟩), .taken, .executed ⟨.fill, 0, 1, 1, 10, 5⟩,
        (.notifiedDone : AsyncEvent Unit)]).takeWhile (·.isSome) := by
  let start : AsyncState Unit := ⟨[], true, .waiting, fun _ => .outside⟩
  have h0 : (asyncCallbacks Unit).Run [] start := .init ⟨rfl, rfl, rfl, fun _ => rfl⟩
  have h1 := h0.step (.push (some ⟨.fill, 0, 1, 1, 10, 5⟩))
  have h2 := h1.step (.push none)
  have h3 := h2.step (.push (some ⟨.fill, 1, 2, 2, 10, 5⟩))
  have h4 := h3.step (.take rfl (List.cons_ne_nil _ _))
  have h5 := h4.step (.execute rfl)
  have h6 := h5.step (.leave rfl)
  exact ⟨_, h6, rfl, ((async_callbacks_until_null h6).2 rfl).2⟩

end Callbacks
end SimpleOrderbook
