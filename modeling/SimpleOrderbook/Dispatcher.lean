import SimpleOrderbook.Linearization
import SimpleOrderbook.Windows

/-!
# The dispatcher and its clients

Any number of threads call the orderbook. A call that changes orders is pushed to
`_external_order_queue` with a promise, and `_threaded_order_dispatcher` executes the elements of the
queue one by one; growths and queries take `_master_mtx` in the thread of the caller. A step is a
block that holds a mutex, or what a thread does between two such blocks, and the steps of the threads
come in any order.

The orderbook is destroyed from its derived part to its base, and only the base stops the dispatcher.
In between an element is executed without the derived part, whose `price_to_tick` a price that passes
its check is given to: that call of a pure virtual function aborts the process.

## Main results

* `dispatcher_linearizable` — what the clients see is a run of their requests, one after the other, in
  an order that respects real time.
* `dispatcher_fifo` — the dispatcher executes what was pushed in that order, and the promises of what
  it leaves behind are broken.
-/
namespace SimpleOrderbook

/-! ## Calls -/

/-- A call that reads the book under `_master_mtx`. None of them looks at the internal queue. -/
structure Query (β : Type) where
  read : Sob → β
  blind : ∀ s queue, read { s with internalOrderQueue := queue } = read s

/-- A call of the public interface. -/
inductive Operation (β : Type) where
  | request (r : Request)
  | query (q : Query β)

/-- What a caller gets: `brokenPromise` is the `std::future_error` of a promise that was destroyed. -/
inductive Reply (β : Type) where
  | outcome (o : Outcome)
  | answer (a : β)
  | brokenPromise

/-- What a call does when it is alone. Without a promise nothing happens. -/
inductive Operation.Sem [Pointers] {β : Type} : World → Operation β → Reply β → World → Prop where
  | request {r : Request} {w w' : World} {o : Outcome} : Window r w o w' →
      Sem w (.request r) (.outcome o) w'
  | query {q : Query β} {w : World} : Sem w (.query q) (.answer (q.read w.toSob)) w
  | broken {r : Request} {w : World} : Sem w (.request r) .brokenPromise w

/-- An element of `_external_order_queue` with its promise, which belongs to call `call`. -/
structure Promised (κ : Type) where
  call : κ
  request : Request
  elem : ExternalOrderQueueElem
  passed : request.action = .ok (.external elem)

/-- Where a call is. `waiting`: for its future; `ready`: it can return. -/
inductive Phase (β : Type) where
  | outside
  | called (op : Operation β)
  | waiting (r : Request)
  | ready (op : Operation β) (rep : Reply β)
  | returned

/-- Where the dispatcher is in its loop. The default element, pushed by the destructor, is `none`.
`unwinding`: an exception has released `_master_mtx`, and the internal queue is not empty yet. -/
inductive Dispatcher (κ : Type) where
  | waiting
  | popped (e : Option (Promised κ))
  | admitted (p : Promised κ)
  | unwinding (p : Promised κ) (err : Err)
  | settling (p : Promised κ) (o : Outcome)
  | left

structure DispatcherState (κ β : Type) where
  world : World
  externalOrderQueue : List (Option (Promised κ))
  /-- The derived part of the object is not destroyed yet. -/
  derived : Bool
  masterRunFlag : Bool
  dispatcher : Dispatcher κ
  phase : κ → Phase β
  /-- The process is no more. -/
  aborted : Bool

/-- The price of the order is checked before anything else, and found valid, so `price_to_tick` is
called. -/
def ExternalOrderQueueElem.Converts [Pointers] (s : Sob) (e : ExternalOrderQueueElem) : Prop :=
  match e.type with
  | .limit | .stopLimit => s.isValidPrice e.limit
  | .stop => s.isValidPrice e.stop
  | .market | .null => False

/-- The ticket may name a price that is found valid. -/
def ExternalOrderQueueElem.NamesPrices (e : ExternalOrderQueueElem) : Prop :=
  e.type = .market ∧ (e.aot.condition = .bracket ∨ e.aot.condition = .oneTriggersOther ∨
    e.aot.condition = .oneCancelsOther)

inductive DispatcherEvent (κ β : Type) where
  | invoked (c : κ) (op : Operation β)
  /-- In the thread of the caller. -/
  | answered (c : κ) (op : Operation β) (rep : Reply β)
  | pushed (p : Promised κ)
  | executed (p : Promised κ) (o : Outcome)
  | broken (p : Promised κ)
  | returned (c : κ) (rep : Reply β)
  /-- A step no caller sees. -/
  | silent

/-- A window left by an exception drops the internal orders. -/
def World.emptied (w : World) : World :=
  { w with internalOrderQueue := [], trace := .dropped w.internalOrderQueue :: w.trace }

namespace DispatcherState
variable {κ β : Type} [DecidableEq κ]

/-- Call `c` is at `ph` now. -/
def goTo (s : DispatcherState κ β) (c : κ) (ph : Phase β) : DispatcherState κ β :=
  { s with phase := Function.update s.phase c ph }

inductive Step [Pointers] :
    DispatcherState κ β → DispatcherEvent κ β → DispatcherState κ β → Prop where
  | call {s : DispatcherState κ β} (c : κ) (op : Operation β) (hc : s.phase c = .outside) :
      Step s (.invoked c op) (s.goTo c (.called op))
  /-- The checks in the thread of the caller throw. -/
  | refuse {s : DispatcherState κ β} (c : κ) (r : Request) (err : Err)
      (hc : s.phase c = .called (.request r)) (hr : r.action = .error err) :
      Step s (.answered c (.request r) (.outcome (.exception err)))
        (s.goTo c (.ready (.request r) (.outcome (.exception err))))
  | grow {s : DispatcherState κ β} (c : κ) (r : Request) (f : Sob → Except Err Sob) (sob : Sob)
      (hc : s.phase c = .called (.request r)) (hr : r.action = .ok (.grow f))
      (hf : f s.world.toSob = .ok sob) (hobj : s.derived = true) :
      Step s (.answered c (.request r) (.outcome (.value 0 [])))
        { s.goTo c (.ready (.request r) (.outcome (.value 0 []))) with
          world := { s.world with toSob := sob } }
  | growTooFar {s : DispatcherState κ β} (c : κ) (r : Request) (f : Sob → Except Err Sob) (err : Err)
      (hc : s.phase c = .called (.request r)) (hr : r.action = .ok (.grow f))
      (hf : f s.world.toSob = .error err) (hobj : s.derived = true) :
      Step s (.answered c (.request r) (.outcome (.exception err)))
        (s.goTo c (.ready (.request r) (.outcome (.exception err))))
  | query {s : DispatcherState κ β} (c : κ) (q : Query β) (hc : s.phase c = .called (.query q)) :
      Step s (.answered c (.query q) (.answer (q.read s.world.toSob)))
        (s.goTo c (.ready (.query q) (.answer (q.read s.world.toSob))))
  /-- `_push_external_order` -/
  | push {s : DispatcherState κ β} (p : Promised κ)
      (hc : s.phase p.call = .called (.request p.request)) :
      Step s (.pushed p) { s.goTo p.call (.waiting p.request) with
        externalOrderQueue := s.externalOrderQueue ++ [some p] }
  | pop {s : DispatcherState κ β} (e : Option (Promised κ)) (queue : List (Option (Promised κ)))
      (hd : s.dispatcher = .waiting) (hq : s.externalOrderQueue = e :: queue) :
      Step s .silent { s with dispatcher := .popped e, externalOrderQueue := queue }
  /-- `_master_run_flag` is tested. -/
  | accept {s : DispatcherState κ β} (p : Promised κ) (hd : s.dispatcher = .popped (some p))
      (hrun : s.masterRunFlag = true) : Step s .silent { s with dispatcher := .admitted p }
  /-- The critical section of `_dispatch_external_order`. -/
  | execute {s : DispatcherState κ β} (p : Promised κ) (fuel ret : Nat) (copies : List DfrdCbElem)
      (w' : World) (hd : s.dispatcher = .admitted p)
      (hobj : s.derived = false → ¬ p.elem.Converts s.world.toSob)
      (hw : dispatchExternalOrder fuel p.elem s.world = some (.value ret copies, w')) :
      Step s (.executed p (.value ret copies))
        { s with world := w', dispatcher := .settling p (.value ret copies) }
  /-- It is left by an exception. -/
  | throw {s : DispatcherState κ β} (p : Promised κ) (fuel : Nat) (err : Err) (w' : World)
      (hd : s.dispatcher = .admitted p) (hobj : s.derived = false → ¬ p.elem.Converts s.world.toSob)
      (hw : executeExternalOrder fuel p.elem s.world = .error err w')
      (herr : err ≠ .undefinedBehaviour) :
      Step s (.executed p (.exception err)) { s with world := w', dispatcher := .unwinding p err }
  /-- A pure virtual function is called. -/
  | abort {s : DispatcherState κ β} (p : Promised κ) (hd : s.dispatcher = .admitted p)
      (hobj : s.derived = false) (hconv : p.elem.Converts s.world.toSob ∨ p.elem.NamesPrices) :
      Step s .silent { s with aborted := true }
  /-- The internal queue is emptied, without `_master_mtx`. -/
  | unwind {s : DispatcherState κ β} (p : Promised κ) (err : Err)
      (hd : s.dispatcher = .unwinding p err) :
      Step s .silent
        { s with world := s.world.emptied, dispatcher := .settling p (.exception err) }
  /-- The promise is set. -/
  | settle {s : DispatcherState κ β} (p : Promised κ) (o : Outcome)
      (hd : s.dispatcher = .settling p o) :
      Step s .silent { s.goTo p.call (.ready (.request p.request) (.outcome o)) with
        dispatcher := .waiting }
  | respond {s : DispatcherState κ β} (c : κ) (op : Operation β) (rep : Reply β)
      (hc : s.phase c = .ready op rep) : Step s (.returned c rep) (s.goTo c .returned)
  /-- `~SimpleOrderbookImpl` is over. -/
  | destroy {s : DispatcherState κ β} : Step s .silent { s with derived := false }
  /-- `~SimpleOrderbookBase` begins. -/
  | stop {s : DispatcherState κ β} (hobj : s.derived = false) :
      Step s .silent { s with masterRunFlag := false }
  | pushNull {s : DispatcherState κ β} (hrun : s.masterRunFlag = false) :
      Step s .silent { s with externalOrderQueue := s.externalOrderQueue ++ [none] }
  /-- The dispatcher leaves its loop with the element it popped. -/
  | leave {s : DispatcherState κ β} (p : Promised κ) (hd : s.dispatcher = .popped (some p))
      (hrun : s.masterRunFlag = false) :
      Step s (.broken p) { s.goTo p.call (.ready (.request p.request) .brokenPromise) with
        dispatcher := .left }
  | leaveNull {s : DispatcherState κ β} (hd : s.dispatcher = .popped none)
      (hrun : s.masterRunFlag = false) : Step s .silent { s with dispatcher := .left }
  /-- The queue is destroyed with the orderbook, its elements in any order. -/
  | discard {s : DispatcherState κ β} (p : Promised κ) (front back : List (Option (Promised κ)))
      (hd : s.dispatcher = .left) (hq : s.externalOrderQueue = front ++ some p :: back) :
      Step s (.broken p) { s.goTo p.call (.ready (.request p.request) .brokenPromise) with
        externalOrderQueue := front ++ back }
  | discardNull {s : DispatcherState κ β} (front back : List (Option (Promised κ)))
      (hd : s.dispatcher = .left) (hq : s.externalOrderQueue = front ++ none :: back) :
      Step s .silent { s with externalOrderQueue := front ++ back }

end DispatcherState

/-- The dispatcher of an orderbook in state `w₀`, before the first call. -/
def dispatcher [Pointers] (κ β : Type) [DecidableEq κ] (w₀ : World) :
    Machine (DispatcherState κ β) (DispatcherEvent κ β) where
  init s := s.world = w₀ ∧ s.externalOrderQueue = [] ∧ s.derived = true ∧ s.masterRunFlag = true ∧
    s.dispatcher = .waiting ∧ (∀ c, s.phase c = .outside) ∧ s.aborted = false
  step s e s' := s.aborted = false ∧ s.Step e s'

/-! ## What is in flight -/

namespace Dispatcher
variable {κ : Type}

/-- The element the dispatcher has taken out of the queue. -/
def carried : Dispatcher κ → List (Promised κ)
  | popped (some p) | admitted p | unwinding p _ | settling p _ => [p]
  | waiting | popped none | left => []

/-- That element, while it is not executed. -/
def ahead : Dispatcher κ → List (Promised κ)
  | popped (some p) | admitted p => [p]
  | _ => []

/-- The outcome of call `c`, between its execution and its promise. -/
def served [DecidableEq κ] (c : κ) : Dispatcher κ → Option Outcome
  | unwinding p err => if p.call = c then some (.exception err) else none
  | settling p o => if p.call = c then some o else none
  | _ => none

end Dispatcher

namespace DispatcherState
variable {κ β : Type}

def inFlight (s : DispatcherState κ β) : List (Promised κ) :=
  s.dispatcher.carried ++ s.externalOrderQueue.filterMap id

/-- The calls in flight wait, each for its own promise. -/
structure Orderly (s : DispatcherState κ β) : Prop where
  waits : ∀ p ∈ s.inFlight, s.phase p.call = .waiting p.request
  once : (s.inFlight.map (·.call)).Nodup
  null : none ∈ s.externalOrderQueue ∨ s.dispatcher = .popped none → s.masterRunFlag = false

/-- The book as it is without the window that is being left. -/
def closedWorld (s : DispatcherState κ β) : World :=
  match s.dispatcher with
  | .unwinding _ _ => s.world.emptied
  | _ => s.world

end DispatcherState

/-- A call for which the dispatcher has an outcome is settled. -/
def Phase.status {β : Type} (served : Option Outcome) : Phase β → CallStatus (Operation β) (Reply β)
  | outside => .idle
  | called op => .called op
  | waiting r =>
    match served with
    | some o => .settled (.request r) (.outcome o)
    | none => .called (.request r)
  | ready op rep => .settled op rep
  | returned => .returned

/-- The atomic object the clients see. -/
def DispatcherState.atomic {κ β : Type} [DecidableEq κ] (s : DispatcherState κ β) :
    AtomicState World κ (Operation β) (Reply β) where
  state := s.closedWorld
  status c := (s.phase c).status (s.dispatcher.served c)

def DispatcherEvent.atomic {κ β : Type} :
    DispatcherEvent κ β → Option (AtomicEvent κ (Operation β) (Reply β))
  | invoked c op => some (.invoke c op)
  | answered c op rep => some (.commit c op rep)
  | executed p o => some (.commit p.call (.request p.request) (.outcome o))
  | broken p => some (.commit p.call (.request p.request) .brokenPromise)
  | returned c rep => some (.respond c rep)
  | pushed _ | silent => none

/-! ## One step -/

/-- The book with what an exception left in its internal queue, and without it, grow alike. -/
theorem grow_emptied {r : Request} {f : Sob → Except Err Sob} (hr : r.action = .ok (.grow f))
    (sob : Sob) (queue : List OrderQueueElem) :
    f { sob with internalOrderQueue := queue } =
      (f sob).map fun sob => { sob with internalOrderQueue := queue } := by
  have hgrow : ∀ (d b : Int) (a : Bool), (if d > 0 then
        growBook b d.toNat a { sob with internalOrderQueue := queue }
      else { sob with internalOrderQueue := queue }) =
      { (if d > 0 then growBook b d.toNat a sob else sob) with internalOrderQueue := queue } :=
    fun d b a => by
      by_cases hd : d > 0
      · rw [if_pos hd, if_pos hd]
        unfold growBook
        split <;> rfl
      · rw [if_neg hd, if_neg hd]
  have hite : ∀ {c : Prop} [Decidable c] {err : Err} {x y : Sob},
      y = { x with internalOrderQueue := queue } →
      (if c then throw err else pure y : Except Err Sob) =
        (if c then throw err else pure x : Except Err Sob).map
          fun sob => { sob with internalOrderQueue := queue } := fun {c _ err x y} h => by
    subst h
    split <;> rfl
  cases r with
  | growBookAbove newMax =>
    cases hr
    unfold SimpleOrderbook.growBookAbove
    exact hite (hgrow _ _ _)
  | growBookBelow newMin =>
    cases hr
    unfold SimpleOrderbook.growBookBelow
    dsimp only
    split
    · rfl
    · exact hite (hgrow _ _ _)
  | _ =>
    simp only [Request.action, bind, Except.bind] at hr
    repeat' split at hr
    all_goals cases hr

theorem Dispatcher.served_eq_none {κ : Type} [DecidableEq κ] {d : Dispatcher κ} {c : κ}
    (h : c ∉ d.carried.map (·.call)) : d.served c = none := by
  cases d with
  | unwinding p err => exact if_neg fun hc => h (by simp [carried, hc])
  | settling p o => exact if_neg fun hc => h (by simp [carried, hc])
  | _ => rfl

namespace DispatcherState
variable {κ β : Type} [DecidableEq κ] {s s' : DispatcherState κ β} {c : κ} {p : Promised κ}
  {ph : Phase β} {e : DispatcherEvent κ β} {op : Operation β} {rep : Reply β}

section Orderly

omit [DecidableEq κ] in
/-- A call that does not wait has nothing in flight. -/
theorem Orderly.not_mem (h : s.Orderly) (hc : ∀ r, s.phase c ≠ .waiting r) :
    c ∉ s.inFlight.map (·.call) := fun hm => by
  obtain ⟨p, hp, rfl⟩ := List.mem_map.mp hm
  exact hc p.request (h.waits p hp)

omit [DecidableEq κ] in
theorem Orderly.congr (h : s.Orderly) (hl : s'.inFlight = s.inFlight) (hp : s'.phase = s.phase)
    (hnull : none ∈ s'.externalOrderQueue ∨ s'.dispatcher = .popped none →
      s'.masterRunFlag = false) : s'.Orderly :=
  ⟨fun p hm => hp ▸ h.waits p (hl ▸ hm), hl ▸ h.once, hnull⟩

/-- A call that has nothing in flight goes on. -/
theorem Orderly.elsewhere (h : s.Orderly) (hc : ∀ r, s.phase c ≠ .waiting r) (w : World) :
    ({ s.goTo c ph with world := w } : DispatcherState κ β).Orderly := by
  refine ⟨fun p hp => ?_, h.once, h.null⟩
  have hne : p.call ≠ c := fun heq => h.not_mem hc (heq ▸ List.mem_map_of_mem hp)
  exact (Function.update_of_ne hne _ _).trans (h.waits p hp)

/-- A call in flight gets its reply. -/
theorem Orderly.replied (h : s.Orderly) (hl : s.inFlight.Perm (p :: s'.inFlight))
    (hp : s'.phase = Function.update s.phase p.call ph)
    (hnull : none ∈ s'.externalOrderQueue ∨ s'.dispatcher = .popped none →
      s'.masterRunFlag = false) : s'.Orderly := by
  have honce := (hl.map (·.call)).nodup_iff.mp h.once
  rw [List.map_cons, List.nodup_cons] at honce
  refine ⟨fun x hx => ?_, honce.2, hnull⟩
  have hne : x.call ≠ p.call := fun heq => honce.1 (heq ▸ List.mem_map_of_mem hx)
  rw [hp, Function.update_of_ne hne]
  exact h.waits x (hl.mem_iff.mpr (List.mem_cons_of_mem _ hx))

theorem Orderly.step [Pointers] (h : s.Orderly) (hstep : s.Step e s') : s'.Orderly := by
  have hcalled : ∀ {c op}, s.phase c = .called op → ∀ r, s.phase c ≠ .waiting r := fun hc r hw => by
    rw [hc] at hw
    cases hw
  have hother : ∀ {d : Dispatcher κ}, d ≠ .popped none →
      none ∈ s.externalOrderQueue ∨ d = .popped none → s.masterRunFlag = false := fun hd hn =>
    h.null (hn.imp_right fun heq => absurd heq hd)
  have hcarried : ∀ {d : Dispatcher κ} {w : World}, d.carried = s.dispatcher.carried →
      d ≠ .popped none → ({ s with world := w, dispatcher := d } : DispatcherState κ β).Orderly :=
    fun hd hne => h.congr (congrArg (· ++ s.externalOrderQueue.filterMap id) hd) rfl (hother hne)
  cases hstep with
  | call c op hc => exact h.elsewhere (fun r hw => by rw [hc] at hw; cases hw) s.world
  | refuse c r err hc => exact h.elsewhere (hcalled hc) s.world
  | grow c r f sob hc => exact h.elsewhere (hcalled hc) _
  | growTooFar c r f err hc => exact h.elsewhere (hcalled hc) s.world
  | query c q hc => exact h.elsewhere (hcalled hc) s.world
  | respond c op rep hc => exact h.elsewhere (fun r hw => by rw [hc] at hw; cases hw) s.world
  | push p hc =>
    have hin : ({ s.goTo p.call (.waiting p.request) with
        externalOrderQueue := s.externalOrderQueue ++ [some p] } : DispatcherState κ β).inFlight =
        s.inFlight ++ [p] := by
      simp [inFlight, goTo]
    have hnew := h.not_mem (hcalled hc)
    refine ⟨fun x hx => ?_, ?_, fun hn => h.null (hn.imp_left fun hm => by simpa using hm)⟩
    · rw [hin] at hx
      rcases List.mem_append.mp hx with hx | hx
      · have hne : x.call ≠ p.call := fun heq => hnew (heq ▸ List.mem_map_of_mem hx)
        exact (Function.update_of_ne hne _ _).trans (h.waits x hx)
      · cases List.mem_singleton.mp hx
        exact Function.update_self _ _ _
    · rw [hin, List.map_append, List.map_singleton]
      refine List.nodup_append.mpr ⟨h.once, List.nodup_singleton _, fun a ha b hb hab => ?_⟩
      have hb : b = p.call := List.mem_singleton.mp hb
      exact hnew (hb ▸ hab ▸ ha)
  | pop e queue hd hq =>
    refine h.congr ?_ rfl fun hn => h.null ?_
    · cases e <;> simp [inFlight, hd, hq, Dispatcher.carried]
    · rw [hq]
      rcases hn with hn | hn
      · exact .inl (List.mem_cons_of_mem _ hn)
      · cases hn
        exact .inl List.mem_cons_self
  | accept p hd => exact hcarried (by rw [hd]; rfl) nofun
  | execute p fuel ret copies w' hd => exact hcarried (by rw [hd]; rfl) nofun
  | throw p fuel err w' hd => exact hcarried (by rw [hd]; rfl) nofun
  | unwind p err hd => exact hcarried (by rw [hd]; rfl) nofun
  | settle p o hd =>
    refine h.replied (p := p) (.of_eq ?_) rfl (hother nofun)
    simp [inFlight, hd, Dispatcher.carried, goTo]
  | abort | destroy => exact h.congr rfl rfl h.null
  | stop => exact h.congr rfl rfl fun _ => rfl
  | pushNull hrun => exact h.congr (by simp [inFlight]) rfl fun _ => hrun
  | leave p hd hrun =>
    refine h.replied (p := p) (.of_eq ?_) rfl fun _ => hrun
    simp [inFlight, hd, Dispatcher.carried, goTo]
  | leaveNull hd hrun => exact h.congr (by simp [inFlight, hd, Dispatcher.carried]) rfl fun _ => hrun
  | discard p front back hd hq =>
    have hsub : front ++ back ⊆ s.externalOrderQueue := hq ▸
      ((List.sublist_cons_self (some p) back).append_left front).subset
    refine h.replied (p := p) ?_ rfl fun hn => h.null (hn.imp_left (hsub ·))
    simp only [inFlight, hd, hq, Dispatcher.carried, goTo, List.filterMap_append, List.nil_append]
    exact List.perm_middle
  | discardNull front back hd hq =>
    have hsub : front ++ back ⊆ s.externalOrderQueue := hq ▸
      ((List.sublist_cons_self none back).append_left front).subset
    exact h.congr (by simp [inFlight, hq]) rfl fun hn => h.null (hn.imp_left (hsub ·))

end Orderly

section Atomic

/-- What the clients see when call `c` goes on. -/
theorem atomic_at (c : κ) (ph : Phase β) (w : World) :
    ({ s.goTo c ph with world := w } : DispatcherState κ β).atomic =
      ⟨({ s with world := w } : DispatcherState κ β).closedWorld,
        Function.update s.atomic.status c (ph.status (s.dispatcher.served c))⟩ := by
  refine congrArg (AtomicState.mk _) (funext fun c' => ?_)
  by_cases hc : c' = c
  · subst hc
    rw [Function.update_self]
    exact congrArg (Phase.status _) (Function.update_self _ _ _)
  · rw [Function.update_of_ne hc]
    exact congrArg (Phase.status _) (Function.update_of_ne hc _ _)

theorem status_called (hc : s.phase c = .called op) : s.atomic.status c = .called op :=
  congrArg (Phase.status _) hc

/-- A call in flight that is not executed. -/
theorem Orderly.status_ahead (h : s.Orderly) (hp : p ∈ s.inFlight)
    (hd : s.dispatcher.served p.call = none) :
    s.atomic.status p.call = .called (.request p.request) := by
  change (s.phase p.call).status (s.dispatcher.served p.call) = _
  rw [h.waits p hp, hd]
  rfl

omit [DecidableEq κ] in
/-- A growth has its effect also on the book without the window that is being left. -/
theorem window_grow [Pointers] {r : Request} {f : Sob → Except Err Sob} {sob : Sob}
    (hr : r.action = .ok (.grow f)) (hf : f s.world.toSob = .ok sob) :
    Window r s.closedWorld (.value 0 [])
      ({ s with world := { s.world with toSob := sob } } : DispatcherState κ β).closedWorld := by
  refine ⟨0, ?_⟩
  unfold Request.exec closedWorld
  rw [hr]
  cases hd : s.dispatcher with
  | unwinding p err =>
    have hq : sob.internalOrderQueue = s.world.internalOrderQueue := by
      have h := grow_emptied hr s.world.toSob s.world.internalOrderQueue
      rw [hf] at h
      have heq := congrArg Sob.internalOrderQueue (Except.ok.inj h)
      exact heq
    have h := grow_emptied hr s.world.toSob []
    rw [hf] at h
    dsimp only [World.emptied]
    rw [h, hq]
    rfl
  | _ =>
    dsimp only
    rw [hf]

omit [DecidableEq κ] in
theorem window_growTooFar [Pointers] {r : Request} {f : Sob → Except Err Sob} {err : Err}
    (hr : r.action = .ok (.grow f)) (hf : f s.world.toSob = .error err) :
    Window r s.closedWorld (.exception err) s.closedWorld := by
  refine ⟨0, ?_⟩
  unfold Request.exec closedWorld
  rw [hr]
  cases hd : s.dispatcher with
  | unwinding p err =>
    have h := grow_emptied hr s.world.toSob []
    rw [hf] at h
    dsimp only [World.emptied]
    rw [h]
    rfl
  | _ =>
    dsimp only
    rw [hf]

omit [DecidableEq κ] in
theorem read_closedWorld (q : Query β) : q.read s.closedWorld.toSob = q.read s.world.toSob := by
  unfold closedWorld
  split
  · exact q.blind _ _
  · rfl

/-- The dispatcher has executed `p`, with outcome `o`. -/
theorem Orderly.atomic_executed {d : Dispatcher κ} {w : World} {o : Outcome} (h : s.Orderly)
    (hp : s.dispatcher = .admitted p) (hd : ∀ c, d.served c = if p.call = c then some o else none) :
    ({ s with world := w, dispatcher := d } : DispatcherState κ β).atomic =
      ⟨({ s with world := w, dispatcher := d } : DispatcherState κ β).closedWorld,
        Function.update s.atomic.status p.call (.settled (.request p.request) (.outcome o))⟩ := by
  have hw := h.waits p (by simp [inFlight, hp, Dispatcher.carried])
  refine congrArg (AtomicState.mk _) (funext fun c => ?_)
  change (s.phase c).status (d.served c) = _
  by_cases hc : c = p.call
  · rw [hc, Function.update_self, hd, if_pos rfl, hw]
    rfl
  · rw [Function.update_of_ne hc, hd, if_neg fun heq => hc heq.symm]
    change _ = (s.phase c).status (s.dispatcher.served c)
    rw [hp]
    rfl

/-- The caller is told what happened. -/
theorem Orderly.atomic_settled {o : Outcome} (h : s.Orderly) (hd : s.dispatcher = .settling p o) :
    ({ s.goTo p.call (.ready (.request p.request) (.outcome o)) with
      dispatcher := .waiting } : DispatcherState κ β).atomic = s.atomic := by
  have hw := h.waits p (by simp [inFlight, hd, Dispatcher.carried])
  have hclosed : s.closedWorld = s.world := by
    unfold closedWorld
    rw [hd]
  refine congrArg₂ AtomicState.mk hclosed.symm (funext fun c => ?_)
  change (Function.update s.phase p.call _ c).status none = (s.phase c).status (s.dispatcher.served c)
  by_cases hc : c = p.call
  · rw [hc, Function.update_self, hw, hd, Dispatcher.served, if_pos rfl]
    rfl
  · rw [Function.update_of_ne hc, hd, Dispatcher.served, if_neg fun heq => hc heq.symm]

/-- A promise is destroyed. -/
theorem Orderly.atomic_broken [Pointers] {d : Dispatcher κ} {queue : List (Option (Promised κ))}
    (h : s.Orderly) (hp : p ∈ s.inFlight) (hs : ∀ c, s.dispatcher.served c = none)
    (hd : ∀ c, d.served c = none) (hw : s.closedWorld = s.world)
    (hw' : ({ s with dispatcher := d } : DispatcherState κ β).closedWorld = s.world) :
    s.atomic.Step Operation.Sem (.commit p.call (.request p.request) .brokenPromise)
      ({ s.goTo p.call (.ready (.request p.request) .brokenPromise) with
        dispatcher := d, externalOrderQueue := queue } : DispatcherState κ β).atomic := by
  have heq : ({ s.goTo p.call (.ready (.request p.request) .brokenPromise) with
      dispatcher := d, externalOrderQueue := queue } : DispatcherState κ β).atomic =
      ⟨s.atomic.state, Function.update s.atomic.status p.call
        (.settled (.request p.request) .brokenPromise)⟩ := by
    refine congrArg₂ AtomicState.mk (hw'.trans hw.symm) (funext fun c => ?_)
    change (Function.update s.phase p.call _ c).status (d.served c) = _
    by_cases hc : c = p.call
    · rw [hc, Function.update_self, Function.update_self]
      rfl
    · rw [Function.update_of_ne hc, Function.update_of_ne hc, hd]
      change _ = (s.phase c).status (s.dispatcher.served c)
      rw [hs]
  rw [heq]
  exact .commit (h.status_ahead hp (hs _)) .broken

end Atomic

end DispatcherState

/-- The dispatcher with its clients is an atomic object. -/
theorem dispatcher_refines [Pointers] (κ β : Type) [DecidableEq κ] (w₀ : World) :
    (dispatcher κ β w₀).Refines (atomicObject Operation.Sem w₀) DispatcherState.Orderly
      DispatcherState.atomic DispatcherEvent.atomic where
  init := by
    rintro s ⟨hw, hq, -, hrun, hd, hout, -⟩
    refine ⟨⟨fun p hp => ?_, ?_, fun hn => ?_⟩, ?_, fun c => ?_⟩
    · simp [DispatcherState.inFlight, hd, hq, Dispatcher.carried] at hp
    · simp [DispatcherState.inFlight, hd, hq, Dispatcher.carried]
    · simp [hq, hd] at hn
    · change s.closedWorld = w₀
      unfold DispatcherState.closedWorld
      rw [hd]
      exact hw
    · change (s.phase c).status _ = _
      rw [hout c]
      rfl
  keep h hstep := h.step hstep.2
  step := by
    rintro s e s' e' h ⟨-, hstep⟩ he
    -- the calls that are answered in the thread of the caller
    have hanswer : ∀ {c op rep} {w : World}, s.phase c = .called op →
        Operation.Sem s.closedWorld op rep
          ({ s with world := w } : DispatcherState κ β).closedWorld →
        s.atomic.Step Operation.Sem (.commit c op rep)
          ({ s.goTo c (.ready op rep) with world := w } : DispatcherState κ β).atomic :=
      fun hc hsem => by
        rw [DispatcherState.atomic_at]
        exact .commit (DispatcherState.status_called hc) hsem
    cases hstep with
    | call c op hc =>
      cases he
      rw [show s.goTo c (.called op) = { s.goTo c (.called op) with world := s.world } from rfl,
        DispatcherState.atomic_at]
      exact .invoke (congrArg (Phase.status _) hc)
    | refuse c r err hc hr =>
      cases he
      exact hanswer (w := s.world) hc (.request ⟨0, by unfold Request.exec; rw [hr]⟩)
    | grow c r f sob hc hr hf =>
      cases he
      exact hanswer hc (.request (DispatcherState.window_grow hr hf))
    | growTooFar c r f err hc hr hf =>
      cases he
      exact hanswer (w := s.world) hc (.request (DispatcherState.window_growTooFar hr hf))
    | query c q hc =>
      cases he
      rw [← DispatcherState.read_closedWorld q]
      exact hanswer (w := s.world) hc .query
    | execute p fuel ret copies w' hd _ hw =>
      cases he
      rw [h.atomic_executed (d := .settling p (.value ret copies)) hd fun c => rfl]
      refine .commit (h.status_ahead (by simp [DispatcherState.inFlight, hd, Dispatcher.carried])
        (by rw [hd]; rfl)) (.request ⟨fuel, ?_⟩)
      unfold Request.exec
      rw [p.passed]
      change dispatchExternalOrder fuel p.elem s.closedWorld = _
      unfold DispatcherState.closedWorld
      rw [hd]
      exact hw
    | throw p fuel err w' hd _ hw herr =>
      cases he
      rw [h.atomic_executed (d := .unwinding p err) hd fun c => rfl]
      refine .commit (h.status_ahead (by simp [DispatcherState.inFlight, hd, Dispatcher.carried])
        (by rw [hd]; rfl)) (.request ⟨fuel, ?_⟩)
      unfold Request.exec
      rw [p.passed]
      change dispatchExternalOrder fuel p.elem s.closedWorld = _
      unfold DispatcherState.closedWorld dispatchExternalOrder
      rw [hd]
      dsimp only
      rw [hw]
      cases err with
      | undefinedBehaviour => exact absurd rfl herr
      | _ => rfl
    | respond c op rep hc =>
      cases he
      rw [show s.goTo c .returned = { s.goTo c .returned with world := s.world } from rfl,
        DispatcherState.atomic_at]
      exact .respond (congrArg (Phase.status _) hc)
    | leave p hd hrun =>
      cases he
      exact h.atomic_broken (by simp [DispatcherState.inFlight, hd, Dispatcher.carried])
        (fun c => by rw [hd]; rfl) (fun c => rfl)
        (by unfold DispatcherState.closedWorld; rw [hd]) rfl
    | discard p front back hd hq =>
      cases he
      exact h.atomic_broken (d := s.dispatcher) (by simp [DispatcherState.inFlight, hq])
        (fun c => by rw [hd]; rfl) (fun c => by rw [hd]; rfl)
        (by unfold DispatcherState.closedWorld; rw [hd])
        (by unfold DispatcherState.closedWorld; dsimp only; rw [hd])
    | _ => cases he
  stutter := by
    rintro s e s' h ⟨-, hstep⟩ he
    -- a step of the dispatcher alone
    have hlocal : ∀ {d : Dispatcher κ} {w : World} {queue : List (Option (Promised κ))},
        ({ s with dispatcher := d, world := w } : DispatcherState κ β).closedWorld = s.closedWorld →
        (∀ c, d.served c = s.dispatcher.served c) →
        ({ s with dispatcher := d, world := w, externalOrderQueue := queue }
          : DispatcherState κ β).atomic = s.atomic := fun hw hd =>
      congrArg₂ AtomicState.mk hw (funext fun c => congrArg (Phase.status · (s.phase c)) (hd c))
    cases hstep with
    | push p hc =>
      have hnew := h.not_mem (c := p.call) fun r hw => by rw [hc] at hw; cases hw
      have hserved : s.dispatcher.served p.call = none := Dispatcher.served_eq_none fun hm =>
        hnew (by rw [DispatcherState.inFlight, List.map_append]; exact List.mem_append_left _ hm)
      change ({ s.goTo p.call (.waiting p.request) with world := s.world }
        : DispatcherState κ β).atomic = _
      rw [DispatcherState.atomic_at, hserved]
      refine congrArg (AtomicState.mk _) (Function.update_eq_self_iff.mpr ?_)
      exact (DispatcherState.status_called hc).symm
    | pop e queue hd hq => exact hlocal (by unfold DispatcherState.closedWorld; rw [hd]) (fun c => by rw [hd]; rfl)
    | accept p hd => exact hlocal (by unfold DispatcherState.closedWorld; rw [hd]) (fun c => by rw [hd]; rfl)
    | unwind p err hd => exact hlocal (by unfold DispatcherState.closedWorld; rw [hd]) (fun c => by rw [hd]; rfl)
    | settle p o hd => exact h.atomic_settled hd
    | abort | destroy | stop => rfl
    | pushNull => rfl
    | leaveNull hd => exact hlocal (by unfold DispatcherState.closedWorld; rw [hd]) (fun c => by rw [hd]; rfl)
    | discardNull => rfl
    | _ => cases he

/-! ## What the clients see -/

def DispatcherEvent.history {κ β : Type} :
    DispatcherEvent κ β → Option (HistoryEvent κ (Operation β) (Reply β))
  | invoked c op => some (.invoke c op)
  | returned c rep => some (.respond c rep)
  | _ => none

/-- The requests that had an outcome. -/
def requests {κ β : Type} (calls : List (κ × Operation β × Reply β)) : List (Request × Outcome) :=
  calls.filterMap fun
    | (_, .request r, .outcome o) => some (r, o)
    | _ => none

/-- Calls one after the other are a run of their requests. -/
theorem Serial.run [Pointers] {κ β : Type} {w₀ w : World} {calls : List (κ × Operation β × Reply β)}
    (h : Serial Operation.Sem w₀ calls w) : Run w₀ (requests calls) w := by
  induction h with
  | nil => exact .nil
  | snoc _ hsem ih =>
    rw [requests, List.filterMap_append]
    cases hsem with
    | request hw => exact ih.snoc hw
    | query | broken => exact (List.append_nil (requests _)).symm ▸ ih

/-- However the steps of the clients and of the dispatcher interleave, what the clients see is
explained by calls made one after the other, in an order that respects real time; and the book is the
one a run of their requests leaves. -/
theorem dispatcher_linearizable [Pointers] {κ β : Type} [DecidableEq κ] {w₀ : World}
    {trace : List (DispatcherEvent κ β)} {s : DispatcherState κ β}
    (h : (dispatcher κ β w₀).Run trace s) : ∃ calls,
      Linearizes Operation.Sem w₀ (trace.filterMap DispatcherEvent.history) calls s.closedWorld ∧
        Run w₀ (requests calls) s.closedWorld := by
  have hl := linearizes_commits ((dispatcher_refines κ β w₀).run h).2
  have hhist : (trace.filterMap DispatcherEvent.atomic).filterMap AtomicEvent.history =
      trace.filterMap DispatcherEvent.history := by
    rw [List.filterMap_filterMap]
    refine congrArg (List.filterMap · trace) (funext fun e => ?_)
    cases e <;> rfl
  rw [hhist] at hl
  exact ⟨_, hl, hl.serial.run⟩

/-- `last_id` as a query. -/
def Query.lastId : Query Nat where
  read s := s.lastId
  blind _ _ := rfl

/-- The element `insert_limit_order` pushes for call `c`. -/
def Promised.limit (c : Nat) (buy : Bool) (price : Int) (size : Nat) (h : size ≠ 0) : Promised Nat where
  call := c
  request := .limit buy price size
  elem := ⟨.limit, buy, price, 0, size, {}, 0, .null⟩
  passed := by
    simp only [Request.limit, Request.action, checkOrderSize, if_neg h]
    rfl

/-- The element of call 0 below. -/
def Promised.buy4 : Promised Nat := .limit 0 true 5 4 (by decide)

/-- While the order of call 0 waits in the queue, call 1 asks for the last id. -/
theorem linearizable_query_first : ∃ trace s,
    (dispatcher Nat Nat (World.create 1 20)).Run trace s ∧
      trace.filterMap DispatcherEvent.history = [.invoke 0 (.request (.limit true 5 4)),
        .invoke 1 (.query .lastId), .respond 1 (.answer 0), .respond 0 (.outcome (.value 1 []))] ∧
      ∃ calls, Linearizes Operation.Sem (World.create 1 20)
        (trace.filterMap DispatcherEvent.history) calls s.closedWorld ∧
          Run (World.create 1 20) (requests calls) s.closedWorld := by
  let start : DispatcherState Nat Nat :=
    ⟨World.create 1 20, [], true, true, .waiting, fun _ => .outside, false⟩
  obtain ⟨⟨o, w⟩, hw, ho⟩ := Option.map_eq_some_iff.mp
    (by decide +kernel : (dispatchExternalOrder 0 Promised.buy4.elem (World.create 1 20)).map
      (fun c => c.1) = some (.value 1 []))
  obtain rfl : o = .value 1 [] := ho
  have h0 : (dispatcher Nat Nat (World.create 1 20)).Run [] start :=
    .init ⟨rfl, rfl, rfl, rfl, rfl, fun _ => rfl, rfl⟩
  have h1 := h0.step ⟨rfl, .call 0 (.request (.limit true 5 4)) rfl⟩
  have h2 := h1.step ⟨rfl, .push Promised.buy4 rfl⟩
  have h3 := h2.step ⟨rfl, .call 1 (.query .lastId) rfl⟩
  have h4 := h3.step ⟨rfl, .pop (some Promised.buy4) [] rfl rfl⟩
  have h5 := h4.step ⟨rfl, .query 1 .lastId rfl⟩
  have h6 := h5.step ⟨rfl, .accept Promised.buy4 rfl rfl⟩
  have h7 := h6.step ⟨rfl, .respond 1 (.query .lastId) (.answer 0) rfl⟩
  have h8 := h7.step ⟨rfl, .execute Promised.buy4 0 1 [] w rfl nofun hw⟩
  have h9 := h8.step ⟨rfl, .settle Promised.buy4 (.value 1 []) rfl⟩
  have h10 := h9.step ⟨rfl, .respond 0 (.request (.limit true 5 4)) (.outcome (.value 1 [])) rfl⟩
  exact ⟨_, _, h10, rfl, dispatcher_linearizable h10⟩

/-! ## The order of the queue -/

section Queue
variable {κ β : Type}

def pushedElems (trace : List (DispatcherEvent κ β)) : List (Promised κ) :=
  trace.filterMap fun
    | .pushed p => some p
    | _ => none

def executedElems (trace : List (DispatcherEvent κ β)) : List (Promised κ) :=
  trace.filterMap fun
    | .executed p _ => some p
    | _ => none

def brokenElems (trace : List (DispatcherEvent κ β)) : List (Promised κ) :=
  trace.filterMap fun
    | .broken p => some p
    | _ => none

/-- The call was pushed, or answered without that. -/
def Phase.Past : Phase β → Prop
  | outside | called _ => False
  | waiting _ | ready _ _ | returned => True

/-- What waits for its execution. -/
def DispatcherState.waitingElems (s : DispatcherState κ β) : List (Promised κ) :=
  s.dispatcher.ahead ++ s.externalOrderQueue.filterMap id

variable [DecidableEq κ] {trace : List (DispatcherEvent κ β)} {s s' : DispatcherState κ β}
  {e : DispatcherEvent κ β}

namespace DispatcherState

/-- At most one call goes on, and none goes back. -/
theorem Step.phase_eq [Pointers] (h : s.Step e s') : s'.phase = s.phase ∨ ∃ c ph,
    s'.phase = Function.update s.phase c ph ∧
      (s.phase c = .outside ∨ ph.Past) := by
  cases h with
  | call c op hc => exact .inr ⟨_, _, rfl, .inl hc⟩
  | refuse | grow | growTooFar | query | push | settle | respond | leave | discard =>
    exact .inr ⟨_, _, rfl, .inr trivial⟩
  | _ => exact .inl rfl

/-- Until the dispatcher leaves, what a step executes or breaks is in front of what waits. What it
pushes is behind. -/
theorem Step.accounts [Pointers] (h : s.Step e s') (hd : s.dispatcher ≠ .left) :
    executedElems [e] ++ brokenElems [e] ++ s'.waitingElems = s.waitingElems ++ pushedElems [e] := by
  cases h with
  | push p hc => simp [waitingElems, goTo, executedElems, brokenElems, pushedElems]
  | pop x queue hd hq =>
    cases x <;> simp [waitingElems, hd, hq, Dispatcher.ahead, executedElems, brokenElems, pushedElems]
  | accept p hd | unwind p err hd | settle p o hd | leaveNull hd =>
    simp [waitingElems, goTo, hd, Dispatcher.ahead, executedElems, brokenElems, pushedElems]
  | execute p fuel ret copies w' hd | throw p fuel err w' hd | leave p hd =>
    simp [waitingElems, goTo, hd, Dispatcher.ahead, executedElems, brokenElems, pushedElems]
  | discard p front back hleft | discardNull front back hleft => exact absurd hleft hd
  | _ => simp [waitingElems, goTo, executedElems, brokenElems, pushedElems]

/-- Then nothing is executed any more, and what waits is broken in any order. -/
theorem Step.accounts_left [Pointers] (h : s.Step e s') (hd : s.dispatcher = .left) :
    executedElems [e] = [] ∧
      (brokenElems [e] ++ s'.waitingElems).Perm (s.waitingElems ++ pushedElems [e]) := by
  cases h with
  | push p hc =>
    refine ⟨rfl, .of_eq ?_⟩
    simp [waitingElems, goTo, brokenElems, pushedElems]
  | discard p front back _ hq =>
    refine ⟨rfl, ?_⟩
    have hwait : s.waitingElems = front.filterMap id ++ p :: back.filterMap id := by
      simp [waitingElems, hd, hq, Dispatcher.ahead]
    have hrest : ({ s.goTo p.call (.ready (.request p.request) .brokenPromise) with
        externalOrderQueue := front ++ back } : DispatcherState κ β).waitingElems =
        front.filterMap id ++ back.filterMap id := by
      simp [waitingElems, goTo, hd, Dispatcher.ahead]
    change ([p] ++ _ : List (Promised κ)).Perm (_ ++ [])
    rw [List.append_nil, hwait, hrest, List.singleton_append]
    exact List.perm_middle.symm
  | discardNull front back _ hq =>
    refine ⟨rfl, .of_eq ?_⟩
    simp [waitingElems, hd, hq, Dispatcher.ahead, brokenElems, pushedElems]
  | pop _ _ hw | accept _ hw | execute _ _ _ _ _ hw | throw _ _ _ _ hw | abort _ hw | unwind _ _ hw
  | settle _ _ hw | leave _ hw | leaveNull hw => exact absurd (hd.symm.trans hw) nofun
  | _ =>
    refine ⟨rfl, .of_eq ?_⟩
    simp [waitingElems, goTo, brokenElems, pushedElems]

/-- The dispatcher does not come back, breaks nothing before it leaves and executes nothing after. -/
theorem Step.left [Pointers] (h : s.Step e s') :
    (s'.dispatcher ≠ .left → s.dispatcher ≠ .left ∧ brokenElems [e] = []) ∧
      (executedElems [e] ≠ [] → s.dispatcher ≠ .left) := by
  cases h with
  | pop x queue hd | accept p hd | execute p fuel ret copies w' hd | throw p fuel err w' hd
  | unwind p err hd | settle p o hd =>
    rw [hd]
    exact ⟨fun _ => ⟨nofun, rfl⟩, fun _ => nofun⟩
  | leave | leaveNull => exact ⟨fun hn => absurd rfl hn, fun hn => absurd rfl hn⟩
  | discard p front back hd => exact ⟨fun hn => absurd hd hn, fun hn => absurd rfl hn⟩
  | _ => exact ⟨fun hn => ⟨hn, rfl⟩, fun hn => absurd rfl hn⟩

end DispatcherState

/-- What was pushed is executed in this order, and of the rest the promise is broken or it waits. -/
structure InOrder (trace : List (DispatcherEvent κ β)) (s : DispatcherState κ β) : Prop where
  split : ∃ rest, executedElems trace ++ rest = pushedElems trace ∧
    rest.Perm (brokenElems trace ++ s.waitingElems) ∧ (s.dispatcher ≠ .left → rest = s.waitingElems)
  alive : s.dispatcher ≠ .left → brokenElems trace = []
  past : ∀ p ∈ pushedElems trace, (s.phase p.call).Past
  once : ((pushedElems trace).map (·.call)).Nodup

theorem InOrder.step [Pointers] (h : InOrder trace s) (hstep : s.Step e s') : InOrder (trace ++ [e]) s' := by
  have hpushed : pushedElems (trace ++ [e]) = pushedElems trace ++ pushedElems [e] :=
    List.filterMap_append
  have hexec : executedElems (trace ++ [e]) = executedElems trace ++ executedElems [e] :=
    List.filterMap_append
  have hbroken : brokenElems (trace ++ [e]) = brokenElems trace ++ brokenElems [e] :=
    List.filterMap_append
  -- a call that is pushed now was not pushed before
  have hnew : ∀ p ∈ pushedElems [e], s.phase p.call = .called (.request p.request) ∧
      s'.phase p.call = .waiting p.request ∧ pushedElems [e] = [p] := fun p hp => by
    cases hstep with
    | push p' hc =>
      cases List.mem_singleton.mp hp
      exact ⟨hc, Function.update_self _ _ _, rfl⟩
    | _ => cases hp
  have hpast : ∀ p ∈ pushedElems trace, (s'.phase p.call).Past := fun p hp => by
    have hold := h.past p hp
    rcases hstep.phase_eq with heq | ⟨c, ph, heq, hph⟩
    · rwa [heq]
    · rw [heq]
      by_cases hc : p.call = c
      · rw [hc, Function.update_self]
        refine hph.resolve_left fun hout => ?_
        rwa [hc, hout] at hold
      · rwa [Function.update_of_ne hc]
  refine ⟨?_, fun hd => ?_, fun p hp => ?_, ?_⟩
  · obtain ⟨rest, heq, hperm, hwait⟩ := h.split
    rw [hpushed, hexec, hbroken, ← heq]
    by_cases hd : s.dispatcher = .left
    · -- the rest gets longer, and what is broken was in it
      obtain ⟨hx, hacc⟩ := hstep.accounts_left hd
      refine ⟨rest ++ pushedElems [e], by simp [hx], ?_, fun hd' => absurd hd (hstep.left.1 hd').1⟩
      have h1 := hperm.append_right (pushedElems [e])
      rw [List.append_assoc] at h1 ⊢
      exact h1.trans (hacc.symm.append_left _)
    · have hacc := hstep.accounts hd
      refine ⟨brokenElems [e] ++ s'.waitingElems, ?_, ?_, fun hd' => ?_⟩
      · rw [hwait hd, List.append_assoc _ s.waitingElems, ← hacc]
        simp only [List.append_assoc]
      · rw [h.alive hd, List.nil_append]
      · rw [(hstep.left.1 hd').2, List.nil_append]
  · obtain ⟨hd', he⟩ := hstep.left.1 hd
    rw [hbroken, h.alive hd', he]
    rfl
  · rw [hpushed] at hp
    rcases List.mem_append.mp hp with hp | hp
    · exact hpast p hp
    · rw [(hnew p hp).2.1]
      trivial
  · rw [hpushed, List.map_append]
    refine List.nodup_append.mpr ⟨h.once, ?_, fun a ha b hb hab => ?_⟩
    · match hl : pushedElems [e] with
      | [] => exact List.nodup_nil
      | p :: l =>
        rw [(hnew p (hl ▸ List.mem_cons_self)).2.2] at hl
        exact hl ▸ List.nodup_singleton _
    · obtain ⟨p, hp, rfl⟩ := List.mem_map.mp ha
      obtain ⟨p', hp', rfl⟩ := List.mem_map.mp hb
      have hp := h.past p hp
      rwa [hab, (hnew p' hp').1] at hp

/-- The dispatcher executes what was pushed in the order of the queue, each call once. What is behind
the executed elements waits or has its promise broken, and none is broken before the dispatcher left. -/
theorem dispatcher_fifo [Pointers] {w₀ : World} (h : (dispatcher κ β w₀).Run trace s) :
    (∃ rest, executedElems trace ++ rest = pushedElems trace ∧
      rest.Perm (brokenElems trace ++ s.waitingElems)) ∧
      ((pushedElems trace).map (·.call)).Nodup ∧
        (s.dispatcher ≠ .left → brokenElems trace = []) := by
  have hin : InOrder trace s := by
    refine h.invariant (I := InOrder) (fun s hs => ?_) fun _ _ _ _ _ ih hstep => ?_
    · obtain ⟨-, hq, -, -, hd, -⟩ := hs
      refine ⟨⟨[], rfl, ?_, fun _ => ?_⟩, fun _ => rfl, fun p hp => (by cases hp), List.nodup_nil⟩
      · simp [DispatcherState.waitingElems, hq, hd, Dispatcher.ahead, brokenElems]
      · simp [DispatcherState.waitingElems, hq, hd, Dispatcher.ahead]
    · exact ih.step hstep.2
  obtain ⟨rest, heq, hperm, -⟩ := hin.split
  exact ⟨⟨rest, heq, hperm⟩, hin.once, hin.alive⟩

/-- The orderbook is destroyed after the dispatcher took the first of three elements, and the last one
is discarded first. -/
theorem fifo_stopped : ∃ trace s, (dispatcher Nat Nat (World.create 1 20)).Run trace s ∧
    (pushedElems trace).map (·.call) = [0, 1, 2] ∧ (brokenElems trace).map (·.call) = [0, 2, 1] ∧
      ∃ rest, executedElems trace ++ rest = pushedElems trace ∧
        rest.Perm (brokenElems trace ++ s.waitingElems) := by
  let start : DispatcherState Nat Nat :=
    ⟨World.create 1 20, [], true, true, .waiting, fun _ => .outside, false⟩
  let sell : Promised Nat := .limit 1 false 7 2 (by decide)
  let sell' : Promised Nat := .limit 2 false 8 2 (by decide)
  have h0 : (dispatcher Nat Nat (World.create 1 20)).Run [] start :=
    .init ⟨rfl, rfl, rfl, rfl, rfl, fun _ => rfl, rfl⟩
  have h1 := h0.step ⟨rfl, .call 0 (.request (.limit true 5 4)) rfl⟩
  have h2 := h1.step ⟨rfl, .push Promised.buy4 rfl⟩
  have h3 := h2.step ⟨rfl, .call 1 (.request (.limit false 7 2)) rfl⟩
  have h4 := h3.step ⟨rfl, .push sell rfl⟩
  have h5 := h4.step ⟨rfl, .call 2 (.request (.limit false 8 2)) rfl⟩
  have h6 := h5.step ⟨rfl, .push sell' rfl⟩
  have h7 := h6.step ⟨rfl, .pop (some Promised.buy4) [some sell, some sell'] rfl rfl⟩
  have h8 := h7.step ⟨rfl, .destroy⟩
  have h9 := h8.step ⟨rfl, .stop rfl⟩
  have h10 := h9.step ⟨rfl, .pushNull rfl⟩
  have h11 := h10.step ⟨rfl, .leave Promised.buy4 rfl rfl⟩
  have h12 := h11.step ⟨rfl, .discard sell' [some sell] [none] rfl rfl⟩
  have h13 := h12.step ⟨rfl, .discard sell [] [none] rfl rfl⟩
  exact ⟨_, _, h13, rfl, rfl, (dispatcher_fifo h13).1⟩

end Queue

end SimpleOrderbook
