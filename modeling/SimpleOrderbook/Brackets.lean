import SimpleOrderbook.Resident

/-!
# The exits of a bracket

The target and the stop loss an entry order opens refer to each other and have one size. A target
that trades in part shrinks its stop before its own size is reduced, and an entry that trades again
grows both. So the stop never is the smaller of the two, and nothing that rests is ever empty.

## Main results

* `Balanced` — the sizes of resting orders, and of exits against each other, also in the middle of
  a window.
* `Balanced.next` — what is to be shown of a transition that keeps it.
-/
namespace SimpleOrderbook

/-! ## Exits and what refers to them -/

/-- The order is an exit of a bracket, linked to exit `i`. -/
def OrderBndl.ExitOf (b : OrderBndl) (i : Nat) : Prop :=
  (b.condition = .bracketActive ∨ b.condition = .trailingBracketActive) ∧
    ∃ link, b.payload = .linkedOrder link ∧ link.id = i

namespace Payload

/-- The stop and the target an entry order has open. -/
def pair : Payload → Option (Nat × Nat)
  | .bracketOrders _ _ active1 active2 => if active1 = 0 then none else some (active1, active2)
  | _ => none

/-- The trailing stop an entry order has open. -/
def follower : Payload → Option Nat
  | .contingentNticksOrder _ active => if active = 0 then none else some active
  | _ => none

/-- The order that waits for this one. -/
def contingent : Payload → Option OrderParamaters
  | .contingentPriceOrder op => some op
  | _ => none

/-- `x` refers to no order that `y` does not refer to. -/
structure Within (x y : Payload) : Prop where
  pair : ∀ i, x.pair = some i → y.pair = some i
  follower : ∀ i, x.follower = some i → y.follower = some i
  contingent : ∀ op, x.contingent = some op → y.contingent = some op

theorem Within.refl (x : Payload) : x.Within x := ⟨fun _ h => h, fun _ h => h, fun _ h => h⟩

theorem Within.of_none {x y : Payload} (h1 : x.pair = none) (h2 : x.follower = none)
    (h3 : x.contingent = none) : x.Within y := by
  refine ⟨fun _ h => ?_, fun _ h => ?_, fun _ h => ?_⟩
  · rw [h1] at h
    cases h
  · rw [h2] at h
    cases h
  · rw [h3] at h
    cases h

end Payload

theorem OrderBndl.Settled.within {b b' : OrderBndl} (h : b.Settled b') :
    b'.payload.Within b.payload := by
  cases h with
  | same => exact .refl _
  | disarmed | spent => exact .of_none rfl rfl rfl
  | bracket h =>
    rw [h]
    exact ⟨fun _ hi => hi, fun _ hi => hi, fun _ hi => hi⟩
  | nticks h =>
    rw [h]
    exact ⟨fun _ hi => hi, fun _ hi => hi, fun _ hi => hi⟩

theorem OrderBndl.Settled.exitOf {b b' : OrderBndl} (h : b.Settled b') {i : Nat} (hi : b'.ExitOf i) :
    b.ExitOf i := by
  obtain ⟨hc, link, hl, rfl⟩ := hi
  cases h with
  | same => exact ⟨hc, link, hl, rfl⟩
  | disarmed | spent | bracket | nticks => cases hl

namespace Flight
variable (F : Flight)

/-- What the order that acts traded, once its other exit was told and until it is reduced itself. -/
def told (q : Kind × Nat) (id : Nat) : Nat :=
  match F.acting with
  | some a => if a.told then F.due q id else 0
  | none => 0

/-- Order `b` in drawer `q` is linked to exit `i`, or its bundle with the handlers is. -/
def Exit (q : Kind × Nat) (b : OrderBndl) (i : Nat) : Prop :=
  b.ExitOf i ∨ ∃ h a, F.hit = some h ∧ F.acting = some a ∧ q = (.limit, h.plev) ∧
    b.id = a.bndl.id ∧ a.bndl.ExitOf i

variable {F}

theorem told_le (q : Kind × Nat) (id : Nat) : F.told q id ≤ F.due q id := by
  unfold told
  split
  · split <;> omega
  · omega

theorem told_of_none (h : F.acting = none) (q : Kind × Nat) (id : Nat) : F.told q id = 0 := by
  unfold told
  rw [h]

theorem told_of_due (q : Kind × Nat) (id : Nat) (h : F.due q id = 0) : F.told q id = 0 := by
  have := told_le (F := F) q id
  omega

theorem exit_of_acting_none (h : F.acting = none) {q : Kind × Nat} {b : OrderBndl} {i : Nat} :
    F.Exit q b i ↔ b.ExitOf i := by
  refine ⟨fun hx => hx.resolve_right ?_, .inl⟩
  rintro ⟨H, a, -, ha, -⟩
  rw [h] at ha
  cases ha

end Flight

/-- The order holds another one to insert. -/
def OrderQueueElem.Holds (e : OrderQueueElem) : Prop :=
  e.condition = .oneCancelsOther ∨ e.condition = .oneTriggersOther

/-! ## What is known of them -/

/-- Order `id` was in the book, and it rests nowhere but in a chain of stops. -/
structure StopOnly (F : Flight) (w : World) (id : Nat) : Prop where
  le : id ≤ w.lastId
  known : id ∉ w.pending F
  stop : ∀ q b, Resident F w q b → b.id = id → q.1 = .stop

/-- Stop `i1` and target `i2` are the exits an entry order refers to. -/
structure PairRef (F : Flight) (w : World) (i1 i2 : Nat) : Prop where
  first : StopOnly F w i1
  le : i2 ≤ w.lastId
  known : i2 ∉ w.pending F
  legs : ∀ l ∈ F.legs, l.id ≠ i2
  exit : ∀ q b i, Resident F w q b → q.1 ≠ .stop → b.id = i2 → F.Exit q b i → i = i1

/-- The orders a union refers to. -/
structure Union (F : Flight) (w : World) (x : Payload) : Prop where
  pair : ∀ i1 i2, x.pair = some (i1, i2) → PairRef F w i1 i2
  follower : ∀ i, x.follower = some i → StopOnly F w i
  contingent : ∀ op, x.contingent = some op → op.size ≠ 0

/-- A target and its stop loss. -/
structure Pairs (F : Flight) (w : World) : Prop where
  stop : ∀ q b i, Resident F w q b → q.1 ≠ .stop → F.Exit q b i → StopOnly F w i
  le : ∀ q b i, Resident F w q b → q.1 ≠ .stop → F.Exit q b i →
    ∀ p, ∀ y ∈ (w.stops p).elems, y.id = i → b.sz ≤ y.sz + F.told q b.id
  one : ∀ q b q' b' i, Resident F w q b → Resident F w q' b' → q.1 ≠ .stop → q'.1 ≠ .stop →
    F.Exit q b i → F.Exit q' b' i → b.id = b'.id

/-- An order that came into the book with the one under insertion has no more than it had then, and
no exit refers to it. -/
structure LegSized (F : Flight) (w : World) (l : Leg) : Prop where
  le : l.id ≤ w.lastId
  known : l.id ∉ w.pending F
  stop : l.type = .stop → StopOnly F w l.id
  sz : ∀ q b, Resident F w q b → b.id = l.id → q.1 ≠ .stop → b.sz ≤ l.sz
  free : ∀ q b i, Resident F w q b → b.id = l.id → q.1 ≠ .stop → ¬ F.Exit q b i

/-- The order whose conditions are run. -/
structure Turn (F : Flight) (w : World) (a : Acting) : Prop where
  amount : a.amount ≠ 0
  le : a.amount ≤ a.bndl.sz
  whole : F.hit = none → a.amount = a.bndl.sz
  union : Union F w a.bndl.payload
  stop : ∀ h i, F.hit = some h → a.bndl.ExitOf i → StopOnly F w i
  one : ∀ h i, F.hit = some h → a.bndl.ExitOf i → ∀ q b, Resident F w q b → q.1 ≠ .stop →
    F.Exit q b i → q = (.limit, h.plev) ∧ b.id = a.bndl.id
  ge : ∀ h i, F.hit = some h → a.bndl.ExitOf i → a.amount ≠ a.bndl.sz → a.told = false →
    ∀ p, ∀ y ∈ (w.stops p).elems, y.id = i → a.bndl.sz ≤ y.sz

/-- Nothing that rests is empty, and the exits of an entry order are balanced. -/
structure Balanced (c : Config) : Prop where
  walks : c.1.Walks
  sized : ∀ q b, Resident c.1 c.2 q b → b.sz ≠ 0
  unions : ∀ q b, Resident c.1 c.2 q b → Union c.1 c.2 b.payload
  pairs : Pairs c.1 c.2
  acting : ∀ a, c.1.acting = some a → Turn c.1 c.2 a
  legs : ∀ l ∈ c.1.legs, LegSized c.1 c.2 l
  exits : ∀ i1 i2, c.1.exits = some (i1, i2) → PairRef c.1 c.2 i1 i2
  queue : ∀ e ∈ c.2.internalOrderQueue, e.sz ≠ 0 ∧ ¬ e.Holds
  cur : ∀ e, c.1.cur = some e → e.sz ≠ 0 ∧ (e.Holds → ∀ op, e.cparams1 = some op → op.size ≠ 0)

/-! ## From one state to the next -/

/-- Order `b` in drawer `q` is what became of `b₀` in `q₀`. The targets in `opened` get their stop,
and the orders in `resized` another size. -/
structure Carries (F : Flight) (w : World) (F' : Flight) (opened resized : List Nat)
    (q₀ : Kind × Nat) (b₀ : OrderBndl) (q : Kind × Nat) (b : OrderBndl) : Prop where
  id : b.id = b₀.id
  stop : q.1 = .stop ↔ q₀.1 = .stop
  place : q = q₀ ∨ F.due q₀ b₀.id = 0
  ne : b.sz ≠ 0
  union : Union F w b.payload
  exit : q.1 ≠ .stop → b.id ∉ opened → ∀ i, F'.Exit q b i → F.Exit q₀ b₀ i
  le : q.1 ≠ .stop → b.id ∉ resized → b.sz ≤ b₀.sz ∧ b.sz + F.told q₀ b₀.id ≤ b₀.sz + F'.told q b.id

/-- Order `b` in drawer `q` is new, and exit of nothing unless it is a stop. -/
structure NewOrder (F : Flight) (w : World) (F' : Flight) (q : Kind × Nat) (b : OrderBndl) : Prop where
  pending : b.id ∈ w.pending F
  ne : b.sz ≠ 0
  union : Union F w b.payload
  exit : q.1 ≠ .stop → ∀ i, ¬ F'.Exit q b i

/-- The orders of the book after a transition come from those before it, or are new. -/
structure Advance (F : Flight) (w : World) (F' : Flight) (w' : World) (opened resized : List Nat) :
    Prop where
  pending : ∀ id ∈ w'.pending F', id ∈ w.pending F ∨ w.lastId < id
  lastId : w.lastId ≤ w'.lastId
  orders : ∀ q b, Resident F' w' q b →
    (∃ q₀ b₀, Resident F w q₀ b₀ ∧ Carries F w F' opened resized q₀ b₀ q b) ∨ NewOrder F w F' q b
  stops : ∀ p, ∀ y ∈ (w'.stops p).elems, (∃ p₀, ∃ y₀ ∈ (w.stops p₀).elems, y₀.id = y.id ∧
    (y.id ∉ resized → y₀.sz ≤ y.sz)) ∨ y.id ∈ w.pending F
  legs : ∀ l ∈ F'.legs, (l.id ∉ opened ∧ (l.id ∈ resized → StopOnly F w l.id)) ∧
    ((∃ l₀ ∈ F.legs, l₀.id = l.id) ∨ l.id ∈ w.pending F)
  opened : ∀ t ∈ opened, ∃ l ∈ F.legs, l.id = t

section Advance
variable {F F' : Flight} {w w' : World} {id i1 i2 : Nat} {x : Payload} {opened resized : List Nat}

/-- A transition in which no target gets a stop, and stops grow at most. -/
theorem Advance.plain (hpending : ∀ id ∈ w'.pending F', id ∈ w.pending F ∨ w.lastId < id)
    (hlastId : w.lastId ≤ w'.lastId)
    (horders : ∀ q b, Resident F' w' q b →
      (∃ q₀ b₀, Resident F w q₀ b₀ ∧ Carries F w F' [] [] q₀ b₀ q b) ∨ NewOrder F w F' q b)
    (hstops : ∀ p, ∀ y ∈ (w'.stops p).elems, (∃ p₀, ∃ y₀ ∈ (w.stops p₀).elems, y₀.id = y.id ∧
      y₀.sz ≤ y.sz) ∨ y.id ∈ w.pending F)
    (hlegs : ∀ l ∈ F'.legs, l ∈ F.legs ∨ l.id ∈ w.pending F) : Advance F w F' w' [] [] := by
  refine ⟨hpending, hlastId, horders, fun p y hy => ?_, fun l hl => ⟨⟨List.not_mem_nil, ?_⟩, ?_⟩,
    fun t ht => by cases ht⟩
  · refine (hstops p y hy).imp_left ?_
    rintro ⟨p₀, y₀, hy₀, hid, hle⟩
    exact ⟨p₀, y₀, hy₀, hid, fun _ => hle⟩
  · exact fun hm => by cases hm
  · exact (hlegs l hl).imp_left fun hl => ⟨l, hl, rfl⟩

theorem Advance.known (ha : Advance F w F' w' opened resized) (hle : id ≤ w.lastId)
    (hn : id ∉ w.pending F) : id ≤ w'.lastId ∧ id ∉ w'.pending F' := by
  refine ⟨hle.trans ha.lastId, fun hm => ?_⟩
  rcases ha.pending id hm with hm | hlt
  · exact hn hm
  · exact absurd hle (not_le.mpr hlt)

theorem StopOnly.next (h : StopOnly F w id) (ha : Advance F w F' w' opened resized) :
    StopOnly F' w' id := by
  obtain ⟨hle, hn⟩ := ha.known h.le h.known
  refine ⟨hle, hn, fun q b hb hid => ?_⟩
  rcases ha.orders q b hb with ⟨q₀, b₀, hb₀, hc⟩ | hf
  · exact hc.stop.mpr (h.stop q₀ b₀ hb₀ (hc.id ▸ hid))
  · exact absurd (hid ▸ hf.pending) h.known

theorem PairRef.next (h : PairRef F w i1 i2) (ha : Advance F w F' w' opened resized) :
    PairRef F' w' i1 i2 := by
  obtain ⟨hle, hn⟩ := ha.known h.le h.known
  refine ⟨h.first.next ha, hle, hn, fun l hl hid => ?_, fun q b i hb hq hid hx => ?_⟩
  · rcases (ha.legs l hl).2 with ⟨l₀, hl₀, hid₀⟩ | hm
    · exact h.legs l₀ hl₀ (hid₀.trans hid)
    · exact h.known (hid ▸ hm)
  · have ht : b.id ∉ opened := fun hm => by
      obtain ⟨l, hl, hlid⟩ := ha.opened b.id hm
      exact h.legs l hl (hlid.trans hid)
    rcases ha.orders q b hb with ⟨q₀, b₀, hb₀, hc⟩ | hf
    · exact h.exit q₀ b₀ i hb₀ (fun hs => hq (hc.stop.mpr hs)) (hc.id ▸ hid) (hc.exit hq ht i hx)
    · exact absurd hx (hf.exit hq i)

theorem Union.next (h : Union F w x) (ha : Advance F w F' w' opened resized) : Union F' w' x :=
  ⟨fun i1 i2 hp => (h.pair i1 i2 hp).next ha, fun i hi => (h.follower i hi).next ha, h.contingent⟩

theorem Union.within {y : Payload} (h : Union F w x) (hy : y.Within x) : Union F w y :=
  ⟨fun i1 i2 hp => h.pair i1 i2 (hy.pair _ hp), fun i hi => h.follower i (hy.follower i hi),
    fun op ho => h.contingent op (hy.contingent op ho)⟩

theorem Union.of_none (h1 : x.pair = none) (h2 : x.follower = none) (h3 : x.contingent = none) :
    Union F w x := by
  refine ⟨fun _ _ h => ?_, fun _ h => ?_, fun _ h => ?_⟩
  · rw [h1] at h
    cases h
  · rw [h2] at h
    cases h
  · rw [h3] at h
    cases h

theorem Union.of_refs_nil (h : x.refs = []) (hno : ∀ op, x ≠ .contingentPriceOrder op) :
    Union F w x := by
  cases x with
  | contingentPriceOrder op => exact absurd rfl (hno op)
  | linkedOrder => cases h
  | contingentNticksOrder params active =>
    refine .of_none rfl ?_ rfl
    unfold Payload.refs at h
    unfold Payload.follower
    dsimp only at h ⊢
    split at h
    next hz => exact if_pos hz
    next => cases h
  | bracketOrders first second active1 active2 =>
    refine .of_none ?_ rfl rfl
    unfold Payload.refs at h
    unfold Payload.pair
    dsimp only at h ⊢
    split at h
    next hz => exact if_pos hz
    next => cases h
  | _ => exact .of_none rfl rfl rfl

theorem LegSized.next {l : Leg} (h : LegSized F w l) (ha : Advance F w F' w' opened resized)
    (hl : l ∈ F'.legs) : LegSized F' w' l := by
  obtain ⟨hle, hn⟩ := ha.known h.le h.known
  obtain ⟨⟨ht, he⟩, -⟩ := ha.legs l hl
  refine ⟨hle, hn, fun hty => (h.stop hty).next ha, fun q b hb hid hq => ?_,
    fun q b i hb hid hq hx => ?_⟩
  · rcases ha.orders q b hb with ⟨q₀, b₀, hb₀, hc⟩ | hf
    · have hq₀ : q₀.1 ≠ .stop := fun hs => hq (hc.stop.mpr hs)
      have hid₀ : b₀.id = l.id := hc.id ▸ hid
      refine (hc.le hq fun hm => ?_).1.trans (h.sz q₀ b₀ hb₀ hid₀ hq₀)
      exact hq₀ ((he (hid ▸ hm)).stop q₀ b₀ hb₀ hid₀)
    · exact absurd (hid ▸ hf.pending) h.known
  · rcases ha.orders q b hb with ⟨q₀, b₀, hb₀, hc⟩ | hf
    · refine h.free q₀ b₀ i hb₀ (hc.id ▸ hid) (fun hs => hq (hc.stop.mpr hs)) ?_
      exact hc.exit hq (hid ▸ ht) i hx
    · exact hf.exit hq i hx

/-- Where a target gets its stop, or a size changes, what is asked of them is to be shown. -/
theorem Pairs.next (h : Pairs F w) (ha : Advance F w F' w' opened resized)
    (hopened : ∀ q b i, Resident F' w' q b → q.1 ≠ .stop → F'.Exit q b i → b.id ∈ opened →
      StopOnly F' w' i ∧ (∀ p, ∀ y ∈ (w'.stops p).elems, y.id = i → b.sz ≤ y.sz + F'.told q b.id) ∧
      ∀ q' b', Resident F' w' q' b' → q'.1 ≠ .stop → F'.Exit q' b' i → b'.id = b.id)
    (hresized : ∀ q b i, Resident F' w' q b → q.1 ≠ .stop → F'.Exit q b i →
      b.id ∈ resized ∨ i ∈ resized →
      ∀ p, ∀ y ∈ (w'.stops p).elems, y.id = i → b.sz ≤ y.sz + F'.told q b.id) : Pairs F' w' := by
  -- where the exit was before
  have hold : ∀ q b i, Resident F' w' q b → q.1 ≠ .stop → F'.Exit q b i → b.id ∉ opened →
      ∃ q₀ b₀, Resident F w q₀ b₀ ∧ Carries F w F' opened resized q₀ b₀ q b ∧ q₀.1 ≠ .stop ∧
        F.Exit q₀ b₀ i := fun q b i hb hq hx ht => by
    rcases ha.orders q b hb with ⟨q₀, b₀, hb₀, hc⟩ | hf
    · exact ⟨q₀, b₀, hb₀, hc, fun hs => hq (hc.stop.mpr hs), hc.exit hq ht i hx⟩
    · exact absurd hx (hf.exit hq i)
  refine ⟨fun q b i hb hq hx => ?_, fun q b i hb hq hx p y hy hid => ?_,
    fun q b q' b' i hb hb' hq hq' hx hx' => ?_⟩
  · by_cases ht : b.id ∈ opened
    · exact (hopened q b i hb hq hx ht).1
    · obtain ⟨q₀, b₀, hb₀, -, hq₀, hx₀⟩ := hold q b i hb hq hx ht
      exact (h.stop q₀ b₀ i hb₀ hq₀ hx₀).next ha
  · by_cases ht : b.id ∈ opened
    · exact (hopened q b i hb hq hx ht).2.1 p y hy hid
    by_cases he : b.id ∈ resized ∨ i ∈ resized
    · exact hresized q b i hb hq hx he p y hy hid
    obtain ⟨hbe, hie⟩ := not_or.mp he
    obtain ⟨q₀, b₀, hb₀, hc, hq₀, hx₀⟩ := hold q b i hb hq hx ht
    rcases ha.stops p y hy with ⟨p₀, y₀, hy₀, hid₀, hle⟩ | hm
    · have := h.le q₀ b₀ i hb₀ hq₀ hx₀ p₀ y₀ hy₀ (hid₀.trans hid)
      have := (hc.le hq hbe).2
      have := hle (hid ▸ hie)
      omega
    · exact absurd (hid ▸ hm) (h.stop q₀ b₀ i hb₀ hq₀ hx₀).known
  · by_cases ht : b.id ∈ opened
    · exact ((hopened q b i hb hq hx ht).2.2 q' b' hb' hq' hx').symm
    by_cases ht' : b'.id ∈ opened
    · exact (hopened q' b' i hb' hq' hx' ht').2.2 q b hb hq hx
    obtain ⟨q₀, b₀, hb₀, hc, hq₀, hx₀⟩ := hold q b i hb hq hx ht
    obtain ⟨q₀', b₀', hb₀', hc', hq₀', hx₀'⟩ := hold q' b' i hb' hq' hx' ht'
    rw [hc.id, hc'.id]
    exact h.one q₀ b₀ q₀' b₀' i hb₀ hb₀' hq₀ hq₀' hx₀ hx₀'

/-- Targets and stops that nobody opens or resizes are as they were. -/
theorem Pairs.carried (h : Pairs F w) (ha : Advance F w F' w' [] []) : Pairs F' w' :=
  h.next ha (fun _ _ _ _ _ _ hm => absurd hm List.not_mem_nil)
    fun _ _ _ _ _ _ hm => absurd hm (by simp)

/-- The same order acts after the transition. -/
theorem Turn.next {a a' : Acting} (h : Turn F w a) (hadv : Advance F w F' w' [] resized)
    (ha : F.acting = some a) (hbndl : a'.bndl = a.bndl) (hamount : a'.amount = a.amount)
    (hhit : ∀ H', F'.hit = some H' → ∃ H, F.hit = some H ∧ H.plev = H'.plev)
    (hnone : F'.hit = none → F.hit = none)
    (htold : a'.told = false → a.told = false ∧ ∀ i, a.bndl.ExitOf i → i ∉ resized) :
    Turn F' w' a' := by
  refine ⟨hamount ▸ h.amount, hamount ▸ hbndl ▸ h.le, fun hn => ?_, hbndl ▸ h.union.next hadv,
    fun H' i hH' hx => ?_, fun H' i hH' hx q b hb hq hxb => ?_,
    fun H' i hH' hx hne ht p y hy hid => ?_⟩
  · rw [hamount, hbndl]
    exact h.whole (hnone hn)
  · obtain ⟨H, hH, -⟩ := hhit H' hH'
    exact (h.stop H i hH (hbndl ▸ hx)).next hadv
  · obtain ⟨H, hH, hp⟩ := hhit H' hH'
    rw [hbndl] at hx ⊢
    rcases hadv.orders q b hb with ⟨q₀, b₀, hb₀, hc⟩ | hf
    · obtain ⟨rfl, hid⟩ := h.one H i hH hx q₀ b₀ hb₀ (fun hs => hq (hc.stop.mpr hs))
        (hc.exit hq List.not_mem_nil i hxb)
      refine ⟨?_, hc.id.trans hid⟩
      -- it cannot leave the drawer before it is reduced
      rcases hc.place with hq | hdue
      · rw [hq, hp]
      · rw [Flight.due_of_some hH ha, if_pos ⟨rfl, hid.symm⟩] at hdue
        exact absurd hdue h.amount
    · exact absurd hxb (hf.exit hq i)
  · obtain ⟨H, hH, -⟩ := hhit H' hH'
    obtain ⟨ht, hres⟩ := htold ht
    rw [hbndl] at hx hne ⊢
    rw [hamount] at hne
    rcases hadv.stops p y hy with ⟨p₀, y₀, hy₀, hid₀, hle⟩ | hm
    · exact (h.ge H i hH hx hne ht p₀ y₀ hy₀ (hid₀.trans hid)).trans (hle (hid ▸ hres i hx))
    · exact absurd (hid ▸ hm) (h.stop H i hH hx).known

theorem Balanced.next (h : Balanced (F, w)) (ha : Advance F w F' w' opened resized)
    (hwalks : F'.Walks) (hpairs : Pairs F' w')
    (hacting : ∀ a, F'.acting = some a → Turn F' w' a)
    (hlegs : ∀ l ∈ F'.legs, l ∈ F.legs ∨ LegSized F' w' l)
    (hexits : ∀ i1 i2, F'.exits = some (i1, i2) → F.exits = some (i1, i2) ∨ PairRef F' w' i1 i2)
    (hqueue : ∀ e ∈ w'.internalOrderQueue, e ∈ w.internalOrderQueue ∨ e.sz ≠ 0 ∧ ¬ e.Holds)
    (hcur : ∀ e, F'.cur = some e → F.cur = some e ∨
      e.sz ≠ 0 ∧ (e.Holds → ∀ op, e.cparams1 = some op → op.size ≠ 0)) : Balanced (F', w') := by
  refine ⟨hwalks, fun q b hb => ?_, fun q b hb => ?_, hpairs, hacting, fun l hl => ?_,
    fun i1 i2 hx => ?_, fun e he => ?_, fun e he => ?_⟩
  · rcases ha.orders q b hb with ⟨_, _, -, hc⟩ | hf
    · exact hc.ne
    · exact hf.ne
  · rcases ha.orders q b hb with ⟨_, _, -, hc⟩ | hf
    · exact hc.union.next ha
    · exact hf.union.next ha
  · exact (hlegs l hl).elim (fun hl₀ => (h.legs l hl₀).next ha hl) id
  · exact (hexits i1 i2 hx).elim (fun hx₀ => (h.exits i1 i2 hx₀).next ha) id
  · exact (hqueue e he).elim (h.queue e) id
  · exact (hcur e he).elim (h.cur e) id

end Advance

end SimpleOrderbook
