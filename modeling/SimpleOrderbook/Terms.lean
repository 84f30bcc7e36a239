import SimpleOrderbook.AonSides
import SimpleOrderbook.Keeping

/-!
# The terms of the orders

A bundle in a chain has no limit: while an order rests, its id, its side and its level are all the
engine knows of its terms. `Terms` says what these are for the orders accepted so far, and `Priced`
that the chains and the trades agree with it. It holds between any two steps of the engine, in the
middle of a call, too.

## Main definitions

* `Terms` — the orders accepted up to some call, and the ids they and others go by.
* `Priced` — who rests does so on its own terms, and nobody traded on others.
* `Thins` — orders leave the book, or nothing happens to them.
-/
namespace SimpleOrderbook

open Hoare

/-! ## Terms -/

/-- `e` may trade at that price. -/
def OrderQueueElem.Allows (e : OrderQueueElem) (price : Int) : Prop :=
  if e.isBuy then price ≤ e.limit else e.limit ≤ price

/-- A sell order by that id was copied to the AON chains. -/
def SellCopied (trace : List Event) (id : Nat) : Prop :=
  ∃ s p b buyLimit, .copyBndlToAonChain s p b buyLimit ∈ trace ∧ b.side = false ∧ b.id = id

/-- Order `k.1` of side `k.2` is on its side, or it is a sell order that was copied to the other. -/
def RightSide (trace : List Event) (buys : Bool) (k : Nat × Bool) : Prop :=
  k.2 = buys ∨ k.2 = false ∧ SellCopied trace k.1

section Later
variable {trace trace' : List Event} {buys : Bool} {k : Nat × Bool} {id : Nat}

theorem SellCopied.later (h : SellCopied trace id) (hsub : trace ⊆ trace') : SellCopied trace' id := by
  obtain ⟨s, p, b, buyLimit, hm, hb⟩ := h
  exact ⟨s, p, b, buyLimit, hsub hm, hb⟩

theorem RightSide.later (h : RightSide trace buys k) (hsub : trace ⊆ trace') : RightSide trace' buys k :=
  h.imp_right fun ⟨hside, hcopy⟩ => ⟨hside, hcopy.later hsub⟩

end Later

structure Terms where
  /-- The price of each level. -/
  price : Nat → Int
  accepted : OrderQueueElem → Prop
  /-- The ids that are taken, by an accepted order or by the second leg of one. -/
  known : Nat → Prop
  known_of_accepted : ∀ e, accepted e → known e.id
  /-- The order under insertion, if it is still at the front of the internal queue. -/
  front : Option Nat
  /-- The ids that are generated and not given to an order yet. -/
  spare : Nat → Prop
  /-- The calls made up to some earlier point. -/
  past : List Event

namespace Terms
variable {T : Terms} {id : Nat} {P Q : OrderQueueElem → Prop}

/-- The id is taken, and if a limit order was accepted under it, that one has `P`. -/
def Each (T : Terms) (id : Nat) (P : OrderQueueElem → Prop) : Prop :=
  T.known id ∧ ∀ e, T.accepted e → e.type = .limit → e.id = id → P e

/-- Order `k.1` of side `k.2` belongs at level `p`. -/
def Rests (T : Terms) (p : Nat) (k : Nat × Bool) : Prop :=
  T.Each k.1 fun e => T.price p = e.limit ∧ k.2 = e.isBuy

/-- Order `id` may trade at that price as the order that is hit. -/
def Makes (T : Terms) (id : Nat) (price : Int) : Prop := T.Each id fun e => price = e.limit

/-- Order `id` may trade at that price as the order that comes in, unless it is a sell order that was
copied to the AON chains. -/
def Takes (T : Terms) (trace : List Event) (id : Nat) (price : Int) : Prop :=
  T.Each id fun e => e.Allows price ∨ e.isBuy = false ∧ SellCopied trace id

theorem Each.mono (h : T.Each id P) (hPQ : ∀ e, P e → Q e) : T.Each id Q :=
  ⟨h.1, fun e he hl hid => hPQ e (h.2 e he hl hid)⟩

theorem Takes.later {trace trace' : List Event} {price : Int} (h : T.Takes trace id price)
    (hsub : trace ⊆ trace') : T.Takes trace' id price :=
  h.mono fun _ he => he.imp_right fun ⟨hside, hcopy⟩ => ⟨hside, hcopy.later hsub⟩

def since (T : Terms) (trace : List Event) : Terms := { T with past := trace }

/-- `id` is generated. -/
def give (T : Terms) (id : Nat) : Terms := { T with spare := fun i => T.spare i ∨ i = id }

/-- `id` is given to an order that is not accepted by itself. -/
def take (T : Terms) (id : Nat) : Terms :=
  { T with
    known := fun i => T.known i ∨ i = id
    known_of_accepted := fun e he => .inl (T.known_of_accepted e he)
    spare := fun i => T.spare i ∧ i ≠ id }

/-- `e` is accepted. -/
def accept (T : Terms) (e : OrderQueueElem) (front : Option Nat) : Terms :=
  { T with
    accepted := fun e' => T.accepted e' ∨ e' = e
    known := fun i => T.known i ∨ i = e.id
    known_of_accepted := fun e' he => he.imp (T.known_of_accepted e') (congrArg OrderQueueElem.id)
    front := front
    spare := fun i => T.spare i ∧ i ≠ e.id }

/-- No order is under insertion. -/
def idle (T : Terms) : Terms := { T with front := none, spare := fun _ => False }

/-- `e` may be inserted: it is what goes by its id. -/
def Owns (T : Terms) (e : OrderQueueElem) : Prop :=
  T.Each e.id fun e' => e.type = .limit ∧ e'.limit = e.limit ∧ e'.isBuy = e.isBuy

theorem Each.take (h : T.Each id P) (i : Nat) : (T.take i).Each id P := ⟨Or.inl h.1, h.2⟩

theorem Each.accept (h : T.Each id P) {e : OrderQueueElem} (hnew : ¬ T.known e.id)
    (front : Option Nat) : (T.accept e front).Each id P := by
  refine ⟨Or.inl h.1, fun e' he hl hid => ?_⟩
  rcases he with he | rfl
  · exact h.2 e' he hl hid
  · exact absurd (hid ▸ h.1) hnew

/-- Nothing was accepted under a new id. -/
theorem owns_take {e : OrderQueueElem} (hnew : ¬ T.known e.id) : (T.take e.id).Owns e :=
  ⟨Or.inr rfl, fun e' he _ hid => absurd (hid ▸ T.known_of_accepted e' he) hnew⟩

theorem owns_accept {e : OrderQueueElem} (hnew : ¬ T.known e.id) (front : Option Nat) :
    (T.accept e front).Owns e := by
  refine ⟨Or.inr rfl, fun e' he hl hid => ?_⟩
  rcases he with he | rfl
  · exact absurd (hid ▸ T.known_of_accepted e' he) hnew
  · exact ⟨hl, rfl, rfl⟩

end Terms

/-! ## The ids -/

/-- Of the ids up to `lastId`, those of the queue are not taken yet, but for the one in front that is
under insertion; the spare ones are neither. -/
structure Numbers (T : Terms) (lastId : Nat) (queued : List Nat) : Prop where
  known : ∀ id, T.known id → id ≤ lastId ∧ (id ∈ queued → T.front = some id)
  spare : ∀ id, T.spare id → id ≤ lastId ∧ ¬ T.known id ∧ id ∉ queued
  queued_le : ∀ id ∈ queued, id ≤ lastId
  nodup : queued.Nodup
  front : ∀ id, T.front = some id → queued.head? = some id

namespace Numbers
variable {T : Terms} {lastId id : Nat} {queued : List Nat}

theorem generated (h : Numbers T lastId queued) : Numbers (T.give (lastId + 1)) (lastId + 1) queued := by
  have hlt : ∀ id, T.known id ∨ id ∈ queued → id < lastId + 1 := fun id hid =>
    Nat.lt_succ_of_le (hid.elim (fun hk => (h.known id hk).1) (h.queued_le id))
  refine ⟨fun id hk => ⟨(hlt id (.inl hk)).le, (h.known id hk).2⟩, fun id hs => ?_,
    fun id hm => (hlt id (.inr hm)).le, h.nodup, h.front⟩
  rcases hs with hs | rfl
  · obtain ⟨hle, hn⟩ := h.spare id hs
    exact ⟨hle.trans (Nat.le_succ _), hn⟩
  · exact ⟨le_rfl, fun hk => (hlt _ (.inl hk)).ne rfl, fun hm => (hlt _ (.inr hm)).ne rfl⟩

/-- The spare id is queued. -/
theorem enqueued (h : Numbers (T.give id) lastId queued) (hold : ∀ i, T.spare i → i ≠ id) :
    Numbers T lastId (queued ++ [id]) := by
  obtain ⟨hle, hnew, hn⟩ := h.spare id (.inr rfl)
  have hmem : ∀ {i}, i ∈ queued ++ [id] → i ∈ queued ∨ i = id := fun hm => by simpa using hm
  refine ⟨fun i hk => ⟨(h.known i hk).1, fun hm => ?_⟩, fun i hs => ?_, fun i hm => ?_, ?_,
    fun i hf => ?_⟩
  · rcases hmem hm with hm | rfl
    · exact (h.known i hk).2 hm
    · exact absurd hk hnew
  · obtain ⟨hle, hk, hm⟩ := h.spare i (.inl hs)
    exact ⟨hle, hk, fun hin => (hmem hin).elim hm (hold i hs)⟩
  · rcases hmem hm with hm | rfl
    · exact h.queued_le i hm
    · exact hle
  · exact List.nodup_append_comm.mp (List.nodup_cons.mpr ⟨hn, h.nodup⟩)
  · rw [List.head?_append, h.front i hf]
    rfl

/-- The spare id is taken. -/
theorem taken (h : Numbers (T.give id) lastId queued) : Numbers (T.take id) lastId queued := by
  obtain ⟨hle, hnew, hn⟩ := h.spare id (.inr rfl)
  refine ⟨fun i hk => ?_, fun i hs => ?_, h.queued_le, h.nodup, h.front⟩
  · rcases hk with hk | rfl
    · exact h.known i hk
    · exact ⟨hle, fun hm => absurd hm hn⟩
  · obtain ⟨hle, hk, hm⟩ := h.spare i (.inl hs.1)
    exact ⟨hle, fun hk' => hk'.elim hk hs.2, hm⟩

theorem acceptance (h : Numbers T lastId queued) {e : OrderQueueElem} {front : Option Nat}
    (hle : e.id ≤ lastId) (hid : e.id ∈ queued → front = some e.id)
    (hold : ∀ i, T.front = some i → front = some i)
    (hhead : ∀ i, front = some i → queued.head? = some i) :
    Numbers (T.accept e front) lastId queued := by
  refine ⟨fun i hk => ?_, fun i hs => ?_, h.queued_le, h.nodup, hhead⟩
  · rcases hk with hk | rfl
    · exact ⟨(h.known i hk).1, fun hm => hold i ((h.known i hk).2 hm)⟩
    · exact ⟨hle, hid⟩
  · obtain ⟨hle, hk, hm⟩ := h.spare i hs.1
    exact ⟨hle, fun hk' => hk'.elim hk hs.2, hm⟩

/-- Whether or not the order under insertion was one of the queue, none of the rest is known. -/
theorem dequeued (h : Numbers T lastId queued) : Numbers T.idle lastId queued.tail := by
  refine ⟨fun i hk => ⟨(h.known i hk).1, fun hm => ?_⟩, fun _ hs => hs.elim,
    fun i hm => h.queued_le i (List.mem_of_mem_tail hm), h.nodup.tail, fun _ hf => by cases hf⟩
  -- the known one was at the front
  obtain ⟨ids, rfl⟩ := List.head?_eq_some_iff.mp (h.front i ((h.known i hk).2 (List.mem_of_mem_tail hm)))
  exact absurd hm (List.nodup_cons.mp h.nodup).1

theorem dropped (h : Numbers T lastId queued) : Numbers T.idle lastId [] :=
  ⟨fun i hk => ⟨(h.known i hk).1, fun hm => by cases hm⟩, fun _ hs => hs.elim,
    fun _ hm => (by cases hm), List.nodup_nil, fun _ hf => by cases hf⟩

end Numbers

/-! ## The invariant -/

def Sob.queuedIds (s : Sob) : List Nat := s.internalOrderQueue.map (·.id)

/-- The chains and the trades agree with the terms. -/
structure Priced (T : Terms) (w : World) : Prop where
  price : ∀ p : Nat, w.base + ((p : Int) - beg) = T.price p
  past : T.past ⊆ w.trace
  accepted : ∀ e, .insertOrder e ∈ w.trace → T.accepted e
  rests : ∀ p k, w.Lies p k → T.Rests p k
  aons : ∀ buys p k, w.InAons buys p k → RightSide w.trace buys k
  traded : ∀ price plev size id1 id2, .trade price plev size id1 id2 ∈ w.trace → beg ≤ plev →
    T.Takes w.trace id1 price ∧ T.Makes id2 price
  ids : Numbers T w.lastId w.queuedIds

/-- No order comes into a chain of limit orders or AONs, and nothing is queued. -/
structure Thins (s s' : Sob) : Prop where
  base : s'.base = s.base
  lies : ∀ p k, s'.Lies p k → s.Lies p k
  aons : ∀ buys p k, s'.InAons buys p k → s.InAons buys p k
  lastId : s'.lastId = s.lastId
  queue : s'.internalOrderQueue = s.internalOrderQueue

theorem Drifts.thins {s s' : Sob} (h : Drifts s s') (hlast : s'.lastId = s.lastId)
    (hq : s'.internalOrderQueue = s.internalOrderQueue) : Thins s s' :=
  ⟨h.base, fun _ _ => h.lies, h.aons, hlast, hq⟩

/-- The chains, the ids and the queue are as before. -/
structure Still (s s' : Sob) : Prop where
  base : s'.base = s.base
  book : s'.book = s.book
  lastId : s'.lastId = s.lastId
  queue : s'.internalOrderQueue = s.internalOrderQueue

theorem Still.thins {s s' : Sob} (h : Still s s') : Thins s s' := by
  have hl : s'.limits = s.limits := by
    unfold Sob.limits
    rw [h.book]
  have ha : s'.aons = s.aons := by
    unfold Sob.aons
    rw [h.book]
  have haons : s'.InAons = s.InAons := by
    unfold Sob.InAons
    rw [ha]
  refine ⟨h.base, fun p k hk => ?_, fun buys p k hk => haons ▸ hk, h.lastId, h.queue⟩
  unfold Sob.Lies Sob.InLimits at hk ⊢
  rwa [hl, haons] at hk

theorem Thins.trans {s s' s'' : Sob} (h : Thins s s') (h' : Thins s' s'') : Thins s s'' :=
  ⟨h'.base.trans h.base, fun p k hk => h.lies p k (h'.lies p k hk),
    fun buys p k hk => h.aons buys p k (h'.aons buys p k hk), h'.lastId.trans h.lastId,
    h'.queue.trans h.queue⟩

theorem queuedIds_of_queue {s s' : Sob} (h : s'.internalOrderQueue = s.internalOrderQueue) :
    s'.queuedIds = s.queuedIds := by
  unfold Sob.queuedIds
  rw [h]

/-! ### Updates of the pointers and the cache -/

section Stills
variable (s : Sob)

theorem still_findNewBestInside (bidSide : Bool) : Still s (Exec.Core.findNewBestInside bidSide s) := by
  obtain ⟨_, _, _, _, h⟩ := Exec.Core.findNewBestInside_eq bidSide s
  rw [h]
  exact ⟨rfl, rfl, rfl, rfl⟩

theorem still_limitPulled (bidSide : Bool) (p : Nat) : Still s (Exec.Limit.adjustStateAfterPull bidSide s p) := by
  obtain ⟨_, _, _, _, h⟩ := Exec.Limit.adjustStateAfterPull_eq bidSide s p
  rw [h]
  exact ⟨rfl, rfl, rfl, rfl⟩

theorem still_aonPulled (bidSide : Bool) (p : Nat) : Still s (Exec.Aon.adjustStateAfterPull bidSide s p) := by
  obtain ⟨_, _, _, _, h⟩ := Exec.Aon.adjustStateAfterPull_eq bidSide s p
  rw [h]
  exact ⟨rfl, rfl, rfl, rfl⟩

theorem still_stopPulled (buyStop : Bool) (p : Nat) : Still s (Exec.Stop.adjustStateAfterPull buyStop s p) := by
  obtain ⟨_, _, _, _, h⟩ := Exec.Stop.adjustStateAfterPull_eq buyStop s p
  rw [h]
  exact ⟨rfl, rfl, rfl, rfl⟩

theorem still_stopTriggered (buyStop : Bool) (p : Nat) : Still s (Exec.Stop.adjustStateAfterTrigger buyStop s p) := by
  obtain ⟨_, _, _, _, h⟩ := Exec.Stop.adjustStateAfterTrigger_eq buyStop s p
  rw [h]
  exact ⟨rfl, rfl, rfl, rfl⟩

theorem still_cacheErase (id : Nat) : Still s (s.cacheErase id) := ⟨rfl, rfl, rfl, rfl⟩

theorem still_trailing (id : Nat) (isBuy : Bool) :
    Still s (s.trailingErased id isBuy) ∧ Still s (s.trailingInserted id isBuy) := by
  unfold Sob.trailingErased Sob.trailingInserted
  cases isBuy <;> exact ⟨⟨rfl, rfl, rfl, rfl⟩, rfl, rfl, rfl, rfl⟩

end Stills

namespace Priced
variable {T : Terms} {w w' : World}

/-- The book is rewritten. -/
theorem onSob (h : Priced T w) {f : Sob → Sob} (hbase : (f w.toSob).base = w.base)
    (hrests : ∀ p k, (f w.toSob).Lies p k → w.Lies p k ∨ T.Rests p k)
    (haons : ∀ buys p k, (f w.toSob).InAons buys p k →
      w.InAons buys p k ∨ RightSide w.trace buys k)
    (hlast : (f w.toSob).lastId = w.lastId)
    (hq : (f w.toSob).internalOrderQueue = w.internalOrderQueue) : Priced T (w.onSob f) := by
  refine ⟨fun p => hbase ▸ h.price p, h.past, h.accepted,
    fun p k hk => (hrests p k hk).elim (h.rests p k) fun hr => hr, fun buys p k hk => ?_,
    h.traded, ?_⟩
  · exact (haons buys p k hk).elim (h.aons buys p k) fun hs => hs
  · have hids := h.ids
    rwa [← hlast, ← queuedIds_of_queue hq] at hids

theorem thins (h : Priced T w) {f : Sob → Sob} (hs : Thins w.toSob (f w.toSob)) :
    Priced T (w.onSob f) :=
  h.onSob hs.base (fun p k hk => .inl (hs.lies p k hk)) (fun buys p k hk => .inl (hs.aons buys p k hk))
    hs.lastId hs.queue

/-- A call is made; a trade keeps to the terms. -/
theorem log (h : Priced T w) {ev : Event} (hins : ∀ e, ev = .insertOrder e → T.accepted e)
    (htrade : ∀ price plev size id1 id2, ev = .trade price plev size id1 id2 → beg ≤ plev →
      T.Takes w.trace id1 price ∧ T.Makes id2 price) : Priced T (w.log ev) := by
  have hsub : w.trace ⊆ (w.log ev).trace := List.subset_cons_self ev w.trace
  refine ⟨h.price, fun _ hm => hsub (h.past hm), fun e he => ?_, h.rests,
    fun buys p k hk => (h.aons buys p k hk).later hsub, fun price plev size id1 id2 hm hon => ?_, h.ids⟩
  · rcases List.mem_cons.mp he with heq | he
    · exact hins e heq.symm
    · exact h.accepted e he
  · have hold : T.Takes w.trace id1 price ∧ T.Makes id2 price := by
      rcases List.mem_cons.mp hm with heq | hm
      · exact htrade price plev size id1 id2 heq.symm hon
      · exact h.traded price plev size id1 id2 hm hon
    exact hold.imp_left fun ht => ht.later hsub

theorem unrecorded (h : Priced T w) (ev : Event) (hev : ev.Unrecorded) : Priced T (w.log ev) := by
  refine h.log (fun e heq => ?_) fun _ _ _ _ _ heq _ => ?_ <;> rw [heq] at hev <;> exact hev.elim

theorem report (h : Priced T w) (msg : CallbackMsg) (cb : OrderExecCbBndl) (id1 id2 : Nat)
    (price : Int) (sz : Nat) : Priced T (w.report msg cb id1 id2 price sz) := by
  have hlog : Priced T (w.log (.callback msg cb id1 id2 price sz)) :=
    h.log (fun _ heq => by cases heq) fun _ _ _ _ _ heq => by cases heq
  refine hlog.thins ?_
  obtain ⟨_, _, heq⟩ := w.pushDfrdCb_eq cb fun f => ⟨msg, f, id1, id2, price, sz⟩
  rw [World.toSob_log, heq]
  exact Still.thins ⟨rfl, rfl, rfl, rfl⟩

theorem traded_at (h : Priced T w) {plev n id1 id2 : Nat} (cb1 cb2 : OrderExecCbBndl)
    (htake : T.Takes w.trace id1 (T.price plev)) (hmake : T.Makes id2 (T.price plev)) :
    Priced T (w.traded plev n id1 id2 cb1 cb2) := by
  have hlog := (h.report .fill cb1 id1 id1 (w.itop plev) n).report .fill cb2 id2 id2 (w.itop plev) n
  unfold World.traded
  refine thins (log hlog (fun _ heq => by cases heq) fun _ _ _ _ _ heq hon => ?_) (Still.thins ⟨rfl, rfl, rfl, rfl⟩)
  cases heq
  rw [w.itop_of_beg_le hon, h.price plev]
  refine ⟨htake.later fun ev hm => ?_, hmake⟩
  rw [trace_report, trace_report]
  exact List.mem_cons_of_mem _ (List.mem_cons_of_mem _ hm)

/-- The orders of a chain are replaced. -/
theorem setLimits (h : Priced T w) {p : Nat} {c : ChainManager LimitBndl}
    (hc : ∀ x ∈ c.elems, T.Rests p (x.id, x.side)) : Priced T (w.onSob (·.setLimits p c)) := by
  have haons : ∀ buys q k, (w.setLimits p c).InAons buys q k → w.InAons buys q k := by
    intro buys q k hk
    unfold Sob.InAons at hk ⊢
    rwa [Sob.aons_setLimits] at hk
  refine h.onSob rfl (fun q k hk => ?_) (fun buys q k hk => .inl (haons buys q k hk)) rfl rfl
  rcases hk with ⟨x, hx, rfl⟩ | ⟨buys, hk⟩
  · rw [Sob.limits_setLimits] at hx
    split at hx
    next hq => exact .inr (hq ▸ hc x hx)
    next => exact .inl (.inl ⟨x, hx, rfl⟩)
  · exact .inl (.inr ⟨buys, haons buys q k hk⟩)

theorem setAons (h : Priced T w) {buys : Bool} {p : Nat} {c : ChainManager AonBndl}
    (hc : ∀ x ∈ c.elems, T.Rests p (x.id, x.side) ∧ RightSide w.trace buys (x.id, x.side)) :
    Priced T (w.onSob (·.setAons buys p c)) := by
  have haons : ∀ buys' q k, (w.setAons buys p c).InAons buys' q k →
      w.InAons buys' q k ∨ T.Rests q k ∧ RightSide w.trace buys' k := by
    rintro buys' q k ⟨x, hx, rfl⟩
    rw [Sob.aons_setAons] at hx
    split at hx
    next heq =>
      obtain ⟨rfl, rfl⟩ := heq
      exact .inr (hc x hx)
    next => exact .inl ⟨x, hx, rfl⟩
  refine h.onSob rfl (fun q k hk => ?_)
    (fun buys' q k hk => (haons buys' q k hk).imp_right (·.2)) rfl rfl
  rcases hk with hk | ⟨buys', hk⟩
  · refine .inl (.inl ?_)
    unfold Sob.InLimits at hk ⊢
    rwa [Sob.limits_setAons] at hk
  · exact (haons buys' q k hk).imp (fun hk => .inr ⟨buys', hk⟩) (·.1)

/-- An order comes into the book on its terms. -/
theorem admits (h : Priced T w) {ty : IType} {p id : Nat} {side : Bool} {f : Sob → Sob}
    (ha : Admits w.toSob (f w.toSob) ty p id side) (hr : T.Rests p (id, side))
    (hlast : (f w.toSob).lastId = w.lastId)
    (hq : (f w.toSob).internalOrderQueue = w.internalOrderQueue) : Priced T (w.onSob f) := by
  refine h.onSob ha.base (fun q k hk => ?_) (fun buys q k hk => ?_) hlast hq
  · rcases ha.lies hk with hk | ⟨-, rfl, rfl⟩
    · exact .inl hk
    · exact .inr hr
  · rcases ha.aons buys q k hk with hk | ⟨-, hbuys, -, rfl⟩
    · exact .inl hk
    · exact .inr (.inl hbuys.symm)

/-- Order `b` is copied to the AON buy orders of its level. -/
theorem copied (h : Priced T w) {p : Nat} {b : LimitBndl} {c : ChainIterWrap} (buyLimit : Bool)
    (hb : T.Rests p (b.id, b.side)) : Priced T
      ((w.log (.copyBndlToAonChain w.toSob p b buyLimit)).onSob (·.copiedToAons buyLimit p b c)) := by
  have hlog := h.unrecorded (.copyBndlToAonChain w.toSob p b buyLimit) trivial
  have hv := bookView_copiedToAons w.toSob buyLimit p b c
  refine hlog.onSob (base_of_grid (grid_of_bookView hv)) (fun q k hk => ?_) (fun buys q k hk => ?_)
    (lastId_of_bookView hv) (queue_of_bookView hv)
  · rcases hk with hk | ⟨buys, hk⟩
    · exact .inl (.inl (inLimits_copiedToAons.mp hk))
    · rcases inAons_copiedToAons hk with hk | ⟨rfl, -, rfl⟩
      · exact .inl (.inr ⟨buys, hk⟩)
      · exact .inr hb
  · rcases inAons_copiedToAons hk with hk | ⟨-, rfl, rfl⟩
    · exact .inl hk
    · cases hside : b.side with
      | true => exact .inr (.inl rfl)
      | false => exact .inr (.inr ⟨rfl, _, p, b, buyLimit, List.mem_cons_self, hside, rfl⟩)

/-! ### Ids -/

theorem since (h : Priced T w) : Priced (T.since w.trace) w :=
  ⟨h.price, fun _ hm => hm, h.accepted, h.rests, h.aons, h.traded,
    ⟨h.ids.known, h.ids.spare, h.ids.queued_le, h.ids.nodup, h.ids.front⟩⟩

theorem before (h : Priced T w) (h' : Priced (T.since w.trace) w') : Priced T w' :=
  ⟨h'.price, fun _ hm => h'.past (h.past hm), h'.accepted, h'.rests, h'.aons, h'.traded,
    ⟨h'.ids.known, h'.ids.spare, h'.ids.queued_le, h'.ids.nodup, h'.ids.front⟩⟩

theorem generated (h : Priced T w) :
    Priced (T.give (w.lastId + 1)) (w.onSob fun s => { s with lastId := s.lastId + 1 }) :=
  ⟨h.price, h.past, h.accepted, h.rests, h.aons, h.traded, h.ids.generated⟩

/-- A generated id may be left unused. -/
theorem ungive {id : Nat} (h : Priced (T.give id) w) : Priced T w :=
  ⟨h.price, h.past, h.accepted, h.rests, h.aons, h.traded,
    ⟨h.ids.known, fun i hi => h.ids.spare i (.inl hi), h.ids.queued_le, h.ids.nodup, h.ids.front⟩⟩

/-- An order with a generated id is queued. -/
theorem enqueued {e : OrderQueueElem} (h : Priced (T.give e.id) w)
    (hold : ∀ i, T.spare i → i ≠ e.id) :
    Priced T ((w.log (.pushInternalOrder e)).onSob fun s =>
      { s with internalOrderQueue := s.internalOrderQueue ++ [e] }) := by
  have hlog := h.unrecorded (.pushInternalOrder e) trivial
  have hids : Numbers T w.lastId ((w.internalOrderQueue ++ [e]).map (·.id)) := by
    rw [List.map_append]
    exact h.ids.enqueued hold
  exact ⟨h.price, hlog.past, hlog.accepted, h.rests, hlog.aons, hlog.traded, hids⟩

/-- The id goes to the second leg of an order. -/
theorem taken {id : Nat} (h : Priced (T.give id) w) : Priced (T.take id) w := by
  refine ⟨h.price, h.past, h.accepted, fun p k hk => (h.rests p k hk).take id, h.aons,
    fun price plev size id1 id2 hm hon => ?_, h.ids.taken⟩
  obtain ⟨htake, hmake⟩ := h.traded price plev size id1 id2 hm hon
  exact ⟨htake.take id, hmake.take id⟩

/-- An order that nothing is known of is accepted. -/
theorem acceptance (h : Priced T w) {e : OrderQueueElem} {front : Option Nat}
    (hnew : ¬ T.known e.id) (hids : Numbers (T.accept e front) w.lastId w.queuedIds) :
    Priced (T.accept e front) (w.log (.insertOrder e)) := by
  have hsub : w.trace ⊆ (w.log (.insertOrder e)).trace := List.subset_cons_self _ w.trace
  refine ⟨h.price, fun _ hm => hsub (h.past hm), fun e' he => ?_,
    fun p k hk => (h.rests p k hk).accept hnew front, fun buys p k hk => (h.aons buys p k hk).later hsub,
    fun price plev size id1 id2 hm hon => ?_, hids⟩
  · rcases List.mem_cons.mp he with heq | he
    · cases heq
      exact .inr rfl
    · exact .inl (h.accepted e' he)
  · have hm : .trade price plev size id1 id2 ∈ w.trace := (List.mem_cons.mp hm).resolve_left (by simp)
    obtain ⟨htake, hmake⟩ := h.traded price plev size id1 id2 hm hon
    exact ⟨(htake.later hsub).accept hnew front, hmake.accept hnew front⟩

/-! ### Between insertions -/

theorem dequeued (h : Priced T w) : Priced T.idle
    (w.onSob fun s => { s with internalOrderQueue := s.internalOrderQueue.tail }) := by
  have hids : Numbers T.idle w.lastId (w.internalOrderQueue.tail.map (·.id)) := by
    rw [List.map_tail]
    exact h.ids.dequeued
  exact ⟨h.price, h.past, h.accepted, h.rests, h.aons, h.traded, hids⟩

/-- The queue is dropped. -/
theorem dropped (h : Priced T w) (queue : List OrderQueueElem) : Priced T.idle
    { w with internalOrderQueue := [], trace := .dropped queue :: w.trace } := by
  have hlog := h.unrecorded (.dropped queue) trivial
  exact ⟨h.price, hlog.past, hlog.accepted, h.rests, hlog.aons, hlog.traded, h.ids.dropped⟩

/-- The levels move with their prices. -/
theorem growBook (h : Priced T w) {base : Int} {incr : Nat} {atBeg : Bool}
    (hbase : incr ≠ 0 → base = w.base - growOffset incr atBeg) :
    ∃ T' : Terms, T'.front = T.front ∧
      Priced T' { w with toSob := growBook base incr atBeg w.toSob } := by
  by_cases hincr : incr = 0
  · unfold SimpleOrderbook.growBook
    rw [if_pos hincr]
    exact ⟨T, rfl, h⟩
  let off := growOffset incr atBeg
  let s' := SimpleOrderbook.growBook base incr atBeg w.toSob
  have hb : s'.base = w.base - off := by
    simp only [s', growBook_of_ne hincr, hbase hincr]
    rfl
  have hlim : ∀ {p k}, s'.InLimits p k → off ≤ p ∧ w.InLimits (p - off) k := fun {p k} hk => by
    unfold Sob.InLimits at hk ⊢
    rw [show s'.limits p = if p < off then none else w.limits (p - off) from
      congrFun (congrArg LimitView.limits (limitView_growBook hincr)) p] at hk
    split at hk
    · obtain ⟨x, hx, -⟩ := hk
      cases hx
    next hp => exact ⟨not_lt.mp hp, hk⟩
  have haon : ∀ {buys p k}, s'.InAons buys p k → off ≤ p ∧ w.InAons buys (p - off) k :=
    fun {buys p k} hk => by
      unfold Sob.InAons at hk ⊢
      rw [aons_growBook hincr] at hk
      split at hk
      · obtain ⟨x, hx, -⟩ := hk
        cases hx
      next hp => exact ⟨not_lt.mp hp, hk⟩
  have hids : s'.lastId = w.lastId ∧ s'.queuedIds = w.queuedIds := by
    simp only [s', growBook_of_ne hincr]
    exact ⟨rfl, rfl⟩
  have hn : Numbers T s'.lastId s'.queuedIds := by
    rw [hids.1, hids.2]
    exact h.ids
  refine ⟨{ T with price := fun p => s'.base + ((p : Int) - beg) }, rfl, fun _ => rfl, h.past, h.accepted, fun p k hk => ?_,
    fun buys p k hk => h.aons buys _ k (haon hk).2, h.traded,
    ⟨hn.known, hn.spare, hn.queued_le, hn.nodup, hn.front⟩⟩
  have hold : off ≤ p ∧ w.Lies (p - off) k := by
    rcases hk with hk | ⟨buys, hk⟩
    · exact ⟨(hlim hk).1, .inl (hlim hk).2⟩
    · exact ⟨(haon hk).1, .inr ⟨buys, (haon hk).2⟩⟩
  have hr := h.rests _ _ hold.2
  refine ⟨hr.1, fun e he hl hid => ?_⟩
  obtain ⟨hlimit, hside⟩ := hr.2 e he hl hid
  refine ⟨?_, hside⟩
  change s'.base + ((p : Int) - beg) = e.limit
  rw [hb, ← hlimit, ← h.price, Nat.cast_sub hold.1]
  omega

end Priced

/-- Nothing is known of an empty book. -/
theorem Initial.priced {w : World} (h : Initial w) : ∃ T : Terms, T.front = none ∧ Priced T w := by
  obtain ⟨⟨base, incr, -, -, hw⟩, htrace⟩ := h
  have haon : ∀ buys p k, ¬ w.InAons buys p k := by
    rintro buys p k ⟨x, hx, -⟩
    rw [hw] at hx
    cases buys <;> cases hx
  have hlies : ∀ p k, ¬ w.Lies p k := by
    rintro p k (⟨x, hx, -⟩ | ⟨buys, hk⟩)
    · rw [hw] at hx
      cases hx
    · exact haon buys p k hk
  have hq : w.queuedIds = [] := by
    unfold Sob.queuedIds
    rw [hw]
    rfl
  refine ⟨⟨fun p => w.base + ((p : Int) - beg), fun _ => False, fun _ => False, fun _ h => h, none, fun _ => False, []⟩, rfl,
    fun _ => rfl, List.nil_subset _, fun e he => ?_, fun p k hk => absurd hk (hlies p k),
    fun buys p k hk => absurd hk (haon buys p k), fun _ _ _ _ _ hm => ?_, ?_⟩
  · rw [htrace] at he
    cases he
  · rw [htrace] at hm
    cases hm
  · rw [hq]
    exact ⟨fun _ hk => hk.elim, fun _ hs => hs.elim, fun _ hm => (by cases hm), List.nodup_nil,
      fun _ hf => by cases hf⟩

/-! ## Steps of a program -/

section Steps
variable {α : Type} {T : Terms} {id : Nat}

theorem keeps_getSob : Keeps (Priced T) getSob := ⟨fun _ h => wp_getSob h⟩

/-- What is read tells of the terms, and what was called so far stays called. -/
theorem keeps_getSob_bind {f : Sob → M α}
    (hf : ∀ w, Priced T w → Keeps (Priced (T.since w.trace)) (f w.toSob)) :
    Keeps (Priced T) (getSob >>= f) :=
  ⟨fun w h => wp_getSob_bind (((hf w h).run w h.since).mono (fun _ _ h' => h.before h')
    fun _ _ h' => h.before h')⟩

theorem keeps_modifySob {f : Sob → Sob} (hs : ∀ s, Thins s (f s)) :
    Keeps (Priced T) (modifySob f) := ⟨fun w h => wp_modifySob (h.thins (hs w.toSob))⟩

theorem keeps_record {ev : Event} (hev : ev.Unrecorded) : Keeps (Priced T) (record ev) :=
  ⟨fun _ h => wp_record (h.unrecorded ev hev)⟩

theorem keeps_pushExecCallback (msg : CallbackMsg) (cb : OrderExecCbBndl) (id1 id2 : Nat)
    (price : Int) (sz : Nat) : Keeps (Priced T) (pushExecCallback msg cb id1 id2 price sz) :=
  ⟨fun _ h => wp_pushExecCallback (h.report msg cb id1 id2 price sz)⟩

theorem keeps_fromCache (id : Nat) : Keeps (Priced T) (fromCache id) :=
  ⟨fun _ h => wp_fromCache (fun _ _ => h) fun _ => h⟩

theorem keeps_idCacheAt (id : Nat) : Keeps (Priced T) (idCacheAt id) :=
  ⟨fun _ h => wp_idCacheAt (fun _ _ => h) fun _ => h⟩

theorem keeps_deref (c : ChainIterWrap) (id : Nat) : Keeps (Priced T) (deref c id) :=
  ⟨fun _ h => wp_deref (fun _ _ => h) fun _ => h⟩

/-- The program gives the generated id `id` to an order of the queue. -/
structure Enqueues (T : Terms) (id : Nat) (m : M α) : Prop where
  run : ∀ w, (∀ i, T.spare i → i ≠ id) → Priced (T.give id) w →
    wp m (fun _ => Priced T) (fun _ => Priced T) w

namespace Enqueues

theorem bind_of {β : Type} {m : M β} {f : β → M α} {R : β → Prop}
    (hm : ∀ w, Priced (T.give id) w → wp m (fun a w' => R a ∧ Priced (T.give id) w')
      (fun _ => Priced (T.give id)) w)
    (hf : ∀ a, R a → Enqueues T id (f a)) : Enqueues T id (m >>= f) :=
  ⟨fun w hn h => ((hm w h).mono (fun _ _ hq => hq) fun _ _ he => he.ungive).bind
    fun a w' ⟨ha, h'⟩ => (hf a ha).run w' hn h'⟩

theorem bind {β : Type} {m : M β} {f : β → M α} (hm : Keeps (Priced (T.give id)) m)
    (hf : ∀ a, Enqueues T id (f a)) : Enqueues T id (m >>= f) :=
  bind_of (R := fun _ => True) (fun w h => (hm.run w h).post fun _ _ h' => ⟨trivial, h'⟩)
    fun a _ => hf a

theorem push {e : OrderQueueElem} {f : Unit → M α} (he : e.id = id)
    (hf : Keeps (Priced T) (f ())) : Enqueues T id (pushInternalOrder e >>= f) := by
  subst he
  exact ⟨fun w hn h => wp_pushInternalOrder_bind (hf.run _ (h.enqueued hn))⟩

theorem last {e : OrderQueueElem} (he : e.id = id) : Enqueues T id (pushInternalOrder e) :=
  push (f := pure) he (.pure _)

end Enqueues

theorem keeps_generateId_bind {f : Nat → M α} (hf : ∀ id, Enqueues T id (f id)) :
    Keeps (Priced T) (generateId >>= f) := by
  refine ⟨fun w h => wp_generateId_bind ((hf _).run _ (fun i hi heq => ?_) h.generated)⟩
  have := (h.ids.spare i hi).1
  omega

theorem keeps_copyBndlToAonChain {p : Nat} {b : LimitBndl} (hb : T.Rests p (b.id, b.side)) :
    Keeps (Priced T) (Chain.copyBndlToAonChain p b) := by
  refine ⟨fun w h => (wp_copyBndlToAonChain w p b).mono ?_ ?_⟩
  · rintro _ _ ⟨c, hc, rfl⟩
    exact h.copied _ hb
  · rintro _ _ ⟨-, -, rfl⟩
    exact h.unrecorded _ trivial

theorem keeps_tradeHasOccured {plev size id1 id2 : Nat} (cb1 cb2 : OrderExecCbBndl)
    (htake : T.Takes T.past id1 (T.price plev)) (hmake : T.Makes id2 (T.price plev)) :
    Keeps (Priced T) (tradeHasOccured plev size id1 id2 cb1 cb2) :=
  ⟨fun _ h => wp_tradeHasOccured (h.traded_at cb1 cb2 (htake.later h.past) hmake)⟩

end Steps
end SimpleOrderbook
