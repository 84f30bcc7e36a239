import SimpleOrderbook.CacheChains
import SimpleOrderbook.Tape

/-!
# A pull takes out what it names

A pull takes an order out of the book, and with it the order it is linked to. Every other order stays
at its level with what it has, AONs that come to the front of a limit chain in another chain of their
level. A request that is refused, or that names an order that is not there, changes nothing.

## Main results

* `Run.pull_exact` — what a pull answers and what it leaves.
* `Run.refused_unchanged` — a request refused for its arguments leaves the book as it was.
-/
namespace SimpleOrderbook

open Hoare

/-! ## A book without an order -/

/-- Every order has something left and is cached at its level, and no level has two of one id. -/
structure Sob.Placed (s : Sob) : Prop where
  cached : ∀ p, ∀ b ∈ s.ordersAt p, (s.idCache b.id).map (·.p) = some p
  nodup : ∀ p, ((s.ordersAt p).map (·.id)).Nodup
  sz : ∀ p, ∀ b ∈ s.ordersAt p, b.sz ≠ 0

/-- The order that goes with `b` when `b` is pulled. -/
def OrderBndl.pullsAlong (b : OrderBndl) : List Nat :=
  match b.shouldPullLinked, b.payload with
  | true, .linkedOrder link => [link.id]
  | _, _ => []

/-- `s'` is `s` without the orders `gone`. -/
structure Sob.Without (s : Sob) (gone : List Nat) (s' : Sob) : Prop where
  orders : ∀ p, (s'.ordersAt p).Perm ((s.ordersAt p).filter (·.id ∉ gone))
  cache : ∀ id, (s'.idCache id).map (·.p) = if id ∈ gone then none else (s.idCache id).map (·.p)
  tape : s'.tape = s.tape
  lastId : s'.lastId = s.lastId
  queue : s'.internalOrderQueue = s.internalOrderQueue

namespace Sob.Without
variable {s s' s'' : Sob} {gone gone' : List Nat}

theorem of_files (hf : s'.files = s.files) (ht : s'.tape = s.tape) (hl : s'.lastId = s.lastId)
    (hq : s'.internalOrderQueue = s.internalOrderQueue) : s.Without [] s' := by
  refine ⟨fun p => ?_, fun id => ?_, ht, hl, hq⟩
  · unfold Sob.ordersAt
    rw [limits_of_files hf, stops_of_files hf, aons_of_files hf]
    simp
  · rw [cache_of_files hf]
    simp

theorem refl (s : Sob) : s.Without [] s := .of_files rfl rfl rfl rfl

theorem trans (h : s.Without gone s') (h' : s'.Without gone' s'') :
    s.Without (gone ++ gone') s'' := by
  refine ⟨fun p => ?_, fun id => ?_, h'.tape.trans h.tape, h'.lastId.trans h.lastId,
    h'.queue.trans h.queue⟩
  · refine (h'.orders p).trans (((h.orders p).filter _).trans (.of_eq ?_))
    rw [List.filter_filter]
    refine List.filter_congr fun b _ => ?_
    simp only [List.mem_append, not_or, Bool.decide_and, Bool.and_comm]
  · rw [h'.cache, h.cache]
    by_cases hid : id ∈ gone <;> by_cases hid' : id ∈ gone' <;> simp [hid, hid']

theorem placed (h : s.Without gone s') (hp : s.Placed) : s'.Placed := by
  refine ⟨fun p b hb => ?_, fun p => ?_, fun p b hb => ?_⟩
  · obtain ⟨hb, hid⟩ := List.mem_filter.mp ((h.orders p).mem_iff.mp hb)
    rw [h.cache, if_neg (of_decide_eq_true hid)]
    exact hp.cached p b hb
  · refine (((h.orders p).map _).nodup_iff).mpr ?_
    exact (hp.nodup p).sublist (List.filter_sublist.map _)
  · exact hp.sz p b (List.mem_filter.mp ((h.orders p).mem_iff.mp hb)).1

/-- Who was not in the book is not missed. -/
theorem of_absent (h : s.Without gone s') {id : Nat} (hid : s.idCache id = none) (hp : s.Placed) :
    s.Without (gone ++ [id]) s' := by
  refine ⟨fun p => (h.orders p).trans (.of_eq ?_), fun j => ?_, h.tape, h.lastId, h.queue⟩
  · refine List.filter_congr fun b hb => ?_
    have hne : b.id ≠ id := fun heq => by
      have hc := hp.cached p b hb
      rw [heq, hid] at hc
      cases hc
    simp [hne]
  · rw [h.cache]
    by_cases hj : j = id
    · rw [hj, hid]
      simp
    · simp [hj]

/-- The pointers of a chain that became empty. -/
theorem settled (s : Sob) (bidSide : Bool) (p : Nat) :
    s.Without [] (Exec.Limit.adjustStateAfterPull bidSide s p) := by
  obtain ⟨_, _, _, _, h⟩ := Exec.Limit.adjustStateAfterPull_eq bidSide s p
  rw [h]
  exact .of_files rfl rfl rfl rfl

theorem trailingErased (s : Sob) (id : Nat) (isBuy : Bool) : s.Without [] (s.trailingErased id isBuy) := by
  cases isBuy <;> exact .of_files rfl rfl rfl rfl

/-- One order leaves its chain and the cache. -/
theorem erased (hp : s.Placed) {p : Nat} {b : OrderBndl}
    (hperm : (s.ordersAt p).Perm (b :: s'.ordersAt p))
    (hother : ∀ q, q ≠ p → s'.ordersAt q = s.ordersAt q)
    (hcache : ∀ j, s'.idCache j = if j = b.id then none else s.idCache j)
    (ht : s'.tape = s.tape) (hl : s'.lastId = s.lastId)
    (hq : s'.internalOrderQueue = s.internalOrderQueue) : s.Without [b.id] s' := by
  refine ⟨fun q => ?_, fun j => ?_, ht, hl, hq⟩
  · by_cases hqp : q = p
    · subst hqp
      have hn := (hperm.map (·.id)).nodup_iff.mp (hp.nodup q)
      have hnew := (List.nodup_cons.mp hn).1
      have hrest : (s'.ordersAt q).filter (·.id ∉ [b.id]) = s'.ordersAt q := by
        refine List.filter_eq_self.mpr fun x hx => ?_
        have hne : x.id ≠ b.id := fun hid => hnew (List.mem_map.mpr ⟨x, hx, hid⟩)
        simpa using hne
      refine .symm ((hperm.filter _).trans (.of_eq ?_))
      rw [List.filter_cons_of_neg (by simp), hrest]
    · rw [hother q hqp]
      refine .of_eq (List.filter_eq_self.mpr fun x hx => ?_).symm
      have hne : x.id ≠ b.id := fun hid => hqp <| by
        have hb := hp.cached p b (hperm.mem_iff.mpr List.mem_cons_self)
        have hx := hp.cached q x hx
        rw [hid] at hx
        exact Option.some.inj (hx.symm.trans hb)
      simpa using hne
  · rw [hcache]
    by_cases hj : j = b.id <;> simp [hj]

end Sob.Without

/-! ## Pops -/

section Pops
variable {s : Sob} {w : World}

/-- An element leaves one of several lists. -/
theorem perm_cons_append {α : Type} {a : α} {l l' : List α} (h : l.Perm (a :: l')) (left right : List α) :
    (left ++ (l ++ right)).Perm (a :: (left ++ (l' ++ right))) :=
  ((h.append_right right).append_left left).trans List.perm_middle

theorem Sob.Placed.erasedLimit (hp : s.Placed) {p id : Nat} {b : LimitBndl}
    (hb : Chain.findLimit (s.limits p).elems id = some b) : s.Without [id] (s.erasedLimit p id) := by
  obtain ⟨-, rfl⟩ := Chain.findLimit_mem hb
  refine .erased hp (p := p) (b := b.toOrderBndl) ?_ (fun q hq => ?_) (fun j => rfl) rfl rfl rfl
  · have hperm := perm_cons_append ((perm_eraseP_of_find hb).map (·.toOrderBndl)) []
    unfold Sob.ordersAt Sob.erasedLimit Chain.eraseLimit
    simpa [ChainManager.elems_ofList] using hperm _
  · unfold Sob.ordersAt Sob.erasedLimit
    simp [hq]

theorem Sob.Placed.erasedStop (hp : s.Placed) {p id : Nat} {b : StopBndl}
    (hb : Chain.findStop (s.stops p).elems id = some b) : s.Without [id] (s.erasedStop p b) := by
  obtain rfl := Chain.findStop_id hb
  have hv := bookView_erasedStop s p b
  have hlimits := limits_of_bookView hv
  have haons : (s.erasedStop p b).aons = s.aons := aons_erasedStop
  refine .erased hp (p := p) (b := b.toOrderBndl) ?_ (fun q hq => ?_) (idCache_erasedStop s p b)
    (s.tape_erasedStop p b) (lastId_of_bookView hv) (queue_of_bookView hv)
  · have hperm := perm_cons_append ((perm_eraseP_of_find hb).map (·.toOrderBndl))
    unfold Sob.ordersAt
    rw [hlimits, haons, stops_erasedStop, if_pos rfl, ChainManager.elems_ofList]
    exact hperm _ _
  · unfold Sob.ordersAt
    rw [hlimits, haons, stops_erasedStop, if_neg hq]

theorem Sob.Placed.erasedAon (hp : s.Placed) {isBuy : Bool} {p id : Nat} {b : AonBndl}
    (hb : Chain.findLimit (s.aons isBuy p).elems id = some b) :
    s.Without [id] (s.erasedAon isBuy p id) := by
  obtain ⟨-, rfl⟩ := Chain.findLimit_mem hb
  have hv := bookView_erasedAon s isBuy p b.id
  have hlimits := limits_of_bookView hv
  have hstops : (s.erasedAon isBuy p b.id).stops = s.stops := stops_erasedAon s isBuy p b.id
  refine .erased hp (p := p) (b := b.toOrderBndl) ?_ (fun q hq => ?_) (idCache_erasedAon s isBuy p b.id)
    (s.tape_erasedAon isBuy p b.id) (lastId_of_bookView hv) (queue_of_bookView hv)
  · have hperm := perm_eraseP_of_find hb
    have haons : ((s.aons true p).elems ++ (s.aons false p).elems).Perm (b ::
        (((s.erasedAon isBuy p b.id).aons true p).elems ++
          ((s.erasedAon isBuy p b.id).aons false p).elems)) := by
      rw [aons_erasedAon, aons_erasedAon]
      unfold Chain.eraseLimit
      cases isBuy with
      | true => simpa [ChainManager.elems_ofList] using perm_cons_append hperm [] _
      | false => simpa [ChainManager.elems_ofList] using perm_cons_append hperm _ []
    unfold Sob.ordersAt
    rw [hlimits, hstops, ← List.append_assoc, ← List.append_assoc]
    exact ((haons.map (·.toOrderBndl)).append_left _).trans List.perm_middle
  · unfold Sob.ordersAt
    rw [hlimits, hstops, aons_erasedAon, aons_erasedAon]
    simp [hq]

/-- The AON at the front of a limit chain moves. -/
theorem Sob.Placed.movedFront (hp : s.Placed) {p : Nat} {b : LimitBndl} {bs : List LimitBndl}
    {c : ChainIterWrap} (hl : s.limits p = some (b :: bs)) (hc : s.idCache b.id = some c) (d : Bool) :
    s.Without [] ((s.copiedToAons d p b c).setLimits p (ChainManager.ofList bs)) := by
  have hcp : c.p = p := by
    have hb := hp.cached p b.toOrderBndl (by simp [Sob.ordersAt, hl])
    rw [hc] at hb
    exact Option.some.inj hb
  have hv := bookView_copiedToAons s d p b c
  have hlast : (s.copiedToAons d p b c).lastId = s.lastId := lastId_of_bookView hv
  have hqueue : (s.copiedToAons d p b c).internalOrderQueue = s.internalOrderQueue :=
    queue_of_bookView hv
  refine ⟨fun q => ?_, fun j => ?_, s.tape_copiedToAons d p b c, hlast, hqueue⟩
  · have hall : (s.ordersAt q).filter (·.id ∉ []) = s.ordersAt q := by simp
    rw [hall]
    unfold Sob.ordersAt
    rw [Sob.limits_setLimits, Sob.stops_setLimits, Sob.aons_setLimits, Sob.aons_setLimits,
      limits_of_bookView hv, stops_copiedToAons, aons_copiedToAons, aons_copiedToAons]
    by_cases hq : q = p
    · subst hq
      have haons : ((s.aons true q).elems ++ [b] ++ (s.aons false q).elems).Perm
          (b :: ((s.aons true q).elems ++ (s.aons false q).elems)) := by
        rw [List.append_assoc]
        exact List.perm_middle
      simp only [hl, if_true, and_self, ChainManager.elems_push, ChainManager.elems_ofList,
        ChainManager.elems_some, Bool.false_eq_true, and_false, if_false]
      exact ((((haons.map (·.toOrderBndl)).append_left _).trans List.perm_middle).append_left _).trans
        List.perm_middle
    · simp [hq]
  · rw [Sob.idCache_setLimits, idCache_copiedToAons, if_neg List.not_mem_nil]
    split
    next hj => rw [hj, hc]; rfl
    next => rfl

/-- Moving AONs from the front takes none out. -/
theorem Sob.Placed.moveFrontAons (hp : w.Placed) (p n : Nat) :
    wp (Chain.moveFrontAons p n) (fun _ w' => w.Without [] w'.toSob) NoState w := by
  induction n generalizing w with
  | zero => exact wp_pure (.refl _)
  | succ n ih =>
    unfold Chain.moveFrontAons
    refine wp_getSob_bind ?_
    split
    next => exact wp_pure (.refl _)
    next => exact wp_throw rfl
    next b bs hl =>
      refine wp_ite (fun hb => ?_) fun _ => wp_pure (.refl _)
      refine ((wp_copyBndlToAonChain w p b).mono (fun _ _ hq => hq) ?_).bind ?_
      · rintro _ _ ⟨-, hc, -⟩
        have hcached := hp.cached p b.toOrderBndl (by simp [Sob.ordersAt, hl])
        rw [hc] at hcached
        cases hcached
      · rintro _ _ ⟨c, hc, rfl⟩
        have hl' : (w.copiedToAons (decide (p < w.ask)) p b c).limits p = some (b :: bs) :=
          (congrFun (limits_of_bookView (bookView_copiedToAons _ _ _ _ _)) p).trans hl
        have hmoved := hp.movedFront hl hc (decide (p < w.ask))
        refine wp_modifySob_bind ((ih ?_).mono (fun _ w' h => ?_) fun _ _ he => he)
        · simpa [World.onSob, World.log, hl'] using hmoved.placed hp
        · simp only [World.onSob, World.log, hl', ChainManager.elems_some, List.tail_cons] at h
          exact hmoved.trans h

theorem Sob.Placed.limitPop (hp : w.Placed) {id : Nat} {c : ChainIterWrap}
    (hc : w.idCache id = some c) :
    wp (Chain.limitPop id) (fun b w' => Chain.findLimit (w.limits c.p).elems id = some b ∧
      w.Without [id] w'.toSob) NoState w := by
  unfold Chain.limitPop
  refine wp.bind (wp_fromCache (Q := fun c' w' => c' = c ∧ w' = w)
    (fun c' hc' => ⟨Option.some.inj (hc'.symm.trans hc), rfl⟩) fun hn => ?_) ?_
  · rw [hn] at hc
    cases hc
  intro c' w' hq
  obtain ⟨rfl, rfl⟩ := hq
  refine wp_getSob_bind ?_
  dsimp only
  split
  next => exact wp_throw rfl
  next b hb =>
    have herased := hp.erasedLimit hb
    refine wp_modifySob_bind ((Sob.Placed.moveFrontAons (herased.placed hp) _ _).bind ?_)
    intro _ w1 hmoved
    have hgone := herased.trans hmoved
    refine wp_getSob_bind (wp_ite (fun _ => wp_modifySob_bind (wp_pure ⟨hb, ?_⟩))
      fun _ => wp_pure ⟨hb, hgone⟩)
    exact hgone.trans (.settled _ _ _)

theorem Sob.Placed.aonPop (hp : w.Placed) {id : Nat} {c : ChainIterWrap} {isBuy : Bool}
    (hc : w.idCache id = some c) (hty : c.type = if isBuy then .aonBuy else .aonSell) :
    wp (Chain.aonPop id) (fun b w' => Chain.findLimit (w.aons isBuy c.p).elems id = some b ∧
      w.Without [id] w'.toSob) NoState w := by
  unfold Chain.aonPop
  refine wp.bind (wp_fromCache (Q := fun c' w' => c' = c ∧ w' = w)
    (fun c' hc' => ⟨Option.some.inj (hc'.symm.trans hc), rfl⟩) fun hn => ?_) ?_
  · rw [hn] at hc
    cases hc
  intro c' w' hq
  obtain ⟨rfl, rfl⟩ := hq
  have hlim : c'.type ≠ .limit := by cases isBuy <;> simp [hty]
  have hstop : c'.type ≠ .stop := by cases isBuy <;> simp [hty]
  have hside : decide (c'.type = .aonBuy) = isBuy := by cases isBuy <;> simp [hty]
  rw [if_neg hlim, if_neg hstop, hside]
  refine wp_getSob_bind ?_
  dsimp only
  split
  next => exact wp_throw rfl
  next b hb =>
    have hgone := hp.erasedAon hb
    refine wp_getSob_bind (wp_record_bind (wp_modifySob_bind (wp_getSob_bind (wp_ite
      (fun he => wp_modifySob_bind (wp_pure ⟨hb, ?_⟩)) fun he => wp_pure ⟨hb, ?_⟩)))) <;>
    · simp only [World.onSob, World.log] at he
      simpa only [World.onSob, World.log, Sob.erasedAon, he, if_true, if_false, Bool.false_eq_true]
        using hgone

/-! ## Pulls -/

theorem Sob.Without.report {gone : List Nat} (h : s.Without gone w.toSob) (msg : CallbackMsg)
    (cb : OrderExecCbBndl) (id1 id2 : Nat) (price : Int) (sz : Nat) :
    s.Without gone (w.report msg cb id1 id2 price sz).toSob := by
  obtain ⟨_, _, heq⟩ := w.report_eq msg cb id1 id2 price sz
  have hreport : w.Without [] (w.report msg cb id1 id2 price sz).toSob := by
    rw [heq]
    exact .of_files rfl rfl rfl rfl
  simpa using h.trans hreport

theorem Sob.Without.finishPull {pullLinked : OrderBndl → M Unit} {b : OrderBndl}
    {gone l : List Nat} (h : s.Without gone w.toSob) (hz : b.sz ≠ 0)
    (hlinked : ∀ w', s.Without gone w'.toSob →
      wp (pullLinked b) (fun _ w'' => s.Without (gone ++ l) w''.toSob) NoState w') :
    wp (finishPull pullLinked b) (fun ok w' => ok = true ∧ s.Without (gone ++ l) w'.toSob)
      NoState w := by
  unfold SimpleOrderbook.finishPull
  refine wp_ite (fun hz' => absurd hz' hz) fun _ => wp_record_bind (wp_pushExecCallback_bind ?_)
  have hlog : s.Without gone (w.log (.pulled b.id b.sz)).toSob := h
  exact (hlinked _ (hlog.report .cancel b.cb b.id b.id 0 0)).bind fun _ _ h' => wp_pure ⟨rfl, h'⟩

/-- What a pull of `id` takes out, where it takes `along b` out with an order `b`. -/
def Sob.taken (along : OrderBndl → List Nat) (s : Sob) (id : Nat) : List Nat :=
  match s.idCache id with
  | none => []
  | some c =>
    match c.type with
    | .limit | .stop => id :: ((s.bndlAt c id).map along).getD []
    | .aonBuy | .aonSell => [id]

theorem Sob.mem_ordersAt_of_bndlAt {s : Sob} {c : ChainIterWrap} {id : Nat} {b : OrderBndl}
    (h : s.bndlAt c id = some b) : b ∈ s.ordersAt c.p := by
  unfold Sob.bndlAt at h
  unfold Sob.ordersAt
  simp only [List.map_append, List.mem_append]
  split at h <;> obtain ⟨a, ha, rfl⟩ := Option.map_eq_some_iff.mp h <;>
    have hmem := List.mem_map_of_mem (f := (·.toOrderBndl)) (List.mem_of_find?_eq_some ha)
  · exact .inl hmem
  · exact .inr (.inl hmem)
  · exact .inr (.inr (.inl hmem))
  · exact .inr (.inr (.inr hmem))

theorem Sob.Placed.pullOrderWith {pullLinked : OrderBndl → M Unit} (hp : w.Placed)
    (along : OrderBndl → List Nat) (hlinked : ∀ b gone w', w.Without gone w'.toSob →
      wp (pullLinked b) (fun _ w'' => w.Without (gone ++ along b) w''.toSob) NoState w') (id : Nat) :
    wp (pullOrderWith pullLinked id) (fun ok w' => ok = (w.idCache id).isSome ∧
      w.Without (w.taken along id) w'.toSob) NoState w := by
  unfold SimpleOrderbook.pullOrderWith
  refine wp_getSob_bind ?_
  split
  next hc => exact wp_pure ⟨by rw [hc]; rfl, by simpa [Sob.taken, hc] using .refl w.toSob⟩
  next c hc =>
    have haon : ∀ isBuy : Bool, c.type = (if isBuy then .aonBuy else .aonSell) →
        wp (do let b ← Chain.aonPop id; finishPull (fun _ => return ()) b.toOrderBndl)
          (fun ok w' => ok = (some c).isSome ∧ w.Without (w.taken along id) w'.toSob) NoState w := by
      intro isBuy hty
      refine (hp.aonPop hc hty).bind fun b w1 h1 => ?_
      obtain ⟨hb, hgone⟩ := h1
      have hfound : w.bndlAt c id = some b.toOrderBndl := by
        cases isBuy <;> simp_all [Sob.bndlAt]
      have hsz := hp.sz c.p _ (Sob.mem_ordersAt_of_bndlAt hfound)
      have htaken : w.taken along id = [id] := by cases isBuy <;> simp [Sob.taken, hc, hty]
      rw [htaken]
      exact hgone.finishPull hsz (l := []) fun w' h => wp_pure h
    rw [hc]
    refine wp.tryCatch (E := NoState) ?_ fun err w1 he => ?_
    swap
    · cases he
      exact wp_throw rfl
    split
    next hty =>
      refine (hp.limitPop hc).bind fun b w1 h1 => ?_
      obtain ⟨hb, hgone⟩ := h1
      have hfound : w.bndlAt c id = some b.toOrderBndl := by simp [Sob.bndlAt, hty, hb]
      have hsz := hp.sz c.p _ (Sob.mem_ordersAt_of_bndlAt hfound)
      refine (hgone.finishPull hsz (hlinked b.toOrderBndl [id])).post fun ok w' h' => ⟨h'.1, ?_⟩
      simpa [Sob.taken, hc, hty, hfound] using h'.2
    next hty =>
      refine ((wp_stopPop w id).mono (fun _ _ hq => hq) fun err w' he => ?_).bind fun b w1 h1 => ?_
      · refine he.elim (fun he => he) fun he => ?_
        rw [he.2.1] at hc
        cases hc
      · obtain ⟨c', hc', hb, rfl⟩ := h1
        obtain rfl := Option.some.inj (hc'.symm.trans hc)
        have hfound : w.bndlAt c' id = some b.toOrderBndl := by simp [Sob.bndlAt, hty, hb]
        have hsz := hp.sz c'.p _ (Sob.mem_ordersAt_of_bndlAt hfound)
        have hgone := hp.erasedStop hb
        refine (Sob.Without.finishPull (w := w.onSob (·.erasedStop c'.p b)) hgone hsz
          (hlinked b.toOrderBndl [id])).bind fun ok w' h' => ?_
        obtain ⟨rfl, h'⟩ := h'
        refine wp_ite (fun _ => wp_modifySob_bind (wp_pure ⟨rfl, ?_⟩)) fun hok => absurd rfl hok
        have htaken : w.taken along id = id :: along b.toOrderBndl := by
          simp [Sob.taken, hc, hty, hfound]
        rw [htaken]
        have hleft := h'.trans (.trailingErased w'.toSob id b.isBuy)
        rwa [List.append_nil] at hleft
    next hty => exact haon true hty
    next hty => exact haon false hty

theorem Sob.Placed.pullUnlinked (hp : w.Placed) (id : Nat) :
    wp (pullUnlinked id) (fun _ w' => w.Without [id] w'.toSob) NoState w := by
  refine (hp.pullOrderWith (fun _ => []) (fun b gone w' h => wp_pure ?_) id).post fun ok w' h => ?_
  · rwa [List.append_nil]
  · have hnil : ∀ o : Option OrderBndl, (o.map fun _ => ([] : List Nat)).getD [] = [] := by
      intro o
      cases o <;> rfl
    obtain ⟨-, h⟩ := h
    simp only [Sob.taken, hnil] at h
    split at h
    next hc => exact h.of_absent hc hp
    next c hc => split at h <;> exact h

theorem Sob.Placed.pullLinkedOrder (hp : w.Placed) (b : OrderBndl) :
    wp (pullLinkedOrder b) (fun _ w' => w.Without b.pullsAlong w'.toSob) NoState w := by
  unfold SimpleOrderbook.pullLinkedOrder OrderBndl.pullsAlong
  refine wp_ite (fun hl => ?_) fun hl => ?_
  · rw [hl]
    split
    next link hpay =>
      rw [hpay]
      exact (hp.pullUnlinked link.id).discard
    next => exact wp_throw rfl
  · rw [Bool.not_eq_true] at hl
    rw [hl]
    exact wp_pure (.refl _)

/-- A pull of an order in the book takes out this order and the one it is linked to. -/
theorem Sob.Placed.pullOrder (hp : w.Placed) (id : Nat) :
    wp (pullOrder id) (fun ok w' => ok = (w.idCache id).isSome ∧
      w.Without (w.taken OrderBndl.pullsAlong id) w'.toSob) NoState w := by
  refine hp.pullOrderWith _ (fun b gone w' h => ?_) id
  exact ((h.placed hp).pullLinkedOrder b).post fun _ _ h' => h.trans h'

end Pops

/-! ## Windows -/

section Windows
variable {w₀ w w' : World} {rs : List (Request × Outcome)} {o : Outcome}

theorem Filed.placed (hi : Filed {} w) (hsz : ∀ q b, Resident {} w q b → b.sz ≠ 0) : w.Placed := by
  refine ⟨fun p b hb => ?_, fun p => ?_, fun p b hb => ?_⟩
  · obtain ⟨k, hres⟩ := mem_ordersAt.mp hb
    obtain ⟨c, hc, hq⟩ := hres.cached hi
    obtain ⟨-, rfl⟩ := Prod.mk.inj hq
    rw [hc]
    rfl
  · refine List.nodup_iff_count_le_one.mpr fun id => ?_
    rw [List.count_eq_countP, List.countP_map, List.countP_eq_length_filter]
    by_cases hid : ∃ b ∈ w.ordersAt p, b.id = id
    · obtain ⟨b, hb, rfl⟩ := hid
      obtain ⟨k, hres⟩ := mem_ordersAt.mp hb
      have honce := hres.filter_ordersAt hi p
      rw [if_pos rfl] at honce
      exact (congrArg List.length honce).le
    · rw [List.filter_eq_nil_iff.mpr fun b hb hbid => hid ⟨b, hb, by simpa using hbid⟩]
      exact Nat.zero_le 1
  · obtain ⟨k, hres⟩ := mem_ordersAt.mp hb
    exact hsz _ b hres

/-- Nothing was generated. -/
theorem wp_drainInternalOrders_nil {Q : Option Unit → World → Prop} {E : Err → World → Prop}
    (hq : w.internalOrderQueue = []) (fuel : Nat) (h : Q (some ()) w) :
    wp (drainInternalOrders fuel) Q E w := by
  cases fuel with
  | zero =>
    unfold drainInternalOrders
    refine wp_getSob_bind ?_
    rw [hq]
    exact wp_pure h
  | succ fuel =>
    unfold drainInternalOrders
    refine wp_getSob_bind ?_
    rw [hq]
    exact wp_pure h

/-- In a run of orders of all types in which every request ends as its author could expect and no
limit chain is hit with nothing to trade, a pull answers whether the order was in the book, and leaves
the book without this order and the one it is linked to. -/
theorem Run.pull_exact (h0 : Initial w₀) (h : Run w₀ rs w) (ho : ∀ ro ∈ rs, ro.2.Expected)
    (hzero : w.NoEmptyHit) {id : Nat} (hid : id ≠ 0) {cbType : CallbackType}
    (hw : Window (.pullOrder id cbType) w o w') :
    (∃ copies, o = .value (if (w.idCache id).isSome then 1 else 0) copies) ∧
      w.Without (w.taken OrderBndl.pullsAlong id) w'.toSob := by
  have hp : w.Placed := (h.tidy h0 ho hzero).filed.placed (h.balanced h0 ho hzero none).sized
  obtain ⟨-, hq⟩ := h.wellFormed h0
  obtain ⟨fuel, hexec⟩ := hw
  have hact : (Request.pullOrder id cbType).action =
      .ok (.external ⟨.null, false, 0, 0, 0, { cbType := cbType }, id, .null⟩) := by
    simp [Request.action, checkOrderParams, checkOrderSize, hid]
    rfl
  simp only [Request.exec, hact] at hexec
  have hwindow : wp (executeExternalOrder fuel
      ⟨.null, false, 0, 0, 0, { cbType := cbType }, id, .null⟩) (fun ret w1 =>
        ret = some (if (w.idCache id).isSome then 1 else 0) ∧
          w.Without (w.taken OrderBndl.pullsAlong id) w1.toSob) NoState w := by
    unfold executeExternalOrder
    rw [if_pos ⟨hid, rfl⟩]
    refine (hp.pullOrder id).bind fun ok w1 hok => ?_
    obtain ⟨rfl, hgone⟩ := hok
    refine wp_ite (fun hsome => ?_) fun hsome => wp_pure ⟨by simp [hsome], hgone⟩
    have hempty : w1.internalOrderQueue = [] := hgone.queue.trans hq
    exact (wp_drainInternalOrders_nil hempty fuel (Q := fun ret w' => ret = some () ∧ w' = w1)
      ⟨rfl, rfl⟩).bind fun ret w' hret => wp_pure ⟨by simp [hret.1, hsome], hret.2 ▸ hgone⟩
  unfold dispatchExternalOrder at hexec
  split at hexec
  next => cases hexec
  next ret w1 hm =>
    obtain ⟨hret, hgone⟩ := hwindow.ok hm
    obtain rfl := Option.some.inj hret
    cases cbType <;> cases hexec
    · have hcleared : w1.Without [] { w1 with callbacksSync := [] } := .of_files rfl rfl rfl rfl
      have hleft := hgone.trans hcleared
      rw [List.append_nil] at hleft
      exact ⟨⟨_, rfl⟩, hleft⟩
    · exact ⟨⟨_, rfl⟩, hgone⟩
  next => cases hexec
  next err w1 hne hm => exact absurd (hwindow.error hm) fun he => hne he

/-- The limit order of a one-cancels-other pair is pulled, with an AON behind it in its chain. -/
theorem pull_exact_pair : ∃ rs w w', Run (World.create 1 20) rs w ∧
    rs.map (·.1) = [.limit true 8 2 { condition := .oneCancelsOther, order1 := some (.byPrice true 3 0 12) },
      .limit true 8 9 { condition := .allOrNone }, .limit true 7 4] ∧
    Window (.pullOrder 1 .asynchronous) w (.value 1 []) w' ∧
    w.taken OrderBndl.pullsAlong 1 = [1, 2] ∧ w.Without [1, 2] w'.toSob := by
  obtain ⟨rs, w, h, hrs, hw⟩ := Run.exists_of_execAll 0
    [.limit true 8 2 { condition := .oneCancelsOther, order1 := some (.byPrice true 3 0 12) },
      .limit true 8 9 { condition := .allOrNone }, .limit true 7 4]
    (f := fun os w => (decide (∀ o ∈ os, o.Expected), w.trace.all fun ev => ! ev.isEmptyHit,
      w.taken OrderBndl.pullsAlong 1, ((Request.pullOrder 1 .asynchronous).exec 0 w).map (·.1)))
    (v := (true, true, [1, 2], some (.value 1 []))) (w := World.create 1 20) (by decide +kernel)
  obtain ⟨hall, hzero, htaken, hexec⟩ : _ ∧ _ ∧ _ ∧ _ := by simpa only [Prod.mk.injEq] using hw
  obtain ⟨⟨o, w'⟩, hexec, rfl⟩ := Option.map_eq_some_iff.mp hexec
  have hwindow : Window (.pullOrder 1 .asynchronous) w (.value 1 []) w' := ⟨0, hexec⟩
  have hleft := (h.pull_exact (initial_create (by decide) (by decide))
    (fun ro hro => of_decide_eq_true hall ro.2 (List.mem_map_of_mem hro))
    (World.noEmptyHit_of_all hzero) (by decide) hwindow).2
  exact ⟨rs, w, w', h, hrs, hwindow, htaken, htaken ▸ hleft⟩

/-- In any run, a request that is refused for its arguments leaves the book as it was. -/
theorem Run.refused_unchanged (h0 : Initial w₀) (h : Run w₀ rs w) {r : Request} {msg : String}
    (hw : Window r w (.exception (.invalidArgument msg)) w') : w'.toSob = w.toSob := by
  obtain ⟨hwf, hq⟩ := h.wellFormed h0
  cases hw.closes hwf hq with
  | refused => rfl
  | rejected ee hee =>
    change { w.toSob with internalOrderQueue := [] } = w.toSob
    rw [← hq]
  | left hqe hs =>
    cases hs with
    | failed hs hm hgap herr => cases herr

end Windows

end SimpleOrderbook
