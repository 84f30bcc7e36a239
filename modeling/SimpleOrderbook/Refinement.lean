import Mathlib.Data.List.Induction
import Mathlib.Tactic.FinCases
import SimpleOrderbook.Addressing
import SimpleOrderbook.Links
import SimpleOrderbook.Runs
import SimpleOrderbook.Sweep

/-!
# The engine refines a price-time book

Runs of plain limit and market inserts, pulls and replaces do to the chains of the engine what the
same commands do to the two lists of a price-time book.

## Main results

* `Request.exec_refines` — one window, from a world that stands for a book.
* `refines_price_time` — every run: the same answers, the same trades and the same resting orders.
-/
namespace SimpleOrderbook
open Hoare

/-! ## An order comes to rest -/

section Push
variable {s : Sob} {p : Nat} {buy : Bool} {b : LimitBndl}

theorem others_limitPush (s : Sob) (buy : Bool) (p : Nat) (b : LimitBndl) :
    (Chain.limitPush buy s p b).others = s.others := by
  rw [← others_setLimits s p ((s.limits p).push b)]
  unfold Chain.limitPush Sob.cacheEmplace
  cases buy <;> dsimp only <;> split <;> rfl

theorem last_limitPush (s : Sob) (buy : Bool) (p : Nat) (b : LimitBndl) :
    (Chain.limitPush buy s p b).LastOk ↔ s.LastOk := by
  unfold Chain.limitPush Sob.cacheEmplace
  cases buy <;> dsimp only <;> split <;> exact Iff.rfl

theorem Sob.Bare.limitPush (h : s.Bare) (hp : beg ≤ p) (hpe : p < s.end_)
    (hs : if buy then p < s.ask else s.bid < p) (hside : b.side = buy) (hb : b.Basic)
    (hc : s.idCache b.id = none) (hid : 0 < b.id ∧ b.id ≤ s.lastId) :
    (Chain.limitPush buy s p b).Bare := by
  have ho := others_limitPush s buy p b
  have hlid : (Chain.limitPush buy s p b).lastId = s.lastId := congrArg (·.2.2.2.2.2.2.2.2) ho
  have hel : ∀ q, ∀ x ∈ ((Chain.limitPush buy s p b).limits q).elems,
      x ∈ (s.limits q).elems ∨ q = p ∧ x = b := by
    intro q x hx
    rw [limits_limitPush] at hx
    split at hx
    next hq => simpa [hq] using hx
    next => exact .inl hx
  have hcache : ∀ i, (Chain.limitPush buy s p b).idCache i =
      if i = b.id then some ⟨.limit, p⟩ else s.idCache i := fun i => by
    split
    next hi => rw [hi, idCache_limitPush_self hc]
    next hi => exact idCache_limitPush s buy p b hi
  have hold : ∀ q, ∀ x ∈ (s.limits q).elems, x.id ≠ b.id := fun q x hx heq => by
    have := h.filed q x hx
    rw [heq, hc] at this
    cases this
  refine ⟨h.inv.limitPush hp hpe hs hside, fun q x hx => ?_, fun q => ?_, fun q x hx => ?_,
    fun i c hi => ?_, fun i c hi => ?_, h.atRest.of_others ho, (last_limitPush s buy p b).mpr h.last⟩
  · rcases hel q x hx with hx | ⟨-, rfl⟩
    · exact h.basic q x hx
    · exact hb
  · unfold Sob.limitIds
    rw [limits_limitPush]
    split
    next hq =>
      rw [ChainManager.elems_push, List.map_append, List.map_singleton]
      refine (h.nodup p).append (List.nodup_singleton _) fun i hi hi' => ?_
      obtain ⟨x, hx, rfl⟩ := List.mem_map.mp hi
      exact hold p x hx (List.mem_singleton.mp hi')
    next => exact h.nodup q
  · rw [hcache]
    rcases hel q x hx with hx | ⟨rfl, rfl⟩
    · rw [if_neg (hold q x hx), h.filed q x hx]
    · rw [if_pos rfl]
  · rw [hcache] at hi
    unfold Sob.limitIds
    split at hi
    next heq =>
      obtain rfl : (⟨.limit, p⟩ : ChainIterWrap) = c := Option.some.inj hi
      refine ⟨rfl, ?_⟩
      rw [limits_limitPush, if_pos rfl, heq]
      simp
    next =>
      obtain ⟨htype, hin⟩ := h.cached i c hi
      refine ⟨htype, ?_⟩
      rw [limits_limitPush]
      split
      next hq =>
        rw [ChainManager.elems_push, List.map_append]
        exact List.mem_append_left _ (hq ▸ hin)
      next => exact hin
  · rw [hlid]
    rw [hcache] at hi
    split at hi
    next heq => exact heq ▸ hid
    next => exact h.known i c hi

/-- The new order queues behind those of its side that are at least as good. -/
theorem side_limitPush (hp : beg ≤ p) (hpe : p < s.end_) (hside : b.side = buy) :
    (Chain.limitPush buy s p b).side buy =
        PriceTime.enqueue (PriceTime.Book.better buy) (b.entry (s.itop p)) (s.side buy) ∧
      (Chain.limitPush buy s p b).side (!buy) = s.side (!buy) := by
  have ho := others_limitPush s buy p b
  have hbase : (Chain.limitPush buy s p b).base = s.base := congrArg (·.1) ho
  have hend : (Chain.limitPush buy s p b).end_ = s.end_ := congrArg (·.2.1) ho
  have hq : ∀ d, (Chain.limitPush buy s p b).queue d p =
      s.queue d p ++ if b.side = d then [b.entry (s.itop p)] else [] := fun d => by
    unfold Sob.queue Sob.itop
    rw [limits_limitPush, if_pos rfl, hbase, ChainManager.elems_push, List.filter_append,
      List.map_append]
    by_cases hd : b.side = d <;> simp [hd]
  have hoff : ∀ d q, q ≠ p → (Chain.limitPush buy s p b).queue d q = s.queue d q := fun d q hqp =>
    queue_congr hbase (by rw [limits_limitPush, if_neg hqp])
  have hladder : ∀ d, (Chain.limitPush buy s p b).ladder d = s.ladder d := fun d => by
    unfold Sob.ladder
    rw [hend]
  constructor
  · obtain ⟨front, back, hlad, -⟩ := exists_ladder buy hp hpe
    have hpair := hlad ▸ ladder_pairwise s buy
    have hnodup : (front ++ p :: back).Nodup := hpair.imp fun h => by
      split at h <;> omega
    have hlevel : ∀ q ∈ front ++ p :: back, beg ≤ q := fun q hq => (mem_ladder.mp (hlad ▸ hq)).1
    unfold Sob.side
    rw [hladder, hlad, PriceTime.flatMap_of_eq_off hnodup (hoff buy), hq, if_pos hside,
      PriceTime.enqueue_flatMap (PriceTime.Book.better buy) s.itop
        (hpair.imp_of_mem fun {i j} hi hj hij => ?_) (fun x => ?_) (fun j x hx => ?_) rfl]
    · rw [s.itop_of_beg_le (hlevel i hi), s.itop_of_beg_le (hlevel j hj)]
      cases buy <;> simp [PriceTime.Book.better] at hij ⊢ <;> omega
    · cases buy <;> simp [PriceTime.Book.better]
    · unfold Sob.queue at hx
      obtain ⟨y, -, rfl⟩ := List.mem_map.mp hx
      rfl
  · unfold Sob.side
    rw [hladder]
    refine List.flatMap_congr fun q _ => ?_
    by_cases hqp : q = p
    · rw [hqp, hq, if_neg (by simp [hside]), List.append_nil]
    · exact hoff _ q hqp

end Push

/-! ## An order is pulled -/

section Pull
variable {s s' : Sob} {w : World} {p id : Nat}

/-- A resting order is cached, and a cached one rests. -/
theorem Sob.Bare.rests_iff (h : s.Bare) :
    (∃ buy, ∃ o ∈ s.side buy, o.id = id) ↔ ∃ c, s.idCache id = some c := by
  constructor
  · rintro ⟨buy, o, ho, rfl⟩
    obtain ⟨q, -, b, hb, -, rfl⟩ := mem_side.mp ho
    exact ⟨_, h.filed q b hb⟩
  · rintro ⟨c, hc⟩
    obtain ⟨b, hb, hid⟩ := List.mem_map.mp (h.cached id c hc).2
    have hne : s.limits c.p ≠ none := fun hn => by
      rw [hn] at hb
      cases hb
    have hq : beg ≤ c.p ∧ c.p < s.end_ :=
      ⟨Nat.pos_of_ne_zero fun h0 => hne (h0 ▸ h.inv.pad), not_le.mp fun hge => hne (h.inv.top c.p hge)⟩
    exact ⟨b.side, _, mem_side.mpr ⟨c.p, hq, b, hb, rfl, rfl⟩, hid⟩

/-- The lists of the sides once an order was erased from its chain. -/
theorem Sob.Bare.side_erase (h : s.Bare) (hc : ∀ c, s.idCache id = some c → c.p = p)
    (hb : s'.base = s.base) (he : s'.end_ = s.end_)
    (hoff : ∀ q, q ≠ p → s'.limits q = s.limits q)
    (hel : (s'.limits p).elems = Chain.eraseLimit (s.limits p).elems id) (buy : Bool) :
    s'.side buy = (s.side buy).eraseP (·.id = id) := by
  have hother : ∀ q, q ≠ p → ∀ o ∈ s.queue buy q, decide (o.id = id) = false := by
    intro q hq o ho
    obtain ⟨b, hbm, rfl⟩ := List.mem_map.mp ho
    refine decide_eq_false fun heq => hq (hc ⟨.limit, q⟩ ?_)
    rw [← heq]
    exact h.filed q b (List.mem_filter.mp hbm).1
  have hn : (s.ladder buy).Nodup := (ladder_pairwise s buy).imp fun h => by
    split at h <;> omega
  have hlad : s'.ladder buy = s.ladder buy := by
    unfold Sob.ladder
    rw [he]
  unfold Sob.side
  rw [hlad, PriceTime.eraseP_flatMap hn hother]
  refine List.flatMap_congr fun q _ => ?_
  by_cases hq : q = p
  · subst hq
    have hsub : ∀ b ∈ (s'.limits q).elems, b ∈ (s.limits q).elems := fun b hbm =>
      List.mem_of_mem_eraseP (hel ▸ hbm)
    have hside : (∀ b ∈ (s.limits q).elems, b.side = buy) ∨
        ∀ b ∈ (s.limits q).elems, b.side ≠ buy := by
      have hlt : s.bid < s.ask := h.inv.bid_lt_ask
      by_cases hle : q ≤ s.bid
      · have hall : ∀ b ∈ (s.limits q).elems, b.side = true := fun b hbm => by
          have := h.side_level hbm
          cases hs : b.side <;> simp [hs] at this ⊢
          omega
        cases buy
        · exact .inr fun b hbm => by simp [hall b hbm]
        · exact .inl hall
      · have hall : ∀ b ∈ (s.limits q).elems, b.side = false := fun b hbm => by
          have := h.side_level hbm
          cases hs : b.side <;> simp [hs] at this ⊢
          omega
        cases buy
        · exact .inl hall
        · exact .inr fun b hbm => by simp [hall b hbm]
    rcases hside with hall | hnone
    · rw [queue_of_forall hall, queue_of_forall fun b hbm => hall b (hsub b hbm), hel,
        List.eraseP_map]
      unfold Sob.itop
      rw [hb]
      rfl
    · rw [queue_eq_nil hnone, queue_eq_nil fun b hbm => hnone b (hsub b hbm)]
      rfl
  · rw [queue_congr hb (hoff q hq)]
    exact (List.eraseP_of_forall_not fun o ho => by simpa using hother q hq o ho).symm

theorem wp_moveFrontAons_bare {Q : Unit → World → Prop} {E : Err → World → Prop} (n : Nat)
    (hne : w.limits p ≠ some []) (hfront : ∀ b ∈ (w.limits p).elems, b.condition = .none)
    (hq : Q () w) : wp (Chain.moveFrontAons p n) Q E w := by
  cases n with
  | zero => exact wp_pure hq
  | succ n =>
    unfold Chain.moveFrontAons
    refine wp_getSob_bind ?_
    split
    next => exact wp_pure hq
    next hl => exact absurd hl hne
    next b bs hl =>
      refine wp_ite (fun haon => absurd haon ?_) fun _ => wp_pure hq
      have := hfront b (by rw [hl]; exact List.mem_cons_self)
      simp [OrderBndl.isAON, this]

/-- What a pull does to a book of plain limit orders. -/
structure Pulled (id : Nat) (w w' : World) : Prop where
  bare : w'.Bare
  others : w'.others = w.others
  trades : w'.trades = w.trades
  side : ∀ buy, w'.side buy = (w.side buy).eraseP (·.id = id)

theorem wp_limitPop_bare (h : w.Bare) {c : ChainIterWrap} (hc : w.idCache id = some c) :
    wp (Chain.limitPop id) (fun b w' => b.condition = .none ∧ b.sz ≠ 0 ∧ Pulled id w w')
      (fun _ _ => False) w := by
  obtain ⟨htype, hin⟩ := h.cached id c hc
  obtain ⟨b₀, hb₀, hid₀⟩ := List.mem_map.mp hin
  obtain ⟨b, hb⟩ : ∃ b, Chain.findLimit (w.limits c.p).elems id = some b :=
    Option.isSome_iff_exists.mp (List.find?_isSome.mpr ⟨b₀, hb₀, by simp [hid₀]⟩)
  obtain ⟨hbm, hbid⟩ := Chain.findLimit_mem hb
  obtain ⟨hcond, hsz⟩ := h.basic c.p b hbm
  have hne : w.limits c.p ≠ none := fun hn => by
    rw [hn] at hbm
    cases hbm
  obtain ⟨l, hl⟩ := Option.ne_none_iff_exists'.mp hne
  have hel : (w.limits c.p).elems = l := by rw [hl, ChainManager.elems_some]
  have hnodup : (l.map (·.id)).Nodup := hel ▸ h.nodup c.p
  have hfind : Chain.findLimit l id = some b := hel ▸ hb
  have hperm := Chain.perm_eraseLimit hfind
  have hids := (hperm.nodup_iff.mp hnodup)
  have hsub := Chain.eraseLimit_sublist l id
  have hlt : w.bid < w.ask := h.inv.bid_lt_ask
  -- what holds once the order is erased and the pointers are adjusted
  have hdone : ∀ w' : World, LimitInv w'.limitView → w'.others = w.others → w'.trades = w.trades →
      (∀ q, q ≠ c.p → w'.limits q = w.limits q) →
      (w'.limits c.p).elems = Chain.eraseLimit l id →
      (∀ i, w'.idCache i = if i = id then none else w.idCache i) →
      (w.LastOk → w'.LastOk) → Pulled id w w' := by
    intro w' hinv ho htr hoff hel' hcache hlast
    refine ⟨h.shrink hel [id] hinv ho hoff hel' (hsub.map _) (fun x hx => ?_)
      (fun i => by simpa using hcache i) (fun i => ?_) (hlast h.last), ho, htr, fun buy => ?_⟩
    · have hx' := hsub.subset hx
      exact ⟨(h.basic c.p x (hel ▸ hx')).2, x, hx', rfl, rfl, rfl⟩
    · rw [List.mem_singleton, hperm.mem_iff, List.mem_cons]
      constructor
      · rintro rfl
        exact ⟨.inl rfl, (List.nodup_cons.mp hids).1⟩
      · rintro ⟨hi | hi, hnot⟩
        · exact hi
        · exact absurd hi hnot
    · exact h.side_erase (fun c' hc' => by rw [hc] at hc'; cases hc'; rfl) (congrArg (·.1) ho)
        (congrArg (·.2.1) ho) hoff (hel'.trans (by rw [hel])) buy
  let s1 : Sob := (w.setLimits c.p (ChainManager.ofList (Chain.eraseLimit l id))).cacheErase id
  have hlim1 : ∀ q, s1.limits q =
      if q = c.p then ChainManager.ofList (Chain.eraseLimit l id) else w.limits q :=
    fun q => Sob.limits_setLimits ..
  have ho1 : s1.others = w.others :=
    (show s1.others = (w.setLimits c.p _).others from rfl).trans (others_setLimits ..)
  unfold Chain.limitPop
  refine wp.bind (wp_fromCache (Q := fun c' w' => c = c' ∧ w = w')
    (fun c' hc' => ⟨by rw [hc] at hc'; exact Option.some.inj hc', rfl⟩) fun hn => by
      rw [hc] at hn
      cases hn) ?_
  rintro _ _ ⟨rfl, rfl⟩
  refine wp_getSob_bind ?_
  dsimp only
  rw [hel, hfind]
  refine wp_modifySob_bind ((wp_moveFrontAons_bare (Q := fun _ w' => w' = w.onSob fun s =>
    (s.setLimits c.p (ChainManager.ofList (Chain.eraseLimit l id))).cacheErase id) _ ?_ ?_ rfl).bind ?_)
  · rw [World.toSob_onSob, hlim1 c.p, if_pos rfl]
    cases Chain.eraseLimit l id <;> simp [ChainManager.ofList]
  · rw [World.toSob_onSob, hlim1 c.p, if_pos rfl, ChainManager.elems_ofList]
    exact fun x hx => (h.basic c.p x (hel ▸ hsub.subset hx)).1
  rintro _ _ rfl
  refine wp_getSob_bind (wp_ite (fun hempty => wp_modifySob_bind (wp_pure ⟨hcond, hsz, ?_⟩))
    fun hempty => wp_pure ⟨hcond, hsz, ?_⟩)
  · have hnone : ChainManager.ofList (Chain.eraseLimit l id) = none := by
      have : (s1.limits c.p).empty = true := hempty
      rw [hlim1, if_pos rfl] at this
      exact Option.isNone_iff_eq_none.mp this
    obtain ⟨bid, ask, low, high, hf⟩ := Exec.Limit.adjustStateAfterPull_eq (decide (c.p ≤ s1.bid)) s1 c.p
    have hinv : LimitInv (Exec.Limit.adjustStateAfterPull (decide (c.p ≤ s1.bid)) s1 c.p).limitView := by
      have := LimitInv.adjustStateAfterPull (s := w.cacheErase id) (p := c.p) h.inv hne
      rw [← hnone] at this
      exact this
    have hlim : (Exec.Limit.adjustStateAfterPull (decide (c.p ≤ s1.bid)) s1 c.p).limits = s1.limits := by
      rw [hf]
      rfl
    refine hdone _ hinv ?_ rfl (fun q hq => ?_) ?_ (fun i => ?_) fun hx => ?_
    · refine Eq.trans ?_ ho1
      change Sob.others (Exec.Limit.adjustStateAfterPull (decide (c.p ≤ s1.bid)) s1 c.p) = _
      rw [hf]
      rfl
    · exact (congrFun hlim q).trans ((hlim1 q).trans (if_neg hq))
    · rw [World.toSob_onSob]
      refine (congrArg ChainManager.elems ((congrFun hlim c.p).trans ((hlim1 c.p).trans (if_pos rfl)))).trans ?_
      exact ChainManager.elems_ofList _
    · change (Exec.Limit.adjustStateAfterPull (decide (c.p ≤ s1.bid)) s1 c.p).idCache i = _
      rw [hf]
      rfl
    · change (Exec.Limit.adjustStateAfterPull (decide (c.p ≤ s1.bid)) s1 c.p).LastOk
      rw [hf]
      exact hx
  · have hrest : Chain.eraseLimit l id ≠ [] := fun hn => hempty (by
      change (s1.limits c.p).empty = true
      rw [hlim1, if_pos rfl, hn]
      rfl)
    obtain ⟨x, l', hl'⟩ := List.exists_cons_of_ne_nil hrest
    have hinv : LimitInv s1.limitView := by
      have := h.inv.setLimits_some hl hrest fun x hx => ⟨x, hsub.subset hx, rfl⟩
      change LimitInv (w.setLimits c.p (ChainManager.ofList (Chain.eraseLimit l id))).limitView
      rw [hl'] at this ⊢
      exact this
    refine hdone _ hinv ho1 rfl (fun q hq => (hlim1 q).trans (if_neg hq)) ?_ (fun i => rfl) fun hx => hx
    exact (congrArg ChainManager.elems ((hlim1 c.p).trans (if_pos rfl))).trans
      (ChainManager.elems_ofList _)

/-- The cancel is reported to the client. -/
theorem Pulled.report {w' : World} (h : Pulled id w w') (i sz : Nat) (cb : OrderExecCbBndl) :
    Pulled id w ((w'.log (.pulled i sz)).report .cancel cb i i 0 0) := by
  obtain ⟨⟨b1, b2, b3, b4, b5, b6, b7, b8⟩, h2, h3, h4⟩ := h
  rcases cb with ⟨_ | f, _ | _⟩ <;>
    exact ⟨⟨b1, b2, b3, b4, b5, b6, ⟨b7.1, b7.2, b7.3, b7.4, b7.5, b7.6⟩, b8⟩, h2,
      (trades_log _ rfl).trans ((trades_log _ rfl).trans h3), h4⟩

/-- `_pull_order` on a book of plain limit orders. -/
theorem wp_pullOrder_bare (h : w.Bare) : wp (pullOrder id) (fun r w' =>
    (r = true ∧ (∃ c, w.idCache id = some c) ∧ Pulled id w w') ∨
      (r = false ∧ w.idCache id = none ∧ w' = w)) (fun _ _ => False) w := by
  unfold pullOrder pullOrderWith
  refine wp_getSob_bind ?_
  split
  next hc => exact wp_pure (.inr ⟨rfl, hc, rfl⟩)
  next c hc =>
    refine wp.tryCatch (E := fun _ _ => False) ?_ fun _ _ hf => hf.elim
    rw [(h.cached id c hc).1]
    refine (wp_limitPop_bare h hc).bind ?_
    rintro b w1 ⟨hcond, hsz, hp⟩
    unfold finishPull
    refine wp_ite (fun h0 => absurd h0 hsz) fun _ =>
      wp_record_bind (wp_pushExecCallback_bind ?_)
    have hlinked : pullLinkedOrder b.toOrderBndl = pure () := by
      unfold pullLinkedOrder
      rw [if_neg (by simp [OrderBndl.shouldPullLinked, OrderBndl.isOCO, OrderBndl.isActiveBracket,
        OrderBndl.isActiveTrailingBracket, hcond])]
    rw [hlinked]
    exact wp_pure (.inl ⟨rfl, ⟨c, hc⟩, hp.report _ _ _⟩)

end Pull

/-! ## An order is inserted -/

section Insert
variable {w w' : World} {e : OrderQueueElem} {p : Nat}

theorem wp_ptoi_valid [Pointers] {Q : Nat → World → Prop} {E : Err → World → Prop} {price : Int}
    (hv : w.isOnBook price = true) (hi : w.indexOf price = w.levelOf price)
    (h : Q (w.levelOf price).toNat w) : wp (ptoi price) Q E w := by
  have hv : (beg : Int) ≤ w.levelOf price ∧ w.levelOf price < w.end_ := of_decide_eq_true hv
  have hin : (if Pointers.pad then beg - 1 else beg : Int) ≤ w.levelOf price := by
    split <;> omega
  unfold wp
  rw [ptoi_apply, hi, if_pos ⟨hin, hv.2⟩, if_pos ⟨hv.1, rfl⟩]
  exact h

theorem overlapping_bare (h : w.Bare) (bidSide : Bool) :
    Exec.Aon.overlapping bidSide w.toSob p = [] := by
  unfold Exec.Aon.overlapping
  refine List.flatMap_eq_nil_iff.mpr fun q _ => ?_
  rw [h.atRest.aons bidSide q]
  rfl

theorem wp_matchAonOrdersPreTrade_bare {Q : Nat → World → Prop} {E : Err → World → Prop}
    {isBuy : Bool} (h : w.Bare) (hq : Q e.sz w) :
    wp (matchAonOrdersPreTrade isBuy e p) Q E w := by
  unfold matchAonOrdersPreTrade
  refine wp_getSob_bind ?_
  rw [overlapping_bare h]
  exact wp_pure hq

theorem wp_matchAonOrdersPostTrade_bare {Q : Unit → World → Prop} {E : Err → World → Prop}
    {isBuy : Bool} (h : w.Bare) (hq : Q () w) : wp (matchAonOrdersPostTrade isBuy p) Q E w := by
  unfold matchAonOrdersPostTrade
  refine wp_getSob_bind ?_
  rw [overlapping_bare h]
  exact wp_pure hq

/-- The new order as it rests. -/
def OrderQueueElem.rests (e : OrderQueueElem) (rmndr : Nat) : LimitBndl :=
  { id := e.id, sz := rmndr, cb := e.cb, side := e.isBuy }

/-- Nothing of the other side is left that the remainder could trade with, and it rests. -/
theorem wp_restLimitOrder_bare {rmndr : Nat} (h : w.Bare) (hcond : e.condition = .none)
    (hp : beg ≤ p) (hpe : p < w.end_) (hs : if e.isBuy then p < w.ask else w.bid < p)
    (h0 : rmndr ≠ 0) (hc : w.idCache e.id = none) (hid : 0 < e.id ∧ e.id ≤ w.lastId) :
    wp (restLimitOrder e.isBuy e false p rmndr) (fun _ w' => w'.Bare ∧
      w' = w.onSob (Chain.limitPush e.isBuy · p (e.rests rmndr))) (fun _ _ => False) w := by
  have hbare : (Chain.limitPush e.isBuy w.toSob p (e.rests rmndr)).Bare :=
    h.limitPush hp hpe hs rfl ⟨rfl, h0⟩ hc hid
  have haon : ∀ c : Prop, ¬ (e.isAON = true ∧ c) := fun c hx => by
    simp [OrderQueueElem.isAON, hcond] at hx
  unfold restLimitOrder
  simp only [haon, if_false, Bool.false_eq_true]
  refine wp_getSob_bind (wp_modifySob_bind ?_)
  refine (wp_matchAonOrdersPostTrade_bare (Q := fun _ w' => w' = w.onSob
    (Chain.limitPush e.isBuy · p (e.rests rmndr))) hbare rfl).bind ?_
  rintro _ _ rfl
  have hcache : (Chain.limitPush e.isBuy w.toSob p (e.rests rmndr)).idCache e.id =
      some ⟨.limit, p⟩ := idCache_limitPush_self (b := e.rests rmndr) hc
  refine wp_getSob_bind ?_
  rw [World.toSob_onSob, hcache]
  obtain ⟨x, hx⟩ : ∃ x, Chain.findLimit ((Chain.limitPush e.isBuy w.toSob p
      (e.rests rmndr)).limits p).elems e.id = some x :=
    Option.isSome_iff_exists.mp (List.find?_isSome.mpr ⟨e.rests rmndr, by
      rw [limits_limitPush, if_pos rfl]
      simp, by simp [OrderQueueElem.rests]⟩)
  unfold deref
  refine wp.bind (R := fun _ w' => w' = w.onSob (Chain.limitPush e.isBuy · p (e.rests rmndr)))
    (wp_getSob_bind ?_) ?_
  · rw [World.toSob_onSob]
    simp only [Sob.bndlAt, hx, Option.map_some]
    exact wp_pure rfl
  · rintro _ _ rfl
    exact wp_pure ⟨hbare, rfl⟩

/-- An order of `size` was inserted with or without a limit: the trades it made, and the lists of
the two sides afterwards. -/
structure Entered (buy : Bool) (limit : Option Int) (size : Nat) (w w' : World) (left : Nat) :
    Prop where
  bare : w'.Bare
  lastId : w'.lastId = w.lastId
  valid : w'.base = w.base ∧ w'.end_ = w.end_
  left_eq : left = (PriceTime.fill (PriceTime.Book.accepts buy limit) (w.side (!buy)) size).2.2
  trades : w'.trades = w.trades ++
    (PriceTime.fill (PriceTime.Book.accepts buy limit) (w.side (!buy)) size).1.map
      fun f => ⟨w.lastId, f.id, f.price, f.size⟩
  far : w'.side (!buy) =
    (PriceTime.fill (PriceTime.Book.accepts buy limit) (w.side (!buy)) size).2.1
  near : w'.side buy = match limit with
    | some p => if left = 0 then w.side buy
      else PriceTime.enqueue (PriceTime.Book.better buy) ⟨w.lastId, p, left⟩ (w.side buy)
    | none => w.side buy

theorem SweepPost.entered {buy : Bool} {limit : Option Int} {size r : Nat}
    (h : SweepPost (PriceTime.Book.accepts buy limit) (!buy) w.lastId size w r w')
    (hl : limit = none ∨ r = 0) : Entered buy limit size w w' r := by
  obtain ⟨hr, hs, hsw⟩ := h
  have hfar : w'.side buy = w.side buy := by
    have := hsw.far
    rwa [Bool.not_not] at this
  refine ⟨hsw.bare, congrArg (·.2.2.2.2.2.2.2.2) hsw.others, ⟨hsw.base_eq, hsw.end_eq⟩, hr,
    hsw.trades, hs, hfar.trans ?_⟩
  rcases hl with rfl | rfl
  · rfl
  · cases limit <;> rfl

/-- What could not be filled of a limit order rests. -/
theorem SweepPost.rested {w'' : World} {r : Nat}
    (h : SweepPost (PriceTime.Book.accepts e.isBuy (some e.limit)) (!e.isBuy) w.lastId e.sz w r w')
    (hbare : w''.Bare) (hid : e.id = w.lastId) (hprice : w.itop p = e.limit) (hp : beg ≤ p)
    (hpe : p < w.end_) (h0 : r ≠ 0) (hw : w'' = w'.onSob (Chain.limitPush e.isBuy · p (e.rests r))) :
    Entered e.isBuy (some e.limit) e.sz w w'' r := by
  obtain ⟨hr, hs, hsw⟩ := h
  have hfar : w'.side e.isBuy = w.side e.isBuy := by
    have := hsw.far
    rwa [Bool.not_not] at this
  have ho := others_limitPush w'.toSob e.isBuy p (e.rests r)
  obtain ⟨hnear, hother⟩ := @side_limitPush w'.toSob p e.isBuy (e.rests r)
    hp (hpe.trans_eq hsw.end_eq.symm) rfl
  subst hw
  refine ⟨hbare, (congrArg (·.2.2.2.2.2.2.2.2) ho).trans (congrArg (·.2.2.2.2.2.2.2.2) hsw.others),
    ⟨(congrArg (·.1) ho).trans hsw.base_eq, (congrArg (·.2.1) ho).trans hsw.end_eq⟩, hr,
    hsw.trades, hother.trans hs, hnear.trans ?_⟩
  have hitop : w'.itop p = e.limit := by
    rw [← hprice]
    unfold Sob.itop
    rw [hsw.base_eq]
  dsimp only
  rw [if_neg h0, hfar, hitop, ← hid]
  rfl

/-- The other side's best price is refused by what is left of an order. -/
theorem best_refused {ok : Int → Bool} {bidSide : Bool} {plev : Nat} (h : w.Bare)
    (hok : ∀ q, beg ≤ q → ok (w.itop q) = Exec.Core.insideOf bidSide q plev) (h1 : 0 < plev)
    (h2 : plev < w.end_) (hhead : ∀ o ∈ (w.side bidSide).head?, ok o.price = false) :
    Exec.Core.insideOf bidSide (w.best bidSide) plev = false := by
  by_contra hin
  rw [Bool.not_eq_false] at hin
  obtain ⟨h0, he⟩ := h.best_inside hin h1 h2
  obtain ⟨l, hl, hnil, hls⟩ := h.best_chain h0 he
  obtain ⟨back, hback⟩ := side_of_best h0 he fun _ hq => h.queue_front hq
  obtain ⟨b, l', rfl⟩ := List.exists_cons_of_ne_nil hnil
  have hq : w.queue bidSide (w.best bidSide) =
      (b :: l').map (LimitBndl.entry (w.itop (w.best bidSide))) := by
    rw [queue_of_forall fun x hx => hls x (by rw [hl] at hx; exact hx), hl]
    rfl
  have := hhead (b.entry (w.itop (w.best bidSide))) (by
    rw [hback w.toSob rfl rfl fun _ _ => rfl, hq]
    rfl)
  rw [show (b.entry (w.itop (w.best bidSide))).price = w.itop (w.best bidSide) from rfl,
    hok _ h0, hin] at this
  cases this

/-- A limit order as an order of level `p`. -/
theorem accepts_itop (s : Sob) (buy : Bool) {p : Nat} (hp : beg ≤ p) (q : Nat) (hq : beg ≤ q) :
    PriceTime.Book.accepts buy (some (s.itop p)) (s.itop q) = Exec.Core.insideOf (!buy) q p := by
  cases buy <;> simp [PriceTime.Book.accepts, Exec.Core.insideOf, Sob.itop_le_itop, hp, hq]

/-- `_insert_limit_order` for an order without conditions. -/
theorem wp_insertLimitOrder_bare [Pointers] (h : w.Bare) (hcond : e.condition = .none)
    (hv : w.isOnBook e.limit = true) (hi : w.indexOf e.limit = w.levelOf e.limit) (h0 : e.sz ≠ 0) (hc : w.idCache e.id = none)
    (hid : 0 < e.id) (hlast : e.id = w.lastId) : wp (insertLimitOrder e.isBuy e false)
      (fun _ w' => ∃ left, Entered e.isBuy (some e.limit) e.sz w w' left) (fun _ _ => False) w := by
  obtain ⟨hp, hpe, hprice⟩ := Sob.level_of_valid hv
  generalize hlev : (w.levelOf e.limit).toNat = p at hp hpe hprice
  have hok : ∀ q, beg ≤ q → PriceTime.Book.accepts e.isBuy (some e.limit) (w.itop q) =
      Exec.Core.insideOf (!e.isBuy) q p := hprice ▸ accepts_itop w.toSob e.isBuy hp
  have haon : e.isAON = false := by simp [OrderQueueElem.isAON, hcond]
  have htrad : Exec.Core.isTradable (!e.isBuy) w.toSob p =
      Exec.Core.insideOf (!e.isBuy) (w.best (!e.isBuy)) p := by
    unfold Exec.Core.isTradable
    rw [h.begin_eq, h.begin_eq]
    cases e.isBuy <;> simp [Exec.Core.insideOf]
  -- the remainder is on its own side of the market
  have hown : ∀ w1 : World, Exec.Core.insideOf (!e.isBuy) (w1.best (!e.isBuy)) p = false →
      if e.isBuy then p < w1.ask else w1.bid < p := fun w1 hout => by
    cases hb : e.isBuy <;> simp [hb, Exec.Core.insideOf, Sob.best] at hout ⊢ <;> omega
  unfold insertLimitOrder
  refine wp.bind (R := fun q w' => p = q ∧ w = w') (wp_ptoi_valid hv hi ⟨hlev.symm, rfl⟩) ?_
  rintro _ _ ⟨rfl, rfl⟩
  refine (wp_matchAonOrdersPreTrade_bare (Q := fun r w' => e.sz = r ∧ w = w') h ⟨rfl, rfl⟩).bind ?_
  rintro _ _ ⟨rfl, rfl⟩
  have hmay : wp (mayTrade e.isBuy e p e.sz) (fun ok w' =>
      Exec.Core.isTradable (!e.isBuy) w.toSob p = ok ∧ w = w') (fun _ _ => False) w :=
    wp_mayTrade (fun hno => ⟨hno, rfl⟩) (fun hyes _ => ⟨hyes, rfl⟩) fun _ ha => by simp [haon] at ha
  refine wp_ite (fun hz => absurd hz h0) fun _ => hmay.bind ?_
  rintro _ _ ⟨rfl, rfl⟩
  refine wp_ite (fun ht => ?_) fun hn => ?_
  · refine (wp_trade_bare h hok hp hpe).bind fun r w1 hpost => wp_ite (fun hz => ?_) fun hz => ?_
    · rw [hlast] at hpost
      exact wp_pure ⟨r, hpost.entered (.inr hz)⟩
    · have hsw := hpost.2.2
      have hok1 : ∀ q, beg ≤ q → PriceTime.Book.accepts e.isBuy (some e.limit) (w1.itop q) =
          Exec.Core.insideOf (!e.isBuy) q p := fun q hq => by
        rw [← hok q hq]
        unfold Sob.itop
        rw [hsw.base_eq]
      have hout := best_refused hsw.bare hok1 hp (hpe.trans_eq hsw.end_eq.symm) (by
        rw [hpost.2.1]
        exact PriceTime.fill_head (hpost.1 ▸ hz))
      have hlid : w1.lastId = w.lastId := congrArg (·.2.2.2.2.2.2.2.2) hsw.others
      refine (wp_restLimitOrder_bare hsw.bare hcond hp (hpe.trans_eq hsw.end_eq.symm)
        (hown w1 hout) hz (hsw.uncached _ hc) ⟨hid, hlid ▸ hlast.le⟩).post ?_
      rintro _ w2 ⟨hbare, hw⟩
      exact ⟨r, (hlast ▸ hpost).rested hbare hlast hprice hp hpe hz hw⟩
  · have hout : Exec.Core.insideOf (!e.isBuy) (w.best (!e.isBuy)) p = false := by
      rw [← htrad]
      exact Bool.eq_false_iff.mpr hn
    refine (wp_restLimitOrder_bare h hcond hp hpe (hown w hout) h0 hc ⟨hid, hlast.le⟩).post ?_
    rintro _ w2 ⟨hbare, hw⟩
    exact ⟨e.sz, (sweepPost_stop h hok (.inr hout)).rested hbare hlast hprice hp hpe h0 hw⟩

theorem SweepPost.congr {ok ok' : Int → Bool} {bidSide : Bool} {id size r : Nat}
    (h : SweepPost ok bidSide id size w r w')
    (hok : ∀ o ∈ w.side bidSide, ok o.price = ok' o.price) :
    SweepPost ok' bidSide id size w r w' := by
  unfold SweepPost at h ⊢
  rwa [PriceTime.fill_congr hok] at h

/-- Every order of the book has a price that an order at the far edge accepts. -/
theorem accepts_edge (h : w.Bare) (buy : Bool) : ∀ o ∈ w.side (!buy),
    PriceTime.Book.accepts buy (some (w.itop (if buy then w.end_ - 1 else beg))) o.price =
      PriceTime.Book.accepts buy none o.price := by
  intro o ho
  obtain ⟨q, hq, b, hb, -, rfl⟩ := mem_side.mp ho
  have h0 : q ≠ 0 := fun h0 => by
    have : w.limits 0 = none := h.inv.pad
    rw [h0, this] at hb
    cases hb
  have hedge : beg ≤ if buy then w.end_ - 1 else beg := by
    cases buy
    · exact le_rfl
    · simp only [beg, if_true]
      omega
  change PriceTime.Book.accepts buy _ (w.itop q) = true
  rw [accepts_itop w.toSob buy hedge q (Nat.pos_of_ne_zero h0)]
  cases buy <;> simp [Exec.Core.insideOf, beg] <;> omega

/-- `_insert_market_order`. -/
theorem wp_insertMarketOrder_bare (h : w.Bare) (hwide : 1 < w.end_) (h0 : e.sz ≠ 0)
    (hlast : e.id = w.lastId) : wp (insertMarketOrder e.isBuy e)
      (fun _ w' => Entered e.isBuy none e.sz w w' 0)
      (fun err w' => ∃ left, left ≠ 0 ∧ err = .liquidityException e.sz left e.id ∧
        Entered e.isBuy none e.sz w w' left) w := by
  have hplev : 0 < (if e.isBuy then w.end_ - 1 else beg) ∧
      (if e.isBuy then w.end_ - 1 else beg) < w.end_ := by
    cases e.isBuy <;> simp [beg] <;> omega
  unfold insertMarketOrder
  refine wp_getSob_bind ?_
  refine (wp_matchAonOrdersPreTrade_bare (Q := fun r w' => e.sz = r ∧ w = w') h ⟨rfl, rfl⟩).bind ?_
  rintro _ _ ⟨rfl, rfl⟩
  refine wp_ite (fun _ => ?_) fun hz => absurd h0 hz
  refine ((wp_trade_bare h (accepts_itop w.toSob e.isBuy hplev.1) hplev.1 hplev.2).mono (fun _ _ hq => hq)
    fun _ _ hf => hf.elim).bind fun r w1 hpost => ?_
  have hpost := hlast ▸ hpost.congr (accepts_edge h e.isBuy)
  refine wp_ite (fun hr => wp_throw ⟨r, hr, rfl, hpost.entered (.inl rfl)⟩) fun hr => wp_pure ?_
  exact not_not.mp hr ▸ hpost.entered (.inl rfl)

/-! ## One command on a book -/

/-- World `w` stands for book `b`. -/
structure Sim (b : PriceTime.Book Int) (w : World) : Prop where
  bare : w.Bare
  wide : 1 < w.end_
  side : ∀ buy, w.side buy = b.side buy
  lastId : w.lastId = b.lastId

/-- `w'` stands for the book that a command leaves, and its trades were made. -/
structure Refines (res : PriceTime.Answer × List (PriceTime.Trade Int) × PriceTime.Book Int)
    (w w' : World) : Prop where
  sim : Sim res.2.2 w'
  trades : w'.trades = w.trades ++ res.2.1
  range : w'.base = w.base ∧ w'.end_ = w.end_

/-- What an exception of a request says. -/
def Err.answer : Err → Option PriceTime.Answer
  | .invalidArgument _ => some .refused
  | .liquidityException size left id => some (.liquidity size left id)
  | _ => none

/-- What a request answers. -/
def Outcome.answer : Outcome → Option PriceTime.Answer
  | .value ret _ => some (.value ret)
  | .exception err => err.answer

variable {b : PriceTime.Book Int}

theorem Entered.refines {buy : Bool} {limit : Option Int} {size left : Nat} {w₀ : World}
    (h : Sim b w₀) (hlid : w.lastId = w₀.lastId + 1) (hside : ∀ d, w.side d = w₀.side d)
    (htr : w.trades = w₀.trades) (hv : w.base = w₀.base ∧ w.end_ = w₀.end_)
    (hin : Entered buy limit size w w' left) : Refines (b.insert buy limit size) w₀ w' ∧
      (b.insert buy limit size).1 = if limit = none ∧ left ≠ 0
        then .liquidity size left w.lastId else .value w.lastId := by
  obtain ⟨h1, h2, ⟨h3, h3'⟩, h4, h5, h6, h7⟩ := hin
  have hs : ∀ d, w.side d = b.side d := fun d => (hside d).trans (h.side d)
  have hid : w.lastId = b.lastId + 1 := hlid.trans (congrArg (· + 1) h.lastId)
  rw [hs] at h4 h5 h6
  rw [hs, h4, hid] at h7
  refine ⟨⟨⟨h1, ?_, fun d => ?_, ?_⟩, ?_, ?_⟩, ?_⟩
  · rw [h3', hv.2]
    exact h.wide
  · by_cases hd : d = buy
    · rw [hd, h7, PriceTime.Book.insert_near]
      cases limit <;> rfl
    · obtain rfl : d = !buy := by cases d <;> cases buy <;> simp_all
      rw [h6, PriceTime.Book.insert_far]
  · rw [h2, hid, PriceTime.Book.insert_lastId]
  · rw [h5, htr, hid, PriceTime.Book.insert_trades]
  · exact ⟨h3.trans hv.1, h3'.trans hv.2⟩
  · rw [PriceTime.Book.insert_answer, h4, hid]

/-- The element that a command becomes in the window. -/
structure OrderQueueElem.Plain [Pointers] (e : OrderQueueElem) (limit : Option Int) (w : World) : Prop where
  condition : e.condition = .none
  sz : e.sz ≠ 0
  type : (e.type = .limit ∧ limit = some e.limit ∧ w.isOnBook e.limit = true ∧
      w.indexOf e.limit = w.levelOf e.limit) ∨
    (e.type = .market ∧ limit = none)

theorem routeBasicOrder_limit [Pointers] (ht : e.type = .limit) (pass : Bool) :
    routeBasicOrder e pass = insertLimitOrder e.isBuy e pass := by
  obtain ⟨⟩ := e
  cases ht
  rfl

theorem routeBasicOrder_market [Pointers] (ht : e.type = .market) (pass : Bool) :
    routeBasicOrder e pass = do
      insertMarketOrder e.isBuy e
      return e.sz := by
  obtain ⟨⟩ := e
  cases ht
  rfl

theorem wp_insertExternalOrder_bare [Pointers] {limit : Option Int} (h : Sim b w) (hp : e.Plain limit w) :
    wp (insertExternalOrder e)
      (fun ret w' => (b.insert e.isBuy limit e.sz).1 = .value ret ∧
        Refines (b.insert e.isBuy limit e.sz) w w')
      (fun err w' => err.answer = some (b.insert e.isBuy limit e.sz).1 ∧
        Refines (b.insert e.isBuy limit e.sz) w w') w := by
  let w1 := (w.onSob fun s => { s with lastId := s.lastId + 1 }).log
    (.insertOrder { e with id := w.lastId + 1 })
  have hb : w1.Bare := by
    obtain ⟨b1, b2, b3, b4, b5, b6, b7, b8⟩ := h.bare
    exact ⟨b1, b2, b3, b4, b5, fun i c hc => ⟨(b6 i c hc).1, (b6 i c hc).2.trans (Nat.le_succ _)⟩,
      ⟨b7.1, b7.2, b7.3, b7.4, b7.5, b7.6⟩, b8⟩
  have hc : w1.idCache (w.lastId + 1) = none := by
    by_contra hne
    obtain ⟨c, hc⟩ := Option.ne_none_iff_exists'.mp hne
    have := (h.bare.known _ c hc).2
    omega
  have hadv : ({ e with id := w.lastId + 1 } : OrderQueueElem).isAdvanced = false := by
    simp [OrderQueueElem.isAdvanced, hp.condition]
  unfold insertExternalOrder
  refine wp_generateId_bind ?_
  unfold insertOrder
  refine wp_record_bind ?_
  rw [hadv]
  refine wp_ite (fun hx => by cases hx) fun _ => ?_
  have htr : w1.trades = w.trades := trades_log (w.onSob _) rfl
  have hdone : ∀ {left : Nat} {w' : World}, Entered e.isBuy limit e.sz w1 w' left →
      Refines (b.insert e.isBuy limit e.sz) w w' ∧ (b.insert e.isBuy limit e.sz).1 =
        if limit = none ∧ left ≠ 0 then .liquidity e.sz left (w.lastId + 1)
        else .value (w.lastId + 1) :=
    fun hin => hin.refines (w := w1) h rfl (fun _ => rfl) htr ⟨rfl, rfl⟩
  refine (wp.discard (Q := fun _ w' => (b.insert e.isBuy limit e.sz).1 = .value (w.lastId + 1) ∧
    Refines (b.insert e.isBuy limit e.sz) w w') ?_).bind fun _ _ hq => wp_pure hq
  rcases hp.type with ⟨ht, rfl, hv, hi⟩ | ⟨ht, rfl⟩
  · rw [routeBasicOrder_limit (e := { e with id := w.lastId + 1 }) ht]
    refine (wp_insertLimitOrder_bare (e := { e with id := w.lastId + 1 }) hb hp.condition hv hi hp.sz
      hc (Nat.succ_pos _) rfl).mono ?_ fun _ _ hf => hf.elim
    rintro _ w' ⟨left, hin⟩
    obtain ⟨hr, ha⟩ := hdone hin
    exact ⟨ha.trans (if_neg fun hx => by cases hx.1), hr⟩
  · rw [routeBasicOrder_market (e := { e with id := w.lastId + 1 }) ht]
    refine ((wp_insertMarketOrder_bare (e := { e with id := w.lastId + 1 }) hb h.wide hp.sz
      rfl).mono (fun _ _ hq => hq) ?_).bind fun _ w' hin => wp_pure ?_
    · rintro _ w' ⟨left, hleft, rfl, hin⟩
      obtain ⟨hr, ha⟩ := hdone hin
      exact ⟨congrArg some (ha.trans (if_pos ⟨rfl, hleft⟩)).symm, hr⟩
    · obtain ⟨hr, ha⟩ := hdone hin
      exact ⟨ha.trans (if_neg fun hx => hx.2 rfl), hr⟩

end Insert

/-! ## One window -/

/-- The command of a request that has neither a condition nor a stop. -/
def Request.command : Request → Option (PriceTime.Command Int)
  | .insertLimitOrder buy limit size _ advanced =>
    if advanced.condition = .none then some (.limit buy limit size) else none
  | .insertMarketOrder buy size _ advanced =>
    if advanced.condition = .none then some (.market buy size) else none
  | .pullOrder id _ => some (.pull id)
  | .replaceWithLimitOrder id buy limit size _ advanced =>
    if advanced.condition = .none then some (.replaceLimit id buy limit size) else none
  | .replaceWithMarketOrder id buy size _ advanced =>
    if advanced.condition = .none then some (.replaceMarket id buy size) else none
  | _ => none

section Window
variable {w w' : World} {b : PriceTime.Book Int} {id : Nat}
  {res : PriceTime.Answer × List (PriceTime.Trade Int) × PriceTime.Book Int}

theorem Refines.unchanged {a : PriceTime.Answer} (h : Sim b w) : Refines (a, [], b) w w :=
  ⟨h, by simp, rfl, rfl⟩

theorem Sim.holds (h : Sim b w) : b.holds id = true ↔ ∃ c, w.idCache id = some c := by
  rw [← h.bare.rests_iff]
  unfold PriceTime.Book.holds
  rw [List.any_eq_true]
  constructor
  · rintro ⟨o, ho, hid⟩
    have hid := of_decide_eq_true hid
    rcases List.mem_append.mp ho with ho | ho
    · exact ⟨true, o, (h.side true).symm ▸ ho, hid⟩
    · exact ⟨false, o, (h.side false).symm ▸ ho, hid⟩
  · rintro ⟨buy, o, ho, hid⟩
    rw [h.side] at ho
    refine ⟨o, List.mem_append.mpr ?_, decide_eq_true hid⟩
    cases buy
    · exact .inr ho
    · exact .inl ho

theorem Sim.not_holds (h : Sim b w) (hc : w.idCache id = none) : ¬ b.holds id = true := fun hh => by
  obtain ⟨c, hc'⟩ := h.holds.mp hh
  rw [hc] at hc'
  cases hc'

theorem Pulled.sim (hp : Pulled id w w') (h : Sim b w) : Sim (b.erase id) w' :=
  ⟨hp.bare, h.wide.trans_eq (congrArg (·.2.1) hp.others).symm,
    fun buy => (hp.side buy).trans (by rw [h.side]; rfl),
    (congrArg (·.2.2.2.2.2.2.2.2) hp.others).trans h.lastId⟩

theorem Pulled.range (hp : Pulled id w w') : w'.base = w.base ∧ w'.end_ = w.end_ :=
  ⟨congrArg (·.1) hp.others, congrArg (·.2.1) hp.others⟩

/-- Base and size are what prices and levels depend on. -/
theorem isOnBook_of_range {s s' : Sob} (h : s'.base = s.base ∧ s'.end_ = s.end_) :
    s'.isOnBook = s.isOnBook := by
  funext price
  unfold Sob.isOnBook Sob.levelOf
  rw [h.1, h.2]

theorem addresses_of_range [Pointers] {s s' : Sob} (h : s'.base = s.base ∧ s'.end_ = s.end_)
    {price : Int} : s'.Addresses price ↔ s.Addresses price := by
  unfold Sob.Addresses Sob.isValidPrice Sob.indexOf Sob.isOnBook Sob.levelOf
  rw [h.1, h.2]

theorem addressed_of_range [Pointers] {r : Request} {s s' : Sob}
    (h : s'.base = s.base ∧ s'.end_ = s.end_) (hr : r.Addressed s) : r.Addressed s' := by
  unfold Request.Addressed at hr ⊢
  split
  next ee ha =>
    rw [ha] at hr
    exact fun price hp => (addresses_of_range h).mpr (hr price hp)
  next => trivial

theorem OrderQueueElem.Plain.of_range [Pointers] {e : OrderQueueElem} {limit : Option Int}
    (hp : e.Plain limit w) (h : w'.base = w.base ∧ w'.end_ = w.end_) : e.Plain limit w' := by
  refine ⟨hp.condition, hp.sz, hp.type.imp_left fun ⟨h1, h2, h3, h4⟩ => ⟨h1, h2, ?_, ?_⟩⟩
  · rw [isOnBook_of_range h]
    exact h3
  · unfold Sob.indexOf Sob.levelOf at h4 ⊢
    rw [h.1]
    exact h4

/-- The window of a plain command ends as the command does. -/
def Answers (res : PriceTime.Answer × List (PriceTime.Trade Int) × PriceTime.Book Int)
    (w : World) (m : M (Option Nat)) : Prop :=
  wp m (fun o w' => ∃ ret, o = some ret ∧ res.1 = .value ret ∧ Refines res w w')
    (fun err w' => err.answer = some res.1 ∧ Refines res w w') w

theorem wp_drainInternalOrders_bare [Pointers] {Q : Option Unit → World → Prop} {E : Err → World → Prop}
    (h : w.Bare) (fuel : Nat) (hq : Q (some ()) w) :
    wp (drainInternalOrders fuel) Q E w := by
  cases fuel with
  | zero =>
    unfold drainInternalOrders
    refine wp_getSob_bind ?_
    rw [h.atRest.queue]
    exact wp_pure hq
  | succ fuel =>
    unfold drainInternalOrders
    refine wp_getSob_bind ?_
    rw [h.atRest.queue]
    exact wp_pure hq

theorem answers_insert [Pointers] {qe : OrderQueueElem} {limit : Option Int} (h : Sim b w)
    (hp : qe.Plain limit w) (fuel : Nat) : Answers (b.insert qe.isBuy limit qe.sz) w (do
      let ret ← insertExternalOrder qe
      return (← drainInternalOrders fuel).map fun _ => ret) := by
  refine (wp_insertExternalOrder_bare h hp).bind fun ret w1 ⟨ha, hr⟩ => ?_
  refine (wp_drainInternalOrders_bare (Q := fun o w' => o = some () ∧ w' = w1) hr.sim.bare
    fuel ⟨rfl, rfl⟩).bind ?_
  rintro _ _ ⟨rfl, rfl⟩
  exact wp_pure ⟨ret, rfl, ha, hr⟩

/-- A replace pulls and inserts. -/
theorem answers_replace [Pointers] {qe : OrderQueueElem} {limit : Option Int} (h : Sim b w)
    (hp : qe.Plain limit w) (id fuel : Nat) : Answers (b.replace id qe.isBuy limit qe.sz) w (do
      if ← pullOrder id then
        let ret ← insertExternalOrder qe
        return (← drainInternalOrders fuel).map fun _ => ret
      else return some 0) := by
  refine (wp_pullOrder_bare h.bare).mono (fun _ _ hq => hq) (fun _ _ hf => hf.elim) |>.bind ?_
  rintro r w1 (⟨rfl, hc, hpull⟩ | ⟨rfl, hc, rfl⟩)
  · have hins := answers_insert (hpull.sim h) (hp.of_range hpull.range) fuel
    unfold PriceTime.Book.replace
    rw [if_pos (h.holds.mpr hc)]
    have hback : ∀ {w'}, Refines ((b.erase id).insert qe.isBuy limit qe.sz) w1 w' →
        Refines ((b.erase id).insert qe.isBuy limit qe.sz) w w' := fun hr =>
      ⟨hr.sim, hpull.trades ▸ hr.trades, hr.range.1.trans hpull.range.1, hr.range.2.trans hpull.range.2⟩
    exact hins.mono (fun _ _ ⟨ret, h1, h2, h3⟩ => ⟨ret, h1, h2, hback h3⟩)
      fun _ _ ⟨h1, h2⟩ => ⟨h1, hback h2⟩
  · unfold PriceTime.Book.replace
    rw [if_neg (h.not_holds hc)]
    exact wp_pure ⟨0, rfl, rfl, .unchanged h⟩

theorem answers_pull [Pointers] (h : Sim b w) (id fuel : Nat) : Answers
    (if b.holds id then (.value 1, [], b.erase id) else (.value 0, [], b)) w (do
      if ← pullOrder id then
        return (← drainInternalOrders fuel).map fun _ => 1
      else return some 0) := by
  refine (wp_pullOrder_bare h.bare).mono (fun _ _ hq => hq) (fun _ _ hf => hf.elim) |>.bind ?_
  rintro r w1 (⟨rfl, hc, hpull⟩ | ⟨rfl, hc, rfl⟩)
  · rw [if_pos (h.holds.mpr hc)]
    refine (wp_drainInternalOrders_bare (Q := fun o w' => o = some () ∧ w' = w1) hpull.bare
      fuel ⟨rfl, rfl⟩).bind ?_
    rintro _ _ ⟨rfl, rfl⟩
    exact wp_pure ⟨1, rfl, rfl, hpull.sim h, hpull.trades.trans (by simp), hpull.range⟩
  · rw [if_neg (h.not_holds hc)]
    exact wp_pure ⟨0, rfl, rfl, .unchanged h⟩

/-- What the checks make of a limit order without a condition. -/
theorem orderQueueElem_limit [Pointers] {s : Sob} (buy : Bool) (limit : Int) (size : Nat)
    (cb : OrderExecCbBndl) (i : Nat) {advanced : AdvancedOrderTicket}
    (hc : advanced.condition = .none) :
    orderQueueElem s ⟨.limit, buy, limit, 0, size, cb, i, advanced⟩ =
      if s.isValidPrice limit then
        .ok { type := .limit, isBuy := buy, limit := limit, stop := 0, sz := size, cb := cb, id := i,
              condition := .none, trigger := advanced.trigger }
      else .error (.invalidArgument "invalid limit price") := by
  unfold orderQueueElem tickPriceOrThrow
  by_cases hv : s.isValidPrice limit = true
  · simp only [hv, if_true, hc]
    rfl
  · simp only [hv, hc]
    rfl

theorem orderQueueElem_market [Pointers] {s : Sob} (buy : Bool) (size : Nat) (cb : OrderExecCbBndl) (i : Nat)
    {advanced : AdvancedOrderTicket} (hc : advanced.condition = .none) :
    orderQueueElem s ⟨.market, buy, 0, 0, size, cb, i, advanced⟩ =
      .ok { type := .market, isBuy := buy, limit := 0, stop := 0, sz := size, cb := cb, id := i,
            condition := .none, trigger := advanced.trigger } := by
  unfold orderQueueElem
  simp only [hc]
  rfl

/-- Nothing but the callbacks and the events of the world changes. -/
theorem Refines.closed (h : Refines res w w') {w'' : World}
    (hb : w''.toSob = { w'.toSob with callbacksSync := w''.callbacksSync, internalOrderQueue := [] })
    (ht : w''.trades = w'.trades) : Refines res w w'' := by
  obtain ⟨⟨⟨b1, b2, b3, b4, b5, b6, b7, b8⟩, h2, h3, h4⟩, h5, h6⟩ := h
  refine ⟨⟨?_, ?_, ?_, ?_⟩, ht.trans h5, ?_⟩ <;> rw [hb]
  · exact ⟨b1, b2, b3, b4, b5, b6, ⟨b7.1, b7.2, b7.3, b7.4, b7.5, rfl⟩, b8⟩
  · exact h2
  · exact h3
  · exact h4
  · exact h6

theorem Answers.dispatch [Pointers] {ee : ExternalOrderQueueElem} {fuel : Nat} (h : Answers res w (executeExternalOrder fuel ee)) :
    ∃ o w', dispatchExternalOrder fuel ee w = some (o, w') ∧ o.answer = some res.1 ∧
      Refines res w w' := by
  unfold dispatchExternalOrder
  split
  next w1 hm =>
    obtain ⟨_, ho, -⟩ := wp.ok h hm
    cases ho
  next ret w1 hm =>
    obtain ⟨_, ho, ha, hr⟩ := wp.ok h hm
    obtain rfl := Option.some.inj ho
    have hq : w1.internalOrderQueue = [] := hr.sim.bare.atRest.queue
    split
    · refine ⟨_, _, rfl, congrArg some ha.symm, hr.closed ?_ rfl⟩
      rw [← hq]
    · exact ⟨_, _, rfl, congrArg some ha.symm, hr⟩
  next w1 hm =>
    obtain ⟨ha, -⟩ := wp.error h hm
    cases ha
  next err w1 _ hm =>
    obtain ⟨ha, hr⟩ := wp.error h hm
    exact ⟨_, _, rfl, ha, hr.closed rfl (trades_log w1 rfl)⟩

/-- An order that passes the checks is inserted, in place of another if it has an id. -/
theorem answers_executeExternalOrder [Pointers] {ee : ExternalOrderQueueElem} {qe : OrderQueueElem}
    {limit : Option Int} (h : Sim b w) (ht : ee.type ≠ .null)
    (hq : orderQueueElem w.toSob ee = .ok qe) (hp : qe.Plain limit w) (fuel : Nat) :
    Answers (if ee.id = 0 then b.insert qe.isBuy limit qe.sz
      else b.replace ee.id qe.isBuy limit qe.sz) w (executeExternalOrder fuel ee) := by
  unfold executeExternalOrder
  refine wp_ite (fun hx => absurd hx.2 ht) fun _ => wp_getSob_bind ?_
  rw [hq]
  refine wp_ite (fun hid => ?_) fun hid => ?_
  · rw [if_neg hid]
    exact answers_replace h hp _ _
  · rw [if_pos (not_not.mp hid)]
    exact answers_insert h hp _

theorem answers_refused [Pointers] {ee : ExternalOrderQueueElem} {msg : String} (h : Sim b w)
    (ht : ee.type ≠ .null) (hq : orderQueueElem w.toSob ee = .error (.invalidArgument msg)) (fuel : Nat) :
    Answers (.refused, [], b) w (executeExternalOrder fuel ee) := by
  unfold executeExternalOrder
  refine wp_ite (fun hx => absurd hx.2 ht) fun _ => wp_getSob_bind ?_
  rw [hq]
  exact wp_throw ⟨rfl, .unchanged h⟩

/-- A limit order without a condition, for an id or not. -/
theorem answers_limit [Pointers] (h : Sim b w) (buy : Bool) {limit : Int} (haddr : w.Addresses limit)
    {size : Nat} (i fuel : Nat) (cb : OrderExecCbBndl) {advanced : AdvancedOrderTicket}
    (hc : advanced.condition = .none) (h0 : size ≠ 0) : Answers (if w.isOnBook limit = false then (.refused, [], b)
      else if i = 0 then b.insert buy (some limit) size else b.replace i buy (some limit) size) w
      (executeExternalOrder fuel ⟨.limit, buy, limit, 0, size, cb, i, advanced⟩) := by
  have hq := orderQueueElem_limit (s := w.toSob) buy limit size cb i hc
  rw [haddr.valid] at hq
  by_cases hv : w.isOnBook limit = true
  · rw [if_pos hv] at hq
    rw [if_neg (by simp [hv])]
    exact answers_executeExternalOrder h (by simp) hq ⟨rfl, h0, .inl ⟨rfl, rfl, hv, haddr (.inr hv)⟩⟩
      fuel
  · rw [if_neg hv] at hq
    rw [if_pos (by simpa using hv)]
    exact answers_refused h (by simp) hq fuel

theorem answers_market [Pointers] (h : Sim b w) (buy : Bool) {size : Nat} (i fuel : Nat)
    (cb : OrderExecCbBndl) {advanced : AdvancedOrderTicket} (hc : advanced.condition = .none) (h0 : size ≠ 0) :
    Answers (if i = 0 then b.insert buy none size else b.replace i buy none size) w
      (executeExternalOrder fuel ⟨.market, buy, 0, 0, size, cb, i, advanced⟩) :=
  answers_executeExternalOrder h (by simp) (orderQueueElem_market buy size cb i hc)
    ⟨rfl, h0, .inr ⟨rfl, rfl⟩⟩ fuel

/-- A plain request on a world that stands for a book: the command is done, and the window ends. -/
theorem Request.exec_refines [Pointers] {r : Request} {c : PriceTime.Command Int} (h : Sim b w)
    (hc : r.command = some c) (haddr : r.Addressed w.toSob) (fuel : Nat) : ∃ o w', r.exec fuel w = some (o, w') ∧
      o.answer = some (b.step w.isOnBook c).1 ∧ Refines (b.step w.isOnBook c) w w' := by
  have hrefused : ∀ {err msg}, err = Err.invalidArgument msg →
      r.action = .error err → b.step w.isOnBook c = (.refused, [], b) →
      ∃ o w', r.exec fuel w = some (o, w') ∧ o.answer = some (b.step w.isOnBook c).1 ∧
        Refines (b.step w.isOnBook c) w w' := by
    rintro _ msg rfl ha hs
    refine ⟨.exception (.invalidArgument msg), w, ?_, ?_, ?_⟩
    · unfold Request.exec
      rw [ha]
    · rw [hs]
      rfl
    · rw [hs]
      exact .unchanged h
  have hwindow : ∀ {ee}, r.action = .ok (.external ee) →
      Answers (b.step w.isOnBook c) w (executeExternalOrder fuel ee) →
      ∃ o w', r.exec fuel w = some (o, w') ∧ o.answer = some (b.step w.isOnBook c).1 ∧
        Refines (b.step w.isOnBook c) w w' := by
    intro ee ha hans
    unfold Request.exec
    rw [ha]
    exact hans.dispatch
  cases r with
  | insertLimitOrder buy limit size cb advanced =>
    obtain ⟨hcond, hc⟩ := Option.ite_none_right_eq_some.mp hc
    obtain rfl := Option.some.inj hc
    by_cases h0 : size = 0
    · subst h0
      exact hrefused rfl rfl (by simp [PriceTime.Book.step])
    · have ha : (Request.insertLimitOrder buy limit size cb advanced).action =
          .ok (.external ⟨.limit, buy, limit, 0, size, cb, 0, advanced⟩) := by
        simp [Request.action, checkOrderSize, h0]
        rfl
      refine hwindow ha ?_
      have := answers_limit h buy (haddr.price ha limit List.mem_cons_self) 0 fuel cb hcond h0
      simpa [PriceTime.Book.step, h0] using this
  | insertMarketOrder buy size cb advanced =>
    obtain ⟨hcond, hc⟩ := Option.ite_none_right_eq_some.mp hc
    obtain rfl := Option.some.inj hc
    by_cases h0 : size = 0
    · subst h0
      exact hrefused rfl rfl (by simp [PriceTime.Book.step])
    · refine hwindow (by simp [Request.action, checkOrderSize, checkMarketCondition, hcond, h0]; rfl) ?_
      have := answers_market h buy 0 fuel cb hcond h0
      simpa [PriceTime.Book.step, h0] using this
  | pullOrder id cbType =>
    obtain rfl := Option.some.inj hc
    by_cases hid : id = 0
    · subst hid
      exact hrefused rfl rfl (by simp [PriceTime.Book.step])
    · refine hwindow (by simp [Request.action, checkOrderParams, checkOrderSize, hid]; rfl) ?_
      have := answers_pull h id fuel
      unfold executeExternalOrder
      simpa [PriceTime.Book.step, hid] using this
  | replaceWithLimitOrder id buy limit size cb advanced =>
    obtain ⟨hcond, hc⟩ := Option.ite_none_right_eq_some.mp hc
    obtain rfl := Option.some.inj hc
    by_cases h0 : size = 0
    · subst h0
      exact hrefused rfl rfl (by simp [PriceTime.Book.step])
    by_cases hid : id = 0
    · subst hid
      refine hrefused rfl (by simp [Request.action, checkOrderParams, checkOrderSize, h0]; rfl) ?_
      simp [PriceTime.Book.step]
    · have ha : (Request.replaceWithLimitOrder id buy limit size cb advanced).action =
          .ok (.external ⟨.limit, buy, limit, 0, size, cb, id, advanced⟩) := by
        simp [Request.action, checkOrderParams, checkOrderSize, h0, hid]
        rfl
      refine hwindow ha ?_
      have := answers_limit h buy (haddr.price ha limit List.mem_cons_self) id fuel cb hcond h0
      simpa [PriceTime.Book.step, h0, hid] using this
  | replaceWithMarketOrder id buy size cb advanced =>
    obtain ⟨hcond, hc⟩ := Option.ite_none_right_eq_some.mp hc
    obtain rfl := Option.some.inj hc
    by_cases h0 : size = 0
    · subst h0
      exact hrefused rfl rfl (by simp [PriceTime.Book.step])
    by_cases hid : id = 0
    · subst hid
      refine hrefused rfl (by simp [Request.action, checkOrderParams, checkOrderSize, h0]; rfl) ?_
      simp [PriceTime.Book.step]
    · refine hwindow (by
        simp [Request.action, checkOrderParams, checkOrderSize, checkMarketCondition, hcond, h0, hid]
        rfl) ?_
      have := answers_market h buy id fuel cb hcond h0
      simpa [PriceTime.Book.step, h0, hid] using this
  | _ => cases hc

end Window

/-! ## Runs -/

section Run
variable {w₀ w : World} {rs : List (Request × Outcome)}

/-- A new orderbook stands for the empty book. -/
theorem Initial.sim (h0 : Initial w₀) : Sim .empty w₀ := by
  have hinv : LimitInv w₀.limitView := Run.limitInv h0 .nil
  obtain ⟨base, incr, -, hincr, hw⟩ := h0.exists_book
  have hlim : ∀ p, w₀.limits p = none := fun p => by rw [hw]; rfl
  have hmem : ∀ {p b}, b ∈ (w₀.limits p).elems → False := fun {p b} hb => by
    rw [hlim] at hb
    cases hb
  have hcache : ∀ i, w₀.idCache i = none := fun i => by rw [hw]; rfl
  refine ⟨⟨hinv, fun p b hb => (hmem hb).elim, fun p => ?_, fun p b hb => (hmem hb).elim,
    fun i c hc => ?_, fun i c hc => ?_, ?_, ?_⟩, ?_, fun buy => ?_, ?_⟩
  · unfold Sob.limitIds
    rw [hlim]
    exact List.nodup_nil
  · rw [hcache] at hc
    cases hc
  · rw [hcache] at hc
    cases hc
  · rw [hw]
    exact ⟨fun buys p => by cases buys <;> rfl, fun _ => rfl, ⟨rfl, rfl⟩, ⟨rfl, rfl, rfl, rfl⟩,
      ⟨rfl, rfl⟩, rfl⟩
  · rw [hw]
    exact ⟨Nat.succ_pos _, fun hn => by cases hn⟩
  · rw [hw]
    change 1 < incr + 1
    omega
  · refine List.flatMap_eq_nil_iff.mpr fun p _ => queue_eq_nil fun b hb => (hmem hb).elim
  · rw [hw]
    rfl

/-- A run of plain requests does what their commands do to the empty book. -/
theorem Run.refines [Pointers] (h0 : Initial w₀) (h : Run w₀ rs w) (cs : List (PriceTime.Command Int))
    (hc : rs.map (·.1.command) = cs.map some) (haddr : ∀ ro ∈ rs, ro.1.Addressed w₀.toSob) :
    rs.map (·.2.answer) = (PriceTime.Book.run w₀.isOnBook cs .empty).1.map some ∧
      w.trades = (PriceTime.Book.run w₀.isOnBook cs .empty).2.1 ∧
      Sim (PriceTime.Book.run w₀.isOnBook cs .empty).2.2 w ∧
      w.base = w₀.base ∧ w.end_ = w₀.end_ := by
  induction h generalizing cs with
  | nil =>
    obtain rfl : cs = [] := List.map_eq_nil_iff.mp hc.symm
    refine ⟨rfl, ?_, h0.sim, rfl, rfl⟩
    unfold World.trades
    rw [h0.trace_nil]
    rfl
  | @snoc rs w w' r o _ hwin ih =>
    rw [List.map_append] at hc
    obtain ⟨cs, cs', rfl, hcs, hlast⟩ := List.map_eq_append_iff.mp hc.symm
    obtain ⟨c, rfl, hrc⟩ := List.map_eq_singleton_iff.mp hlast
    obtain ⟨hans, htr, hsim, hrange⟩ := ih cs hcs.symm fun ro hro => haddr ro (by simp [hro])
    obtain ⟨fuel, hexec⟩ := hwin
    obtain ⟨o', w'', hexec', ha, hr⟩ := Request.exec_refines hsim hrc.symm
      (addressed_of_range hrange (haddr (r, o) (by simp))) fuel
    rw [hexec'] at hexec
    obtain ⟨rfl, rfl⟩ := Prod.mk.inj (Option.some.inj hexec)
    rw [PriceTime.Book.run_append]
    rw [isOnBook_of_range hrange] at ha hr
    refine ⟨?_, ?_, hr.sim, hr.range.1.trans hrange.1, hr.range.2.trans hrange.2⟩
    · rw [List.map_append, List.map_append, hans]
      exact congrArg _ (congrArg (· :: []) ha)
    · rw [hr.trades, htr]
      simp [PriceTime.Book.run]

/-- The engine refines a price-time book as long as every price that is admitted is addressed at its
own level: the windows of plain requests all end, and every run of them makes the same trades, gives
the same answers and leaves the same orders in the same places. -/
theorem refines_price_time (h0 : Initial w₀) (requests : List Request)
    (commands : List (PriceTime.Command Int))
    (hc : requests.map Request.command = commands.map some)
    (haddr : ∀ r ∈ requests, @Request.Addressed .machine r w₀.toSob) :
    (∃ rs w, MachineRun w₀ rs w ∧ rs.map (·.1) = requests) ∧
    ∀ rs w, MachineRun w₀ rs w → rs.map (·.1) = requests →
      rs.map (·.2.answer) = (PriceTime.Book.run w₀.isOnBook commands .empty).1.map some ∧
      w.trades = (PriceTime.Book.run w₀.isOnBook commands .empty).2.1 ∧
      (∀ buy, w.side buy =
        (PriceTime.Book.run w₀.isOnBook commands .empty).2.2.side buy) ∧
      ∀ p, w.stops p = none ∧ ∀ buys, w.aons buys p = none := by
  let _ := Pointers.machine
  have hall : ∀ {rs : List (Request × Outcome)} {rq : List Request}, rs.map (·.1) = rq →
      (∀ r ∈ rq, r.Addressed w₀.toSob) → ∀ ro ∈ rs, ro.1.Addressed w₀.toSob :=
    fun hrs ha ro hro => ha _ (hrs ▸ List.mem_map_of_mem hro)
  constructor
  · induction requests using List.reverseRecOn generalizing commands with
    | nil => exact ⟨[], w₀, .nil, rfl⟩
    | append_singleton requests r ih =>
      rw [List.map_append] at hc
      obtain ⟨cs, cs', rfl, hcs, hlast⟩ := List.map_eq_append_iff.mp hc.symm
      obtain ⟨c, rfl, hrc⟩ := List.map_eq_singleton_iff.mp hlast
      have hold : ∀ r ∈ requests, r.Addressed w₀.toSob := fun r hr => haddr r (by simp [hr])
      obtain ⟨rs, w, hrun, hrs⟩ := ih cs hcs.symm hold
      obtain ⟨-, -, hsim, hrange⟩ := hrun.refines h0 cs (by rw [hcs, ← hrs, List.map_map]; rfl)
        (hall hrs hold)
      obtain ⟨o, w', hexec, -, -⟩ := Request.exec_refines hsim hrc.symm
        (addressed_of_range hrange (haddr r (by simp))) 0
      exact ⟨rs ++ [(r, o)], w', hrun.snoc ⟨0, hexec⟩, by rw [List.map_append, hrs]; rfl⟩
  · intro rs w hrun hrs
    obtain ⟨h1, h2, h3, -⟩ := hrun.refines h0 commands (by rw [← hc, ← hrs, List.map_map]; rfl)
      (hall hrs haddr)
    exact ⟨h1, h2, h3.side, fun p => ⟨h3.bare.atRest.stops p, fun buys => h3.bare.atRest.aons buys p⟩⟩

/-- Time priority at level 5, a sweep that leaves some of a sell order to rest, a pull, and a market
order that finds no liquidity. -/
theorem refines_sweep_and_pull : ∃ rs w, MachineRun (World.create 1 20) rs w ∧
    rs.map (·.1) = [.limit true 5 4, .limit true 5 3, .limit true 4 2, .limit false 5 9,
      .pullOrder 3 .synchronous, Request.market true 5] ∧
    rs.map (·.2.answer) = [some (.value 1), some (.value 2), some (.value 3), some (.value 4),
      some (.value 1), some (.liquidity 5 3 5)] ∧
    w.trades = [⟨4, 1, 5, 4⟩, ⟨4, 2, 5, 3⟩, ⟨5, 4, 5, 2⟩] ∧
    (w.side true, w.side false) = ([], []) := by
  obtain ⟨⟨rs, w, hrun, hrs⟩, hall⟩ := refines_price_time
    (initial_create (by decide) (by decide) : Initial (World.create 1 20))
    [.limit true 5 4, .limit true 5 3, .limit true 4 2, .limit false 5 9,
      .pullOrder 3 .synchronous, Request.market true 5]
    [.limit true 5 4, .limit true 5 3, .limit true 4 2, .limit false 5 9, .pull 3,
      .market true 5] rfl (fun r hr => by fin_cases hr <;> decide +kernel)
  obtain ⟨ha, ht, hs, -⟩ := hall rs w hrun hrs
  exact ⟨rs, w, hrun, hrs, ha.trans (by decide +kernel), ht.trans (by decide +kernel),
    Prod.ext ((hs true).trans (by decide +kernel)) ((hs false).trans (by decide +kernel))⟩

/-- The book of the prices 88 to 138 takes an order for `2 ^ 59` ticks more, and it comes to rest at
the price of 128 ticks; a price-time book refuses it. -/
theorem not_refines_price_time : (∃ rs w, MachineRun (World.create 88 51) rs w ∧
      rs.map (·.1) = [.limit true 576460752303423616 5] ∧
      rs.map (·.2.answer) = [some (.value 1)] ∧ w.side true = [⟨1, 128, 5⟩]) ∧
    (PriceTime.Book.run (World.create 88 51).isOnBook [.limit true 576460752303423616 5] .empty).1 =
      [.refused] := by
  obtain ⟨rs, w, h, hrs, hw⟩ := @Run.exists_of_execAll .machine _
    (fun os w => (os.map (·.answer), w.side true)) ([some (.value 1)], [⟨1, 128, 5⟩]) 0
    [.limit true 576460752303423616 5] (World.create 88 51) (by decide +kernel)
  obtain ⟨hans, hside⟩ := Prod.mk.inj hw
  rw [List.map_map] at hans
  exact ⟨⟨rs, w, h, hrs, hans, hside⟩, by decide +kernel⟩

end Run
end SimpleOrderbook
