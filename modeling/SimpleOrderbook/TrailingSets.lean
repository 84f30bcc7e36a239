import SimpleOrderbook.Balance

/-!
# The trailing stops

`_trailing_buy_stops` and `_trailing_sell_stops` hold the ids of the active trailing stops and
brackets of their side. They leave the chains a little before they leave the sets, and a new one is
pushed a little before it enters; the flight knows which these are. Between trades, and whenever the
trailing stops are adjusted, sets and chains agree.
-/
namespace SimpleOrderbook

open Hoare

/-- A resting stop `id` of the side trails the market. -/
def Sob.Trails (s : Sob) (id : Nat) (isBuy : Bool) : Prop :=
  ∃ p, ∃ b ∈ (s.stops p).elems, b.id = id ∧ b.isBuy = isBuy ∧ b.isActiveTrailing

/-- The trailing sets hold the ids of the stops that trail. -/
def Sob.TrailingMatch (s : Sob) : Prop :=
  ∀ id isBuy, id ∈ s.trailingStops isBuy ↔ s.Trails id isBuy

/-- The id of every resting stop is cached. -/
def Sob.StopsCached (s : Sob) : Prop := ∀ p, ∀ id ∈ s.stopIds p, s.idCache id ≠ none

/-! ## What the sets and the chains say of a stop -/

/-- The id and the side of a stop, and whether it trails. -/
def StopBndl.tag (b : StopBndl) : Nat × Bool × Bool := (b.id, b.isBuy, b.isActiveTrailing)

namespace Sob

def tags (s : Sob) (p : Nat) : List (Nat × Bool × Bool) := (s.stops p).elems.map StopBndl.tag

def trailView (s : Sob) : (Nat → List (Nat × Bool × Bool)) × List Nat × List Nat :=
  (s.tags, s.trailingBuyStops, s.trailingSellStops)

variable {s s' : Sob}

theorem trails_iff {id : Nat} {isBuy : Bool} : s.Trails id isBuy ↔ ∃ p, (id, isBuy, true) ∈ s.tags p := by
  unfold Trails tags StopBndl.tag
  simp only [List.mem_map, Prod.mk.injEq]

theorem mem_stopIds {p id : Nat} : id ∈ s.stopIds p ↔ ∃ t ∈ s.tags p, t.1 = id := by
  unfold stopIds tags StopBndl.tag
  simp

theorem tags_of_view (h : s'.trailView = s.trailView) : s'.tags = s.tags := congrArg Prod.fst h

theorem trails_of_view (h : s'.trailView = s.trailView) : s'.Trails = s.Trails := by
  funext id isBuy
  rw [eq_iff_iff, trails_iff, trails_iff, tags_of_view h]

theorem trailingStops_of_view (h : s'.trailView = s.trailView) : s'.trailingStops = s.trailingStops := by
  have hb : s'.trailingBuyStops = s.trailingBuyStops := congrArg (·.2.1) h
  have hs : s'.trailingSellStops = s.trailingSellStops := congrArg (·.2.2) h
  funext isBuy
  unfold trailingStops
  rw [hb, hs]

theorem stopIds_of_view (h : s'.trailView = s.trailView) : s'.stopIds = s.stopIds := by
  funext p
  have htags : ∀ u : Sob, u.stopIds p = (u.tags p).map Prod.fst := fun u => by
    unfold stopIds tags
    rw [List.map_map]
    rfl
  rw [htags, htags, tags_of_view h]

theorem tags_of_stops (h : s'.stops = s.stops) : s'.tags = s.tags := by
  unfold tags
  rw [h]

theorem not_trails_of_not_mem {id : Nat} (h : ∀ p, id ∉ s.stopIds p) (isBuy : Bool) :
    ¬ s.Trails id isBuy := fun ht => by
  obtain ⟨p, hp⟩ := trails_iff.mp ht
  exact h p (mem_stopIds.mpr ⟨_, hp, rfl⟩)

theorem trailView_of (h : s'.stops = s.stops) (hsets : (s'.trailingBuyStops, s'.trailingSellStops) =
    (s.trailingBuyStops, s.trailingSellStops)) : s'.trailView = s.trailView :=
  Prod.ext (tags_of_stops h) hsets

/-! ### What leaves sets and chains alone -/

section Views
variable (s)

theorem trailView_report (w : World) (msg : CallbackMsg) (cb : OrderExecCbBndl) (id1 id2 : Nat)
    (price : Int) (sz : Nat) : (w.report msg cb id1 id2 price sz).trailView = w.trailView := by
  obtain ⟨_, _, h⟩ := w.report_eq msg cb id1 id2 price sz
  rw [h]
  rfl

theorem trailView_traded (w : World) (plev size idbuy idsell : Nat) (cbbuy cbsell : OrderExecCbBndl) :
    (w.traded plev size idbuy idsell cbbuy cbsell).trailView = w.trailView := by
  obtain ⟨_, _, h⟩ := w.traded_eq plev size idbuy idsell cbbuy cbsell
  rw [h]
  rfl

theorem trailView_setLimits (p : Nat) (c : ChainManager LimitBndl) :
    (s.setLimits p c).trailView = s.trailView :=
  trailView_of (by funext q; simp) rfl

theorem trailView_setAons (buys : Bool) (p : Nat) (c : ChainManager AonBndl) :
    (s.setAons buys p c).trailView = s.trailView :=
  trailView_of (by funext q; simp) rfl

theorem trailView_updateLimit (p id : Nat) (f : LimitBndl → LimitBndl) :
    (s.updateLimit p id f).trailView = s.trailView :=
  trailView_of (by funext q; simp [updateLimit]) rfl

theorem trailView_copiedToAons (buyLimit : Bool) (p : Nat) (b : LimitBndl) (c : ChainIterWrap) :
    (s.copiedToAons buyLimit p b c).trailView = s.trailView := by
  refine trailView_of (stops_copiedToAons s buyLimit p b c) ?_
  obtain ⟨_, _, _, _, h⟩ := Exec.Aon.adjustStateAfterInsert_eq buyLimit
    ((s.setAons true p ((s.aons true p).push b)).cacheInsert b.id
      ⟨if buyLimit then .aonBuy else .aonSell, c.p⟩) p
  unfold copiedToAons
  rw [h]
  rfl

theorem trailView_erasedAon (isBuy : Bool) (p id : Nat) :
    (s.erasedAon isBuy p id).trailView = s.trailView := by
  refine trailView_of (stops_erasedAon s isBuy p id) ?_
  unfold erasedAon
  dsimp only
  split
  · obtain ⟨_, _, _, _, h⟩ := Exec.Aon.adjustStateAfterPull_eq isBuy ((s.setAons isBuy p
      (ChainManager.ofList (Chain.eraseLimit (s.aons isBuy p).elems id))).cacheErase id) p
    rw [h]
    rfl
  · rfl

theorem trailView_freedAon (buys : Bool) (p : Nat) :
    (Exec.Aon.adjustStateAfterPull buys (s.setAons buys p none) p).trailView = s.trailView := by
  refine trailView_of (stops_freedAon s buys p) ?_
  obtain ⟨_, _, _, _, h⟩ := Exec.Aon.adjustStateAfterPull_eq buys (s.setAons buys p none) p
  rw [h]
  rfl

theorem trailView_freeLimits (bidSide : Bool) (p : Nat) :
    (Exec.Core.findNewBestInside bidSide (s.setLimits p none)).trailView = s.trailView := by
  obtain ⟨_, _, _, _, h⟩ := Exec.Core.findNewBestInside_eq bidSide (s.setLimits p none)
  refine Eq.trans ?_ (trailView_setLimits s p none)
  rw [h]
  rfl

theorem trailView_limitPush (buy : Bool) (p : Nat) (b : LimitBndl) :
    (Chain.limitPush buy s p b).trailView = s.trailView := by
  refine trailView_of (stops_limitPush s buy p b) ?_
  obtain ⟨_, h⟩ := (s.setLimits p ((s.limits p).push b)).cacheEmplace_eq b.id ⟨.limit, p⟩
  unfold Chain.limitPush
  rw [h]
  cases buy <;> rfl

theorem trailView_aonPush (buy : Bool) (p : Nat) (b : AonBndl) :
    (Chain.aonPush buy s p b).trailView = s.trailView := by
  refine trailView_of (stops_aonPush s buy p b) ?_
  obtain ⟨_, h⟩ := (s.setAons buy p ((s.aons buy p).push b)).cacheEmplace_eq b.id
    ⟨if buy then .aonBuy else .aonSell, p⟩
  unfold Chain.aonPush
  rw [h]
  cases buy <;> rfl

/-- A stop that is rewritten keeps its tag if it trails afterwards just if it did before. -/
theorem trailView_updateAt (c : ChainIterWrap) (id : Nat) {g : OrderBndl → OrderBndl}
    (hid : ∀ b, (g b).id = b.id)
    (hg : ∀ b ∈ (s.stops c.p).elems, b.id = id →
      (g b.toOrderBndl).isActiveTrailing = b.isActiveTrailing) :
    (s.updateAt c id g).trailView = s.trailView := by
  refine Prod.ext (funext fun p => ?_) (by unfold updateAt; split <;> rfl)
  change ((s.updateAt c id g).stops p).elems.map StopBndl.tag = (s.stops p).elems.map StopBndl.tag
  rw [stops_updateAt]
  split
  next hp =>
    obtain ⟨-, rfl⟩ := hp
    cases hl : s.stops c.p with
    | none => rfl
    | some l =>
      rw [hl] at hg
      change (Chain.updateStop _ id l).map _ = l.map _
      clear hl
      induction l with
      | nil => rfl
      | cons b l ih =>
        unfold Chain.updateStop
        split
        next hb =>
          rw [List.map_cons, List.map_cons]
          congr 1
          unfold StopBndl.tag
          rw [hid, hg b List.mem_cons_self hb]
        next =>
          rw [List.map_cons, List.map_cons,
            ih fun x hx => hg x (List.mem_cons_of_mem _ hx)]
  next => rfl

/-- An order that does not rest as a trailing stop gets a condition that does not trail. -/
theorem trailView_armed {c : ChainIterWrap} {id : Nat} {condition : OrderCondition}
    {trigger : ConditionTrigger} {payload : Payload} (hcond : ¬ condition.trails)
    (hno : ∀ isBuy, ¬ s.Trails id isBuy) :
    (s.armed c id condition trigger payload).trailView = s.trailView := by
  refine trailView_updateAt s c id (fun _ => rfl) fun b hb hid => ?_
  have hb' : ¬ b.isActiveTrailing := fun ht => hno b.isBuy ⟨c.p, b, hb, hid, rfl, ht⟩
  rw [Bool.not_eq_true] at hb'
  rw [hb', ← Bool.not_eq_true, OrderBndl.isActiveTrailing_iff]
  exact hcond

/-- An order that does not rest as a stop gets a condition. -/
theorem trailView_armed_of_not_mem {c : ChainIterWrap} {id : Nat} {condition : OrderCondition}
    {trigger : ConditionTrigger} {payload : Payload} (hno : ∀ p, id ∉ s.stopIds p) :
    (s.armed c id condition trigger payload).trailView = s.trailView :=
  trailView_updateAt s c id (fun _ => rfl) fun _ hb hid =>
    absurd (hid ▸ List.mem_map_of_mem hb) (hno c.p)

end Views

/-! ### What changes them -/

theorem mem_trailingErased {id j : Nat} {isBuy side : Bool} :
    j ∈ (s.trailingErased id isBuy).trailingStops side ↔
      j ∈ s.trailingStops side ∧ ¬ (j = id ∧ side = isBuy) := by
  cases isBuy <;> cases side <;> simp [trailingErased, trailingStops]

theorem mem_trailingInserted {id j : Nat} {isBuy side : Bool} :
    j ∈ (s.trailingInserted id isBuy).trailingStops side ↔
      j ∈ s.trailingStops side ∨ (j = id ∧ side = isBuy) := by
  have hins : ∀ l : List Nat, j ∈ trailingStopInsert.insertId id l ↔ j ∈ l ∨ j = id := fun l => by
    unfold trailingStopInsert.insertId
    split
    next hm => exact ⟨.inl, fun h => h.elim (fun h => h) fun h => h ▸ hm⟩
    next => rw [List.mem_orderedInsert, or_comm]
  cases isBuy <;> cases side <;> simp [trailingInserted, trailingStops, hins]

theorem tags_trailingErased (id : Nat) (isBuy : Bool) : (s.trailingErased id isBuy).tags = s.tags :=
  tags_of_stops (stops_of_files (files_trailingErased s id isBuy))

theorem tags_trailingInserted (id : Nat) (isBuy : Bool) : (s.trailingInserted id isBuy).tags = s.tags :=
  tags_of_stops (stops_of_files (files_trailingInserted s id isBuy))

theorem trailingStops_erasedStop (p : Nat) (b : StopBndl) :
    (s.erasedStop p b).trailingStops = s.trailingStops := by
  obtain ⟨_, _, _, _, _, _, h⟩ := s.erasedStop_eq p b
  rw [h]
  rfl

theorem mem_tags_stopPush {p q : Nat} {b : StopBndl} {t : Nat × Bool × Bool} :
    t ∈ (Chain.stopPush s p b).tags q ↔ t ∈ s.tags q ∨ (q = p ∧ t = b.tag) := by
  unfold tags Chain.stopPush
  rw [stops_of_files (Exec.Stop.files_adjustStateAfterInsert _ _ _), stops_cacheEmplace, stops_setStops]
  split
  next hq => subst hq; simp [eq_comm]
  next hq => simp [hq]

theorem trails_stopPush {p id : Nat} {b : StopBndl} {isBuy : Bool} :
    (Chain.stopPush s p b).Trails id isBuy ↔ s.Trails id isBuy ∨ (id, isBuy, true) = b.tag := by
  simp only [trails_iff, mem_tags_stopPush]
  constructor
  · rintro ⟨q, ht | ⟨-, ht⟩⟩
    · exact .inl ⟨q, ht⟩
    · exact .inr ht
  · rintro (⟨q, ht⟩ | ht)
    · exact ⟨q, .inl ht⟩
    · exact ⟨p, .inr ⟨rfl, ht⟩⟩

theorem trailingStops_stopPush (p : Nat) (b : StopBndl) :
    (Chain.stopPush s p b).trailingStops = s.trailingStops := by
  obtain ⟨_, _, _, _, h⟩ := Exec.Stop.adjustStateAfterInsert_eq b.isBuy
    ((s.setStops p ((s.stops p).push b)).cacheEmplace b.id ⟨.stop, p⟩) p
  obtain ⟨_, h'⟩ := (s.setStops p ((s.stops p).push b)).cacheEmplace_eq b.id ⟨.stop, p⟩
  unfold Chain.stopPush
  rw [h, h']
  rfl

theorem tags_detached (buyStops : Bool) (p q : Nat) :
    (Exec.Stop.adjustStateAfterTrigger buyStops (s.setStops p none) p).tags q =
      if q = p then [] else s.tags q := by
  unfold tags
  rw [stops_of_files (Exec.Stop.files_adjustStateAfterTrigger _ _ _), stops_setStops]
  split <;> rfl

theorem trailingStops_detached (buyStops : Bool) (p : Nat) :
    (Exec.Stop.adjustStateAfterTrigger buyStops (s.setStops p none) p).trailingStops =
      s.trailingStops := by
  obtain ⟨_, _, _, _, h⟩ := Exec.Stop.adjustStateAfterTrigger_eq buyStops (s.setStops p none) p
  rw [h]
  rfl

end Sob

/-! ### A stop is in one place -/

section Filed
variable {F : Flight} {w : World} {p q : Nat}

/-- An id names one stop of the book. -/
theorem Filed.tag_unique (h : Filed F w) {t t' : Nat × Bool × Bool} (ht : t ∈ w.tags p)
    (ht' : t' ∈ w.tags q) (hid : t.1 = t'.1) : p = q ∧ t = t' := by
  obtain ⟨x, hx, rfl⟩ := List.mem_map.mp ht
  obtain ⟨y, hy, rfl⟩ := List.mem_map.mp ht'
  have hid : x.id = y.id := hid
  have hdrawer : ∀ {r : Nat} {z : StopBndl}, z ∈ (w.stops r).elems →
      z.id ∈ (w.cabinet F).drawer (.stop, r) := fun hz =>
    List.mem_append_left _ (List.mem_map_of_mem hz)
  have heq : ((.stop, p) : Kind × Nat) = (.stop, q) :=
    h.cabinet.eq_of_mem (hdrawer hx) (hid ▸ hdrawer hy)
  obtain rfl : p = q := congrArg Prod.snd heq
  have hnodup : (w.stopIds p).Nodup := (List.nodup_append.mp (h.cabinet.nodup (.stop, p))).1
  exact ⟨rfl, congrArg StopBndl.tag (List.inj_on_of_nodup_map hnodup hx hy hid)⟩

theorem Filed.stopsCached (h : Filed F w) : w.StopsCached := fun p id hm hn => by
  have hd : id ∈ (w.cabinet F).drawer (.stop, p) := List.mem_append_left _ hm
  have := h.cabinet.mem_iff.mp hd
  simp [Sob.cabinet, hn] at this

/-- The stops of the chain that is triggered are in no chain. -/
theorem Filed.detached_not_mem (h : Filed F w) {d : Detached} (hdet : F.detached = some d)
    {b : StopBndl} (hb : b ∈ d.todo) : b.id ∉ w.stopIds p := fun hm => by
  have hd : b.id ∈ F.detachedAt d.plev := by
    unfold Flight.detachedAt
    rw [hdet]
    simp only [if_true]
    exact List.mem_append_left _ (List.mem_map_of_mem hb)
  have heq : ((.stop, p) : Kind × Nat) = (.stop, d.plev) := h.cabinet.eq_of_mem (i := b.id)
    (List.mem_append_left _ hm) (List.mem_append_right _ hd)
  obtain rfl : p = d.plev := congrArg Prod.snd heq
  exact (List.nodup_append.mp (h.cabinet.nodup (.stop, d.plev))).2.2 b.id hm b.id hd rfl

/-- An order that waits is in no chain of stops. -/
theorem Filed.pending_not_mem (h : Filed F w) {id : Nat} (hid : id ∈ w.pending F) :
    id ∉ w.stopIds p := fun hm => by
  exact (h.known id (h.stopsCached p id hm)).2 hid

theorem Chain.mem_eraseStop {l : List StopBndl} (hn : (l.map (·.id)).Nodup) {id : Nat} {x : StopBndl} :
    x ∈ eraseStop l id ↔ x ∈ l ∧ x.id ≠ id := by
  unfold eraseStop
  induction l with
  | nil => simp
  | cons y l ih =>
    obtain ⟨hy, hn⟩ := List.nodup_cons.mp hn
    by_cases hid : y.id = id
    · have hother : ∀ z ∈ l, z.id ≠ id := fun z hz heq =>
        hy (List.mem_map.mpr ⟨z, hz, heq.trans hid.symm⟩)
      rw [List.eraseP_cons_of_pos (by simpa using hid)]
      refine ⟨fun hx => ⟨List.mem_cons_of_mem _ hx, hother x hx⟩, fun hx => ?_⟩
      exact (List.mem_cons.mp hx.1).resolve_left fun heq => hx.2 (heq ▸ hid)
    · rw [List.eraseP_cons_of_neg (by simpa using hid), List.mem_cons, ih hn, List.mem_cons]
      constructor
      · rintro (rfl | ⟨hx, hne⟩)
        · exact ⟨.inl rfl, hid⟩
        · exact ⟨.inr hx, hne⟩
      · rintro ⟨rfl | hx, hne⟩
        · exact .inl rfl
        · exact .inr ⟨hx, hne⟩

/-- The other stops stay where a stop is popped. -/
theorem Filed.mem_tags_erasedStop (h : Filed F w) {b : StopBndl} (hb : b ∈ (w.stops p).elems)
    {t : Nat × Bool × Bool} : t ∈ (w.erasedStop p b).tags q ↔ t ∈ w.tags q ∧ t.1 ≠ b.id := by
  have hnodup : (w.stopIds p).Nodup := (List.nodup_append.mp (h.cabinet.nodup (.stop, p))).1
  have hbt : b.tag ∈ w.tags p := List.mem_map_of_mem hb
  unfold Sob.tags
  rw [stops_erasedStop]
  split
  next hq =>
    subst hq
    rw [ChainManager.elems_ofList]
    simp only [List.mem_map, Chain.mem_eraseStop hnodup]
    constructor
    · rintro ⟨x, ⟨hx, hne⟩, rfl⟩
      exact ⟨⟨x, hx, rfl⟩, hne⟩
    · rintro ⟨⟨x, hx, rfl⟩, hne⟩
      exact ⟨x, ⟨hx, hne⟩, rfl⟩
  next hq =>
    refine ⟨fun ht => ⟨ht, fun hid => hq ?_⟩, fun ht => ht.1⟩
    exact (h.tag_unique ht hbt hid).1

end Filed

/-! ## Pulled stops -/

/-- No stop was pulled of which nothing was left. -/
def World.PullsFull (w : World) : Prop := ∀ id, .pullEmptyStop id ∉ w.trace

theorem World.PullsFull.of_suffix {w w' : World} (h : w'.PullsFull) (ht : w.trace <:+ w'.trace) :
    w.PullsFull := fun id hm => h id (ht.subset hm)

theorem World.PullsFull.close {w w' : World} (h : w.PullsFull) (hc : w.ClosesTo w') : w'.PullsFull := by
  intro id hm
  rcases hc.trace with ht | ⟨dropped, ht⟩
  · exact h id (ht ▸ hm)
  · rw [ht] at hm
    exact h id ((List.mem_cons.mp hm).resolve_left nofun)

/-- What a transition may do to the stops that were pulled: more of the book may join them, and the
pull of an empty one is recorded. -/
structure PullsStops (c c' : Config) : Prop where
  leaving : ∀ b ∈ c'.1.leaving, b ∈ c.1.leaving ∨ ∃ p, b ∈ (c.2.stops p).elems
  pulls : ∀ id, .pullEmptyStop id ∈ c'.2.trace →
    .pullEmptyStop id ∈ c.2.trace ∨ ∃ b ∈ c.1.leaving, b.sz = 0

section PullsStops
variable {c c' : Config}

/-- The calls `evs` were made, and pull no empty stop. -/
theorem PullsStops.after (evs : List Event) (hleft : c'.1.leaving = c.1.leaving)
    (htrace : c'.2.trace = evs ++ c.2.trace) (hevs : ∀ id, .pullEmptyStop id ∉ evs) :
    PullsStops c c' := by
  refine ⟨fun b hb => .inl (hleft ▸ hb), fun id hm => .inl ?_⟩
  rw [htrace] at hm
  exact (List.mem_append.mp hm).resolve_left (hevs id)

theorem Act.pullsStops (h : Act c c') : PullsStops c c' := by
  cases h with
  | popStop id cw b hc hb =>
    refine ⟨fun x hx => ?_, fun _ hm => .inl hm⟩
    rcases List.mem_cons.mp hx with rfl | hx
    · exact .inr ⟨cw.p, Chain.findStop_mem hb⟩
    · exact .inl hx
  | pullEmptyStop b leaving hleft hsz =>
    have hb : ∀ x ∈ leaving, x ∈ b :: leaving := fun x => List.mem_cons_of_mem b
    exact ⟨fun x hx => .inl (hleft ▸ hb x hx), fun _ _ => .inr ⟨b, hleft ▸ List.mem_cons_self, hsz⟩⟩
  | trailingErase b leaving hleft =>
    exact ⟨fun x hx => .inl (hleft ▸ List.mem_cons_of_mem b hx), fun _ hm => .inl hm⟩
  | report => exact .after [_] rfl (trace_report ..) (by simp)
  | growBoth => exact .after [_] rfl ((World.trace_onSob ..).trans (trace_report ..)) (by simp)
  | enqueue | moveFront | missFront | popAon | pulled | look => exact .after [_] rfl rfl (by simp)
  | _ => exact .after [] rfl rfl (by simp)

theorem Move.pullsStops (h : Move c c') : PullsStops c c' := by
  cases h with
  | act h => exact h.pullsStops
  | call ev hev =>
    refine .after [ev] rfl rfl fun id hm => ?_
    exact (List.mem_singleton.mp hm ▸ hev : (Event.pullEmptyStop id).CallIn _)
  | fillAon | fillLastAon => exact .after [_, _, _, _] rfl (congrArg (_ :: ·) (trace_traded ..)) (by simp)
  | fill => exact .after [_, _, _] rfl (trace_traded ..) (by simp)
  | moveStop => exact .after [_] rfl (trace_movedStop ..) (by simp)
  | turn => exact .after [_, _, _] rfl (trace_turned ..) (by simp)
  | retire | moveHit | beginScan | beginHit | turnScan => exact .after [_] rfl rfl (by simp)
  | _ => exact .after [] rfl rfl (by simp)

/-- A step is a trade, or pulls stops as a transition does. -/
theorem Step.pullsStops (h : Step c c') : Moves c c' ∨ PullsStops c c' := by
  cases h with
  | act h => exact .inr h.pullsStops
  | trade _ _ _ _ _ _ _ _ _ _ hm => exact .inl hm
  | kill => exact .inr (.after [_] rfl (trace_report ..) (by simp))
  | print => exact .inr (.after [_, _, _, _] rfl (trace_traded ..) (by simp))
  | accept | trailingInsert => exact .inr (.after [_] rfl rfl (by simp))
  | _ => exact .inr (.after [] rfl rfl (by simp))

end PullsStops

/-- No stop that is pulled is empty, for none that rests is. -/
structure FullPulls (c : Config) : Prop where
  balanced : Balanced c
  leaving : ∀ b ∈ c.1.leaving, b.sz ≠ 0
  pulls : c.2.PullsFull

namespace FullPulls
variable {c c' : Config}

theorem next (h : FullPulls c) (hB : Balanced c') (hp : PullsStops c c') : FullPulls c' := by
  refine ⟨hB, fun b hb => ?_, fun id hm => ?_⟩
  · rcases hp.leaving b hb with hb | ⟨p, hb⟩
    · exact h.leaving b hb
    · exact h.balanced.sized (.stop, p) b.toOrderBndl (resident_stop.mpr ⟨b, .inl hb, rfl⟩)
  · rcases hp.pulls id hm with hm | ⟨b, hb, hsz⟩
    · exact h.pulls id hm
    · exact h.leaving b hb hsz

theorem initial {w : World} (h : Initial w) (qe : Option OrderQueueElem) : FullPulls (.opened qe, w) :=
  ⟨.initial h qe, fun b hb => (by cases hb), fun id hm => by rw [h.2] at hm; cases hm⟩

theorem kept : KeptFiled fun c => c.2.NoEmptyHit → FullPulls c where
  move hw hi hm h hzero :=
    have h' := h (hzero.of_suffix hm.trace_suffix)
    h'.next (Balanced.kept.move hw hi hm (fun _ => h'.balanced) hzero) hm.pullsStops
  step hw hs hnt hext hstep h htrade hzero := by
    have h' := h (hzero.of_suffix hstep.trace_suffix)
    rcases hstep.pullsStops with hm | hp
    · exact htrade hm hzero
    · exact h'.next (Balanced.kept.step hw hs hnt hext hstep (fun _ => h'.balanced)
        (fun hm hzero => (htrade hm hzero).balanced) hzero) hp
  grow hw hincr h hzero :=
    ⟨Balanced.kept.grow hw hincr (fun hz => (h hz).balanced) hzero, fun b hb => (by cases hb),
      (h hzero).pulls⟩
  close h hc hq hzero := by
    have h' := h (hzero.of_suffix hc.trace_suffix)
    exact ⟨Balanced.kept.close (fun _ => h'.balanced) hc hq hzero, fun b hb => (by cases hb),
      h'.pulls.close hc⟩

end FullPulls

theorem Run.pullsFull {w₀ w w' : World} {rs : List (Request × Outcome)} {r : Request} {o : Outcome}
    (h0 : Initial w₀) (h : Run w₀ rs w) (hv : ∀ x ∈ rs, x.2.isValue = true) (hwin : Window r w o w')
    (hzero : w'.NoEmptyHit) : w'.PullsFull := by
  obtain ⟨F, w1, hp, hto⟩ := FullPulls.kept.next h0 (fun qe _ => .initial h0 qe) h hv hwin hzero
  exact (hp (hzero.of_suffix hto.trace_suffix)).pulls.close hto

/-! ## The invariant -/

/-- The trailing stops of which sets and chains say different things for a while: the ones that were
pulled, the ones of the chain that is triggered, and the ones that are pushed. -/
def Flight.Underway (F : Flight) (id : Nat) (isBuy : Bool) : Prop :=
  (id, isBuy, true) ∈ F.leaving.map StopBndl.tag ∨
    (∃ d, F.detached = some d ∧ (id, isBuy, true) ∈ d.todo.map StopBndl.tag) ∨
    (id, isBuy) ∈ F.arriving

theorem Flight.Calm.not_underway {F : Flight} (h : F.Calm) {id : Nat} {isBuy : Bool} :
    ¬ F.Underway id isBuy := by
  unfold Underway
  simp [h.leaving, h.detached, h.arriving]

/-- A stop of the chain that is triggered is still of it. -/
theorem Flight.Underway.of_todo {F F' : Flight} {id : Nat} {isBuy : Bool} (h : F.Underway id isBuy)
    (hleft : F'.leaving = F.leaving) (harr : F'.arriving = F.arriving)
    (htodo : ∀ d, F.detached = some d → (id, isBuy, true) ∈ d.todo.map StopBndl.tag →
      ∃ d', F'.detached = some d' ∧ (id, isBuy, true) ∈ d'.todo.map StopBndl.tag) :
    F'.Underway id isBuy := by
  unfold Underway
  rw [hleft, harr]
  exact h.imp_right (.imp_left fun ⟨d, hd, ht⟩ => htodo d hd ht)

/-- What a scan met when it began and when it turned; the stops only get fewer since. -/
structure Scan.Meets (sc : Scan) (w : World) : Prop where
  start : .lookForTriggeredStops sc.start ∈ w.trace ∧ ∀ p, w.tags p ⊆ sc.start.tags p
  turn : ∀ s, sc.turn = some s → .lookForSellStops s ∈ w.trace ∧ ∀ p, w.tags p ⊆ s.tags p

structure TrailingSets (c : Config) : Prop where
  sets : ∀ id isBuy, ¬ c.1.Underway id isBuy →
    (id ∈ c.2.trailingStops isBuy ↔ c.2.Trails id isBuy)
  leaving : ∀ b ∈ c.1.leaving, ∀ p, b.id ∉ c.2.stopIds p
  /-- A scan takes trailing stops of its own side. -/
  side : ∀ d, c.1.detached = some d → c.1.scan ≠ none ∧
    ∀ b ∈ d.todo, b.isActiveTrailing → b.isBuy = d.buyStops
  erased : ∀ d e todo, c.1.detached = some d → d.todo = e :: todo → d.turning = none →
    c.1.acting ≠ none → e.id ∉ c.2.trailingStops d.buyStops
  scan : ∀ sc, c.1.scan = some sc → sc.Meets c.2
  /-- The order under insertion does not rest as a stop that trails, unless it was made to. -/
  still : ∀ e, c.1.cur = some e → ¬ e.condition.trails → ∀ id, (id = e.id ∨ ∃ l ∈ c.1.legs, l.id = id) →
    ∀ isBuy, ¬ c.2.Trails id isBuy
  /-- The target of a trailing bracket rests as a limit order. -/
  target : ∀ e, c.1.cur = some e → e.condition = .trailingBracketActive →
    e.type = .limit ∧ ∀ l ∈ c.1.legs, ∀ p, l.id ∉ c.2.stopIds p
  queue : ∀ e ∈ c.2.internalOrderQueue, e.condition = .trailingBracketActive → e.type = .limit
  calls : ∀ s buyStops p, .trailingStopsAdjust s buyStops p ∈ c.2.trace →
    s.TrailingMatch ∧ s.StopsCached

/-- No stop of the wrong side trails where a scan looks. -/
structure World.TrailsApart (w : World) : Prop where
  buys : ∀ s, .lookForTriggeredStops s ∈ w.trace → ∀ p, s.lowBuyStop ≤ p → p ≤ s.last →
    ∀ b ∈ (s.stops p).elems, b.isActiveTrailing → b.isBuy = true
  sells : ∀ s, .lookForSellStops s ∈ w.trace → ∀ p, s.last ≤ p → p ≤ s.highSellStop →
    ∀ b ∈ (s.stops p).elems, b.isActiveTrailing → b.isBuy = false

theorem World.TrailsApart.of_suffix {w w' : World} (h : w'.TrailsApart) (ht : w.trace <:+ w'.trace) :
    w.TrailsApart :=
  ⟨fun s hm => h.buys s (ht.subset hm), fun s hm => h.sells s (ht.subset hm)⟩

namespace TrailingSets
variable {c c' : Config}

theorem calls_of_news (h : TrailingSets c) (hi : Filed c.1 c.2) {trace : List Event} (hn : News c trace) :
    ∀ s buyStops p, .trailingStopsAdjust s buyStops p ∈ trace → s.TrailingMatch ∧ s.StopsCached := by
  intro s buyStops p hm
  rcases hn _ hm with hm | hev
  · exact h.calls s buyStops p hm
  · obtain ⟨rfl, hcalm⟩ := hev s rfl
    exact ⟨fun id isBuy => h.sets id isBuy (Flight.Calm.not_underway hcalm), hi.stopsCached⟩

/-- A transition that brings no trailing stop into the book, and whose change of sets and chains is
accounted for. -/
theorem fade (h : TrailingSets c) (hi : Filed c.1 c.2) (hn : News c c'.2.trace) (hsuf : c.2.trace <:+ c'.2.trace)
    (hsets : ∀ id isBuy, ¬ c'.1.Underway id isBuy →
      (id ∈ c'.2.trailingStops isBuy ↔ c'.2.Trails id isBuy))
    (htags : ∀ p, ∀ t ∈ c'.2.tags p, ∃ q, t ∈ c.2.tags q)
    (hlevels : c'.1.scan ≠ none → ∀ p, c'.2.tags p ⊆ c.2.tags p)
    (hleft : ∀ b ∈ c'.1.leaving, b ∈ c.1.leaving ∨ ∀ p, b.id ∉ c'.2.stopIds p)
    (hside : ∀ d, c'.1.detached = some d → c'.1.scan ≠ none ∧
      ∀ b ∈ d.todo, b.isActiveTrailing → b.isBuy = d.buyStops)
    (herased : ∀ d e todo, c'.1.detached = some d → d.todo = e :: todo → d.turning = none →
      c'.1.acting ≠ none → e.id ∉ c'.2.trailingStops d.buyStops)
    (hscan : ∀ sc, c'.1.scan = some sc → c.1.scan = some sc)
    (hcur : c'.1.cur = c.1.cur) (hlegs : c'.1.legs = c.1.legs)
    (hqueue : ∀ e ∈ c'.2.internalOrderQueue, e ∈ c.2.internalOrderQueue ∨ c.1.Generates e) :
    TrailingSets c' := by
  have htrails : ∀ {id isBuy}, c'.2.Trails id isBuy → c.2.Trails id isBuy := fun ht => by
    obtain ⟨p, hp⟩ := Sob.trails_iff.mp ht
    exact Sob.trails_iff.mpr (htags p _ hp)
  have hids : ∀ {id : Nat}, (∀ p, id ∉ c.2.stopIds p) → ∀ p, id ∉ c'.2.stopIds p := fun hno p hm => by
    obtain ⟨t, ht, rfl⟩ := Sob.mem_stopIds.mp hm
    obtain ⟨q, hq⟩ := htags p t ht
    exact hno q (Sob.mem_stopIds.mpr ⟨t, hq, rfl⟩)
  refine ⟨hsets, fun b hb p => ?_, hside, herased, fun sc hsc => ?_, fun e he hc id hid isBuy ht => ?_,
    fun e he hc => ?_, fun e he hc => ?_, h.calls_of_news hi hn⟩
  · rcases hleft b hb with hb | hno
    · exact hids (h.leaving b hb) p
    · exact hno p
  · have hm := h.scan sc (hscan sc hsc)
    have hsub := hlevels (by rw [hsc]; simp)
    exact ⟨⟨hsuf.subset hm.start.1, fun p => List.Subset.trans (hsub p) (hm.start.2 p)⟩,
      fun s hs => ⟨hsuf.subset (hm.turn s hs).1,
        fun p => List.Subset.trans (hsub p) ((hm.turn s hs).2 p)⟩⟩
  · exact h.still e (hcur ▸ he) hc id (hlegs ▸ hid) isBuy (htrails ht)
  · obtain ⟨hty, hl⟩ := h.target e (hcur ▸ he) hc
    exact ⟨hty, fun l hl' => hids (hl l (hlegs ▸ hl'))⟩
  · rcases hqueue e he with he | hg
    · exact h.queue e he hc
    · exact hg.type (.inr hc)

/-- Sets, chains and what is under way with them are as they were. -/
theorem same (h : TrailingSets c) (hi : Filed c.1 c.2) (hn : News c c'.2.trace) (hsuf : c.2.trace <:+ c'.2.trace)
    (hv : c'.2.trailView = c.2.trailView) (hleft : c'.1.leaving = c.1.leaving)
    (harr : c'.1.arriving = c.1.arriving) (hdet : c'.1.detached = c.1.detached)
    (hscan : c'.1.scan = c.1.scan) (hact : c'.1.acting ≠ none → c.1.acting ≠ none ∨ c.1.detached = none)
    (hcur : c'.1.cur = c.1.cur) (hlegs : c'.1.legs = c.1.legs)
    (hqueue : ∀ e ∈ c'.2.internalOrderQueue, e ∈ c.2.internalOrderQueue ∨ c.1.Generates e) :
    TrailingSets c' := by
  have htags := Sob.tags_of_view hv
  have hway : c'.1.Underway = c.1.Underway := by
    funext id isBuy
    unfold Flight.Underway
    rw [hleft, harr, hdet]
  refine h.fade hi hn hsuf (fun id isBuy hno => ?_) (fun p t ht => ⟨p, htags ▸ ht⟩)
    (fun _ p => by rw [htags]; exact List.Subset.refl _) (fun b hb => .inl (hleft ▸ hb))
    (fun d hd => ?_) (fun d e todo hd htodo hturn ha => ?_) (fun sc hsc => hscan ▸ hsc) hcur hlegs hqueue
  · rw [Sob.trailingStops_of_view hv, Sob.trails_of_view hv]
    exact h.sets id isBuy (hway ▸ hno)
  · rw [hscan]
    exact h.side d (hdet ▸ hd)
  · rw [Sob.trailingStops_of_view hv]
    rcases hact ha with ha | hno
    · exact h.erased d e todo (hdet ▸ hd) htodo hturn ha
    · rw [hdet, hno] at hd
      cases hd

/-! ### Transitions -/

theorem popped (h : TrailingSets c) (hi : Filed c.1 c.2) {p : Nat} {b : StopBndl}
    (hb : b ∈ (c.2.stops p).elems) {F' : Flight} {w' : World} (hw : w'.toSob = c.2.erasedStop p b)
    (hF : F' = { c.1 with hands := F'.hands, leaving := b :: c.1.leaving })
    (htrace : w'.trace = c.2.trace) : TrailingSets (F', w') := by
  have htags : ∀ {q t}, t ∈ w'.tags q ↔ t ∈ c.2.tags q ∧ t.1 ≠ b.id := fun {q t} => by
    rw [hw]
    exact hi.mem_tags_erasedStop hb
  have hstops : w'.trailingStops = c.2.trailingStops := by
    rw [hw]
    exact Sob.trailingStops_erasedStop p b
  have hq : w'.internalOrderQueue = c.2.internalOrderQueue := by
    rw [hw]
    exact queue_of_bookView (bookView_erasedStop c.2.toSob p b)
  have hbt : b.tag ∈ c.2.tags p := List.mem_map_of_mem hb
  rw [hF]
  have hn : News c w'.trace := htrace ▸ .refl c
  refine h.fade hi hn (htrace ▸ List.suffix_refl _)
    (fun id isBuy hno => ?_) (fun q t ht => ⟨q, (htags.mp ht).1⟩)
    (fun _ q t ht => (htags.mp ht).1) (fun x hx => ?_) h.side (fun d e todo hd htodo hturn ha => ?_)
    (fun _ hsc => hsc) rfl rfl fun e he => .inl (hq ▸ he)
  · have hno : ¬ c.1.Underway id isBuy ∧ (id, isBuy, true) ≠ b.tag := by
      unfold Flight.Underway at hno ⊢
      simp only [List.map_cons, List.mem_cons] at hno
      exact ⟨fun hway => hno (hway.imp_left .inr), fun heq => hno (.inl (.inl heq))⟩
    rw [hstops, h.sets id isBuy hno.1, Sob.trails_iff, Sob.trails_iff]
    -- a stop with the id of `b` is `b`
    refine exists_congr fun q => ⟨fun ht => htags.mpr ⟨ht, fun hid => hno.2 ?_⟩, fun ht => (htags.mp ht).1⟩
    exact (hi.tag_unique ht hbt hid).2
  · rcases List.mem_cons.mp hx with rfl | hx
    · refine .inr fun q hm => ?_
      obtain ⟨t, ht, hid⟩ := Sob.mem_stopIds.mp hm
      exact (htags.mp ht).2 hid
    · exact .inl hx
  · rw [hstops]
    exact h.erased d e todo hd htodo hturn ha

theorem act (h : TrailingSets c) (hi : Filed c.1 c.2) (ha : Act c c') (hfull : c'.2.PullsFull) :
    TrailingSets c' := by
  have hn := ha.news
  have hsuf := ha.trace_suffix
  have hq := ha.queue
  cases ha with
  | report => exact h.same hi hn hsuf (Sob.trailView_report ..) rfl rfl rfl rfl .inl rfl rfl hq
  | moveFront =>
    exact h.same hi hn hsuf ((Sob.trailView_setLimits ..).trans (Sob.trailView_copiedToAons ..))
      rfl rfl rfl rfl .inl rfl rfl hq
  | popLimit => exact h.same hi hn hsuf (Sob.trailView_setLimits ..) rfl rfl rfl rfl .inl rfl rfl hq
  | @settle F w p =>
    obtain ⟨_, _, _, _, heq⟩ := Exec.Limit.adjustStateAfterPull_eq (decide (p ≤ w.bid)) w.toSob p
    refine h.same hi hn hsuf ?_ rfl rfl rfl rfl .inl rfl rfl hq
    rw [World.toSob_onSob, heq]
    rfl
  | popAon => exact h.same hi hn hsuf (Sob.trailView_erasedAon ..) rfl rfl rfl rfl .inl rfl rfl hq
  | @popStop F w id cw b hc hb =>
    exact h.popped hi (Chain.findStop_mem hb) rfl rfl rfl
  | @trailingErase F w b leaving hleft =>
    have hb : ∀ p, b.id ∉ w.stopIds p := h.leaving b (hleft ▸ List.mem_cons_self)
    refine h.fade hi hn hsuf (fun id isBuy hno => ?_) (fun q t ht => ⟨q, ?_⟩) (fun _ q t ht => ?_)
      (fun x hx => .inl (hleft ▸ List.mem_cons_of_mem _ hx)) h.side
      (fun d e todo hd htodo hturn ha hm => h.erased d e todo hd htodo hturn ha
        (Sob.mem_trailingErased.mp hm).1) (fun _ hsc => hsc) rfl rfl hq
    · rw [World.toSob_onSob, Sob.mem_trailingErased, Sob.trails_iff, Sob.tags_trailingErased,
        ← Sob.trails_iff]
      by_cases hid : id = b.id
      · -- the stop is gone from the book
        have hnone : ¬ w.Trails id isBuy := fun ht => by
          obtain ⟨p, hp⟩ := Sob.trails_iff.mp ht
          exact hb p (Sob.mem_stopIds.mpr ⟨_, hp, hid⟩)
        refine ⟨fun ⟨hm, hne⟩ => ?_, fun ht => absurd ht hnone⟩
        refine (h.sets id isBuy ?_).mp hm
        rintro (hway | hway)
        · rw [hleft, List.map_cons] at hway
          rcases List.mem_cons.mp hway with heq | hway
          · exact hne ⟨hid, congrArg (·.2.1) heq⟩
          · exact hno (.inl hway)
        · exact hno (.inr hway)
      · rw [and_iff_left fun hc => hid hc.1]
        refine h.sets id isBuy ?_
        rintro (hway | hway)
        · rw [hleft, List.map_cons] at hway
          rcases List.mem_cons.mp hway with heq | hway
          · exact hid (congrArg Prod.fst heq)
          · exact hno (.inl hway)
        · exact hno (.inr hway)
    all_goals
      rw [World.toSob_onSob, Sob.tags_trailingErased] at ht
      exact ht
  | @pullEmptyStop F w b => exact absurd List.mem_cons_self (hfull b.id)
  | @grow F w params id cw a =>
    exact h.same hi hn hsuf (Sob.trailView_updateAt _ cw id (g := incrSize a.amount) (fun _ => rfl)
      fun _ _ _ => rfl) rfl rfl rfl rfl .inl rfl rfl hq
  | @tell F w link cw a hgap ha =>
    exact h.same hi hn hsuf (Sob.trailView_updateAt _ cw link.id (g := decrSize a.amount) (fun _ => rfl)
      fun _ _ _ => rfl) rfl rfl rfl rfl (fun _ => .inl (by rw [ha]; simp)) rfl rfl hq
  | @growBoth F w first second id1 id2 c1 c2 a =>
    have hgrow : ∀ (s : Sob) (cw : ChainIterWrap) (id : Nat),
        (s.updateAt cw id (incrSize a.amount)).trailView = s.trailView := fun s cw id =>
      Sob.trailView_updateAt s cw id (fun _ => rfl) fun _ _ _ => rfl
    exact h.same hi hn hsuf ((hgrow _ c2 id2).trans ((Sob.trailView_report ..).trans (hgrow _ c1 id1)))
      rfl rfl rfl rfl .inl rfl rfl hq
  | _ => exact h.same hi hn hsuf rfl rfl rfl rfl rfl .inl rfl rfl hq

theorem moved (h : TrailingSets c) (hi : Filed c.1 c.2) (hscan : c.1.scan = none) {p pAdj : Nat}
    {b : StopBndl} (hb : b ∈ (c.2.stops p).elems)
    (hn : News c (c.2.movedStop p b pAdj).trace) (hsuf : c.2.trace <:+ (c.2.movedStop p b pAdj).trace) :
    TrailingSets (c.1, c.2.movedStop p b pAdj) := by
  let w1 := (c.2.onSob (·.erasedStop p b)).report
    (if b.isActiveTrailingStop then .triggerTrailingStopAdjLoss else .triggerBracketAdjLoss)
    b.cb b.id b.id (c.2.itop pAdj) b.sz
  have hv : w1.trailView = (c.2.erasedStop p b).trailView := Sob.trailView_report ..
  have hbt : b.tag ∈ c.2.tags p := List.mem_map_of_mem hb
  have htags : ∀ {q t}, t ∈ (c.2.movedStop p b pAdj).tags q ↔
      (t ∈ c.2.tags q ∧ t.1 ≠ b.id) ∨ (q = pAdj ∧ t = b.tag) := fun {q t} => by
    change t ∈ (Chain.stopPush w1.toSob pAdj b).tags q ↔ _
    rw [Sob.mem_tags_stopPush, Sob.tags_of_view hv, hi.mem_tags_erasedStop hb]
  have hstops : (c.2.movedStop p b pAdj).trailingStops = c.2.trailingStops :=
    (Sob.trailingStops_stopPush pAdj b).trans
      ((Sob.trailingStops_of_view hv).trans (Sob.trailingStops_erasedStop p b))
  have hbook := bookView_movedStop c.2 p b pAdj
  refine h.fade hi hn hsuf (fun id isBuy hno => ?_) (fun q t ht => ?_)
    (fun hs => absurd hscan hs) (fun _ hx => .inl hx) h.side
    (fun d e todo hd htodo hturn ha => hstops ▸ h.erased d e todo hd htodo hturn ha)
    (fun _ hsc => hsc) rfl rfl fun e he => .inl (queue_of_bookView hbook ▸ he)
  · rw [hstops, h.sets id isBuy hno, Sob.trails_iff, Sob.trails_iff]
    constructor
    · rintro ⟨q, hq⟩
      by_cases hid : id = b.id
      · exact ⟨pAdj, htags.mpr (.inr ⟨rfl, (hi.tag_unique hq hbt hid).2⟩)⟩
      · exact ⟨q, htags.mpr (.inl ⟨hq, hid⟩)⟩
    · rintro ⟨q, hq⟩
      rcases htags.mp hq with hq | ⟨-, heq⟩
      · exact ⟨q, hq.1⟩
      · exact ⟨p, heq ▸ hbt⟩
  · rcases htags.mp ht with ht | ⟨-, rfl⟩
    · exact ⟨q, ht.1⟩
    · exact ⟨p, hbt⟩

theorem detached (h : TrailingSets c) (hi : Filed c.1 c.2) (hexp : c.2.TrailsApart) {buyStops : Bool} {plev : Nat}
    {sc : Scan} (hscan : c.1.scan = some sc) (hdet : c.1.detached = none)
    (hbuy : buyStops = true → sc.start.lowBuyStop ≤ plev ∧ plev ≤ sc.start.last)
    (hsell : buyStops = false → ∃ s, sc.turn = some s ∧ s.last ≤ plev ∧ plev ≤ s.highSellStop)
    (hact : c.1.acting = none) {F' : Flight}
    (hF : F' = { c.1 with detached := some ⟨buyStops, plev, (c.2.stops plev).elems, none⟩ }) :
    TrailingSets (F', c.2.onSob fun s =>
      Exec.Stop.adjustStateAfterTrigger buyStops (s.setStops plev none) plev) := by
  have htags : ∀ {q t}, t ∈ (Exec.Stop.adjustStateAfterTrigger buyStops (c.2.setStops plev none)
      plev).tags q → t ∈ c.2.tags q ∧ q ≠ plev := fun {q t} ht => by
    rw [Sob.tags_detached] at ht
    split at ht
    · cases ht
    next hq => exact ⟨ht, hq⟩
  have hm := h.scan sc hscan
  have hside : ∀ b ∈ (c.2.stops plev).elems, b.isActiveTrailing → b.isBuy = buyStops := by
    intro b hb hact
    have hbt : b.tag ∈ c.2.tags plev := List.mem_map_of_mem hb
    cases buyStops with
    | true =>
      obtain ⟨y, hy, heq⟩ := List.mem_map.mp (hm.start.2 plev hbt)
      obtain ⟨hlow, hhigh⟩ := hbuy rfl
      have hside : y.isBuy = b.isBuy := congrArg (·.2.1) heq
      have htrail : y.isActiveTrailing = b.isActiveTrailing := congrArg (·.2.2) heq
      exact hside.symm.trans (hexp.buys sc.start hm.start.1 plev hlow hhigh y hy (htrail ▸ hact))
    | false =>
      obtain ⟨s, hs, hlow, hhigh⟩ := hsell rfl
      obtain ⟨y, hy, heq⟩ := List.mem_map.mp ((hm.turn s hs).2 plev hbt)
      have hside : y.isBuy = b.isBuy := congrArg (·.2.1) heq
      have htrail : y.isActiveTrailing = b.isActiveTrailing := congrArg (·.2.2) heq
      exact hside.symm.trans (hexp.sells s (hm.turn s hs).1 plev hlow hhigh y hy (htrail ▸ hact))
  rw [hF]
  refine h.fade hi (.refl c) (List.suffix_refl _) (fun id isBuy hno => ?_)
    (fun q t ht => ⟨q, (htags ht).1⟩) (fun _ q t ht => (htags ht).1) (fun _ hx => .inl hx)
    (fun d hd => ?_) (fun d e todo hd htodo hturn ha => absurd hact ha) (fun _ hsc => hsc) rfl rfl
    fun e he => .inl ?_
  · have hno : ¬ c.1.Underway id isBuy ∧ (id, isBuy, true) ∉ c.2.tags plev := by
      refine ⟨fun hway => hno (hway.of_todo rfl rfl fun d hd => ?_),
        fun ht => hno (.inr (.inl ⟨_, rfl, ht⟩))⟩
      rw [hdet] at hd
      cases hd
    change id ∈ (Exec.Stop.adjustStateAfterTrigger buyStops (c.2.setStops plev none)
      plev).trailingStops isBuy ↔ Sob.Trails _ id isBuy
    rw [Sob.trailingStops_detached, h.sets id isBuy hno.1, Sob.trails_iff, Sob.trails_iff]
    refine exists_congr fun q => ⟨fun ht => ?_, fun ht => (htags ht).1⟩
    change _ ∈ (Exec.Stop.adjustStateAfterTrigger buyStops (c.2.setStops plev none) plev).tags q
    rw [Sob.tags_detached, if_neg fun hq : q = plev => hno.2 (hq ▸ ht)]
    exact ht
  · cases hd
    exact ⟨by rw [hscan]; simp, hside⟩
  · have hq : (Exec.Stop.adjustStateAfterTrigger buyStops (c.2.setStops plev none)
        plev).internalOrderQueue = c.2.internalOrderQueue :=
      queue_of_bookView ((bookView_stopAdjust _ _ _).2.2.trans (bookView_setStops _ _ _))
    exact hq ▸ he

theorem move (h : TrailingSets c) (hi : Filed c.1 c.2) (hm : Move c c') (hexp : c'.2.TrailsApart)
    (hfull : c'.2.PullsFull) : TrailingSets c' := by
  have hn := hm.news
  have hsuf := hm.trace_suffix
  have hq := hm.queue
  -- nothing but other chains and records changes
  have hsame : c'.2.trailView = c.2.trailView → c'.1.leaving = c.1.leaving →
      c'.1.arriving = c.1.arriving → c'.1.detached = c.1.detached → c'.1.scan = c.1.scan →
      (c'.1.acting ≠ none → c.1.acting ≠ none ∨ c.1.detached = none) → TrailingSets c' :=
    fun hv hl ha hd hs hact => h.same hi hn hsuf hv hl ha hd hs hact hm.sameInsertion.cur
      hm.sameInsertion.legs hq
  have hnodet : c.1.scan = none → c.1.detached = none := fun hs => by
    by_contra hd
    obtain ⟨d, hd⟩ := Option.ne_none_iff_exists'.mp hd
    exact (h.side d hd).1 hs
  cases hm with
  | act ha => exact h.act hi ha hfull
  | @fillAon F w bidSide plev id size cb b =>
    exact hsame ((Sob.trailView_setAons ..).trans (Sob.trailView_traded w plev b.sz id b.id cb b.cb))
      rfl rfl rfl rfl .inl
  | @fillLastAon F w bidSide plev id size cb b =>
    exact hsame ((Sob.trailView_freedAon ..).trans (Sob.trailView_traded w plev b.sz id b.id cb b.cb))
      rfl rfl rfl rfl .inl
  | freeAon => exact hsame (Sob.trailView_freedAon ..) rfl rfl rfl rfl .inl
  | moveHit =>
    exact hsame ((Sob.trailView_updateLimit ..).trans (Sob.trailView_copiedToAons ..)) rfl rfl rfl rfl
      .inl
  | fill H id size cb b todo hands hh hhit htodo hl hsize hb hact hscan =>
    exact hsame (Sob.trailView_traded ..) rfl rfl rfl rfl fun _ => .inr (hnodet hscan)
  | rearm => exact hsame (Sob.trailView_updateLimit ..) rfl rfl rfl rfl .inl
  | reduce => exact hsame (Sob.trailView_updateLimit ..) rfl rfl rfl rfl fun hact => absurd rfl hact
  | retire => exact hsame (Sob.trailView_updateLimit ..) rfl rfl rfl rfl fun hact => absurd rfl hact
  | eraseHit => exact hsame (Sob.trailView_setLimits ..) rfl rfl rfl rfl .inl
  | freeHit => exact hsame (Sob.trailView_freeLimits ..) rfl rfl rfl rfl .inl
  | wipeHit => exact hsame (Sob.trailView_freeLimits ..) rfl rfl rfl rfl .inl
  | @moveStop F w buyStops p id cw b nticks pAdj hc hb hn' hp hscan =>
    exact h.moved hi hscan (Chain.findStop_mem hb) hn hsuf
  | @beginScan F w hscan =>
    refine ⟨h.sets, h.leaving, fun d hd => ?_, h.erased, fun sc hsc => ?_, h.still, h.target, h.queue,
      h.calls_of_news hi hn⟩
    · exact absurd (hd.symm.trans (hnodet hscan)) (by simp)
    · cases hsc
      exact ⟨⟨List.mem_cons_self, fun _ => List.Subset.refl _⟩, fun s hs => by cases hs⟩
  | @turnScan F w sc hscan =>
    refine ⟨h.sets, h.leaving, fun d hd => ⟨by simp, (h.side d hd).2⟩, h.erased, fun sc' hsc => ?_,
      h.still, h.target, h.queue, h.calls_of_news hi hn⟩
    cases hsc
    have hmeet := (h.scan sc hscan).start
    refine ⟨⟨List.mem_cons_of_mem _ hmeet.1, hmeet.2⟩, fun s hs => ?_⟩
    cases hs
    exact ⟨List.mem_cons_self, fun _ => List.Subset.refl _⟩
  | @endScan F w hdet =>
    refine ⟨h.sets, h.leaving, fun d hd => ?_, h.erased, fun sc hsc => (by cases hsc), h.still, h.target,
      h.queue, h.calls_of_news hi hn⟩
    exact absurd (hd.symm.trans hdet) (by simp)
  | @detach F w buyStops plev sc hscan hdet hbuy hsell hdone hact =>
    exact h.detached hi (hexp.of_suffix hsuf) hscan hdet hbuy hsell hact rfl
  | @eraseTriggered F w d e todo hdet htodo =>
    refine h.fade hi hn hsuf (fun id isBuy hno => ?_) (fun q t ht => ⟨q, ?_⟩) (fun _ q t ht => ?_)
      (fun _ hx => .inl hx) h.side (fun d e todo hd htodo hturn ha hm => h.erased d e todo hd htodo
        hturn ha (Sob.mem_trailingErased.mp hm).1) (fun _ hsc => hsc) rfl rfl hq
    · rw [World.toSob_onSob, Sob.mem_trailingErased, Sob.trails_iff, Sob.tags_trailingErased,
        ← Sob.trails_iff, h.sets id isBuy hno]
      refine ⟨fun ht => ht.1, fun ht => ⟨ht, fun heq => ?_⟩⟩
      -- the stops of the chain that is triggered are in no chain
      obtain ⟨p, hp⟩ := Sob.trails_iff.mp ht
      exact hi.detached_not_mem hdet (p := p) (htodo ▸ List.mem_cons_self)
        (Sob.mem_stopIds.mpr ⟨_, hp, heq.1⟩)
    all_goals
      rw [World.toSob_onSob, Sob.tags_trailingErased] at ht
      exact ht
  | @beginTrigger F w d e todo hdet htodo hact hhit herased =>
    refine ⟨h.sets, h.leaving, h.side, fun d' e' todo' hd htodo' hturn _ => ?_, h.scan, h.still,
      h.target, h.queue, h.calls_of_news hi hn⟩
    obtain rfl : d = d' := Option.some.inj (hdet.symm.trans hd)
    obtain ⟨rfl, -⟩ := List.cons.inj (htodo.symm.trans htodo')
    exact herased
  | @turn F w d e todo order ids msg hdet htodo hturn hids hsz hgen hact =>
    have hv : (w.turned msg e d.plev order).trailView = w.trailView := by
      obtain ⟨_, _, heq⟩ := w.turned_eq msg e d.plev order
      rw [heq]
      rfl
    have he : e ∈ d.todo := htodo ▸ List.mem_cons_self
    refine h.fade hi hn hsuf (fun id isBuy hno => ?_) (fun q t ht => ⟨q, Sob.tags_of_view hv ▸ ht⟩)
      (fun _ q t ht => Sob.tags_of_view hv ▸ ht) (fun _ hx => .inl hx) (fun d' hd => ?_)
      (fun d' e' todo' hd _ hturn' => ?_) (fun _ hsc => hsc) rfl rfl hq
    · rw [Sob.trailingStops_of_view hv, Sob.trails_of_view hv]
      by_cases heq : (id, isBuy, true) = e.tag
      · have hid : id = e.id := congrArg Prod.fst heq
        have htrail : e.isActiveTrailing = true := (congrArg (·.2.2) heq).symm
        have hside : isBuy = d.buyStops := (congrArg (·.2.1) heq).trans ((h.side d hdet).2 e he htrail)
        refine ⟨fun hm => ?_, fun ht => ?_⟩
        · exact absurd (hid ▸ hside ▸ hm) (h.erased d e todo hdet htodo hturn hact)
        · obtain ⟨p, hp⟩ := Sob.trails_iff.mp ht
          exact absurd (Sob.mem_stopIds.mpr ⟨_, hp, hid⟩) (hi.detached_not_mem hdet he)
      · refine h.sets id isBuy fun hway => hno (hway.of_todo rfl rfl fun d' hd ht => ?_)
        obtain rfl : d = d' := Option.some.inj (hdet.symm.trans hd)
        rw [htodo, List.map_cons] at ht
        exact ⟨_, rfl, (List.mem_cons.mp ht).resolve_left heq⟩
    · cases hd
      obtain ⟨hs, hside⟩ := h.side d hdet
      exact ⟨hs, fun b hb => hside b (htodo ▸ List.mem_cons_of_mem _ hb)⟩
    · cases hd
      cases hturn'
  | @endTrigger F w d id hdet hturn =>
    refine h.fade hi hn hsuf (fun id isBuy hno => ?_) (fun q t ht => ⟨q, ht⟩) (fun _ q t ht => ht)
      (fun _ hx => .inl hx) (fun d' hd => ?_) (fun _ _ _ _ _ _ hact => absurd rfl hact)
      (fun _ hsc => hsc) rfl rfl hq
    · refine h.sets id isBuy fun hway => hno (hway.of_todo rfl rfl fun d' hd ht => ?_)
      obtain rfl : d = d' := Option.some.inj (hdet.symm.trans hd)
      exact ⟨_, rfl, ht⟩
    · cases hd
      exact h.side d hdet
  | @endDetached F w d hdet htodo hturn =>
    refine h.fade hi hn hsuf (fun id isBuy hno => ?_) (fun q t ht => ⟨q, ht⟩) (fun _ q t ht => ht)
      (fun _ hx => .inl hx) (fun d' hd => by cases hd) (fun d' _ _ hd => by cases hd)
      (fun _ hsc => hsc) rfl rfl hq
    refine h.sets id isBuy fun hway => hno (hway.of_todo rfl rfl fun d' hd ht => ?_)
    obtain rfl : d = d' := Option.some.inj (hdet.symm.trans hd)
    rw [htodo] at ht
    cases ht
  | _ => exact hsame rfl rfl rfl rfl rfl .inl

theorem underway_of_tag {b : StopBndl} {arriving : List (Nat × Bool)}
    (htrail : b.isActiveTrailing → (b.id, b.isBuy) ∈ arriving) {id : Nat} {isBuy : Bool}
    (heq : (id, isBuy, true) = b.tag) : (id, isBuy) ∈ arriving := by
  obtain ⟨rfl, rfl, ht⟩ : id = b.id ∧ isBuy = b.isBuy ∧ true = b.isActiveTrailing := by
    simpa [StopBndl.tag] using heq
  exact htrail ht.symm

/-- No scan is under way. -/
theorem of_noTrade (hnt : c'.1.NoTrade)
    (hsets : ∀ id isBuy, ¬ c'.1.Underway id isBuy →
      (id ∈ c'.2.trailingStops isBuy ↔ c'.2.Trails id isBuy))
    (hleft : ∀ b ∈ c'.1.leaving, ∀ p, b.id ∉ c'.2.stopIds p)
    (hstill : ∀ e, c'.1.cur = some e → ¬ e.condition.trails → ∀ id,
      (id = e.id ∨ ∃ l ∈ c'.1.legs, l.id = id) → ∀ isBuy, ¬ c'.2.Trails id isBuy)
    (htarget : ∀ e, c'.1.cur = some e → e.condition = .trailingBracketActive →
      e.type = .limit ∧ ∀ l ∈ c'.1.legs, ∀ p, l.id ∉ c'.2.stopIds p)
    (hqueue : ∀ e ∈ c'.2.internalOrderQueue, e.condition = .trailingBracketActive → e.type = .limit)
    (hcalls : ∀ s buyStops p, .trailingStopsAdjust s buyStops p ∈ c'.2.trace →
      s.TrailingMatch ∧ s.StopsCached) : TrailingSets c' :=
  ⟨hsets, hleft, fun d hd => absurd (hd.symm.trans hnt.detached) (by simp),
    fun d _ _ hd => absurd (hd.symm.trans hnt.detached) (by simp),
    fun sc hsc => absurd (hsc.symm.trans hnt.scan) (by simp), hstill, htarget, hqueue, hcalls⟩

/-- Sets and chains are as they were, and a leg that is new rests as no stop. -/
theorem quiet (h : TrailingSets c) (hi : Filed c.1 c.2) (hnt : c.1.NoTrade) (hnt' : c'.1.NoTrade)
    (hv : c'.2.trailView = c.2.trailView) (hleft : c'.1.leaving = c.1.leaving)
    (harr : c'.1.arriving = c.1.arriving) (hcur : c'.1.cur = c.1.cur)
    (hlegs : ∀ l ∈ c'.1.legs, l ∈ c.1.legs ∨ ∀ p, l.id ∉ c.2.stopIds p)
    (hqueue : c'.2.internalOrderQueue = c.2.internalOrderQueue) (hn : News c c'.2.trace) :
    TrailingSets c' := by
  have hway : c'.1.Underway = c.1.Underway := by
    funext id isBuy
    unfold Flight.Underway
    rw [hleft, harr, hnt.detached, hnt'.detached]
  refine of_noTrade hnt' (fun id isBuy hno => ?_) (fun b hb p => ?_) (fun e he hc id hid isBuy => ?_)
    (fun e he hc => ?_) (fun e he hc => h.queue e (hqueue ▸ he) hc) (h.calls_of_news hi hn)
  · rw [Sob.trailingStops_of_view hv, Sob.trails_of_view hv]
    exact h.sets id isBuy (hway ▸ hno)
  · rw [Sob.stopIds_of_view hv]
    exact h.leaving b (hleft ▸ hb) p
  · rw [Sob.trails_of_view hv]
    rcases hid with hid | ⟨l, hl, hid⟩
    · exact h.still e (hcur ▸ he) hc id (.inl hid) isBuy
    · rcases hlegs l hl with hl | hno
      · exact h.still e (hcur ▸ he) hc id (.inr ⟨l, hl, hid⟩) isBuy
      · exact hid ▸ Sob.not_trails_of_not_mem hno isBuy
  · obtain ⟨hty, ht⟩ := h.target e (hcur ▸ he) hc
    refine ⟨hty, fun l hl => ?_⟩
    rw [Sob.stopIds_of_view hv]
    exact (hlegs l hl).elim (ht l) fun hno => hno

theorem step (h : TrailingSets c) (hs : Sorted c) (hnt : c.1.NoTrade)
    (hext : ∀ e, c.1.ext = some e → e.Valid) (hstep : Step c c') (hfull : c'.2.PullsFull)
    (htrade : Moves c c' → TrailingSets c') : TrailingSets c' := by
  have hi := hs.shelved.toFiled
  have hnt' := hstep.noTrade hnt
  cases hstep with
  | act ha => exact h.act hi ha hfull
  | trade bidSide plev id size r cb hF hp hpe hrun hm => exact htrade hm
  | @beginOrder F w => exact h.quiet hi hnt hnt' rfl rfl rfl rfl (fun _ hl => .inl hl) rfl (.refl (F, w))
  | @endOrder F w =>
    exact of_noTrade hnt' h.sets h.leaving h.still h.target (fun e he => h.queue e (List.mem_of_mem_tail he))
      h.calls
  | @accept F w e ids hids hhands hcur hext' hint =>
    have hnew : ∀ p, e.id ∉ w.stopIds p := fun p => hi.pending_not_mem (by simp [Sob.pending, hids])
    refine of_noTrade hnt' h.sets h.leaving (fun e' he hc id hid isBuy => ?_) (fun e' he hc => ?_) h.queue
      (h.calls_of_news hi ((News.refl (F, w)).cons_none rfl))
    · cases he
      rcases hid with rfl | ⟨l, hl, -⟩
      · exact Sob.not_trails_of_not_mem hnew isBuy
      · cases hl
    · cases he
      refine ⟨?_, fun l hl => by cases hl⟩
      by_cases hfront : F.front = 0
      · obtain ⟨x, hx, heq⟩ := hext' hfront
        rw [heq] at hc
        exact absurd hc (hext x hx).inactive
      · obtain ⟨x, queue, hq, heq⟩ := hint hfront
        rw [heq] at hc ⊢
        exact h.queue x (hq ▸ List.mem_cons_self) hc
  | @addLeg F w => exact h.quiet hi hnt hnt' rfl rfl rfl rfl (fun _ hl => .inl hl) rfl (.refl (F, w))
  | finish =>
    exact of_noTrade hnt' h.sets h.leaving (fun e he => by cases he) (fun e he => by cases he) h.queue h.calls
  | @forget F w => exact h.quiet hi hnt hnt' rfl rfl rfl rfl (fun _ hl => .inl hl) rfl (.refl (F, w))
  | @kill F w e cb id sz price =>
    refine h.quiet hi hnt hnt' (Sob.trailView_report ..) rfl rfl rfl (fun _ hl => .inl hl)
      (queue_of_bookView (bookView_report ..)) ?_
    rw [trace_report]
    exact (News.refl (F, w)).cons_none rfl
  | @print F w p id1 id2 sz1 sz2 n cb1 cb2 =>
    refine h.quiet hi hnt hnt' (Sob.trailView_traded ..) rfl rfl rfl (fun _ hl => .inl hl) (queue_traded ..) ?_
    rw [trace_traded]
    exact ((((News.refl (F, w)).cons ⟨rfl, by exact trivial⟩).cons_none rfl).cons_none rfl).cons_none rfl
  | @pushLimit F w buy p b hands ids hgap hh hids =>
    have hnew : ∀ q, b.id ∉ w.stopIds q := fun q => hi.pending_not_mem (by simp [Sob.pending, hids])
    refine h.quiet hi hnt hnt' (Sob.trailView_limitPush ..) rfl rfl rfl (fun l hl => ?_)
      (waiting_limitPush w.toSob buy p b).2 (.refl (F, w))
    exact (List.mem_cons.mp hl).elim (fun heq => .inr (heq ▸ hnew)) .inl
  | @pushAon F w buy p b hands ids hh hids =>
    have hnew : ∀ q, b.id ∉ w.stopIds q := fun q => hi.pending_not_mem (by simp [Sob.pending, hids])
    refine h.quiet hi hnt hnt' (Sob.trailView_aonPush ..) rfl rfl rfl (fun l hl => ?_)
      (queue_of_bookView (bookView_aonPush ..)) (.refl (F, w))
    exact (List.mem_cons.mp hl).elim (fun heq => .inr (heq ▸ hnew)) .inl
  | @arm F w e id cw payload hgap he hl hc hcond hid =>
    have hne : ¬ e.condition.trails := by
      rcases hcond with ⟨hc, -⟩ | ⟨hc, -⟩
      · simp [OrderCondition.trails, hc]
      · exact hc.not_trails
    exact h.quiet hi hnt hnt' (Sob.trailView_armed _ hne (h.still e he hne id (.inl hid))) rfl rfl rfl
      (fun _ hl => .inl hl) (queue_updateAt ..) (.refl (F, w))
  | @link F w e op id1 id2 c1 c2 hgap he hcond hop hl1 hl2 =>
    have hne : ¬ e.condition.trails := by simp [OrderCondition.trails, hcond]
    obtain ⟨hsz, hck⟩ := hs.links.cur e he hcond
    have hno : ∀ {id}, (∃ l ∈ F.legs, l.id = id) → ∀ isBuy, ¬ w.Trails id isBuy := fun hl =>
      h.still e he hne _ (.inr hl)
    have hno1 := hno ((hl1 hsz).imp fun l hl => ⟨hl.1, hl.2.1⟩)
    have hno2 := hno ((hl2 (hck op hop).1).imp fun l hl => ⟨hl.1, hl.2.1⟩)
    have hv1 : (w.armed c1 id1 e.condition e.trigger (.linkedOrder ⟨id2, false, none⟩)).trailView =
        w.trailView := Sob.trailView_armed _ hne hno1
    refine h.quiet hi hnt hnt' ((Sob.trailView_armed _ hne ?_).trans hv1) rfl rfl rfl (fun _ hl => by cases hl)
      ((queue_updateAt ..).trans (queue_updateAt ..)) (.refl (F, w))
    rw [Sob.trails_of_view hv1]
    exact hno2
  | @tellEntry F w e id cw payload =>
    exact h.quiet hi hnt hnt' (Sob.trailView_updateAt _ cw id (g := fun b => { b with payload := payload })
      (fun _ => rfl) fun _ _ _ => rfl) rfl rfl rfl (fun _ hl => .inl hl) (queue_updateAt ..)
      (.refl (F, w))
  | @announce F w id isBuy =>
    refine of_noTrade hnt' (fun j side hno => h.sets j side fun hway => hno ?_) h.leaving h.still h.target
      h.queue h.calls
    exact hway.imp_right (.imp_right (List.mem_cons_of_mem _))
  | @trailingInsert F w id isBuy nticks arriving harr hin =>
    have htrails : Sob.Trails (w.trailingInserted id isBuy) = w.Trails := by
      funext j side
      rw [eq_iff_iff, Sob.trails_iff, Sob.trails_iff, Sob.tags_trailingInserted]
    have hids : Sob.stopIds (w.trailingInserted id isBuy) = w.stopIds := by
      unfold Sob.stopIds
      rw [stops_of_files (files_trailingInserted w.toSob id isBuy)]
    refine of_noTrade hnt' (fun j side hno => ?_) (hids ▸ h.leaving) (htrails ▸ h.still) (hids ▸ h.target)
      (fun e he => h.queue e ?_) (h.calls_of_news hi ((News.refl (F, w)).cons_none rfl))
    · change j ∈ (w.trailingInserted id isBuy).trailingStops side ↔
        (w.trailingInserted id isBuy).Trails j side
      rw [Sob.mem_trailingInserted, htrails]
      by_cases heq : j = id ∧ side = isBuy
      · obtain ⟨rfl, rfl⟩ := heq
        exact ⟨fun _ => hin, fun _ => .inr ⟨rfl, rfl⟩⟩
      · rw [or_iff_left heq]
        refine h.sets j side fun hway => hno (hway.imp_right (.imp_right fun hm => ?_))
        rw [harr] at hm
        exact (List.mem_cons.mp hm).resolve_left fun hj => heq (Prod.mk.inj hj)
    · exact queue_of_bookView (bookView_trailing w.toSob id isBuy).2 ▸ he
  | @pushStop F w p b hands ids hh hids hpay e hins hb hsz hbuy hlevel htype htrail hleft =>
    have hnew : ∀ q, b.id ∉ w.stopIds q := fun q => hi.pending_not_mem (by simp [Sob.pending, hids])
    obtain ⟨e₀, he₀, hins⟩ := hins
    have hcond : e.condition = e₀.condition := hins.elim (fun heq => by rw [heq]) fun hoco => hoco.2.1
    refine of_noTrade hnt' (fun j side hno => ?_) (fun x hx => by simp [hleft] at hx)
      (fun e' he hc j hj side ht => ?_) (fun e' he hc => ?_)
      (fun e' he => h.queue e' (queue_of_bookView (bookView_stopPush w.toSob p b) ▸ he)) h.calls
    · change j ∈ (Chain.stopPush w.toSob p b).trailingStops side ↔ (Chain.stopPush w.toSob p b).Trails j side
      rw [Sob.trailingStops_stopPush, Sob.trails_stopPush, or_iff_left]
      · exact h.sets j side hno
      · exact fun heq => hno (.inr (.inr (underway_of_tag htrail heq)))
    · obtain rfl : e₀ = e' := Option.some.inj (he₀.symm.trans he)
      have hnb : ¬ b.condition.trails := by
        rcases hb.condition with hb | hb
        · simp [OrderCondition.trails, hb]
        · rwa [hb, hcond]
      rcases Sob.trails_stopPush.mp ht with ht | heq
      · rcases hj with hj | ⟨l, hl, hid⟩
        · exact h.still e₀ he₀ hc j (.inl hj) side ht
        · rcases List.mem_cons.mp hl with rfl | hl
          · exact Sob.not_trails_of_not_mem hnew side ((show b.id = j from hid).symm ▸ ht)
          · exact h.still e₀ he₀ hc j (.inr ⟨l, hl, hid⟩) side ht
      · exact hnb (OrderBndl.isActiveTrailing_iff.mp (congrArg (·.2.2) heq).symm)
    · -- a target that rests is no stop
      obtain rfl : e₀ = e' := Option.some.inj (he₀.symm.trans he)
      have heq : e = e₀ := hins.resolve_right fun hoco => by simp [hc] at hoco
      exact absurd (h.target e₀ he₀ hc).1 (heq ▸ htype (heq ▸ hc))
  | @openLoss F w e l cw p b nticks1 nticks2 ids hgap he hl hids hcond hb hc hsz hpay hp hlevel htrail
      hleft =>
    let s1 := w.armed cw l.id e.condition e.trigger (.linkedOrder ⟨b.id, false, nticks1⟩)
    have hv : s1.trailView = w.trailView := by
      rcases hcond with hc | hc
      · have hne : ¬ e.condition.trails := by simp [OrderCondition.trails, hc]
        exact Sob.trailView_armed _ hne (h.still e he hne l.id (.inr ⟨l, hl, rfl⟩))
      · exact Sob.trailView_armed_of_not_mem _ ((h.target e he hc).2 l hl)
    refine of_noTrade hnt' (fun j side hno => ?_) (fun x hx => by simp [hleft] at hx)
      (fun e' he' hc j hj side ht => ?_) (fun e' he' hc => ⟨?_, fun l hl => by cases hl⟩)
      (fun e' he' => h.queue e' ?_) h.calls
    · change j ∈ (Chain.stopPush s1 p b).trailingStops side ↔ (Chain.stopPush s1 p b).Trails j side
      rw [Sob.trailingStops_stopPush, Sob.trails_stopPush, or_iff_left, Sob.trailingStops_of_view hv,
        Sob.trails_of_view hv]
      · exact h.sets j side hno
      · exact fun heq => hno (.inr (.inr (underway_of_tag htrail heq)))
    · obtain rfl : e = e' := Option.some.inj (he.symm.trans he')
      rcases Sob.trails_stopPush.mp ht with ht | heq
      · rcases hj with hj | ⟨l, hl, -⟩
        · exact h.still e he hc j (.inl hj) side (Sob.trails_of_view hv ▸ ht)
        · cases hl
      · refine hc (hb.1 ▸ ?_)
        exact OrderBndl.isActiveTrailing_iff.mp (congrArg (·.2.2) heq).symm
    · exact (h.target e' he' hc).1
    · exact ((queue_of_bookView (bookView_stopPush s1 p b)).trans (queue_updateAt ..)) ▸ he'

theorem grow {qe : Option OrderQueueElem} {w : World} {base : Int} {incr : Nat} {atBeg : Bool}
    (h : TrailingSets (.opened qe, w)) (hincr : incr ≠ 0) :
    TrailingSets (.opened qe, { w with toSob := growBook base incr atBeg w.toSob }) := by
  let s' := growBook base incr atBeg w.toSob
  have htags : ∀ p, s'.tags p =
      if p < growOffset incr atBeg then [] else w.tags (p - growOffset incr atBeg) := fun p => by
    unfold Sob.tags
    rw [stops_growBook hincr]
    split <;> rfl
  have htrails : ∀ {id isBuy}, s'.Trails id isBuy ↔ w.Trails id isBuy := fun {id isBuy} => by
    rw [Sob.trails_iff, Sob.trails_iff]
    constructor
    · rintro ⟨p, hp⟩
      rw [htags] at hp
      split at hp
      · cases hp
      · exact ⟨_, hp⟩
    · rintro ⟨p, hp⟩
      refine ⟨p + growOffset incr atBeg, ?_⟩
      rw [htags, if_neg (by omega), Nat.add_sub_cancel]
      exact hp
  have hsets : s'.trailingStops = w.trailingStops := by
    change (growBook base incr atBeg w.toSob).trailingStops = _
    rw [growBook_of_ne hincr]
    rfl
  have hq : s'.internalOrderQueue = w.internalOrderQueue := by
    change (growBook base incr atBeg w.toSob).internalOrderQueue = _
    rw [growBook_of_ne hincr]
    rfl
  refine ⟨fun id isBuy hno => ?_, fun b hb => (by cases hb), fun d hd => (by cases hd),
    fun d _ _ hd => (by cases hd), fun sc hsc => (by cases hsc), fun e he => (by cases he),
    fun e he => (by cases he), fun e he => h.queue e (hq ▸ he), h.calls⟩
  change id ∈ s'.trailingStops isBuy ↔ s'.Trails id isBuy
  rw [hsets, htrails]
  exact h.sets id isBuy hno

theorem close {qe qe' : Option OrderQueueElem} {w w' : World} (h : TrailingSets (.opened qe, w))
    (hc : w.ClosesTo w') (hq : w'.internalOrderQueue = []) : TrailingSets (.opened qe', w') := by
  obtain ⟨⟨cbs, queue, hs⟩, ht⟩ := hc
  refine ⟨fun id isBuy hno => ?_, fun b hb => (by cases hb), fun d hd => (by cases hd),
    fun d _ _ hd => (by cases hd), fun sc hsc => (by cases hsc), fun e he => (by cases he),
    fun e he => (by cases he), fun e he => ?_, fun s buyStops p hm => ?_⟩
  · change id ∈ w'.toSob.trailingStops isBuy ↔ w'.toSob.Trails id isBuy
    rw [hs]
    exact h.sets id isBuy hno
  · rw [hq] at he
    cases he
  · rcases ht with ht | ⟨dropped, ht⟩
    · exact h.calls s buyStops p (ht ▸ hm)
    · rw [ht] at hm
      rcases List.mem_cons.mp hm with heq | hm
      · cases heq
      · exact h.calls s buyStops p hm

theorem initial {w : World} (h : Initial w) (qe : Option OrderQueueElem) :
    TrailingSets (.opened qe, w) := by
  obtain ⟨⟨base, incr, -, -, hw⟩, htrace⟩ := h
  refine ⟨fun id isBuy _ => ⟨fun hm => ?_, fun ⟨p, b, hb, _⟩ => ?_⟩, fun b hb => (by cases hb),
    fun d hd => (by cases hd), fun d _ _ hd => (by cases hd), fun sc hsc => (by cases hsc),
    fun e he => (by cases he), fun e he => (by cases he), fun e he => ?_, fun s buyStops p hm => ?_⟩
  · change id ∈ w.toSob.trailingStops isBuy at hm
    rw [hw] at hm
    cases isBuy <;> cases hm
  · change b ∈ (w.toSob.stops p).elems at hb
    rw [hw] at hb
    cases hb
  · change e ∈ w.toSob.internalOrderQueue at he
    rw [hw] at he
    cases he
  · change _ ∈ w.trace at hm
    rw [htrace] at hm
    cases hm

theorem kept : KeptFiled fun c => c.2.TrailsApart → c.2.PullsFull → TrailingSets c where
  move _ hi hm h hexp hfull :=
    (h (hexp.of_suffix hm.trace_suffix) (hfull.of_suffix hm.trace_suffix)).move hi hm hexp hfull
  step _ hs hnt hext hstep h htrade hexp hfull :=
    (h (hexp.of_suffix hstep.trace_suffix) (hfull.of_suffix hstep.trace_suffix)).step hs hnt hext hstep
      hfull fun hm => htrade hm hexp hfull
  grow _ hincr h hexp hfull := (h ⟨hexp.buys, hexp.sells⟩ hfull).grow hincr
  close h hc hq hexp hfull :=
    (h (hexp.of_suffix hc.trace_suffix) (hfull.of_suffix hc.trace_suffix)).close hc hq

end TrailingSets

/-! ## Runs -/

/-- The trailing stops can be moved: each is cached, and stays so when another one is moved. -/
theorem trailingStopsAdjust_finds {w : World} (hm : w.TrailingMatch) (hc : w.StopsCached)
    (buyStops : Bool) (p : Nat) :
    wp (trailingStopsAdjust buyStops p) (fun _ _ => True) (fun err _ => ∀ id, err ≠ .orderNotInCache id)
      w := by
  have hall : ∀ id ∈ w.trailingStops buyStops, w.idCache id ≠ none := fun id hid => by
    obtain ⟨q, ht⟩ := Sob.trails_iff.mp ((hm id buyStops).mp hid)
    exact hc q id (Sob.mem_stopIds.mpr ⟨_, ht, rfl⟩)
  unfold trailingStopsAdjust
  refine wp_getSob_bind (wp_record_bind ?_)
  refine (wp_forM (fun ids w' => ∀ id ∈ ids, w'.idCache id ≠ none) hall ?_).mono (fun _ _ _ => trivial)
    fun _ _ he => he
  rintro id ids w' hids
  refine (wp_trailingStopAdjust w' id buyStops p).mono ?_ ?_
  · rintro _ _ ⟨c, b, nticks, pAdj, -, -, -, -, -, rfl⟩ j hj hn
    exact hids j (List.mem_cons_of_mem _ hj) (cache_of_movedStop hn)
  · rintro _ _ (rfl | ⟨-, hn, -⟩ | ⟨rfl, -⟩) j
    · exact nofun
    · exact absurd hn (hids id List.mem_cons_self)
    · exact nofun

/-- Wherever the trailing stops were adjusted, sets and chains agreed, and the call finds its
stops. -/
def World.AdjustsMatch (w : World) : Prop :=
  ∀ s buyStops p, .trailingStopsAdjust s buyStops p ∈ w.trace → s.TrailingMatch ∧
    ∀ v : World, v.toSob = s → ∀ id v',
      trailingStopsAdjust buyStops p v ≠ .error (.orderNotInCache id) v'

theorem TrailingSets.adjustsMatch {c : Config} (h : TrailingSets c) : c.2.AdjustsMatch := by
  intro s buyStops p hm
  obtain ⟨hmatch, hcached⟩ := h.calls s buyStops p hm
  refine ⟨hmatch, fun v hv id v' herr => ?_⟩
  subst hv
  exact (trailingStopsAdjust_finds hmatch hcached buyStops p).error herr id rfl

/-- As long as every scan takes trailing stops of its own side, sets and chains agree at the end of
every window and whenever the trailing stops are adjusted, also in the window that comes next,
however it ends. -/
theorem Run.trailing_sets_match {w₀ w : World} {rs : List (Request × Outcome)} (h0 : Initial w₀)
    (h : Run w₀ rs w) (hv : ∀ x ∈ rs, x.2.isValue = true) (hzero : w.NoEmptyHit)
    (hapart : w.TrailsApart) : w.TrailingMatch ∧ w.AdjustsMatch ∧
      ∀ r o w', Window r w o w' → w'.NoEmptyHit → w'.TrailsApart → w'.AdjustsMatch := by
  have hinit : ∀ qe, w₀.TrailsApart → w₀.PullsFull → TrailingSets (.opened qe, w₀) :=
    fun qe _ _ => .initial h0 qe
  have hc : TrailingSets (.opened none, w) :=
    TrailingSets.kept.run_value h0 hinit h hv hzero none hapart
      (FullPulls.kept.run_value h0 (fun qe _ => .initial h0 qe) h hv hzero none hzero).pulls
  refine ⟨fun id isBuy => hc.sets id isBuy ?_, hc.adjustsMatch, fun r o w' hwin hzero' hapart' => ?_⟩
  · rintro (hm | ⟨d, hd, -⟩ | hm)
    · cases hm
    · cases hd
    · cases hm
  · obtain ⟨F, w1, hp, hto⟩ := TrailingSets.kept.next h0 hinit h hv hwin hzero'
    intro s buyStops p hm
    have hfull := (h.pullsFull h0 hv hwin hzero').of_suffix hto.trace_suffix
    refine (hp (hapart'.of_suffix hto.trace_suffix) hfull).adjustsMatch s buyStops p ?_
    rcases hto.trace with ht | ⟨dropped, ht⟩
    · exact ht ▸ hm
    · rw [ht] at hm
      exact (List.mem_cons.mp hm).resolve_left nofun

/-- A scan that finds trailing stops of its own side only. -/
def Event.TrailsApart : Event → Bool
  | .lookForTriggeredStops s => (List.range (s.last + 1)).all fun p => decide (p < s.lowBuyStop) ||
      (s.stops p).elems.all fun b => !b.isActiveTrailing || b.isBuy
  | .lookForSellStops s => (List.range (s.highSellStop + 1)).all fun p => decide (p < s.last) ||
      (s.stops p).elems.all fun b => !b.isActiveTrailing || !b.isBuy
  | _ => true

theorem World.trailsApart_of_all {w : World} (h : w.trace.all Event.TrailsApart) : w.TrailsApart := by
  have hev := List.all_eq_true.mp h
  refine ⟨fun s hm p hlow hhigh b hb hact => ?_, fun s hm p hlow hhigh b hb hact => ?_⟩
  · have hp := List.all_eq_true.mp (hev _ hm) p (List.mem_range.mpr (Nat.lt_succ_of_le hhigh))
    have hall := (Bool.or_eq_true _ _).mp hp |>.resolve_left fun hlt =>
      absurd (of_decide_eq_true hlt) (not_lt.mpr hlow)
    simpa [hact] using List.all_eq_true.mp hall b hb
  · have hp := List.all_eq_true.mp (hev _ hm) p (List.mem_range.mpr (Nat.lt_succ_of_le hhigh))
    have hall := (Bool.or_eq_true _ _).mp hp |>.resolve_left fun hlt =>
      absurd (of_decide_eq_true hlt) (not_lt.mpr hlow)
    simpa [hact] using List.all_eq_true.mp hall b hb

/-- A ticket for a trailing stop three ticks off. -/
def AdvancedOrderTicket.trailing (isBuy : Bool) : AdvancedOrderTicket :=
  { condition := .trailingStop, trigger := .fillFull, order1 := some (.byNTicks isBuy 1 0 3) }

/-- The trailing stop of order 3 follows the market from level 10 to level 13. -/
theorem trailing_stop_follows : ∃ rs w, Run (World.create 88 20) rs w ∧
    rs.map (·.1) = [.limit true 90 5, .limit false 100 3, .limit true 100 1 (.trailing false),
      .limit false 103 1, .limit true 100 1, .limit true 100 1, .limit true 103 1] ∧
    w.trailingSellStops = [4] ∧ w.idCache 4 = some ⟨.stop, 13⟩ ∧ w.TrailingMatch ∧ w.AdjustsMatch ∧
    ∀ r o w', Window r w o w' → w'.NoEmptyHit → w'.TrailsApart → w'.AdjustsMatch := by
  obtain ⟨rs, w, h, hrs, hw⟩ := Run.exists_of_execAll 6
    [.limit true 90 5, .limit false 100 3, .limit true 100 1 (.trailing false),
      .limit false 103 1, .limit true 100 1, .limit true 100 1, .limit true 103 1]
    (f := fun os w => (os.all Outcome.isValue, w.trace.all fun ev => ! ev.isEmptyHit,
      w.trace.all Event.TrailsApart, w.trailingSellStops, w.idCache 4))
    (v := (true, true, true, [4], some ⟨.stop, 13⟩)) (w := World.create 88 20) (by decide +kernel)
  obtain ⟨hall, hzero, hev, hset, hcache⟩ : _ ∧ _ ∧ _ ∧ _ ∧ _ := by simpa only [Prod.mk.injEq] using hw
  exact ⟨rs, w, h, hrs, hset, hcache, h.trailing_sets_match (initial_create (by decide) (by decide))
    (fun ro hro => List.all_eq_true.mp hall ro.2 (List.mem_map_of_mem hro))
    (World.noEmptyHit_of_all hzero) (World.trailsApart_of_all hev)⟩

/-- A scan for buy stops takes the sell stop that trails and leaves its id in the set; a trade at a
higher price then ends in an exception. -/
theorem trailing_stop_left_behind : ∃ rs w, Run (World.create 88 20) rs w ∧
    rs.map (·.1) = [.limit true 90 5, .limit false 100 3, .limit true 100 1 (.trailing false),
      .stop true 95 1, .limit true 100 1] ∧ (∀ ro ∈ rs, ro.2.isValue = true) ∧ ¬ w.TrailingMatch ∧
    ∃ rs' w', Run w rs' w' ∧ rs'.map (·.1) = [.limit false 105 1, .limit true 105 1] ∧
      rs'.map (·.2) = [.value 9 [], .exception (.orderNotInCache 4)] := by
  obtain ⟨rs, w, h, hrs, hw⟩ := Run.exists_of_execAll 6
    [.limit true 90 5, .limit false 100 3, .limit true 100 1 (.trailing false), .stop true 95 1,
      .limit true 100 1]
    (f := fun os w => (os.all Outcome.isValue, w.trace.all fun ev => ! ev.isEmptyHit,
      w.trailingSellStops, w.idCache 4, decide ((execAll 6 [.limit false 105 1, .limit true 105 1] w).map
        (fun c => c.1.map (·.2)) = some [.value 9 [], .exception (.orderNotInCache 4)])))
    (v := (true, true, [4], none, true)) (w := World.create 88 20) (by decide +kernel)
  obtain ⟨hall, hzero, hset, hcache, hnext⟩ : _ ∧ _ ∧ _ ∧ _ ∧ _ := by
    simpa only [Prod.mk.injEq] using hw
  have hv : ∀ ro ∈ rs, ro.2.isValue = true := fun ro hro =>
    List.all_eq_true.mp hall ro.2 (List.mem_map_of_mem hro)
  refine ⟨rs, w, h, hrs, hv, fun hm => ?_, ?_⟩
  · have ht : w.Trails 4 false := (hm 4 false).mp (by rw [Sob.trailingStops, hset]; simp)
    obtain ⟨p, hp⟩ := Sob.trails_iff.mp ht
    have htidy := h.tidy (initial_create (by decide) (by decide))
      (fun ro hro => Outcome.expected_of_isValue (hv ro hro)) (World.noEmptyHit_of_all hzero)
    exact htidy.filed.stopsCached p 4 (Sob.mem_stopIds.mpr ⟨_, hp, rfl⟩) hcache
  · exact Run.exists_of_execAll 6 _ (f := fun os _ => os) (of_decide_eq_true hnext)

end SimpleOrderbook
