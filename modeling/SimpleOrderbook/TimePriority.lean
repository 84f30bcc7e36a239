import SimpleOrderbook.Queueing
import SimpleOrderbook.Filing
import SimpleOrderbook.Tape

/-!
# Orders keep their places

The orders of one price that rest in a limit chain leave it in any order, but those that stay keep
theirs, and an order that comes later stands behind all that were there. In an AON chain the AONs of
the limit chain of that price come in behind as well, and in a stop chain the stops that trail the
market.

## Main results

* `Run.places_kept` — over any run that continues another, at every price.
-/
namespace SimpleOrderbook

/-! ## Orders leave the chains -/

/-- Orders left the chains, and the others stayed where they were. -/
structure Sheds (s s' : Sob) : Prop where
  limits : ∀ p, (s'.limitIds p).Sublist (s.limitIds p)
  aons : ∀ buys p, (s'.aonIds buys p).Sublist (s.aonIds buys p)
  stops : ∀ p, (s'.stopIds p).Sublist (s.stopIds p)

namespace Sheds
variable {s s' s'' : Sob}

theorem of_files (hf : s'.files = s.files) : Sheds s s' := by
  refine ⟨fun p => ?_, fun buys p => ?_, fun p => ?_⟩
  · unfold Sob.limitIds
    rw [limits_of_files hf]
  · unfold Sob.aonIds
    rw [aons_of_files hf]
  · unfold Sob.stopIds
    rw [stops_of_files hf]

theorem refl (s : Sob) : Sheds s s := .of_files rfl

theorem trans (h : Sheds s s') (h' : Sheds s' s'') : Sheds s s'' :=
  ⟨fun p => (h'.limits p).trans (h.limits p), fun buys p => (h'.aons buys p).trans (h.aons buys p),
    fun p => (h'.stops p).trans (h.stops p)⟩

theorem files (h : Sheds s s') (hf : s''.files = s'.files) : Sheds s s'' := h.trans (.of_files hf)

theorem setLimits {p : Nat} {c : ChainManager LimitBndl}
    (h : (c.elems.map (·.id)).Sublist (s.limitIds p)) : Sheds s (s.setLimits p c) := by
  refine ⟨fun q => ?_, fun buys q => ?_, fun q => ?_⟩
  · rw [Sob.limitIds_setLimits]
    split
    next hq => exact hq ▸ h
    next => exact .refl _
  · unfold Sob.aonIds
    rw [Sob.aons_setLimits]
  · unfold Sob.stopIds
    rw [Sob.stops_setLimits]

theorem setAons {buys : Bool} {p : Nat} {c : ChainManager AonBndl}
    (h : (c.elems.map (·.id)).Sublist (s.aonIds buys p)) : Sheds s (s.setAons buys p c) := by
  refine ⟨fun q => ?_, fun b q => ?_, fun q => ?_⟩
  · unfold Sob.limitIds
    rw [Sob.limits_setAons]
  · rw [Sob.aonIds_setAons]
    split
    next heq => exact heq.1 ▸ heq.2 ▸ h
    next => exact .refl _
  · unfold Sob.stopIds
    rw [Sob.stops_setAons]

theorem setStops {p : Nat} {c : ChainManager StopBndl}
    (h : (c.elems.map (·.id)).Sublist (s.stopIds p)) : Sheds s (s.setStops p c) := by
  refine ⟨fun q => ?_, fun b q => ?_, fun q => ?_⟩
  · unfold Sob.limitIds
    rw [Sob.limits_setStops]
  · unfold Sob.aonIds
    rw [Sob.aons_setStops]
  · rw [Sob.stopIds_setStops]
    split
    next hq => exact hq ▸ h
    next => exact .refl _

theorem cacheErase (s : Sob) (id : Nat) : Sheds s (s.cacheErase id) :=
  ⟨fun _ => .refl _, fun _ _ => .refl _, fun _ => .refl _⟩

theorem erasedLimit (s : Sob) (p id : Nat) : Sheds s (s.erasedLimit p id) := by
  refine (setLimits ?_).trans (cacheErase _ id)
  rw [ChainManager.elems_ofList]
  exact (Chain.eraseLimit_sublist _ _).map _

theorem erasedAon (s : Sob) (isBuy : Bool) (p id : Nat) : Sheds s (s.erasedAon isBuy p id) := by
  have h : Sheds s ((s.setAons isBuy p
      (ChainManager.ofList (Chain.eraseLimit (s.aons isBuy p).elems id))).cacheErase id) := by
    refine (setAons ?_).trans (cacheErase _ id)
    rw [ChainManager.elems_ofList]
    exact (Chain.eraseLimit_sublist _ _).map _
  unfold Sob.erasedAon
  dsimp only
  split
  · exact h.files (Exec.Aon.files_adjustStateAfterPull _ _ _)
  · exact h

theorem erasedStop (s : Sob) (p : Nat) (b : StopBndl) : Sheds s (s.erasedStop p b) := by
  have h : Sheds s ((s.setStops p
      (ChainManager.ofList (Chain.eraseStop (s.stops p).elems b.id))).cacheErase b.id) := by
    refine (setStops ?_).trans (cacheErase _ b.id)
    rw [ChainManager.elems_ofList]
    exact List.eraseP_sublist.map _
  unfold Sob.erasedStop
  dsimp only
  split
  · exact h.files (Exec.Stop.files_adjustStateAfterPull _ _ _)
  · exact h

theorem freeLimits (s : Sob) (bidSide : Bool) (p : Nat) :
    Sheds s (Exec.Core.findNewBestInside bidSide (s.setLimits p none)) :=
  (setLimits (c := none) (List.nil_sublist _)).files (Exec.Core.files_findNewBestInside _ _)

theorem freeAons (s : Sob) (bidSide : Bool) (p : Nat) :
    Sheds s (Exec.Aon.adjustStateAfterPull bidSide (s.setAons bidSide p none) p) :=
  (setAons (c := none) (List.nil_sublist _)).files (Exec.Aon.files_adjustStateAfterPull _ _ _)

/-- A rewritten order keeps its place. -/
theorem updateLimit (s : Sob) (p id : Nat) {f : LimitBndl → LimitBndl} (hf : ∀ b, (f b).id = b.id) :
    Sheds s (s.updateLimit p id f) := by
  refine setLimits (p := p) ?_
  have h := congrFun (limitIds_updateLimit (s := s) p id hf) p
  unfold Sob.limitIds Sob.updateLimit at h
  rw [Sob.limits_setLimits, if_pos rfl] at h
  exact h ▸ .refl _

theorem updateAt (s : Sob) (c : ChainIterWrap) (id : Nat) {f : OrderBndl → OrderBndl}
    (hf : ∀ b, (f b).id = b.id) : Sheds s (s.updateAt c id f) := by
  refine ⟨fun p => ?_, fun buys p => ?_, fun p => ?_⟩
  · rw [limitIds_updateAt hf]
  · unfold Sob.aonIds
    rw [aons_updateAt]
    by_cases hc : c.type = (if buys then .aonBuy else .aonSell) ∧ p = c.p
    · rw [if_pos hc]
      cases s.aons buys p with
      | none => exact .refl _
      | some l =>
        change ((Chain.updateLimit _ id l).map _).Sublist (l.map _)
        rw [Chain.map_updateLimit fun b => hf b.toOrderBndl]
    · rw [if_neg hc]
  · unfold Sob.stopIds
    rw [stops_updateAt]
    split
    · cases s.stops p with
      | none => exact .refl _
      | some l =>
        change ((Chain.updateStop _ id l).map _).Sublist (l.map _)
        rw [Chain.map_updateStop fun b => hf b.toOrderBndl]
    · exact .refl _

theorem armed (s : Sob) (c : ChainIterWrap) (id : Nat) (condition : OrderCondition)
    (trigger : ConditionTrigger) (payload : Payload) :
    Sheds s (s.armed c id condition trigger payload) := by
  unfold Sob.armed
  exact .updateAt s c id fun _ => rfl

theorem reduced (s : Sob) (plev id amount : Nat) : Sheds s (s.reduced plev id amount) := by
  unfold Sob.reduced
  exact .updateLimit s plev id fun _ => rfl

end Sheds

/-! ## Orders join the chains -/

/-- What is left of every chain of `s` is at the front of it in `s'`, in its order. Behind it there are
`New` orders, AONs of the limit chain of that level, or stops of other levels. -/
structure KeepsPlaces (New : Nat → Prop) (s s' : Sob) : Prop where
  limits : ∀ p, QueuedBehind New (s.limitIds p) (s'.limitIds p)
  aons : ∀ buys p, QueuedBehind (fun id => New id ∨ id ∈ s.limitIds p) (s.aonIds buys p)
    (s'.aonIds buys p)
  stops : ∀ p, QueuedBehind (fun id => New id ∨ ∃ q, id ∈ s.stopIds q) (s.stopIds p) (s'.stopIds p)

namespace KeepsPlaces
variable {New New' : Nat → Prop} {s s' s'' : Sob}

theorem of_sheds (h : Sheds s s') : KeepsPlaces New s s' :=
  ⟨fun p => .of_sublist (h.limits p), fun buys p => .of_sublist (h.aons buys p),
    fun p => .of_sublist (h.stops p)⟩

theorem refl (s : Sob) : KeepsPlaces New s s := of_sheds (.refl s)

theorem trans (h : KeepsPlaces New s s') (h' : KeepsPlaces New s' s'') : KeepsPlaces New s s'' := by
  refine ⟨fun p => (h.limits p).trans (h'.limits p), fun buys p => (h.aons buys p).trans
    ((h'.aons buys p).mono fun id hid => ?_), fun p => (h.stops p).trans
      ((h'.stops p).mono fun id hid => ?_)⟩
  · rcases hid with hnew | hmem
    · exact .inl hnew
    · exact ((h.limits p).mem hmem).symm
  · rcases hid with hnew | ⟨q, hmem⟩
    · exact .inl hnew
    · exact ((h.stops q).mem hmem).elim (fun hm => .inr ⟨q, hm⟩) fun hm => hm

theorem mono (h : KeepsPlaces New s s') (hN : ∀ id, New id → New' id) : KeepsPlaces New' s s' :=
  ⟨fun p => (h.limits p).mono hN, fun buys p => (h.aons buys p).mono fun id => Or.imp_left (hN id),
    fun p => (h.stops p).mono fun id => Or.imp_left (hN id)⟩

theorem sheds (h : KeepsPlaces New s s') (hs : Sheds s' s'') : KeepsPlaces New s s'' :=
  h.trans (.of_sheds hs)

theorem files (h : KeepsPlaces New s s') (hf : s''.files = s'.files) : KeepsPlaces New s s'' :=
  h.sheds (.of_files hf)

theorem limitPush (h : KeepsPlaces New s s') (buy : Bool) (p : Nat) {b : LimitBndl}
    (hb : New b.id) : KeepsPlaces New s (Chain.limitPush buy s' p b) := by
  have hf : (Chain.limitPush buy s' p b).files =
      ((s'.setLimits p ((s'.limits p).push b)).cacheEmplace b.id ⟨.limit, p⟩).files :=
    Exec.Limit.files_adjustStateAfterInsert _ _ _
  refine ⟨fun q => ?_, fun buys q => ?_, fun q => ?_⟩
  · unfold Sob.limitIds
    rw [limits_of_files hf, Sob.limits_cacheEmplace, Sob.limits_setLimits]
    split
    next hq =>
      rw [hq, ChainManager.elems_push, List.map_append]
      exact (h.limits p).push hb
    next => exact h.limits q
  · unfold Sob.aonIds
    rw [aons_of_files hf, Sob.aons_cacheEmplace, Sob.aons_setLimits]
    exact h.aons buys q
  · unfold Sob.stopIds
    rw [stops_of_files hf, Sob.stops_cacheEmplace, Sob.stops_setLimits]
    exact h.stops q

/-- An order comes into an AON chain. -/
theorem pushAons (h : KeepsPlaces New s s') (buys : Bool) (p : Nat) {b : AonBndl}
    (hb : New b.id ∨ b.id ∈ s.limitIds p) :
    KeepsPlaces New s (s'.setAons buys p ((s'.aons buys p).push b)) := by
  refine ⟨fun q => ?_, fun d q => ?_, fun q => ?_⟩
  · unfold Sob.limitIds
    rw [Sob.limits_setAons]
    exact h.limits q
  · rw [Sob.aonIds_setAons]
    split
    next heq =>
      obtain ⟨rfl, rfl⟩ := heq
      rw [ChainManager.elems_push, List.map_append]
      exact (h.aons d q).push hb
    next => exact h.aons d q
  · unfold Sob.stopIds
    rw [Sob.stops_setAons]
    exact h.stops q

theorem stopPush (h : KeepsPlaces New s s') (p : Nat) {b : StopBndl}
    (hb : New b.id ∨ ∃ q, b.id ∈ s.stopIds q) : KeepsPlaces New s (Chain.stopPush s' p b) := by
  have hf : (Chain.stopPush s' p b).files =
      ((s'.setStops p ((s'.stops p).push b)).cacheEmplace b.id ⟨.stop, p⟩).files :=
    Exec.Stop.files_adjustStateAfterInsert _ _ _
  refine ⟨fun q => ?_, fun buys q => ?_, fun q => ?_⟩
  · unfold Sob.limitIds
    rw [limits_of_files hf, Sob.limits_cacheEmplace, Sob.limits_setStops]
    exact h.limits q
  · unfold Sob.aonIds
    rw [aons_of_files hf, Sob.aons_cacheEmplace, Sob.aons_setStops]
    exact h.aons buys q
  · unfold Sob.stopIds
    rw [stops_of_files hf, Sob.stops_cacheEmplace, Sob.stops_setStops]
    split
    next hq =>
      rw [hq, ChainManager.elems_push, List.map_append]
      exact (h.stops p).push hb
    next => exact h.stops q

theorem aonPush (h : KeepsPlaces New s s') (buy : Bool) (p : Nat) {b : AonBndl} (hb : New b.id) :
    KeepsPlaces New s (Chain.aonPush buy s' p b) := by
  have hf : (Chain.aonPush buy s' p b).files = ((s'.setAons buy p
      ((s'.aons buy p).push b)).cacheEmplace b.id ⟨if buy then .aonBuy else .aonSell, p⟩).files :=
    Exec.Aon.files_adjustStateAfterInsert _ _ _
  refine ((h.pushAons buy p (.inl hb)).sheds ?_).files hf
  exact ⟨fun q => by unfold Sob.limitIds; rw [Sob.limits_cacheEmplace],
    fun d q => by unfold Sob.aonIds; rw [Sob.aons_cacheEmplace],
    fun q => by unfold Sob.stopIds; rw [Sob.stops_cacheEmplace]⟩

/-- An AON of the limit chain moves. -/
theorem copied (h : KeepsPlaces New s s') (buyLimit : Bool) {p : Nat} {b : LimitBndl}
    (c : ChainIterWrap) (hb : b.id ∈ s.limitIds p) :
    KeepsPlaces New s (s'.copiedToAons buyLimit p b c) := by
  have hcache : Sheds (s'.setAons true p ((s'.aons true p).push b)) ((s'.setAons true p
      ((s'.aons true p).push b)).cacheInsert b.id ⟨if buyLimit then .aonBuy else .aonSell, c.p⟩) :=
    ⟨fun _ => .refl _, fun _ _ => .refl _, fun _ => .refl _⟩
  exact ((h.pushAons true p (.inr hb)).sheds hcache).files
    (Exec.Aon.files_adjustStateAfterInsert _ _ _)

end KeepsPlaces

/-! ## Every transition keeps the places -/

section Transitions
variable {New : Nat → Prop} {F F' : Flight} {w w' : World}

theorem Act.keepsPlaces (h : Act (F, w) (F', w')) : KeepsPlaces New w.toSob w'.toSob := by
  cases h with
  | report => exact .of_sheds (.of_files (files_report _ _ _ _ _ _ _))
  | popLimit => exact .of_sheds (.erasedLimit _ _ _)
  | moveFront p b bs c hgap hl hb hc =>
    have hids : w.limitIds p = b.id :: bs.map (·.id) := by
      unfold Sob.limitIds
      rw [hl]
      rfl
    refine ((KeepsPlaces.refl w.toSob).copied (decide (p < w.ask)) c ?_).sheds (.setLimits ?_)
    · rw [hids]
      exact List.mem_cons_self
    · unfold Sob.limitIds
      rw [ChainManager.elems_ofList, limits_of_bookView (bookView_copiedToAons _ _ _ _ _)]
      change (bs.map (·.id)).Sublist (w.limitIds p)
      rw [hids]
      exact List.sublist_cons_self _ _
  | settle => exact .of_sheds (.of_files (Exec.Limit.files_adjustStateAfterPull _ _ _))
  | popAon => exact .of_sheds (.erasedAon _ _ _ _)
  | popStop => exact .of_sheds (.erasedStop _ _ _)
  | trailingErase => exact .of_sheds (.of_files (files_trailingErased _ _ _))
  | grow | tell => exact .of_sheds (.updateAt _ _ _ fun _ => rfl)
  | growBoth first second id1 id2 c1 c2 a msg cb id price sz =>
    have h1 : Sheds w.toSob (w.updateAt c1 id1 (incrSize a.amount)) := .updateAt _ _ _ fun _ => rfl
    have h2 := h1.files (files_report (w.onSob (·.updateAt c1 id1 (incrSize a.amount))) msg cb id id price sz)
    exact .of_sheds (h2.trans (.updateAt _ c2 id2 fun _ => rfl))
  | newId | enqueue => exact .of_sheds (.of_files rfl)
  | missFront | close | pulled | drop | lose | pullEmptyStop | look => exact .refl _

theorem Move.keepsPlaces (h : Move (F, w) (F', w')) : KeepsPlaces New w.toSob w'.toSob := by
  cases h with
  | act h => exact h.keepsPlaces
  | call | beginHit | skip | missHit | beginScan | turnScan | beginTrigger | endDetached =>
    exact .refl _
  | endScan => exact .of_sheds (.of_files rfl)
  | fillAon bidSide plev id size cb b kept bs hands hh hl =>
    refine .of_sheds (((Sheds.of_files (files_traded w _ _ _ _ _ _)).trans (.cacheErase _ b.id)).trans
      (.setAons ?_))
    have hids : Sob.aonIds ((w.traded plev b.sz id b.id cb b.cb).cacheErase b.id) bidSide plev =
        (kept ++ b :: bs).map (·.id) := by
      unfold Sob.aonIds
      change ((w.traded plev b.sz id b.id cb b.cb).aons bidSide plev).elems.map _ = _
      rw [aons_of_files (files_traded _ _ _ _ _ _ _), hl]
      rfl
    refine hids ▸ List.Sublist.map _ ?_
    exact (List.Sublist.refl kept).append (List.sublist_cons_self b bs)
  | fillLastAon =>
    exact .of_sheds (((Sheds.of_files (files_traded w _ _ _ _ _ _)).trans (.cacheErase _ _)).trans
      (.freeAons _ _ _))
  | freeAon => exact .of_sheds (.freeAons _ _ _)
  | moveHit h id size b c todo hands hgap hact hh hhit htodo hl =>
    refine ((KeepsPlaces.refl w.toSob).copied (decide (h.plev < w.ask)) c ?_).sheds
      (.updateLimit _ _ _ fun _ => rfl)
    exact List.mem_map_of_mem (Chain.findLimit_mem hl).1
  | fill => exact .of_sheds (.of_files (files_traded _ _ _ _ _ _ _))
  | rearm => exact .of_sheds (.updateLimit _ _ _ fun _ => rfl)
  | reduce => exact .of_sheds (.reduced _ _ _ _)
  | retire => exact .of_sheds ((Sheds.reduced _ _ _ _).trans (.cacheErase _ _))
  | eraseHit h pos l hgap hact hhit hpos hl hspent =>
    refine .of_sheds (.setLimits ?_)
    unfold Sob.limitIds
    rw [hl, ChainManager.elems_some, hspent]
    exact List.filter_sublist.map _
  | freeHit | wipeHit => exact .of_sheds (.freeLimits _ _ _)
  | moveStop buyStops p id c b nticks pAdj hc hb =>
    refine (((KeepsPlaces.refl w.toSob).sheds (.erasedStop _ c.p b)).files
      (files_report _ _ _ _ _ _ _)).stopPush pAdj (.inr ⟨c.p, ?_⟩)
    exact List.mem_map_of_mem (List.mem_of_find?_eq_some hb)
  | detach =>
    exact .of_sheds ((Sheds.setStops (c := none) (List.nil_sublist _)).files
      (Exec.Stop.files_adjustStateAfterTrigger _ _ _))
  | eraseTriggered => exact .of_sheds (.of_files (files_trailingErased _ _ _))
  | turn => exact .of_sheds (.of_files (files_turned _ _ _ _ _))
  | endTrigger => exact .of_sheds (.cacheErase _ _)

theorem Moves.keepsPlaces {c c' : Config} (h : Moves c c') : KeepsPlaces New c.2.toSob c'.2.toSob := by
  induction h with
  | refl => exact .refl _
  | tail _ h ih => exact ih.trans h.keepsPlaces

/-- A step brings an order into the book that has its id and waits. -/
theorem Step.keepsPlaces (h : Step (F, w) (F', w')) (hnew : ∀ id ∈ F.ids, New id) :
    KeepsPlaces New w.toSob w'.toSob := by
  have hfirst : ∀ {id : Nat} {ids : List Nat}, F.ids = id :: ids → New id := fun hids =>
    hnew _ (hids ▸ List.mem_cons_self)
  cases h with
  | act h => exact h.keepsPlaces
  | trade _ _ _ _ _ _ _ _ _ _ hm => exact Moves.keepsPlaces hm
  | kill => exact .of_sheds (.of_files (files_report _ _ _ _ _ _ _))
  | print => exact .of_sheds (.of_files (files_traded _ _ _ _ _ _ _))
  | pushLimit _ _ _ _ _ _ _ hids => exact (KeepsPlaces.refl _).limitPush _ _ (hfirst hids)
  | pushAon _ _ _ _ _ _ hids => exact (KeepsPlaces.refl _).aonPush _ _ (hfirst hids)
  | pushStop _ _ _ _ _ hids => exact (KeepsPlaces.refl _).stopPush _ (.inl (hfirst hids))
  | arm => exact .of_sheds (.armed _ _ _ _ _ _)
  | tellEntry e id c payload =>
    exact .of_sheds (.updateAt _ c id (f := fun b => { b with payload := payload }) fun _ => rfl)
  | link => exact .of_sheds ((Sheds.armed _ _ _ _ _ _).trans (.armed _ _ _ _ _ _))
  | openLoss _ _ _ _ _ _ _ _ _ _ _ hids =>
    exact ((KeepsPlaces.refl _).sheds (.armed _ _ _ _ _ _)).stopPush _ (.inl (hfirst hids))
  | trailingInsert => exact .of_sheds (.of_files (files_trailingInserted _ _ _))
  | endOrder => exact .of_sheds (.of_files rfl)
  | accept | beginOrder | addLeg | finish | forget | announce => exact .refl _

/-- A step only makes new ids wait. -/
theorem Step.pending_sub (h : Step (F, w) (F', w')) :
    ∀ id ∈ w'.pending F', id ∈ w.pending F ∨ w.lastId < id := by
  have hsame : F'.ids = F.ids → F'.front = F.front →
      w'.internalOrderQueue = w.internalOrderQueue →
      ∀ id ∈ w'.pending F', id ∈ w.pending F ∨ w.lastId < id := fun hi hf hq id hid =>
    .inl (pending_congr hi hf hq ▸ hid)
  -- the first id stops waiting
  have hdrop : ∀ {i : Nat}, F.ids = i :: F'.ids → F'.front = F.front →
      w'.internalOrderQueue = w.internalOrderQueue →
      ∀ id ∈ w'.pending F', id ∈ w.pending F ∨ w.lastId < id := fun hi hf hq id hid => by
    unfold Sob.pending at hid ⊢
    rw [hf, hq] at hid
    rw [hi, List.cons_append]
    exact .inl (List.mem_cons_of_mem _ hid)
  cases h with
  | act h => exact h.pending_sub
  | trade _ _ _ _ _ _ _ _ _ _ hm => exact Moves.pending_sub hm
  | beginOrder ie queue hfront hq =>
    intro id hid
    left
    simp only [Sob.pending, hfront, hq, List.drop_one, List.tail_cons, List.drop_zero] at hid ⊢
    rw [List.map_cons]
    rcases List.mem_append.mp hid with hid | hid
    · split at hid
      · exact List.mem_append_left _ hid
      · rcases List.mem_cons.mp hid with rfl | hid
        · exact List.mem_append_right _ List.mem_cons_self
        · exact List.mem_append_left _ hid
    · exact List.mem_append_right _ (List.mem_cons_of_mem _ hid)
  | endOrder hfront =>
    intro id hid
    left
    simpa [Sob.pending, hfront, World.onSob, List.drop_one] using hid
  | forget _ _ hids => exact hdrop hids rfl rfl
  | kill => exact hsame rfl rfl (queue_of_bookView (bookView_report _ _ _ _ _ _ _))
  | print => exact hsame rfl rfl (queue_traded _ _ _ _ _ _ _)
  | pushLimit buy p b _ _ _ _ hids => exact hdrop hids rfl (waiting_limitPush w.toSob buy p b).2
  | pushAon _ _ _ _ _ _ hids => exact hdrop hids rfl (queue_of_bookView (bookView_aonPush _ _ _ _))
  | pushStop _ _ _ _ _ hids => exact hdrop hids rfl (queue_of_bookView (bookView_stopPush _ _ _))
  | openLoss _ _ _ _ _ _ _ _ _ _ _ hids =>
    exact hdrop hids rfl
      ((queue_of_bookView (bookView_stopPush _ _ _)).trans (queue_updateAt _ _ _ _))
  | arm | tellEntry => exact hsame rfl rfl (queue_updateAt _ _ _ _)
  | link => exact hsame rfl rfl ((queue_updateAt _ _ _ _).trans (queue_updateAt _ _ _ _))
  | trailingInsert => exact hsame rfl rfl (queue_of_bookView (bookView_trailing _ _ _).2)
  | accept | addLeg | finish | announce => exact hsame rfl rfl rfl

theorem Steps.keepsPlaces {c c' : Config} (h : Steps c c') {last : Nat} (hlast : last ≤ c.2.lastId)
    (hpend : ∀ id ∈ c.2.pending c.1, last < id) :
    KeepsPlaces (last < ·) c.2.toSob c'.2.toSob := by
  suffices KeepsPlaces (last < ·) c.2.toSob c'.2.toSob ∧ ∀ id ∈ c'.2.pending c'.1, last < id from
    this.1
  induction h with
  | refl => exact ⟨.refl _, hpend⟩
  | @tail v v' hs h ih =>
    obtain ⟨hkeeps, hpend⟩ := ih
    refine ⟨hkeeps.trans (h.keepsPlaces fun id hid => hpend id ?_), fun id hid => ?_⟩
    · exact List.mem_append_left _ hid
    · rcases h.pending_sub id hid with hid | hlt
      · exact hpend id hid
      · exact (hlast.trans (Steps.lastId_le hs)).trans_lt hlt

end Transitions

/-! ## Windows and growths -/

/-- The chains of `s`, `off` levels further up. -/
def Sob.shifted (s : Sob) (off : Nat) : Sob :=
  { s with book := fun p => if p < off then {} else s.book (p - off) }

section Runs
variable {New : Nat → Prop} {s s' : Sob} {w w' : World}

theorem limitIds_shifted (off p : Nat) :
    (s.shifted off).limitIds p = if p < off then [] else s.limitIds (p - off) := by
  unfold Sob.shifted Sob.limitIds Sob.limits
  dsimp only
  split <;> rfl

theorem aonIds_shifted (off : Nat) (buys : Bool) (p : Nat) :
    (s.shifted off).aonIds buys p = if p < off then [] else s.aonIds buys (p - off) := by
  unfold Sob.shifted Sob.aonIds Sob.aons
  dsimp only
  split
  · cases buys <;> rfl
  · rfl

theorem stopIds_shifted (off p : Nat) :
    (s.shifted off).stopIds p = if p < off then [] else s.stopIds (p - off) := by
  unfold Sob.shifted Sob.stopIds Sob.stops
  dsimp only
  split <;> rfl

/-- Both books are moved. -/
theorem KeepsPlaces.shifted {off : Nat} (h : KeepsPlaces New (s.shifted off) s') (off' : Nat) :
    KeepsPlaces New (s.shifted (off + off')) (s'.shifted off') := by
  have hlt : ∀ {p}, ¬ p < off' → (p < off + off' ↔ p - off' < off) := by omega
  have hsub : ∀ p, p - (off + off') = p - off' - off := by omega
  have hup : ∀ p, p < off' → p < off + off' := by omega
  refine ⟨fun p => ?_, fun buys p => ?_, fun p => ?_⟩
  · have hp := h.limits (p - off')
    rw [limitIds_shifted] at hp
    rw [limitIds_shifted, limitIds_shifted]
    by_cases hlow : p < off'
    · rw [if_pos hlow, if_pos (hup p hlow)]
      exact .refl _
    · rw [if_neg hlow, hsub]
      simpa only [hlt hlow] using hp
  · have hp := h.aons buys (p - off')
    rw [aonIds_shifted, limitIds_shifted] at hp
    rw [aonIds_shifted, aonIds_shifted, limitIds_shifted]
    by_cases hlow : p < off'
    · simp only [if_pos hlow, if_pos (hup p hlow)]
      exact .refl _
    · rw [if_neg hlow, hsub]
      simpa only [hlt hlow] using hp
  · have hp := h.stops (p - off')
    rw [stopIds_shifted] at hp
    rw [stopIds_shifted, stopIds_shifted]
    by_cases hlow : p < off'
    · rw [if_pos hlow, if_pos (hup p hlow)]
      exact .refl _
    · rw [if_neg hlow, hsub]
      simp only [hlt hlow]
      refine hp.mono fun id => Or.imp_right fun ⟨q, hq⟩ => ⟨q + off', ?_⟩
      rw [stopIds_shifted] at hq ⊢
      rw [hsub, Nat.add_sub_cancel]
      simpa only [Nat.add_lt_add_iff_right] using hq

/-- What was in the book of `w` has kept its place in that of `w'`, and ids only grew. -/
def World.PlacesKept (w w' : World) : Prop :=
  w.lastId ≤ w'.lastId ∧ ∃ off : Nat, w'.base = w.base - off ∧
    KeepsPlaces (w.lastId < ·) (w.shifted off) w'.toSob

namespace World.PlacesKept

theorem refl (w : World) : w.PlacesKept w := by
  refine ⟨le_rfl, 0, (sub_zero w.base).symm, .of_sheds ⟨fun p => ?_, fun buys p => ?_, fun p => ?_⟩⟩
  · rw [limitIds_shifted, if_neg (Nat.not_lt_zero p), Nat.sub_zero]
  · rw [aonIds_shifted, if_neg (Nat.not_lt_zero p), Nat.sub_zero]
  · rw [stopIds_shifted, if_neg (Nat.not_lt_zero p), Nat.sub_zero]

theorem keeps {v : World} (h : w.PlacesKept v) (hk : KeepsPlaces (w.lastId < ·) v.toSob w'.toSob)
    (hlast : v.lastId ≤ w'.lastId) (hbase : w'.base = v.base) : w.PlacesKept w' := by
  obtain ⟨hle, off, hoff, hkeeps⟩ := h
  exact ⟨hle.trans hlast, off, hbase.trans hoff, hkeeps.trans hk⟩

theorem growBook {v : World} (h : w.PlacesKept v) {base : Int} {incr : Nat} {atBeg : Bool}
    (hbase : incr ≠ 0 → base = v.base - growOffset incr atBeg) :
    w.PlacesKept { v with toSob := growBook base incr atBeg v.toSob } := by
  by_cases hincr : incr = 0
  · unfold SimpleOrderbook.growBook
    rwa [if_pos hincr]
  obtain ⟨hle, off, hoff, hkeeps⟩ := h
  refine ⟨?_, off + growOffset incr atBeg, ?_, ?_⟩
  · rw [growBook_of_ne hincr]
    exact hle
  · rw [growBook_of_ne hincr]
    change base = _
    rw [hbase hincr, hoff]
    push_cast
    omega
  · refine (hkeeps.shifted (growOffset incr atBeg)).sheds ?_
    rw [growBook_of_ne hincr]
    exact ⟨fun _ => .refl _, fun _ _ => .refl _, fun _ => .refl _⟩

theorem closes {v : World} {r : Request} {o : Outcome} (h : w.PlacesKept v) (hc : Closes r v o w')
    (hq : v.internalOrderQueue = []) : w.PlacesKept w' := by
  have hpend : ∀ qe : Option OrderQueueElem, ∀ id ∈ v.pending (.opened qe), w.lastId < id := by
    intro qe id hid
    unfold Sob.pending at hid
    rw [hq] at hid
    cases hid
  have hsteps : ∀ {qe F u}, Steps (.opened qe, v) (F, u) → w.PlacesKept u := fun {qe F u} hs =>
    h.keeps (Steps.keepsPlaces hs h.1 (hpend qe)) (Steps.lastId_le hs)
      (congrArg Prod.fst (Steps.grid_eq hs))
  have hclose : ∀ {u u' : World}, w.PlacesKept u → u'.files = u.files → u'.lastId = u.lastId →
      u'.base = u.base → w.PlacesKept u' := fun hu hf hl hb => hu.keeps (.of_sheds (.of_files hf)) hl.ge hb
  cases hc with
  | refused => exact h
  | rejected => exact hclose h rfl rfl rfl
  | grown f hact hs =>
    obtain ⟨base, incr, atBeg, hbase, rfl⟩ := Request.grow_eq hact hs
    exact h.growBook hbase
  | value hqe hs => exact hclose (hsteps hs) rfl rfl rfl
  | @left qe err u hqe hs herr =>
    refine hclose (u := u) ?_ rfl rfl rfl
    cases hs with
    | undefined => exact absurd rfl herr
    | failed hs hm =>
      exact (hsteps hs).keeps (Moves.keepsPlaces hm) (Moves.lastId_le hm)
        (congrArg Prod.fst (Moves.shrinks hm).grid_eq)
    | refused hs => exact hsteps hs

end World.PlacesKept

theorem Run.placesKept {w₀ w w' : World} {rs rs' : List (Request × Outcome)} (h0 : Initial w₀)
    (h : Run w₀ rs w) (h' : Run w rs' w') : w.PlacesKept w' := by
  induction h' with
  | nil => exact .refl w
  | snoc hr hw ih =>
    obtain ⟨hwf, hq⟩ := (h.trans hr).wellFormed h0
    exact ih.closes (hw.closes hwf hq) hq

/-- Over every run of requests that continues a run, whatever its windows end in and however the book
grows: at each price the limit chain begins with orders that were there, in the order they stood in, and
all orders behind these came later; so does the AON chain, except that behind these there are also AONs
that were in the limit chain of that price, and the stop chain, where they may be stops of another
price. -/
theorem Run.places_kept {w₀ w w' : World} {rs rs' : List (Request × Outcome)} (h0 : Initial w₀)
    (h : Run w₀ rs w) (h' : Run w rs' w') {p p' : Nat} (hp : w'.base + p' = w.base + p) :
    QueuedBehind (w.lastId < ·) (w.limitIds p) (w'.limitIds p') ∧
      (∀ buys, QueuedBehind (fun id => w.lastId < id ∨ id ∈ w.limitIds p) (w.aonIds buys p)
        (w'.aonIds buys p')) ∧
      QueuedBehind (fun id => w.lastId < id ∨ ∃ q, id ∈ w.stopIds q) (w.stopIds p)
        (w'.stopIds p') := by
  obtain ⟨-, off, hoff, hkeeps⟩ := h.placesKept h0 h'
  obtain rfl : p' = p + off := by omega
  have hlow : ¬ p + off < off := by omega
  have hlimits := hkeeps.limits (p + off)
  have haons := fun buys => hkeeps.aons buys (p + off)
  have hstops := hkeeps.stops (p + off)
  simp only [limitIds_shifted, aonIds_shifted, stopIds_shifted, if_neg hlow, Nat.add_sub_cancel] at *
  refine ⟨hlimits, haons, hstops.mono fun id => Or.imp_right fun ⟨q, hq⟩ => ⟨q - off, ?_⟩⟩
  split at hq
  · cases hq
  · exact hq

/-- Three orders and an AON rest at one price, the book grows, the second order is pulled, a fifth one
comes and the first one trades. -/
theorem places_kept_after_growth : ∃ rs w rs' w', Run (World.create 5 10) rs w ∧ Run w rs' w' ∧
    rs.map (·.1) = [.limit true 8 2, .limit true 8 3, .limit true 8 4,
      .limit true 8 9 { condition := .allOrNone }] ∧
    rs'.map (·.1) = [.growBookBelow 2, .pullOrder 2 .synchronous, .limit true 8 5, .market false 2] ∧
    w.limitIds 4 = [1, 2, 3, 4] ∧ w'.limitIds 7 = [3, 4, 5] ∧
      QueuedBehind (w.lastId < ·) (w.limitIds 4) (w'.limitIds 7) := by
  obtain ⟨rs, w, h, hrs, hw⟩ := Run.exists_of_execAll 0
    [.limit true 8 2, .limit true 8 3, .limit true 8 4, .limit true 8 9 { condition := .allOrNone }]
    (f := fun _ w => (w.base, w.limitIds 4, (execAll 0
      [.growBookBelow 2, .pullOrder 2 .synchronous, .limit true 8 5, .market false 2] w).map fun c =>
        (c.2.base, c.2.limitIds 7)))
    (v := (5, [1, 2, 3, 4], some (2, [3, 4, 5]))) (w := World.create 5 10) (by decide +kernel)
  simp only [Prod.mk.injEq] at hw
  obtain ⟨hbase, hids, hexec⟩ := hw
  obtain ⟨rs', w', h', hrs', hw'⟩ := Run.exists_of_execAll 0 (f := fun _ w => (w.base, w.limitIds 7)) _ hexec
  obtain ⟨hbase', hids'⟩ := Prod.mk.inj hw'
  have hprice : w'.base + (7 : Nat) = w.base + (4 : Nat) := by
    rw [hbase, hbase']
    rfl
  exact ⟨rs, w, rs', w', h, h', hrs, hrs', hids, hids',
    (h.places_kept (initial_create (by decide) (by decide)) h' hprice).1⟩

end Runs

end SimpleOrderbook
