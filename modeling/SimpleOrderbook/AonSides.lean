import SimpleOrderbook.Conservation

/-!
# The side of all-or-none orders

An order keeps its side and its level. An AON that moves from a limit chain goes to an AON chain of
its side, as long as it is a buy order: the sell orders go to the chain of the buy orders, too.
-/
namespace SimpleOrderbook

/-! ## Orders and where they are -/

/-- Order `k.1` of side `k.2` is in the limit chain of level `p`. -/
def Sob.InLimits (s : Sob) (p : Nat) (k : Nat × Bool) : Prop :=
  ∃ x ∈ (s.limits p).elems, (x.id, x.side) = k

/-- It is in the chain of the AON buy or sell orders. -/
def Sob.InAons (s : Sob) (buys : Bool) (p : Nat) (k : Nat × Bool) : Prop :=
  ∃ x ∈ (s.aons buys p).elems, (x.id, x.side) = k

def Sob.InStops (s : Sob) (id : Nat) : Prop := ∃ p, ∃ x ∈ (s.stops p).elems, x.id = id

/-- No order comes into a chain, and only stops are cached anew. -/
structure Drifts (s s' : Sob) : Prop where
  base : s'.base = s.base
  limits : ∀ p k, s'.InLimits p k → s.InLimits p k
  aons : ∀ buys p k, s'.InAons buys p k → s.InAons buys p k
  stops : ∀ id, s'.InStops id → s.InStops id
  cache : ∀ id c, s'.idCache id = some c → s.idCache id = some c ∨ s.InStops id

namespace Drifts
variable {s s' s'' : Sob}

theorem of_files (hf : s'.files = s.files) (hb : s'.base = s.base) : Drifts s s' := by
  refine ⟨hb, fun p k => ?_, fun buys p k => ?_, fun id => ?_, fun id c hc => .inl ?_⟩
  · unfold Sob.InLimits; rw [limits_of_files hf]; exact fun h => h
  · unfold Sob.InAons; rw [aons_of_files hf]; exact fun h => h
  · unfold Sob.InStops; rw [stops_of_files hf]; exact fun h => h
  · rwa [cache_of_files hf] at hc

theorem refl (s : Sob) : Drifts s s := .of_files rfl rfl

theorem trans (h : Drifts s s') (h' : Drifts s' s'') : Drifts s s'' :=
  ⟨h'.base.trans h.base, fun p k hk => h.limits p k (h'.limits p k hk),
    fun buys p k hk => h.aons buys p k (h'.aons buys p k hk),
    fun id hi => h.stops id (h'.stops id hi), fun id c hc =>
      (h'.cache id c hc).elim (h.cache id c) fun hi => .inr (h.stops id hi)⟩

/-- Orders left the chains or the cache. -/
theorem of_subset (hb : s'.base = s.base) (hl : ∀ p, (s'.limits p).elems ⊆ (s.limits p).elems)
    (ha : ∀ buys p, (s'.aons buys p).elems ⊆ (s.aons buys p).elems)
    (hs : ∀ p, (s'.stops p).elems ⊆ (s.stops p).elems)
    (hc : ∀ id c, s'.idCache id = some c → s.idCache id = some c) : Drifts s s' :=
  ⟨hb, fun p _ ⟨x, hx, hk⟩ => ⟨x, hl p hx, hk⟩, fun buys p _ ⟨x, hx, hk⟩ => ⟨x, ha buys p hx, hk⟩,
    fun _ ⟨p, x, hx, hid⟩ => ⟨p, x, hs p hx, hid⟩, fun id c h => .inl (hc id c h)⟩

theorem setLimits {p : Nat} {l : List LimitBndl} (h : l ⊆ (s.limits p).elems) :
    Drifts s (s.setLimits p (ChainManager.ofList l)) := by
  refine .of_subset rfl (fun q => ?_) (fun buys q => ?_) (fun q => ?_) fun _ _ hc => hc
  · rw [Sob.limits_setLimits]
    split
    next hq => rw [ChainManager.elems_ofList, hq]; exact h
    next => exact List.Subset.refl _
  · rw [Sob.aons_setLimits]; exact List.Subset.refl _
  · rw [Sob.stops_setLimits]; exact List.Subset.refl _

theorem freeLimits (p : Nat) : Drifts s (s.setLimits p none) := by
  refine .of_subset rfl (fun q => ?_) (fun buys q => ?_) (fun q => ?_) fun _ _ hc => hc
  · rw [Sob.limits_setLimits]
    split
    · exact List.nil_subset _
    · exact List.Subset.refl _
  · rw [Sob.aons_setLimits]; exact List.Subset.refl _
  · rw [Sob.stops_setLimits]; exact List.Subset.refl _

theorem cacheErase (id : Nat) : Drifts s (s.cacheErase id) := by
  refine .of_subset rfl (fun _ => List.Subset.refl _) (fun _ _ => List.Subset.refl _)
    (fun _ => List.Subset.refl _) fun i c hc => ?_
  rw [Sob.idCache_cacheErase] at hc
  split at hc
  · cases hc
  · exact hc

theorem setAons {buys : Bool} {p : Nat} {c : ChainManager AonBndl}
    (h : c.elems ⊆ (s.aons buys p).elems) : Drifts s (s.setAons buys p c) := by
  refine .of_subset rfl (fun q => ?_) (fun b q => ?_) (fun q => ?_) fun _ _ hc => hc
  · rw [Sob.limits_setAons]; exact List.Subset.refl _
  · rw [Sob.aons_setAons]
    split
    next hq => rw [hq.1, hq.2]; exact h
    next => exact List.Subset.refl _
  · rw [Sob.stops_setAons]; exact List.Subset.refl _

theorem setStops {p : Nat} {c : ChainManager StopBndl} (h : c.elems ⊆ (s.stops p).elems) :
    Drifts s (s.setStops p c) := by
  refine .of_subset rfl (fun q => ?_) (fun b q => ?_) (fun q => ?_) fun _ _ hc => hc
  · rw [Sob.limits_setStops]; exact List.Subset.refl _
  · rw [Sob.aons_setStops]; exact List.Subset.refl _
  · rw [Sob.stops_setStops]
    split
    next hq => rw [hq]; exact h
    next => exact List.Subset.refl _

theorem mem_updateLimit {g : LimitBndl → LimitBndl} (hg : ∀ b, (g b).id = b.id ∧ (g b).side = b.side)
    {id : Nat} {l : List LimitBndl} {k : Nat × Bool}
    (h : ∃ x ∈ Chain.updateLimit g id l, (x.id, x.side) = k) : ∃ x ∈ l, (x.id, x.side) = k := by
  obtain ⟨x, hx, rfl⟩ := h
  rcases Chain.mem_updateLimit hx with hx | ⟨y, hy, -, rfl⟩
  · exact ⟨x, hx, rfl⟩
  · exact ⟨y, hy, by rw [(hg y).1, (hg y).2]⟩

theorem updateLimit {g : LimitBndl → LimitBndl} (hg : ∀ b, (g b).id = b.id ∧ (g b).side = b.side)
    (p id : Nat) : Drifts s (s.updateLimit p id g) := by
  refine ⟨rfl, fun q k hk => ?_, fun buys q k hk => ?_, fun i hi => ?_, fun _ _ hc => .inl hc⟩
  · unfold Sob.InLimits at hk ⊢
    rw [Sob.elems_updateLimit] at hk
    split at hk
    · exact mem_updateLimit hg hk
    · exact hk
  · unfold Sob.InAons Sob.updateLimit at *
    rwa [Sob.aons_setLimits] at hk
  · unfold Sob.InStops Sob.updateLimit at *
    simpa only [Sob.stops_setLimits] using hi

theorem updateAt {g : OrderBndl → OrderBndl} (hg : ∀ b, (g b).id = b.id) (c : ChainIterWrap)
    (id : Nat) : Drifts s (s.updateAt c id g) := by
  have hg' : ∀ b : LimitBndl, ({ b with toOrderBndl := g b.toOrderBndl } : LimitBndl).id = b.id ∧
      ({ b with toOrderBndl := g b.toOrderBndl } : LimitBndl).side = b.side := fun b => ⟨hg _, rfl⟩
  refine ⟨congrArg Prod.fst (grid_updateAt _ _ _ _), fun q k hk => ?_, fun buys q k hk => ?_,
    fun i hi => ?_, fun j c hc => .inl (idCache_updateAt s _ id g ▸ hc)⟩
  · unfold Sob.InLimits at hk ⊢
    rw [elems_updateAt] at hk
    split at hk
    · exact mem_updateLimit hg' hk
    · exact hk
  · unfold Sob.InAons at hk ⊢
    rw [aons_updateAt] at hk
    by_cases hc : c.type = (if buys then .aonBuy else .aonSell) ∧ q = c.p
    · rw [if_pos hc] at hk
      cases hl : s.aons buys q with
      | none => rw [hl] at hk; exact hk
      | some l => rw [hl] at hk; exact mem_updateLimit hg' hk
    · rwa [if_neg hc] at hk
  · obtain ⟨p, x, hx, rfl⟩ := hi
    rw [stops_updateAt] at hx
    split at hx
    · cases hl : s.stops p with
      | none => rw [hl] at hx; cases hx
      | some l =>
        rw [hl] at hx
        obtain ⟨y, hy, rfl | ⟨-, rfl⟩⟩ := Chain.mem_updateStop hx
        · exact ⟨p, _, hl ▸ hy, rfl⟩
        · exact ⟨p, y, hl ▸ hy, (hg _).symm⟩
    · exact ⟨p, x, hx, rfl⟩

theorem armed (c : ChainIterWrap) (id : Nat) (condition : OrderCondition)
    (trigger : ConditionTrigger) (payload : Payload) :
    Drifts s (s.armed c id condition trigger payload) :=
  .updateAt (g := fun b =>
    { b with condition := condition, trigger := trigger, payload := payload }) (fun _ => rfl) c id

theorem erasedLimit (p id : Nat) : Drifts s (s.erasedLimit p id) :=
  (Drifts.setLimits (Chain.eraseLimit_sublist _ _).subset).trans (.cacheErase id)

theorem erasedAon (isBuy : Bool) (p id : Nat) : Drifts s (s.erasedAon isBuy p id) := by
  have h : Drifts s ((s.setAons isBuy p
      (ChainManager.ofList (Chain.eraseLimit (s.aons isBuy p).elems id))).cacheErase id) := by
    refine (Drifts.setAons ?_).trans (.cacheErase id)
    rw [ChainManager.elems_ofList]
    exact (Chain.eraseLimit_sublist _ _).subset
  unfold Sob.erasedAon
  dsimp only
  split
  · refine h.trans (.of_files (Exec.Aon.files_adjustStateAfterPull _ _ _) ?_)
    obtain ⟨_, _, _, _, heq⟩ := Exec.Aon.adjustStateAfterPull_eq isBuy ((s.setAons isBuy p
      (ChainManager.ofList (Chain.eraseLimit (s.aons isBuy p).elems id))).cacheErase id) p
    rw [heq]
  · exact h

theorem erasedStop (p : Nat) (b : StopBndl) : Drifts s (s.erasedStop p b) := by
  have h : Drifts s ((s.setStops p
      (ChainManager.ofList (Chain.eraseStop (s.stops p).elems b.id))).cacheErase b.id) := by
    refine (Drifts.setStops ?_).trans (.cacheErase b.id)
    rw [ChainManager.elems_ofList]
    exact List.eraseP_sublist.subset
  unfold Sob.erasedStop
  dsimp only
  split
  · refine h.trans (.of_files (Exec.Stop.files_adjustStateAfterPull _ _ _) ?_)
    obtain ⟨_, _, _, _, heq⟩ := Exec.Stop.adjustStateAfterPull_eq b.isBuy ((s.setStops p
      (ChainManager.ofList (Chain.eraseStop (s.stops p).elems b.id))).cacheErase b.id) p
    rw [heq]
  · exact h

end Drifts

/-- AON `b` was copied from the limit chain of level `p` to the chain of the AON buy orders, as if
its side was `buys`. -/
structure Relocates (s s' : Sob) (p : Nat) (b : LimitBndl) (buys : Bool) : Prop where
  mem : b ∈ (s.limits p).elems
  cached : ∃ c, s.idCache b.id = some c ∧ Drifts (s.copiedToAons buys p b c) s'

/-- What becomes of the orders when a call does not insert one. -/
inductive Wanders (w w' : World) : Prop where
  | drifts (h : Drifts w.toSob w'.toSob)
  | relocates (p : Nat) (b : LimitBndl)
      (hlog : .copyBndlToAonChain w.toSob p b (decide (p < w.ask)) ∈ w'.trace)
      (h : Relocates w.toSob w'.toSob p b (decide (p < w.ask)))

section Wanders
variable {F F' : Flight} {w w' : World}

theorem base_of_grid {s s' : Sob} (h : s'.grid = s.grid) : s'.base = s.base := congrArg Prod.fst h

theorem Act.wanders {c c' : Config} (h : Act c c') : Wanders c.2 c'.2 := by
  have hbase := base_of_grid h.grid_eq
  cases h with
  | report => exact .drifts (.of_files (files_report _ _ _ _ _ _ _) hbase)
  | popLimit => exact .drifts (.erasedLimit _ _)
  | @moveFront F w p b bs c hgap hl hb hc =>
    refine .relocates p b List.mem_cons_self ⟨by rw [hl]; exact List.mem_cons_self, c, hc, ?_⟩
    refine Drifts.setLimits ?_
    rw [limits_of_bookView (bookView_copiedToAons _ _ _ _ _), hl]
    exact List.subset_cons_self _ _
  | settle => exact .drifts (.of_files (Exec.Limit.files_adjustStateAfterPull _ _ _) hbase)
  | popAon => exact .drifts (.erasedAon _ _ _)
  | popStop => exact .drifts (.erasedStop _ _)
  | trailingErase => exact .drifts (.of_files (files_trailingErased _ _ _) hbase)
  | @grow F w params id c a => exact .drifts (.updateAt (g := incrSize a.amount) (fun _ => rfl) c id)
  | @tell F w link c a =>
    exact .drifts (.updateAt (g := decrSize a.amount) (fun _ => rfl) c link.id)
  | @growBoth F w first second id1 id2 c1 c2 a msg cb id price sz =>
    let w1 := w.onSob (·.updateAt c1 id1 (incrSize a.amount))
    have h1 : Drifts w.toSob w1.toSob := .updateAt (g := incrSize a.amount) (fun _ => rfl) c1 id1
    have h2 : Drifts w1.toSob (w1.report msg cb id id price sz).toSob :=
      .of_files (files_report _ _ _ _ _ _ _)
        (base_of_grid (grid_of_bookView (bookView_report _ _ _ _ _ _ _)))
    exact .drifts ((h1.trans h2).trans (.updateAt (g := incrSize a.amount) (fun _ => rfl) c2 id2))
  | _ => exact .drifts (.of_files rfl hbase)

theorem Drifts.stopPush_of_mem {s : Sob} (pAdj : Nat) {b : StopBndl} (hb : s.InStops b.id) :
    ∀ s' : Sob, Drifts s s' → s'.idCache b.id = none → Drifts s (Chain.stopPush s' pAdj b) :=
  fun s' h hnone => by
    have hfiles := Exec.Stop.files_adjustStateAfterInsert b.isBuy
      ((s'.setStops pAdj ((s'.stops pAdj).push b)).cacheEmplace b.id ⟨.stop, pAdj⟩) pAdj
    refine ⟨?_, fun p k hk => h.limits p k ?_, fun buys p k hk => h.aons buys p k ?_,
      fun id hid => ?_, fun id c hc => ?_⟩
    · exact (base_of_grid (grid_of_bookView (bookView_stopPush _ _ _))).trans h.base
    · unfold Sob.InLimits Chain.stopPush at *
      rwa [limits_of_files hfiles, Sob.limits_cacheEmplace, Sob.limits_setStops] at hk
    · unfold Sob.InAons Chain.stopPush at *
      rwa [aons_of_files hfiles, Sob.aons_cacheEmplace, Sob.aons_setStops] at hk
    · obtain ⟨p, x, hx, rfl⟩ := hid
      unfold Chain.stopPush at hx
      rw [stops_of_files hfiles, Sob.stops_cacheEmplace, Sob.stops_setStops] at hx
      split at hx
      next hp =>
        rw [ChainManager.elems_push] at hx
        rcases List.mem_append.mp hx with hx | hx
        · exact h.stops x.id ⟨pAdj, x, hx, rfl⟩
        · rw [List.mem_singleton.mp hx]
          exact hb
      next => exact h.stops x.id ⟨p, x, hx, rfl⟩
    · by_cases hid : id = b.id
      · exact .inr (hid ▸ hb)
      · rw [idCache_stopPush _ _ _ hid] at hc
        exact h.cache id c hc

theorem Move.wanders {c c' : Config} (h : Move c c') : Wanders c.2 c'.2 := by
  have hbase := base_of_grid h.shrinks.grid_eq
  have htraded : ∀ (w : World) (plev n id1 id2 : Nat) (cb1 cb2 : OrderExecCbBndl),
      Drifts w.toSob (w.traded plev n id1 id2 cb1 cb2).toSob := fun w plev n id1 id2 cb1 cb2 =>
    .of_files (files_traded _ _ _ _ _ _ _)
      (base_of_grid (grid_of_bookView (bookView_traded w plev n id1 id2 cb1 cb2)))
  cases h with
  | act h => exact h.wanders
  | @fillAon F w bidSide plev id size cb b kept bs hands hh hl =>
    refine .drifts ((htraded w plev b.sz id b.id cb b.cb).trans ((Drifts.cacheErase b.id).trans
      (.setAons ?_)))
    change (kept ++ bs) ⊆ ((w.traded plev b.sz id b.id cb b.cb).aons bidSide plev).elems
    rw [aons_of_files (files_traded _ _ _ _ _ _ _), hl, ChainManager.elems_some]
    exact fun x hx => (List.mem_append.mp hx).elim (List.mem_append_left _) fun hx =>
      List.mem_append_right _ (List.mem_cons_of_mem _ hx)
  | @fillLastAon F w bidSide plev id size cb b hands hh hl =>
    refine .drifts (((htraded w plev b.sz id b.id cb b.cb).trans ((Drifts.cacheErase b.id).trans
      (.setAons (List.nil_subset _)))).trans (.of_files
        (Exec.Aon.files_adjustStateAfterPull bidSide _ plev) ?_))
    exact hbase.trans (base_of_grid (grid_of_bookView (bookView_traded _ _ _ _ _ _ _))).symm
  | @freeAon F w bidSide plev =>
    have h1 : Drifts w.toSob (w.setAons bidSide plev none) := .setAons (List.nil_subset _)
    exact .drifts (h1.trans (.of_files (Exec.Aon.files_adjustStateAfterPull _ _ _) hbase))
  | @moveHit F w h id size b c todo hands hgap hact hh hhit htodo hl hsize hb hsz hnew hc =>
    exact .relocates h.plev b List.mem_cons_self ⟨(Chain.findLimit_mem hl).1, c, hc,
      .updateLimit (g := fun x => { x with sz := 0 }) (fun _ => ⟨rfl, rfl⟩) _ _⟩
  | fill => exact .drifts (htraded _ _ _ _ _ _ _)
  | @rearm F w h a b' =>
    exact .drifts (.updateLimit (g := fun x => { x with
      condition := b'.condition, trigger := b'.trigger, payload := b'.payload })
        (fun _ => ⟨rfl, rfl⟩) _ _)
  | @reduce F w h a =>
    exact .drifts (.updateLimit (g := fun x => { x with sz := x.sz - a.amount })
      (fun _ => ⟨rfl, rfl⟩) _ _)
  | @retire F w h a =>
    exact .drifts ((Drifts.updateLimit (g := fun x => { x with sz := x.sz - a.amount })
      (fun _ => ⟨rfl, rfl⟩) _ _).trans (.cacheErase _))
  | @eraseHit F w h pos l hgap hact hhit hpos hl hspent hne =>
    refine .drifts (.of_subset rfl (fun q => ?_) (fun buys q => ?_) (fun q => ?_) fun _ _ hc => hc)
    · rw [World.toSob_onSob, Sob.limits_setLimits]
      split
      next hq =>
        rw [hq, hl, hspent]
        exact List.filter_sublist.subset
      next => exact List.Subset.refl _
    · rw [World.toSob_onSob, Sob.aons_setLimits]; exact List.Subset.refl _
    · rw [World.toSob_onSob, Sob.stops_setLimits]; exact List.Subset.refl _
  | freeHit | wipeHit =>
    exact .drifts ((Drifts.freeLimits _).trans
      (.of_files (Exec.Core.files_findNewBestInside _ _) hbase))
  | @moveStop F w buyStops p id c b nticks pAdj hc hb =>
    have hm : w.InStops b.id := ⟨c.p, b, List.mem_of_find?_eq_some hb, rfl⟩
    refine .drifts (Drifts.stopPush_of_mem pAdj hm _ ((Drifts.erasedStop c.p b).trans (.of_files
      (files_report _ _ _ _ _ _ _)
        (base_of_grid (grid_of_bookView (bookView_report _ _ _ _ _ _ _))))) ?_)
    rw [cache_of_files (files_report _ _ _ _ _ _ _), World.toSob_onSob, idCache_erasedStop,
      if_pos rfl]
  | @detach F w buyStops plev =>
    have h1 : Drifts w.toSob (w.setStops plev none) := .setStops (List.nil_subset _)
    exact .drifts (h1.trans (.of_files (Exec.Stop.files_adjustStateAfterTrigger _ _ _) hbase))
  | eraseTriggered => exact .drifts (.of_files (files_trailingErased _ _ _) hbase)
  | turn => exact .drifts (.of_files (files_turned _ _ _ _ _) hbase)
  | endTrigger => exact .drifts (.cacheErase _)
  | _ => exact .drifts (.of_files rfl hbase)

end Wanders

/-! ## Where the orders are, and what the cache says of it -/

/-- Order `k.1` of side `k.2` is at level `p`, in a limit chain or an AON chain. -/
def Sob.Lies (s : Sob) (p : Nat) (k : Nat × Bool) : Prop :=
  s.InLimits p k ∨ ∃ buys, s.InAons buys p k

/-- Order `id` is in a chain or in the cache. -/
def Sob.Knows (s : Sob) (id : Nat) : Prop :=
  (∃ p side, s.Lies p (id, side)) ∨ s.InStops id ∨ s.idCache id ≠ none

/-- Every order keeps its level and its side, an AON chain holds orders of its side, and what the
cache says of them is right. -/
structure InPlace (w : World) : Prop where
  own : ∀ e, .insertOrder e ∈ w.trace → e.condition = .allOrNone → ∀ p side,
    w.Lies p (e.id, side) → side = e.isBuy ∧ (p : Int) = w.levelOf e.limit
  unique : ∀ id p q side side', w.Lies p (id, side) → w.Lies q (id, side') → p = q ∧ side = side'
  aonSide : ∀ buys p id side, w.InAons buys p (id, side) → side = buys
  level : ∀ id p side c, w.Lies p (id, side) → w.idCache id = some c → c.p = p
  tag : ∀ id buys p side c, w.InAons buys p (id, side) → w.idCache id = some c →
    c.type = if buys then .aonBuy else .aonSell
  apart : ∀ id p side, w.InStops id → ¬ w.Lies p (id, side)

/-- What waits is new, and an AON that waits is the one under insertion. -/
structure Fresh (F : Flight) (w : World) : Prop where
  known : ∀ id, w.Knows id → id ≤ w.lastId ∧ id ∉ w.pending F
  accepted : ∀ e, .insertOrder e ∈ w.trace → e.condition = .allOrNone →
    e.id ≤ w.lastId ∧ (e.id ∈ w.pending F → F.cur = some e ∧ e.id ∈ F.ids)
  acting : F.acting = none

section Drifts
variable {s s' : Sob} {w w' : World}

theorem Drifts.lies (h : Drifts s s') {p : Nat} {k : Nat × Bool} (hk : s'.Lies p k) : s.Lies p k :=
  hk.imp (h.limits p k) fun ⟨buys, ha⟩ => ⟨buys, h.aons buys p k ha⟩

theorem Drifts.knows (h : Drifts s s') {id : Nat} (hid : s'.Knows id) : s.Knows id := by
  rcases hid with ⟨p, side, hl⟩ | hs | hc
  · exact .inl ⟨p, side, h.lies hl⟩
  · exact .inr (.inl (h.stops id hs))
  · obtain ⟨c, hc⟩ := Option.ne_none_iff_exists'.mp hc
    rcases h.cache id c hc with hc | hs
    · exact .inr (.inr (by rw [hc]; simp))
    · exact .inr (.inl hs)

theorem Drifts.levelOf (h : Drifts s s') (price : Int) : s'.levelOf price = s.levelOf price := by
  unfold Sob.levelOf
  rw [h.base]

theorem InPlace.drifts (h : InPlace w) (hd : Drifts w.toSob w'.toSob)
    (hacc : ∀ e, .insertOrder e ∈ w'.trace → .insertOrder e ∈ w.trace) : InPlace w' := by
  -- an order that lies somewhere is not a stop, so its cache entry is an old one
  have hcache : ∀ {id p side c}, w'.Lies p (id, side) → w'.idCache id = some c →
      w.idCache id = some c := fun hl hc =>
    (hd.cache _ _ hc).resolve_right fun hs => h.apart _ _ _ hs (hd.lies hl)
  refine ⟨fun e he hc p side hl => ?_, fun id p q a b ha hb => ?_, fun buys p id side ha => ?_,
    fun id p side c hl hc => ?_, fun id buys p side c ha hc => ?_, fun id p side hs hl => ?_⟩
  · rw [hd.levelOf]
    exact h.own e (hacc e he) hc p side (hd.lies hl)
  · exact h.unique id p q a b (hd.lies ha) (hd.lies hb)
  · exact h.aonSide buys p id side (hd.aons _ _ _ ha)
  · exact h.level id p side c (hd.lies hl) (hcache hl hc)
  · exact h.tag id buys p side c (hd.aons _ _ _ ha) (hcache (.inr ⟨buys, ha⟩) hc)
  · exact h.apart id p side (hd.stops id hs) (hd.lies hl)

end Drifts

section Copied
variable {w w' : World} {p : Nat} {b : LimitBndl} {c : ChainIterWrap}

theorem inLimits_copiedToAons {buyLimit : Bool} {q : Nat} {k : Nat × Bool} :
    (w.copiedToAons buyLimit p b c).InLimits q k ↔ w.InLimits q k := by
  unfold Sob.InLimits
  rw [limits_of_bookView (bookView_copiedToAons _ _ _ _ _)]

/-- The copy is with the AON buy orders. -/
theorem inAons_copiedToAons {buyLimit buys : Bool} {q : Nat} {k : Nat × Bool}
    (h : (w.copiedToAons buyLimit p b c).InAons buys q k) :
    w.InAons buys q k ∨ q = p ∧ buys = true ∧ k = (b.id, b.side) := by
  obtain ⟨x, hx, rfl⟩ := h
  rw [aons_copiedToAons] at hx
  split at hx
  next heq =>
    obtain ⟨rfl, rfl⟩ := heq
    rw [ChainManager.elems_push] at hx
    rcases List.mem_append.mp hx with hx | hx
    · exact .inl ⟨x, hx, rfl⟩
    · rw [List.mem_singleton.mp hx]
      exact .inr ⟨rfl, rfl, rfl⟩
  next => exact .inl ⟨x, hx, rfl⟩

theorem inStops_copiedToAons {buyLimit : Bool} {id : Nat} :
    (w.copiedToAons buyLimit p b c).InStops id ↔ w.InStops id := by
  unfold Sob.InStops
  rw [stops_copiedToAons]

theorem lies_copiedToAons {buyLimit : Bool} {q : Nat} {k : Nat × Bool}
    (hb : b ∈ (w.limits p).elems) (h : (w.copiedToAons buyLimit p b c).Lies q k) : w.Lies q k := by
  rcases h with h | ⟨buys, h⟩
  · exact .inl (inLimits_copiedToAons.mp h)
  · rcases inAons_copiedToAons h with h | ⟨rfl, -, rfl⟩
    · exact .inr ⟨buys, h⟩
    · exact .inl ⟨b, hb, rfl⟩

theorem knows_copiedToAons {buyLimit : Bool} {id : Nat} (hb : b ∈ (w.limits p).elems)
    (h : (w.copiedToAons buyLimit p b c).Knows id) : w.Knows id := by
  rcases h with ⟨q, side, h⟩ | h | h
  · exact .inl ⟨q, side, lies_copiedToAons hb h⟩
  · exact .inr (.inl (inStops_copiedToAons.mp h))
  · rw [idCache_copiedToAons] at h
    split at h
    next hid => exact .inl ⟨p, b.side, .inl ⟨b, hb, by rw [hid]⟩⟩
    next => exact .inr (.inr h)

/-- A buy order is where it belongs when it was copied to the AON buy orders. -/
theorem InPlace.copied (h : InPlace w) (hb : b ∈ (w.limits p).elems) (hside : b.side = true)
    (hc : w.idCache b.id = some c) : InPlace (w.onSob (·.copiedToAons true p b c)) := by
  have hold : ∀ {q k}, (w.copiedToAons true p b c).Lies q k → w.Lies q k := fun hl =>
    lies_copiedToAons hb hl
  have hnew : ∀ {buys q k}, (w.copiedToAons true p b c).InAons buys q k →
      w.InAons buys q k ∨ q = p ∧ buys = true ∧ k = (b.id, b.side) := fun ha =>
    inAons_copiedToAons ha
  have hlies : w.Lies p (b.id, b.side) := .inl ⟨b, hb, rfl⟩
  have hp : c.p = p := h.level _ _ _ _ hlies hc
  have hcache : ∀ id, (w.copiedToAons true p b c).idCache id =
      if id = b.id then some ⟨.aonBuy, c.p⟩ else w.idCache id := fun id =>
    idCache_copiedToAons w.toSob true p b c id
  have hbase : (w.copiedToAons true p b c).base = w.base :=
    base_of_grid (grid_of_bookView (bookView_copiedToAons w.toSob true p b c))
  refine ⟨fun e he hcond q side hl => ?_, fun id q r a a' ha ha' => ?_, fun buys q id side ha => ?_,
    fun id q side c' hl hc' => ?_, fun id buys q side c' ha hc' => ?_, fun id q side hs hl => ?_⟩
  · have := h.own e he hcond q side (hold hl)
    unfold Sob.levelOf at *
    rwa [World.toSob_onSob, hbase]
  · exact h.unique id q r a a' (hold ha) (hold ha')
  · rcases hnew ha with ha | ⟨-, rfl, hk⟩
    · exact h.aonSide buys q id side ha
    · exact (Prod.ext_iff.mp hk).2.trans hside
  · have hl : w.Lies q (id, side) := hold hl
    rw [World.toSob_onSob, hcache] at hc'
    split at hc'
    next hid =>
      cases hc'
      exact h.level id q side c hl (hid ▸ hc)
    next => exact h.level id q side c' hl hc'
  · rw [World.toSob_onSob, hcache] at hc'
    split at hc'
    next hid =>
      subst hid
      cases hc'
      -- an order keeps its side, and this one is a buy order
      have hl : w.Lies q (b.id, side) := hold (.inr ⟨buys, ha⟩)
      have hbuy : side = true := (h.unique _ _ _ _ _ hl hlies).2.trans hside
      rcases hnew ha with ha | ⟨-, rfl, -⟩
      · rw [← h.aonSide buys q b.id side ha, hbuy]
        rfl
      · rfl
    next hid =>
      rcases hnew ha with ha | ⟨-, -, hk⟩
      · exact h.tag id buys q side c' ha hc'
      · exact absurd (Prod.ext_iff.mp hk).1 hid
  · have hs : (w.copiedToAons true p b c).InStops id := hs
    exact h.apart id q side (inStops_copiedToAons.mp hs) (hold hl)

end Copied

/-! ## What pulls, handlers and trades do to it -/

/-- No sell order was copied to the AON chains. -/
def World.NoSellRelocated (w : World) : Prop := ∀ s p b, .copyBndlToAonChain s p b false ∉ w.trace

section Moves
variable {F F' : Flight} {w w' : World}

theorem World.NoSellRelocated.of_suffix (h : w'.NoSellRelocated) (ht : w.trace <:+ w'.trace) :
    w.NoSellRelocated := fun s p b hm => h s p b (ht.subset hm)

/-- A limit order is on the side of `_ask` it was inserted on, also while its chain is open. -/
theorem Ambient.side_eq (h : Ambient F w) {p : Nat} {b : LimitBndl}
    (hb : b ∈ (w.limits p).elems) : b.side = decide (p < w.ask) := by
  have key : ∀ v : LimitView, LimitInv v → v.ask = w.ask → b ∈ (v.limits p).elems →
      b.side = decide (p < w.ask) := fun v hv hask hm => by
    have hlt := hv.bid_lt_ask
    have := hv.side p b hm
    rw [← hask]
    cases hs : b.side <;> simp only [hs, if_true, Bool.false_eq_true, if_false] at this
    · exact (decide_eq_false (by omega)).symm
    · exact (decide_eq_true (by omega)).symm
  cases hgap : F.gap with
  | none => exact key _ (h.limitInv hgap) rfl hb
  | some q =>
    have hopen : Open q w.toSob := by
      have := h.limit
      unfold LimitsRight at this
      rwa [hgap] at this
    by_cases hq : w.limits q = none
    · obtain ⟨c, -, -, hl⟩ := hopen
      refine key _ hl rfl ?_
      change b ∈ ((w.setLimits q c).limits p).elems
      rw [Sob.limits_setLimits, if_neg]
      · exact hb
      · rintro rfl
        rw [hq] at hb
        cases hb
    · exact key _ (hopen.limitInv hq) rfl hb

/-- An order that wanders stays on its side when it is a buy order. -/
theorem InPlace.wanders (h : InPlace w) (ha : Ambient F w) (hw : Wanders w w')
    (hside : w'.NoSellRelocated)
    (hacc : ∀ e, .insertOrder e ∈ w'.trace → .insertOrder e ∈ w.trace) : InPlace w' := by
  cases hw with
  | drifts hd => exact h.drifts hd hacc
  | relocates p b hlog hr =>
    obtain ⟨hb, c, hc, hd⟩ := hr
    have hbuy : decide (p < w.ask) = true := by
      refine Bool.eq_true_of_not_eq_false fun hs => ?_
      rw [hs] at hlog
      exact hside _ _ _ hlog
    rw [hbuy] at hd
    exact (h.copied hb ((ha.side_eq hb).trans hbuy) hc).drifts hd hacc

theorem Wanders.knows (h : Wanders w w') {id : Nat} (hid : w'.Knows id) : w.Knows id := by
  cases h with
  | drifts hd => exact hd.knows hid
  | relocates p b hlog hr =>
    obtain ⟨hb, c, hc, hd⟩ := hr
    exact knows_copiedToAons hb (hd.knows hid)

theorem Moves.knows {c c' : Config} (h : Moves c c') {id : Nat} (hid : c'.2.Knows id) :
    c.2.Knows id := by
  induction h with
  | refl => exact hid
  | tail _ h ih => exact ih (h.wanders.knows hid)

theorem Moves.inPlace {c c' : Config} (h : Moves c c') (ha : Ambient c.1 c.2)
    (hside : c'.2.NoSellRelocated) (hp : InPlace c.2) : InPlace c'.2 := by
  induction h with
  | refl => exact hp
  | tail h h' ih =>
    exact (ih (hside.of_suffix h'.trace_suffix)).wanders (Moves.ambient h ha) h'.wanders hside
      fun e he => Moves.accepted (.single h') he

theorem Fresh.moves {c c' : Config} (h : Moves c c') (hf : Fresh c.1 c.2)
    (hacting : c'.1.acting = none) (hcur : c'.1.cur = c.1.cur)
    (hids : ∀ e, c.1.cur = some e → e.condition = .allOrNone → e.id ∈ c'.2.pending c'.1 →
      e.id ∈ c.1.ids → e.id ∈ c'.1.ids) : Fresh c'.1 c'.2 := by
  have hlast := Moves.lastId_le h
  refine ⟨fun id hid => ?_, fun e he hc => ?_, hacting⟩
  · obtain ⟨hle, hn⟩ := hf.known id (Moves.knows h hid)
    exact ⟨hle.trans hlast, fun hm => (Moves.pending_sub h id hm).elim hn (not_lt.mpr hle)⟩
  · obtain ⟨hle, hw⟩ := hf.accepted e (Moves.accepted h he) hc
    refine ⟨hle.trans hlast, fun hm => ?_⟩
    obtain ⟨he, hi⟩ := hw ((Moves.pending_sub h e.id hm).resolve_right (not_lt.mpr hle))
    exact ⟨hcur ▸ he, hids e he hc hm hi⟩

end Moves

/-! ## New orders -/

/-- Order `id` comes into a chain of type `ty` at level `p`. -/
structure Admits (s s' : Sob) (ty : IType) (p id : Nat) (side : Bool) : Prop where
  base : s'.base = s.base
  limits : ∀ q k, s'.InLimits q k → s.InLimits q k ∨ ty = .limit ∧ q = p ∧ k = (id, side)
  aons : ∀ buys q k, s'.InAons buys q k → s.InAons buys q k ∨
    ty = (if buys then .aonBuy else .aonSell) ∧ buys = side ∧ q = p ∧ k = (id, side)
  stops : ∀ i, s'.InStops i → s.InStops i ∨ ty = .stop ∧ i = id
  cache : ∀ i c, s'.idCache i = some c → s.idCache i = some c ∨ i = id ∧ c = ⟨ty, p⟩

theorem mem_push {β : Type} {f : β → Nat × Bool} {cm : ChainManager β} {b : β} {k : Nat × Bool}
    (h : ∃ x ∈ (cm.push b).elems, f x = k) : (∃ x ∈ cm.elems, f x = k) ∨ k = f b := by
  obtain ⟨x, hx, rfl⟩ := h
  rw [ChainManager.elems_push] at hx
  rcases List.mem_append.mp hx with hx | hx
  · exact .inl ⟨x, hx, rfl⟩
  · exact .inr (by rw [List.mem_singleton.mp hx])

theorem cache_cacheEmplace {s : Sob} {id i : Nat} {c d : ChainIterWrap}
    (h : (s.cacheEmplace id c).idCache i = some d) : s.idCache i = some d ∨ i = id ∧ d = c := by
  unfold Sob.cacheEmplace at h
  split at h
  · exact .inl h
  · change (if i = id then some c else s.idCache i) = some d at h
    split at h
    next hi => exact .inr ⟨hi, (Option.some.inj h).symm⟩
    next => exact .inl h

namespace Admits
variable {s : Sob} {p : Nat}

theorem limitPush (buy : Bool) (b : LimitBndl) :
    Admits s (Chain.limitPush buy s p b) .limit p b.id b.side := by
  let s' := (s.setLimits p ((s.limits p).push b)).cacheEmplace b.id ⟨.limit, p⟩
  have hf : (Chain.limitPush buy s p b).files = s'.files :=
    Exec.Limit.files_adjustStateAfterInsert _ _ _
  refine ⟨?_, fun q k h => ?_, fun buys q k h => .inl ?_, fun i h => .inl ?_, fun i c h => ?_⟩
  · obtain ⟨_, h⟩ := (s.setLimits p ((s.limits p).push b)).cacheEmplace_eq b.id ⟨.limit, p⟩
    unfold Chain.limitPush
    rw [h]
    cases buy <;> rfl
  · unfold Sob.InLimits at h ⊢
    rw [limits_of_files hf, Sob.limits_cacheEmplace, Sob.limits_setLimits] at h
    split at h
    next hq =>
      subst hq
      exact (mem_push h).imp_right fun hk => ⟨rfl, rfl, hk⟩
    next => exact .inl h
  · unfold Sob.InAons at h ⊢
    rwa [aons_of_files hf, Sob.aons_cacheEmplace, Sob.aons_setLimits] at h
  · unfold Sob.InStops at h ⊢
    simpa only [stops_of_files hf, s', Sob.stops_cacheEmplace, Sob.stops_setLimits] using h
  · rw [cache_of_files hf] at h
    exact cache_cacheEmplace (s := s.setLimits p ((s.limits p).push b)) h

theorem aonPush (b : AonBndl) :
    Admits s (Chain.aonPush b.side s p b) (if b.side then .aonBuy else .aonSell) p b.id b.side := by
  let s' := (s.setAons b.side p ((s.aons b.side p).push b)).cacheEmplace b.id
    ⟨if b.side then .aonBuy else .aonSell, p⟩
  have hf : (Chain.aonPush b.side s p b).files = s'.files :=
    Exec.Aon.files_adjustStateAfterInsert _ _ _
  refine ⟨base_of_grid (grid_of_bookView (bookView_aonPush _ _ _ _)), fun q k h => .inl ?_,
    fun buys q k h => ?_, fun i h => .inl ?_, fun i c h => ?_⟩
  · unfold Sob.InLimits at h ⊢
    rwa [limits_of_files hf, Sob.limits_cacheEmplace, Sob.limits_setAons] at h
  · unfold Sob.InAons at h ⊢
    rw [aons_of_files hf, Sob.aons_cacheEmplace, Sob.aons_setAons] at h
    split at h
    next heq =>
      obtain ⟨rfl, rfl⟩ := heq
      exact (mem_push h).imp_right fun hk => ⟨rfl, rfl, rfl, hk⟩
    next => exact .inl h
  · unfold Sob.InStops at h ⊢
    simpa only [stops_of_files hf, s', Sob.stops_cacheEmplace, Sob.stops_setAons] using h
  · rw [cache_of_files hf] at h
    exact cache_cacheEmplace (s := s.setAons b.side p ((s.aons b.side p).push b)) h

theorem stopPush (b : StopBndl) (side : Bool) :
    Admits s (Chain.stopPush s p b) .stop p b.id side := by
  let s' := (s.setStops p ((s.stops p).push b)).cacheEmplace b.id ⟨.stop, p⟩
  have hf : (Chain.stopPush s p b).files = s'.files :=
    Exec.Stop.files_adjustStateAfterInsert _ _ _
  refine ⟨base_of_grid (grid_of_bookView (bookView_stopPush _ _ _)), fun q k h => .inl ?_,
    fun buys q k h => .inl ?_, fun i h => ?_, fun i c h => ?_⟩
  · unfold Sob.InLimits at h ⊢
    rwa [limits_of_files hf, Sob.limits_cacheEmplace, Sob.limits_setStops] at h
  · unfold Sob.InAons at h ⊢
    rwa [aons_of_files hf, Sob.aons_cacheEmplace, Sob.aons_setStops] at h
  · obtain ⟨q, x, hx, rfl⟩ := h
    rw [stops_of_files hf, Sob.stops_cacheEmplace, Sob.stops_setStops] at hx
    split at hx
    next hq =>
      subst hq
      rw [ChainManager.elems_push] at hx
      rcases List.mem_append.mp hx with hx | hx
      · exact .inl ⟨q, x, hx, rfl⟩
      · exact .inr ⟨rfl, by rw [List.mem_singleton.mp hx]⟩
    next => exact .inl ⟨q, x, hx, rfl⟩
  · rw [cache_of_files hf] at h
    exact cache_cacheEmplace (s := s.setStops p ((s.stops p).push b)) h

end Admits

section Admits
variable {w w' : World} {ty : IType} {p id : Nat} {side : Bool}

theorem Admits.lies {s s' : Sob} (h : Admits s s' ty p id side) {q : Nat} {k : Nat × Bool}
    (hk : s'.Lies q k) : s.Lies q k ∨ ty ≠ .stop ∧ q = p ∧ k = (id, side) := by
  rcases hk with hk | ⟨buys, hk⟩
  · rcases h.limits q k hk with hk | ⟨rfl, hk⟩
    · exact .inl (.inl hk)
    · exact .inr ⟨by simp, hk⟩
  · rcases h.aons buys q k hk with hk | ⟨rfl, -, hk⟩
    · exact .inl (.inr ⟨buys, hk⟩)
    · exact .inr ⟨by cases buys <;> simp, hk⟩

theorem Admits.knows {s s' : Sob} (h : Admits s s' ty p id side) {i : Nat} (hi : s'.Knows i) :
    s.Knows i ∨ i = id := by
  rcases hi with ⟨q, a, hl⟩ | hs | hc
  · rcases h.lies hl with hl | ⟨-, -, hk⟩
    · exact .inl (.inl ⟨q, a, hl⟩)
    · exact .inr (Prod.ext_iff.mp hk).1
  · exact (h.stops i hs).imp (fun hs => .inr (.inl hs)) (·.2)
  · obtain ⟨c, hc⟩ := Option.ne_none_iff_exists'.mp hc
    exact (h.cache i c hc).imp (fun hc => .inr (.inr (by rw [hc]; simp))) (·.1)

/-- The new order is in the chain of its own side and level. -/
theorem InPlace.admits (h : InPlace w) (ha : Admits w.toSob w'.toSob ty p id side)
    (hnew : ¬ w.Knows id) (hacc : ∀ e, .insertOrder e ∈ w'.trace → .insertOrder e ∈ w.trace)
    (hown : ∀ e, .insertOrder e ∈ w.trace → e.condition = .allOrNone → e.id = id → ty ≠ .stop →
      side = e.isBuy ∧ (p : Int) = w.levelOf e.limit) : InPlace w' := by
  have hlies : ∀ {q a}, ¬ w.Lies q (id, a) := fun hl => hnew (.inl ⟨_, _, hl⟩)
  have hcache : ∀ {c}, ¬ w.idCache id = some c := fun hc => hnew (.inr (.inr (by rw [hc]; simp)))
  refine ⟨fun e he hc q a hl => ?_, fun i q r a a' hl hl' => ?_, fun buys q i a hl => ?_,
    fun i q a c hl hc => ?_, fun i buys q a c hl hc => ?_, fun i q a hs hl => ?_⟩
  · have hlev : w'.levelOf e.limit = w.levelOf e.limit := by
      unfold Sob.levelOf
      rw [ha.base]
    rw [hlev]
    rcases ha.lies hl with hl | ⟨hty, rfl, hk⟩
    · exact h.own e (hacc e he) hc q a hl
    · obtain ⟨hid, rfl⟩ := Prod.ext_iff.mp hk
      exact hown e (hacc e he) hc hid hty
  · rcases ha.lies hl with hl | ⟨-, rfl, hk⟩ <;> rcases ha.lies hl' with hl' | ⟨-, rfl, hk'⟩
    · exact h.unique i q r a a' hl hl'
    · cases hk'
      exact absurd hl hlies
    · cases hk
      exact absurd hl' hlies
    · cases hk
      cases hk'
      exact ⟨rfl, rfl⟩
  · rcases ha.aons buys q _ hl with hl | ⟨-, rfl, -, hk⟩
    · exact h.aonSide buys q i a hl
    · exact (Prod.ext_iff.mp hk).2
  · rcases ha.lies hl with hl | ⟨-, rfl, hk⟩ <;> rcases ha.cache i c hc with hc | ⟨rfl, rfl⟩
    · exact h.level i q a c hl hc
    · exact absurd hl hlies
    · cases hk
      exact absurd hc hcache
    · rfl
  · rcases ha.aons buys q _ hl with hl | ⟨hty, -, -, hk⟩ <;>
      rcases ha.cache i c hc with hc | ⟨rfl, rfl⟩
    · exact h.tag i buys q a c hl hc
    · exact absurd (.inr ⟨buys, hl⟩) hlies
    · cases hk
      exact absurd hc hcache
    · exact hty
  · rcases ha.stops i hs with hs | ⟨hty, rfl⟩ <;> rcases ha.lies hl with hl | ⟨hty', -, hk⟩
    · exact h.apart i q a hs hl
    · cases hk
      exact hnew (.inr (.inl hs))
    · exact hlies hl
    · exact hty' hty

end Admits

/-! ## Insertions -/

section Steps
variable {F F' : Flight} {w w' : World}

/-- The call inserts no order. -/
theorem Fresh.keep (h : Fresh F w) (hk : ∀ id, w'.Knows id → w.Knows id)
    (hacc : ∀ e, .insertOrder e ∈ w'.trace → .insertOrder e ∈ w.trace)
    (hlast : w'.lastId = w.lastId) (hpend : ∀ id ∈ w'.pending F', id ∈ w.pending F)
    (hacting : F'.acting = F.acting) (hcur : F'.cur = F.cur)
    (hids : ∀ id ∈ w'.pending F', id ∈ F.ids → id ∈ F'.ids) : Fresh F' w' := by
  refine ⟨fun id hid => ?_, fun e he hc => ?_, hacting.trans h.acting⟩
  · obtain ⟨hle, hn⟩ := h.known id (hk id hid)
    exact ⟨hlast ▸ hle, fun hm => hn (hpend id hm)⟩
  · obtain ⟨hle, hw⟩ := h.accepted e (hacc e he) hc
    refine ⟨hlast ▸ hle, fun hm => ?_⟩
    obtain ⟨he, hi⟩ := hw (hpend _ hm)
    exact ⟨hcur ▸ he, hids _ hm hi⟩

theorem Fresh.push (h : Fresh F w) (hn : (w.pending F).Nodup)
    (hle : ∀ id ∈ w.pending F, id ≤ w.lastId) {ty : IType} {p id : Nat} {side : Bool}
    {ids : List Nat} (hs : Admits w.toSob w'.toSob ty p id side) (hids : F.ids = id :: ids)
    (htrace : w'.trace = w.trace) (hlast : w'.lastId = w.lastId)
    (hq : w'.internalOrderQueue = w.internalOrderQueue) (hids' : F'.ids = ids)
    (hfront : F'.front = F.front) (hacting : F'.acting = F.acting) (hcur : F'.cur = F.cur) :
    Fresh F' w' := by
  have hpend : w.pending F = id :: w'.pending F' := by
    unfold Sob.pending
    rw [hids, hids', hfront, hq, List.cons_append]
  have hnew : id ∉ w'.pending F' := (List.nodup_cons.mp (hpend ▸ hn)).1
  refine ⟨fun i hi => ?_, fun e he hc => ?_, hacting.trans h.acting⟩
  · rw [hlast]
    rcases hs.knows hi with hi | rfl
    · obtain ⟨hle, hn⟩ := h.known i hi
      exact ⟨hle, fun hm => hn (hpend ▸ List.mem_cons_of_mem _ hm)⟩
    · exact ⟨hle i (hpend ▸ List.mem_cons_self), hnew⟩
  · obtain ⟨hle, hw⟩ := h.accepted e (htrace ▸ he) hc
    refine ⟨hlast ▸ hle, fun hm => ?_⟩
    obtain ⟨he, hi⟩ := hw (hpend ▸ List.mem_cons_of_mem _ hm)
    rw [hids] at hi
    refine ⟨hcur ▸ he, hids' ▸ (List.mem_cons.mp hi).resolve_left fun heq => hnew (heq ▸ hm)⟩

/-- What waits is not in the book. -/
theorem Fresh.not_knows (h : Fresh F w) {id : Nat} {ids : List Nat} (hids : F.ids = id :: ids) :
    ¬ w.Knows id := fun hk => (h.known id hk).2 (by simp [Sob.pending, hids])

/-- An AON that is pushed is the order under insertion. -/
theorem Fresh.inserts (h : Fresh F w) {e e' : OrderQueueElem} {id : Nat} {ids : List Nat}
    (hids : F.ids = id :: ids) (hins : F.Inserts e) (he : .insertOrder e' ∈ w.trace)
    (hc : e'.condition = .allOrNone) (hid : e'.id = id) : e = e' := by
  have hcur := ((h.accepted e' he hc).2 (by simp [Sob.pending, hids, hid])).1
  obtain ⟨e₀, h₀, rfl | ⟨hoco, -⟩⟩ := hins
  · rw [h₀] at hcur
    exact Option.some.inj hcur
  · rw [h₀] at hcur
    cases hcur
    rw [hc] at hoco
    cases hoco

theorem Act.fresh {c c' : Config} (h : Act c c') (hf : Fresh c.1 c.2) : Fresh c'.1 c'.2 := by
  refine hf.moves (.single (.act h)) ?_ h.sameInsertion.cur fun e he hc hm hi => ?_
  · cases h with
    | tell _ _ a _ ha => exact absurd (hf.acting.symm.trans ha) (by simp)
    | _ => exact hf.acting
  · cases h with
    | newId => exact List.mem_cons_of_mem _ hi
    | enqueue e' ids hids hgen hfires =>
      -- an AON generates no orders
      rcases hfires with ⟨a, ha, -⟩ | ⟨e₀, h₀, hcond⟩
      · exact absurd (hf.acting.symm.trans ha) (by simp)
      · rw [he] at h₀
        cases h₀
        simp [hc, OrderCondition.opensExits] at hcond
    | _ => exact hi

theorem Step.fresh {c c' : Config} (h : Step c c') (ha : Ambient c.1 c.2)
    (hf : Fresh c.1 c.2) : Fresh c'.1 c'.2 := by
  -- the chains and the cache stay, and so does what waits
  have hkeep : ∀ {F : Flight} {w w' : World}, Fresh F w → Drifts w.toSob w'.toSob →
      w'.trace = w.trace → w'.lastId = w.lastId →
      w'.internalOrderQueue = w.internalOrderQueue → Fresh F w' := fun hf hd ht hl hq =>
    hf.keep (fun _ => hd.knows) (fun e he => ht ▸ he) hl
      (fun _ hm => pending_congr rfl rfl hq ▸ hm) rfl rfl fun _ _ hi => hi
  have hupdate : ∀ {F : Flight} {w : World} {g : OrderBndl → OrderBndl} (c : ChainIterWrap)
      (id : Nat), (∀ b, (g b).id = b.id) → Fresh F w → Fresh F (w.onSob (·.updateAt c id g)) :=
    fun c id hg hf => hkeep hf (.updateAt hg c id) rfl (lastId_updateAt _ _ _ _)
      (queue_updateAt _ _ _ _)
  have harm : ∀ {F : Flight} {w : World} (c : ChainIterWrap) (id : Nat)
      (condition : OrderCondition) (trigger : ConditionTrigger) (payload : Payload), Fresh F w →
      Fresh F (w.onSob (·.armed c id condition trigger payload)) :=
    fun c id _ _ _ hf => hupdate c id (fun _ => rfl) hf
  cases h with
  | act h => exact h.fresh hf
  | trade bidSide plev id size r cb hF hp hpe hrun hm =>
    exact hf.moves hm hF.acting rfl fun _ _ _ _ hi => hi
  | @beginOrder F w ie queue hfront hq =>
    refine hf.keep (fun _ hk => hk) (fun _ he => he) rfl (fun id hid => ?_) rfl rfl fun id _ hid => ?_
    · simp only [Sob.pending, hfront, hq, List.drop_one, List.tail_cons, List.drop_zero] at hid ⊢
      split at hid
      · rcases List.mem_append.mp hid with hid | hid
        · simp [hid]
        · simp only [List.map_cons, List.mem_append, List.mem_cons, hid, or_true]
      · simp only [List.cons_append, List.mem_cons, List.mem_append, List.map_cons] at hid ⊢
        tauto
    · dsimp only
      split
      · exact hid
      · exact List.mem_cons_of_mem _ hid
  | @endOrder F w hfront =>
    refine hf.keep (fun _ hk => hk) (fun _ he => he) rfl (fun id hid => ?_) rfl rfl fun _ _ hid => hid
    simpa [Sob.pending, hfront, World.onSob, List.drop_one] using hid
  | @accept F w e ids hids hhands hcur =>
    have hwait : e.id ∈ w.pending F := by simp [Sob.pending, hids]
    refine ⟨hf.known, fun e' he hc => ?_, hf.acting⟩
    rcases List.mem_cons.mp he with heq | he
    · cases heq
      exact ⟨ha.pending_le e.id hwait, fun _ => ⟨rfl, hids ▸ List.mem_cons_self⟩⟩
    · obtain ⟨hle, hw⟩ := hf.accepted e' he hc
      exact ⟨hle, fun hm => absurd (hcur.symm.trans (hw hm).1) (by simp)⟩
  | addLeg | announce =>
    exact hf.keep (fun _ hk => hk) (fun _ he => he) rfl (fun _ hm => hm) rfl rfl fun _ _ hi => hi
  | @finish F w hhands hids =>
    refine ⟨hf.known, fun e he hc => ?_, hf.acting⟩
    obtain ⟨hle, hw⟩ := hf.accepted e he hc
    exact ⟨hle, fun hm => absurd (hw hm).2 (hids e (hw hm).1)⟩
  | @forget F w id ids hids =>
    have hpend : w.pending F = id :: w.pending { F with ids := ids } := by
      unfold Sob.pending
      rw [hids, List.cons_append]
    have hn := (List.nodup_cons.mp (hpend ▸ ha.pending_nodup)).1
    refine hf.keep (fun _ hk => hk) (fun _ he => he) rfl
      (fun j hj => hpend ▸ List.mem_cons_of_mem _ hj) rfl rfl fun j hm hj => ?_
    rw [hids] at hj
    exact (List.mem_cons.mp hj).resolve_left fun heq => hn (heq ▸ hm)
  | @kill F w e cb id sz price hands he hcond =>
    have hv := bookView_report w .kill cb id id price sz
    refine hf.keep (fun _ hk => ?_) (fun e he => ?_) (lastId_of_bookView hv)
      (fun _ hm => pending_congr rfl rfl (queue_of_bookView hv) ▸ hm) rfl rfl fun _ _ hi => hi
    · exact Drifts.knows (.of_files (files_report _ _ _ _ _ _ _) (base_of_grid (grid_of_bookView hv))) hk
    · rw [trace_report] at he
      exact (List.mem_cons.mp he).resolve_left (by simp)
  | @print F w p id1 id2 sz1 sz2 n cb1 cb2 =>
    have hv := bookView_traded (w.log (.preTradePrint w.toSob p)) p n id1 id2 cb1 cb2
    refine hf.keep (fun _ hk => ?_) (fun e he => ?_) (lastId_of_bookView hv)
      (fun _ hm => pending_congr (w := w) rfl rfl (queue_traded _ _ _ _ _ _ _) ▸ hm) rfl rfl fun _ _ hi => hi
    · exact Drifts.knows (.of_files (files_traded _ _ _ _ _ _ _) (base_of_grid (grid_of_bookView hv))) hk
    · rw [trace_traded] at he
      simpa using he
  | @pushLimit F w buy p b hands ids hgap hh hids =>
    have hrest := waiting_limitPush w.toSob buy p b
    exact hf.push ha.pending_nodup ha.pending_le (.limitPush buy b) hids rfl hrest.1 hrest.2 rfl rfl rfl rfl
  | @pushAon F w buy p b hands ids hh hids hsz hp hpe hside =>
    subst hside
    have hv := bookView_aonPush w.toSob b.side p b
    exact hf.push ha.pending_nodup ha.pending_le (.aonPush b) hids rfl (lastId_of_bookView hv) (queue_of_bookView hv) rfl rfl
      rfl rfl
  | @pushStop F w p b hands ids hh hids =>
    have hv := bookView_stopPush w.toSob p b
    exact hf.push ha.pending_nodup ha.pending_le (.stopPush b true) hids rfl (lastId_of_bookView hv) (queue_of_bookView hv) rfl
      rfl rfl rfl
  | arm => exact harm _ _ _ _ _ hf
  | @link F w e op id1 id2 c1 c2 =>
    have h2 := harm c2 id2 e.condition e.trigger (.linkedOrder ⟨id1, true, none⟩)
      (harm c1 id1 e.condition e.trigger (.linkedOrder ⟨id2, false, none⟩) hf)
    exact ⟨h2.known, h2.accepted, h2.acting⟩
  | @openLoss F w e l c p b nticks1 nticks2 ids hgap he hl hids =>
    let w1 := w.onSob (·.armed c l.id e.condition e.trigger (.linkedOrder ⟨b.id, false, nticks1⟩))
    have h1 : Fresh F w1 := harm _ _ _ _ _ hf
    have hv := bookView_stopPush w1.toSob p b
    have hpend : w1.pending F = w.pending F := pending_congr rfl rfl (queue_updateAt _ _ _ _)
    have hlast : w1.lastId = w.lastId := lastId_updateAt _ _ _ _
    exact h1.push (hpend ▸ ha.pending_nodup) (hpend ▸ hlast ▸ ha.pending_le) (.stopPush b true) hids rfl (lastId_of_bookView hv) (queue_of_bookView hv) rfl
      rfl rfl rfl
  | trailingInsert id isBuy nticks =>
    refine hf.keep (fun _ hk => Drifts.knows (.of_files (files_trailingInserted _ _ _)
      (by cases isBuy <;> rfl)) hk) (fun e he => ?_) ?_ (fun _ hm => ?_) rfl rfl fun _ _ hi => hi
    · exact (List.mem_cons.mp he).resolve_left (by simp)
    all_goals cases isBuy <;> first | exact hm | rfl
  | tellEntry => exact hupdate _ _ (fun _ => rfl) hf

theorem Step.inPlace {c c' : Config} (h : Step c c') (ha : Ambient c.1 c.2) (hf : Fresh c.1 c.2)
    (hside : c'.2.NoSellRelocated) (hp : InPlace c.2) : InPlace c'.2 := by
  have hdrift : ∀ {w w' : World}, InPlace w → Drifts w.toSob w'.toSob → w'.trace = w.trace →
      InPlace w' := fun hp hd ht => hp.drifts hd fun e he => ht ▸ he
  have harm : ∀ {w : World} (c : ChainIterWrap) (id : Nat) (condition : OrderCondition)
      (trigger : ConditionTrigger) (payload : Payload), InPlace w →
      InPlace (w.onSob (·.armed c id condition trigger payload)) :=
    fun c id _ _ _ hp => hdrift hp (.armed c id _ _ _) rfl
  cases h with
  | act h => exact hp.wanders ha h.wanders hside fun e he => Moves.accepted (.single (.act h)) he
  | trade bidSide plev id size r cb hF hpos hpe hrun hm => exact Moves.inPlace hm ha hside hp
  | @accept F w e ids hids hhands hcur =>
    refine ⟨fun e' he hc p side hl => ?_, hp.unique, hp.aonSide, hp.level, hp.tag, hp.apart⟩
    rcases List.mem_cons.mp he with heq | he
    · cases heq
      exact absurd (.inl ⟨p, side, hl⟩) (hf.not_knows hids)
    · exact hp.own e' he hc p side hl
  | @kill F w e cb id sz price =>
    refine hp.drifts (.of_files (files_report _ _ _ _ _ _ _)
      (base_of_grid (grid_of_bookView (bookView_report w .kill cb id id price sz)))) fun e he => ?_
    rw [trace_report] at he
    exact (List.mem_cons.mp he).resolve_left (by simp)
  | @print F w p id1 id2 sz1 sz2 n cb1 cb2 =>
    have hv := bookView_traded (w.log (.preTradePrint w.toSob p)) p n id1 id2 cb1 cb2
    refine hp.drifts (.of_files (files_traded _ _ _ _ _ _ _)
      (base_of_grid (grid_of_bookView hv))) fun e he => ?_
    rw [trace_traded] at he
    simpa using he
  | @pushLimit F w buy p b hands ids hgap hh hids hsz hb hpe hs hbside hpay hAON e hins hr hbuy
      hlevel =>
    refine hp.admits (.limitPush buy b) (hf.not_knows hids) (fun _ he => he)
      fun e' he hc hid _ => ?_
    obtain rfl := hf.inserts hids hins he hc hid
    exact ⟨hbside.trans hbuy, hlevel⟩
  | @pushAon F w buy p b hands ids hh hids hsz hb hpe hbside hpay hAON e hins hr hbuy hlevel =>
    subst hbside
    refine hp.admits (.aonPush b) (hf.not_knows hids) (fun _ he => he) fun e' he hc hid _ => ?_
    obtain rfl := hf.inserts hids hins he hc hid
    exact ⟨hbuy, hlevel⟩
  | @pushStop F w p b hands ids hh hids =>
    exact hp.admits (.stopPush b true) (hf.not_knows hids) (fun _ he => he)
      fun _ _ _ _ hty => absurd rfl hty
  | arm => exact harm _ _ _ _ _ hp
  | link => exact harm _ _ _ _ _ (harm _ _ _ _ _ hp)
  | @openLoss F w e l c p b nticks1 nticks2 ids hgap he hl hids =>
    have hd : Drifts w.toSob (w.armed c l.id e.condition e.trigger
      (.linkedOrder ⟨b.id, false, nticks1⟩)) := .armed c l.id _ _ _
    exact (harm c l.id _ _ _ hp).admits (.stopPush b true)
      (fun hk => hf.not_knows hids (hd.knows hk)) (fun _ he => he)
      fun _ _ _ _ hty => absurd rfl hty
  | trailingInsert id isBuy nticks =>
    refine hp.drifts (.of_files (files_trailingInserted _ _ _) (by cases isBuy <;> rfl))
      fun e he => ?_
    exact (List.mem_cons.mp he).resolve_left (by simp)
  | @tellEntry F w e id c payload =>
    exact hdrift hp (.updateAt (g := fun b => { b with payload := payload }) (fun _ => rfl) c id) rfl
  | beginOrder | addLeg | finish | forget | announce => exact hp
  | endOrder => exact hdrift hp (.of_files rfl rfl) rfl

theorem Steps.inPlace {c c' : Config} (h : Steps c c') (ha : Ambient c.1 c.2) (hf : Fresh c.1 c.2)
    (hside : c'.2.NoSellRelocated) (hp : InPlace c.2) : Fresh c'.1 c'.2 ∧ InPlace c'.2 := by
  induction h with
  | refl => exact ⟨hf, hp⟩
  | tail h h' ih =>
    obtain ⟨hf, hp⟩ := ih (hside.of_suffix h'.trace_suffix)
    have ha := Steps.ambient h ha
    exact ⟨h'.fresh ha hf, h'.inPlace ha hf hside hp⟩

end Steps

/-! ## Runs -/

section Runs
variable {w w' : World}

/-- Every order is in place between two windows, and none has an id that is still to come. -/
structure Settled (w : World) : Prop where
  inPlace : InPlace w
  known : ∀ id, w.Knows id → id ≤ w.lastId
  accepted : ∀ e, .insertOrder e ∈ w.trace → e.condition = .allOrNone → e.id ≤ w.lastId

theorem Settled.fresh (h : Settled w) (hq : w.internalOrderQueue = [])
    (qe : Option OrderQueueElem) : Fresh (.opened qe) w := by
  have hpend : w.pending (.opened qe) = [] := by simp [Sob.pending, Flight.opened, hq]
  refine ⟨fun id hid => ⟨h.known id hid, ?_⟩, fun e he hc => ⟨h.accepted e he hc, fun hm => ?_⟩, rfl⟩
  · rw [hpend]
    exact List.not_mem_nil
  · rw [hpend] at hm
    cases hm

theorem Settled.of_inPlace {v : World} (hp : InPlace v) (hknown : ∀ id, v.Knows id → id ≤ v.lastId)
    (hacc : ∀ e, .insertOrder e ∈ v.trace → e.condition = .allOrNone → e.id ≤ v.lastId)
    (hd : Drifts v.toSob w.toSob) (hlast : w.lastId = v.lastId)
    (ht : ∀ e, .insertOrder e ∈ w.trace → .insertOrder e ∈ v.trace) : Settled w :=
  ⟨hp.drifts hd ht, fun id hid => hlast ▸ hknown id (hd.knows hid),
    fun e he hc => hlast ▸ hacc e (ht e he) hc⟩

/-- Growing the book moves every order with its level. -/
theorem Settled.growBook (h : Settled w) {base : Int} {incr : Nat} {atBeg : Bool}
    (hbase : incr ≠ 0 → base = w.base - growOffset incr atBeg) :
    Settled { w with toSob := growBook base incr atBeg w.toSob } := by
  by_cases hincr : incr = 0
  · unfold SimpleOrderbook.growBook
    rw [if_pos hincr]
    exact h
  let off := growOffset incr atBeg
  let s' := SimpleOrderbook.growBook base incr atBeg w.toSob
  let book : Nat → Level := fun p => if p < off then {} else w.book (p - off)
  have hs' : s' = resetInternalPointers { w.toSob with base := base, book := book } incr atBeg :=
    growBook_of_ne hincr
  have hbook : ∀ p, s'.book p = if p < off then {} else w.book (p - off) := fun p => by
    rw [hs']
    rfl
  have hcache : ∀ id, s'.idCache id = (w.idCache id).map fun c => { c with p := c.p + off } :=
    fun id => by
      rw [hs']
      rfl
  have hlast : s'.lastId = w.lastId := by
    rw [hs']
    rfl
  have hlev : ∀ price, s'.levelOf price = w.levelOf price + off := fun price => by
    have : s'.base = base := by
      rw [hs']
      rfl
    unfold Sob.levelOf
    rw [this, hbase hincr]
    omega
  -- an order of the grown book was `off` levels further down
  have hlim : ∀ {p k}, s'.InLimits p k → off ≤ p ∧ w.InLimits (p - off) k := fun {p k} hl => by
    unfold Sob.InLimits Sob.limits at hl ⊢
    rw [hbook] at hl
    split at hl
    · obtain ⟨x, hx, -⟩ := hl
      cases hx
    next hp => exact ⟨not_lt.mp hp, hl⟩
  have haon : ∀ {buys p k}, s'.InAons buys p k → off ≤ p ∧ w.InAons buys (p - off) k :=
    fun {buys p k} hl => by
      unfold Sob.InAons Sob.aons at hl ⊢
      rw [hbook] at hl
      split at hl
      · obtain ⟨x, hx, -⟩ := hl
        cases buys <;> cases hx
      next hp => exact ⟨not_lt.mp hp, hl⟩
  have hstop : ∀ {id}, s'.InStops id → w.InStops id := fun {id} hs => by
    obtain ⟨p, x, hx, rfl⟩ := hs
    unfold Sob.stops at hx
    rw [hbook] at hx
    split at hx
    · cases hx
    · exact ⟨p - off, x, hx, rfl⟩
  have hlies : ∀ {p k}, s'.Lies p k → off ≤ p ∧ w.Lies (p - off) k := fun hl => by
    rcases hl with hl | ⟨buys, hl⟩
    · exact ⟨(hlim hl).1, .inl (hlim hl).2⟩
    · exact ⟨(haon hl).1, .inr ⟨buys, (haon hl).2⟩⟩
  have hold : ∀ {id c}, s'.idCache id = some c → ∃ d, w.idCache id = some d ∧ c.type = d.type ∧
      c.p = d.p + off := fun {id c} hc => by
    rw [hcache] at hc
    obtain ⟨d, hd, rfl⟩ := Option.map_eq_some_iff.mp hc
    exact ⟨d, hd, rfl, rfl⟩
  have hp := h.inPlace
  refine ⟨⟨fun e he hc p side hl => ?_, fun id p q a b hl hl' => ?_, fun buys p id a hl => ?_,
    fun id p a c hl hc => ?_, fun id buys p a c hl hc => ?_, fun id p a hs hl => ?_⟩,
      fun id hid => ?_, fun e he hc => hlast.ge.trans' (h.accepted e he hc)⟩
  · obtain ⟨hle, hl⟩ := hlies hl
    obtain ⟨hs, hlv⟩ := hp.own e he hc _ _ hl
    refine ⟨hs, ?_⟩
    change (p : Int) = s'.levelOf e.limit
    rw [hlev, ← hlv]
    omega
  · obtain ⟨hle, hl⟩ := hlies hl
    obtain ⟨hle', hl'⟩ := hlies hl'
    obtain ⟨heq, hs⟩ := hp.unique id _ _ a b hl hl'
    exact ⟨by omega, hs⟩
  · exact hp.aonSide buys _ id a (haon hl).2
  · obtain ⟨hle, hl⟩ := hlies hl
    obtain ⟨d, hd, -, hdp⟩ := hold hc
    have := hp.level id _ a d hl hd
    omega
  · obtain ⟨d, hd, hty, -⟩ := hold hc
    exact hty.trans (hp.tag id buys _ a d (haon hl).2 hd)
  · exact hp.apart id _ a (hstop hs) (hlies hl).2
  · refine hlast.ge.trans' (h.known id ?_)
    rcases hid with ⟨p, a, hl⟩ | hs | hc
    · exact .inl ⟨_, a, (hlies hl).2⟩
    · exact .inr (.inl (hstop hs))
    · obtain ⟨c, hc⟩ := Option.ne_none_iff_exists'.mp hc
      obtain ⟨d, hd, -⟩ := hold hc
      exact .inr (.inr (by rw [hd]; simp))

theorem Settled.moves {c c' : Config} (h : Moves c c') (ha : Ambient c.1 c.2)
    (hside : c'.2.NoSellRelocated) (hs : Settled c.2) : Settled c'.2 :=
  ⟨Moves.inPlace h ha hside hs.inPlace,
    fun id hid => (hs.known id (Moves.knows h hid)).trans (Moves.lastId_le h),
    fun e he hc => (hs.accepted e (Moves.accepted h he) hc).trans (Moves.lastId_le h)⟩

theorem Settled.steps {c c' : Config} (h : Steps c c') (ha : Ambient c.1 c.2) (hf : Fresh c.1 c.2)
    (hside : c'.2.NoSellRelocated) (hp : InPlace c.2) : Settled c'.2 := by
  obtain ⟨hf', hp'⟩ := Steps.inPlace h ha hf hside hp
  exact ⟨hp', fun id hid => (hf'.known id hid).1, fun e he hc => (hf'.accepted e he hc).1⟩

/-- The queue is emptied, or the callbacks are handed over. -/
theorem Settled.closed (h : Settled w) (hf : w'.files = w.files) (hb : w'.base = w.base)
    (hlast : w'.lastId = w.lastId)
    (ht : ∀ e, .insertOrder e ∈ w'.trace → .insertOrder e ∈ w.trace) : Settled w' :=
  .of_inPlace h.inPlace h.known h.accepted (.of_files hf hb) hlast ht

theorem Closes.settled {r : Request} {o : Outcome} (h : Closes r w o w')
    (hwf : ∀ qe, WellFormed (.opened qe, w)) (hq : w.internalOrderQueue = [])
    (hside : w'.NoSellRelocated) (hs : Settled w) : Settled w' := by
  have hdropped : ∀ {v : World}, Settled v →
      Settled { v with internalOrderQueue := [], trace := .dropped v.internalOrderQueue :: v.trace } :=
    fun hs => hs.closed rfl rfl rfl fun e he => (List.mem_cons.mp he).resolve_left (by simp)
  cases h with
  | refused => exact hs
  | rejected => exact hdropped hs
  | grown f hact hg =>
    obtain ⟨base, incr, atBeg, hbase, rfl⟩ := Request.grow_eq hact hg
    exact hs.growBook hbase
  | value hqe hsteps =>
    exact (Settled.steps hsteps (hwf _).ambient (hs.fresh hq _) hside hs.inPlace).closed rfl rfl rfl
      fun _ he => he
  | @left qe err v hqe hl herr =>
    have hside' : v.NoSellRelocated := hside.of_suffix (List.suffix_cons _ _)
    refine hdropped ?_
    cases hl with
    | undefined => exact absurd rfl herr
    | failed hsteps hm =>
      have hc := Settled.steps hsteps (hwf _).ambient (hs.fresh hq _)
        (hside'.of_suffix (Moves.trace_suffix hm)) hs.inPlace
      exact hc.moves hm (Steps.ambient hsteps (hwf _).ambient) hside'
    | refused hsteps =>
      exact Settled.steps hsteps (hwf _).ambient (hs.fresh hq _) hside' hs.inPlace

theorem Initial.settled (h : Initial w) : Settled w := by
  obtain ⟨⟨base, incr, -, -, hw⟩, ht⟩ := h
  have hlim : ∀ p k, ¬ w.InLimits p k := by
    rintro p k ⟨x, hx, -⟩
    rw [hw] at hx
    cases hx
  have haon : ∀ buys p k, ¬ w.InAons buys p k := by
    rintro buys p k ⟨x, hx, -⟩
    rw [hw] at hx
    cases buys <;> cases hx
  have hstop : ∀ id, ¬ w.InStops id := by
    rintro id ⟨p, x, hx, -⟩
    rw [hw] at hx
    cases hx
  have hlies : ∀ p k, ¬ w.Lies p k := fun p k hl => hl.elim (hlim p k) fun ⟨b, hb⟩ => haon b p k hb
  refine ⟨⟨fun e he => ?_, fun id p q a b hl => absurd hl (hlies _ _),
    fun buys p id a hl => absurd hl (haon _ _ _), fun id p a c hl => absurd hl (hlies _ _),
    fun id buys p a c hl => absurd hl (haon _ _ _), fun id p a hs => absurd hs (hstop _)⟩,
    fun id hid => ?_, fun e he => ?_⟩
  · rw [ht] at he
    cases he
  · rcases hid with ⟨p, a, hl⟩ | hs | hc
    · exact absurd hl (hlies _ _)
    · exact absurd hs (hstop _)
    · rw [hw] at hc
      exact absurd rfl hc
  · rw [ht] at he
    cases he

theorem Run.settled {w₀ : World} {rs : List (Request × Outcome)} (h0 : Initial w₀)
    (h : Run w₀ rs w) (hside : w.NoSellRelocated) : Settled w := by
  induction h with
  | nil => exact h0.settled
  | snoc hr hw ih =>
    obtain ⟨hwf, hq⟩ := hr.wellFormed h0
    have hc := hw.closes hwf hq
    exact hc.settled hwf hq hside (ih (hside.of_suffix hc.trace_suffix))

/-- A sell order was copied to the AON chains. -/
def Event.isSellRelocated : Event → Bool
  | .copyBndlToAonChain _ _ _ buyLimit => ! buyLimit
  | _ => false

theorem World.noSellRelocated_of_all (h : w.trace.all fun ev => ! ev.isSellRelocated) :
    w.NoSellRelocated := fun s p b hm => by
  have := List.all_eq_true.mp h _ hm
  simp [Event.isSellRelocated] at this

/-- The cache entry of an AON in the chain of its side. -/
def aonTag (isBuy : Bool) (p : Nat) : ChainIterWrap := ⟨if isBuy then .aonBuy else .aonSell, p⟩

/-- A copy of a buy order to the AON chains: chain, cache entry and window are of the buy side. -/
structure Sob.Relocated (s s' : Sob) (p : Nat) (b : LimitBndl) : Prop where
  chain : s'.aons true p = (s.aons true p).push b
  sells : ∀ q, s'.aons false q = s.aons false q
  tag : ∃ c, s.idCache b.id = some c ∧ s'.idCache b.id = some (aonTag true c.p)
  window : s'.lowBuyAon ≤ p ∧ p ≤ s'.highBuyAon
  sellWindow : s'.lowSellAon = s.lowSellAon ∧ s'.highSellAon = s.highSellAon

theorem Sob.relocated_copiedToAons {s : Sob} {p : Nat} {b : LimitBndl} {c : ChainIterWrap}
    (hc : s.idCache b.id = some c) : s.Relocated (s.copiedToAons true p b c) p b := by
  refine ⟨?_, fun q => ?_, ⟨c, hc, ?_⟩, ⟨?_, ?_⟩, rfl, rfl⟩
  · rw [aons_copiedToAons, if_pos ⟨rfl, rfl⟩]
  · rw [aons_copiedToAons, if_neg (by simp)]
  · rw [idCache_copiedToAons, if_pos rfl]
    rfl
  · exact min_le_left _ _
  · exact le_max_left _ _

/-- When no sell order is copied to the AON chains, an AON that rests is on its side: in a limit
chain on its side of the best prices, or in the AON chain of its side and level, which is where the
cache says it is; and a copy is one to the buy side. -/
theorem Run.aon_keeps_side {w₀ : World} {rs : List (Request × Outcome)} (h0 : Initial w₀)
    (h : Run w₀ rs w) (hside : w.NoSellRelocated) :
    (∀ e, .insertOrder e ∈ w.trace → e.condition = .allOrNone →
      (∀ p, ∀ b ∈ (w.limits p).elems, b.id = e.id → b.side = e.isBuy ∧
        (p : Int) = w.levelOf e.limit ∧ if e.isBuy then p ≤ w.bid else w.ask ≤ p) ∧
      ∀ buys p, ∀ b ∈ (w.aons buys p).elems, b.id = e.id → buys = e.isBuy ∧
        (p : Int) = w.levelOf e.limit ∧ (∀ c, w.idCache e.id = some c → c = aonTag e.isBuy p) ∧
        ((∀ ro ∈ rs, ro.2.Expected) → w.NoEmptyHit → w.idCache e.id = some (aonTag e.isBuy p))) ∧
    ∀ s p b buyLimit, .copyBndlToAonChain s p b buyLimit ∈ w.trace → buyLimit = true ∧
      ∀ v v' : World, Chain.copyBndlToAonChainSide true p b v = .ok () v' →
        v.toSob.Relocated v'.toSob p b := by
  have hs := (h.settled h0 hside).inPlace
  have hu := (h.limitInv h0).uncrossed
  refine ⟨fun e he hc => ⟨fun p b hb hid => ?_, fun buys p b hb hid => ?_⟩,
    fun s p b buyLimit hm => ⟨?_, fun v v' hv => ?_⟩⟩
  · obtain ⟨hbs, hp⟩ := hs.own e he hc p b.side (.inl ⟨b, hb, by rw [hid]⟩)
    refine ⟨hbs, hp, ?_⟩
    cases hside : e.isBuy with
    | true => exact (hu.buys p ⟨b, hb, hbs.trans hside⟩).2
    | false => exact (hu.sells p ⟨b, hb, hbs.trans hside⟩).1
  · have hin : w.InAons buys p (e.id, b.side) := ⟨b, hb, by rw [hid]⟩
    obtain ⟨hbs, hp⟩ := hs.own e he hc p b.side (.inr ⟨buys, hin⟩)
    have hbuys : buys = e.isBuy := (hs.aonSide buys p e.id b.side hin).symm.trans hbs
    have htag : ∀ c, w.idCache e.id = some c → c = aonTag e.isBuy p := fun c hcc => by
      have hp := hs.level e.id p b.side c (.inr ⟨buys, hin⟩) hcc
      have hty := hs.tag e.id buys p b.side c hin hcc
      subst hbuys
      cases c
      exact congrArg₂ ChainIterWrap.mk hty hp
    refine ⟨hbuys, hp, htag, fun ho hzero => ?_⟩
    have hr : Resident {} w (.aon, p) b.toOrderBndl := resident_aon.mpr ⟨buys, b, hb, rfl⟩
    obtain ⟨c, hcc, -⟩ := hr.cached (h.tidy h0 ho hzero).filed
    rw [show b.toOrderBndl.id = e.id from hid] at hcc
    rw [hcc, htag c hcc]
  · refine Bool.eq_true_of_not_eq_false fun hb => ?_
    exact hside s p b (hb ▸ hm)
  · obtain ⟨c, hc, rfl⟩ := (wp_copyBndlToAonChainSide v true p b).ok hv
    exact Sob.relocated_copiedToAons hc

end Runs

/-- A buy AON behind another buy order comes to the front and moves to the AON buy orders. -/
theorem buy_relocated_to_its_side : ∃ rs w, Run (World.create 1 20) rs w ∧
    rs.map (·.1) = [.limit true 5 3, .limit true 5 10 { condition := .allOrNone },
      .pullOrder 1 .synchronous] ∧ (w.aons true 5).elems.map (·.id) = [2] ∧
      ∀ e, .insertOrder e ∈ w.trace → e.condition = .allOrNone → ∀ buys p,
        ∀ b ∈ (w.aons buys p).elems, b.id = e.id → buys = e.isBuy ∧
          w.idCache e.id = some (aonTag e.isBuy p) := by
  obtain ⟨rs, w, h, hrs, hw⟩ := Run.exists_of_execAll 0
    [.limit true 5 3, .limit true 5 10 { condition := .allOrNone }, .pullOrder 1 .synchronous]
    (f := fun os w => (os.all Outcome.isValue, w.trace.all fun ev => ! ev.isEmptyHit,
      w.trace.all fun ev => ! ev.isSellRelocated, (w.aons true 5).elems.map (·.id)))
    (v := (true, true, true, [2])) (w := World.create 1 20) (by decide +kernel)
  obtain ⟨hall, hzero, hside, haons⟩ : _ ∧ _ ∧ _ ∧ _ := by simpa only [Prod.mk.injEq] using hw
  have hv : ∀ ro ∈ rs, ro.2.Expected := fun ro hro => Outcome.expected_of_isValue
    (List.all_eq_true.mp hall ro.2 (List.mem_map_of_mem hro))
  have hkeeps := (h.aon_keeps_side (initial_create (by decide) (by decide))
    (World.noSellRelocated_of_all hside)).1
  refine ⟨rs, w, h, hrs, haons, fun e he hc buys p b hb hid => ?_⟩
  obtain ⟨hbuys, -, -, htag⟩ := (hkeeps e he hc).2 buys p b hb hid
  exact ⟨hbuys, htag hv (World.noEmptyHit_of_all hzero)⟩

/-- A sell AON behind another sell order comes to the front and moves to the AON buy orders. -/
theorem sell_relocated_to_the_buys : ∃ rs w, Run (World.create 1 20) rs w ∧
    rs.map (·.1) = [.limit false 8 3, .limit false 8 10 { condition := .allOrNone },
      .pullOrder 1 .synchronous] ∧ (∀ ro ∈ rs, ro.2.isValue) ∧
      ∃ e, .insertOrder e ∈ w.trace ∧ e.condition = .allOrNone ∧ e.isBuy = false ∧
        (∃ b ∈ (w.aons true 8).elems, b.id = e.id) ∧ w.aons false 8 = none := by
  obtain ⟨rs, w, h, hrs, hw⟩ := Run.exists_of_execAll 0
    [.limit false 8 3, .limit false 8 10 { condition := .allOrNone }, .pullOrder 1 .synchronous]
    (f := fun os w => (os.all Outcome.isValue, w.trace.any fun ev => ev.accepts fun e =>
      e.condition = .allOrNone ∧ e.isBuy = false ∧
        (∃ b ∈ (w.aons true 8).elems, b.id = e.id) ∧ w.aons false 8 = none))
    (v := (true, true)) (w := World.create 1 20) (by decide +kernel)
  obtain ⟨hall, hany⟩ : _ ∧ _ := by simpa only [Prod.mk.injEq] using hw
  refine ⟨rs, w, h, hrs, fun ro hro => List.all_eq_true.mp hall ro.2 (List.mem_map_of_mem hro), ?_⟩
  obtain ⟨ev, hm, hev⟩ := List.any_eq_true.mp hany
  cases ev with
  | insertOrder e => exact ⟨e, hm, of_decide_eq_true hev⟩
  | _ => cases hev

end SimpleOrderbook
