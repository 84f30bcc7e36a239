import SimpleOrderbook.Cabinet
import SimpleOrderbook.Windows
import SimpleOrderbook.StopTriggers

/-!
# The id cache

The cache and the chains are a cabinet: its drawers are the limit chain, the stop chain and the two
all-or-none chains of each level, its index is the cache. Every transition files, takes or moves one
order, but for the ones a hit has spent, which stay in their chain until its end, and the stops
that were taken out of the book to be triggered, which stay in the cache until then.
-/
namespace SimpleOrderbook

/-- The chains of a level; the cache tags of the two all-or-none chains are one. -/
inductive Kind where
  | limit | stop | aon
deriving DecidableEq

def IType.kind : IType → Kind
  | .limit => .limit
  | .stop => .stop
  | .aonBuy | .aonSell => .aon

namespace Flight
variable (F : Flight)

/-- The orders in the limit chain of level `p` that are not in the cache any more. -/
def spentAt (p : Nat) : List Nat :=
  match F.hit with
  | some h => if h.plev = p then h.spent else []
  | none => []

/-- The stops of level `p` that left their chain and are still in the cache. -/
def detachedAt (p : Nat) : List Nat :=
  match F.detached with
  | some d => if d.plev = p then d.todo.map (·.id) ++ d.turning.toList else []
  | none => []

end Flight

namespace Sob
variable (s : Sob)

def stopIds (p : Nat) : List Nat := (s.stops p).elems.map (·.id)
def aonIds (buys : Bool) (p : Nat) : List Nat := (s.aons buys p).elems.map (·.id)

def drawer (F : Flight) : Kind × Nat → List Nat
  | (.limit, p) => (s.limitIds p).filter (· ∉ F.spentAt p)
  | (.stop, p) => s.stopIds p ++ F.detachedAt p
  | (.aon, p) => s.aonIds true p ++ s.aonIds false p

def cabinet (F : Flight) : Cabinet Nat (Kind × Nat) where
  drawer := s.drawer F
  index := fun id => (s.idCache id).map fun c => (c.type.kind, c.p)

end Sob

theorem Sob.drawer_cabinet (s : Sob) (F : Flight) : (s.cabinet F).drawer = s.drawer F := rfl

/-- Cache and chains agree. -/
structure Filed (F : Flight) (w : World) : Prop where
  cabinet : (w.cabinet F).Consistent
  known : ∀ id, w.idCache id ≠ none → id ≤ w.lastId ∧ id ∉ w.pending F
  gap : ∀ p h, F.gap = some p → F.hit = some h → h.plev ≠ p

/-- The order linked to the one that trades is not in the limit chain that is hit. -/
def LinksApart (F : Flight) (w : World) : Prop :=
  ∀ h a link c, F.hit = some h → F.acting = some a → a.bndl.payload = .linkedOrder link →
    w.idCache link.id = some c → c.type = .limit → h.plev ≠ c.p

/-! ## Chains and cache after a change -/

section Cabinets
variable {s s' : Sob} {F F' : Flight}

theorem Sob.drawer_congr (hl : s'.limitIds = s.limitIds) (hs : s'.stopIds = s.stopIds)
    (ha : s'.aonIds = s.aonIds) (hspent : F'.spentAt = F.spentAt)
    (hdet : F'.detachedAt = F.detachedAt) : s'.drawer F' = s.drawer F := by
  funext ⟨k, p⟩
  unfold Sob.drawer
  cases k <;> simp only [hl, hs, ha, hspent, hdet]

theorem cabinet_congr (hl : s'.limitIds = s.limitIds) (hs : s'.stopIds = s.stopIds)
    (ha : s'.aonIds = s.aonIds) (hc : s'.idCache = s.idCache)
    (hspent : F'.spentAt = F.spentAt) (hdet : F'.detachedAt = F.detachedAt) :
    s'.cabinet F' = s.cabinet F := by
  unfold Sob.cabinet
  rw [Sob.drawer_congr hl hs ha hspent hdet, hc]

theorem cabinet_of_files {G : Flight} (h : s'.files = s.files) (hspent : G.spentAt = F.spentAt)
    (hdet : G.detachedAt = F.detachedAt) : s'.cabinet G = s.cabinet F := by
  refine cabinet_congr ?_ ?_ ?_ (cache_of_files h) hspent hdet
  · unfold Sob.limitIds; rw [limits_of_files h]
  · unfold Sob.stopIds; rw [stops_of_files h]
  · unfold Sob.aonIds; rw [aons_of_files h]

theorem Flight.spentAt_congr (h : F'.hit = F.hit) : F'.spentAt = F.spentAt := by
  funext p; unfold Flight.spentAt; rw [h]

theorem Flight.detachedAt_congr (h : F'.detached = F.detached) : F'.detachedAt = F.detachedAt := by
  funext p; unfold Flight.detachedAt; rw [h]

theorem Chain.map_updateStop {f : StopBndl → StopBndl} {id : Nat} {l : List StopBndl}
    (hf : ∀ b, (f b).id = b.id) :
    (Chain.updateStop f id l).map (·.id) = l.map (·.id) := by
  induction l with
  | nil => rfl
  | cons b bs ih => unfold Chain.updateStop; split <;> simp [hf, ih]

/-- A rewritten order keeps its place. -/
theorem cabinet_updateAt (c : ChainIterWrap) (id : Nat) {f : OrderBndl → OrderBndl}
    (hf : ∀ b, (f b).id = b.id) : (s.updateAt c id f).cabinet F = s.cabinet F := by
  refine cabinet_congr (limitIds_updateAt hf) ?_ ?_ (idCache_updateAt _ _ _ _) rfl rfl
  · funext p
    unfold Sob.stopIds
    rw [stops_updateAt]
    split
    · cases s.stops p with
      | none => rfl
      | some l => exact Chain.map_updateStop fun b => hf b.toOrderBndl
    · rfl
  · funext buys p
    unfold Sob.aonIds
    rw [aons_updateAt]
    by_cases hc : c.type = (if buys then .aonBuy else .aonSell) ∧ p = c.p
    · rw [if_pos hc]
      cases s.aons buys p with
      | none => rfl
      | some l => exact Chain.map_updateLimit fun b => hf b.toOrderBndl
    · rw [if_neg hc]

theorem consistent_updateAt (h : (s.cabinet F).Consistent) (c : ChainIterWrap) (id : Nat)
    (f : OrderBndl → OrderBndl) (hf : ∀ b, (f b).id = b.id) :
    ((s.updateAt c id f).cabinet F).Consistent :=
  (cabinet_updateAt c id hf).symm ▸ h

theorem limitIds_updateLimit (p id : Nat) {f : LimitBndl → LimitBndl} (hf : ∀ b, (f b).id = b.id) :
    (s.updateLimit p id f).limitIds = s.limitIds := by
  funext q
  unfold Sob.limitIds
  rw [Sob.elems_updateLimit]
  split
  · exact Chain.map_updateLimit hf
  · rfl

theorem cabinet_updateLimit (p id : Nat) {f : LimitBndl → LimitBndl} (hf : ∀ b, (f b).id = b.id) :
    (s.updateLimit p id f).cabinet F = s.cabinet F := by
  refine cabinet_congr (limitIds_updateLimit p id hf) ?_ ?_ rfl rfl rfl
  · unfold Sob.stopIds Sob.updateLimit; simp
  · unfold Sob.aonIds Sob.updateLimit; simp

theorem consistent_updateLimit (h : (s.cabinet F).Consistent) (p id : Nat)
    (f : LimitBndl → LimitBndl) (hf : ∀ b, (f b).id = b.id) :
    ((s.updateLimit p id f).cabinet F).Consistent :=
  (cabinet_updateLimit p id hf).symm ▸ h

/-! ### Erasing an order -/

theorem perm_eraseP_of_find {α : Type} {l : List α} {q : α → Bool} {b : α}
    (h : l.find? q = some b) : l.Perm (b :: l.eraseP q) := by
  induction l with
  | nil => cases h
  | cons a l ih =>
    rw [List.find?_cons] at h
    split at h
    next ha =>
      cases h
      rw [List.eraseP_cons_of_pos ha]
    next ha =>
      rw [List.eraseP_cons_of_neg (by simpa using ha)]
      exact ((ih h).cons a).trans (.swap ..)

theorem Chain.perm_eraseLimit {l : List LimitBndl} {id : Nat} {b : LimitBndl}
    (h : Chain.findLimit l id = some b) :
    (l.map (·.id)).Perm (id :: (Chain.eraseLimit l id).map (·.id)) := by
  have hp := (perm_eraseP_of_find h).map (fun b : LimitBndl => b.id)
  rwa [List.map_cons, (Chain.findLimit_mem h).2] at hp

theorem Chain.perm_eraseStop {l : List StopBndl} {id : Nat} {b : StopBndl}
    (h : Chain.findStop l id = some b) :
    (l.map (·.id)).Perm (id :: (Chain.eraseStop l id).map (·.id)) := by
  have hp := (perm_eraseP_of_find h).map (fun b : StopBndl => b.id)
  rwa [List.map_cons, Chain.findStop_id h] at hp

theorem Sob.limitIds_setLimits (p q : Nat) (c : ChainManager LimitBndl) :
    (s.setLimits p c).limitIds q = if q = p then c.elems.map (·.id) else s.limitIds q := by
  unfold Sob.limitIds
  rw [Sob.limits_setLimits]
  split <;> rfl

theorem Sob.stopIds_setStops (p q : Nat) (c : ChainManager StopBndl) :
    (s.setStops p c).stopIds q = if q = p then c.elems.map (·.id) else s.stopIds q := by
  unfold Sob.stopIds
  rw [Sob.stops_setStops]
  split <;> rfl

theorem Sob.aonIds_setAons (buys buys' : Bool) (p q : Nat) (c : ChainManager AonBndl) :
    (s.setAons buys p c).aonIds buys' q =
      if q = p ∧ buys' = buys then c.elems.map (·.id) else s.aonIds buys' q := by
  unfold Sob.aonIds
  rw [Sob.aons_setAons]
  split <;> rfl

theorem Sob.drawer_cacheErase (id : Nat) : (s.cacheErase id).drawer F = s.drawer F :=
  Sob.drawer_congr rfl rfl rfl rfl rfl

theorem Sob.drawer_of_files (h : s'.files = s.files) : s'.drawer F = s.drawer F := by
  have := cabinet_of_files (F := F) h rfl rfl
  exact congrArg Cabinet.drawer this

theorem index_cacheErase (id j : Nat) : ((s.cacheErase id).cabinet F).index j =
    if j = id then none else (s.cabinet F).index j := by
  unfold Sob.cabinet
  dsimp only
  rw [Sob.idCache_cacheErase]
  split <;> rfl

/-- The drawers after the limit chain of one level changed. -/
theorem Sob.drawer_setLimits (p : Nat) (c : ChainManager LimitBndl) (q : Kind × Nat) :
    (s.setLimits p c).drawer F q = if q = (.limit, p) then
      (c.elems.map (·.id)).filter (· ∉ F.spentAt p) else s.drawer F q := by
  obtain ⟨k, q⟩ := q
  unfold Sob.drawer
  cases k
  · by_cases hq : q = p
    · subst hq; simp [Sob.limitIds_setLimits]
    · simp [Sob.limitIds_setLimits, hq]
  · simp [Sob.stopIds]
  · simp [Sob.aonIds]

theorem Sob.drawer_setStops (p : Nat) (c : ChainManager StopBndl) (q : Kind × Nat) :
    (s.setStops p c).drawer F q = if q = (.stop, p) then
      c.elems.map (·.id) ++ F.detachedAt p else s.drawer F q := by
  obtain ⟨k, q⟩ := q
  unfold Sob.drawer
  cases k
  · simp [Sob.limitIds]
  · by_cases hq : q = p
    · subst hq; simp [Sob.stopIds_setStops]
    · simp [Sob.stopIds_setStops, hq]
  · simp [Sob.aonIds]

theorem Sob.drawer_setAons (buys : Bool) (p : Nat) (c : ChainManager AonBndl) (q : Kind × Nat) :
    (s.setAons buys p c).drawer F q = if q = (.aon, p) then
      (if buys then c.elems.map (·.id) ++ s.aonIds false p
        else s.aonIds true p ++ c.elems.map (·.id)) else s.drawer F q := by
  obtain ⟨k, q⟩ := q
  unfold Sob.drawer
  cases k
  · simp [Sob.limitIds]
  · simp [Sob.stopIds]
  · by_cases hq : q = p
    · subst hq; cases buys <;> simp [Sob.aonIds_setAons]
    · simp [Sob.aonIds_setAons, hq]

section Take
variable {id : Nat} {c : ChainIterWrap} (h : (s.cabinet F).Consistent)
include h

theorem notMem_spentAt (hc : s.idCache id = some c) (hty : c.type = .limit) :
    id ∉ F.spentAt c.p := by
  have hm : id ∈ (s.cabinet F).drawer (.limit, c.p) :=
    h.mem_iff.mpr (by simp [Sob.cabinet, hc, hty, IType.kind])
  simpa using (List.mem_filter.mp hm).2

theorem consistent_erasedLimit {b : LimitBndl} (hc : s.idCache id = some c) (hty : c.type = .limit)
    (hb : Chain.findLimit (s.limits c.p).elems id = some b) :
    ((s.erasedLimit c.p id).cabinet F).Consistent := by
  have hdrawer : ∀ q, (s.erasedLimit c.p id).drawer F q = if q = (.limit, c.p) then
      ((Chain.eraseLimit (s.limits c.p).elems id).map (·.id)).filter (· ∉ F.spentAt c.p)
      else s.drawer F q := fun q => by
    unfold Sob.erasedLimit
    rw [Sob.drawer_cacheErase, Sob.drawer_setLimits, ChainManager.elems_ofList]
  have hlive : decide (id ∉ F.spentAt c.p) = true := by simpa using notMem_spentAt h hc hty
  refine h.take (k := (.limit, c.p)) (i := id) ?_ (fun q hq => ?_) fun j => index_cacheErase id j
  · rw [Sob.drawer_cabinet, Sob.drawer_cabinet, hdrawer, if_pos rfl]
    have hp := (Chain.perm_eraseLimit hb).filter (· ∉ F.spentAt c.p)
    rwa [List.filter_cons, if_pos hlive] at hp
  · change ((s.erasedLimit c.p id).drawer F q).Perm (s.drawer F q)
    rw [hdrawer, if_neg hq]

/-- Order `id` leaves the all-or-none chains of level `p`. -/
theorem consistent_takeAon {d : Bool} {p : Nat} {c : ChainManager AonBndl}
    (hfiles : s'.files = ((s.setAons d p c).cacheErase id).files)
    (hl : (s.aonIds d p).Perm (id :: c.elems.map (·.id))) : (s'.cabinet F).Consistent := by
  rw [cabinet_of_files (F := F) hfiles rfl rfl]
  refine h.take (k := (.aon, p)) (i := id) ?_ (fun q hq => ?_) fun j => index_cacheErase id j
  · rw [Sob.drawer_cabinet, Sob.drawer_cabinet, Sob.drawer_cacheErase, Sob.drawer_setAons,
      if_pos rfl]
    cases d
    · exact (hl.append_left _).trans List.perm_middle
    · exact hl.append_right _
  · rw [Sob.drawer_cabinet, Sob.drawer_cabinet, Sob.drawer_cacheErase, Sob.drawer_setAons,
      if_neg hq]

theorem consistent_erasedAon {isBuy : Bool} {p : Nat} {b : AonBndl}
    (hb : Chain.findLimit (s.aons isBuy p).elems id = some b) :
    ((s.erasedAon isBuy p id).cabinet F).Consistent := by
  refine consistent_takeAon h (d := isBuy) (p := p) ?_
    (by rw [ChainManager.elems_ofList]; exact Chain.perm_eraseLimit hb)
  unfold Sob.erasedAon
  dsimp only
  split
  · exact Exec.Aon.files_adjustStateAfterPull _ _ _
  · rfl

theorem consistent_erasedStop {p : Nat} {b : StopBndl}
    (hb : Chain.findStop (s.stops p).elems b.id = some b) :
    ((s.erasedStop p b).cabinet F).Consistent := by
  have hfiles : (s.erasedStop p b).files = ((s.setStops p (ChainManager.ofList
      (Chain.eraseStop (s.stops p).elems b.id))).cacheErase b.id).files := by
    unfold Sob.erasedStop
    dsimp only
    split
    · exact Exec.Stop.files_adjustStateAfterPull _ _ _
    · rfl
  rw [cabinet_of_files (F := F) hfiles rfl rfl]
  have hdrawer := fun q => (Sob.drawer_setStops (F := F) (s := s) p
    (ChainManager.ofList (Chain.eraseStop (s.stops p).elems b.id)) q)
  simp only [ChainManager.elems_ofList] at hdrawer
  refine h.take (k := (.stop, p)) (i := b.id) ?_ (fun q hq => ?_) fun j => index_cacheErase b.id j
  · rw [Sob.drawer_cabinet, Sob.drawer_cabinet, Sob.drawer_cacheErase, hdrawer, if_pos rfl]
    exact (Chain.perm_eraseStop hb).append_right _
  · change (((s.setStops p (ChainManager.ofList
      (Chain.eraseStop (s.stops p).elems b.id))).cacheErase b.id).drawer F q).Perm (s.drawer F q)
    rw [Sob.drawer_cacheErase, hdrawer, if_neg hq]

end Take

/-! ### Filing an order -/

theorem index_cacheEmplace {i : Nat} {c : ChainIterWrap} (hc : s.idCache i = none) (j : Nat) :
    ((s.cacheEmplace i c).cabinet F).index j =
      if j = i then some (c.type.kind, c.p) else (s.cabinet F).index j := by
  unfold Sob.cabinet
  dsimp only
  rw [Sob.idCache_cacheEmplace _ _ _ hc]
  split <;> rfl

theorem Sob.drawer_cacheEmplace (id : Nat) (c : ChainIterWrap) :
    (s.cacheEmplace id c).drawer F = s.drawer F := by
  refine Sob.drawer_congr ?_ ?_ ?_ rfl rfl
  · unfold Sob.limitIds; simp
  · unfold Sob.stopIds; simp
  · unfold Sob.aonIds; simp

section File
variable (h : (s.cabinet F).Consistent)
include h

theorem consistent_limitPush (buy : Bool) (p : Nat) {b : LimitBndl} (hc : s.idCache b.id = none)
    (hhit : b.id ∉ F.spentAt p) : ((Chain.limitPush buy s p b).cabinet F).Consistent := by
  unfold Chain.limitPush
  rw [cabinet_of_files (F := F) (Exec.Limit.files_adjustStateAfterInsert _ _ _) rfl rfl]
  have hdrawer : ∀ q, ((s.setLimits p ((s.limits p).push b)).cacheEmplace b.id
      ⟨.limit, p⟩).drawer F q = if q = (.limit, p) then s.drawer F q ++ [b.id]
        else s.drawer F q := fun q => by
    rw [Sob.drawer_cacheEmplace, Sob.drawer_setLimits]
    split
    next hq =>
      subst hq
      simp [Sob.drawer, Sob.limitIds, ChainManager.elems_push, List.filter_append, hhit]
    next => rfl
  refine h.file (k := (.limit, p)) (i := b.id) (by simp [Sob.cabinet, hc]) ?_ (fun q hq => ?_)
    fun j => index_cacheEmplace (s := s.setLimits p ((s.limits p).push b)) hc j
  · rw [Sob.drawer_cabinet, Sob.drawer_cabinet, hdrawer, if_pos rfl]
    exact List.perm_append_singleton _ _
  · change (Sob.drawer _ F q).Perm (s.drawer F q)
    rw [hdrawer, if_neg hq]

theorem consistent_aonPush (buy : Bool) (p : Nat) {b : AonBndl} (hc : s.idCache b.id = none) :
    ((Chain.aonPush buy s p b).cabinet F).Consistent := by
  unfold Chain.aonPush
  rw [cabinet_of_files (F := F) (Exec.Aon.files_adjustStateAfterInsert _ _ _) rfl rfl]
  have hkind : (if buy then IType.aonBuy else IType.aonSell).kind = .aon := by cases buy <;> rfl
  refine h.file (k := (.aon, p)) (i := b.id) (by simp [Sob.cabinet, hc]) ?_ (fun q hq => ?_)
    fun j => ?_
  · rw [Sob.drawer_cabinet, Sob.drawer_cabinet, Sob.drawer_cacheEmplace, Sob.drawer_setAons,
      if_pos rfl]
    have happ : ((s.aons buy p).push b).elems.map (·.id) = s.aonIds buy p ++ [b.id] := by
      simp [Sob.aonIds, ChainManager.elems_push]
    rw [happ]
    cases buy
    · simp only [Sob.drawer, Bool.false_eq_true, if_false, ← List.append_assoc]
      exact List.perm_append_singleton _ _
    · simp only [Sob.drawer, if_true, List.append_assoc, List.singleton_append]
      exact List.perm_middle
  · change (Sob.drawer _ F q).Perm (s.drawer F q)
    rw [Sob.drawer_cacheEmplace, Sob.drawer_setAons, if_neg hq]
  · have := index_cacheEmplace (F := F) (s := s.setAons buy p ((s.aons buy p).push b))
      (c := ⟨if buy then .aonBuy else .aonSell, p⟩) (i := b.id) hc j
    rwa [hkind] at this

theorem consistent_stopPush (p : Nat) {b : StopBndl} (hc : s.idCache b.id = none) :
    ((Chain.stopPush s p b).cabinet F).Consistent := by
  unfold Chain.stopPush
  rw [cabinet_of_files (F := F) (Exec.Stop.files_adjustStateAfterInsert _ _ _) rfl rfl]
  refine h.file (k := (.stop, p)) (i := b.id) (by simp [Sob.cabinet, hc]) ?_ (fun q hq => ?_)
    fun j => index_cacheEmplace (s := s.setStops p ((s.stops p).push b)) hc j
  · rw [Sob.drawer_cabinet, Sob.drawer_cabinet, Sob.drawer_cacheEmplace, Sob.drawer_setStops,
      if_pos rfl]
    simp only [Sob.drawer, Sob.stopIds, ChainManager.elems_push, List.map_append, List.map_cons,
      List.map_nil, List.append_assoc, List.singleton_append]
    exact List.perm_middle
  · change (Sob.drawer _ F q).Perm (s.drawer F q)
    rw [Sob.drawer_cacheEmplace, Sob.drawer_setStops, if_neg hq]

end File

/-! ### Moving an order -/

theorem perm_cons_filter {α : Type} [DecidableEq α] {l : List α} {a : α} (hn : l.Nodup)
    (ha : a ∈ l) : l.Perm (a :: l.filter (· ≠ a)) := by
  have he : l.erase a = l.filter (· ≠ a) := (hn.erase_eq_filter a).trans
    (List.filter_congr fun x _ => by by_cases hx : x = a <;> simp [hx])
  exact he ▸ List.perm_cons_erase ha

theorem index_copiedToAons {l : Bool} {p : Nat} {b : LimitBndl} {c : ChainIterWrap}
    (j : Nat) : ((s.copiedToAons l p b c).cabinet F).index j =
      if j = b.id then some (.aon, c.p) else (s.cabinet F).index j := by
  unfold Sob.copiedToAons Sob.cabinet
  dsimp only
  rw [cache_of_files (Exec.Aon.files_adjustStateAfterInsert _ _ _), Sob.idCache_cacheInsert]
  split
  · cases l <;> rfl
  · rfl

theorem Sob.drawer_copiedToAons {buyLimit : Bool} {p : Nat} {b : LimitBndl} {c : ChainIterWrap}
    (q : Kind × Nat) : (s.copiedToAons buyLimit p b c).drawer F q = if q = (.aon, p) then
      (s.aonIds true p ++ [b.id]) ++ s.aonIds false p else s.drawer F q := by
  unfold Sob.copiedToAons
  rw [Sob.drawer_of_files (Exec.Aon.files_adjustStateAfterInsert _ _ _)]
  have herase : ((s.setAons true p ((s.aons true p).push b)).cacheInsert b.id
      ⟨if buyLimit then .aonBuy else .aonSell, c.p⟩).drawer F =
        (s.setAons true p ((s.aons true p).push b)).drawer F :=
    Sob.drawer_congr rfl rfl rfl rfl rfl
  rw [herase, Sob.drawer_setAons]
  simp [Sob.aonIds, ChainManager.elems_push]

section Move
variable (h : (s.cabinet F).Consistent)
include h

/-- The cache entry of an order in a limit chain that is not spent. -/
theorem cached_of_limit {p : Nat} {b : LimitBndl} {c : ChainIterWrap}
    (hb : b ∈ (s.limits p).elems) (hlive : b.id ∉ F.spentAt p) (hc : s.idCache b.id = some c) :
    c.type = .limit ∧ c.p = p := by
  have hm : b.id ∈ (s.cabinet F).drawer (.limit, p) :=
    List.mem_filter.mpr ⟨List.mem_map_of_mem hb, by simpa using hlive⟩
  have hi := h.mem_iff.mp hm
  simp only [Sob.cabinet, hc, Option.map_some, Option.some.injEq, Prod.mk.injEq] at hi
  refine ⟨?_, hi.2⟩
  cases hty : c.type <;> simp [IType.kind, hty] at hi ⊢

theorem consistent_moveFront {buyLimit : Bool} {p : Nat} {b : LimitBndl} {bs : List LimitBndl}
    {c : ChainIterWrap} (hl : s.limits p = some (b :: bs)) (hlive : b.id ∉ F.spentAt p)
    (hc : s.idCache b.id = some c) :
    (((s.copiedToAons buyLimit p b c).setLimits p (ChainManager.ofList bs)).cabinet
      F).Consistent := by
  obtain ⟨-, hp⟩ := cached_of_limit h (p := p) (by simp [hl]) hlive hc
  have hlive' : decide (b.id ∉ F.spentAt p) = true := by simpa using hlive
  have hne : ((.limit, p) : Kind × Nat) ≠ (.aon, p) := by simp
  refine h.move (k := (.limit, p)) (l := (.aon, p)) (i := b.id) hne ?_ ?_ (fun q hq hq' => ?_)
    fun j => ?_
  · rw [Sob.drawer_cabinet, Sob.drawer_cabinet, Sob.drawer_setLimits, if_pos rfl,
      ChainManager.elems_ofList]
    simp only [Sob.drawer, Sob.limitIds, hl, ChainManager.elems_some, List.map_cons,
      List.filter_cons, if_pos hlive']
    exact .refl _
  · rw [Sob.drawer_cabinet, Sob.drawer_cabinet, Sob.drawer_setLimits, if_neg hne.symm,
      Sob.drawer_copiedToAons, if_pos rfl, List.append_assoc]
    exact List.perm_middle
  · rw [Sob.drawer_cabinet, Sob.drawer_cabinet, Sob.drawer_setLimits, if_neg hq,
      Sob.drawer_copiedToAons, if_neg hq']
  · refine (index_copiedToAons (F := F) (s := s) (l := buyLimit) (p := p) (b := b) (c := c)
      j).trans ?_
    rw [hp]

theorem consistent_moveHit {buyLimit : Bool} {H : Hit} {b : LimitBndl} {c : ChainIterWrap}
    {f : LimitBndl → LimitBndl} (hf : ∀ x, (f x).id = x.id) (hhit : F.hit = some H)
    (hhit' : ∃ H' : Hit, F'.hit = some H' ∧ H'.plev = H.plev ∧ H'.spent = b.id :: H.spent)
    (hdet : F'.detached = F.detached) (hb : b ∈ (s.limits H.plev).elems)
    (hnew : b.id ∉ H.spent) (hc : s.idCache b.id = some c) :
    (((s.copiedToAons buyLimit H.plev b c).updateLimit H.plev b.id f).cabinet
      F').Consistent := by
  have hlive : b.id ∉ F.spentAt H.plev := by simpa [Flight.spentAt, hhit] using hnew
  obtain ⟨-, hp⟩ := cached_of_limit h hb hlive hc
  have hne : ((.limit, H.plev) : Kind × Nat) ≠ (.aon, H.plev) := by simp
  have hspentAt : ∀ p, F'.spentAt p = if H.plev = p then b.id :: H.spent else [] := fun p => by
    obtain ⟨H', hH', hplev, hspent⟩ := hhit'
    simp [Flight.spentAt, hH', hplev, hspent]
  let s1 := s.copiedToAons buyLimit H.plev b c
  have hlim : (s1.updateLimit H.plev b.id f).limitIds = s.limitIds := by
    rw [limitIds_updateLimit _ _ hf]
    funext p
    unfold Sob.limitIds
    rw [limits_of_bookView (bookView_copiedToAons _ _ _ _ _)]
  have hother : ∀ q : Kind × Nat, q.1 ≠ .limit →
      (s1.updateLimit H.plev b.id f).drawer F' q = s1.drawer F q := fun q hq => by
    obtain ⟨k, p⟩ := q
    cases k with
    | limit => exact absurd rfl hq
    | stop =>
      simp only [Sob.drawer, Flight.detachedAt_congr hdet]
      unfold Sob.stopIds Sob.updateLimit
      simp
    | aon =>
      simp only [Sob.drawer]
      unfold Sob.aonIds Sob.updateLimit
      simp
  have hdrawer : ∀ p, (s1.updateLimit H.plev b.id f).drawer F' (.limit, p) = if H.plev = p then
      (s.drawer F (.limit, p)).filter (· ≠ b.id) else s.drawer F (.limit, p) := fun p => by
    have hold : F.spentAt p = if H.plev = p then H.spent else [] := by
      simp [Flight.spentAt, hhit]
    unfold Sob.drawer
    dsimp only
    rw [hlim, hspentAt, hold]
    split
    · rw [List.filter_filter]
      exact List.filter_congr fun j _ => by simp
    · rfl
  refine h.move (k := (.limit, H.plev)) (l := (.aon, H.plev)) (i := b.id) hne ?_ ?_
    (fun q hq hq' => ?_) fun j => ?_
  · rw [Sob.drawer_cabinet, Sob.drawer_cabinet, hdrawer, if_pos rfl]
    exact perm_cons_filter (h.nodup (.limit, H.plev))
      (List.mem_filter.mpr ⟨List.mem_map_of_mem hb, by simpa using hlive⟩)
  · rw [Sob.drawer_cabinet, Sob.drawer_cabinet, hother _ (by simp), Sob.drawer_copiedToAons,
      if_pos rfl, List.append_assoc]
    exact List.perm_middle
  · rw [Sob.drawer_cabinet, Sob.drawer_cabinet]
    by_cases hk : q.1 = .limit
    · obtain ⟨k, p⟩ := q
      dsimp only at hk
      subst hk
      rw [hdrawer, if_neg fun heq => hq (by rw [heq])]
    · rw [hother q hk, Sob.drawer_copiedToAons, if_neg hq']
  · refine (index_copiedToAons (F := F) (s := s) (l := buyLimit) (p := H.plev) (b := b)
      (c := c) j).trans ?_
    rw [hp]

/-- At the end of a hit the spent orders leave their chain. -/
theorem consistent_eraseSpent {H : Hit} {cm : ChainManager LimitBndl} (hhit : F.hit = some H)
    (hhit' : F'.hit = none) (hdet : F'.detached = F.detached)
    (hcm : cm.elems.map (·.id) = (s.limitIds H.plev).filter (· ∉ H.spent)) :
    ((s.setLimits H.plev cm).cabinet F').Consistent := by
  have hnone : ∀ p, F'.spentAt p = [] := fun p => by simp [Flight.spentAt, hhit']
  refine h.congr (fun q => .of_eq ?_) fun _ => rfl
  rw [Sob.drawer_cabinet, Sob.drawer_cabinet, Sob.drawer_setLimits]
  obtain ⟨k, p⟩ := q
  by_cases hq : ((k, p) : Kind × Nat) = (.limit, H.plev)
  · cases hq
    have hold : F.spentAt H.plev = H.spent := by simp [Flight.spentAt, hhit]
    rw [if_pos rfl, hnone, hcm]
    unfold Sob.drawer
    dsimp only
    rw [hold]
    simp
  · rw [if_neg hq]
    unfold Sob.drawer
    cases k with
    | limit =>
      have hold : F.spentAt p = [] := by
        simp only [Flight.spentAt, hhit]
        exact if_neg fun heq => hq (by rw [heq])
      simp only [hnone, hold]
    | stop => simp only [Flight.detachedAt_congr hdet]
    | aon => rfl

/-- Nothing is left of an order of the hit. -/
theorem consistent_retire {H : Hit} {id : Nat} {f : LimitBndl → LimitBndl}
    (hf : ∀ x, (f x).id = x.id) (hhit : F.hit = some H)
    (hhit' : F'.hit = some { H with spent := id :: H.spent }) (hdet : F'.detached = F.detached)
    (hid : id ∈ s.limitIds H.plev) (hnew : id ∉ H.spent) :
    (((s.updateLimit H.plev id f).cacheErase id).cabinet F').Consistent := by
  have hold : ∀ p, F.spentAt p = if H.plev = p then H.spent else [] := fun p => by
    simp [Flight.spentAt, hhit]
  have hspentAt : ∀ p, F'.spentAt p = if H.plev = p then id :: H.spent else [] := fun p => by
    simp [Flight.spentAt, hhit']
  have hdrawer : ∀ q, ((s.updateLimit H.plev id f).cacheErase id).drawer F' q =
      if q = (.limit, H.plev) then (s.drawer F q).filter (· ≠ id) else s.drawer F q := fun q => by
    obtain ⟨k, p⟩ := q
    rw [Sob.drawer_cacheErase]
    cases k with
    | limit =>
      unfold Sob.drawer
      dsimp only
      rw [limitIds_updateLimit _ _ hf, hspentAt, hold]
      by_cases hp : H.plev = p
      · rw [if_pos hp, if_pos hp, if_pos (by rw [hp]), List.filter_filter]
        exact List.filter_congr fun j _ => by simp
      · rw [if_neg hp, if_neg hp, if_neg (by simpa using Ne.symm hp)]
    | stop =>
      rw [if_neg (by simp)]
      simp only [Sob.drawer, Flight.detachedAt_congr hdet]
      unfold Sob.stopIds Sob.updateLimit
      simp
    | aon =>
      rw [if_neg (by simp)]
      simp only [Sob.drawer]
      unfold Sob.aonIds Sob.updateLimit
      simp
  refine h.take (k := (.limit, H.plev)) (i := id) ?_ (fun q hq => ?_) fun j => index_cacheErase id j
  · rw [Sob.drawer_cabinet, Sob.drawer_cabinet, hdrawer, if_pos rfl]
    exact perm_cons_filter (h.nodup (.limit, H.plev))
      (List.mem_filter.mpr ⟨hid, by simpa [hold] using hnew⟩)
  · rw [Sob.drawer_cabinet, Sob.drawer_cabinet, hdrawer, if_neg hq]

end Move
end Cabinets

/-! ## Ids that wait -/

section Pending
variable {F F' : Flight} {w w' : World}

theorem pending_congr {G : Flight} {v : World} (hids : G.ids = F.ids) (hfront : G.front = F.front)
    (hq : v.internalOrderQueue = w.internalOrderQueue) : v.pending G = w.pending F := by
  unfold Sob.pending
  rw [hids, hfront, hq]

theorem queue_of_bookView {s s' : Sob} (h : s'.bookView = s.bookView) :
    s'.internalOrderQueue = s.internalOrderQueue :=
  congrArg (·.2.2.1) h

theorem queue_updateAt (s : Sob) (c : ChainIterWrap) (id : Nat) (g : OrderBndl → OrderBndl) :
    (s.updateAt c id g).internalOrderQueue = s.internalOrderQueue := by
  unfold Sob.updateAt; split <;> rfl

theorem queue_copiedToAons (s : Sob) (buyLimit : Bool) (p : Nat) (b : LimitBndl)
    (c : ChainIterWrap) : (s.copiedToAons buyLimit p b c).internalOrderQueue =
      s.internalOrderQueue :=
  queue_of_bookView (bookView_copiedToAons s buyLimit p b c)

theorem queue_traded (w : World) (plev size idbuy idsell : Nat) (cbbuy cbsell : OrderExecCbBndl) :
    (w.traded plev size idbuy idsell cbbuy cbsell).internalOrderQueue = w.internalOrderQueue :=
  queue_of_bookView (bookView_traded w plev size idbuy idsell cbbuy cbsell)

/-- An order goes from the ids to the queue. -/
theorem pending_enqueue {G : Flight} {v : World} {e : OrderQueueElem} {ids : List Nat} (hids : F.ids = e.id :: ids)
    (hids' : G.ids = ids) (hfront : G.front = F.front)
    (hq : v.internalOrderQueue = w.internalOrderQueue ++ [e]) :
    ∀ id ∈ v.pending G, id ∈ w.pending F := by
  intro id hid
  unfold Sob.pending at hid ⊢
  rw [hids', hfront, hq, List.drop_append, List.map_append] at hid
  rw [hids]
  rcases List.mem_append.mp hid with hid | hid
  · simp [hid]
  rcases List.mem_append.mp hid with hid | hid
  · simp only [List.mem_append, hid, or_true]
  · have := (List.drop_sublist _ [e]).map (·.id) |>.subset hid
    simp only [List.map_cons, List.map_nil, List.mem_singleton] at this
    simp [this]

/-- A transition only makes new ids wait. -/
theorem Act.pending_sub {c c' : Config} (h : Act c c') :
    ∀ id ∈ c'.2.pending c'.1, id ∈ c.2.pending c.1 ∨ c.2.lastId < id := by
  have hsame : c'.1.ids = c.1.ids → c'.1.front = c.1.front →
      c'.2.internalOrderQueue = c.2.internalOrderQueue →
      ∀ id ∈ c'.2.pending c'.1, id ∈ c.2.pending c.1 ∨ c.2.lastId < id := fun hi hf hq id hid =>
    .inl (pending_congr hi hf hq ▸ hid)
  cases h with
  | report => exact hsame rfl rfl (queue_of_bookView (bookView_report _ _ _ _ _ _ _))
  | @newId F w =>
    rintro id (_ | ⟨_, hid⟩)
    · exact .inr (Nat.lt_succ_self _)
    · exact .inl hid
  | @enqueue F w e ids hids =>
    have hsub := pending_enqueue (F := F) (w := w) hids (G := { F with ids := ids }) rfl rfl
      (v := (w.log (.pushInternalOrder e)).onSob fun s =>
        { s with internalOrderQueue := s.internalOrderQueue ++ [e] }) rfl
    exact fun id hid => .inl (hsub id hid)
  | @moveFront F w p b bs c => exact hsame rfl rfl (queue_copiedToAons w.toSob _ p b c)
  | @settle F w p =>
    refine hsame rfl rfl ?_
    obtain ⟨_, _, _, _, heq⟩ := Exec.Limit.adjustStateAfterPull_eq (decide (p ≤ w.bid)) w.toSob p
    rw [World.toSob_onSob, heq]
  | popAon => exact hsame rfl rfl (queue_of_bookView (bookView_erasedAon _ _ _ _))
  | popStop => exact hsame rfl rfl (queue_of_bookView (bookView_erasedStop _ _ _))
  | trailingErase => exact hsame rfl rfl (queue_of_bookView (bookView_trailing _ _ _).1)
  | grow | tell => exact hsame rfl rfl (queue_updateAt _ _ _ _)
  | growBoth =>
    refine hsame rfl rfl ?_
    rw [World.toSob_onSob, queue_updateAt, queue_of_bookView (bookView_report _ _ _ _ _ _ _)]
    exact queue_updateAt _ _ _ _
  | _ => exact hsame rfl rfl rfl

theorem Move.pending_sub {c c' : Config} (h : Move c c') :
    ∀ id ∈ c'.2.pending c'.1, id ∈ c.2.pending c.1 ∨ c.2.lastId < id := by
  have hsame : c'.1.ids = c.1.ids → c'.1.front = c.1.front →
      c'.2.internalOrderQueue = c.2.internalOrderQueue →
      ∀ id ∈ c'.2.pending c'.1, id ∈ c.2.pending c.1 ∨ c.2.lastId < id := fun hi hf hq id hid =>
    .inl (pending_congr hi hf hq ▸ hid)
  cases h with
  | act h => exact h.pending_sub
  | @fillAon F w bidSide plev id size cb b =>
    exact hsame rfl rfl (queue_traded w plev b.sz id b.id cb b.cb)
  | @fillLastAon F w bidSide plev id size cb b =>
    refine hsame rfl rfl ?_
    rw [World.toSob_onSob, queue_of_bookView (bookView_aonAdjust _ _ _).1]
    exact queue_traded w plev b.sz id b.id cb b.cb
  | freeAon =>
    refine hsame rfl rfl ?_
    rw [World.toSob_onSob, queue_of_bookView (bookView_aonAdjust _ _ _).1]
    rfl
  | @moveHit F w h id size b c => exact hsame rfl rfl (queue_copiedToAons w.toSob _ h.plev b c)
  | @fill F w h id size cb b =>
    exact hsame rfl rfl (queue_traded w h.plev (min size b.sz) id b.id cb b.cb)
  | freeHit | wipeHit =>
    refine hsame rfl rfl ?_
    obtain ⟨_, _, _, _, heq⟩ := Exec.Core.findNewBestInside_eq _ _
    rw [World.toSob_onSob, heq]
    rfl
  | moveStop => exact hsame rfl rfl (queue_of_bookView (bookView_movedStop _ _ _ _))
  | detach =>
    refine hsame rfl rfl ?_
    rw [World.toSob_onSob, queue_of_bookView (bookView_stopAdjust _ _ _).2.2]
    rfl
  | eraseTriggered => exact hsame rfl rfl (queue_of_bookView (bookView_trailing _ _ _).1)
  | @turn F w d e todo order ids msg hdet htodo hturn hids =>
    obtain ⟨_, _, heq⟩ := w.turned_eq msg e d.plev order
    have hsub := pending_enqueue (F := F) (w := w) hids
      (G := { F with ids := ids, detached := some { d with todo := todo, turning := some e.id } })
      rfl rfl (v := w.turned msg e d.plev order) (by rw [heq])
    exact fun id hid => .inl (hsub id hid)
  | _ => exact hsame rfl rfl rfl

theorem Moves.pending_sub {c c' : Config} (h : Moves c c') :
    ∀ id ∈ c'.2.pending c'.1, id ∈ c.2.pending c.1 ∨ c.2.lastId < id := by
  induction h with
  | refl => exact fun id hid => .inl hid
  | tail h h' ih =>
    intro id hid
    rcases h'.pending_sub id hid with hid | hlt
    · exact ih id hid
    · exact .inr ((Moves.lastId_le h).trans_lt hlt)

end Pending

/-! ## The transitions keep the cabinet -/

section Filed
variable {F F' : Flight} {w w' : World}

theorem Filed.next (h : Filed F w) (hcab : (w'.cabinet F').Consistent)
    (hkeys : ∀ id, w'.idCache id ≠ none → w.idCache id ≠ none) (hlast : w.lastId ≤ w'.lastId)
    (hpend : ∀ id ∈ w'.pending F', id ∈ w.pending F ∨ w.lastId < id)
    (hgap : ∀ p h, F'.gap = some p → F'.hit = some h → h.plev ≠ p) : Filed F' w' := by
  refine ⟨hcab, fun id hid => ?_, hgap⟩
  obtain ⟨hle, hnew⟩ := h.known id (hkeys id hid)
  refine ⟨hle.trans hlast, fun hp => ?_⟩
  rcases hpend id hp with hp | hlt
  · exact hnew hp
  · omega

theorem idCache_erasedLimit (s : Sob) (p id j : Nat) :
    (s.erasedLimit p id).idCache j = if j = id then none else s.idCache j := rfl

theorem idCache_copiedToAons (s : Sob) (buyLimit : Bool) (p : Nat) (b : LimitBndl)
    (c : ChainIterWrap) (j : Nat) : (s.copiedToAons buyLimit p b c).idCache j =
      if j = b.id then some ⟨if buyLimit then .aonBuy else .aonSell, c.p⟩ else s.idCache j := by
  unfold Sob.copiedToAons
  rw [cache_of_files (Exec.Aon.files_adjustStateAfterInsert _ _ _)]
  rfl

theorem idCache_erasedAon (s : Sob) (isBuy : Bool) (p id j : Nat) :
    (s.erasedAon isBuy p id).idCache j = if j = id then none else s.idCache j := by
  unfold Sob.erasedAon
  dsimp only
  split
  · rw [cache_of_files (Exec.Aon.files_adjustStateAfterPull _ _ _)]
    rfl
  · rfl

theorem idCache_erasedStop (s : Sob) (p : Nat) (b : StopBndl) (j : Nat) :
    (s.erasedStop p b).idCache j = if j = b.id then none else s.idCache j := by
  unfold Sob.erasedStop
  dsimp only
  split
  · rw [cache_of_files (Exec.Stop.files_adjustStateAfterPull _ _ _)]
    rfl
  · rfl

theorem ne_none_of_erased {o : Option ChainIterWrap} {j id : Nat}
    (h : (if j = id then none else o) ≠ none) : o ≠ none := by
  split at h
  · exact absurd rfl h
  · exact h

/-- The order copied was cached already. -/
theorem cached_of_copied {s : Sob} {buyLimit : Bool} {p : Nat} {b : LimitBndl} {c : ChainIterWrap}
    {j : Nat} (hc : s.idCache b.id = some c)
    (h : (s.copiedToAons buyLimit p b c).idCache j ≠ none) : s.idCache j ≠ none := by
  rw [idCache_copiedToAons] at h
  split at h
  next hj => rw [hj, hc]; simp
  next => exact h

theorem Flight.spentAt_of_gap (h : ∀ H, F.hit = some H → H.plev ≠ p) : F.spentAt p = [] := by
  unfold Flight.spentAt
  split
  next H hH => exact if_neg (h H hH)
  next => rfl

theorem Act.filed {c c' : Config} (h : Act c c') (hi : Filed c.1 c.2)
    (hapart : LinksApart c.1 c.2) : Filed c'.1 c'.2 := by
  have hlast := h.lastId_le
  have hpend := h.pending_sub
  -- nothing but files, pointers and what is under way elsewhere changes
  have hsame : c'.2.files = c.2.files → c'.1.hit = c.1.hit → c'.1.detached = c.1.detached →
      (∀ p, c'.1.gap = some p → c.1.gap = some p) → Filed c'.1 c'.2 := fun hf hhit hdet hgap => by
    refine hi.next ?_ (fun id => ?_) hlast hpend fun p H hp hH => hi.gap p H (hgap p hp) (hhit ▸ hH)
    · rw [cabinet_of_files hf (Flight.spentAt_congr hhit) (Flight.detachedAt_congr hdet)]
      exact hi.cabinet
    · rw [cache_of_files hf]
      exact fun hc => hc
  cases h with
  | report => exact hsame (files_report _ _ _ _ _ _ _) rfl rfl fun _ h => h
  | newId => exact hsame rfl rfl rfl fun _ h => h
  | enqueue => exact hsame rfl rfl rfl fun _ h => h
  | @popLimit F w id c b hgap hpull hc hty hb =>
    refine hi.next (consistent_erasedLimit hi.cabinet hc hty hb)
      (fun j hj => ne_none_of_erased hj) hlast hpend fun p H hp hH => ?_
    cases hp
    obtain ⟨a, link, ha, hpay, rfl⟩ := hpull H hH
    exact hapart H a link c hH ha hpay hc hty
  | @moveFront F w p b bs c hgap hl hb hc =>
    have hlive : b.id ∉ F.spentAt p := by
      rw [Flight.spentAt_of_gap fun H hH => hi.gap p H hgap hH]
      exact List.not_mem_nil
    exact hi.next (consistent_moveFront hi.cabinet hl hlive hc)
      (fun j hj => cached_of_copied (s := w.toSob) hc hj) hlast hpend hi.gap
  | missFront => exact hsame rfl rfl rfl fun _ h => by cases h
  | settle =>
    exact hsame (Exec.Limit.files_adjustStateAfterPull _ _ _) rfl rfl fun _ h => by cases h
  | close => exact hsame rfl rfl rfl fun _ h => by cases h
  | @popAon F w id c isBuy b hc hty hb =>
    refine hi.next (consistent_erasedAon hi.cabinet hb) (fun j hj => ?_) hlast hpend hi.gap
    rw [World.toSob_onSob, idCache_erasedAon] at hj
    exact ne_none_of_erased hj
  | @popStop F w id c b hc hb =>
    obtain rfl := Chain.findStop_id hb
    refine hi.next (consistent_erasedStop hi.cabinet hb) (fun j hj => ?_) hlast hpend hi.gap
    rw [World.toSob_onSob, idCache_erasedStop] at hj
    exact ne_none_of_erased hj
  | pulled => exact hsame rfl rfl rfl fun _ h => h
  | drop => exact hsame rfl rfl rfl fun _ h => h
  | lose => exact hsame rfl rfl rfl fun _ h => h
  | trailingErase => exact hsame (files_trailingErased _ _ _) rfl rfl fun _ h => h
  | pullEmptyStop | look => exact hsame rfl rfl rfl fun _ h => h
  | @grow F w params id c a =>
    exact hi.next (consistent_updateAt hi.cabinet c id (incrSize a.amount) fun _ => rfl)
      (fun j hj => idCache_updateAt w.toSob c id (incrSize a.amount) ▸ hj) hlast hpend hi.gap
  | @growBoth F w first second id1 id2 c1 c2 a msg cb id price sz =>
    have h1 := consistent_updateAt hi.cabinet c1 id1 (incrSize a.amount) fun _ => rfl
    have hf := files_report (w.onSob (·.updateAt c1 id1 (incrSize a.amount))) msg cb id id price sz
    have h2 := cabinet_of_files (F := F) hf rfl rfl ▸ h1
    refine hi.next (consistent_updateAt h2 c2 id2 (incrSize a.amount) fun _ => rfl) (fun j hj => ?_)
      hlast hpend hi.gap
    · rw [World.toSob_onSob, idCache_updateAt, cache_of_files hf, World.toSob_onSob,
        idCache_updateAt] at hj
      exact hj
  | @tell F w link c a =>
    exact hi.next (consistent_updateAt hi.cabinet c link.id (decrSize a.amount) fun _ => rfl)
      (fun j hj => idCache_updateAt w.toSob c link.id (decrSize a.amount) ▸ hj) hlast hpend hi.gap

theorem Move.filed {c c' : Config} (h : Move c c') (hi : Filed c.1 c.2)
    (hapart : LinksApart c.1 c.2) (hzero : ∀ s p, .hitChain s p 0 ∉ c'.2.trace) :
    Filed c'.1 c'.2 := by
  have hlast := h.lastId_le
  have hpend := h.pending_sub
  -- nothing but files, pointers and what is under way elsewhere changes
  have hsame : c'.2.files = c.2.files → c'.1.spentAt = c.1.spentAt →
      c'.1.detachedAt = c.1.detachedAt → (∀ p H, c'.1.gap = some p → c'.1.hit = some H →
        H.plev ≠ p) → Filed c'.1 c'.2 := fun hf hspent hdet hgap => by
    refine hi.next ?_ (fun id => ?_) hlast hpend hgap
    · rw [cabinet_of_files hf hspent hdet]
      exact hi.cabinet
    · rw [cache_of_files hf]
      exact fun hc => hc
  cases h with
  | act h => exact h.filed hi hapart
  | call => exact hsame rfl rfl rfl hi.gap
  | @fillAon F w bidSide plev id size cb b kept bs hands hh hl =>
    let w1 := (w.traded plev b.sz id b.id cb b.cb).log (.filled b.id)
    have hf : w1.files = w.files := files_traded w plev b.sz id b.id cb b.cb
    have h1 : (w1.cabinet F).Consistent := cabinet_of_files (F := F) hf rfl rfl ▸ hi.cabinet
    refine hi.next (consistent_takeAon h1 (d := bidSide) (p := plev)
      (c := some (kept ++ bs)) rfl ?_) (fun j hj => ?_) hlast hpend hi.gap
    · have haons : w1.aons bidSide plev = some (kept ++ b :: bs) := by rw [aons_of_files hf, hl]
      unfold Sob.aonIds
      rw [haons]
      simp only [ChainManager.elems_some, List.map_append, List.map_cons]
      exact List.perm_middle
    · exact cache_of_files hf ▸ ne_none_of_erased (o := w1.idCache j) hj
  | @fillLastAon F w bidSide plev id size cb b hands hh hl =>
    let w1 := (w.traded plev b.sz id b.id cb b.cb).log (.filled b.id)
    have hf : w1.files = w.files := files_traded w plev b.sz id b.id cb b.cb
    have h1 : (w1.cabinet F).Consistent := cabinet_of_files (F := F) hf rfl rfl ▸ hi.cabinet
    refine hi.next (consistent_takeAon h1 (d := bidSide) (p := plev) (c := none)
      (Exec.Aon.files_adjustStateAfterPull _ _ _) ?_) (fun j hj => ?_) hlast hpend hi.gap
    · have haons : w1.aons bidSide plev = some [b] := by rw [aons_of_files hf, hl]
      unfold Sob.aonIds
      rw [haons]
      exact .refl _
    · rw [World.toSob_onSob, cache_of_files (Exec.Aon.files_adjustStateAfterPull _ _ _)] at hj
      exact cache_of_files hf ▸ ne_none_of_erased (o := w1.idCache j) hj
  | @freeAon F w bidSide plev hl =>
    have hfiles := Exec.Aon.files_adjustStateAfterPull bidSide (w.setAons bidSide plev none) plev
    refine hi.next ?_ (fun j hj => ?_) hlast hpend hi.gap
    · rw [World.toSob_onSob, cabinet_of_files (F := F) hfiles rfl rfl]
      refine hi.cabinet.congr (fun q => ?_) fun _ => rfl
      rw [Sob.drawer_cabinet, Sob.drawer_cabinet, Sob.drawer_setAons]
      split
      next hq =>
        subst hq
        cases bidSide <;> simp [Sob.drawer, Sob.aonIds, hl]
      next => exact .refl _
    · rw [World.toSob_onSob, cache_of_files hfiles] at hj
      exact hj
  | @beginHit F w plev id size hands hh hgap hhit hact hl =>
    refine hsame rfl ?_ rfl fun p H hp _ => by rw [hgap] at hp; cases hp
    funext p
    simp [Flight.spentAt, hhit]
  | @skip F w h i todo hhit htodo hl =>
    refine hsame rfl ?_ rfl fun p H hp hH => ?_
    · funext p
      simp [Flight.spentAt, hhit]
    · cases hH
      exact hi.gap p h hp hhit
  | @moveHit F w h id size b c todo hands hgap hact hh hhit htodo hl hsize hb hsz hnew hc =>
    refine hi.next (consistent_moveHit hi.cabinet (fun _ => rfl) hhit ⟨_, rfl, rfl, rfl⟩ rfl
      (Chain.findLimit_mem hl).1 hnew hc)
      (fun j hj => cached_of_copied (s := w.toSob) hc hj) hlast hpend fun p H hp _ => ?_
    rw [show F.gap = none from hgap] at hp
    cases hp
  | @fill F w h id size cb b todo hands hh hhit =>
    refine hsame (files_traded _ _ _ _ _ _ _) ?_ rfl fun p H hp hH => ?_
    · funext p
      simp [Flight.spentAt, hhit]
    · cases hH
      exact hi.gap p h hp hhit
  | @rearm F w h a b' hgap hhit =>
    exact hi.next (consistent_updateLimit hi.cabinet h.plev a.bndl.id _ fun _ => rfl)
      (fun _ h => h) hlast hpend hi.gap
  | @reduce F w h a x hgap hhit =>
    exact hi.next (consistent_updateLimit hi.cabinet h.plev a.bndl.id
      (fun x => { x with sz := x.sz - a.amount }) fun _ => rfl) (fun _ h => h) hlast hpend hi.gap
  | @retire F w h a x hgap hhit ha hx hsz hnew =>
    have hid : a.bndl.id ∈ w.limitIds h.plev := by
      obtain ⟨hm, hxid⟩ := Chain.findLimit_mem hx
      have := List.mem_map_of_mem (f := fun b : LimitBndl => b.id) hm
      rw [hxid] at this
      exact (congrFun (limitIds_updateLimit (s := w.toSob) h.plev a.bndl.id
        (f := fun x => { x with sz := x.sz - a.amount }) fun _ => rfl) h.plev) ▸ this
    refine hi.next (consistent_retire hi.cabinet (fun _ => rfl) hhit rfl rfl hid hnew)
      (fun j hj => ne_none_of_erased hj) hlast hpend fun p H hp hH => ?_
    cases hH
    exact hi.gap p h hp hhit
  | @eraseHit F w h pos l hgap hact hhit hpos hl hspent hne =>
    refine hi.next (consistent_eraseSpent hi.cabinet hhit rfl rfl ?_) (fun _ h => h) hlast hpend
      fun _ _ _ hH => by cases hH
    rw [ChainManager.elems_some, hspent]
    simp only [Sob.limitIds, hl, ChainManager.elems_some, List.filter_map]
    rfl
  | @freeHit F w bidSide h pos l hgap hact hhit hpos hl hspent hne hside =>
    have hfiles := Exec.Core.files_findNewBestInside bidSide (w.setLimits h.plev none)
    refine hi.next ?_ (fun j hj => ?_) hlast hpend fun _ _ _ hH => by cases hH
    · rw [World.toSob_onSob, cabinet_of_files hfiles rfl rfl]
      refine consistent_eraseSpent hi.cabinet hhit rfl rfl (List.filter_eq_nil_iff.mpr ?_).symm
      simpa [Sob.limitIds, hl] using hspent
    · rw [World.toSob_onSob, cache_of_files hfiles] at hj
      exact hj
  | @missHit F w h s trace hhit hdone hspent htrace =>
    exact absurd (htrace ▸ List.mem_cons_self) (hzero s h.plev)
  | @wipeHit F w bidSide h s trace hgap hhit hdone htrace =>
    exact absurd (htrace ▸ List.mem_cons_self) (hzero s h.plev)
  | @moveStop F w buyStops p id c b nticks pAdj hc hb =>
    obtain rfl := Chain.findStop_id hb
    let msg : CallbackMsg :=
      if b.isActiveTrailingStop then .triggerTrailingStopAdjLoss else .triggerBracketAdjLoss
    let w1 := (w.onSob (·.erasedStop c.p b)).report msg b.cb b.id b.id (w.itop pAdj) b.sz
    have hf : w1.files = (w.erasedStop c.p b).files := files_report _ _ _ _ _ _ _
    have h1 : (w1.cabinet F).Consistent :=
      cabinet_of_files (F := F) hf rfl rfl ▸ consistent_erasedStop hi.cabinet hb
    have hnone : w1.idCache b.id = none := by
      rw [cache_of_files hf, idCache_erasedStop, if_pos rfl]
    refine hi.next (consistent_stopPush h1 pAdj hnone) (fun j hj => ?_) hlast hpend hi.gap
    by_cases hjb : j = b.id
    · rw [hjb, hc]; simp
    · have hj' : (Chain.stopPush w1.toSob pAdj b).idCache j ≠ none := hj
      rw [idCache_stopPush _ _ _ hjb, cache_of_files hf, idCache_erasedStop, if_neg hjb] at hj'
      exact hj'
  | beginScan => exact hsame rfl rfl rfl hi.gap
  | turnScan => exact hsame rfl rfl rfl hi.gap
  | endScan => exact hsame rfl rfl rfl hi.gap
  | eraseTriggered => exact hsame (files_trailingErased _ _ _) rfl rfl hi.gap
  | @detach F w buyStops plev sc hscan hdet =>
    have hfiles := Exec.Stop.files_adjustStateAfterTrigger buyStops (w.setStops plev none) plev
    refine hi.next ?_ (fun j hj => ?_) hlast hpend hi.gap
    · rw [World.toSob_onSob, cabinet_of_files hfiles rfl rfl]
      refine hi.cabinet.congr (fun q => .of_eq ?_) fun _ => rfl
      rw [Sob.drawer_cabinet, Sob.drawer_cabinet, Sob.drawer_setStops]
      obtain ⟨k, p⟩ := q
      by_cases hq : ((k, p) : Kind × Nat) = (.stop, plev)
      · cases hq
        simp [Sob.drawer, Flight.detachedAt, hdet, Sob.stopIds]
      · rw [if_neg hq]
        cases k with
        | limit => rfl
        | stop =>
          have hne : plev ≠ p := fun heq => hq (by rw [heq])
          simp [Sob.drawer, Flight.detachedAt, hdet, hne]
        | aon => rfl
    · rw [World.toSob_onSob, cache_of_files hfiles] at hj
      exact hj
  | beginTrigger => exact hsame rfl rfl rfl hi.gap
  | @turn F w d e todo order ids msg hdet htodo hturn =>
    have hf := files_turned w msg e d.plev order
    refine hi.next (hi.cabinet.congr (fun q => ?_) fun j => ?_) (fun j hj => ?_) hlast hpend hi.gap
    · obtain ⟨k, p⟩ := q
      rw [Sob.drawer_cabinet, Sob.drawer_cabinet, Sob.drawer_of_files hf]
      cases k with
      | limit => exact .refl _
      | stop =>
        simp only [Sob.drawer, Flight.detachedAt, hdet]
        refine List.Perm.append_left _ ?_
        split
        · rw [htodo, hturn]
          simp
        · exact .refl _
      | aon => exact .refl _
    · change ((w.turned msg e d.plev order).idCache j).map _ = (w.idCache j).map _
      rw [cache_of_files hf]
    · exact cache_of_files hf ▸ hj
  | @endTrigger F w d id hdet hturn =>
    refine hi.next (hi.cabinet.take (k := (.stop, d.plev)) (i := id) ?_ (fun q hq => ?_)
      fun j => index_cacheErase id j) (fun j hj => ne_none_of_erased hj) hlast hpend hi.gap
    · have hp := List.perm_append_singleton id (w.stopIds d.plev ++ d.todo.map (·.id))
      rw [List.append_assoc] at hp
      simpa [Sob.drawer_cabinet, Sob.drawer, Flight.detachedAt, hdet, hturn, Sob.stopIds,
        World.onSob] using hp
    · obtain ⟨k, p⟩ := q
      refine .of_eq ?_
      cases k with
      | limit => rfl
      | stop =>
        have hne : d.plev ≠ p := fun heq => hq (by rw [heq])
        simp [Sob.drawer_cabinet, Sob.drawer, Flight.detachedAt, hdet, hne, Sob.stopIds, World.onSob]
      | aon => rfl
  | @endDetached F w d hdet htodo hturn =>
    refine hsame rfl rfl ?_ hi.gap
    funext p
    simp [Flight.detachedAt, hdet, htodo, hturn]

theorem Moves.filed {c c' : Config} (h : Moves c c') (hi : Filed c.1 c.2)
    (hapart : ∀ d, Moves c d → LinksApart d.1 d.2) (hzero : ∀ s p, .hitChain s p 0 ∉ c'.2.trace) :
    Filed c'.1 c'.2 := by
  induction h with
  | refl => exact hi
  | tail h h' ih =>
    exact h'.filed (ih fun s p hm => hzero s p (h'.trace_suffix.subset hm)) (hapart _ h) hzero

/-! ## Insertions -/

/-- Between the steps of an insertion no chain is walked. -/
structure Shelved (F : Flight) (w : World) : Prop extends Filed F w where
  hit : F.hit = none
  detached : F.detached = none

/-- An order that waits comes into the book. -/
theorem Filed.file (h : Filed F w) (ha : Ambient F w) {id : Nat} {ids : List Nat}
    (hids : F.ids = id :: ids) (hcab : (w'.cabinet F').Consistent)
    (hkeys : ∀ j, w'.idCache j ≠ none → j = id ∨ w.idCache j ≠ none)
    (hlast : w'.lastId = w.lastId) (hids' : F'.ids = ids) (hfront : F'.front = F.front)
    (hq : w'.internalOrderQueue = w.internalOrderQueue)
    (hgap : ∀ p h, F'.gap = some p → F'.hit = some h → h.plev ≠ p) : Filed F' w' := by
  have hpend : w.pending F = id :: w'.pending F' := by
    unfold Sob.pending
    rw [hids, hids', hfront, hq, List.cons_append]
  refine ⟨hcab, fun j hj => ?_, hgap⟩
  rw [hlast]
  rcases hkeys j hj with rfl | hj
  · refine ⟨ha.pending_le j (hpend ▸ List.mem_cons_self), fun hm => ?_⟩
    exact (List.nodup_cons.mp (hpend ▸ ha.pending_nodup)).1 hm
  · obtain ⟨hle, hnew⟩ := h.known j hj
    exact ⟨hle, fun hm => hnew (hpend ▸ List.mem_cons_of_mem _ hm)⟩

/-- What waits is not cached. -/
theorem Filed.idCache_new (h : Filed F w) {id : Nat} {ids : List Nat} (hids : F.ids = id :: ids) :
    w.idCache id = none := by
  by_contra hc
  exact (h.known id hc).2 (by simp [Sob.pending, hids])

theorem Act.flight {c c' : Config} (h : Act c c') :
    c'.1.hit = c.1.hit ∧ c'.1.detached = c.1.detached := by
  cases h <;> exact ⟨rfl, rfl⟩

theorem idCache_limitPush (s : Sob) (buy : Bool) (p : Nat) (b : LimitBndl) {j : Nat}
    (hj : j ≠ b.id) : (Chain.limitPush buy s p b).idCache j = s.idCache j := by
  unfold Chain.limitPush
  rw [cache_of_files (Exec.Limit.files_adjustStateAfterInsert _ _ _)]
  unfold Sob.cacheEmplace
  split
  · rfl
  · exact if_neg hj

theorem idCache_aonPush (s : Sob) (buy : Bool) (p : Nat) (b : AonBndl) {j : Nat}
    (hj : j ≠ b.id) : (Chain.aonPush buy s p b).idCache j = s.idCache j := by
  unfold Chain.aonPush
  rw [cache_of_files (Exec.Aon.files_adjustStateAfterInsert _ _ _)]
  unfold Sob.cacheEmplace
  split
  · rfl
  · exact if_neg hj

theorem Step.shelved {c c' : Config} (h : Step c c') (hi : Shelved c.1 c.2)
    (ha : Ambient c.1 c.2) (hapart : ∀ d, Moves c d → LinksApart d.1 d.2)
    (hzero : ∀ s p, .hitChain s p 0 ∉ c'.2.trace) : Shelved c'.1 c'.2 := by
  have hlast := h.lastId_le
  -- the files are those of before, and the ids that wait were known to
  have hsame : c'.2.files = c.2.files → c'.1.hit = c.1.hit → c'.1.detached = c.1.detached →
      (∀ id ∈ c'.2.pending c'.1, id ∈ c.2.pending c.1) → Shelved c'.1 c'.2 :=
    fun hf hhit hdet hpend => by
    refine ⟨hi.toFiled.next ?_ (fun id => ?_) hlast (fun id hid => .inl (hpend id hid)) ?_,
      hhit.trans hi.hit, hdet.trans hi.detached⟩
    · rw [cabinet_of_files hf (Flight.spentAt_congr hhit) (Flight.detachedAt_congr hdet)]
      exact hi.cabinet
    · rw [cache_of_files hf]
      exact fun hc => hc
    · exact fun p H _ hH => by rw [hhit, hi.hit] at hH; cases hH
  have hquiet : c'.2.files = c.2.files → c'.1.hit = c.1.hit → c'.1.detached = c.1.detached →
      c'.1.ids = c.1.ids → c'.1.front = c.1.front →
      c'.2.internalOrderQueue = c.2.internalOrderQueue → Shelved c'.1 c'.2 :=
    fun hf hhit hdet hids hfront hq => hsame hf hhit hdet fun id hid =>
      pending_congr hids hfront hq ▸ hid
  have hupdate : ∀ {F : Flight} {w : World} (c : ChainIterWrap) (id : Nat)
      (f : OrderBndl → OrderBndl), (∀ b, (f b).id = b.id) → Shelved F w →
      Shelved F (w.onSob (·.updateAt c id f)) := fun {F w} c id f hf hs => by
    refine ⟨hs.toFiled.next (consistent_updateAt hs.cabinet c id f hf)
      (fun j hj => idCache_updateAt w.toSob c id f ▸ hj) (lastId_updateAt _ _ _ _).ge
      (fun j hj => .inl ?_) hs.gap, hs.hit, hs.detached⟩
    rwa [pending_congr (w := w) rfl rfl (queue_updateAt _ _ _ _)] at hj
  have harm : ∀ {F : Flight} {w : World} (c : ChainIterWrap) (id : Nat)
      (condition : OrderCondition) (trigger : ConditionTrigger) (payload : Payload), Shelved F w →
      Shelved F (w.onSob (·.armed c id condition trigger payload)) :=
    fun c id _ _ _ hs => hupdate c id _ (fun _ => rfl) hs
  cases h with
  | act h =>
    have hF := h.flight
    have hno : LinksApart c.1 c.2 := fun H _ _ _ hH => by rw [hi.hit] at hH; cases hH
    exact ⟨h.filed hi.toFiled hno, hF.1.trans hi.hit, hF.2.trans hi.detached⟩
  | trade bidSide plev id size r cb hF hp hpe hrun hm =>
    exact ⟨Moves.filed hm hi.toFiled hapart hzero, hF.hit, hF.detached⟩
  | @beginOrder F w ie queue hfront hq =>
    refine hsame rfl rfl rfl fun id hid => ?_
    simp only [Sob.pending, hfront, hq, List.drop_one, List.tail_cons, List.drop_zero] at hid ⊢
    split at hid
    · rcases List.mem_append.mp hid with hid | hid
      · simp [hid]
      · simp only [List.map_cons, List.mem_append, List.mem_cons, hid, or_true]
    · simp only [List.cons_append, List.mem_cons, List.mem_append, List.map_cons] at hid ⊢
      tauto
  | @endOrder F w hfront =>
    refine hsame rfl rfl rfl fun id hid => ?_
    simpa [Sob.pending, hfront, World.onSob, List.drop_one] using hid
  | accept => exact hsame rfl rfl rfl fun _ h => h
  | addLeg => exact hsame rfl rfl rfl fun _ h => h
  | finish => exact hsame rfl rfl rfl fun _ h => h
  | @forget F w id ids hids =>
    refine hsame rfl rfl rfl fun j hj => ?_
    simp only [Sob.pending, hids, List.cons_append, List.mem_cons] at hj ⊢
    exact .inr hj
  | @kill F w e cb id sz price hands =>
    exact hquiet (files_report _ _ _ _ _ _ _) rfl rfl rfl rfl
      (queue_of_bookView (bookView_report _ _ _ _ _ _ _))
  | @print F w p id1 id2 sz1 sz2 n cb1 cb2 hands =>
    exact hquiet (files_traded _ _ _ _ _ _ _) rfl rfl rfl rfl
      (queue_traded (w.log (.preTradePrint w.toSob p)) p n id1 id2 cb1 cb2)
  | @pushLimit F w buy p b hands ids hgap hh hids =>
    have hnone := hi.idCache_new hids
    have hspent : b.id ∉ F.spentAt p := by
      rw [Flight.spentAt_of_gap fun H hH => by rw [hi.hit] at hH; cases hH]
      exact List.not_mem_nil
    have hrest := waiting_limitPush w.toSob buy p b
    refine ⟨hi.toFiled.file ha hids (consistent_limitPush hi.cabinet buy p hnone hspent)
      (fun j hj => ?_) hrest.1 rfl rfl hrest.2 hi.gap, hi.hit, hi.detached⟩
    by_cases hjb : j = b.id
    · exact .inl hjb
    · exact .inr (idCache_limitPush w.toSob buy p b hjb ▸ hj)
  | @pushAon F w buy p b hands ids hh hids =>
    have hv := bookView_aonPush w.toSob buy p b
    refine ⟨hi.toFiled.file ha hids (consistent_aonPush hi.cabinet buy p (hi.idCache_new hids))
      (fun j hj => ?_) (lastId_of_bookView hv) rfl rfl (queue_of_bookView hv) hi.gap, hi.hit,
      hi.detached⟩
    by_cases hjb : j = b.id
    · exact .inl hjb
    · exact .inr (idCache_aonPush w.toSob buy p b hjb ▸ hj)
  | @pushStop F w p b hands ids hh hids =>
    have hv := bookView_stopPush w.toSob p b
    refine ⟨hi.toFiled.file ha hids (consistent_stopPush hi.cabinet p (hi.idCache_new hids))
      (fun j hj => ?_) (lastId_of_bookView hv) rfl rfl (queue_of_bookView hv) hi.gap, hi.hit,
      hi.detached⟩
    by_cases hjb : j = b.id
    · exact .inl hjb
    · exact .inr (idCache_stopPush w.toSob p b hjb ▸ hj)
  | @arm F w e id c payload => exact hupdate c id _ (fun _ => rfl) hi
  | @link F w e op id1 id2 c1 c2 =>
    have h2 := harm c2 id2 e.condition e.trigger (.linkedOrder ⟨id1, true, none⟩)
      (harm c1 id1 e.condition e.trigger (.linkedOrder ⟨id2, false, none⟩) hi)
    exact ⟨h2.toFiled.next h2.cabinet (fun _ h => h) le_rfl (fun _ h => .inl h) h2.gap, h2.hit,
      h2.detached⟩
  | @openLoss F w e l c p b nticks1 nticks2 ids hgap he hl hids =>
    have h1 := harm c l.id e.condition e.trigger (.linkedOrder ⟨b.id, false, nticks1⟩) hi
    let w1 := w.onSob (·.armed c l.id e.condition e.trigger (.linkedOrder ⟨b.id, false, nticks1⟩))
    have hnone : w1.idCache b.id = none := by
      rw [← hi.idCache_new hids]
      exact congrFun (idCache_updateAt _ _ _ _) b.id
    have hv := bookView_stopPush w1.toSob p b
    have hlast1 : w1.lastId = w.lastId := lastId_updateAt _ _ _ _
    have hq1 : w1.internalOrderQueue = w.internalOrderQueue := queue_updateAt _ _ _ _
    refine ⟨hi.toFiled.file ha hids (consistent_stopPush h1.cabinet p hnone) (fun j hj => ?_)
      ((lastId_of_bookView hv).trans hlast1) rfl rfl ((queue_of_bookView hv).trans hq1) hi.gap,
      hi.hit, hi.detached⟩
    by_cases hjb : j = b.id
    · exact .inl hjb
    · have hj' : (Chain.stopPush w1.toSob p b).idCache j ≠ none := hj
      rw [idCache_stopPush _ _ _ hjb] at hj'
      exact .inr (congrFun (idCache_updateAt _ _ _ _) j ▸ hj')
  | announce => exact hsame rfl rfl rfl fun _ h => h
  | @trailingInsert F w id isBuy nticks =>
    exact hquiet (files_trailingInserted _ _ _) rfl rfl rfl rfl
      (queue_of_bookView (bookView_trailing w.toSob id isBuy).2)
  | tellEntry e id c payload => exact hupdate c id _ (fun _ => rfl) hi

end Filed

end SimpleOrderbook
