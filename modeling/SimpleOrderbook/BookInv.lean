import SimpleOrderbook.LimitBook
import SimpleOrderbook.Transitions

/-!
# The invariant of the limit book

What every transition keeps of the limit chains, whatever the request: the book is not crossed, the
ids in a chain differ and were handed out, no order is linked to itself, and an order that is not in
the book yet has an id that is not in any limit chain.
-/
namespace SimpleOrderbook

/-- The ids given to orders that are not in the book yet. -/
def Sob.pending (s : Sob) (F : Flight) : List Nat :=
  F.ids ++ (s.internalOrderQueue.drop F.front).map (·.id)

/-- The chain of level `p` may have just been freed, with the pointers still to be adjusted. -/
def Open (p : Nat) (s : Sob) : Prop :=
  ∃ c, c ≠ none ∧ (s.limits p = none ∨ s.limits p = c) ∧ LimitInv (s.setLimits p c).limitView

/-- The limit chains and their pointers, but for a level that is being popped from. -/
def LimitsRight (F : Flight) (s : Sob) : Prop :=
  match F.gap with
  | none => LimitInv s.limitView
  | some p => Open p s

/-- The invariant of a configuration. -/
structure Ambient (F : Flight) (w : World) : Prop where
  limit : LimitsRight F w.toSob
  nodup : ∀ p, (w.limitIds p).Nodup
  le_lastId : ∀ p, ∀ b ∈ (w.limits p).elems, b.id ≤ w.lastId
  noSelf : ∀ p, ∀ b ∈ (w.limits p).elems, b.id ∉ b.payload.refs
  acting : ∀ h a, F.hit = some h → F.acting = some a → a.bndl.id ∉ a.bndl.payload.refs
  front_le : F.front ≤ w.internalOrderQueue.length
  pending_nodup : (w.pending F).Nodup
  pending_le : ∀ id ∈ w.pending F, id ≤ w.lastId
  pending_new : ∀ id ∈ w.pending F, ∀ p, id ∉ w.limitIds p

/-! ## Popping a limit order -/

section Open
variable {s : Sob} {p : Nat}

theorem LimitInv.open (h : LimitInv s.limitView) (hp : s.limits p ≠ none) : Open p s :=
  ⟨s.limits p, hp, .inr rfl, (s.setLimits_limits p).symm ▸ h⟩

theorem Open.limitInv (h : Open p s) (hp : s.limits p ≠ none) : LimitInv s.limitView := by
  obtain ⟨c, -, hc, hl⟩ := h
  have hc : s.limits p = c := hc.resolve_left hp
  rwa [← hc, s.setLimits_limits p] at hl

theorem Open.congr {s' : Sob} (h : Open p s) (hv : s'.limitView = s.limitView) : Open p s' := by
  obtain ⟨c, hc, hp, hl⟩ := h
  have hlim : s'.limits = s.limits := congrArg LimitView.limits hv
  refine ⟨c, hc, by rwa [hlim], ?_⟩
  have hupd : ∀ t : Sob, (t.setLimits p c).limitView =
      { t.limitView with limits := fun q => if q = p then c else t.limitView.limits q } := by
    intro t
    have ht : (t.setLimits p c).limits = fun q => if q = p then c else t.limits q :=
      funext fun q => t.limits_setLimits p q c
    unfold Sob.limitView
    rw [ht]
    rfl
  rwa [hupd, hv, ← hupd]

/-- Erasing orders of an open level keeps it open. -/
theorem Open.setLimits_sublist (h : LimitInv s.limitView) {l l' : List LimitBndl}
    (hl : s.limits p = some l) (hsub : l'.Sublist l) :
    Open p (s.setLimits p (ChainManager.ofList l')) := by
  cases l' with
  | nil =>
    refine ⟨s.limits p, by simp [hl], .inl (by simp [ChainManager.ofList]), ?_⟩
    rw [s.setLimits_setLimits, s.setLimits_limits]
    exact h
  | cons b bs =>
    have hne : (s.setLimits p (ChainManager.ofList (b :: bs))).limits p ≠ none := by
      simp [ChainManager.ofList]
    refine LimitInv.open ?_ hne
    exact h.setLimits_some hl (by simp) fun c hc => ⟨c, hsub.subset hc, rfl⟩

/-- After the last order of a level was pulled its pointers are adjusted. -/
theorem Open.adjustStateAfterPull (h : Open p s) (hp : s.limits p = none) :
    LimitInv (Exec.Limit.adjustStateAfterPull (decide (p ≤ s.bid)) s p).limitView := by
  obtain ⟨c, hc, -, hl⟩ := h
  have heq : (s.setLimits p c).setLimits p none = s := by
    rw [s.setLimits_setLimits, ← hp, s.setLimits_limits]
  have hinv := hl.adjustStateAfterPull (p := p) (by simpa using hc)
  rwa [heq] at hinv

end Open

/-! ## Changing the size of an order -/

/-- Changing the size of an order leaves the limit pointers alone. -/
theorem LimitInv.updateAt {s : Sob} (h : LimitInv s.limitView) (c : ChainIterWrap) (id : Nat)
    {g : OrderBndl → OrderBndl} : LimitInv (s.updateAt c id g).limitView := by
  unfold Sob.updateAt
  rcases c with ⟨ty, p⟩
  cases ty <;> dsimp only
  · cases hl : s.limits p with
    | none =>
      rw [Option.map_none, ← hl, s.setLimits_limits]
      exact h
    | some l =>
      refine h.setLimits_some hl (fun hn => ?_) fun b hb => ?_
      · exact h.nonempty p (by simpa [Sob.limitView, hl] using Chain.updateLimit_eq_nil.mp hn)
      · rcases Chain.mem_updateLimit hb with hb | ⟨b', hb', -, rfl⟩
        · exact ⟨b, hb, rfl⟩
        · exact ⟨b', hb', rfl⟩
  · exact (limitView_setStops _ _ _).symm ▸ h
  · exact (limitView_setAons _ _ _ _).symm ▸ h
  · exact (limitView_setAons _ _ _ _).symm ▸ h

/-! ## What the basic changes leave of the limit chains -/

/-- The part of the book the invariant speaks of. -/
def Sob.bookView (s : Sob) : LimitView × Nat × List OrderQueueElem × Int :=
  (s.limitView, s.lastId, s.internalOrderQueue, s.base)

theorem limits_of_bookView {s s' : Sob} (h : s'.bookView = s.bookView) : s'.limits = s.limits :=
  congrArg LimitView.limits (congrArg (·.1) h)

section Views
variable (s : Sob)

theorem bookView_setAons (p : Nat) (c : ChainManager AonBndl) (buys : Bool) :
    (s.setAons buys p c).bookView = s.bookView := by
  unfold Sob.bookView; rw [limitView_setAons]; rfl

theorem bookView_setStops (p : Nat) (c : ChainManager StopBndl) :
    (s.setStops p c).bookView = s.bookView := by
  unfold Sob.bookView; rw [limitView_setStops]; rfl

theorem bookView_cacheEmplace (id : Nat) (c : ChainIterWrap) :
    (s.cacheEmplace id c).bookView = s.bookView := by
  obtain ⟨_, h⟩ := s.cacheEmplace_eq id c
  rw [h]; rfl

theorem bookView_aonAdjust (bidSide : Bool) (p : Nat) :
    (Exec.Aon.adjustStateAfterPull bidSide s p).bookView = s.bookView ∧
      (Exec.Aon.adjustStateAfterInsert bidSide s p).bookView = s.bookView := by
  obtain ⟨_, _, _, _, h⟩ := Exec.Aon.adjustStateAfterPull_eq bidSide s p
  obtain ⟨_, _, _, _, h'⟩ := Exec.Aon.adjustStateAfterInsert_eq bidSide s p
  rw [h, h']; exact ⟨rfl, rfl⟩

theorem bookView_stopAdjust (buyStop : Bool) (p : Nat) :
    (Exec.Stop.adjustStateAfterPull buyStop s p).bookView = s.bookView ∧
      (Exec.Stop.adjustStateAfterInsert buyStop s p).bookView = s.bookView ∧
        (Exec.Stop.adjustStateAfterTrigger buyStop s p).bookView = s.bookView := by
  obtain ⟨_, _, _, _, h⟩ := Exec.Stop.adjustStateAfterPull_eq buyStop s p
  obtain ⟨_, _, _, _, h'⟩ := Exec.Stop.adjustStateAfterInsert_eq buyStop s p
  obtain ⟨_, _, _, _, h''⟩ := Exec.Stop.adjustStateAfterTrigger_eq buyStop s p
  rw [h, h', h'']; exact ⟨rfl, rfl, rfl⟩

theorem bookView_erasedAon (isBuy : Bool) (p id : Nat) :
    (s.erasedAon isBuy p id).bookView = s.bookView := by
  have h := bookView_setAons s p
    (ChainManager.ofList (Chain.eraseLimit (s.aons isBuy p).elems id)) isBuy
  unfold Sob.erasedAon
  dsimp only
  split
  · exact (bookView_aonAdjust _ _ _).1.trans h
  · exact h

theorem bookView_erasedStop (p : Nat) (b : StopBndl) :
    (s.erasedStop p b).bookView = s.bookView := by
  have h := bookView_setStops s p
    (ChainManager.ofList (Chain.eraseStop (s.stops p).elems b.id))
  unfold Sob.erasedStop
  dsimp only
  split
  · exact (bookView_stopAdjust _ _ _).1.trans h
  · exact h

theorem bookView_copiedToAons (buyLimit : Bool) (p : Nat) (b : LimitBndl) (c : ChainIterWrap) :
    (s.copiedToAons buyLimit p b c).bookView = s.bookView :=
  (bookView_aonAdjust _ _ _).2.trans (bookView_setAons s p ((s.aons true p).push b) true)

theorem bookView_aonPush (buy : Bool) (p : Nat) (b : AonBndl) :
    (Chain.aonPush buy s p b).bookView = s.bookView :=
  (bookView_aonAdjust _ _ _).2.trans
    ((bookView_cacheEmplace _ _ _).trans (bookView_setAons s p _ buy))

theorem bookView_stopPush (p : Nat) (b : StopBndl) :
    (Chain.stopPush s p b).bookView = s.bookView :=
  (bookView_stopAdjust _ _ _).2.1.trans
    ((bookView_cacheEmplace _ _ _).trans (bookView_setStops s p _))

theorem bookView_trailing (id : Nat) (isBuy : Bool) :
    (s.trailingErased id isBuy).bookView = s.bookView ∧
      (s.trailingInserted id isBuy).bookView = s.bookView := by
  unfold Sob.trailingErased Sob.trailingInserted
  cases isBuy <;> exact ⟨rfl, rfl⟩

theorem bookView_report (w : World) (msg : CallbackMsg) (cb : OrderExecCbBndl) (id1 id2 : Nat)
    (price : Int) (sz : Nat) : (w.report msg cb id1 id2 price sz).bookView = w.bookView := by
  obtain ⟨_, _, h⟩ := w.report_eq msg cb id1 id2 price sz
  rw [h]; rfl

theorem bookView_traded (w : World) (plev size idbuy idsell : Nat)
    (cbbuy cbsell : OrderExecCbBndl) :
    (w.traded plev size idbuy idsell cbbuy cbsell).bookView = w.bookView := by
  obtain ⟨_, _, h⟩ := w.traded_eq plev size idbuy idsell cbbuy cbsell
  rw [h]; rfl

theorem bookView_movedStop (w : World) (p : Nat) (b : StopBndl) (pAdj : Nat) :
    (w.movedStop p b pAdj).bookView = w.bookView :=
  (bookView_stopPush _ _ _).trans ((bookView_report _ _ _ _ _ _ _).trans (bookView_erasedStop _ _ _))

end Views

section Ambient
variable {F F' : Flight} {w w' : World}

theorem Ambient.limitInv (h : Ambient F w) (hF : F.gap = none) : LimitInv w.limitView := by
  have := h.limit
  unfold LimitsRight at this
  rwa [hF] at this

theorem Ambient.open (h : Ambient F w) {p : Nat} (hF : F.gap = some p) : Open p w.toSob := by
  have := h.limit
  unfold LimitsRight at this
  rwa [hF] at this

/-- The invariant survives a loss of orders. -/
theorem Ambient.of_sublist (h : Ambient F w) (hl : LimitsRight F' w'.toSob)
    (hsub : ∀ p, (w'.limits p).elems.Sublist (w.limits p).elems) (hfront : F'.front = F.front)
    (hids : F'.ids = F.ids)
    (hact : ∀ h a, F'.hit = some h → F'.acting = some a → a.bndl.id ∉ a.bndl.payload.refs)
    (hi : w'.lastId = w.lastId) (hq : w'.internalOrderQueue = w.internalOrderQueue) :
    Ambient F' w' := by
  have hp : w'.pending F' = w.pending F := by unfold Sob.pending; rw [hq, hids, hfront]
  have hlids : ∀ p, (w'.limitIds p).Sublist (w.limitIds p) := fun p => (hsub p).map _
  refine ⟨hl, fun p => (h.nodup p).sublist (hlids p),
    fun p b hb => hi ▸ h.le_lastId p b ((hsub p).subset hb),
    fun p b hb => h.noSelf p b ((hsub p).subset hb), hact,
    by rw [hfront, hq]; exact h.front_le, hp ▸ h.pending_nodup, ?_, ?_⟩
  · rw [hp, hi]; exact h.pending_le
  · rw [hp]
    exact fun id hid p hm => h.pending_new id hid p ((hlids p).subset hm)

/-- The invariant survives every change outside of the limit chains. -/
theorem Ambient.congr (h : Ambient F w) (hview : w'.bookView = w.bookView)
    (hgap : F'.gap = F.gap) (hfront : F'.front = F.front) (hids : F'.ids = F.ids)
    (hact : ∀ h a, F'.hit = some h → F'.acting = some a → a.bndl.id ∉ a.bndl.payload.refs) :
    Ambient F' w' := by
  have hv : w'.limitView = w.limitView := congrArg (·.1) hview
  have hlim : w'.limits = w.limits := congrArg LimitView.limits hv
  refine h.of_sublist ?_ (fun p => hlim ▸ .refl _) hfront hids hact (congrArg (·.2.1) hview)
    (congrArg (·.2.2.1) hview)
  have hl := h.limit
  unfold LimitsRight at hl ⊢
  rw [hgap]
  split
  next hg => rw [hg] at hl; exact hv ▸ hl
  next p hg => rw [hg] at hl; exact hl.congr hv

/-- Rewriting one order behind a cache entry: its id stays, and it does not come to refer to
itself. -/
theorem Ambient.updateAt (h : Ambient F w) (hgap : F.gap = none) {c : ChainIterWrap} {id : Nat}
    {g : OrderBndl → OrderBndl} (hid : ∀ b, (g b).id = b.id)
    (hself : ∀ p, ∀ b ∈ (w.limits p).elems, b.id = id → b.id ∉ (g b.toOrderBndl).payload.refs) :
    Ambient F (w.onSob (·.updateAt c id g)) := by
  have helems : ∀ p, ((w.updateAt c id g).limits p).elems = if c.type = .limit ∧ p = c.p then
      Chain.updateLimit (fun b => { b with toOrderBndl := g b.toOrderBndl }) id (w.limits p).elems
      else (w.limits p).elems := fun p => by
    rw [Sob.limits_updateAt]
    split
    · cases w.limits p <;> rfl
    · rfl
  have hids : ∀ p, (w.updateAt c id g).limitIds p = w.limitIds p := fun p => by
    unfold Sob.limitIds
    rw [helems]
    split
    · exact Chain.map_updateLimit fun b => hid b.toOrderBndl
    · rfl
  have hmem : ∀ p, ∀ b ∈ ((w.updateAt c id g).limits p).elems, b ∈ (w.limits p).elems ∨
      ∃ b' ∈ (w.limits p).elems, b'.id = id ∧
        b = { b' with toOrderBndl := g b'.toOrderBndl } := fun p b hb => by
    rw [helems] at hb
    split at hb
    · exact Chain.mem_updateLimit hb
    · exact .inl hb
  have hfr : (w.updateAt c id g).lastId = w.lastId ∧
      (w.updateAt c id g).internalOrderQueue = w.internalOrderQueue := by
    unfold Sob.updateAt; split <;> exact ⟨rfl, rfl⟩
  have hp : (w.updateAt c id g).pending F = w.pending F := by unfold Sob.pending; rw [hfr.2]
  have hlimit : LimitsRight F (w.updateAt c id g) := by
    unfold LimitsRight; rw [hgap]; exact (h.limitInv hgap).updateAt c id
  refine ⟨hlimit, fun p => (hids p).symm ▸ h.nodup p, fun p b hb => ?_, fun p b hb => ?_,
    h.acting, hfr.2.symm ▸ h.front_le, hp.symm ▸ h.pending_nodup, fun i hi => ?_,
    fun i hi p hm => h.pending_new i (hp ▸ hi) p (hids p ▸ hm)⟩
  · change b.id ≤ (w.updateAt c id g).lastId
    rw [hfr.1]
    rcases hmem p b hb with hb | ⟨b', hb', -, rfl⟩
    · exact h.le_lastId p b hb
    · exact (hid b'.toOrderBndl).trans_le (h.le_lastId p b' hb')
  · rcases hmem p b hb with hb | ⟨b', hb', hid', rfl⟩
    · exact h.noSelf p b hb
    · change (g b'.toOrderBndl).id ∉ _
      rw [hid]
      exact hself p b' hb' hid'
  · change i ≤ (w.updateAt c id g).lastId
    rw [hfr.1]
    exact h.pending_le i (hp ▸ hi)

/-! ## The transitions keep the invariant -/

theorem Ambient.newId (h : Ambient F w) :
    Ambient (F.give (w.lastId + 1)) (w.onSob fun s => { s with lastId := s.lastId + 1 }) := by
  refine ⟨h.limit, h.nodup, fun p b hb => (h.le_lastId p b hb).trans (Nat.le_succ _), h.noSelf,
    h.acting, h.front_le, ?_, ?_, ?_⟩
  · exact List.nodup_cons.mpr ⟨fun hm => absurd (h.pending_le _ hm) (by omega), h.pending_nodup⟩
  · rintro id (_ | ⟨_, hid⟩)
    · exact le_rfl
    · exact (h.pending_le id hid).trans (Nat.le_succ _)
  · rintro id (_ | ⟨_, hid⟩) p hm
    · obtain ⟨b, hb, heq⟩ := List.mem_map.mp hm
      have := h.le_lastId p b hb
      omega
    · exact h.pending_new id hid p hm

theorem Ambient.enqueue (h : Ambient F w) {e : OrderQueueElem} {ids : List Nat}
    (hids : F.ids = e.id :: ids) : Ambient { F with ids := ids }
      (w.onSob fun s => { s with internalOrderQueue := s.internalOrderQueue ++ [e] }) := by
  have hp : List.Perm (Sob.pending { w.toSob with
      internalOrderQueue := w.internalOrderQueue ++ [e] } { F with ids := ids }) (w.pending F) := by
    have hdrop : (w.internalOrderQueue ++ [e]).drop F.front =
        w.internalOrderQueue.drop F.front ++ [e] := List.drop_append_of_le_length h.front_le
    simp only [Sob.pending, hdrop, hids, List.map_append, List.map_cons, List.map_nil,
      List.cons_append, ← List.append_assoc]
    exact List.perm_append_singleton _ _
  exact ⟨h.limit, h.nodup, h.le_lastId, h.noSelf, h.acting, h.front_le.trans (by simp [World.onSob]),
    hp.nodup_iff.mpr h.pending_nodup, fun id hid => h.pending_le id (hp.mem_iff.mp hid),
    fun id hid => h.pending_new id (hp.mem_iff.mp hid)⟩

/-- An exit leg or the other leg of a bracket changes its size. -/
theorem Ambient.resize (h : Ambient F w) (hgap : F.gap = none) (c : ChainIterWrap) (id : Nat)
    {g : OrderBndl → OrderBndl} (hg : ∀ b, g b = { b with sz := (g b).sz }) :
    Ambient F (w.onSob (·.updateAt c id g)) := by
  refine h.updateAt hgap (fun b => by rw [hg]) fun p b hb _ => ?_
  rw [hg]
  exact h.noSelf p b hb

/-- Orders of a level leave it for good. -/
theorem Ambient.setLimits_sublist (h : Ambient F w) (hgap : LimitInv w.limitView) {p : Nat}
    {l l' : List LimitBndl} (hl : w.limits p = some l) (hsub : l'.Sublist l) :
    Ambient { F with gap := some p }
      (w.onSob (·.setLimits p (ChainManager.ofList l'))) := by
  refine h.of_sublist (Open.setLimits_sublist hgap hl hsub) (fun q => ?_) rfl rfl h.acting rfl rfl
  by_cases hq : q = p
  · subst hq; simpa [World.onSob, hl] using hsub
  · simp [World.onSob, hq]

theorem Act.ambient {c c' : Config} (h : Act c c') (ha : Ambient c.1 c.2) :
    Ambient c'.1 c'.2 := by
  cases h with
  | report => exact ha.congr (bookView_report _ _ _ _ _ _ _) rfl rfl rfl ha.acting
  | newId => exact ha.newId
  | enqueue e ids hids => exact (ha.enqueue hids).congr rfl rfl rfl rfl ha.acting
  | @popLimit F w id c b hgap hpull hc hty hb =>
    cases hl : w.limits c.p with
    | none => simp [hl, Chain.findLimit] at hb
    | some l =>
      have hpop := ha.setLimits_sublist (ha.limitInv hgap) hl (Chain.eraseLimit_sublist l id)
      refine hpop.congr ?_ rfl rfl rfl ha.acting
      simp only [World.onSob, Sob.erasedLimit, hl, ChainManager.elems_some]
      rfl
  | @moveFront F w p b bs c hgap hl hb hc =>
    have hcopy : Ambient F ((w.log (.copyBndlToAonChain w.toSob p b (decide (p < w.ask)))).onSob
        (·.copiedToAons (decide (p < w.ask)) p b c)) :=
      ha.congr (bookView_copiedToAons _ _ _ _ _) rfl rfl rfl ha.acting
    have hl' : (w.copiedToAons (decide (p < w.ask)) p b c).limits p = some (b :: bs) :=
      (congrFun (limits_of_bookView (bookView_copiedToAons _ _ _ _ _)) p).trans hl
    have hinv := (hcopy.open hgap).limitInv (ne_of_eq_of_ne hl' (by simp))
    have hmove := hcopy.setLimits_sublist hinv hl' (List.sublist_cons_self b bs)
    rwa [show ({ F with gap := some p } : Flight) = F by rw [← hgap]] at hmove
  | missFront p b bs hgap hl =>
    exact ha.of_sublist ((ha.open hgap).limitInv (by simp [hl])) (fun q => .refl _) rfl rfl
      ha.acting rfl rfl
  | @settle F w p hgap hl =>
    obtain ⟨_, _, _, _, heq⟩ := Exec.Limit.adjustStateAfterPull_eq (decide (p ≤ w.bid)) w.toSob p
    refine ha.of_sublist ((ha.open hgap).adjustStateAfterPull hl) (fun q => ?_) rfl rfl ha.acting
      ?_ ?_
    · simp only [World.onSob, heq]; exact .refl _
    · simp only [World.onSob, heq]
    · simp only [World.onSob, heq]
  | close p hgap hl =>
    exact ha.of_sublist ((ha.open hgap).limitInv hl) (fun q => .refl _) rfl rfl ha.acting rfl rfl
  | popAon => exact ha.congr (bookView_erasedAon _ _ _ _) rfl rfl rfl ha.acting
  | popStop => exact ha.congr (bookView_erasedStop _ _ _) rfl rfl rfl ha.acting
  | pulled => exact ha.congr rfl rfl rfl rfl ha.acting
  | drop => exact ha.congr rfl rfl rfl rfl ha.acting
  | lose => exact ha.congr rfl rfl rfl rfl ha.acting
  | trailingErase => exact ha.congr (bookView_trailing _ _ _).1 rfl rfl rfl ha.acting
  | pullEmptyStop | look => exact ha.congr rfl rfl rfl rfl ha.acting
  | grow params id c a hgap => exact ha.resize hgap c id fun _ => rfl
  | growBoth first second id1 id2 c1 c2 a msg cb id price sz hgap =>
    have h1 := ha.resize hgap c1 id1 (g := incrSize a.amount) fun _ => rfl
    exact (h1.congr (bookView_report _ msg cb id id price sz) rfl rfl rfl ha.acting).resize hgap
      c2 id2 fun _ => rfl
  | tell link c a hgap hact =>
    refine (ha.resize hgap c link.id (g := decrSize a.amount) fun _ => rfl).congr rfl rfl rfl rfl
      fun h a' hh ha' => ?_
    cases ha'
    exact ha.acting h a hh hact

/-- The result of the bulk erase at the end of `_hit_chain`. -/
theorem eraseVisited_suffix (pos : Nat) (l : List LimitBndl) : eraseVisited pos l <:+ l := by
  unfold eraseVisited
  have hs := List.dropWhile_suffix (l := l) (·.id ≠ pos)
  split
  next => exact List.nil_suffix
  next b bs hd =>
    rw [hd] at hs
    split
    · exact (List.suffix_cons b bs).trans hs
    · exact hs

theorem OrderBndl.Settled.refs {b b' : OrderBndl} (h : b.Settled b') :
    b'.payload.refs ⊆ b.payload.refs := by
  cases h with
  | same => exact fun _ hi => hi
  | disarmed | spent => exact List.nil_subset _
  | bracket hp | nticks hp => rw [hp]; exact fun _ hi => hi

/-- Rewriting an order of a limit chain. -/
theorem Ambient.updateLimit (h : Ambient F w) (hgap : F.gap = none) (plev id : Nat)
    {g : OrderBndl → OrderBndl} (hid : ∀ b, (g b).id = b.id)
    (hself : ∀ p, ∀ b ∈ (w.limits p).elems, b.id = id → b.id ∉ (g b.toOrderBndl).payload.refs) :
    Ambient F (w.onSob (·.updateLimit plev id fun b =>
      { b with toOrderBndl := g b.toOrderBndl })) :=
  h.updateAt (c := ⟨.limit, plev⟩) hgap hid hself

/-- The chain of a level is freed and a new best price is found. -/
theorem Ambient.freeLimits (h : Ambient F w) (hgap : F.gap = none) (bidSide : Bool) (p : Nat)
    (hside : if bidSide then p ≤ w.bid else w.ask ≤ p) :
    Ambient { F with hit := none }
      (w.onSob fun s => Exec.Core.findNewBestInside bidSide (s.setLimits p none)) := by
  have hl := (h.limitInv hgap).freeAndFind hside
  obtain ⟨_, _, _, _, heq⟩ := Exec.Core.findNewBestInside_eq bidSide (w.setLimits p none)
  refine h.of_sublist ?_ (fun q => ?_) rfl rfl (fun _ _ hh => by cases hh) ?_ ?_
  · unfold LimitsRight; rw [show ({ F with hit := none } : Flight).gap = none from hgap]; exact hl
  · have hq : (Exec.Core.findNewBestInside bidSide (w.setLimits p none)).limits q =
        (w.setLimits p none).limits q := by rw [heq]; rfl
    simp only [World.onSob, hq, Sob.limits_setLimits]
    split
    · exact List.nil_sublist _
    · exact .refl _
  · simp only [World.onSob, heq]; rfl
  · simp only [World.onSob, heq]; rfl

theorem Move.ambient {c c' : Config} (h : Move c c') (ha : Ambient c.1 c.2) :
    Ambient c'.1 c'.2 := by
  cases h with
  | act h => exact h.ambient ha
  | call => exact ha.congr rfl rfl rfl rfl ha.acting
  | fillAon bidSide plev id size cb b kept bs =>
    refine ha.congr ((bookView_setAons _ _ _ _).trans ?_) rfl rfl rfl ha.acting
    exact bookView_traded _ plev b.sz id b.id cb b.cb
  | fillLastAon bidSide plev id size cb b =>
    refine ha.congr ((bookView_aonAdjust _ _ _).1.trans ((bookView_setAons _ _ _ _).trans ?_))
      rfl rfl rfl ha.acting
    exact bookView_traded _ plev b.sz id b.id cb b.cb
  | freeAon =>
    exact ha.congr ((bookView_aonAdjust _ _ _).1.trans (bookView_setAons _ _ _ _)) rfl rfl rfl
      ha.acting
  | beginHit plev id size hands hh hgap hhit hact =>
    exact ha.congr rfl rfl rfl rfl fun _ _ _ hact' => by rw [hact] at hact'; cases hact'
  | skip h i todo hhit =>
    exact ha.congr rfl rfl rfl rfl fun _ a _ hact => ha.acting h a hhit hact
  | @moveHit F w h id size b c todo hands hgap hact' hh hhit =>
    have hcopy : Ambient F ((w.log (.copyBndlToAonChain w.toSob h.plev b
        (decide (h.plev < w.ask)))).onSob (·.copiedToAons (decide (h.plev < w.ask)) h.plev b c)) :=
      ha.congr (bookView_copiedToAons _ _ _ _ _) rfl rfl rfl ha.acting
    refine (hcopy.updateLimit hgap h.plev b.id (g := fun x => { x with sz := 0 }) (fun _ => rfl)
      fun p x hx _ => hcopy.noSelf p x hx).congr rfl rfl rfl rfl
      fun _ a _ hact => ha.acting h a hhit hact
  | fill h id size cb b todo hands hh hhit htodo hl =>
    refine ha.congr (bookView_traded _ _ _ _ _ _ _) rfl rfl rfl fun _ a _ hact => ?_
    cases hact
    exact ha.noSelf _ b (Chain.findLimit_mem hl).1
  | rearm h a b' hgap hhit hact hb =>
    refine ha.updateLimit hgap h.plev a.bndl.id (g := fun x => { x with
      condition := b'.condition, trigger := b'.trigger, payload := b'.payload }) (fun _ => rfl)
      fun p x hx hid hm => ?_
    exact ha.acting h a hhit hact (hid ▸ hb.refs hm)
  | reduce h a x hgap =>
    refine (ha.updateLimit hgap h.plev a.bndl.id (g := fun x => { x with sz := x.sz - a.amount })
      (fun _ => rfl) fun p x hx _ => ha.noSelf p x hx).congr rfl rfl rfl rfl
      fun _ _ _ hact => by cases hact
  | retire h a x hgap =>
    refine (ha.updateLimit hgap h.plev a.bndl.id (g := fun x => { x with sz := x.sz - a.amount })
      (fun _ => rfl) fun p x hx _ => ha.noSelf p x hx).congr rfl rfl rfl rfl
      fun _ _ _ hact => by cases hact
  | @eraseHit F w h pos l hgap hact hhit hpos hl hspent hne =>
    have hsub := (eraseVisited_suffix pos l).sublist
    refine ha.of_sublist ?_ (fun q => ?_) rfl rfl (fun _ _ hh => by cases hh) rfl rfl
    · unfold LimitsRight
      rw [show ({ F with hit := none } : Flight).gap = none from hgap]
      exact (ha.limitInv hgap).setLimits_some hl hne fun b hb => ⟨b, hsub.subset hb, rfl⟩
    · by_cases hq : q = h.plev
      · subst hq; simpa [World.onSob, hl] using hsub
      · simp [World.onSob, hq]
  | freeHit bidSide h pos l hgap hact hhit hpos hl hspent hne hside => exact ha.freeLimits hgap bidSide _ hside
  | missHit => exact ha.congr rfl rfl rfl rfl fun _ _ hh => by cases hh
  | wipeHit bidSide h s trace hgap hhit hdone htrace hside =>
    exact ha.freeLimits hgap bidSide _ hside
  | moveStop => exact ha.congr (bookView_movedStop _ _ _ _) rfl rfl rfl ha.acting
  | beginScan => exact ha.congr rfl rfl rfl rfl ha.acting
  | turnScan => exact ha.congr rfl rfl rfl rfl ha.acting
  | endScan => exact ha.congr rfl rfl rfl rfl ha.acting
  | detach buyStops plev =>
    exact ha.congr ((bookView_stopAdjust _ _ _).2.2.trans (bookView_setStops _ _ _))
      rfl rfl rfl ha.acting
  | eraseTriggered => exact ha.congr (bookView_trailing _ _ _).1 rfl rfl rfl ha.acting
  | beginTrigger d e todo hdet htodo hact hhit =>
    exact ha.congr rfl rfl rfl rfl fun _ _ hh => by rw [hhit] at hh; cases hh
  | @turn F w d e todo order ids msg hdet htodo hturn hids =>
    obtain ⟨_, _, h⟩ := w.turned_eq msg e d.plev order
    rw [h]
    exact (ha.enqueue hids).congr rfl rfl rfl rfl ha.acting
  | endTrigger => exact ha.congr rfl rfl rfl rfl fun _ _ _ hact => by cases hact
  | endDetached => exact ha.congr rfl rfl rfl rfl ha.acting

theorem Moves.ambient {c c' : Config} (h : Moves c c') (ha : Ambient c.1 c.2) :
    Ambient c'.1 c'.2 := by
  induction h with
  | refl => exact ha
  | tail _ h ih => exact h.ambient ih

/-- An order is no longer waited for, or taken from the queue. -/
theorem Ambient.of_subperm (h : Ambient F w) (hgap : F'.gap = F.gap)
    (hact : ∀ h a, F'.hit = some h → F'.acting = some a → a.bndl.id ∉ a.bndl.payload.refs)
    (hl : w'.limitView = w.limitView) (hi : w'.lastId = w.lastId)
    (hfront : F'.front ≤ w'.internalOrderQueue.length)
    (hsub : List.Subperm (w'.pending F') (w.pending F)) : Ambient F' w' := by
  have hlim : w'.limits = w.limits := congrArg LimitView.limits hl
  have hids : w'.limitIds = w.limitIds := by funext p; unfold Sob.limitIds; rw [hlim]
  have hnodup : (w'.pending F').Nodup := by
    obtain ⟨l, hperm, hl⟩ := hsub
    exact hperm.nodup_iff.mp (h.pending_nodup.sublist hl)
  refine ⟨?_, hids ▸ h.nodup, ?_, ?_, hact, hfront, hnodup, ?_, ?_⟩
  · have hr := h.limit
    unfold LimitsRight at hr ⊢
    rw [hgap]
    split
    next hg => rw [hg] at hr; exact hl ▸ hr
    next p hg => rw [hg] at hr; exact hr.congr hl
  · rw [hlim, hi]; exact h.le_lastId
  · rw [hlim]; exact h.noSelf
  · rw [hi]; exact fun id hid => h.pending_le id (hsub.subset hid)
  · rw [hids]; exact fun id hid => h.pending_new id (hsub.subset hid)

theorem Ambient.beginOrder (h : Ambient F w) {ie : OrderQueueElem} {queue : List OrderQueueElem}
    (hfront : F.front = 0) (hq : w.internalOrderQueue = ie :: queue) :
    Ambient { F with front := 1, ids := if ie.id = 0 then F.ids else ie.id :: F.ids } w := by
  refine h.of_subperm rfl h.acting rfl rfl (by simp [hq]) ?_
  simp only [Sob.pending, hq, hfront, List.drop_zero, List.drop_one, List.tail_cons, List.map_cons]
  split
  · exact (List.append_sublist_append_left F.ids).mpr (List.sublist_cons_self _ _) |>.subperm
  · exact (@List.perm_middle _ _ F.ids _).symm.subperm

theorem Ambient.forget (h : Ambient F w) {id : Nat} {ids : List Nat} (hids : F.ids = id :: ids) :
    Ambient { F with ids := ids } w := by
  refine h.of_subperm rfl h.acting rfl rfl h.front_le ?_
  simp only [Sob.pending, hids, List.cons_append]
  exact (List.sublist_cons_self _ _).subperm

theorem waiting_limitPush (s : Sob) (buy : Bool) (p : Nat) (b : LimitBndl) :
    (Chain.limitPush buy s p b).lastId = s.lastId ∧
      (Chain.limitPush buy s p b).internalOrderQueue = s.internalOrderQueue := by
  unfold Chain.limitPush Sob.cacheEmplace Exec.Limit.adjustStateAfterInsert
  dsimp only
  split <;> split <;> exact ⟨rfl, rfl⟩

theorem Ambient.pushLimit (h : Ambient F w) {buy : Bool} {p : Nat} {b : LimitBndl}
    {ids : List Nat} (hgap : F.gap = none) (hids : F.ids = b.id :: ids) (hp : beg ≤ p)
    (hpe : p < w.end_) (hs : if buy then p < w.ask else w.bid < p) (hside : b.side = buy)
    (hpay : b.payload = .null) :
    Ambient { F with ids := ids } (w.onSob fun s => Chain.limitPush buy s p b) := by
  have hnew : b.id ∈ w.pending F := by simp [Sob.pending, hids]
  have hl := (h.limitInv hgap).limitPush hp hpe hs hside
  have hlim : ∀ q, (Chain.limitPush buy w.toSob p b).limits q =
      if q = p then (w.limits p).push b else w.limits q := fun q =>
    congrFun (congrArg LimitView.limits (limitView_limitPush w.toSob buy p b)) q
  have hmem : ∀ q, ∀ x ∈ ((Chain.limitPush buy w.toSob p b).limits q).elems,
      x ∈ (w.limits q).elems ∨ x = b := fun q x hx => by
    rw [hlim] at hx
    split at hx
    next hq => subst hq; simpa using hx
    next => exact .inl hx
  have hview := waiting_limitPush w.toSob buy p b
  have hsub : (Chain.limitPush buy w.toSob p b).pending { F with ids := ids } =
      ids ++ (w.internalOrderQueue.drop F.front).map (·.id) := by
    unfold Sob.pending; rw [hview.2]
  have hold : w.pending F = b.id :: (Chain.limitPush buy w.toSob p b).pending
      { F with ids := ids } := by rw [hsub]; simp [Sob.pending, hids]
  have hnodup := h.pending_nodup
  rw [hold] at hnodup
  obtain ⟨hfresh, hnodup⟩ := List.nodup_cons.mp hnodup
  refine ⟨?_, fun q => ?_, fun q x hx => ?_, fun q x hx => ?_, h.acting,
    hview.2.symm ▸ h.front_le, hnodup, fun i hi => ?_, fun i hi q hm => ?_⟩
  · unfold LimitsRight
    rw [show ({ F with ids := ids } : Flight).gap = none from hgap]
    exact hl
  · change (((Chain.limitPush buy w.toSob p b).limits q).elems.map (·.id)).Nodup
    rw [hlim]
    split
    next hq =>
      subst hq
      have := h.nodup q
      rw [ChainManager.elems_push, List.map_append, List.nodup_append]
      refine ⟨this, by simp, fun a ha c hc => ?_⟩
      simp only [List.map_cons, List.map_nil, List.mem_singleton] at hc
      exact fun heq => h.pending_new b.id hnew q (hc ▸ heq ▸ ha)
    next => exact h.nodup q
  · change x.id ≤ (Chain.limitPush buy w.toSob p b).lastId
    rw [hview.1]
    rcases hmem q x hx with hx | rfl
    · exact h.le_lastId q x hx
    · exact h.pending_le x.id hnew
  · rcases hmem q x hx with hx | rfl
    · exact h.noSelf q x hx
    · rw [hpay]; exact List.not_mem_nil
  · change i ≤ (Chain.limitPush buy w.toSob p b).lastId
    rw [hview.1]
    exact h.pending_le i (hold ▸ List.mem_cons_of_mem _ hi)
  · obtain ⟨x, hx, rfl⟩ := List.mem_map.mp hm
    rcases hmem q x hx with hx | rfl
    · exact h.pending_new x.id (hold ▸ List.mem_cons_of_mem _ hi) q (List.mem_map_of_mem hx)
    · exact hfresh hi

theorem Ambient.armed (h : Ambient F w) (hgap : F.gap = none) (c : ChainIterWrap) (id : Nat)
    (condition : OrderCondition) (trigger : ConditionTrigger) {payload : Payload}
    (hself : ∀ p, id ∈ w.limitIds p → id ∉ payload.refs) :
    Ambient F (w.onSob (·.armed c id condition trigger payload)) :=
  h.updateAt hgap (fun _ => rfl) fun p _ hb hid =>
    hid ▸ hself p (hid ▸ List.mem_map_of_mem hb)

theorem Step.ambient {c c' : Config} (h : Step c c') (ha : Ambient c.1 c.2) :
    Ambient c'.1 c'.2 := by
  cases h with
  | act h => exact h.ambient ha
  | trade bidSide plev id size r cb hF hp hpe hrun hm => exact hm.ambient ha
  | beginOrder ie queue hfront hq => exact ha.beginOrder hfront hq
  | @endOrder F w hfront =>
    refine ha.of_subperm rfl ha.acting rfl rfl (Nat.zero_le _) ?_
    simpa [Sob.pending, World.onSob, hfront, List.drop_one] using List.Subperm.refl _
  | accept => exact ha.congr rfl rfl rfl rfl ha.acting
  | addLeg => exact ha.congr rfl rfl rfl rfl ha.acting
  | finish => exact ha.congr rfl rfl rfl rfl ha.acting
  | forget id ids hids => exact ha.forget hids
  | kill => exact ha.congr (bookView_report _ _ _ _ _ _ _) rfl rfl rfl ha.acting
  | print => exact ha.congr (bookView_traded _ _ _ _ _ _ _) rfl rfl rfl ha.acting
  | pushLimit buy p b hands ids hgap hh hids hsz hp hpe hs hside hpay =>
    exact (ha.pushLimit hgap hids hp hpe hs hside hpay).congr rfl rfl rfl rfl ha.acting
  | pushAon buy p b hands ids hh hids =>
    exact (ha.forget hids).congr (bookView_aonPush _ _ _ _) rfl rfl rfl ha.acting
  | pushStop p b hands ids hh hids =>
    exact (ha.forget hids).congr (bookView_stopPush _ _ _) rfl rfl rfl ha.acting
  | arm e id c payload hgap he hl hc hcond =>
    refine ha.armed hgap c id e.condition e.trigger fun p _ hm => ?_
    rcases hcond with ⟨-, op, -, rfl⟩ | ⟨-, hpay, -⟩
    · cases hm
    · rw [hpay] at hm; cases hm
  | link e op id1 id2 c1 c2 hgap he hcond hop hl1 hl2 hc1 hc2 hne =>
    refine ((ha.armed hgap c1 id1 e.condition e.trigger fun p _ => ?_).armed hgap c2 id2
      e.condition e.trigger fun p _ => ?_).congr rfl rfl rfl rfl ha.acting
    · simpa [Payload.refs] using hne
    · simpa [Payload.refs] using hne.symm
  | @openLoss F w e l c p b nticks1 nticks2 ids hgap he hl hids =>
    have hself : ∀ q, l.id ∈ w.limitIds q →
        l.id ∉ (Payload.linkedOrder ⟨b.id, false, nticks1⟩).refs := fun q hq hm => by
      have heq : l.id = b.id := by simpa [Payload.refs] using hm
      exact ha.pending_new b.id (by simp [Sob.pending, hids]) q (heq ▸ hq)
    have harm := ha.armed hgap c l.id e.condition e.trigger hself
    exact (harm.forget hids).congr (bookView_stopPush _ _ _) rfl rfl rfl ha.acting
  | announce => exact ha.congr rfl rfl rfl rfl ha.acting
  | trailingInsert id isBuy nticks =>
    exact ha.congr (bookView_trailing _ _ _).2 rfl rfl rfl ha.acting
  | tellEntry e id c payload hgap he hcond hc hpay hself =>
    refine ha.updateAt hgap (fun _ => rfl) fun p x hx hid => hid.symm ▸ hself p ?_
    exact hid ▸ List.mem_map_of_mem hx

theorem Steps.ambient {c c' : Config} (h : Steps c c') (ha : Ambient c.1 c.2) :
    Ambient c'.1 c'.2 := by
  induction h with
  | refl => exact ha
  | tail _ h ih => exact h.ambient ih

end Ambient

end SimpleOrderbook
