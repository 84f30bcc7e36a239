import SimpleOrderbook.Inserting

/-!
# Windows

How the window of a request closes: the transitions made in it, and the growth of the book. An
invariant of the transitions that survives both holds at the end of every window of every run.
-/
namespace SimpleOrderbook

open Hoare

/-- Between two windows nothing is under way; `qe` is the order the next one is opened for. -/
def Flight.opened (qe : Option OrderQueueElem) : Flight := { ext := qe }

theorem Flight.idle_opened (qe : Option OrderQueueElem) : (Flight.opened qe).Idle :=
  ⟨⟨rfl, rfl, rfl, rfl, rfl, rfl, rfl⟩, rfl, rfl, rfl, rfl⟩

/-- The order, if any, that request `r` inserts when its window is opened in state `s`. -/
def Request.Opens (r : Request) (s : Sob) (qe : Option OrderQueueElem) : Prop :=
  ∀ e, qe = some e → ∃ ee, r.action = .ok (.external ee) ∧ orderQueueElem s ee = .ok e

/-- The window of the request hands its client the callbacks that are due. -/
def Request.isSync (r : Request) : Bool :=
  match r.action with
  | .ok (.external ee) => ee.cb.cbType = .synchronous
  | _ => false

/-- How the window of request `r`, opened in `w`, closes. -/
inductive Closes (r : Request) (w : World) : Outcome → World → Prop where
  | refused {err : Err} : Closes r w (.exception err) w
  | rejected {err : Err} (ee : ExternalOrderQueueElem) (hee : orderQueueElem w.toSob ee = .error err) :
      Closes r w (.exception err)
        { w with internalOrderQueue := [], trace := .dropped w.internalOrderQueue :: w.trace }
  | grown {s : Sob} (f : Sob → Except Err Sob) (hact : r.action = .ok (.grow f))
      (hs : f w.toSob = .ok s) : Closes r w (.value 0 []) { w with toSob := s }
  | value {qe : Option OrderQueueElem} {ret : Nat} {copies : List DfrdCbElem} {w' : World}
      (hqe : r.Opens w.toSob qe)
      (hs : Steps (.opened qe, w) (.opened qe, w')) (hq : w'.internalOrderQueue = [])
      (cbs : List DfrdCbElem) (hcbs : if r.isSync then copies = w'.callbacksSync ∧ cbs = []
        else copies = [] ∧ cbs = w'.callbacksSync) :
      Closes r w (.value ret copies) { w' with callbacksSync := cbs }
  | left {qe : Option OrderQueueElem} {err : Err} {w' : World} (hqe : r.Opens w.toSob qe)
      (hs : Leaves (.opened qe, w) err w') (herr : err ≠ .undefinedBehaviour) :
      Closes r w (.exception err)
        { w' with internalOrderQueue := [], trace := .dropped w'.internalOrderQueue :: w'.trace }

/-! ## The window of an external order -/

/-- Without an order that acts or is inserted nothing is generated. -/
theorem Acts.queue_eq {c c' : Config} (h : Acts c c') (hact : c.1.acting = none)
    (hcur : c.1.cur = none) : c'.2.internalOrderQueue = c.2.internalOrderQueue := by
  suffices c'.2.internalOrderQueue = c.2.internalOrderQueue ∧ c'.1.acting = none ∧
      c'.1.cur = none from this.1
  induction h with
  | refl => exact ⟨rfl, hact, hcur⟩
  | tail _ h ih =>
    obtain ⟨hq, ha, hc⟩ := ih
    have hview : ∀ {s s' : Sob}, s'.bookView = s.bookView →
        s'.internalOrderQueue = s.internalOrderQueue := fun h => congrArg (·.2.2.1) h
    cases h with
    | report => exact ⟨(hview (bookView_report _ _ _ _ _ _ _)).trans hq, ha, hc⟩
    | enqueue e ids hids hgen =>
      rcases hgen.size with ⟨a, ha', -⟩ | ⟨e', hc', -⟩
      · exact absurd (ha'.symm.trans ha) (by simp)
      · exact absurd (hc'.symm.trans hc) (by simp)
    | @moveFront F w p b bs cw =>
      exact ⟨(hview (bookView_copiedToAons w.toSob (decide (p < w.ask)) p b cw)).trans hq, ha, hc⟩
    | @settle F w p =>
      obtain ⟨_, _, _, _, heq⟩ := Exec.Limit.adjustStateAfterPull_eq (decide (p ≤ w.bid)) w.toSob p
      rw [World.toSob_onSob, heq]
      exact ⟨hq, ha, hc⟩
    | popAon => exact ⟨(hview (bookView_erasedAon _ _ _ _)).trans hq, ha, hc⟩
    | popStop => exact ⟨(hview (bookView_erasedStop _ _ _)).trans hq, ha, hc⟩
    | trailingErase => exact ⟨(hview (bookView_trailing _ _ _).1).trans hq, ha, hc⟩
    | grow _ _ _ _ _ ha' => exact absurd (ha'.symm.trans ha) (by simp)
    | growBoth _ _ _ _ _ _ _ _ _ _ _ _ _ ha' => exact absurd (ha'.symm.trans ha) (by simp)
    | tell _ _ _ _ ha' => exact absurd (ha'.symm.trans ha) (by simp)
    | _ => exact ⟨hq, ha, hc⟩

section Window
variable {c₀ : Config} {F : Flight} {w : World}

/-- The loop over the internal orders. -/
theorem Steps.drainInternalOrders (h0 : WellFormed c₀) (hF : F.Idle) (hfront : F.front = 0)
    (hids : F.ids = []) (fuel : Nat) : ∀ {w : World}, Steps c₀ (F, w) →
      wp (drainInternalOrders fuel) (fun r w' => r = some () →
        Steps c₀ (F, w') ∧ w'.internalOrderQueue = []) (Leaves c₀) w := by
  induction fuel with
  | zero =>
    intro w h
    refine wp_getSob_bind (wp_ite (fun hq => wp_pure fun _ => ⟨h, List.isEmpty_iff.mp hq⟩)
      fun _ => wp_pure fun hr => by cases hr)
  | succ fuel ih =>
    intro w h
    unfold SimpleOrderbook.drainInternalOrders
    refine wp_getSob_bind ?_
    split
    next hq => exact wp_pure fun _ => ⟨h, hq⟩
    next ie queue hq =>
      let F1 : Flight := { F with front := 1 }
      have hF1 : F1.Idle := ⟨⟨hF.gap, hF.hit, hF.acting, hF.scan, hF.detached, hF.leaving, hF.arriving⟩,
        hF.hands, hF.cur, hF.legs, hF.exits⟩
      have hbegin := h.step (.beginOrder ie queue hfront hq hF.cur)
      refine wp.bind (R := fun id w' => Steps c₀ (F1.give id, w') ∧
        w'.internalOrderQueue = ie :: queue ∧ (ie.id ≠ 0 → ie.id = id)) (wp_ite (fun hz => ?_)
          fun hz => wp_pure ⟨?_, hq, fun _ => rfl⟩) ?_
      · rw [if_pos hz] at hbegin
        exact wp_generateId_bind (f := pure) (wp_pure ⟨hbegin.step (.act .newId), hq, fun hne => absurd hz hne⟩)
      · rwa [if_neg hz] at hbegin
      · intro id w1 ⟨h1, hq1, hid⟩
        refine wp.bind (R := fun _ w' => Steps c₀ (F1, w')) (wp.discard (Steps.insertOrder
          (e := { ie with id := id }) h0 hF1 h1 (fun h => by cases h) (fun _ => ⟨ie, queue, hq1, rfl⟩)
            fun _ e' he' => ?_)) fun _ w2 h2 => wp_modifySob_bind ?_
        · rw [hq1] at he'
          cases he'
          exact hid
        have hend := h2.step (.endOrder rfl hids)
        rw [show { F1 with front := 0 } = F by rw [← hfront]] at hend
        exact ih hend

/-- The window of an order to insert. -/
theorem Steps.insertExternal (h0 : WellFormed c₀) {qe : OrderQueueElem} (fuel : Nat)
    (h : Steps c₀ (.opened (some qe), w)) :
    wp (do
      let ret ← insertExternalOrder qe
      return (← SimpleOrderbook.drainInternalOrders fuel).map fun _ => ret) (fun r w' => r ≠ none →
        Steps c₀ (.opened (some qe), w') ∧ w'.internalOrderQueue = []) (Leaves c₀) w := by
  have hF := Flight.idle_opened (some qe)
  refine wp.bind (R := fun _ w' => Steps c₀ (.opened (some qe), w')) ?_ fun ret w1 h1 => ?_
  · refine wp_generateId_bind ?_
    exact (h.step (.act .newId)).insertOrder (e := { qe with id := _ }) h0 hF
      (fun _ => ⟨qe, rfl, rfl⟩) (fun hne => absurd rfl hne) fun hne => absurd rfl hne
  · refine (h1.drainInternalOrders h0 hF rfl rfl fuel).bind fun r w2 h2 => wp_pure fun hr => ?_
    cases r with
    | none => exact absurd rfl hr
    | some _ => exact h2 rfl

/-- `_execute_external_order`: the window ends with a value after its queue was drained, or is left by
an exception. -/
theorem wp_executeExternalOrder {r : Request} {ee : ExternalOrderQueueElem}
    (hact : r.action = .ok (.external ee)) (h0 : ∀ qe, WellFormed (.opened qe, w))
    (hq : w.internalOrderQueue = []) (fuel : Nat) :
    wp (executeExternalOrder fuel ee) (fun ret w' => ret ≠ none → ∃ qe, r.Opens w.toSob qe ∧
        Steps (.opened qe, w) (.opened qe, w') ∧ w'.internalOrderQueue = [])
      (fun err w' => (∃ qe, r.Opens w.toSob qe ∧ Leaves (.opened qe, w) err w') ∨
        w' = w ∧ orderQueueElem w.toSob ee = .error err) w := by
  have hpull : ∀ qe, wp (pullOrder ee.id) (fun _ w' => Steps (.opened qe, w) (.opened qe, w') ∧
      w'.internalOrderQueue = []) (fun err w' => (∃ qe, r.Opens w.toSob qe ∧
        Leaves (.opened qe, w) err w') ∨ w' = w ∧ orderQueueElem w.toSob ee = .error err) w := by
    intro qe
    refine (Acts.pullOrder (.refl (a := (.opened qe, w))) rfl rfl ee.id).mono ?_ ?_
    · exact fun _ w' h => ⟨.acts .refl h, (h.queue_eq rfl rfl).trans hq⟩
    · rintro _ w' rfl
      have hqe : r.Opens w.toSob none := fun _ h => by cases h
      exact .inl ⟨none, hqe, .undefined⟩
  unfold executeExternalOrder
  refine wp_ite (fun _ => ?_) fun _ => wp_getSob_bind ?_
  · have hqe : r.Opens w.toSob none := fun _ h => by cases h
    refine (hpull none).bind fun ok w1 h1 => wp_ite (fun _ => ?_) fun _ => wp_pure fun _ => ?_
    · refine wp.bind ((Steps.drainInternalOrders (h0 none) (Flight.idle_opened none) rfl rfl fuel
        h1.1).mono (fun _ _ hr => hr) fun err w' he => .inl ⟨none, hqe, he⟩) fun ret w2 h2 =>
          wp_pure fun hr => ⟨none, hqe, ?_⟩
      cases ret with
      | none => exact absurd rfl hr
      | some _ => exact h2 rfl
    · exact ⟨none, hqe, h1⟩
  · split
    next err he => exact wp_throw (.inr ⟨rfl, he⟩)
    next qe he =>
      have hqe : r.Opens w.toSob (some qe) := fun e h => by cases h; exact ⟨ee, hact, he⟩
      have hins : ∀ {w'}, Steps (.opened (some qe), w) (.opened (some qe), w') →
          wp (do
            let ret ← insertExternalOrder qe
            return (← SimpleOrderbook.drainInternalOrders fuel).map fun _ => ret)
            (fun ret w' => ret ≠ none → ∃ qe, r.Opens w.toSob qe ∧
              Steps (.opened qe, w) (.opened qe, w') ∧ w'.internalOrderQueue = [])
            (fun err w' => (∃ qe, r.Opens w.toSob qe ∧ Leaves (.opened qe, w) err w') ∨
              w' = w ∧ orderQueueElem w.toSob ee = .error err) w' := fun h =>
        (h.insertExternal (h0 _) fuel).mono (fun ret w' hq hr => ⟨some qe, hqe, hq hr⟩)
          fun err w' he => .inl ⟨some qe, hqe, he⟩
      refine wp_ite (fun _ => ?_) fun _ => hins .refl
      exact (hpull (some qe)).bind fun ok w1 h1 => wp_ite (fun _ => hins h1.1)
        fun _ => wp_pure fun _ => ⟨some qe, hqe, h1⟩

end Window

/-! ## How a window closes -/

theorem Window.closes {r : Request} {w w' : World} {o : Outcome} (h : Window r w o w')
    (h0 : ∀ qe, WellFormed (.opened qe, w)) (hq : w.internalOrderQueue = []) :
    Closes r w o w' := by
  obtain ⟨fuel, h⟩ := h
  unfold Request.exec at h
  split at h
  next err ha => cases h; exact .refused
  next ee ha =>
    have hwp := wp_executeExternalOrder ha h0 hq fuel
    unfold dispatchExternalOrder at h
    split at h
    next => cases h
    next ret w1 hm =>
      obtain ⟨qe, hqe, hs, hq1⟩ := hwp.ok hm (by simp)
      split at h
      next hty =>
        cases h
        exact .value hqe hs hq1 [] (by simp [Request.isSync, ha, hty])
      next hty =>
        cases h
        exact .value hqe hs hq1 w'.callbacksSync (by simp [Request.isSync, ha, hty])
    next => cases h
    next err w1 hne hm =>
      rcases hwp.error hm with ⟨qe, hqe, hs⟩ | ⟨rfl, he⟩
      · cases h; exact .left hqe hs (fun he => hne (he ▸ rfl))
      · cases h; exact .rejected ee he
  next f ha =>
    split at h
    next => cases h; exact .refused
    next s hs => cases h; exact .grown f ha hs

/-! ## Growing the book -/

/-- The limit side after `incr` levels were added, `off` of them below. -/
def LimitView.grown (v : LimitView) (off incr : Nat) : LimitView where
  limits := fun p => if p < off then none else v.limits (p - off)
  bid := if v.bid = 0 then 0 else v.bid + off
  ask := if v.ask = v.end_ then v.end_ + incr else v.ask + off
  lowBuyLimit := if v.lowBuyLimit = v.end_ then v.end_ + incr else v.lowBuyLimit + off
  highSellLimit := if v.highSellLimit = 0 then 0 else v.highSellLimit + off
  end_ := v.end_ + incr

theorem LimitInv.grown {v : LimitView} {off incr : Nat} (h : LimitInv v) (hoff : off ≤ incr) :
    LimitInv (v.grown off incr) := by
  have hlt := h.bid_lt_ask
  have hle := h.ask_le_end
  -- a level with a chain is a level of the old book, moved
  have hold : ∀ p, (v.grown off incr).limits p ≠ none →
      off < p ∧ p - off < v.end_ ∧ v.limits (p - off) ≠ none := fun p hp => by
    unfold LimitView.grown at hp
    dsimp only at hp
    split at hp
    · exact absurd rfl hp
    · have hpad : p - off ≠ 0 := fun h0 => hp (h0 ▸ h.pad)
      exact ⟨by omega, not_le.mp fun hge => hp (h.top _ hge), hp⟩
  refine ⟨⟨?_, ?_, ?_, ?_, ?_, ?_, ?_⟩, ⟨?_, ?_⟩, ⟨?_, ?_⟩⟩
  · unfold LimitView.grown
    dsimp only
    split <;> split <;> omega
  · unfold LimitView.grown
    dsimp only
    split <;> omega
  · intro p hp
    obtain ⟨hpos, htop, hne⟩ := hold p hp
    unfold LimitView.grown
    dsimp only
    rcases h.window _ hne with hw | hw
    · refine .inl ⟨?_, ?_⟩ <;> split <;> omega
    · refine .inr ⟨?_, ?_⟩ <;> split <;> omega
  · intro p b hb
    have hne : (v.grown off incr).limits p ≠ none := fun hn => by simp [hn] at hb
    obtain ⟨hpos, htop, -⟩ := hold p hne
    have hb' : b ∈ (v.limits (p - off)).elems := by
      unfold LimitView.grown at hb
      dsimp only at hb
      rwa [if_neg (by omega)] at hb
    have hside := h.side _ b hb'
    cases hs : b.side
    · rw [hs, if_neg Bool.false_ne_true] at hside
      refine (if_neg Bool.false_ne_true).mpr ?_
      unfold LimitView.grown
      dsimp only
      split <;> omega
    · rw [hs, if_pos rfl] at hside
      refine (if_pos rfl).mpr ?_
      unfold LimitView.grown
      dsimp only
      split <;> omega
  · intro p
    unfold LimitView.grown
    dsimp only
    split
    · simp
    · exact h.nonempty _
  · unfold LimitView.grown
    dsimp only
    split
    · rfl
    · rw [Nat.zero_sub]
      exact h.pad
  · intro p hp
    unfold LimitView.grown at hp ⊢
    dsimp only at hp ⊢
    rw [if_neg (by omega)]
    exact h.top _ (by omega)
  · unfold LimitView.grown
    dsimp only
    intro hpos
    split at hpos
    · omega
    next hne =>
      rw [if_neg hne, if_neg (by omega), Nat.add_sub_cancel]
      exact h.bestBid.1 (Nat.pos_of_ne_zero hne)
  · unfold LimitView.grown
    dsimp only
    intro h0
    have h0' : v.bid = 0 := by split at h0 <;> omega
    rw [if_pos (h.bestBid.2 h0')]
  · unfold LimitView.grown
    dsimp only
    intro hask
    split at hask
    · omega
    next hne =>
      rw [if_neg hne, if_neg (by omega), Nat.add_sub_cancel]
      exact h.bestAsk.1 (by omega)
  · unfold LimitView.grown
    dsimp only
    intro heq
    have heq' : v.ask = v.end_ := by
      split at heq
      next he => exact he
      next hne => omega
    rw [if_pos (h.bestAsk.2 heq')]

section Grow
variable {s : Sob} {base : Int} {incr : Nat} {atBeg : Bool}

/-- How far a level moves when the book grows. -/
def growOffset (incr : Nat) (atBeg : Bool) : Nat := if atBeg then incr else 0

theorem growOffset_le : growOffset incr atBeg ≤ incr := by
  unfold growOffset
  split <;> omega

/-- The book after it grew by `incr` levels. -/
theorem growBook_of_ne (hincr : incr ≠ 0) : growBook base incr atBeg s = resetInternalPointers
    { s with base := base, book := fun p =>
        if p < growOffset incr atBeg then {} else s.book (p - growOffset incr atBeg) }
    incr atBeg := by
  unfold growBook growOffset
  rw [if_neg hincr]
  cases atBeg <;> simp

theorem limitView_growBook (hincr : incr ≠ 0) : (growBook base incr atBeg s).limitView =
    s.limitView.grown (growOffset incr atBeg) incr := by
  rw [growBook_of_ne hincr]
  unfold Sob.limitView LimitView.grown Sob.limits
  congr 1
  funext p
  unfold resetInternalPointers
  dsimp only
  split <;> rfl

theorem aons_growBook (hincr : incr ≠ 0) (buys : Bool) (p : Nat) :
    (growBook base incr atBeg s).aons buys p =
      if p < growOffset incr atBeg then none else s.aons buys (p - growOffset incr atBeg) := by
  rw [growBook_of_ne hincr]
  unfold Sob.aons resetInternalPointers
  dsimp only
  split
  · cases buys <;> rfl
  · rfl

theorem end_growBook (hincr : incr ≠ 0) : (growBook base incr atBeg s).end_ = s.end_ + incr := by
  rw [growBook_of_ne hincr]
  rfl

/-- A growth above moves no level; one below moves all of them by the new levels. -/
theorem WellFormed.growBook {qe : Option OrderQueueElem} {w : World}
    (h : WellFormed (.opened qe, w)) (base : Int) (incr : Nat) (atBeg : Bool) :
    WellFormed (.opened qe, { w with toSob := growBook base incr atBeg w.toSob }) := by
  by_cases hincr : incr = 0
  · unfold SimpleOrderbook.growBook
    rw [if_pos hincr]
    exact h
  have hview : (SimpleOrderbook.growBook base incr atBeg w.toSob).limitView = _ :=
    limitView_growBook hincr
  have hlimits : ∀ p, (SimpleOrderbook.growBook base incr atBeg w.toSob).limits p =
      if p < growOffset incr atBeg then none else w.limits (p - growOffset incr atBeg) :=
    congrFun (congrArg LimitView.limits hview)
  have hrest : (SimpleOrderbook.growBook base incr atBeg w.toSob).lastId = w.lastId ∧
      (SimpleOrderbook.growBook base incr atBeg w.toSob).internalOrderQueue =
        w.internalOrderQueue := by
    rw [growBook_of_ne hincr]
    exact ⟨rfl, rfl⟩
  have hpending : (SimpleOrderbook.growBook base incr atBeg w.toSob).pending (.opened qe) =
      w.pending (.opened qe) := by
    unfold Sob.pending
    rw [hrest.2]
  have hend : (SimpleOrderbook.growBook base incr atBeg w.toSob).end_ = w.end_ + incr :=
    end_growBook hincr
  have ha := h.ambient
  -- what holds of every old chain and of no chain holds of every new one
  have hlift : ∀ {P : ChainManager LimitBndl → Prop}, P none → (∀ p, P (w.limits p)) →
      ∀ p, P ((SimpleOrderbook.growBook base incr atBeg w.toSob).limits p) := fun hn hall p => by
    rw [hlimits]
    split
    · exact hn
    · exact hall _
  constructor
  · refine ⟨?_, hlift (P := fun c => (c.elems.map fun b : LimitBndl => b.id).Nodup) List.nodup_nil ha.nodup,
      hlift (P := fun c => ∀ b ∈ c.elems, b.id ≤ _) (fun _ hb => by cases hb) fun p b hb =>
        (ha.le_lastId p b hb).trans_eq hrest.1.symm,
      hlift (P := fun c => ∀ b ∈ c.elems, b.id ∉ b.payload.refs) (fun _ hb => by cases hb)
        ha.noSelf, ha.acting, ?_, ?_, ?_, ?_⟩
    · change LimitInv (SimpleOrderbook.growBook base incr atBeg w.toSob).limitView
      rw [hview]
      exact (ha.limitInv rfl).grown growOffset_le
    · exact Nat.zero_le _
    · exact hpending ▸ ha.pending_nodup
    · exact fun id hid => (ha.pending_le id (hpending ▸ hid)).trans_eq hrest.1.symm
    · exact fun id hid => hlift (P := fun c => id ∉ c.elems.map fun b : LimitBndl => b.id) List.not_mem_nil
        (ha.pending_new id (hpending ▸ hid))
  · intro buys p hp
    change (SimpleOrderbook.growBook base incr atBeg w.toSob).aons buys p ≠ none at hp
    change beg ≤ p ∧ p < (SimpleOrderbook.growBook base incr atBeg w.toSob).end_
    rw [aons_growBook hincr] at hp
    have hoff : growOffset incr atBeg ≤ incr := growOffset_le
    split at hp
    · exact absurd rfl hp
    · have hold : beg ≤ p - growOffset incr atBeg ∧ p - growOffset incr atBeg < w.end_ :=
        h.aons _ _ hp
      omega
  · exact h.levels.trans_le (hend ▸ Nat.le_add_right _ _)

end Grow

/-- The functions a request grows the book with: the new levels come at the end the base says. -/
theorem Request.grow_eq {r : Request} {f : Sob → Except Err Sob} (hact : r.action = .ok (.grow f))
    {s s' : Sob} (hs : f s = .ok s') : ∃ base incr atBeg,
      (incr ≠ 0 → base = s.base - growOffset incr atBeg) ∧ s' = growBook base incr atBeg s := by
  have hself : ∃ base incr atBeg, (incr ≠ 0 → base = s.base - growOffset incr atBeg) ∧
      s = growBook base incr atBeg s := ⟨0, 0, true, fun h => absurd rfl h, rfl⟩
  have hcond : ∀ (d b : Int) (a : Bool), (d > 0 → b = s.base - growOffset d.toNat a) →
      ∃ base incr atBeg, (incr ≠ 0 → base = s.base - growOffset incr atBeg) ∧
        (if d > 0 then growBook b d.toNat a s else s) = growBook base incr atBeg s :=
    fun d b a hb => by
      split
      next hd => exact ⟨b, d.toNat, a, fun _ => hb hd, rfl⟩
      next => exact hself
  cases r with
  | growBookAbove newMax =>
    cases hact
    unfold SimpleOrderbook.growBookAbove at hs
    dsimp only at hs
    split at hs
    · cases hs
    · cases hs
      exact hcond _ _ _ fun _ => by simp [growOffset]
  | growBookBelow newMin =>
    cases hact
    unfold SimpleOrderbook.growBookBelow at hs
    split at hs
    · cases hs
      exact hself
    · by_cases hd : s.base - (if newMin < 1 then 1 else newMin) > longMax
      · rw [if_pos hd] at hs
        cases hs
      · rw [if_neg hd] at hs
        cases hs
        refine hcond _ _ _ fun hpos => ?_
        rw [growOffset, if_pos rfl, Int.toNat_of_nonneg (le_of_lt hpos)]
        omega
  | _ =>
    simp only [Request.action, bind, Except.bind] at hact
    repeat' split at hact
    all_goals cases hact

end SimpleOrderbook
