import SimpleOrderbook.AonBuyMatching

/-!
# Resting all-or-none buys

In runs whose all-or-none orders are buys, none of them rests while the sell orders at its level and
below would fill it.
-/
namespace SimpleOrderbook

open Hoare

/-! ## Windows -/

/-- No AON buy could be filled, in a book that is in order. -/
def World.Guarded (w : World) : Prop := w.Arranged ∧ w.Uncovered

/-- An exception leaves the book guarded; there is no state after undefined behaviour. -/
def LeavesGuarded (err : Err) (w : World) : Prop := err = .undefinedBehaviour ∨ w.Guarded

section Window
variable {c₀ : Config} {F : Flight} {w w' : World}

theorem World.Guarded.relieved (h : w.Guarded) (hr : Relieved w w') : w'.Guarded :=
  ⟨hr.arranged, hr.eased.uncovered h.2⟩

/-- Fields that no chain depends on changed. -/
theorem World.Guarded.of_files (h : w.Guarded) (hf : w'.files = w.files)
    (ht : (w'.trailingBuyStops, w'.trailingSellStops) = (w.trailingBuyStops, w.trailingSellStops))
    (hw : (w'.lowBuyAon, w'.highBuyAon) = (w.lowBuyAon, w.highBuyAon)) : w'.Guarded :=
  ⟨h.1.of_files hf (h.1.quiet.congr (stops_of_files hf) ht) hw,
    (Eased.of_chains (limits_of_files hf) (aons_of_files hf)).uncovered h.2⟩

theorem Accepts.guarded (h : Accepts w w') : w'.Guarded := ⟨h.arranged, h.uncovered⟩

theorem Steps.insertOrder_guarded (h0 : WellFormed c₀) (hf : Fresh c₀.1 c₀.2) (hF : F.Idle)
    {e : OrderQueueElem} (he : e.Admissible) (h : Steps c₀ (F.give e.id, w))
    (hext : F.front = 0 → ∃ e', F.ext = some e' ∧ e = { e' with id := e.id })
    (hint : F.front ≠ 0 → ∃ e' queue, w.internalOrderQueue = e' :: queue ∧ e = { e' with id := e.id })
    (hid : F.front ≠ 0 → ∀ e' ∈ w.internalOrderQueue.head?, e'.id ≠ 0 → e'.id = e.id)
    (hg : w.Guarded) : Unless World.Overflowed (SimpleOrderbook.insertOrder e)
      (fun _ w' => Steps c₀ (F, w') ∧ Accepts w w') LeavesGuarded w :=
  (Steps.insertOrder_arranged h0 hf hF he h hext hint hid hg.1 hg.2).mono (fun _ _ hq => hq)
    fun _ _ hq => hq.imp_right Accepts.guarded

/-- The orders of the queue have no conditions; those that their insertion adds have none either. -/
theorem Steps.drainInternalOrders_guarded (h0 : WellFormed c₀) (hf : Fresh c₀.1 c₀.2) (hF : F.Idle)
    (hfront : F.front = 0) (hids : F.ids = []) (fuel : Nat) : ∀ {w : World}, Steps c₀ (F, w) → w.Guarded →
      (∀ e ∈ w.internalOrderQueue, e.condition = .none) →
      Unless World.Overflowed (SimpleOrderbook.drainInternalOrders fuel) (fun _ w' => w'.Guarded)
        LeavesGuarded w := by
  induction fuel with
  | zero =>
    intro w _ hg _
    exact .of_wp (wp_getSob_bind (wp_ite (fun _ => wp_pure hg) fun _ => wp_pure hg))
  | succ fuel ih =>
    intro w h hg hqueue
    unfold SimpleOrderbook.drainInternalOrders
    refine wp_getSob_bind ?_
    split
    next => exact wp_pure (.inr hg)
    next ie queue hq =>
      rw [hq] at hqueue
      let F1 : Flight := { F with front := 1 }
      have hF1 : F1.Idle := ⟨⟨hF.gap, hF.hit, hF.acting, hF.scan, hF.detached, hF.leaving, hF.arriving⟩,
        hF.hands, hF.cur, hF.legs, hF.exits⟩
      have hbegin := h.step (.beginOrder ie queue hfront hq hF.cur)
      refine wp.bind (R := fun id w' => Steps c₀ (F1.give id, w') ∧ w'.Guarded ∧
        w'.internalOrderQueue = ie :: queue ∧ (ie.id ≠ 0 → ie.id = id)) (wp_ite (fun hz => ?_)
          fun hz => wp_pure ⟨?_, hg, hq, fun _ => rfl⟩) ?_
      · rw [if_pos hz] at hbegin
        exact wp_generateId_bind (f := pure) (wp_pure ⟨hbegin.step (.act .newId),
          hg.of_files rfl rfl rfl, hq, fun hne => absurd hz hne⟩)
      · rwa [if_neg hz] at hbegin
      · intro id w1 ⟨h1, hg1, hq1, hid⟩
        refine Unless.bind (R := fun _ w' => Steps c₀ (F1, w') ∧ Accepts w1 w') (.discard
          (Steps.insertOrder_guarded h0 hf hF1 (e := { ie with id := id })
            (.inl (hqueue ie List.mem_cons_self)) h1 (fun h => by cases h)
            (fun _ => ⟨ie, queue, hq1, rfl⟩) (fun _ e' he' => ?_) hg1))
          (fun _ => (Grows.keeps (.modifySob _)).bind fun _ => keeps_drainInternalOrders fuel)
          fun _ w2 ⟨h2, hacc⟩ => wp_modifySob_bind ?_
        · rw [hq1] at he'
          cases he'
          exact hid
        have hend := h2.step (.endOrder rfl hids)
        rw [show { F1 with front := 0 } = F by rw [← hfront]] at hend
        refine ih hend (hacc.guarded.of_files rfl rfl rfl) fun e he => ?_
        obtain ⟨new, hq2, hn⟩ := hacc.queue
        have he : e ∈ w2.internalOrderQueue.tail := he
        rw [hq2, hq1, List.cons_append, List.tail_cons] at he
        rcases List.mem_append.mp he with he | he
        · exact hqueue e (List.mem_cons_of_mem _ he)
        · exact hn e he

/-- The window of an order to insert. -/
theorem Steps.insertExternal_guarded (h0 : WellFormed c₀) (hf : Fresh c₀.1 c₀.2) {qe : OrderQueueElem}
    (he : qe.Admissible) (fuel : Nat) (h : Steps c₀ (.opened (some qe), w)) (hg : w.Guarded)
    (hq : w.internalOrderQueue = []) :
    Unless World.Overflowed (do
      let ret ← insertExternalOrder qe
      return (← SimpleOrderbook.drainInternalOrders fuel).map fun _ => ret) (fun _ w' => w'.Guarded)
      LeavesGuarded w := by
  have hF := Flight.idle_opened (some qe)
  have hg1 : (w.onSob fun s => { s with lastId := s.lastId + 1 }).Guarded := hg.of_files rfl rfl rfl
  refine Unless.bind (R := fun _ w' => Steps c₀ (.opened (some qe), w') ∧ w'.Guarded ∧
    ∀ e ∈ w'.internalOrderQueue, e.condition = .none) ?_
    (fun ret => (keeps_drainInternalOrders fuel).bind fun _ => .pure _) fun ret w1 ⟨h1, hg1, hq1⟩ => ?_
  · refine wp_generateId_bind ?_
    refine (Steps.insertOrder_guarded (e := { qe with id := w.lastId + 1 }) h0 hf hF he
      (h.step (.act .newId)) (fun _ => ⟨qe, rfl, rfl⟩)
        (fun hne => absurd rfl hne) (fun hne => absurd rfl hne) hg1).post fun _ w2 ⟨h2, hacc⟩ =>
        ⟨h2, hacc.guarded, fun e hmem => ?_⟩
    obtain ⟨new, hq2, hn⟩ := hacc.queue
    have hq0 : (w.onSob fun s => { s with lastId := s.lastId + 1 }).internalOrderQueue = [] := hq
    rw [hq2, hq0, List.nil_append] at hmem
    exact hn e hmem
  · exact wp.bind (Steps.drainInternalOrders_guarded h0 hf hF rfl rfl fuel h1 hg1 hq1)
      fun _ _ hg2 => wp_pure hg2

/-- What a client may ask for here: orders without a ticket, AON buys with the size of a `size_t`, and
pulls. -/
def Request.AonBuysOnly : Request → Prop
  | .insertLimitOrder buy _ size _ advanced =>
    advanced.condition = .none ∨ advanced.condition = .allOrNone ∧ buy = true ∧ size < 2 ^ 64
  | .insertMarketOrder _ _ _ advanced | .insertStopOrder _ _ _ _ _ advanced =>
    advanced.condition = .none
  | .pullOrder _ _ => True
  | .replaceWithLimitOrder .. | .replaceWithMarketOrder .. | .replaceWithStopOrder ..
  | .growBookAbove _ | .growBookBelow _ => False

/-- Its request is a pull, or the insertion of an order without a condition or an AON buy. -/
theorem Request.AonBuysOnly.external {r : Request} (hr : r.AonBuysOnly) {ee : ExternalOrderQueueElem}
    (hact : r.action = .ok (.external ee)) : ee.type = .null ∨ ee.id = 0 ∧
      (ee.aot.condition = .none ∨
        ee.aot.condition = .allOrNone ∧ ee.isBuy = true ∧ ee.sz < 2 ^ 64) := by
  cases r with
  | insertLimitOrder buy limit size cb advanced =>
    obtain ⟨_, -, hact⟩ := Except.bind_ok hact
    cases hact
    exact .inr ⟨rfl, hr⟩
  | insertMarketOrder buy size cb advanced =>
    obtain ⟨_, -, hact⟩ := Except.bind_ok hact
    obtain ⟨_, -, hact⟩ := Except.bind_ok hact
    cases hact
    exact .inr ⟨rfl, .inl hr⟩
  | insertStopOrder buy stop limit size cb advanced =>
    obtain ⟨_, -, hact⟩ := Except.bind_ok hact
    obtain ⟨_, -, hact⟩ := Except.bind_ok hact
    cases hact
    exact .inr ⟨rfl, .inl hr⟩
  | pullOrder id cbType =>
    obtain ⟨_, -, hact⟩ := Except.bind_ok hact
    cases hact
    exact .inl rfl
  | _ => exact hr.elim

theorem wp_executeExternalOrder_guarded {ee : ExternalOrderQueueElem}
    (hee : ee.type = .null ∨ ee.id = 0 ∧ (ee.aot.condition = .none ∨
      ee.aot.condition = .allOrNone ∧ ee.isBuy = true ∧ ee.sz < 2 ^ 64))
    (h0 : ∀ qe, WellFormed (.opened qe, w)) (hf : ∀ qe, Fresh (.opened qe) w)
    (hq : w.internalOrderQueue = []) (hg : w.Guarded) (fuel : Nat) :
    Unless World.Overflowed (executeExternalOrder fuel ee) (fun _ w' => w'.Guarded)
      LeavesGuarded w := by
  have ho : w.limitView.Ordered := ((h0 none).ambient.limitInv rfl).toOrdered
  unfold executeExternalOrder
  refine wp_ite (fun _ => ?_) fun hno => wp_getSob_bind ?_
  · have hpull := (wp_pullOrder_arranged hg.1 ho ee.id).and
      (Acts.pullOrder (.refl (a := (.opened none, w))) rfl rfl ee.id)
    refine (hpull.mono (fun _ _ h => h) fun _ _ he => .inr (.inl he.1)).bind fun ok w1 ⟨hre, hacts⟩ =>
      wp_ite (fun _ => ?_) fun _ => wp_pure (.inr (hg.relieved hre))
    refine wp.bind (Steps.drainInternalOrders_guarded (h0 none) (hf none) (Flight.idle_opened none) rfl rfl
      fuel (.acts .refl hacts) (hg.relieved hre) fun e he => ?_) fun _ _ hg2 => wp_pure hg2
    rw [(hacts.queue_eq rfl rfl).trans hq] at he
    cases he
  · split
    next => exact wp_throw (.inr (.inr hg))
    next qe hqe =>
      rcases hee with hnull | ⟨hid, hcond⟩
      · -- an order of no type is refused
        unfold orderQueueElem at hqe
        simp only [hnull] at hqe
        cases hqe
      · obtain ⟨h1, h2, h3⟩ := orderQueueElem_fields hqe
        refine wp_ite (fun hne => absurd hid hne) fun _ => ?_
        refine Steps.insertExternal_guarded (h0 _) (hf _) ?_ fuel .refl hg hq
        unfold OrderQueueElem.Admissible
        rwa [h1, h2, h3]

/-- The ids in the book are not handed out again. -/
structure World.Numbered (w : World) : Prop where
  known : ∀ id, w.Knows id → id ≤ w.lastId
  accepted : ∀ e, .insertOrder e ∈ w.trace → e.condition = .allOrNone → e.id ≤ w.lastId

theorem World.Numbered.fresh (h : w.Numbered) (hq : w.internalOrderQueue = [])
    (qe : Option OrderQueueElem) : Fresh (.opened qe) w := by
  have hpend : w.pending (.opened qe) = [] := by simp [Sob.pending, Flight.opened, hq]
  refine ⟨fun id hid => ⟨h.known id hid, ?_⟩, fun e he hc => ⟨h.accepted e he hc, fun hm => ?_⟩, rfl⟩
  · rw [hpend]
    exact List.not_mem_nil
  · rw [hpend] at hm
    cases hm

theorem Closes.numbered {r : Request} {o : Outcome} (h : Closes r w o w')
    (hwf : ∀ qe, WellFormed (.opened qe, w)) (hq : w.internalOrderQueue = [])
    (hr : ∀ f, r.action ≠ .ok (.grow f)) (hn : w.Numbered) : w'.Numbered := by
  have hclosed : ∀ {v v' : World}, (∀ id, v.Knows id → id ≤ v.lastId) →
      (∀ e, .insertOrder e ∈ v.trace → e.condition = .allOrNone → e.id ≤ v.lastId) →
      v'.files = v.files → v'.base = v.base → v'.lastId = v.lastId →
      (∀ e, .insertOrder e ∈ v'.trace → .insertOrder e ∈ v.trace) → v'.Numbered :=
    fun hk hacc hf hb hl ht => ⟨fun id hid => hl ▸ hk id ((Drifts.of_files hf hb).knows hid),
      fun e he hc => hl ▸ hacc e (ht e he) hc⟩
  have hdropped : ∀ {v : World} {q : List OrderQueueElem}, ∀ e,
      Event.insertOrder e ∈ .dropped q :: v.trace → .insertOrder e ∈ v.trace := fun e he => (List.mem_cons.mp he).resolve_left (by simp)
  cases h with
  | refused => exact hn
  | rejected => exact hclosed hn.known hn.accepted rfl rfl rfl hdropped
  | grown f hact => exact absurd hact (hr f)
  | value hqe hsteps =>
    have hf := Steps.fresh hsteps (hwf _).ambient (hn.fresh hq _)
    exact hclosed (fun id hid => (hf.known id hid).1) (fun e he hc => (hf.accepted e he hc).1)
      rfl rfl rfl fun _ he => he
  | @left qe err v hqe hl herr =>
    cases hl with
    | undefined => exact absurd rfl herr
    | failed hsteps hm =>
      have hf := Steps.fresh hsteps (hwf _).ambient (hn.fresh hq _)
      exact hclosed (fun id hid => ((hf.known id (Moves.knows hm hid)).1).trans (Moves.lastId_le hm))
        (fun e he hc => ((hf.accepted e (Moves.accepted hm he) hc).1).trans (Moves.lastId_le hm))
        rfl rfl rfl hdropped
    | refused hsteps =>
      have hf := Steps.fresh hsteps (hwf _).ambient (hn.fresh hq _)
      exact hclosed (fun id hid => (hf.known id hid).1) (fun e he hc => (hf.accepted e he hc).1)
        rfl rfl rfl hdropped

theorem Window.guarded {r : Request} {o : Outcome} (h : Window r w o w') (hr : r.AonBuysOnly)
    (h0 : ∀ qe, WellFormed (.opened qe, w)) (hf : ∀ qe, Fresh (.opened qe) w)
    (hq : w.internalOrderQueue = []) (hg : w.Guarded) (hno : ¬ w'.Overflowed) : w'.Guarded := by
  obtain ⟨fuel, h⟩ := h
  unfold Request.exec at h
  split at h
  next => cases h; exact hg
  next ee ha =>
    have hwp := wp_executeExternalOrder_guarded (hr.external ha) h0 hf hq hg fuel
    unfold dispatchExternalOrder at h
    split at h
    next => cases h
    next ret w1 hm =>
      have hg1 := wp.ok hwp hm
      split at h
      · cases h
        exact (hg1.resolve_left hno).of_files rfl rfl rfl
      · cases h
        exact hg1.resolve_left hno
    next => cases h
    next err w1 hne hm =>
      cases h
      rcases wp.error hwp hm with ⟨ev, hev, hover⟩ | he | hg1
      · exact absurd ⟨ev, List.mem_cons_of_mem _ hev, hover⟩ hno
      · exact absurd he hne
      · exact hg1.of_files rfl rfl rfl
  next f ha =>
    cases r with
    | growBookAbove | growBookBelow => exact hr.elim
    | _ =>
      repeat obtain ⟨_, -, ha⟩ := Except.bind_ok ha
      cases ha

end Window

/-! ## Runs -/

section Runs
variable {w₀ w : World} {rs : List (Request × Outcome)}

theorem Initial.guarded (h : Initial w) : w.Guarded := by
  obtain ⟨⟨base, incr, -, -, hw⟩, -⟩ := h
  have hlim : ∀ p, w.limits p = none := fun p => by rw [hw]; rfl
  have haon : ∀ buys p, w.aons buys p = none := fun buys p => by rw [hw]; cases buys <;> rfl
  have hstop : ∀ p, w.stops p = none := fun p => by rw [hw]; rfl
  refine ⟨⟨haon false, fun p b hb => ?_, fun p hp => absurd (haon true p) hp, ⟨fun p e he => ?_, ?_⟩,
    fun p b hb => ?_, fun p => ?_, fun p => ?_, fun p => ?_, fun p b hb => ?_, fun p b hb => ?_,
    fun p e he => ?_⟩, fun p b hb => ?_⟩
  · rw [hlim] at hb
    cases hb
  · rw [hstop] at he
    cases he
  · rw [hw]
    exact ⟨rfl, rfl⟩
  · rw [hlim] at hb
    cases hb
  · unfold Sob.limitIds
    rw [hlim]
    exact List.nodup_nil
  · rw [haon]
    exact List.nodup_nil
  · rw [hstop]
    exact List.nodup_nil
  · rw [hlim] at hb
    cases hb
  · rw [haon] at hb
    cases hb
  · rw [hstop] at he
    cases he
  · rcases hb with ⟨buys, hb⟩ | ⟨hb, -⟩
    · rw [haon] at hb
      cases hb
    · rw [hlim] at hb
      cases hb

theorem Run.guarded (h0 : Initial w₀) (h : Run w₀ rs w) (hrs : ∀ ro ∈ rs, ro.1.AonBuysOnly)
    (hno : ¬ w.Overflowed) : w.Guarded ∧ w.Numbered := by
  induction h with
  | nil => exact ⟨h0.guarded, h0.settled.known, h0.settled.accepted⟩
  | @snoc rs w w' r o hr hw ih =>
    obtain ⟨hwf, hq⟩ := hr.wellFormed h0
    have hcloses := hw.closes hwf hq
    obtain ⟨hg, hn⟩ := ih (fun ro hro => hrs ro (List.mem_append_left _ hro)) fun ⟨ev, hev, hover⟩ =>
      hno ⟨ev, hcloses.trace_suffix.subset hev, hover⟩
    have hreq : r.AonBuysOnly := hrs (r, o) (by simp)
    refine ⟨hw.guarded hreq hwf (hn.fresh hq) hq hg hno, hcloses.numbered hwf hq (fun f hf => ?_) hn⟩
    cases r with
    | growBookAbove | growBookBelow => exact hreq
    | _ =>
      repeat obtain ⟨_, -, hf⟩ := Except.bind_ok hf
      cases hf

/-- After every window of a run in which all AONs are buys, and in which no total of a look-ahead
overflowed, the sells at the level of a resting AON and below are too few to fill it. -/
theorem Run.no_coverable_aon (h0 : Initial w₀) (h : Run w₀ rs w)
    (hrs : ∀ ro ∈ rs, ro.1.AonBuysOnly) (hno : ¬ w.Overflowed) (p : Nat) (b : LimitBndl)
    (hb : w.RestsAon p b) : w.sellsTo p < b.sz :=
  ((h.guarded h0 hrs hno).1.2 p b hb).1

end Runs

/-- An AON buy of 10 rests above a sell of 4, and another sell of 5 at its own level joins that. -/
theorem aon_buy_of_ten_waits : ∃ rs w, Run (World.create 1 20) rs w ∧ rs.map (·.1) =
    [.limit false 11 4, .limit true 12 10 { condition := .allOrNone }, .limit false 12 5] ∧
      w.sellsTo 12 = 9 ∧ ∃ b, w.RestsAon 12 b ∧ b.sz = 10 ∧ w.sellsTo 12 < b.sz := by
  obtain ⟨rs, w, h, hrs, hw⟩ := Run.exists_of_execAll 0
    [.limit false 11 4, .limit true 12 10 { condition := .allOrNone }, .limit false 12 5]
    (f := fun _ w => (w.sellsTo 12, (w.aons true 12).elems.map (·.sz), w.trace.all Event.fits))
    (v := (9, [10], true)) (w := World.create 1 20) (by decide +kernel)
  obtain ⟨hsells, haons, hfits⟩ : _ ∧ _ ∧ _ := by simpa only [Prod.mk.injEq] using hw
  obtain ⟨b, hb, hsz⟩ : ∃ b ∈ (w.aons true 12).elems, b.sz = 10 :=
    List.mem_map.mp (haons ▸ List.mem_singleton_self 10)
  have hrests : w.RestsAon 12 b := .inl ⟨true, hb⟩
  refine ⟨rs, w, h, hrs, hsells, b, hrests, hsz, h.no_coverable_aon
    (initial_create (by decide) (by decide)) (fun ro hro => ?_) (World.not_overflowed hfits) 12 b hrests⟩
  have hmem : ro.1 ∈ rs.map (·.1) := List.mem_map_of_mem hro
  rw [hrs] at hmem
  simp only [List.mem_cons, List.not_mem_nil, or_false] at hmem
  rcases hmem with heq | heq | heq <;> rw [heq]
  · exact .inl rfl
  · exact .inr ⟨rfl, rfl, by decide⟩
  · exact .inl rfl

/-- Two sells that add up to `2 ^ 64` join an AON buy of any size: the total of the look-ahead after the
second is 0, and the AON stays where it is. -/
theorem coverable_aon_rests : ∃ rs w, Run (World.create 1 20) rs w ∧ rs.map (·.1) =
    [.limit true 12 (2 ^ 64 - 1) { condition := .allOrNone }, .limit false 11 (2 ^ 63),
      .limit false 12 (2 ^ 63)] ∧ (∀ ro ∈ rs, ro.1.AonBuysOnly) ∧
      ∃ b, w.RestsAon 12 b ∧ b.sz = 2 ^ 64 - 1 ∧ ¬ w.sellsTo 12 < b.sz := by
  obtain ⟨rs, w, h, hrs, hw⟩ := Run.exists_of_execAll 0
    [.limit true 12 (2 ^ 64 - 1) { condition := .allOrNone }, .limit false 11 (2 ^ 63),
      .limit false 12 (2 ^ 63)]
    (f := fun _ w => (w.sellsTo 12, (w.aons true 12).elems.map (·.sz))) (v := (2 ^ 64, [2 ^ 64 - 1]))
    (w := World.create 1 20) (by decide +kernel)
  obtain ⟨hsells, haons⟩ : _ ∧ _ := by simpa only [Prod.mk.injEq] using hw
  obtain ⟨b, hb, hsz⟩ : ∃ b ∈ (w.aons true 12).elems, b.sz = 2 ^ 64 - 1 :=
    List.mem_map.mp (haons ▸ List.mem_singleton_self _)
  refine ⟨rs, w, h, hrs, fun ro hro => ?_, b, .inl ⟨true, hb⟩, hsz, by omega⟩
  have hmem : ro.1 ∈ rs.map (·.1) := List.mem_map_of_mem hro
  rw [hrs] at hmem
  simp only [List.mem_cons, List.not_mem_nil, or_false] at hmem
  rcases hmem with heq | heq | heq <;> rw [heq]
  · exact .inr ⟨rfl, rfl, by decide⟩
  · exact .inl rfl
  · exact .inl rfl

end SimpleOrderbook
