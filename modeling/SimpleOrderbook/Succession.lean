import SimpleOrderbook.Plain

/-!
# What becomes of a triggered stop

The order that a stop becomes waits in the internal queue under its new id. It leaves the queue from
the front, after it was submitted there with the size of the stop. An id is submitted once, so what a
stop hands on is what was submitted under the id of its successor.
-/
namespace SimpleOrderbook

/-! ## Submissions -/

/-- What a call submits under id `id`. -/
def Event.submitted (id : Nat) : Event → Nat
  | .insertOrder e => if e.id = id then e.sz else 0
  | _ => 0

def World.total (w : World) (f : Event → Nat) : Nat := (w.trace.map f).sum

/-- An order of this id and size was submitted. -/
def World.Submitted (w : World) (id sz : Nat) : Prop :=
  ∃ e, .insertOrder e ∈ w.trace ∧ e.id = id ∧ e.sz = sz

/-- An order of this id and size waits. -/
def World.Waits (w : World) (id sz : Nat) : Prop :=
  ∃ e ∈ w.internalOrderQueue, e.id = id ∧ e.sz = sz

/-- Nothing was submitted twice, and what a triggered stop became waits or was submitted. -/
structure World.Succeeded (w : World) : Prop where
  once : ∀ e, .insertOrder e ∈ w.trace → w.total (Event.submitted e.id) = e.sz
  heir : ∀ e plev last id, .stopTriggered e plev last id ∈ w.trace →
    id ≠ 0 ∧ (w.Waits id e.sz ∨ w.Submitted id e.sz)

/-- A call that neither submits an order nor triggers a stop. -/
def Event.Idle : Event → Prop
  | .insertOrder _ | .stopTriggered .. => False
  | _ => True

section Succeeded
variable {w w' : World}

theorem Event.Idle.submitted {ev : Event} (h : ev.Idle) (id : Nat) : ev.submitted id = 0 := by
  cases ev <;> first | rfl | exact h.elim

@[simp] theorem World.total_log (ev : Event) (f : Event → Nat) :
    (w.log ev).total f = f ev + w.total f := rfl

theorem World.Submitted.mono {id sz : Nat} (h : w.Submitted id sz) (ht : w.trace ⊆ w'.trace) :
    w'.Submitted id sz :=
  h.imp fun _ he => ⟨ht he.1, he.2⟩

theorem World.Waits.mono {id sz : Nat} (h : w.Waits id sz)
    (hq : w.internalOrderQueue ⊆ w'.internalOrderQueue) : w'.Waits id sz :=
  h.imp fun _ he => ⟨hq he.1, he.2⟩

/-- Idle calls were made since, and the queue lost nothing. -/
theorem World.Succeeded.idle (h : w.Succeeded) (evs : List Event) (ht : w'.trace = evs ++ w.trace)
    (hevs : ∀ ev ∈ evs, ev.Idle) (hq : w.internalOrderQueue ⊆ w'.internalOrderQueue) :
    w'.Succeeded := by
  have hold : ∀ ev ∈ w'.trace, ¬ ev.Idle → ev ∈ w.trace := fun ev hm hi =>
    (List.mem_append.mp (ht ▸ hm)).resolve_left fun hm => hi (hevs ev hm)
  have hsub : w.trace ⊆ w'.trace := fun ev hm => ht ▸ List.mem_append_right evs hm
  refine ⟨fun e he => ?_, fun e plev last id he => ?_⟩
  · rw [← h.once e (hold _ he id)]
    unfold World.total
    rw [ht, List.map_append, List.sum_append]
    refine Nat.add_eq_right.mpr (List.sum_eq_zero_iff_forall_eq_nat.mpr fun n hn => ?_)
    obtain ⟨ev, hm, rfl⟩ := List.mem_map.mp hn
    exact (hevs ev hm).submitted e.id
  · obtain ⟨hne, hw⟩ := h.heir e plev last id (hold _ he fun hi => hi)
    exact ⟨hne, hw.imp (·.mono hq) (·.mono hsub)⟩

theorem World.Succeeded.turned (h : w.Succeeded) (msg : CallbackMsg) (e : StopBndl) (plev : Nat)
    (order : OrderQueueElem) (hid : order.id ≠ 0) (hsz : order.sz = e.sz) :
    (w.turned msg e plev order).Succeeded := by
  obtain ⟨_, _, heq⟩ := w.turned_eq msg e plev order
  have hq : (w.turned msg e plev order).internalOrderQueue = w.internalOrderQueue ++ [order] := by
    rw [heq]
  have ht := trace_turned w msg e plev order
  have hsub : w.trace ⊆ (w.turned msg e plev order).trace := fun ev hm => by
    rw [ht]
    simp [hm]
  refine ⟨fun e' he => ?_, fun e' p last id he => ?_⟩
  · rw [ht] at he
    rw [← h.once e' (by simpa using he)]
    unfold World.total
    rw [ht]
    simp [Event.submitted]
  · rw [ht] at he
    simp only [List.mem_cons, reduceCtorEq, Event.stopTriggered.injEq, false_or] at he
    rcases he with ⟨rfl, -, -, rfl⟩ | he
    · refine ⟨hid, .inl ⟨order, ?_, rfl, hsz⟩⟩
      rw [hq]
      exact List.mem_append_right _ (List.mem_singleton_self order)
    · obtain ⟨hne, hw⟩ := h.heir e' p last id he
      refine ⟨hne, hw.imp (·.mono fun x hx => ?_) (·.mono hsub)⟩
      rw [hq]
      exact List.mem_append_left _ hx

theorem World.Succeeded.ofRecords : OfRecords World.Succeeded where
  log {w ev} hev h := h.idle [ev] rfl (fun _ hm => by
    rw [List.mem_singleton.mp hm]
    cases ev <;> trivial) (List.Subset.refl _)
  onSob {w f} hf h := h.idle [] rfl (fun _ hm => by cases hm) fun x hx => by
    have hq : (f w.toSob).internalOrderQueue = w.internalOrderQueue := congrArg Prod.snd hf
    rwa [World.toSob_onSob, hq]
  report {w} msg cb id1 id2 price sz h := by
    obtain ⟨_, _, heq⟩ := w.report_eq msg cb id1 id2 price sz
    refine h.idle [_] (trace_report w msg cb id1 id2 price sz)
      (fun _ hm => by rw [List.mem_singleton.mp hm]; trivial) ?_
    rw [heq]
    exact List.Subset.refl _
  traded {w} plev size idbuy idsell cb1 cb2 h := by
    refine h.idle [_, _, _] (trace_traded w plev size idbuy idsell cb1 cb2)
      (fun ev hm => ?_) ?_
    · simp only [List.mem_cons, List.not_mem_nil, or_false] at hm
      rcases hm with rfl | rfl | rfl <;> trivial
    · rw [queue_traded w plev size idbuy idsell cb1 cb2]
      exact List.Subset.refl _
  queued {w} order h := h.idle [_] rfl
    (fun _ hm => by rw [List.mem_singleton.mp hm]; trivial) (List.subset_append_left _ _)
  turned msg e plev order hid hsz h := h.turned msg e plev order hid hsz

/-- An order is submitted under a new id. -/
theorem World.Succeeded.accept (h : w.Succeeded) {e : OrderQueueElem}
    (hnew : ∀ e', .insertOrder e' ∈ w.trace → e'.id ≠ e.id) :
    (w.log (.insertOrder e)).Succeeded := by
  have hnone : w.total (Event.submitted e.id) = 0 := by
    refine List.sum_eq_zero_iff_forall_eq_nat.mpr fun n hn => ?_
    obtain ⟨ev, hm, rfl⟩ := List.mem_map.mp hn
    cases ev with
    | insertOrder e' => exact if_neg (hnew e' hm)
    | _ => rfl
  refine ⟨fun e' he => ?_, fun e' plev last id he => ?_⟩
  · rw [World.total_log]
    rcases List.mem_cons.mp he with heq | he
    · cases heq
      rw [hnone]
      simp [Event.submitted]
    · rw [h.once e' he]
      simp [Event.submitted, (hnew e' he).symm]
  · obtain ⟨hne, hw⟩ := h.heir e' plev last id ((List.mem_cons.mp he).resolve_left nofun)
    exact ⟨hne, hw.imp_right (·.mono (List.subset_cons_self _ _))⟩

/-- The order at the front, which was submitted, leaves the queue. -/
theorem World.Succeeded.endOrder (h : w.Succeeded) (hfront : ∀ e ∈ w.internalOrderQueue.head?,
      e.id ≠ 0 → w.Submitted e.id e.sz) :
    (w.onSob fun s => { s with internalOrderQueue := s.internalOrderQueue.tail }).Succeeded := by
  refine ⟨h.once, fun e plev last id he => ?_⟩
  obtain ⟨hne, hw⟩ := h.heir e plev last id he
  refine ⟨hne, hw.elim (fun ⟨x, hx, hid, hsz⟩ => ?_) .inr⟩
  cases hq : w.internalOrderQueue with
  | nil => simp [hq] at hx
  | cons y queue =>
    rcases List.mem_cons.mp (hq ▸ hx) with rfl | hx
    · exact .inr (hid ▸ hsz ▸ hfront x (by simp [hq]) (hid ▸ hne))
    · exact .inl ⟨x, by simpa [hq] using hx, hid, hsz⟩

end Succeeded

/-! ## The front of the queue -/

/-- The queue of the engine only gets longer. -/
theorem queue_prefix_ofRecords (queue : List OrderQueueElem) :
    OfRecords fun w => queue <+: w.internalOrderQueue where
  log _ h := h
  onSob {w f} hf h := by
    have hq : (f w.toSob).internalOrderQueue = w.internalOrderQueue := congrArg Prod.snd hf
    rwa [World.toSob_onSob, hq]
  report {w} msg cb id1 id2 price sz h := by
    obtain ⟨_, _, heq⟩ := w.report_eq msg cb id1 id2 price sz
    rw [heq]
    exact h
  traded {w} plev size idbuy idsell cb1 cb2 h := by
    rw [queue_traded w plev size idbuy idsell cb1 cb2]
    exact h
  queued order h := h.trans (List.prefix_append _ _)
  turned {w} msg e plev order _ _ h := by
    obtain ⟨_, _, heq⟩ := w.turned_eq msg e plev order
    rw [heq]
    exact h.trans (List.prefix_append _ _)

/-- The order at the front of the queue has its id in hand, or was submitted. -/
def Attended (F : Flight) (w : World) : Prop :=
  F.front ≠ 0 → ∀ e ∈ w.internalOrderQueue.head?, e.id ≠ 0 →
    F.cur = none ∧ e.id ∈ F.ids ∨ w.Submitted e.id e.sz

section Attended
variable {F : Flight} {w : World} {c c' : Config}

/-- What a plain order hands out it does not queue. -/
theorem Act.ids_mono (h : Act c c') (hp : Plain c.1 c.2) {id : Nat} (hid : id ∈ c.1.ids) :
    id ∈ c'.1.ids := by
  cases h with
  | newId => exact List.mem_cons_of_mem _ hid
  | enqueue e ids hids hgen hfires => exact absurd hfires hp.not_fires
  | _ => exact hid

theorem Step.queue_prefix (h : Step c c') (hfront : c'.1.front ≠ 0) :
    c.2.internalOrderQueue <+: c'.2.internalOrderQueue :=
  (queue_prefix_ofRecords _).step h (fun _ _ _ _ heq hp => by rwa [heq])
    (fun heq _ _ _ _ => absurd (by rw [heq]) hfront) (List.prefix_refl _)

theorem Step.attended (h : Step c c') (hp : Plain c.1 c.2)
    (hlen : c.1.front ≤ c.2.internalOrderQueue.length) (ha : Attended c.1 c.2) :
    Attended c'.1 c'.2 := by
  intro hfront e he hne
  have hpre := h.queue_prefix hfront
  have ht := h.trace_suffix.subset
  have hnext : c.1.front ≠ 0 → (c.1.cur = none → c'.1.cur = none ∧ c.1.ids ⊆ c'.1.ids) →
      c'.1.cur = none ∧ e.id ∈ c'.1.ids ∨ c'.2.Submitted e.id e.sz := fun hf hids => by
    have hhead : e ∈ c.2.internalOrderQueue.head? := by
      obtain ⟨new, heq⟩ := hpre
      cases hq : c.2.internalOrderQueue with
      | nil => rw [hq, List.length_nil] at hlen; omega
      | cons x queue => rw [← heq, hq] at he; exact he
    exact (ha hf e hhead hne).imp (fun hw => ⟨(hids hw.1).1, (hids hw.1).2 hw.2⟩) (·.mono ht)
  have hkeep : c'.1.front = c.1.front → c'.1.cur = c.1.cur → c.1.ids ⊆ c'.1.ids →
      c'.1.cur = none ∧ e.id ∈ c'.1.ids ∨ c'.2.Submitted e.id e.sz := fun hf hc hi =>
    hnext (hf ▸ hfront) fun hn => ⟨hc.trans hn, hi⟩
  have hcur : c'.1.front = c.1.front → c.1.cur ≠ none →
      c'.1.cur = none ∧ e.id ∈ c'.1.ids ∨ c'.2.Submitted e.id e.sz := fun hf hc =>
    hnext (hf ▸ hfront) fun hn => absurd hn hc
  cases h with
  | act h =>
    refine hkeep ?_ h.sameInsertion.cur fun id hid => h.ids_mono hp hid
    cases h <;> rfl
  | trade bidSide plev id size r cb hF hpos hpe hrun hm hc => exact hcur rfl hc
  | beginOrder ie queue hfront hq hc =>
    rw [hq] at he
    cases he
    exact .inl ⟨hc, by rw [if_neg hne]; exact List.mem_cons_self⟩
  | endOrder => exact absurd rfl hfront
  | accept e' ids hids hhands hc hext hint hid =>
    obtain ⟨e₀, queue, hq, heq⟩ := hint hfront
    rw [World.toSob_log, hq] at he
    cases he
    exact .inr ⟨e', List.mem_cons_self, (hid hfront e (by rw [hq]; rfl) hne).symm, by rw [heq]⟩
  | forget id ids hids hc => exact hcur rfl hc
  | finish => exact hnext hfront fun _ => ⟨rfl, List.Subset.refl _⟩
  | pushLimit buy p b hands ids hgap hh hids hsz hp hpe hs hside hpay hAON e hins =>
    exact hcur rfl hins.cur_ne
  | pushAon buy p b hands ids hh hids hsz hp hpe hside hpay hAON e hins => exact hcur rfl hins.cur_ne
  | pushStop p b hands ids hh hids hpay e hins => exact hcur rfl hins.cur_ne
  | openLoss e l c p b nticks1 nticks2 ids hgap hc =>
    exact hcur rfl (hc ▸ Option.some_ne_none e)
  | _ => exact hkeep rfl rfl (List.Subset.refl _)

theorem Step.succeeded (h : Step c c') (hnew : ∀ (e : OrderQueueElem) ids, c.1.ids = e.id :: ids →
      c.1.cur = none → ∀ e', .insertOrder e' ∈ c.2.trace → e'.id ≠ e.id)
    (ha : Attended c.1 c.2) (hs : c.2.Succeeded) : c'.2.Succeeded := by
  refine World.Succeeded.ofRecords.step h (fun e ids hids hcur heq hs => ?_)
    (fun _ hfront hids heq hs => ?_) hs
  · rw [heq]
    exact hs.accept (hnew e ids hids hcur)
  · rw [heq]
    refine hs.endOrder fun e he hne => (ha (by omega) e he hne).resolve_left fun hw => ?_
    rw [hids] at hw
    cases hw.2

end Attended

/-! ## What stops hand on -/

/-- What was submitted under the id of the order that stop `id` became. -/
def Event.handedOn (w : World) (id : Nat) : Event → Nat
  | .stopTriggered e _ _ idNew => if e.id = id then w.total (Event.submitted idNew) else 0
  | _ => 0

/-- The size of stop `id` when it became an order. -/
def Event.turnedOf (id : Nat) : Event → Nat
  | .stopTriggered e _ _ _ => if e.id = id then e.sz else 0
  | _ => 0

/-- Once the queue is empty, a stop handed on what it was. -/
theorem World.Succeeded.handedOn {w : World} (h : w.Succeeded) (hq : w.internalOrderQueue = [])
    (id : Nat) : w.total (Event.handedOn w id) = w.total (Event.turnedOf id) := by
  refine congrArg List.sum (List.map_congr_left fun ev hm => ?_)
  cases ev with
  | stopTriggered e plev last idNew =>
    obtain ⟨-, ⟨x, hx, -⟩ | ⟨x, hx, rfl, hsz⟩⟩ := h.heir e plev last idNew hm
    · rw [hq] at hx
      cases hx
    · simp only [Event.handedOn, Event.turnedOf, h.once x hx, hsz]
  | _ => rfl

end SimpleOrderbook
