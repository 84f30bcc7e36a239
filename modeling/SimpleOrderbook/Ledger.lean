import SimpleOrderbook.Plain

/-!
# Where the quantity of an order goes

What was submitted under an id was traded, was pulled, was handed on to the order a stop became, is
in hand, or rests. Each transition moves quantity from one of these to another.
-/
namespace SimpleOrderbook

/-! ## What the trace says of an id -/

/-- The quantity of order `id` that a call accounts for. -/
def Event.spends (id : Nat) : Event → Nat
  | .trade _ _ size idbuy idsell =>
    (if idbuy = id then size else 0) + (if idsell = id then size else 0)
  | .pulled i sz => if i = id then sz else 0
  | .stopTriggered e _ _ _ => if e.id = id then e.sz else 0
  | _ => 0

/-- What order `id` traded, was pulled with, and handed on. -/
def World.spent (w : World) (id : Nat) : Nat := (w.trace.map (Event.spends id)).sum

/-- The ids a call accounts quantity for. -/
def Event.parties : Event → List Nat
  | .insertOrder e => [e.id]
  | .trade _ _ _ idbuy idsell => [idbuy, idsell]
  | .pulled id _ => [id]
  | .stopTriggered e _ _ _ => [e.id]
  | _ => []

/-- What is in hand of order `id`. -/
def Flight.inHand (F : Flight) (id : Nat) : Nat :=
  (F.hands.map fun h => if h.1 = id then h.2 else 0).sum

section Sums
variable {F : Flight} {w : World} {id : Nat}

theorem Event.spends_of_parties {ev : Event} (h : id ∉ ev.parties) : ev.spends id = 0 := by
  cases ev <;> simp_all [Event.parties, Event.spends, eq_comm]

theorem sum_spends_eq_zero {trace : List Event} (h : ∀ ev ∈ trace, id ∉ ev.parties) :
    (trace.map (Event.spends id)).sum = 0 := by
  induction trace with
  | nil => rfl
  | cons ev trace ih =>
    rw [List.map_cons, List.sum_cons, Event.spends_of_parties (h ev List.mem_cons_self),
      ih fun ev' hev => h ev' (List.mem_cons_of_mem _ hev)]

@[simp] theorem World.spent_onSob (f : Sob → Sob) : (w.onSob f).spent id = w.spent id := rfl

@[simp] theorem World.spent_log (ev : Event) : (w.log ev).spent id = ev.spends id + w.spent id := rfl

theorem World.spent_traded (plev size idbuy idsell : Nat) (cb1 cb2 : OrderExecCbBndl) :
    (w.traded plev size idbuy idsell cb1 cb2).spent id =
      (if idbuy = id then size else 0) + (if idsell = id then size else 0) + w.spent id := by
  unfold World.spent
  rw [trace_traded]
  simp [Event.spends]

theorem World.spent_turned (msg : CallbackMsg) (e : StopBndl) (plev : Nat)
    (order : OrderQueueElem) : (w.turned msg e plev order).spent id =
      (if e.id = id then e.sz else 0) + w.spent id := by
  unfold World.spent
  rw [trace_turned]
  simp [Event.spends]

theorem Flight.inHand_cons {i sz : Nat} {hands : List (Nat × Nat)} (h : F.hands = (i, sz) :: hands) :
    F.inHand id = (if i = id then sz else 0) + Flight.inHand { F with hands := hands } id := by
  unfold Flight.inHand
  rw [h]
  rfl

end Sums

/-! ## The ledger -/

/-- What order `id` spent so far and what is in hand of it. -/
def balance (F : Flight) (w : World) (id : Nat) : Nat := w.spent id + F.inHand id

/-- Order `id` is not in the book. -/
def Gone (F : Flight) (w : World) (id : Nat) : Prop :=
  w.idCache id = none ∨ ∃ d, F.detached = some d ∧ d.turning = some id

/-- What rests in a drawer is not gone. -/
theorem Resident.not_gone {F : Flight} {w : World} {q : Kind × Nat} {b : OrderBndl}
    (hi : Filed F w) (h : Resident F w q b) : ¬ Gone F w b.id := by
  obtain ⟨c, hc, -⟩ := h.cached hi
  rintro (hn | ⟨d, hd, ht⟩)
  · exact absurd (hc.symm.trans hn) (by simp)
  · have hat : F.detachedAt d.plev = d.todo.map (·.id) ++ [b.id] := by
      simp [Flight.detachedAt, hd, ht]
    have hm : b.id ∈ (w.cabinet F).drawer (.stop, d.plev) :=
      List.mem_append_right _ (by rw [hat]; simp)
    obtain rfl := hi.cabinet.eq_of_mem h.mem_drawer hm
    have hn : (w.drawer F (.stop, d.plev)).Nodup := hi.cabinet.nodup (.stop, d.plev)
    obtain ⟨x, hx, rfl⟩ := resident_stop.mp h
    have hdr : w.drawer F (.stop, d.plev) =
        (w.stopIds d.plev ++ d.todo.map (·.id)) ++ [x.id] := by
      rw [List.append_assoc]
      exact congrArg (w.stopIds d.plev ++ ·) hat
    rw [hdr] at hn
    refine (List.nodup_append.mp hn).2.2 x.id ?_ x.id (List.mem_singleton_self _) rfl
    rw [Flight.triggering_of_some hd, if_pos rfl] at hx
    exact List.mem_append.mpr (hx.imp (List.mem_map_of_mem ·) (List.mem_map_of_mem ·))

structure Ledger (F : Flight) (w : World) : Prop where
  resting : ∀ e, .insertOrder e ∈ w.trace → ∀ q b, Resident F w q b → b.id = e.id →
    e.sz = balance F w e.id + (b.sz - F.due q e.id)
  gone : ∀ e, .insertOrder e ∈ w.trace → Gone F w e.id → e.sz = balance F w e.id
  /-- Only the order under insertion has a history and an id that waits. -/
  known : ∀ id, ((∃ ev ∈ w.trace, id ∈ ev.parties) ∨ ∃ h ∈ F.hands, h.1 = id) → id ≤ w.lastId ∧
    (id ∈ w.pending F → ∃ e, F.cur = some e ∧ e.id = id)

section Ledger
variable {F F' : Flight} {w w' : World}

/-- The calls made since then account for no quantity. -/
def Silent (w w' : World) : Prop := ∃ evs, w'.trace = evs ++ w.trace ∧ ∀ ev ∈ evs, ev.parties = []

theorem Silent.refl (h : w'.trace = w.trace) : Silent w w' := ⟨[], h, fun _ hm => by cases hm⟩

theorem Silent.log {ev : Event} (h : w'.trace = ev :: w.trace) (hev : ev.parties = []) : Silent w w' :=
  ⟨[ev], h, fun _ hm => List.mem_singleton.mp hm ▸ hev⟩

theorem Silent.spent (h : Silent w w') (id : Nat) : w'.spent id = w.spent id := by
  obtain ⟨evs, ht, hev⟩ := h
  unfold World.spent
  rw [ht, List.map_append, List.sum_append, sum_spends_eq_zero fun ev hm => by simp [hev ev hm],
    Nat.zero_add]

theorem Silent.mem {ev : Event} (h : Silent w w') (hm : ev ∈ w'.trace) :
    ev ∈ w.trace ∨ ev.parties = [] := by
  obtain ⟨evs, ht, hev⟩ := h
  rw [ht] at hm
  exact (List.mem_append.mp hm).symm.imp_right fun hm => hev ev hm

/-- What becomes of a plain order takes away nothing of it but what it trades. -/
theorem Becomes.remains (hp : Plain F w) {q q₀ : Kind × Nat} {b b₀ : OrderBndl}
    (hb : Becomes F F' q₀ b₀ q b) (hno : F.acting = none → F'.hit ≠ none → F'.acting = none) :
    b₀.sz - F.due q₀ b.id = b.sz - F'.due q b.id := by
  cases hb with
  | same hdue => rw [hdue]
  | traded h a hhit ha hnone =>
    rw [hno hnone (by simp [hhit])] at ha
    cases ha
  | toAons p hq hAON hdue => rw [hdue, Flight.due_of_kind (by simp)]
  | resized a ha hs => exact absurd hs (hp.acting a ha).not_resizes
  | settled h a hhit ha hq hid hs hdue => exact congrArg (b₀.sz - ·) hdue.symm
  | reduced h a hhit ha hq hid hsz hnone =>
    rw [Flight.due_of_acting_none hnone, Flight.due_of_some hhit ha, if_pos ⟨hq, hid.symm⟩]
    rfl
  | shifted p p' hq =>
    subst hq
    rw [Flight.due_of_kind (by simp), Flight.due_of_kind (by simp)]

/-- What a transition does to the quantity of the orders in the book, unless one trades. -/
theorem Ledger.next (h : Ledger F w) (hp : Plain F w)
    (hev : ∀ e, .insertOrder e ∈ w'.trace → .insertOrder e ∈ w.trace)
    (hrest : ∀ q b, Resident F' w' q b → (∃ q₀ b₀, Resident F w q₀ b₀ ∧ Becomes F F' q₀ b₀ q b) ∧
      balance F' w' b.id = balance F w b.id)
    (hno : F.acting = none → F'.hit ≠ none → F'.acting = none)
    (hgone : ∀ id, Gone F' w' id → Gone F w id ∧ balance F' w' id = balance F w id ∨
      ∃ q b, Resident F w q b ∧ b.id = id ∧ balance F' w' id = balance F w id + (b.sz - F.due q id))
    (hknown : ∀ id, ((∃ ev ∈ w'.trace, id ∈ ev.parties) ∨ ∃ h ∈ F'.hands, h.1 = id) →
      ((∃ ev ∈ w.trace, id ∈ ev.parties) ∨ ∃ h ∈ F.hands, h.1 = id) ∨
        id ≤ w.lastId ∧ id ∉ w.pending F)
    (hpend : ∀ id ∈ w'.pending F', id ∈ w.pending F ∨ w.lastId < id)
    (hlast : w.lastId ≤ w'.lastId) (hcur : F'.cur = F.cur) : Ledger F' w' := by
  refine ⟨fun e he q b hb hid => ?_, fun e he hg => ?_, fun id hid => ?_⟩
  · obtain ⟨⟨q₀, b₀, hb₀, hbec⟩, hbal⟩ := hrest q b hb
    have hrem := hbec.remains hp hno
    rw [hid] at hbal hrem
    rw [hbal, ← hrem]
    exact h.resting e (hev e he) q₀ b₀ hb₀ (hbec.id_eq.symm.trans hid)
  · rcases hgone e.id hg with ⟨hg, heq⟩ | ⟨q, b, hb, hid, heq⟩
    · exact (h.gone e (hev e he) hg).trans heq.symm
    · exact (h.resting e (hev e he) q b hb hid).trans heq.symm
  · have hk : id ≤ w.lastId ∧ (id ∈ w.pending F → ∃ e, F.cur = some e ∧ e.id = id) :=
      (hknown id hid).elim (h.known id) fun ⟨hle, hn⟩ => ⟨hle, fun hm => absurd hm hn⟩
    refine ⟨hk.1.trans hlast, fun hm => hcur ▸ hk.2 ?_⟩
    exact (hpend id hm).resolve_right (not_lt.mpr hk.1)

/-- The books balance for each order as they did. -/
theorem Ledger.even (h : Ledger F w) (hp : Plain F w) (hbal : ∀ id, balance F' w' id = balance F w id)
    (hev : ∀ e, .insertOrder e ∈ w'.trace → .insertOrder e ∈ w.trace)
    (hres : ∀ q b, Resident F' w' q b → ∃ q₀ b₀, Resident F w q₀ b₀ ∧ Becomes F F' q₀ b₀ q b)
    (hno : F.acting = none → F'.hit ≠ none → F'.acting = none)
    (hgone : ∀ id, Gone F' w' id → Gone F w id ∨ ∃ q b, Resident F w q b ∧ b.id = id ∧
      b.sz - F.due q id = 0)
    (hknown : ∀ id, ((∃ ev ∈ w'.trace, id ∈ ev.parties) ∨ ∃ h ∈ F'.hands, h.1 = id) →
      (∃ ev ∈ w.trace, id ∈ ev.parties) ∨ ∃ h ∈ F.hands, h.1 = id)
    (hpend : ∀ id ∈ w'.pending F', id ∈ w.pending F ∨ w.lastId < id)
    (hlast : w.lastId ≤ w'.lastId) (hcur : F'.cur = F.cur) : Ledger F' w' := by
  refine h.next hp hev (fun q b hb => ⟨hres q b hb, hbal b.id⟩) hno (fun id hg => ?_)
    (fun id hid => .inl (hknown id hid)) hpend hlast hcur
  rcases hgone id hg with hg | ⟨q, b, hb, hid, hz⟩
  · exact .inl ⟨hg, hbal id⟩
  · exact .inr ⟨q, b, hb, hid, by rw [hbal, hz, Nat.add_zero]⟩

/-- Nothing was accounted for, and nothing taken in hand or put down. -/
theorem Ledger.quiet (h : Ledger F w) (hp : Plain F w) (hs : Silent w w')
    (hhands : F'.hands = F.hands)
    (hres : ∀ q b, Resident F' w' q b → ∃ q₀ b₀, Resident F w q₀ b₀ ∧ Becomes F F' q₀ b₀ q b)
    (hno : F.acting = none → F'.hit ≠ none → F'.acting = none)
    (hgone : ∀ id, Gone F' w' id → Gone F w id ∨ ∃ q b, Resident F w q b ∧ b.id = id ∧
      b.sz - F.due q id = 0)
    (hpend : ∀ id ∈ w'.pending F', id ∈ w.pending F ∨ w.lastId < id)
    (hlast : w.lastId ≤ w'.lastId) (hcur : F'.cur = F.cur) : Ledger F' w' := by
  refine h.even hp (fun id => ?_) (fun e he => (hs.mem he).resolve_right (by simp [Event.parties]))
    hres hno hgone (fun id hid => ?_) hpend hlast hcur
  · unfold balance Flight.inHand
    rw [hs.spent, hhands]
  · refine hid.imp ?_ fun hh => hhands ▸ hh
    rintro ⟨ev, hm, hev⟩
    refine ⟨ev, (hs.mem hm).resolve_right fun hnil => ?_, hev⟩
    rw [hnil] at hev
    cases hev

/-- An order leaves the book, and the quantity that rested of it is accounted for or in hand. -/
theorem Ledger.depart (h : Ledger F w) (hp : Plain F w) (hi : Filed F w) (hi' : Filed F' w')
    {q : Kind × Nat} {b : OrderBndl} (hb : Resident F w q b) (hdue : F.due q b.id = 0)
    (hcache : ∀ j, w'.idCache j = if j = b.id then none else w.idCache j)
    (hbal : ∀ id, balance F' w' id = balance F w id + if b.id = id then b.sz else 0)
    (hev : ∀ e, .insertOrder e ∈ w'.trace → .insertOrder e ∈ w.trace)
    (hres : ∀ q b, Resident F' w' q b → ∃ q₀ b₀, Resident F w q₀ b₀ ∧ Becomes F F' q₀ b₀ q b)
    (hno : F.acting = none → F'.hit ≠ none → F'.acting = none) (hdet : F'.detached = F.detached)
    (hknown : ∀ id, ((∃ ev ∈ w'.trace, id ∈ ev.parties) ∨ ∃ h ∈ F'.hands, h.1 = id) →
      ((∃ ev ∈ w.trace, id ∈ ev.parties) ∨ ∃ h ∈ F.hands, h.1 = id) ∨ b.id = id)
    (hpend : ∀ id ∈ w'.pending F', id ∈ w.pending F ∨ w.lastId < id)
    (hlast : w.lastId ≤ w'.lastId) (hcur : F'.cur = F.cur) : Ledger F' w' := by
  obtain ⟨c, hc, -⟩ := hb.cached hi
  refine h.next hp hev (fun q' b' hb' => ⟨hres q' b' hb', ?_⟩) hno (fun id hg => ?_)
    (fun id hid => ?_) hpend hlast hcur
  · obtain ⟨c', hc', -⟩ := hb'.cached hi'
    rw [hcache] at hc'
    have hne : b'.id ≠ b.id := fun heq => by rw [if_pos heq] at hc'; cases hc'
    rw [hbal, if_neg hne.symm, Nat.add_zero]
  · by_cases hid : b.id = id
    · refine .inr ⟨q, b, hb, hid, ?_⟩
      rw [hbal, if_pos hid, ← hid, hdue, Nat.sub_zero]
    · refine .inl ⟨?_, by rw [hbal, if_neg hid, Nat.add_zero]⟩
      refine hg.imp (fun hn => ?_) fun ⟨d, hd, ht⟩ => ⟨d, hdet ▸ hd, ht⟩
      rwa [hcache, if_neg (Ne.symm hid)] at hn
  · rcases hknown id hid with hid | heq
    · exact .inl hid
    · subst heq
      exact .inr (hi.known b.id (by rw [hc]; simp))

/-- An order is taken in hand. -/
theorem Ledger.take (h : Ledger F w) (hp : Plain F w) (hi : Filed F w) (hi' : Filed F' w')
    {q : Kind × Nat} {b : OrderBndl} (hb : Resident F w q b) (hdue : F.due q b.id = 0)
    (hcache : ∀ j, w'.idCache j = if j = b.id then none else w.idCache j) (hs : Silent w w')
    (hhands : F'.hands = (b.id, b.sz) :: F.hands)
    (hres : ∀ q b, Resident F' w' q b → ∃ q₀ b₀, Resident F w q₀ b₀ ∧ Becomes F F' q₀ b₀ q b)
    (hno : F.acting = none → F'.hit ≠ none → F'.acting = none) (hdet : F'.detached = F.detached)
    (hpend : ∀ id ∈ w'.pending F', id ∈ w.pending F ∨ w.lastId < id)
    (hlast : w.lastId ≤ w'.lastId) (hcur : F'.cur = F.cur) : Ledger F' w' := by
  refine h.depart hp hi hi' hb hdue hcache (fun id => ?_)
    (fun e he => (hs.mem he).resolve_right (by simp [Event.parties])) hres hno hdet
    (fun id hid => ?_) hpend hlast hcur
  · unfold balance Flight.inHand
    rw [hs.spent, hhands, List.map_cons, List.sum_cons]
    dsimp only
    omega
  · rw [hhands] at hid
    rcases hid with ⟨ev, hm, hid⟩ | ⟨x, hx, hid⟩
    · refine .inl (.inl ⟨ev, (hs.mem hm).resolve_right fun hnil => ?_, hid⟩)
      rw [hnil] at hid
      cases hid
    · rcases List.mem_cons.mp hx with rfl | hx
      · exact .inr hid
      · exact .inl (.inr ⟨x, hx, hid⟩)

/-- What the order in hand and an order of the book traded is gone from both. -/
theorem balance_traded {id i n size : Nat} {hands : List (Nat × Nat)}
    (hh : F.hands = (id, size) :: hands) (hn : n ≤ size)
    (hhands : F'.hands = (id, size - n) :: hands) {j : Nat}
    (hs : w'.spent j = (if id = j then n else 0) + (if i = j then n else 0) + w.spent j) :
    balance F' w' j = balance F w j + if i = j then n else 0 := by
  unfold balance
  rw [hs, Flight.inHand_cons hh, Flight.inHand_cons hhands]
  have : Flight.inHand { F' with hands := hands } j = Flight.inHand { F with hands := hands } j := rfl
  rw [this]
  split <;> split <;> omega

/-- An order of a limit chain trades, and what it traded is still counted there. -/
theorem Ledger.fills (h : Ledger F w) (hi : Filed F w) {H : Hit} {a : Acting}
    (hb : Resident F w (.limit, H.plev) a.bndl) (hno : F.acting = none)
    (hbal : ∀ j, balance F' w' j = balance F w j + if a.bndl.id = j then a.amount else 0)
    (hhit : F'.hit = some H) (ha : F'.acting = some a) (hle : a.amount ≤ a.bndl.sz)
    (hev : ∀ e, .insertOrder e ∈ w'.trace → .insertOrder e ∈ w.trace)
    (hres : ∀ q b, Resident F' w' q b → Resident F w q b)
    (hgone : ∀ id, Gone F' w' id → Gone F w id)
    (hknown : ∀ id, ((∃ ev ∈ w'.trace, id ∈ ev.parties) ∨ ∃ h ∈ F'.hands, h.1 = id) →
      ((∃ ev ∈ w.trace, id ∈ ev.parties) ∨ ∃ h ∈ F.hands, h.1 = id) ∨ a.bndl.id = id)
    (hpend : ∀ id ∈ w'.pending F', id ∈ w.pending F ∨ w.lastId < id)
    (hlast : w.lastId ≤ w'.lastId) (hcur : F'.cur = F.cur) : Ledger F' w' := by
  obtain ⟨c, hc, -⟩ := hb.cached hi
  refine ⟨fun e he q b hr hid => ?_, fun e he hg => ?_, fun id hid => ?_⟩
  · have hr := hres q b hr
    have hrest := h.resting e (hev e he) q b hr hid
    rw [Flight.due_of_acting_none hno, Nat.sub_zero] at hrest
    rw [hbal, Flight.due_of_some hhit ha]
    by_cases heq : a.bndl.id = e.id
    · obtain ⟨rfl, rfl⟩ := hr.unique hi hb (hid.trans heq.symm)
      rw [if_pos heq, if_pos ⟨rfl, heq⟩]
      omega
    · rw [if_neg heq, if_neg fun hh => heq hh.2]
      exact hrest
  · have hg := hgone e.id hg
    rw [hbal, if_neg, Nat.add_zero]
    · exact h.gone e (hev e he) hg
    · exact fun heq => hb.not_gone hi (heq ▸ hg)
  · have hk : id ≤ w.lastId ∧ (id ∈ w.pending F → ∃ e, F.cur = some e ∧ e.id = id) := by
      rcases hknown id hid with hid | rfl
      · exact h.known id hid
      · obtain ⟨hle, hn⟩ := hi.known a.bndl.id (by rw [hc]; simp)
        exact ⟨hle, fun hm => absurd hm hn⟩
    refine ⟨hk.1.trans hlast, fun hm => hcur ▸ hk.2 ?_⟩
    exact (hpend id hm).resolve_right (not_lt.mpr hk.1)

theorem Act.acting_none {c c' : Config} (h : Act c c') (hno : c.1.acting = none) :
    c'.1.acting = none := by
  cases h with
  | tell link c a hgap ha => exact absurd (ha.symm.trans hno) (by simp)
  | _ => exact hno

theorem Gone.of_cache {id : Nat} (hg : Gone F' w' id)
    (hc : w'.idCache id = none → w.idCache id = none) (hdet : F'.detached = F.detached) :
    Gone F w id :=
  hg.imp hc fun ⟨d, hd, ht⟩ => ⟨d, hdet ▸ hd, ht⟩

theorem Act.ledger {c c' : Config} (h : Act c c') (hi : Filed c.1 c.2) (hi' : Filed c'.1 c'.2)
    (hp : Plain c.1 c.2) (hl : Ledger c.1 c.2) : Ledger c'.1 c'.2 := by
  have hres : ∀ q b, Resident c'.1 c'.2 q b → ∃ q₀ b₀, Resident c.1 c.2 q₀ b₀ ∧
      Becomes c.1 c'.1 q₀ b₀ q b := fun q b hb => h.resident hi hb
  have hno : c.1.acting = none → c'.1.hit ≠ none → c'.1.acting = none := fun hn _ => h.acting_none hn
  have hcur := h.sameInsertion.cur
  have hquiet : Silent c.2 c'.2 → c'.1.hands = c.1.hands →
      (∀ id, c'.2.idCache id = none → c.2.idCache id = none) → Ledger c'.1 c'.2 := fun hs hh hc =>
    hl.quiet hp hs hh hres hno (fun id hg => .inl (hg.of_cache (hc id) h.flight.2)) h.pending_sub
      h.lastId_le hcur
  have hfiles : c'.2.files = c.2.files → ∀ id, c'.2.idCache id = none → c.2.idCache id = none :=
    fun hf id hn => cache_of_files hf ▸ hn
  cases h with
  | report =>
    exact hquiet (.log (trace_report _ _ _ _ _ _ _) rfl) rfl (hfiles (files_report _ _ _ _ _ _ _))
  | newId => exact hquiet (.refl rfl) rfl fun _ hn => hn
  | enqueue e ids hids hgen hfires => exact absurd hfires hp.not_fires
  | @popLimit F w id c b hgap hpull hc hty hb =>
    obtain rfl := (Chain.findLimit_mem hb).2
    have hhit := hp.hit_none hpull
    have hlive : b.id ∉ F.spentAt c.p := by
      rw [Flight.spentAt_of_none hhit]
      exact List.not_mem_nil
    exact hl.take hp hi hi' (resident_limit.mpr ⟨b, (Chain.findLimit_mem hb).1, hlive, rfl⟩)
      (Flight.due_of_hit_none hhit) (idCache_erasedLimit _ _ _) (.refl rfl) rfl hres hno rfl
      (Act.pending_sub (.popLimit b.id c b hgap hpull hc hty hb)) le_rfl rfl
  | @moveFront F w p b bs c hgap hl' hb hc =>
    refine hquiet (.log rfl rfl) rfl fun id hn => ?_
    have hn : (w.copiedToAons (decide (p < w.ask)) p b c).idCache id = none := hn
    rw [idCache_copiedToAons] at hn
    split at hn
    · cases hn
    · exact hn
  | missFront => exact hquiet (.log rfl rfl) rfl fun _ hn => hn
  | settle =>
    exact hquiet (.refl rfl) rfl (hfiles (Exec.Limit.files_adjustStateAfterPull _ _ _))
  | close => exact hquiet (.refl rfl) rfl fun _ hn => hn
  | @popAon F w id c isBuy b hc hty hb =>
    obtain ⟨hm, rfl⟩ := Chain.findLimit_mem hb
    exact hl.take hp hi hi' (resident_aon.mpr ⟨isBuy, b, hm, rfl⟩) (Flight.due_of_kind (by simp))
      (idCache_erasedAon _ _ _ _) (.log rfl rfl) rfl hres hno rfl
      (Act.pending_sub (.popAon b.id c isBuy b hc hty hb)) (Act.lastId_le (.popAon b.id c isBuy b hc hty hb)) rfl
  | @popStop F w id c b hc hb =>
    obtain rfl := Chain.findStop_id hb
    exact hl.take hp hi hi' (resident_stop.mpr ⟨b, .inl (Chain.findStop_mem hb), rfl⟩)
      (Flight.due_of_kind (by simp)) (idCache_erasedStop _ _ _) (.refl rfl) rfl hres hno rfl
      (Act.pending_sub (.popStop b.id c b hc hb)) (Act.lastId_le (.popStop b.id c b hc hb)) rfl
  | @pulled F w id sz hands hh hsz =>
    have hh : F.hands = (id, sz) :: hands := hh
    refine hl.even hp (fun i => ?_) (fun e he => ?_) hres hno (fun i hg => .inl hg) (fun i hi => ?_)
      (Act.pending_sub (.pulled id sz hands hh hsz)) le_rfl rfl
    · unfold balance
      rw [World.spent_log, Flight.inHand_cons hh]
      simp only [Event.spends]
      omega
    · exact (List.mem_cons.mp he).resolve_left (by simp)
    · have hid : ∃ x ∈ F.hands, x.1 = id := ⟨(id, sz), by rw [hh]; simp, rfl⟩
      rcases hi with ⟨ev, hm, hev⟩ | ⟨x, hx, rfl⟩
      · rcases List.mem_cons.mp hm with rfl | hm
        · exact .inr (List.mem_singleton.mp hev ▸ hid)
        · exact .inl ⟨ev, hm, hev⟩
      · exact .inr ⟨x, hh ▸ List.mem_cons_of_mem _ hx, rfl⟩
  | @drop F w id hands hh =>
    have hh : F.hands = (id, 0) :: hands := hh
    refine hl.even hp (fun i => ?_) (fun e he => he) hres hno (fun i hg => .inl hg) (fun i hi => ?_)
      (Act.pending_sub (.drop id hands hh)) le_rfl rfl
    · unfold balance
      rw [Flight.inHand_cons hh, ite_self, Nat.zero_add]
    · exact hi.imp_right fun ⟨x, hx, hid⟩ => ⟨x, hh ▸ List.mem_cons_of_mem _ hx, hid⟩
  | @lose F w id sz p hands b bs hh hl' hb hc hpull =>
    -- an order of a chain is cached
    have hlive : b.id ∉ F.spentAt p := by
      rw [Flight.spentAt_of_none (hp.hit_none hpull)]
      exact List.not_mem_nil
    have hr : Resident F w (.limit, p) b.toOrderBndl :=
      resident_limit.mpr ⟨b, by rw [hl']; simp, hlive, rfl⟩
    obtain ⟨c, hc', -⟩ := hr.cached hi
    exact absurd (hc'.symm.trans hc) (by simp)
  | trailingErase => exact hquiet (.refl rfl) rfl (hfiles (files_trailingErased _ _ _))
  | pullEmptyStop | look => exact hquiet (.log rfl rfl) rfl fun _ hg => hg
  | grow params id c a hgap ha hpay =>
    exact absurd (hpay.symm.trans (hp.acting a ha).payload) (by simp)
  | growBoth first second id1 id2 c1 c2 a msg cb id price sz hgap ha hpay =>
    exact absurd (hpay.symm.trans (hp.acting a ha).payload) (by simp)
  | tell link c a hgap ha hpay =>
    exact absurd (hpay.symm.trans (hp.acting a ha).payload) (by simp)

/-- The new calls are a trade and ones without parties. -/
theorem known_of_traded {plev n id i : Nat} {cb1 cb2 : OrderExecCbBndl} {evs : List Event}
    {hands : List (Nat × Nat)} {size size' : Nat} (hh : F.hands = (id, size) :: hands)
    (hhands : F'.hands = (id, size') :: hands)
    (ht : w'.trace = evs ++ (w.traded plev n id i cb1 cb2).trace) (hevs : ∀ ev ∈ evs, ev.parties = [])
    {j : Nat} (hj : (∃ ev ∈ w'.trace, j ∈ ev.parties) ∨ ∃ h ∈ F'.hands, h.1 = j) :
    ((∃ ev ∈ w.trace, j ∈ ev.parties) ∨ ∃ h ∈ F.hands, h.1 = j) ∨ i = j := by
  have hid : ∀ j, j = id → ((∃ ev ∈ w.trace, j ∈ ev.parties) ∨ ∃ h ∈ F.hands, h.1 = j) ∨ i = j :=
    fun j hj => .inl (.inr ⟨(id, size), by rw [hh]; simp, hj.symm⟩)
  rcases hj with ⟨ev, hm, hev⟩ | ⟨x, hx, rfl⟩
  · rw [ht, trace_traded] at hm
    rcases List.mem_append.mp hm with hm | hm
    · rw [hevs ev hm] at hev
      cases hev
    · simp only [List.mem_cons] at hm
      rcases hm with rfl | rfl | rfl | hm
      · rcases List.mem_pair.mp hev with rfl | rfl
        · exact hid _ rfl
        · exact .inr rfl
      · cases hev
      · cases hev
      · exact .inl (.inl ⟨ev, hm, hev⟩)
  · rw [hhands] at hx
    rcases List.mem_cons.mp hx with rfl | hx
    · exact hid _ rfl
    · exact .inl (.inr ⟨x, hh ▸ List.mem_cons_of_mem _ hx, rfl⟩)

theorem insertOrder_of_traded {plev n id i : Nat} {cb1 cb2 : OrderExecCbBndl} {evs : List Event}
    (ht : w'.trace = evs ++ (w.traded plev n id i cb1 cb2).trace) (hevs : ∀ ev ∈ evs, ev.parties = [])
    {e : OrderQueueElem} (he : .insertOrder e ∈ w'.trace) : .insertOrder e ∈ w.trace := by
  rw [ht, trace_traded] at he
  rcases List.mem_append.mp he with he | he
  · exact absurd (hevs _ he) (by simp [Event.parties])
  · simpa using he

theorem Move.ledger {c c' : Config} (h : Move c c') (hi : Filed c.1 c.2) (hi' : Filed c'.1 c'.2)
    (ha : Ambient c.1 c.2) (hw : c.1.Walks) (hzero : c'.2.NoEmptyHit) (hp : Plain c.1 c.2)
    (hl : Ledger c.1 c.2) : Ledger c'.1 c'.2 := by
  have hres : ∀ q b, Resident c'.1 c'.2 q b → ∃ q₀ b₀, Resident c.1 c.2 q₀ b₀ ∧
      Becomes c.1 c'.1 q₀ b₀ q b := fun q b hb => h.resident hi ha hw hzero hb
  have hcur := h.sameInsertion.cur
  have hpend := h.pending_sub
  have hlast := h.lastId_le
  have hquiet : Silent c.2 c'.2 → c'.1.hands = c.1.hands →
      (c.1.acting = none → c'.1.hit ≠ none → c'.1.acting = none) →
      (∀ id, Gone c'.1 c'.2 id → Gone c.1 c.2 id) → Ledger c'.1 c'.2 := fun hs hh hno hg =>
    hl.quiet hp hs hh hres hno (fun id hid => .inl (hg id hid)) hpend hlast hcur
  cases h with
  | act h => exact h.ledger hi hi' hp hl
  | @call F w ev hev =>
    exact hquiet (.log rfl (by cases ev <;> first | rfl | exact hev.elim)) rfl (fun hn _ => hn)
      fun _ hg => hg
  | @fillAon F w bidSide plev id size cb b kept bs hands hh hl' hne hsize hsz =>
    have hb : Resident F w (.aon, plev) b.toOrderBndl :=
      resident_aon.mpr ⟨bidSide, b, by rw [hl']; simp, rfl⟩
    have hevs : ∀ ev ∈ [Event.filled b.id], ev.parties = [] := fun _ hm =>
      List.mem_singleton.mp hm ▸ rfl
    refine hl.depart hp hi hi' hb (Flight.due_of_kind (by simp)) (fun j => ?_)
      (fun j => balance_traded hh hsz rfl ?_) (fun e he => insertOrder_of_traded rfl hevs he) hres
      (fun hn _ => hn) rfl (fun j hj => known_of_traded hh rfl rfl hevs hj) hpend hlast rfl
    · rw [World.toSob_onSob, Sob.idCache_setAons, Sob.idCache_cacheErase, World.toSob_log,
        cache_of_files (files_traded _ _ _ _ _ _ _)]
    · rw [World.spent_onSob, World.spent_log, World.spent_traded]
      exact Nat.zero_add _
  | @fillLastAon F w bidSide plev id size cb b hands hh hl' hsize hsz =>
    have hb : Resident F w (.aon, plev) b.toOrderBndl :=
      resident_aon.mpr ⟨bidSide, b, by rw [hl']; simp, rfl⟩
    have hevs : ∀ ev ∈ [Event.filled b.id], ev.parties = [] := fun _ hm =>
      List.mem_singleton.mp hm ▸ rfl
    refine hl.depart hp hi hi' hb (Flight.due_of_kind (by simp)) (fun j => ?_)
      (fun j => balance_traded hh hsz rfl ?_) (fun e he => insertOrder_of_traded rfl hevs he) hres
      (fun hn _ => hn) rfl (fun j hj => known_of_traded hh rfl rfl hevs hj) hpend hlast rfl
    · rw [World.toSob_onSob, cache_of_files (Exec.Aon.files_adjustStateAfterPull _ _ _),
        Sob.idCache_setAons, Sob.idCache_cacheErase, World.toSob_log,
        cache_of_files (files_traded _ _ _ _ _ _ _)]
    · rw [World.spent_onSob, World.spent_log, World.spent_traded]
      exact Nat.zero_add _
  | @freeAon F w bidSide plev hl' =>
    refine hquiet (.refl rfl) rfl (fun hn _ => hn) fun id hg => hg.of_cache (fun hn => ?_) rfl
    rwa [World.toSob_onSob, cache_of_files (Exec.Aon.files_adjustStateAfterPull _ _ _)] at hn
  | beginHit => exact hquiet (.log rfl rfl) rfl (fun hn _ => hn) fun _ hg => hg
  | skip => exact hquiet (.refl rfl) rfl (fun hn _ => hn) fun _ hg => hg
  | @moveHit F w h id size b c todo =>
    refine hquiet (.log rfl rfl) rfl (fun hn _ => hn) fun id hg => hg.of_cache (fun hn => ?_) rfl
    have hn : (w.copiedToAons (decide (h.plev < w.ask)) h.plev b c).idCache id = none := hn
    rw [idCache_copiedToAons] at hn
    split at hn
    · cases hn
    · exact hn
  | @fill F w h id size cb b todo hands hh hhit htodo hl' hsize hb hact =>
    have hx : Resident F w (.limit, h.plev) b.toOrderBndl :=
      resident_limit.mpr ⟨b, (Chain.findLimit_mem hl').1, hw.live hhit htodo, rfl⟩
    obtain ⟨c, hc, -⟩ := hx.cached hi
    have hevs : ∀ ev ∈ ([] : List Event), ev.parties = [] := fun _ hm => by cases hm
    have hbal : ∀ j, balance { F with
        hit := some { h with done := h.done ++ [b.id], todo := todo }
        hands := (id, size - min size b.sz) :: hands
        acting := some { bndl := b.toOrderBndl, amount := min size b.sz } }
        (w.traded h.plev (min size b.sz) id b.id cb b.cb) j =
          balance F w j + if b.id = j then min size b.sz else 0 := fun j =>
      balance_traded hh (Nat.min_le_left _ _) rfl (World.spent_traded _ _ _ _ _ _)
    have hcache : ∀ j, (w.traded h.plev (min size b.sz) id b.id cb b.cb).idCache j = w.idCache j :=
      fun j => by rw [cache_of_files (files_traded _ _ _ _ _ _ _)]
    have hspent : ∀ p, F.spentAt p ⊆ Flight.spentAt { F with
        hit := some { h with done := h.done ++ [b.id], todo := todo } } p := fun p => by
      rw [Flight.spentAt_of_hit hhit, Flight.spentAt_of_hit rfl]
      exact List.Subset.refl _
    exact hl.fills hi hx hact hbal rfl rfl (Nat.min_le_right _ _)
      (fun e he => insertOrder_of_traded rfl hevs he) (fun q b hb => hb.of_filed
        (files_traded _ _ _ _ _ _ _) (fun p => hspent p) fun _ => List.Subset.refl _) (fun j hg => hg.of_cache (fun hn => hcache j ▸ hn) rfl)
      (fun j hj => known_of_traded hh rfl rfl hevs hj) hpend hlast rfl
  | rearm => exact hquiet (.refl rfl) rfl (fun hn _ => hn) fun _ hg => hg
  | reduce => exact hquiet (.refl rfl) rfl (fun _ _ => rfl) fun _ hg => hg
  | @retire F w h a x hgap hhit hact hx hsz hnew =>
    -- nothing is left of the order
    obtain ⟨y, hy, rfl⟩ := findLimit_reduced hx
    obtain ⟨hm, hid⟩ := Chain.findLimit_mem hy
    have hspent := Flight.spentAt_of_hit hhit h.plev
    rw [if_pos rfl] at hspent
    have hr : Resident F w (.limit, h.plev) y.toOrderBndl :=
      resident_limit.mpr ⟨y, hm, by rwa [hspent, hid], rfl⟩
    refine hl.quiet hp (.log rfl rfl) rfl hres (fun _ _ => rfl) (fun j hg => ?_) hpend hlast hcur
    by_cases hj : j = a.bndl.id
    · subst hj
      refine .inr ⟨_, _, hr, hid, ?_⟩
      rw [Flight.due_of_some hhit hact, if_pos ⟨rfl, rfl⟩]
      exact hsz
    · refine .inl (hg.of_cache (fun hn => ?_) rfl)
      rw [World.toSob_onSob, Sob.idCache_cacheErase, if_neg hj] at hn
      exact hn
  | eraseHit => exact hquiet (.refl rfl) rfl (fun hn _ => hn) fun _ hg => hg
  | freeHit =>
    refine hquiet (.refl rfl) rfl (fun hn _ => hn) fun id hg => hg.of_cache (fun hn => ?_) rfl
    rwa [World.toSob_onSob, cache_of_files (Exec.Core.files_findNewBestInside _ _)] at hn
  | @missHit F w h s trace hhit hdone hspent htrace =>
    exact absurd (htrace ▸ List.mem_cons_self) (hzero s h.plev)
  | @wipeHit F w bidSide h s trace hgap hhit hdone htrace =>
    exact absurd (htrace ▸ List.mem_cons_self) (hzero s h.plev)
  | @moveStop F w buyStops p id c x nticks pAdj hc hx =>
    refine hquiet (.log (trace_movedStop _ _ _ _) rfl) rfl (fun hn _ => hn) fun j hg =>
      hg.of_cache (fun hn => ?_) rfl
    exact cache_of_movedStop (b := x) hn
  | beginScan | turnScan => exact hquiet (.log rfl rfl) rfl (fun hn _ => hn) fun _ hg => hg
  | eraseTriggered =>
    refine hquiet (.refl rfl) rfl (fun hn _ => hn) fun _ hg => hg.imp_left fun hn => ?_
    rwa [World.toSob_onSob, cache_of_files (files_trailingErased _ _ _)] at hn
  | endScan => exact hquiet (.refl rfl) rfl (fun hn _ => hn) fun _ hg => hg
  | @detach F w buyStops plev sc hscan hdet =>
    refine hquiet (.refl rfl) rfl (fun hn _ => hn) fun j hg => ?_
    rcases hg with hn | ⟨d, hd, ht⟩
    · rw [World.toSob_onSob, cache_of_files (Exec.Stop.files_adjustStateAfterTrigger _ _ _),
        Sob.idCache_setStops] at hn
      exact .inl hn
    · cases hd
      cases ht
  | beginTrigger d e todo hdet htodo hact hhit =>
    exact hquiet (.refl rfl) rfl (fun _ hn => absurd hhit hn) fun _ hg => hg
  | @turn F w d e todo order ids msg hdet htodo hturn =>
    have hr : Resident F w (.stop, d.plev) e.toOrderBndl := by
      refine resident_stop.mpr ⟨e, .inr ?_, rfl⟩
      rw [Flight.triggering_of_some hdet, if_pos rfl, htodo]
      exact List.mem_cons_self
    obtain ⟨c, hc, -⟩ := hr.cached hi
    have hbal : ∀ j, balance { F with
        ids := ids, detached := some { d with todo := todo, turning := some e.id } }
        (w.turned msg e d.plev order) j = balance F w j + if e.id = j then e.sz else 0 := fun j => by
      unfold balance
      rw [World.spent_turned]
      change _ + F.inHand j = _
      omega
    refine hl.next hp (fun e' he => ?_) (fun q b hb => ⟨hres q b hb, ?_⟩) (fun hn _ => hn)
      (fun j hg => ?_) (fun j hj => ?_) hpend hlast rfl
    · rw [trace_turned] at he
      simpa using he
    · -- the stop is not in its drawer any more
      have hne : ¬ e.id = b.id := fun heq =>
        hb.not_gone hi' (.inr ⟨{ d with todo := todo, turning := some e.id }, rfl, congrArg some heq⟩)
      rw [hbal, if_neg hne, Nat.add_zero]
    · by_cases hj : e.id = j
      · refine .inr ⟨_, _, hr, hj, ?_⟩
        rw [hbal, if_pos hj, Flight.due_of_kind (by simp), Nat.sub_zero]
      · refine .inl ⟨?_, by rw [hbal, if_neg hj, Nat.add_zero]⟩
        rcases hg with hn | ⟨d', hd, ht⟩
        · rw [cache_of_files (files_turned _ _ _ _ _)] at hn
          exact .inl hn
        · cases hd
          cases ht
          exact absurd rfl hj
    · rw [trace_turned] at hj
      rcases hj with ⟨ev, hm, hev⟩ | hj
      · simp only [List.mem_cons] at hm
        rcases hm with rfl | rfl | rfl | hm
        · cases hev
        · cases hev
        · obtain rfl := List.mem_singleton.mp hev
          exact .inr (hi.known e.id (by rw [hc]; simp))
        · exact .inl (.inl ⟨ev, hm, hev⟩)
      · exact .inl (.inr hj)
  | @endTrigger F w d id hdet hturn =>
    refine hquiet (.refl rfl) rfl (fun _ _ => rfl) fun j hg => ?_
    rcases hg with hn | ⟨d', hd, ht⟩
    · rw [World.toSob_onSob, Sob.idCache_cacheErase] at hn
      split at hn
      next hj => exact .inr ⟨d, hdet, hj ▸ hturn⟩
      next => exact .inl hn
    · cases hd
      cases ht
  | @endDetached F w d hdet htodo hturn =>
    refine hquiet (.refl rfl) rfl (fun hn _ => hn) fun j hg => ?_
    rcases hg with hn | ⟨d', hd, ht⟩
    · exact .inl hn
    · cases hd

end Ledger
end SimpleOrderbook
