import SimpleOrderbook.Ledger
import SimpleOrderbook.Succession

/-!
# Conservation of quantity

In a run of plain orders that ends without an exception and never hits a limit chain with nothing to
trade, the size of every accepted order is what it traded, what rests of it, what it was pulled with
and what it handed on to the order it became, if it is a stop.
-/
namespace SimpleOrderbook

/-! ## Trades and insertions -/

theorem Moves.ledger {c c' : Config} (h : Moves c c') (hs : Sorted c) (ha : Ambient c.1 c.2)
    (hzero : c'.2.NoEmptyHit) (hw : c.1.Walks) (hp : Plain c.1 c.2) (hl : Ledger c.1 c.2) :
    c'.1.Walks ∧ Plain c'.1 c'.2 ∧ Ledger c'.1 c'.2 := by
  induction h with
  | refl => exact ⟨hw, hp, hl⟩
  | tail h h' ih =>
    have hzero' := hzero.of_suffix h'.trace_suffix
    obtain ⟨hw, hp, hl⟩ := ih hzero'
    have hapart : ∀ d, Moves _ d → LinksApart d.1 d.2 := fun _ hm =>
      (Moves.links hm hs.links).linksApart
    have hi := Moves.filed h hs.shelved.toFiled hapart hzero'
    have hi' := Moves.filed (Moves.move h h') hs.shelved.toFiled hapart hzero
    have ha := Moves.ambient h ha
    exact ⟨h'.walks ha hw, h'.plain hi ha hw hzero hp, h'.ledger hi hi' ha hw hzero hp hl⟩

/-- The ledger in the middle of a window. The order under insertion waits in the caller's hands. -/
structure Booked (F : Flight) (w : World) : Prop where
  plain : Plain F w
  ledger : Ledger F w
  cur : ∀ e, F.cur = some e → e.id ≤ w.lastId ∧ (e.id ∈ w.pending F → e.id ∈ F.ids)

section Booked
variable {F F' : Flight} {w w' : World}

/-- The ledger and the plain orders are kept, and what waits waits where it did. -/
theorem Booked.keep (h : Booked F w) (hp : Plain F' w') (hl : Ledger F' w')
    (hpend : ∀ id ∈ w'.pending F', id ∈ w.pending F ∨ w.lastId < id)
    (hlast : w.lastId ≤ w'.lastId) (hcur : F'.cur = F.cur)
    (hids : ∀ id ∈ w'.pending F', id ∈ F.ids → id ∈ F'.ids) : Booked F' w' := by
  refine ⟨hp, hl, fun e he => ?_⟩
  obtain ⟨hle, hin⟩ := h.cur e (hcur ▸ he)
  refine ⟨hle.trans hlast, fun hm => hids e.id hm (hin ?_)⟩
  exact (hpend e.id hm).resolve_right (not_lt.mpr hle)

/-- No call walks a chain, and no quantity is accounted for. -/
theorem Booked.quiet (h : Booked F w) (hsil : Silent w w')
    (hhands : F'.hands = F.hands) (hf : w'.files = w.files) (hhit : F'.hit = F.hit)
    (hdet : F'.detached = F.detached) (hact : F'.acting = F.acting) (hcur : F'.cur = F.cur)
    (hext : F'.ext = F.ext)
    (hqueue : ∀ e ∈ w'.internalOrderQueue, e ∈ w.internalOrderQueue)
    (hpend : ∀ id ∈ w'.pending F', id ∈ w.pending F) (hlast : w'.lastId = w.lastId)
    (hids : ∀ id ∈ w'.pending F', id ∈ F.ids → id ∈ F'.ids) : Booked F' w' := by
  have hres : ∀ q b, Resident F' w' q b → ∃ q₀ b₀, Resident F w q₀ b₀ ∧ Becomes F F' q₀ b₀ q b :=
    fun q b hb => ⟨q, b, hb.of_files hf hhit hdet, .same (Flight.due_congr hhit hact q b.id)⟩
  have hpend' : ∀ id ∈ w'.pending F', id ∈ w.pending F ∨ w.lastId < id := fun id hid =>
    .inl (hpend id hid)
  refine h.keep (h.plain.next (fun q b hb => .inl (hres q b hb)) (fun a ha => .inl ⟨a, hact ▸ ha, rfl⟩)
    (fun e he => .inl (hqueue e he)) (fun e he => .inl (hcur ▸ he)) hext)
      (h.ledger.quiet h.plain hsil hhands hres (fun hn _ => hact.trans hn) (fun id hg => .inl ?_)
        hpend' hlast.ge hcur) hpend' hlast.ge hcur hids
  exact hg.of_cache (fun hn => by rwa [cache_of_files hf] at hn) hdet

theorem Booked.not_inserts_other (h : Booked F w) {e : OrderQueueElem} (hins : F.Inserts e) :
    F.cur = some e := by
  obtain ⟨e', he', rfl | ⟨hc, -⟩⟩ := hins
  · exact he'
  · rcases h.plain.cur e' he' with hc' | hc' <;> simp [hc] at hc'

/-- What was pushed of a plain order is plain. -/
theorem Booked.rests (h : Booked F w) {e : OrderQueueElem} {b : OrderBndl} (hins : F.Inserts e)
    (hb : e.Rests b) (hpay : b.payload = .null) : b.Plain :=
  ⟨hpay, hb.condition.elim .inl fun hc => hc ▸ h.plain.cur e (h.not_inserts_other hins)⟩

/-- An order goes from the caller's hands to the book. -/
theorem Booked.push (h : Booked F w) (hs : Shelved F w) (ha : Ambient F w) {b : OrderBndl}
    {hands : List (Nat × Nat)} {ids : List Nat} (hb : b.Plain)
    (hh : F.hands = (b.id, b.sz) :: hands) (hids : F.ids = b.id :: ids)
    (hhands : F'.hands = hands) (hids' : F'.ids = ids) (hfront : F'.front = F.front)
    (hhit : F'.hit = none) (hact : F'.acting = F.acting) (hdet : F'.detached = F.detached)
    (hcur : F'.cur = F.cur) (hext : F'.ext = F.ext) (htrace : w'.trace = w.trace)
    (hq : w'.internalOrderQueue = w.internalOrderQueue) (hlast : w'.lastId = w.lastId)
    (hres : ∀ q x, Resident F' w' q x → Resident F w q x ∨ x = b)
    (hcache : ∀ j, w'.idCache j = none → w.idCache j = none ∧ j ≠ b.id) : Booked F' w' := by
  obtain ⟨hp, hl, hcu⟩ := h
  have hnone := hs.idCache_new hids
  have hpend : w.pending F = b.id :: w'.pending F' := by
    unfold Sob.pending
    rw [hids, hids', hfront, hq, List.cons_append]
  have hnew : b.id ∉ w'.pending F' := fun hm =>
    (List.nodup_cons.mp (hpend ▸ ha.pending_nodup)).1 hm
  have hbal : ∀ j, balance F w j = balance F' w' j + if b.id = j then b.sz else 0 := fun j => by
    unfold balance World.spent Flight.inHand
    rw [htrace, hh, hhands, List.map_cons, List.sum_cons]
    dsimp only
    omega
  have hold : ∀ q x, Resident F w q x → x.id ≠ b.id := fun q x hx hid => by
    obtain ⟨c, hc, -⟩ := hx.cached hs.toFiled
    rw [hid, hnone] at hc
    cases hc
  refine ⟨?_, ⟨fun e he q x hx hid => ?_, fun e he hg => ?_, fun id hid => ?_⟩, fun e he => ?_⟩
  · refine ⟨fun q x hx => ?_, fun a ha => hp.acting a (hact ▸ ha), fun e he => hp.queue e (hq ▸ he),
      fun e he => hp.cur e (hcur ▸ he), fun e he => hp.ext e (hext ▸ he)⟩
    rcases hres q x hx with hx | rfl
    · exact hp.resident q x hx
    · exact hb
  · rw [Flight.due_of_hit_none hhit, Nat.sub_zero]
    rw [htrace] at he
    rcases hres q x hx with hx | rfl
    · have := hl.resting e he q x hx hid
      rw [Flight.due_of_hit_none hs.hit, Nat.sub_zero, hbal,
        if_neg fun heq => hold q x hx (hid.trans heq.symm)] at this
      exact this
    · have := hl.gone e he (.inl (hid ▸ hnone))
      rw [hbal, if_pos hid] at this
      exact this
  · rw [htrace] at he
    rcases hg with hn | ⟨d, hd, -⟩
    · obtain ⟨hn, hne⟩ := hcache e.id hn
      have := hl.gone e he (.inl hn)
      rw [hbal, if_neg fun heq => hne heq.symm] at this
      exact this
    · rw [hdet, hs.detached] at hd
      cases hd
  · have hk := hl.known id (by
      rw [htrace, hhands] at hid
      exact hid.imp_right fun ⟨x, hx, hxid⟩ => ⟨x, hh ▸ List.mem_cons_of_mem _ hx, hxid⟩)
    exact ⟨hlast ▸ hk.1, fun hm => hcur ▸ hk.2 (hpend ▸ List.mem_cons_of_mem _ hm)⟩
  · obtain ⟨hle, hin⟩ := hcu e (hcur ▸ he)
    refine ⟨hlast ▸ hle, fun hm => ?_⟩
    have := hin (hpend ▸ List.mem_cons_of_mem _ hm)
    rw [hids] at this
    rw [hids']
    exact (List.mem_cons.mp this).resolve_left fun heq => hnew (heq ▸ hm)

/-- Between two insertions, no call was about an order whose id waits. -/
theorem Booked.fresh {F : Flight} {w : World} (h : Booked F w) {id : Nat} {ids : List Nat}
    (hids : F.ids = id :: ids) (hcur : F.cur = none) : ∀ ev ∈ w.trace, id ∉ ev.parties := by
  intro ev hm hev
  have hwait : id ∈ w.pending F := by
    unfold Sob.pending
    rw [hids]
    exact List.mem_cons_self
  obtain ⟨e, he, -⟩ := (h.ledger.known id (.inl ⟨ev, hm, hev⟩)).2 hwait
  rw [hcur] at he
  cases he

/-- The order is accepted; nothing is known of it yet. -/
theorem Booked.accept {F : Flight} {w : World} (h : Booked F w) (hs : Shelved F w)
    (ha : Ambient F w) {e : OrderQueueElem} {ids : List Nat} (he : e.condition.IsPlain)
    (hids : F.ids = e.id :: ids) (hhands : F.hands = []) (hcur : F.cur = none) :
    Booked { F with hands := [(e.id, e.sz)], cur := some e, legs := [], exits := none }
      (w.log (.insertOrder e)) := by
  let F' : Flight := { F with hands := [(e.id, e.sz)], cur := some e, legs := [], exits := none }
  have hfresh := h.fresh hids hcur
  obtain ⟨hp, hl, hcu⟩ := h
  have hwait : e.id ∈ w.pending F := by
    unfold Sob.pending
    rw [hids]
    exact List.mem_cons_self
  have hother : ∀ e', .insertOrder e' ∈ w.trace → ¬ e.id = e'.id := fun e' hm heq =>
    hfresh _ hm (heq ▸ List.mem_singleton_self e'.id)
  have hspent : w.spent e.id = 0 := sum_spends_eq_zero hfresh
  have hbal : ∀ j, balance F' (w.log (.insertOrder e)) j =
      balance F w j + if e.id = j then e.sz else 0 := fun j => by
    unfold balance Flight.inHand
    rw [World.spent_log, hhands]
    simp [F', Event.spends]
  have hzero : balance F w e.id = 0 := by
    unfold balance Flight.inHand
    rw [hspent, hhands]
    rfl
  have hnone := hs.idCache_new hids
  refine ⟨⟨hp.resident, hp.acting, hp.queue, fun e' he' => ?_, hp.ext⟩,
    ⟨fun e' hm q b hb hid => ?_, fun e' hm hg => ?_, fun id hid => ?_⟩, fun e' he' => ?_⟩
  · cases he'
    exact he
  · have hb : Resident F w q b := hb
    rcases List.mem_cons.mp hm with heq | hm
    · cases heq
      obtain ⟨c, hc, -⟩ := hb.cached hs.toFiled
      rw [hid, hnone] at hc
      cases hc
    · rw [hbal, if_neg (hother e' hm)]
      exact hl.resting e' hm q b hb hid
  · rcases List.mem_cons.mp hm with heq | hm
    · cases heq
      rw [hbal, if_pos rfl, hzero, Nat.zero_add]
    · rw [hbal, if_neg (hother e' hm)]
      exact hl.gone e' hm hg
  · have hself : id = e.id → id ≤ w.lastId ∧
        (id ∈ w.pending F → ∃ e', some e = some e' ∧ e'.id = id) := fun heq =>
      ⟨heq ▸ ha.pending_le e.id hwait, fun _ => ⟨e, rfl, heq.symm⟩⟩
    rcases hid with ⟨ev, hm, hev⟩ | ⟨x, hx, rfl⟩
    · rcases List.mem_cons.mp hm with rfl | hm
      · exact hself (List.mem_singleton.mp hev)
      · obtain ⟨hle, hn⟩ := hl.known id (.inl ⟨ev, hm, hev⟩)
        refine ⟨hle, fun hm => ?_⟩
        obtain ⟨e', he', -⟩ := hn hm
        rw [hcur] at he'
        cases he'
    · obtain rfl := List.mem_singleton.mp hx
      exact hself rfl
  · cases he'
    exact ⟨ha.pending_le e.id hwait, fun _ => hids ▸ List.mem_cons_self⟩

/-- Both orders of a trade are in hand. -/
theorem Booked.print {F : Flight} {w : World} (h : Booked F w)
    {p id1 id2 sz1 sz2 n : Nat} {cb1 cb2 : OrderExecCbBndl} {hands : List (Nat × Nat)}
    (hh : F.hands = (id1, sz1) :: (id2, sz2) :: hands) (h1 : n ≤ sz1) (h2 : n ≤ sz2) :
    Booked { F with hands := (id1, sz1 - n) :: (id2, sz2 - n) :: hands }
      ((w.log (.preTradePrint w.toSob p)).traded p n id1 id2 cb1 cb2) := by
  let F' : Flight := { F with hands := (id1, sz1 - n) :: (id2, sz2 - n) :: hands }
  let w1 := w.log (.preTradePrint w.toSob p)
  have hf : (w1.traded p n id1 id2 cb1 cb2).files = w.files := files_traded _ _ _ _ _ _ _
  have hq : (w1.traded p n id1 id2 cb1 cb2).internalOrderQueue = w.internalOrderQueue :=
    queue_traded w1 p n id1 id2 cb1 cb2
  have hlast : (w1.traded p n id1 id2 cb1 cb2).lastId = w.lastId := by
    obtain ⟨_, _, heq⟩ := w1.traded_eq p n id1 id2 cb1 cb2
    rw [heq]
    rfl
  have hres : ∀ q b, Resident F' (w1.traded p n id1 id2 cb1 cb2) q b →
      ∃ q₀ b₀, Resident F w q₀ b₀ ∧ Becomes F F' q₀ b₀ q b := fun q b hb =>
    ⟨q, b, hb.of_files hf rfl rfl, .same rfl⟩
  have hpend : ∀ id ∈ (w1.traded p n id1 id2 cb1 cb2).pending F', id ∈ w.pending F ∨ w.lastId < id :=
    fun id hid => .inl (by unfold Sob.pending at hid ⊢; rwa [hq] at hid)
  have htrace : ∀ ev ∈ (w1.traded p n id1 id2 cb1 cb2).trace, ev ∈ w.trace ∨
      ∀ id ∈ ev.parties, id = id1 ∨ id = id2 := fun ev hm => by
    rw [trace_traded] at hm
    simp only [List.mem_cons, w1, World.trace_log] at hm
    rcases hm with rfl | rfl | rfl | rfl | hm
    · exact .inr fun id hid => List.mem_pair.mp hid
    all_goals first
      | exact .inl hm
      | exact .inr fun id hid => by cases hid
  refine h.keep (h.plain.next (fun q b hb => .inl (hres q b hb)) (fun a ha => .inl ⟨a, ha, rfl⟩)
    (fun e he => .inl (hq ▸ he)) (fun e he => .inl he) rfl) (h.ledger.even h.plain (fun id => ?_)
      (fun e hm => ?_) hres (fun hn _ => hn) (fun id hg => .inl ?_) (fun id hid => ?_) hpend
        hlast.ge rfl) hpend hlast.ge rfl fun id _ hid => hid
  · unfold balance Flight.inHand
    rw [World.spent_traded, hh]
    simp only [List.map_cons, List.sum_cons, World.spent_log, Event.spends]
    split <;> split <;> omega
  · rw [trace_traded] at hm
    simpa [w1] using hm
  · exact hg.of_cache (fun hn => by rwa [cache_of_files hf] at hn) rfl
  · have hhand : id = id1 ∨ id = id2 → ∃ x ∈ F.hands, x.1 = id := by
      rw [hh]
      rintro (heq | heq)
      · exact ⟨(id1, sz1), by simp, heq.symm⟩
      · exact ⟨(id2, sz2), by simp, heq.symm⟩
    rcases hid with ⟨ev, hm, hev⟩ | ⟨x, hx, rfl⟩
    · rcases htrace ev hm with hm | hall
      · exact .inl ⟨ev, hm, hev⟩
      · exact .inr (hhand (hall id hev))
    · simp only [List.mem_cons] at hx
      rcases hx with rfl | rfl | hx
      · exact .inr (hhand (.inl rfl))
      · exact .inr (hhand (.inr rfl))
      · exact .inr ⟨x, by rw [hh]; simp [hx], rfl⟩

theorem Step.booked {c c' : Config} (h : Step c c') (hs : Sorted c) (hs' : Sorted c')
    (ha : Ambient c.1 c.2) (hzero : c'.2.NoEmptyHit) (hb : Booked c.1 c.2) : Booked c'.1 c'.2 := by
  have hsh := hs.shelved
  have hlast := h.lastId_le
  cases h with
  | act h =>
    exact hb.keep (h.plain hsh.toFiled hb.plain)
      (h.ledger hsh.toFiled hs'.shelved.toFiled hb.plain hb.ledger) h.pending_sub h.lastId_le
        h.sameInsertion.cur fun id _ hid => h.ids_mono hb.plain hid
  | trade bidSide plev id size r cb hF hp hpe hrun hm =>
    obtain ⟨-, hp, hl⟩ := Moves.ledger hm hs ha hzero (.of_hit_none hF.hit) hb.plain hb.ledger
    exact hb.keep hp hl (Moves.pending_sub hm) (Moves.lastId_le hm) rfl fun id _ hid => hid
  | @beginOrder F w ie queue hfront hq =>
    refine hb.quiet (.refl rfl) rfl rfl rfl rfl rfl rfl rfl (fun e he => he) (fun id hid => ?_)
      rfl fun id _ hid => ?_
    · simp only [Sob.pending, hfront, hq, List.drop_one, List.tail_cons, List.drop_zero] at hid ⊢
      split at hid
      · rcases List.mem_append.mp hid with hid | hid
        · simp [hid]
        · simp only [List.map_cons, List.mem_append, List.mem_cons, hid, or_true]
      · simp only [List.cons_append, List.mem_cons, List.mem_append, List.map_cons] at hid ⊢
        tauto
    · dsimp only
      split
      · exact hid
      · exact List.mem_cons_of_mem _ hid
  | @endOrder F w hfront =>
    refine hb.quiet (.refl rfl) rfl rfl rfl rfl rfl rfl rfl
      (fun e he => List.mem_of_mem_tail he) (fun id hid => ?_) rfl fun id _ hid => hid
    simpa [Sob.pending, hfront, World.onSob, List.drop_one] using hid
  | @accept F w e ids hids hhands hcur hext hint =>
    refine hb.accept hsh ha ?_ hids hhands hcur
    by_cases hfront : F.front = 0
    · obtain ⟨e', he', heq⟩ := hext hfront
      rw [heq]
      exact hb.plain.ext e' he'
    · obtain ⟨e', queue, hq, heq⟩ := hint hfront
      rw [heq]
      exact hb.plain.queue e' (hq ▸ List.mem_cons_self)
  | @finish F w hhands hids =>
    obtain ⟨hp, hl, hcu⟩ := hb
    refine ⟨⟨hp.resident, hp.acting, hp.queue, fun e he => (by cases he), hp.ext⟩,
      ⟨hl.resting, hl.gone, fun id hid => ?_⟩, fun e he => by cases he⟩
    obtain ⟨hle, hn⟩ := hl.known id hid
    refine ⟨hle, fun hm => ?_⟩
    obtain ⟨e, he, rfl⟩ := hn hm
    exact absurd ((hcu e he).2 hm) (hids e he)
  | @forget F w id ids hids =>
    have hpend : w.pending F = id :: w.pending { F with ids := ids } := by
      unfold Sob.pending
      rw [hids, List.cons_append]
    refine hb.quiet (.refl rfl) rfl rfl rfl rfl rfl rfl rfl (fun e he => he)
      (fun j hj => hpend ▸ List.mem_cons_of_mem _ hj) rfl fun j hm hj => ?_
    have hn := (List.nodup_cons.mp (hpend ▸ ha.pending_nodup)).1
    rw [hids] at hj
    exact (List.mem_cons.mp hj).resolve_left fun heq => hn (heq ▸ hm)
  | print p id1 id2 sz1 sz2 n cb1 cb2 hands hh hn h1 h2 => exact hb.print hh h1 h2
  | @pushLimit F w buy p b hands ids hgap hh hids hsz hp hpe hsd hside hpay hAON e hins hr =>
    have hnone := hsh.idCache_new hids
    refine hb.push hsh ha (b := b.toOrderBndl) (hb.rests hins hr hpay) hh hids rfl rfl rfl hsh.hit
      rfl rfl rfl rfl rfl ?_ ?_ (fun q x hx => hx.of_limitPush) fun j hj => ?_
    · exact (waiting_limitPush w.toSob buy p b).2
    · exact (waiting_limitPush w.toSob buy p b).1
    · by_cases hne : j = b.id
      · subst hne
        rw [World.toSob_onSob, idCache_limitPush_self hnone] at hj
        cases hj
      · rw [World.toSob_onSob, idCache_limitPush _ _ _ _ hne] at hj
        exact ⟨hj, hne⟩
  | @pushAon F w buy p b hands ids hh hids hsz hp hpe hside hpay hAON e hins hr =>
    have hnone := hsh.idCache_new hids
    refine hb.push hsh ha (b := b.toOrderBndl) (hb.rests hins hr hpay) hh hids rfl rfl rfl hsh.hit
      rfl rfl rfl rfl rfl ?_ ?_ (fun q x hx => hx.of_aonPush) fun j hj => ?_
    · exact queue_of_bookView (bookView_aonPush ..)
    · exact lastId_of_bookView (bookView_aonPush ..)
    · by_cases hne : j = b.id
      · subst hne
        rw [World.toSob_onSob, idCache_aonPush_self hnone] at hj
        cases hj
      · rw [World.toSob_onSob, idCache_aonPush _ _ _ _ hne] at hj
        exact ⟨hj, hne⟩
  | @pushStop F w p b hands ids hh hids hpay e hins hr =>
    have hnone := hsh.idCache_new hids
    have hpay : b.payload = .null := by
      rcases hpay with hpay | ⟨n, -, ⟨e', he', hc⟩, -⟩
      · exact hpay
      · rcases hb.plain.cur e' he' with hc' | hc' <;> simp [hc] at hc'
    refine hb.push hsh ha (b := b.toOrderBndl) (hb.rests hins hr hpay) hh hids rfl rfl rfl hsh.hit
      rfl rfl rfl rfl rfl ?_ ?_ (fun q x hx => hx.of_stopPush.imp_right (·.2)) fun j hj => ?_
    · exact queue_of_bookView (bookView_stopPush ..)
    · exact lastId_of_bookView (bookView_stopPush ..)
    · by_cases hne : j = b.id
      · subst hne
        rw [World.toSob_onSob, idCache_stopPush_self _ hnone] at hj
        cases hj
      · rw [World.toSob_onSob, idCache_stopPush _ _ _ hne] at hj
        exact ⟨hj, hne⟩
  | announce =>
    exact hb.quiet (.refl rfl) rfl rfl rfl rfl rfl rfl rfl (fun e he => he) (fun _ hj => hj) rfl
      fun _ _ hid => hid
  | trailingInsert id isBuy nticks =>
    refine hb.quiet (.log rfl rfl) rfl (files_trailingInserted _ _ _) rfl rfl rfl rfl rfl
      (fun e he => ?_) (fun j hj => ?_) ?_ fun id _ hid => hid
    all_goals cases isBuy <;> first | exact he | exact hj | rfl
  | addLeg e op id ids hids hhands he hcond =>
    rcases hb.plain.cur e he with hc | hc <;> simp [hc] at hcond
  | kill e cb id sz price hands he hcond =>
    rcases hb.plain.cur e he with hc | hc <;> simp [hc] at hcond
  | arm e id c payload hgap he hl hc hcond =>
    rcases hb.plain.cur e he with hc | hc <;> simp [hc, OrderCondition.opensExits] at hcond
  | link e op id1 id2 c1 c2 hgap he hcond =>
    rcases hb.plain.cur e he with hc | hc <;> simp [hc] at hcond
  | openLoss e l c p b nticks1 nticks2 ids hgap he hl hids hcond =>
    rcases hb.plain.cur e he with hc | hc <;> simp [hc] at hcond
  | tellEntry e id c payload hgap he hcond =>
    rcases hb.plain.cur e he with hc | hc <;> simp [hc] at hcond

theorem Steps.booked {c c' : Config} (h : Steps c c') (hs : Sorted c) (ha : Ambient c.1 c.2)
    (hzero : c'.2.NoEmptyHit) (hb : Booked c.1 c.2) : Booked c'.1 c'.2 := by
  induction h with
  | refl => exact hb
  | tail h h' ih =>
    have hzero' := hzero.of_suffix h'.trace_suffix
    have hs1 := Steps.sorted h ha hs hzero'
    have ha1 := Steps.ambient h ha
    exact h'.booked hs1 (h'.sorted ha1 hs1 hzero) ha1 hzero (ih hzero')

/-- While the books balance, ids are submitted once, and stops have their successors. -/
theorem Steps.succeeded {c c' : Config} (h : Steps c c') (hs : Sorted c) (ha : Ambient c.1 c.2)
    (hzero : c'.2.NoEmptyHit) (hb : Booked c.1 c.2) (hatt : Attended c.1 c.2) (hsuc : c.2.Succeeded) :
    Attended c'.1 c'.2 ∧ c'.2.Succeeded := by
  induction h with
  | refl => exact ⟨hatt, hsuc⟩
  | tail h h' ih =>
    have hzero' := hzero.of_suffix h'.trace_suffix
    have hb1 := Steps.booked h hs ha hzero' hb
    obtain ⟨hatt, hsuc⟩ := ih hzero'
    refine ⟨h'.attended hb1.plain (Steps.ambient h ha).front_le hatt,
      h'.succeeded (fun e ids hids hcur e' he' heq => ?_) hatt hsuc⟩
    exact hb1.fresh hids hcur _ he' (heq ▸ List.mem_singleton_self e'.id)

end Booked

/-! ## The volume -/

/-- The size of a trade. -/
def Event.volume : Event → Nat
  | .trade _ _ size _ _ => size
  | _ => 0

/-- The total of the trades made is the total volume, as far as a `size_t` holds it. -/
def Counted (w : World) : Prop := w.totalVolume = asSize (w.trace.map Event.volume).sum

theorem Counted.ofTally : OfTally Counted where
  log {w ev} hev h := by
    have : Event.volume ev = 0 := by cases ev <;> first | rfl | exact hev.elim
    unfold Counted at h ⊢
    rw [World.trace_log, List.map_cons, List.sum_cons, this, Nat.zero_add, ← h]
    rfl
  onSob {w f} hf h := by
    have hv : (f w.toSob).totalVolume = w.totalVolume := congrArg (·.2.1) hf
    unfold Counted at h ⊢
    rw [World.toSob_onSob, World.trace_onSob, hv, h]
  report {w} msg cb id1 id2 price sz h := by
    obtain ⟨_, _, heq⟩ := w.report_eq msg cb id1 id2 price sz
    unfold Counted at h ⊢
    rw [heq]
    simpa [Event.volume] using h
  traded {w} plev size idbuy idsell cb1 cb2 h := by
    obtain ⟨_, _, heq⟩ := w.traded_eq plev size idbuy idsell cb1 cb2
    unfold Counted at h ⊢
    have hsum : ((w.traded plev size idbuy idsell cb1 cb2).trace.map Event.volume).sum
        = (w.trace.map Event.volume).sum + size := by
      rw [heq]
      simp [Event.volume, Nat.add_comm]
    rw [hsum, ← asSize_asSize_add, ← h, heq]

theorem Counted.accept {w : World} (h : Counted w) (e : OrderQueueElem) :
    Counted (w.log (.insertOrder e)) := by
  unfold Counted at h ⊢
  rw [World.trace_log, List.map_cons, List.sum_cons, show Event.volume (.insertOrder e) = 0 from rfl,
    Nat.zero_add]
  exact h

/-! ## Runs -/

/-- The request inserts or replaces an order without an advanced ticket other than AON, or pulls
one. -/
def Request.Plain : Request → Prop
  | .insertLimitOrder _ _ _ _ advanced | .insertMarketOrder _ _ _ advanced
  | .insertStopOrder _ _ _ _ _ advanced | .replaceWithLimitOrder _ _ _ _ _ advanced
  | .replaceWithMarketOrder _ _ _ _ advanced | .replaceWithStopOrder _ _ _ _ _ _ advanced =>
    advanced.condition.IsPlain
  | .pullOrder _ _ => True
  | .growBookAbove _ | .growBookBelow _ => False

/-- What order `id` traded in a call. -/
def Event.tradedOf (id : Nat) : Event → Nat
  | .trade _ _ size idbuy idsell =>
    (if idbuy = id then size else 0) + (if idsell = id then size else 0)
  | _ => 0

/-- What was left of order `id` when a call pulled it. -/
def Event.pulledOf (id : Nat) : Event → Nat
  | .pulled i sz => if i = id then sz else 0
  | _ => 0

/-- The orders of level `p`, in whichever chain. -/
def Sob.ordersAt (s : Sob) (p : Nat) : List OrderBndl :=
  (s.limits p).elems.map (·.toOrderBndl) ++ ((s.stops p).elems.map (·.toOrderBndl) ++
    ((s.aons true p).elems ++ (s.aons false p).elems).map (·.toOrderBndl))

/-- What rests of order `id` at the level it is cached for. -/
def Sob.remaining (s : Sob) (id : Nat) : Nat :=
  match s.idCache id with
  | none => 0
  | some c => (((s.ordersAt c.p).filter (·.id = id)).map (·.sz)).sum

section Runs
variable {w w' : World}

/-- The checks of an external order change neither the condition of its ticket nor its side or size. -/
theorem orderQueueElem_fields {s : Sob} {ee : ExternalOrderQueueElem} {e : OrderQueueElem}
    (h : orderQueueElem s ee = .ok e) : e.condition = ee.aot.condition ∧ e.isBuy = ee.isBuy ∧
      e.sz = ee.sz := by
  unfold orderQueueElem at h
  dsimp only at h
  split at h
  · split at h
    · obtain ⟨⟨cp1, cp2⟩, -, h⟩ := Except.bind_ok h
      cases h
      exact ⟨rfl, rfl, rfl⟩
    · cases h
      exact ⟨rfl, rfl, rfl⟩
  · obtain ⟨limit, -, h⟩ := Except.bind_ok h
    split at h
    · obtain ⟨⟨cp1, cp2⟩, -, h⟩ := Except.bind_ok h
      obtain ⟨_, -, h⟩ := Except.bind_ok h
      cases h
      exact ⟨rfl, rfl, rfl⟩
    · cases h
      exact ⟨rfl, rfl, rfl⟩
  iterate 2
    · obtain ⟨limit, -, h⟩ := Except.bind_ok h
      obtain ⟨stop, -, h⟩ := Except.bind_ok h
      split at h
      · obtain ⟨⟨cp1, cp2⟩, -, h⟩ := Except.bind_ok h
        obtain ⟨o, -, h⟩ := Except.bind_ok h
        split at h
        · cases h
        · obtain ⟨_, -, h⟩ := Except.bind_ok h
          cases h
          exact ⟨rfl, rfl, rfl⟩
      · cases h
        exact ⟨rfl, rfl, rfl⟩
  · cases h

theorem orderQueueElem_condition {s : Sob} {ee : ExternalOrderQueueElem} {e : OrderQueueElem}
    (h : orderQueueElem s ee = .ok e) : e.condition = ee.aot.condition := (orderQueueElem_fields h).1

/-- A plain request opens its window for a plain order. -/
theorem Request.Plain.opens {r : Request} (hr : r.Plain) {s : Sob} {qe : Option OrderQueueElem}
    (h : r.Opens s qe) : ∀ e, qe = some e → e.condition.IsPlain := fun e he => by
  obtain ⟨ee, hact, hok⟩ := h e he
  rw [orderQueueElem_condition hok]
  cases r with
  | pullOrder =>
    obtain ⟨_, -, h⟩ := Except.bind_ok hact
    cases h
    cases hok
  | growBookAbove | growBookBelow => exact hr.elim
  | _ =>
    repeat obtain ⟨_, -, hact⟩ := Except.bind_ok hact
    cases hact
    exact hr

theorem filter_id_eq_singleton {l : List OrderBndl} {b : OrderBndl} (hn : (l.map (·.id)).Nodup)
    (hb : b ∈ l) : l.filter (·.id = b.id) = [b] := by
  induction l with
  | nil => cases hb
  | cons x l ih =>
    obtain ⟨hx, hn⟩ := List.nodup_cons.mp hn
    rcases List.mem_cons.mp hb with rfl | hb
    · rw [List.filter_cons_of_pos (by simp), List.filter_eq_nil_iff.mpr]
      intro y hy hid
      exact hx (List.mem_map.mpr ⟨y, hy, of_decide_eq_true hid⟩)
    · rw [List.filter_cons_of_neg, ih hn hb]
      intro hid
      exact hx (List.mem_map.mpr ⟨b, hb, (of_decide_eq_true hid).symm⟩)

theorem Sob.ordersAt_eq (s : Sob) (p : Nat) : s.ordersAt p = s.contents {} (.limit, p) ++
    (s.contents {} (.stop, p) ++ s.contents {} (.aon, p)) := by
  simp [Sob.ordersAt, Sob.contents, Flight.spentAt, Flight.triggering]

theorem mem_ordersAt {p : Nat} {b : OrderBndl} :
    b ∈ w.ordersAt p ↔ ∃ k, Resident {} w (k, p) b := by
  rw [Sob.ordersAt_eq, List.mem_append, List.mem_append]
  constructor
  · rintro (h | h | h)
    · exact ⟨.limit, h⟩
    · exact ⟨.stop, h⟩
    · exact ⟨.aon, h⟩
  · rintro ⟨k, h⟩
    cases k with
    | limit => exact .inl h
    | stop => exact .inr (.inl h)
    | aon => exact .inr (.inr h)

/-- Between windows an order is once in the book, in its drawer. -/
theorem Resident.filter_contents (hi : Filed {} w) {q : Kind × Nat} {b : OrderBndl}
    (h : Resident {} w q b) (q' : Kind × Nat) :
    (w.contents {} q').filter (·.id = b.id) = if q' = q then [b] else [] := by
  split
  next heq =>
    subst heq
    have hn : ((w.contents {} q').map (·.id)).Nodup :=
      (hi.cabinet.nodup _).sublist (ids_contents_sublist _ _ _)
    exact filter_id_eq_singleton hn h
  next hne =>
    refine List.filter_eq_nil_iff.mpr fun x hx => ?_
    have hx : Resident {} w q' x := hx
    simp only [decide_eq_true_eq]
    exact fun hid => hne (hx.unique hi h hid).1

theorem Resident.filter_ordersAt (hi : Filed {} w) {q : Kind × Nat} {b : OrderBndl}
    (h : Resident {} w q b) (p : Nat) :
    (w.ordersAt p).filter (·.id = b.id) = if p = q.2 then [b] else [] := by
  obtain ⟨k, r⟩ := q
  rw [Sob.ordersAt_eq, List.filter_append, List.filter_append, h.filter_contents hi,
    h.filter_contents hi, h.filter_contents hi]
  by_cases hp : p = r
  · subst hp
    cases k <;> simp
  · have hne : ∀ k', ((k', p) : Kind × Nat) ≠ (k, r) := fun k' heq => hp (congrArg Prod.snd heq)
    simp only [if_neg (hne _), if_neg hp, List.append_nil]

/-- What rests of an order is what its chain says. -/
theorem Resident.remaining (hi : Filed {} w) {q : Kind × Nat} {b : OrderBndl}
    (h : Resident {} w q b) : w.remaining b.id = b.sz := by
  obtain ⟨c, hc, rfl⟩ := h.cached hi
  unfold Sob.remaining
  rw [hc]
  dsimp only
  rw [h.filter_ordersAt hi, if_pos rfl]
  simp

theorem World.spent_eq (w : World) (id : Nat) : w.spent id =
    w.total (Event.tradedOf id) + w.total (Event.pulledOf id) + w.total (Event.turnedOf id) := by
  unfold World.spent World.total
  induction w.trace with
  | nil => rfl
  | cons ev trace ih =>
    have hev : ev.spends id = ev.tradedOf id + ev.pulledOf id + ev.turnedOf id := by
      cases ev <;> simp [Event.spends, Event.tradedOf, Event.pulledOf, Event.turnedOf]
    simp only [List.map_cons, List.sum_cons, ih, hev]
    omega

/-- A window is opened with books that balance. -/
theorem Booked.opened (hb : Booked {} w) {qe : Option OrderQueueElem}
    (hqe : ∀ e, qe = some e → e.condition.IsPlain) : Booked (.opened qe) w :=
  ⟨⟨hb.plain.resident, hb.plain.acting, hb.plain.queue, hb.plain.cur, hqe⟩,
    ⟨hb.ledger.resting, hb.ledger.gone, hb.ledger.known⟩, hb.cur⟩

/-- The ledger from the opening of a window to its close. -/
theorem Closes.booked {r : Request} {o : Outcome} (h : Closes r w o w') (hr : r.Plain)
    (hv : o.isValue) (hw : ∀ qe, WellFormed (.opened qe, w)) (hq : w.internalOrderQueue = [])
    (ht : Tidy w) (hzero : w'.NoEmptyHit) (hb : Booked {} w) : Booked {} w' := by
  cases h with
  | refused | rejected | left => cases hv
  | grown f hact hs =>
    cases r with
    | growBookAbove | growBookBelow => exact hr.elim
    | _ =>
      repeat obtain ⟨_, -, hact⟩ := Except.bind_ok hact
      cases hact
  | @value qe ret copies w' hqe hs hq' =>
    have h' : Booked (.opened qe) w' :=
      Steps.booked hs (ht.sorted hq hqe.valid) (hw qe).ambient hzero (hb.opened (hr.opens hqe))
    exact ⟨⟨h'.plain.resident, h'.plain.acting, h'.plain.queue, h'.plain.cur,
      fun e he => by cases he⟩, ⟨h'.ledger.resting, h'.ledger.gone, h'.ledger.known⟩, h'.cur⟩

theorem Closes.succeeded {r : Request} {o : Outcome} (h : Closes r w o w') (hr : r.Plain)
    (hv : o.isValue) (hw : ∀ qe, WellFormed (.opened qe, w)) (hq : w.internalOrderQueue = [])
    (ht : Tidy w) (hzero : w'.NoEmptyHit) (hb : Booked {} w) (hs : w.Succeeded) : w'.Succeeded := by
  cases h with
  | refused | rejected | left => cases hv
  | grown f hact =>
    cases r with
    | growBookAbove | growBookBelow => exact hr.elim
    | _ =>
      repeat obtain ⟨_, -, hact⟩ := Except.bind_ok hact
      cases hact
  | @value qe ret copies w' hqe hsteps =>
    have h' : w'.Succeeded := (Steps.succeeded hsteps (ht.sorted hq hqe.valid) (hw qe).ambient hzero
      (hb.opened (hr.opens hqe)) (fun hne => absurd rfl hne) hs).2
    exact ⟨h'.once, h'.heir⟩

theorem Initial.booked (h : Initial w) : Booked {} w := by
  obtain ⟨⟨base, incr, -, -, hw⟩, ht⟩ := h
  have hempty : ∀ q b, ¬ Resident {} w q b := by
    rintro ⟨k, p⟩ b
    cases k <;> simp [Resident, Sob.contents, Sob.limits, Sob.stops, Sob.aons, hw, Sob.init,
      Level.aonChain, Flight.triggering]
  have hqueue : w.internalOrderQueue = [] := by
    rw [hw]
    rfl
  refine ⟨⟨fun q b hb => absurd hb (hempty q b), fun a ha => (by cases ha), fun e he => ?_,
    fun e he => (by cases he), fun e he => by cases he⟩, ⟨fun e he => ?_, fun e he => ?_,
      fun id hid => ?_⟩, fun e he => by cases he⟩
  · rw [hqueue] at he
    cases he
  · rw [ht] at he
    cases he
  · rw [ht] at he
    cases he
  · rw [ht] at hid
    rcases hid with ⟨ev, hm, -⟩ | ⟨x, hx, -⟩
    · cases hm
    · cases hx

theorem Run.booked {w₀ : World} {rs : List (Request × Outcome)} (h0 : Initial w₀)
    (h : Run w₀ rs w) (hr : ∀ ro ∈ rs, ro.1.Plain) (hv : ∀ ro ∈ rs, ro.2.isValue)
    (hzero : w.NoEmptyHit) : Booked {} w := by
  induction h with
  | nil => exact h0.booked
  | @snoc rs w w' r o hrun hw ih =>
    obtain ⟨hwf, hq⟩ := hrun.wellFormed h0
    have hc := hw.closes hwf hq
    have hzero' := hzero.of_suffix hc.trace_suffix
    have hv' : ∀ ro ∈ rs, ro.2.isValue := fun ro hro => hv ro (by simp [hro])
    have ht := hrun.tidy h0 (fun ro hro => Outcome.expected_of_isValue (hv' ro hro)) hzero'
    exact hc.booked (hr (r, o) (by simp)) (hv (r, o) (by simp)) hwf hq ht hzero
      (ih (fun ro hro => hr ro (by simp [hro])) hv' hzero')

theorem Run.succeeded {w₀ : World} {rs : List (Request × Outcome)} (h0 : Initial w₀)
    (h : Run w₀ rs w) (hr : ∀ ro ∈ rs, ro.1.Plain) (hv : ∀ ro ∈ rs, ro.2.isValue)
    (hzero : w.NoEmptyHit) : w.Succeeded := by
  induction h with
  | nil => exact ⟨fun e he => by simp [h0.trace_nil] at he, fun e p last id he => by simp [h0.trace_nil] at he⟩
  | @snoc rs w w' r o hrun hw ih =>
    obtain ⟨hwf, hq⟩ := hrun.wellFormed h0
    have hc := hw.closes hwf hq
    have hzero' := hzero.of_suffix hc.trace_suffix
    have hr' : ∀ ro ∈ rs, ro.1.Plain := fun ro hro => hr ro (by simp [hro])
    have hv' : ∀ ro ∈ rs, ro.2.isValue := fun ro hro => hv ro (by simp [hro])
    have ht := hrun.tidy h0 (fun ro hro => Outcome.expected_of_isValue (hv' ro hro)) hzero'
    exact hc.succeeded (hr (r, o) (by simp)) (hv (r, o) (by simp)) hwf hq ht hzero
      (hrun.booked h0 hr' hv' hzero') (ih hr' hv' hzero')

theorem Run.counted {w₀ : World} {rs : List (Request × Outcome)} (h0 : Initial w₀)
    (h : Run w₀ rs w) (hv : ∀ ro ∈ rs, ro.2.isValue) : Counted w := by
  induction h with
  | nil =>
    obtain ⟨base, incr, -, -, hw⟩ := h0.exists_book
    unfold Counted
    rw [hw, h0.trace_nil]
    rfl
  | @snoc rs w w' r o hrun hw ih =>
    obtain ⟨hwf, hq⟩ := hrun.wellFormed h0
    have hi := ih fun ro hro => hv ro (by simp [hro])
    have ho : o.isValue := hv (r, o) (by simp)
    cases hw.closes hwf hq with
    | refused | rejected | left => cases ho
    | grown f hact hs =>
      obtain ⟨base, incr, atBeg, -, rfl⟩ := Request.grow_eq hact hs
      refine Eq.trans ?_ hi
      change (growBook base incr atBeg w.toSob).totalVolume = w.totalVolume
      unfold growBook
      split <;> rfl
    | value hqe hs => exact Counted.ofTally.steps (fun _ h => h.accept _) hs hi

/-- In a run of plain orders without an exception in which no limit chain is hit with nothing to
trade, the size of every accepted order is what it traded, what rests of it, what it was pulled with
and, of a stop, what was submitted under the id of its successor. The trades add up to the volume as
long as a `size_t` holds their sum. -/
theorem Run.quantity_conserved {w₀ : World} {rs : List (Request × Outcome)} (h0 : Initial w₀)
    (h : Run w₀ rs w) (hr : ∀ ro ∈ rs, ro.1.Plain) (hv : ∀ ro ∈ rs, ro.2.isValue)
    (hzero : w.NoEmptyHit) :
    (∀ e, .insertOrder e ∈ w.trace → e.sz = w.total (Event.tradedOf e.id) + w.remaining e.id +
      w.total (Event.pulledOf e.id) + w.total (Event.handedOn w e.id)) ∧
    (∀ p, ∀ b ∈ w.ordersAt p, w.remaining b.id = b.sz) ∧
    (w.total Event.volume = w.totalVolume ↔ w.total Event.volume < 2 ^ 64) := by
  have hcount : w.totalVolume = asSize (w.total Event.volume) := h.counted h0 hv
  have hb := h.booked h0 hr hv hzero
  have hsuc := h.succeeded h0 hr hv hzero
  have hq := (h.wellFormed h0).2
  have hi := (h.tidy h0 (fun ro hro => Outcome.expected_of_isValue (hv ro hro)) hzero).filed
  refine ⟨fun e he => ?_, fun p b hm => ?_, by rw [hcount, eq_comm, asSize_eq_iff]⟩
  · have hbal : balance {} w e.id = w.total (Event.tradedOf e.id) + w.total (Event.pulledOf e.id) +
        w.total (Event.handedOn w e.id) := by
      rw [hsuc.handedOn hq]
      exact w.spent_eq e.id
    cases hc : w.idCache e.id with
    | none =>
      have := hb.ledger.gone e he (.inl hc)
      have hz : w.remaining e.id = 0 := by
        unfold Sob.remaining
        rw [hc]
      omega
    | some c =>
      obtain ⟨b, hres, hid⟩ := (hi.resident hc).resolve_right fun ⟨d, hd, _⟩ => by cases hd
      have := hb.ledger.resting e he _ b hres hid
      rw [Flight.due_of_hit_none rfl, Nat.sub_zero] at this
      have hz := hres.remaining hi
      rw [hid] at hz
      omega
  · obtain ⟨k, hres⟩ := mem_ordersAt.mp hm
    exact hres.remaining hi

end Runs

/-- A limit order trades twice, the second time with a triggered stop, and is pulled. -/
theorem conserved_after_trigger_and_pull : ∃ rs w, Run (World.create 1 20) rs w ∧
    rs.map (·.1) = [.limit true 5 9, .stop false 5 2, .limit false 5 3, .pullOrder 1 .synchronous] ∧
      (∀ e, .insertOrder e ∈ w.trace → e.sz = w.total (Event.tradedOf e.id) + w.remaining e.id +
        w.total (Event.pulledOf e.id) + w.total (Event.handedOn w e.id)) ∧ w.totalVolume = 5 := by
  obtain ⟨rs, w, h, hrs, hw⟩ := Run.exists_of_execAll 5
    [.limit true 5 9, .stop false 5 2, .limit false 5 3, .pullOrder 1 .synchronous]
    (f := fun os w => (os.all Outcome.isValue, w.trace.all fun ev => ! ev.isEmptyHit, w.totalVolume))
    (v := (true, true, 5)) (w := World.create 1 20) (by decide +kernel)
  obtain ⟨hall, hzero, hvol⟩ : _ ∧ _ ∧ _ := by simpa only [Prod.mk.injEq] using hw
  have hr : ∀ ro ∈ rs, ro.1.Plain := fun ro hro => by
    have hm : ro.1 ∈ rs.map (·.1) := List.mem_map_of_mem hro
    rw [hrs] at hm
    simp only [List.mem_cons, List.not_mem_nil, or_false] at hm
    rcases hm with hm | hm | hm | hm <;> rw [hm] <;> first | exact .inl rfl | trivial
  have hv : ∀ ro ∈ rs, ro.2.isValue := fun ro hro =>
    List.all_eq_true.mp hall ro.2 (List.mem_map_of_mem hro)
  exact ⟨rs, w, h, hrs, (h.quantity_conserved (initial_create (by decide) (by decide)) hr hv
    (World.noEmptyHit_of_all hzero)).1, hvol⟩

/-- An AON takes all of a market order, the limit chain of its level is hit with nothing to trade,
and the order in it is gone. -/
theorem quantity_lost_by_empty_hit : ∃ rs w,
    Run { World.create 1 20 with sentinelSz := fun _ => 1 } rs w ∧
      rs.map (·.1) = [.limit true 5 4 { condition := .allOrNone }, .limit true 5 6,
        .market false 4] ∧ (∀ ro ∈ rs, ro.2.isValue) ∧
          ∃ e, .insertOrder e ∈ w.trace ∧ e.sz ≠ w.total (Event.tradedOf e.id) +
            w.remaining e.id + w.total (Event.pulledOf e.id) + w.total (Event.handedOn w e.id) := by
  obtain ⟨rs, w, h, hrs, hw⟩ := Run.exists_of_execAll 0
    [.limit true 5 4 { condition := .allOrNone }, .limit true 5 6, .market false 4]
    (f := fun os w => (os.all Outcome.isValue, w.trace.any fun ev => ev.accepts fun e =>
      e.sz ≠ w.total (Event.tradedOf e.id) + w.remaining e.id + w.total (Event.pulledOf e.id) +
        w.total (Event.handedOn w e.id))) (v := (true, true))
    (w := { World.create 1 20 with sentinelSz := fun _ => 1 }) (by decide +kernel)
  obtain ⟨hall, hany⟩ : _ ∧ _ := by simpa only [Prod.mk.injEq] using hw
  refine ⟨rs, w, h, hrs, fun ro hro => List.all_eq_true.mp hall ro.2 (List.mem_map_of_mem hro), ?_⟩
  obtain ⟨ev, hm, hev⟩ := List.any_eq_true.mp hany
  cases ev with
  | insertOrder e => exact ⟨e, hm, of_decide_eq_true hev⟩
  | _ => cases hev

end SimpleOrderbook
