import SimpleOrderbook.Filing

/-!
# Linked orders are apart

An order of a limit chain never refers to another order of the same chain: the two legs of a
one-cancels-other order that are both limit orders have different prices, and the other leg of a
bracket is a stop. So while a chain is hit no order is pulled from it.
-/
namespace SimpleOrderbook

/-- The second leg of a one-cancels-other order is checked against the first. -/
def OrderQueueElem.Checked (e : OrderQueueElem) : Prop :=
  e.condition = .oneCancelsOther → e.sz ≠ 0 ∧ ∀ op, e.cparams1 = some op →
    op.size ≠ 0 ∧ (e.type = .limit → op.getOrderType = .limit → e.limit ≠ op.limitPrice)

/-- Order `id` was in the book, and it is not in the limit chain of level `p`. -/
structure Apart (F : Flight) (w : World) (p id : Nat) : Prop where
  le : id ≤ w.lastId
  known : id ∉ w.pending F
  cache : w.idCache id ≠ some ⟨.limit, p⟩

/-- The leg is in the book, if it still is, where it went. -/
structure LegPlaced (F : Flight) (w : World) (l : Leg) : Prop where
  le : l.id ≤ w.lastId
  known : l.id ∉ w.pending F
  cache : ∀ p, w.idCache l.id = some ⟨.limit, p⟩ → l.type = .limit ∧ l.p = p

structure Links (F : Flight) (w : World) : Prop where
  elems : ∀ p, ∀ b ∈ (w.limits p).elems, ∀ link, b.payload = .linkedOrder link →
    Apart F w p link.id
  acting : ∀ h a link, F.hit = some h → F.acting = some a → a.bndl.payload = .linkedOrder link →
    Apart F w h.plev link.id
  legs : ∀ l ∈ F.legs, LegPlaced F w l
  queue : ∀ e ∈ w.internalOrderQueue, e.condition ≠ .oneCancelsOther
  cur : ∀ e, F.cur = some e → e.Checked
  ext : ∀ e, F.ext = some e → e.Checked

section Links
variable {F F' : Flight} {w w' : World}

theorem Links.linksApart (h : Links F w) : LinksApart F w := by
  rintro H a link ⟨ty, p⟩ hH ha hpay hc hty heq
  dsimp only at hty heq
  exact (h.acting H a link hH ha hpay).cache (by rw [hc, hty, heq])

/-- Only an order that was not in the book before becomes cached as a limit order. -/
structure Uncaches (F F' : Flight) (w w' : World) : Prop where
  cache : ∀ id p, w'.idCache id = some ⟨.limit, p⟩ → w.idCache id = some ⟨.limit, p⟩ ∨
    id ∈ w.pending F
  pending : ∀ id ∈ w'.pending F', id ∈ w.pending F ∨ w.lastId < id
  lastId : w.lastId ≤ w'.lastId

theorem Apart.next {p id : Nat} (h : Apart F w p id) (hu : Uncaches F F' w w') :
    Apart F' w' p id := by
  refine ⟨h.le.trans hu.lastId, fun hm => ?_, fun hc => ?_⟩
  · rcases hu.pending id hm with hm | hlt
    · exact h.known hm
    · exact absurd h.le (not_le.mpr hlt)
  · exact (hu.cache id p hc).elim h.cache h.known

theorem LegPlaced.next {l : Leg} (h : LegPlaced F w l) (hu : Uncaches F F' w w') :
    LegPlaced F' w' l := by
  refine ⟨h.le.trans hu.lastId, fun hm => ?_, fun p hc => ?_⟩
  · rcases hu.pending l.id hm with hm | hlt
    · exact h.known hm
    · exact absurd h.le (not_le.mpr hlt)
  · exact (hu.cache l.id p hc).elim (h.cache p) fun hm => absurd hm h.known

theorem Links.next (h : Links F w) (hu : Uncaches F F' w w')
    (helems : ∀ p, ∀ b ∈ (w'.limits p).elems, ∀ link, b.payload = .linkedOrder link →
      Apart F' w' p link.id ∨ Apart F w p link.id)
    (hacting : ∀ H a link, F'.hit = some H → F'.acting = some a →
      a.bndl.payload = .linkedOrder link → Apart F w H.plev link.id)
    (hlegs : ∀ l ∈ F'.legs, l ∈ F.legs ∨ LegPlaced F' w' l)
    (hqueue : ∀ e ∈ w'.internalOrderQueue, e ∈ w.internalOrderQueue ∨
      e.condition ≠ .oneCancelsOther)
    (hcur : ∀ e, F'.cur = some e → F.cur = some e ∨ e.Checked) (hext : F'.ext = F.ext) :
    Links F' w' := by
  refine ⟨fun p b hb link hl => ?_, fun H a link hH ha hl => (hacting H a link hH ha hl).next hu,
    fun l hl => ?_, fun e he => ?_, fun e he => (hcur e he).elim (h.cur e) fun hc => hc,
    fun e he => h.ext e (hext ▸ he)⟩
  · exact (helems p b hb link hl).elim (fun ha => ha) fun ha => ha.next hu
  · exact (hlegs l hl).elim (fun hl => (h.legs l hl).next hu) fun hp => hp
  · exact (hqueue e he).elim (h.queue e) fun hne => hne

/-! ## Pulls and handlers -/

/-- A handler changes nothing but the sizes of the orders in the limit chains. -/
theorem Act.kept {c c' : Config} (h : Act c c') {p : Nat} {b : LimitBndl}
    (hb : b ∈ (c'.2.limits p).elems) :
    ∃ b' ∈ (c.2.limits p).elems, b' = { b with sz := b'.sz } := by
  rcases h.elems with hs | ⟨a, -, hr⟩
  · exact ⟨b, (hs p).subset hb, rfl⟩
  · obtain ⟨b', hb', heq, -⟩ := (hr p).mem hb
    exact ⟨b', hb', by rw [heq]⟩

theorem idCache_limit_of_erased {o : Option ChainIterWrap} {j id p : Nat}
    (h : (if j = id then none else o) = some ⟨.limit, p⟩) : o = some ⟨.limit, p⟩ := by
  split at h
  · cases h
  · exact h

theorem idCache_limit_of_copied {s : Sob} {buyLimit : Bool} {q : Nat} {b : LimitBndl}
    {c : ChainIterWrap} {j p : Nat}
    (h : (s.copiedToAons buyLimit q b c).idCache j = some ⟨.limit, p⟩) :
    s.idCache j = some ⟨.limit, p⟩ := by
  rw [idCache_copiedToAons] at h
  split at h
  · cases buyLimit <;> simp at h
  · exact h

theorem Act.cache_limit {c c' : Config} (h : Act c c') (id p : Nat)
    (hc : c'.2.idCache id = some ⟨.limit, p⟩) : c.2.idCache id = some ⟨.limit, p⟩ := by
  have hfiles : c'.2.files = c.2.files → c.2.idCache id = some ⟨.limit, p⟩ := fun hf =>
    cache_of_files hf ▸ hc
  cases h with
  | report => exact hfiles (files_report _ _ _ _ _ _ _)
  | popLimit => exact idCache_limit_of_erased hc
  | moveFront => exact idCache_limit_of_copied (s := World.toSob _) hc
  | settle => exact hfiles (Exec.Limit.files_adjustStateAfterPull _ _ _)
  | popAon =>
    rw [World.toSob_onSob, idCache_erasedAon] at hc
    exact idCache_limit_of_erased hc
  | popStop =>
    rw [World.toSob_onSob, idCache_erasedStop] at hc
    exact idCache_limit_of_erased hc
  | trailingErase => exact hfiles (files_trailingErased _ _ _)
  | grow | tell =>
    rw [World.toSob_onSob, idCache_updateAt] at hc
    exact hc
  | growBoth =>
    rw [World.toSob_onSob, idCache_updateAt, cache_of_files (files_report _ _ _ _ _ _ _),
      World.toSob_onSob, idCache_updateAt] at hc
    exact hc
  | _ => exact hc

theorem Act.uncaches {c c' : Config} (h : Act c c') : Uncaches c.1 c'.1 c.2 c'.2 :=
  ⟨fun id p hc => .inl (h.cache_limit id p hc), h.pending_sub, h.lastId_le⟩

/-- A handler leaves alone what is under way around it. -/
structure SameInsertion (F F' : Flight) : Prop where
  legs : F'.legs = F.legs
  cur : F'.cur = F.cur
  ext : F'.ext = F.ext

theorem Act.sameInsertion {c c' : Config} (h : Act c c') : SameInsertion c.1 c'.1 := by
  cases h <;> exact ⟨rfl, rfl, rfl⟩

theorem Act.queue {c c' : Config} (h : Act c c') : ∀ e ∈ c'.2.internalOrderQueue,
    e ∈ c.2.internalOrderQueue ∨ c.1.Generates e := by
  have hsame : c'.2.internalOrderQueue = c.2.internalOrderQueue → ∀ e ∈ c'.2.internalOrderQueue,
      e ∈ c.2.internalOrderQueue ∨ c.1.Generates e := fun hq e he => .inl (hq ▸ he)
  cases h with
  | report => exact hsame (queue_of_bookView (bookView_report _ _ _ _ _ _ _))
  | enqueue e ids hids hgen =>
    intro e' he'
    rcases List.mem_append.mp he' with he' | he'
    · exact .inl he'
    · exact .inr (List.mem_singleton.mp he' ▸ hgen)
  | @moveFront F w p b bs c => exact hsame (queue_copiedToAons w.toSob _ p b c)
  | @settle F w p =>
    refine hsame ?_
    obtain ⟨_, _, _, _, heq⟩ := Exec.Limit.adjustStateAfterPull_eq (decide (p ≤ w.bid)) w.toSob p
    rw [World.toSob_onSob, heq]
  | popAon => exact hsame (queue_of_bookView (bookView_erasedAon _ _ _ _))
  | popStop => exact hsame (queue_of_bookView (bookView_erasedStop _ _ _))
  | trailingErase => exact hsame (queue_of_bookView (bookView_trailing _ _ _).1)
  | grow | tell => exact hsame (queue_updateAt _ _ _ _)
  | growBoth =>
    refine hsame ?_
    rw [World.toSob_onSob, queue_updateAt, queue_of_bookView (bookView_report _ _ _ _ _ _ _)]
    exact queue_updateAt _ _ _ _
  | _ => exact hsame rfl

/-- A handler begins no other. -/
theorem Act.acting_linked {c c' : Config} (h : Act c c') {H : Hit} {a : Acting} {link : OrderLink}
    (hH : c'.1.hit = some H) (ha : c'.1.acting = some a) (hl : a.bndl.payload = .linkedOrder link) :
    c.1.hit = some H ∧ ∃ a', c.1.acting = some a' ∧ a'.bndl.payload = .linkedOrder link := by
  refine ⟨h.flight.1 ▸ hH, ?_⟩
  cases hact : c.1.acting with
  | none =>
    exfalso
    have : c'.1.acting = none := by
      cases h with
      | tell _ _ _ _ ha' => exact absurd (ha'.symm.trans hact) (by simp)
      | _ => exact hact
    rw [this] at ha
    cases ha
  | some a0 =>
    obtain ⟨b0, n, told⟩ := a0
    obtain ⟨told', ha'⟩ := h.acting hact
    obtain rfl : a = ⟨b0, n, told'⟩ := Option.some.inj (ha.symm.trans ha')
    exact ⟨_, rfl, hl⟩

theorem Act.links {c c' : Config} (h : Act c c') (hi : Links c.1 c.2) : Links c'.1 c'.2 := by
  have hF := h.sameInsertion
  refine hi.next h.uncaches (fun p b hb link hl => ?_) (fun H a link hH ha hl => ?_)
    (fun l hl => .inl (hF.legs ▸ hl))
    (fun e he => (h.queue e he).imp_right fun hg => hg.condition.1)
    (fun e he => .inl (hF.cur ▸ he)) hF.ext
  · obtain ⟨b', hb', heq⟩ := h.kept hb
    exact .inr (hi.elems p b' hb' link (by rw [heq]; exact hl))
  · obtain ⟨hH', a', ha', hl'⟩ := h.acting_linked hH ha hl
    exact hi.acting H a' link hH' ha' hl'

/-! ## Trades -/

theorem idCache_stopPush_self {s : Sob} {b : StopBndl} (p : Nat) (h : s.idCache b.id = none) :
    (Chain.stopPush s p b).idCache b.id = some ⟨.stop, p⟩ := by
  unfold Chain.stopPush
  rw [cache_of_files (Exec.Stop.files_adjustStateAfterInsert _ _ _),
    Sob.idCache_cacheEmplace (s.setStops p ((s.stops p).push b)) _ _ h, if_pos rfl]

/-- A stop that is moved stays in the cache. -/
theorem cache_of_movedStop {w : World} {p pAdj j : Nat} {b : StopBndl}
    (hj : (w.movedStop p b pAdj).idCache j = none) : w.idCache j = none := by
  unfold World.movedStop at hj
  rw [World.toSob_onSob] at hj
  have hcache : ∀ i, (World.report (w.onSob (·.erasedStop p b)) (if b.isActiveTrailingStop then
      .triggerTrailingStopAdjLoss else .triggerBracketAdjLoss) b.cb b.id b.id (w.itop pAdj)
        b.sz).idCache i = if i = b.id then none else w.idCache i := fun i => by
    rw [cache_of_files (files_report _ _ _ _ _ _ _), World.toSob_onSob, idCache_erasedStop]
  by_cases hid : j = b.id
  · subst hid
    rw [idCache_stopPush_self pAdj (by rw [hcache, if_pos rfl])] at hj
    cases hj
  · rw [idCache_stopPush _ _ _ hid, hcache, if_neg hid] at hj
    exact hj

theorem idCache_limitPush_self {s : Sob} {buy : Bool} {p : Nat} {b : LimitBndl}
    (h : s.idCache b.id = none) :
    (Chain.limitPush buy s p b).idCache b.id = some ⟨.limit, p⟩ := by
  unfold Chain.limitPush
  rw [cache_of_files (Exec.Limit.files_adjustStateAfterInsert _ _ _),
    Sob.idCache_cacheEmplace (s.setLimits p ((s.limits p).push b)) _ _ h, if_pos rfl]

theorem idCache_aonPush_self {s : Sob} {buy : Bool} {p : Nat} {b : AonBndl}
    (h : s.idCache b.id = none) : (Chain.aonPush buy s p b).idCache b.id =
      some ⟨if buy then .aonBuy else .aonSell, p⟩ := by
  unfold Chain.aonPush
  rw [cache_of_files (Exec.Aon.files_adjustStateAfterInsert _ _ _),
    Sob.idCache_cacheEmplace (s.setAons buy p ((s.aons buy p).push b)) _ _ h, if_pos rfl]

theorem Move.cache_limit {c c' : Config} (h : Move c c') (id p : Nat)
    (hc : c'.2.idCache id = some ⟨.limit, p⟩) : c.2.idCache id = some ⟨.limit, p⟩ := by
  have hfiles : c'.2.files = c.2.files → c.2.idCache id = some ⟨.limit, p⟩ := fun hf =>
    cache_of_files hf ▸ hc
  cases h with
  | act h => exact h.cache_limit id p hc
  | @fillAon F w bidSide plev i size cb b =>
    rw [← cache_of_files (files_traded w plev b.sz i b.id cb b.cb)]
    exact idCache_limit_of_erased hc
  | @fillLastAon F w bidSide plev i size cb b =>
    rw [World.toSob_onSob, cache_of_files (Exec.Aon.files_adjustStateAfterPull _ _ _)] at hc
    rw [← cache_of_files (files_traded w plev b.sz i b.id cb b.cb)]
    exact idCache_limit_of_erased hc
  | freeAon =>
    rw [World.toSob_onSob, cache_of_files (Exec.Aon.files_adjustStateAfterPull _ _ _)] at hc
    exact hc
  | @moveHit F w h i size b c => exact idCache_limit_of_copied (s := w.toSob) hc
  | fill => exact hfiles (files_traded _ _ _ _ _ _ _)
  | retire => exact idCache_limit_of_erased hc
  | freeHit | wipeHit =>
    rw [World.toSob_onSob, cache_of_files (Exec.Core.files_findNewBestInside _ _)] at hc
    exact hc
  | @moveStop F w buyStops q i c b nticks pAdj =>
    let msg : CallbackMsg :=
      if b.isActiveTrailingStop then .triggerTrailingStopAdjLoss else .triggerBracketAdjLoss
    let w1 := (w.onSob (·.erasedStop c.p b)).report msg b.cb b.id b.id (w.itop pAdj) b.sz
    have hf : w1.files = (w.erasedStop c.p b).files := files_report _ _ _ _ _ _ _
    have hc' : (Chain.stopPush w1.toSob pAdj b).idCache id = some ⟨.limit, p⟩ := hc
    by_cases hid : id = b.id
    · -- the stop that moved is cached as a stop
      exfalso
      have hnone : w1.idCache b.id = none := by
        rw [cache_of_files hf, idCache_erasedStop, if_pos rfl]
      rw [hid, idCache_stopPush_self pAdj hnone] at hc'
      cases hc'
    · rw [idCache_stopPush _ _ _ hid, cache_of_files hf, idCache_erasedStop] at hc'
      exact idCache_limit_of_erased hc'
  | detach =>
    rw [World.toSob_onSob, cache_of_files (Exec.Stop.files_adjustStateAfterTrigger _ _ _)] at hc
    exact hc
  | turn => exact hfiles (files_turned _ _ _ _ _)
  | eraseTriggered => exact hfiles (files_trailingErased _ _ _)
  | endTrigger => exact idCache_limit_of_erased hc
  | _ => exact hc

theorem Move.uncaches {c c' : Config} (h : Move c c') : Uncaches c.1 c'.1 c.2 c'.2 :=
  ⟨fun id p hc => .inl (h.cache_limit id p hc), h.pending_sub, h.lastId_le⟩

theorem Move.sameInsertion {c c' : Config} (h : Move c c') : SameInsertion c.1 c'.1 := by
  cases h with
  | act h => exact h.sameInsertion
  | _ => exact ⟨rfl, rfl, rfl⟩

theorem Move.queue {c c' : Config} (h : Move c c') : ∀ e ∈ c'.2.internalOrderQueue,
    e ∈ c.2.internalOrderQueue ∨ c.1.Generates e := by
  have hsame : c'.2.internalOrderQueue = c.2.internalOrderQueue → ∀ e ∈ c'.2.internalOrderQueue,
      e ∈ c.2.internalOrderQueue ∨ c.1.Generates e := fun hq e he => .inl (hq ▸ he)
  cases h with
  | act h => exact h.queue
  | @fillAon F w bidSide plev id size cb b =>
    exact hsame (queue_traded w plev b.sz id b.id cb b.cb)
  | @fillLastAon F w bidSide plev id size cb b =>
    refine hsame ?_
    rw [World.toSob_onSob, queue_of_bookView (bookView_aonAdjust _ _ _).1]
    exact queue_traded w plev b.sz id b.id cb b.cb
  | freeAon =>
    refine hsame ?_
    rw [World.toSob_onSob, queue_of_bookView (bookView_aonAdjust _ _ _).1]
    rfl
  | @moveHit F w h id size b c => exact hsame (queue_copiedToAons w.toSob _ h.plev b c)
  | @fill F w h id size cb b =>
    exact hsame (queue_traded w h.plev (min size b.sz) id b.id cb b.cb)
  | freeHit | wipeHit =>
    refine hsame ?_
    obtain ⟨_, _, _, _, heq⟩ := Exec.Core.findNewBestInside_eq _ _
    rw [World.toSob_onSob, heq]
    rfl
  | moveStop => exact hsame (queue_of_bookView (bookView_movedStop _ _ _ _))
  | detach =>
    refine hsame ?_
    rw [World.toSob_onSob, queue_of_bookView (bookView_stopAdjust _ _ _).2.2]
    rfl
  | eraseTriggered => exact hsame (queue_of_bookView (bookView_trailing _ _ _).1)
  | @turn F w d e todo order ids msg hdet htodo hturn hids hsz hgen =>
    obtain ⟨_, _, heq⟩ := w.turned_eq msg e d.plev order
    rw [heq]
    intro e' he'
    rcases List.mem_append.mp he' with he' | he'
    · exact .inl he'
    · exact .inr (List.mem_singleton.mp he' ▸ hgen)
  | _ => exact hsame rfl

theorem OrderBndl.Settled.linked {b b' : OrderBndl} (h : b.Settled b') {link : OrderLink}
    (hl : b'.payload = .linkedOrder link) : b.payload = .linkedOrder link := by
  cases h with
  | same => exact hl
  | _ => cases hl

/-- An order of a limit chain was there before, but for its size, or it is the one whose handlers
were run. -/
theorem Move.kept {c c' : Config} (h : Move c c') {p : Nat} {b : LimitBndl}
    (hb : b ∈ (c'.2.limits p).elems) :
    (∃ b' ∈ (c.2.limits p).elems, b' = { b with sz := b'.sz }) ∨
      ∃ H a b', c.1.hit = some H ∧ c.1.acting = some a ∧ H.plev = p ∧ a.bndl.Settled b' ∧
        b.condition = b'.condition ∧ b.payload = b'.payload := by
  have hsub : (c'.2.limits p).elems ⊆ (c.2.limits p).elems →
      (∃ b' ∈ (c.2.limits p).elems, b' = { b with sz := b'.sz }) ∨
      ∃ H a b', c.1.hit = some H ∧ c.1.acting = some a ∧ H.plev = p ∧ a.bndl.Settled b' ∧
        b.condition = b'.condition ∧ b.payload = b'.payload := fun hs => .inl ⟨b, hs hb, rfl⟩
  have hview : c'.2.bookView = c.2.bookView →
      (c'.2.limits p).elems ⊆ (c.2.limits p).elems := fun hv => by
    rw [limits_of_bookView hv]; exact List.Subset.refl _
  -- a change of the size
  have hupdate : ∀ (s : Sob) (q id : Nat) (f : LimitBndl → LimitBndl),
      (∀ x, x = { f x with sz := x.sz }) → b ∈ ((s.updateLimit q id f).limits p).elems →
      ∃ b' ∈ (s.limits p).elems, b' = { b with sz := b'.sz } := fun s q id f hf hm => by
    rw [Sob.elems_updateLimit] at hm
    split at hm
    · rcases Chain.mem_updateLimit hm with hm | ⟨b', hm', -, rfl⟩
      · exact ⟨b, hm, rfl⟩
      · exact ⟨b', hm', hf b'⟩
    · exact ⟨b, hm, rfl⟩
  have hset : ∀ {s : Sob} {q : Nat} {l l' : List LimitBndl}, (s.limits q).elems = l → l' ⊆ l →
      ∀ {cm : ChainManager LimitBndl}, cm.elems = l' →
      ((s.setLimits q cm).limits p).elems ⊆ (s.limits p).elems := fun {s q l l'} hl hs cm hcm => by
    rw [Sob.limits_setLimits]
    split
    next hp => subst hp; rw [hcm, hl]; exact hs
    next => exact List.Subset.refl _
  cases h with
  | act h => exact .inl (h.kept hb)
  | @fillAon F w bidSide plev id size cb b =>
    exact hsub (hview ((bookView_setAons _ _ _ _).trans
      (bookView_traded w plev b.sz id b.id cb b.cb)))
  | @fillLastAon F w bidSide plev id size cb b =>
    exact hsub (hview ((bookView_aonAdjust _ _ _).1.trans ((bookView_setAons _ _ _ _).trans
      (bookView_traded w plev b.sz id b.id cb b.cb))))
  | freeAon =>
    exact hsub (hview ((bookView_aonAdjust _ _ _).1.trans (bookView_setAons _ _ _ _)))
  | @moveHit F w h id size b' c =>
    obtain ⟨x, hx, heq⟩ := hupdate (w.copiedToAons (decide (h.plev < w.ask)) h.plev b' c)
      h.plev b'.id (fun x => { x with sz := 0 }) (fun _ => rfl) hb
    rw [limits_of_bookView (bookView_copiedToAons _ _ _ _ _)] at hx
    exact .inl ⟨x, hx, heq⟩
  | fill => exact hsub (hview (bookView_traded _ _ _ _ _ _ _))
  | @rearm F w h a b' hgap hhit ha hset' =>
    rw [World.toSob_onSob, Sob.elems_updateLimit] at hb
    split at hb
    next hp =>
      rcases Chain.mem_updateLimit hb with hm | ⟨x, hm, -, rfl⟩
      · exact .inl ⟨b, hm, rfl⟩
      · exact .inr ⟨h, a, b', hhit, ha, hp.symm, hset', rfl, rfl⟩
    next => exact .inl ⟨b, hb, rfl⟩
  | @reduce F w h a | @retire F w h a =>
    exact .inl (hupdate w.toSob h.plev a.bndl.id (fun x => { x with sz := x.sz - a.amount })
      (fun _ => rfl) hb)
  | @eraseHit F w h pos l hgap hact hhit hpos hl' =>
    exact hsub (hset (by rw [hl']; rfl) (eraseVisited_suffix pos l).sublist.subset rfl)
  | freeHit | wipeHit =>
    refine hsub ?_
    rw [World.toSob_onSob, limits_of_files (Exec.Core.files_findNewBestInside _ _)]
    exact hset rfl (List.nil_subset _) rfl
  | moveStop => exact hsub (hview (bookView_movedStop _ _ _ _))
  | detach =>
    exact hsub (hview ((bookView_stopAdjust _ _ _).2.2.trans (bookView_setStops _ _ _)))
  | eraseTriggered => exact hsub (hview (bookView_trailing _ _ _).1)
  | @turn F w d e todo order ids msg =>
    refine hsub ?_
    rw [limits_of_files (files_turned _ _ _ _ _)]
    exact List.Subset.refl _
  | _ => exact hsub (List.Subset.refl _)

/-- An order of a limit chain refers to another one because it did so before, or because it is the
one whose handlers were run. -/
theorem Move.linked {c c' : Config} (h : Move c c') {p : Nat} {b : LimitBndl} {link : OrderLink}
    (hb : b ∈ (c'.2.limits p).elems) (hl : b.payload = .linkedOrder link) :
    (∃ b' ∈ (c.2.limits p).elems, b'.payload = .linkedOrder link) ∨
      ∃ H a, c.1.hit = some H ∧ c.1.acting = some a ∧ a.bndl.payload = .linkedOrder link ∧
        H.plev = p := by
  rcases h.kept hb with ⟨b', hb', heq⟩ | ⟨H, a, b', hH, ha, hp, hs, -, hpay⟩
  · exact .inl ⟨b', hb', by rw [heq]; exact hl⟩
  · exact .inr ⟨H, a, hH, ha, hs.linked (hpay.symm.trans hl), hp⟩

theorem Move.links {c c' : Config} (h : Move c c') (hi : Links c.1 c.2) : Links c'.1 c'.2 := by
  have hF := h.sameInsertion
  refine hi.next h.uncaches (fun p b hb link hl => ?_) (fun H a link hH ha hl => ?_)
    (fun l hl => .inl (hF.legs ▸ hl))
    (fun e he => (h.queue e he).imp_right fun hg => hg.condition.1)
    (fun e he => .inl (hF.cur ▸ he)) hF.ext
  · rcases h.linked hb hl with ⟨b', hb', hl'⟩ | ⟨H, a, hH, ha, hl', rfl⟩
    · exact .inr (hi.elems p b' hb' link hl')
    · exact .inr (hi.acting H a link hH ha hl')
  · cases h with
    | act h =>
      obtain ⟨hH', a', ha', hl'⟩ := h.acting_linked hH ha hl
      exact hi.acting H a' link hH' ha' hl'
    | beginHit plev id size hands hh hgap hhit hact =>
      rw [hact] at ha
      cases ha
    | skip h i todo hhit =>
      cases hH
      exact hi.acting h a link hhit ha hl
    | moveHit h id size b c todo hands hgap hact =>
      rw [hact] at ha
      cases ha
    | fill h id size cb b todo hands hh hhit htodo hb =>
      cases hH
      cases ha
      exact hi.elems h.plev b (Chain.findLimit_mem hb).1 link hl
    | reduce | retire | endTrigger => cases ha
    | eraseHit | freeHit | missHit | wipeHit => cases hH
    | beginTrigger d e todo hdet htodo hact hhit =>
      rw [hhit] at hH
      cases hH
    | _ => exact hi.acting H a link hH ha hl

theorem Moves.links {c c' : Config} (h : Moves c c') (hi : Links c.1 c.2) : Links c'.1 c'.2 := by
  induction h with
  | refl => exact hi
  | tail _ h ih => exact h.links ih

/-! ## Insertions -/

theorem OrderQueueElem.Checked.withId {e : OrderQueueElem} (h : e.Checked) (id : Nat) :
    ({ e with id := id } : OrderQueueElem).Checked :=
  h

/-- An order that waits comes into the book with cache entry `c`. -/
theorem Uncaches.file {G : Flight} {v : World} (ha : Ambient F w) {id : Nat} {ids : List Nat} (hids : F.ids = id :: ids)
    (hcache : ∀ j, j ≠ id → v.idCache j = w.idCache j) (hlast : v.lastId = w.lastId)
    (hids' : G.ids = ids) (hfront : G.front = F.front)
    (hq : v.internalOrderQueue = w.internalOrderQueue) :
    Uncaches F G w v ∧ id ≤ v.lastId ∧ id ∉ v.pending G := by
  have hpend : w.pending F = id :: v.pending G := by
    unfold Sob.pending
    rw [hids, hids', hfront, hq, List.cons_append]
  have hid : id ∈ w.pending F := hpend ▸ List.mem_cons_self
  refine ⟨⟨fun j p hc => ?_, fun j hj => .inl (hpend ▸ List.mem_cons_of_mem _ hj), hlast.ge⟩,
    hlast ▸ ha.pending_le id hid, fun hm => ?_⟩
  · by_cases hj : j = id
    · exact .inr (hj ▸ hid)
    · exact .inl (hcache j hj ▸ hc)
  · exact (List.nodup_cons.mp (hpend ▸ ha.pending_nodup)).1 hm

theorem Uncaches.of_files (hf : w'.files = w.files) (hlast : w'.lastId = w.lastId)
    (hpend : ∀ id ∈ w'.pending F', id ∈ w.pending F) : Uncaches F F' w w' :=
  ⟨fun _ _ hc => .inl (cache_of_files hf ▸ hc), fun id hid => .inl (hpend id hid), hlast.ge⟩

/-- An order refers to another one in the limit chains, or was rewritten. -/
theorem mem_limits_updateAt {s : Sob} {c : ChainIterWrap} {id p : Nat} {f : OrderBndl → OrderBndl}
    {b : LimitBndl} (hb : b ∈ ((s.updateAt c id f).limits p).elems) :
    b ∈ (s.limits p).elems ∨ c = ⟨.limit, p⟩ ∧ ∃ x ∈ (s.limits p).elems, x.id = id ∧
      b.toOrderBndl = f x.toOrderBndl := by
  rw [elems_updateAt] at hb
  split at hb
  next hc =>
    obtain ⟨ty, q⟩ := c
    obtain ⟨rfl, rfl⟩ := hc
    rcases Chain.mem_updateLimit hb with hb | ⟨x, hx, hid, rfl⟩
    · exact .inl hb
    · exact .inr ⟨rfl, x, hx, hid, rfl⟩
  next => exact .inl hb

theorem apart_of_hit_none (h : F'.hit = none) (H : Hit) (a : Acting) (link : OrderLink)
    (hH : F'.hit = some H) (_ : F'.acting = some a) (_ : a.bndl.payload = .linkedOrder link) :
    Apart F w H.plev link.id := by
  rw [h] at hH
  cases hH

theorem pending_of_queue {s s' : Sob} (hq : s'.internalOrderQueue = s.internalOrderQueue) :
    s'.pending F = s.pending F := by
  unfold Sob.pending
  rw [hq]

/-- A rewritten order without a link is none the worse. -/
theorem Links.updateAt (hi : Links F w) (hno : F.hit = none) (c : ChainIterWrap) (id : Nat)
    {f : OrderBndl → OrderBndl}
    (hf : ∀ b link, (f b).payload = .linkedOrder link → b.payload = .linkedOrder link ∨
      ∀ p, c = ⟨.limit, p⟩ → Apart F w p link.id) : Links F (w.onSob (·.updateAt c id f)) := by
  have hpend : ∀ j ∈ Sob.pending (w.updateAt c id f) F, j ∈ w.pending F := fun j hj =>
    pending_congr (F := F) (G := F) (w := w) (v := w.onSob (·.updateAt c id f)) rfl rfl
      (queue_updateAt _ _ _ _) ▸ hj
  refine hi.next ⟨fun j p hc => .inl ?_, fun j hj => .inl (hpend j hj),
    (lastId_updateAt _ _ _ _).ge⟩ (fun p b hb link hl => .inr ?_) (apart_of_hit_none hno)
    (fun _ => .inl) (fun e he => .inl ?_) (fun _ => .inl) rfl
  · rwa [World.toSob_onSob, idCache_updateAt] at hc
  · rcases mem_limits_updateAt hb with hb | ⟨hcp, x, hx, -, heq⟩
    · exact hi.elems p b hb link hl
    · rw [heq] at hl
      rcases hf _ _ hl with hl | hap
      · exact hi.elems p x hx link hl
      · exact hap p hcp
  · rwa [World.toSob_onSob, queue_updateAt] at he

/-- The order and its link are in the book. -/
theorem Filed.apart (hf : Filed F w) {p id : Nat} {c : ChainIterWrap} (hc : w.idCache id = some c)
    (hne : c ≠ ⟨.limit, p⟩) : Apart F w p id := by
  have hk := hf.known id (by simp [hc])
  exact ⟨hk.1, hk.2, fun heq => hne (Option.some.inj (hc.symm.trans heq))⟩

theorem Step.links {c c' : Config} (h : Step c c') (hi : Links c.1 c.2) (ha : Ambient c.1 c.2)
    (hs : Shelved c.1 c.2) : Links c'.1 c'.2 := by
  have hno := hs.hit
  have hold : c'.2.limits = c.2.limits → ∀ p, ∀ b ∈ (c'.2.limits p).elems, ∀ link,
      b.payload = .linkedOrder link → Apart c'.1 c'.2 p link.id ∨ Apart c.1 c.2 p link.id :=
    fun hl p b hb link hp => .inr (hi.elems p b (hl ▸ hb) link hp)
  cases h with
  | act h => exact h.links hi
  | trade bidSide plev id size r cb hF hp hpe hrun hm => exact Moves.links hm hi
  | @beginOrder F w ie queue hfront hq =>
    refine hi.next (.of_files rfl rfl fun id hid => ?_) (hold rfl)
      (apart_of_hit_none hno)
      (fun _ => .inl) (fun _ => .inl) (fun _ => .inl) rfl
    simp only [Sob.pending, hfront, hq, List.drop_one, List.tail_cons, List.drop_zero] at hid ⊢
    split at hid
    · rcases List.mem_append.mp hid with hid | hid
      · simp [hid]
      · simp only [List.map_cons, List.mem_append, List.mem_cons, hid, or_true]
    · simp only [List.cons_append, List.mem_cons, List.mem_append, List.map_cons] at hid ⊢
      tauto
  | @endOrder F w hfront =>
    refine hi.next (.of_files rfl rfl fun id hid => ?_) (hold rfl)
      (apart_of_hit_none hno)
      (fun _ => .inl) (fun e he => .inl (List.mem_of_mem_tail he)) (fun _ => .inl) rfl
    simpa [Sob.pending, hfront, World.onSob, List.drop_one] using hid
  | @accept F w e ids hids hhands hcur hext hint =>
    refine hi.next (.of_files rfl rfl fun _ h => h) (hold rfl)
      (apart_of_hit_none hno)
      (fun _ hl => by cases hl) (fun _ => .inl) (fun e' he => .inr ?_) rfl
    cases he
    by_cases hfront : F.front = 0
    · obtain ⟨e0, he0, heq⟩ := hext hfront
      rw [heq]
      exact (hi.ext e0 he0).withId e.id
    · obtain ⟨e0, queue, hq, heq⟩ := hint hfront
      rw [heq]
      exact fun hoco => absurd hoco (hi.queue e0 (by simp [hq]))
  | @addLeg F w =>
    exact hi.next (.of_files rfl rfl fun _ h => h) (hold rfl)
      (apart_of_hit_none hno)
      (fun _ => .inl) (fun _ => .inl) (fun _ => .inl) rfl
  | @finish F w =>
    exact hi.next (.of_files rfl rfl fun _ h => h) (hold rfl)
      (apart_of_hit_none hno)
      (fun _ hl => by cases hl) (fun _ => .inl) (fun _ he => by cases he) rfl
  | @forget F w id ids hids =>
    refine hi.next (.of_files rfl rfl fun j hj => ?_) (hold rfl)
      (apart_of_hit_none hno)
      (fun _ => .inl) (fun _ => .inl) (fun _ => .inl) rfl
    simp only [Sob.pending, hids, List.cons_append, List.mem_cons] at hj ⊢
    exact .inr hj
  | @kill F w e cb id sz price hands =>
    have hv := bookView_report w .kill cb id id price sz
    refine hi.next (.of_files (files_report _ _ _ _ _ _ _) (lastId_of_bookView hv) fun j hj => ?_)
      (hold (limits_of_bookView hv))
      (apart_of_hit_none hno)
      (fun _ => .inl) (fun e he => .inl (queue_of_bookView hv ▸ he)) (fun _ => .inl) rfl
    exact pending_congr (F := F) (G := { F with hands := hands }) (w := w) rfl rfl
      (queue_of_bookView hv) ▸ hj
  | @print F w p id1 id2 sz1 sz2 n cb1 cb2 hands =>
    have hv := bookView_traded (w.log (.preTradePrint w.toSob p)) p n id1 id2 cb1 cb2
    refine hi.next (.of_files (files_traded _ _ _ _ _ _ _) (lastId_of_bookView hv) fun j hj => ?_)
      (hold (limits_of_bookView hv))
      (apart_of_hit_none hno)
      (fun _ => .inl) (fun e he => .inl (queue_of_bookView hv ▸ he)) (fun _ => .inl) rfl
    exact pending_congr (F := F)
      (G := { F with hands := (id1, sz1 - n) :: (id2, sz2 - n) :: hands }) (w := w) rfl rfl
      (queue_of_bookView hv) ▸ hj
  | @pushLimit F w buy p b hands ids hgap hh hids hsz hp hpe hss hside hpay =>
    have hnone := hs.idCache_new hids
    have hrest := waiting_limitPush w.toSob buy p b
    obtain ⟨hu, hle, hk⟩ := Uncaches.file (G := { F with
      hands := hands, ids := ids, legs := ⟨b.id, .limit, p, b.sz⟩ :: F.legs })
      (v := w.onSob fun s => Chain.limitPush buy s p b) ha hids
      (fun j hj => idCache_limitPush w.toSob buy p b hj) hrest.1 rfl rfl hrest.2
    refine hi.next hu (fun q x hx link hl => .inr ?_) (apart_of_hit_none hno) (fun l hl => ?_)
      (fun e he => .inl (hrest.2 ▸ he)) (fun _ => .inl) rfl
    · have hlim : (Chain.limitPush buy w.toSob p b).limits q =
          if q = p then (w.limits p).push b else w.limits q :=
        congrFun (congrArg LimitView.limits (limitView_limitPush w.toSob buy p b)) q
      rw [World.toSob_onSob, hlim] at hx
      split at hx
      next hq =>
        rw [ChainManager.elems_push] at hx
        rcases List.mem_append.mp hx with hx | hx
        · exact hi.elems q x (hq ▸ hx) link hl
        · rw [List.mem_singleton.mp hx, hpay] at hl
          cases hl
      next => exact hi.elems q x hx link hl
    · rcases List.mem_cons.mp hl with rfl | hl
      · refine .inr ⟨hle, hk, fun q hc => ⟨rfl, ?_⟩⟩
        rw [World.toSob_onSob, idCache_limitPush_self hnone] at hc
        cases hc
        rfl
      · exact .inl hl
  | @pushAon F w buy p b hands ids hh hids =>
    have hv := bookView_aonPush w.toSob buy p b
    obtain ⟨hu, hle, hk⟩ := Uncaches.file (G := { F with
      hands := hands, ids := ids
      legs := ⟨b.id, if buy then .aonBuy else .aonSell, p, b.sz⟩ :: F.legs })
      (v := w.onSob fun s => Chain.aonPush buy s p b) ha hids
      (fun j hj => idCache_aonPush w.toSob buy p b hj) (lastId_of_bookView hv) rfl rfl
      (queue_of_bookView hv)
    refine hi.next hu (hold (limits_of_bookView hv)) (apart_of_hit_none hno) (fun l hl => ?_)
      (fun e he => .inl (queue_of_bookView hv ▸ he)) (fun _ => .inl) rfl
    rcases List.mem_cons.mp hl with rfl | hl
    · refine .inr ⟨hle, hk, fun q hc => ?_⟩
      rw [World.toSob_onSob, idCache_aonPush_self (hs.idCache_new hids)] at hc
      cases buy <;> simp at hc
    · exact .inl hl
  | @pushStop F w p b hands ids hh hids =>
    have hv := bookView_stopPush w.toSob p b
    obtain ⟨hu, hle, hk⟩ := Uncaches.file (G := { F with
      hands := hands, ids := ids, legs := ⟨b.id, .stop, p, b.sz⟩ :: F.legs })
      (v := w.onSob fun s => Chain.stopPush s p b) ha hids
      (fun j hj => idCache_stopPush w.toSob p b hj) (lastId_of_bookView hv) rfl rfl
      (queue_of_bookView hv)
    refine hi.next hu (hold (limits_of_bookView hv)) (apart_of_hit_none hno) (fun l hl => ?_)
      (fun e he => .inl (queue_of_bookView hv ▸ he)) (fun _ => .inl) rfl
    rcases List.mem_cons.mp hl with rfl | hl
    · refine .inr ⟨hle, hk, fun q hc => ?_⟩
      rw [World.toSob_onSob, idCache_stopPush_self p (hs.idCache_new hids)] at hc
      cases hc
    · exact .inl hl
  | @arm F w e id c payload hgap he hl hc hcond =>
    refine hi.updateAt hno c id fun b link hp => ?_
    dsimp only at hp
    rcases hcond with ⟨-, op, -, rfl⟩ | ⟨-, hrefs, -⟩
    · cases hp
    · rw [hp] at hrefs
      cases hrefs
  | @link F w e op id1 id2 c1 c2 hgap he hcond hop hl1 hl2 hc1 hc2 hne =>
    obtain ⟨hsz1, hchk⟩ := hi.cur e he hcond
    obtain ⟨hsz2, hprices⟩ := hchk op hop
    obtain ⟨l1, hm1, rfl, hlev1⟩ := hl1 hsz1
    obtain ⟨l2, hm2, rfl, hlev2⟩ := hl2 hsz2
    have hcached : ∀ {c : ChainIterWrap} {l : Leg} {p : Nat}, c = ⟨.limit, p⟩ → l ∈ F.legs →
        w.idCache l.id = some c → l.type = .limit ∧ l.p = p := fun hcp hm hc =>
      (hi.legs _ hm).cache _ (hcp ▸ hc)
    -- two limit orders of one price were refused
    have hdiff : ∀ p, c1 = ⟨.limit, p⟩ → c2 ≠ ⟨.limit, p⟩ := fun p h1 h2 => by
      obtain ⟨ht1, hp1⟩ := hcached h1 hm1 hc1
      obtain ⟨ht2, hp2⟩ := hcached h2 hm2 hc2
      have hq1 := hlev1 ht1
      have hq2 := hlev2 ht2
      refine hprices hq1.1 hq2.1 ?_
      have := hq1.2.symm.trans ((congrArg Nat.cast (hp1.trans hp2.symm)).trans hq2.2)
      unfold Sob.levelOf at this
      omega
    have h1 : Links F (w.onSob (·.armed c1 l1.id e.condition e.trigger
        (.linkedOrder ⟨l2.id, false, none⟩))) := by
      refine hi.updateAt hno c1 l1.id fun b link hp => .inr fun p hcp => ?_
      cases hp
      exact hs.apart hc2 (hdiff p hcp)
    have h2 := h1.updateAt hno c2 l2.id (f := fun b => { b with
      condition := e.condition, trigger := e.trigger
      payload := .linkedOrder ⟨l1.id, true, none⟩ }) fun b link hp => .inr fun p hcp => ?_
    · exact h2.next (.of_files rfl rfl fun _ h => h)
        (fun p b hb link hl => .inr (h2.elems p b hb link hl)) (apart_of_hit_none hno)
        (fun _ hl => by cases hl) (fun _ => .inl) (fun _ => .inl) rfl
    · cases hp
      have hap := hs.apart (p := p) hc1 fun heq => hdiff p heq hcp
      refine hap.next ⟨fun j q hj => .inl ?_, fun j hj => .inl ?_, ?_⟩
      · rwa [World.toSob_onSob, Sob.armed, idCache_updateAt] at hj
      · exact pending_of_queue (s := w.toSob) (queue_updateAt _ _ _ _) ▸ hj
      · exact (lastId_updateAt _ _ _ _).ge
  | @openLoss F w e l c p b nticks1 nticks2 ids hgap he hl hids =>
    let f : OrderBndl → OrderBndl := fun x => { x with
      condition := e.condition, trigger := e.trigger
      payload := .linkedOrder ⟨b.id, false, nticks1⟩ }
    let w1 := w.onSob (·.updateAt c l.id f)
    have hc1 : w1.idCache = w.idCache := idCache_updateAt _ _ _ _
    have hnone : w1.idCache b.id = none := hc1 ▸ hs.idCache_new hids
    have hv := bookView_stopPush w1.toSob p b
    have hlast : (Chain.stopPush w1.toSob p b).lastId = w.lastId :=
      (lastId_of_bookView hv).trans (lastId_updateAt _ _ _ _)
    have hq : (Chain.stopPush w1.toSob p b).internalOrderQueue = w.internalOrderQueue :=
      (queue_of_bookView hv).trans (queue_updateAt _ _ _ _)
    obtain ⟨hu, hle, hk⟩ := Uncaches.file
      (G := { F with ids := ids, legs := [], exits := some (b.id, l.id) })
      (v := w1.onSob fun s => Chain.stopPush s p b) ha hids
      (fun j hj => (idCache_stopPush w1.toSob p b hj).trans (congrFun hc1 j)) hlast rfl rfl hq
    refine hi.next hu (fun q x hx link hlk => ?_) (apart_of_hit_none hno) (fun _ h => by cases h)
      (fun e' he' => .inl (hq ▸ he')) (fun _ => .inl) rfl
    rw [World.toSob_onSob, limits_stopPush] at hx
    rcases mem_limits_updateAt (s := w.toSob) hx with hx | ⟨-, y, -, -, heq⟩
    · exact .inr (hi.elems q x hx link hlk)
    · -- the target refers to the new stop
      rw [heq] at hlk
      cases hlk
      refine .inl ⟨hle, hk, fun hcache => ?_⟩
      have hself := idCache_stopPush_self p hnone
      exact absurd (hself.symm.trans hcache) (by simp)
  | announce =>
    exact hi.next (.of_files rfl rfl fun _ h => h) (hold rfl) (apart_of_hit_none hno)
      (fun _ => .inl) (fun _ => .inl) (fun _ => .inl) rfl
  | @trailingInsert F w id isBuy nticks =>
    have hv := (bookView_trailing w.toSob id isBuy).2
    refine hi.next (.of_files (files_trailingInserted _ _ _) (lastId_of_bookView hv) fun j hj => ?_)
      (hold (limits_of_bookView hv)) (apart_of_hit_none hno)
      (fun _ => .inl) (fun e he => .inl (queue_of_bookView hv ▸ he)) (fun _ => .inl) rfl
    exact pending_of_queue (s := w.toSob) (queue_of_bookView hv) ▸ hj
  | @tellEntry F w e id c payload hgap he hcond hc hpay =>
    refine hi.updateAt hno c id fun b link hp => ?_
    dsimp only at hp
    rcases hpay with ⟨_, _, _, _, rfl⟩ | ⟨_, _, _, _, rfl⟩ <;> cases hp

end Links
end SimpleOrderbook
