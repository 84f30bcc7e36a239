import SimpleOrderbook.Resident

/-!
# Plain orders

Limit, all-or-none, market, stop and stop-limit orders without an advanced ticket: no order in the
book refers to another one, no handler generates an order, and none is pulled but by its client.
-/
namespace SimpleOrderbook

/-- The order has no condition, or it is an AON. -/
def OrderCondition.IsPlain (c : OrderCondition) : Prop := c = .none ∨ c = .allOrNone

structure OrderBndl.Plain (b : OrderBndl) : Prop where
  payload : b.payload = .null
  condition : b.condition.IsPlain

/-- Nothing in the book or under way has a condition but AON. -/
structure Plain (F : Flight) (w : World) : Prop where
  resident : ∀ q b, Resident F w q b → b.Plain
  acting : ∀ a, F.acting = some a → a.bndl.Plain
  queue : ∀ e ∈ w.internalOrderQueue, e.condition.IsPlain
  cur : ∀ e, F.cur = some e → e.condition.IsPlain
  ext : ∀ e, F.ext = some e → e.condition.IsPlain

section Plain
variable {F F' : Flight} {w w' : World}

theorem OrderCondition.IsPlain.not_opensExits {c : OrderCondition} (h : c.IsPlain) :
    ¬ c.opensExits := by
  rcases h with rfl | rfl <;> simp [OrderCondition.opensExits]

/-- No other order is pulled while a chain is hit. -/
theorem Plain.hit_none (h : Plain F w) {id : Nat} (hpull : F.MayPull id) : F.hit = none := by
  by_contra hne
  obtain ⟨H, hH⟩ := Option.ne_none_iff_exists'.mp hne
  obtain ⟨a, link, ha, hl, -⟩ := hpull H hH
  exact absurd (hl.symm.trans (h.acting a ha).payload) (by simp)

theorem Plain.not_fires (h : Plain F w) : ¬ F.Fires := by
  rintro (⟨a, ha, hne⟩ | ⟨e, he, hc | hc⟩)
  · exact hne (h.acting a ha).payload
  · rcases h.cur e he with h' | h' <;> simp [h'] at hc
  · exact (h.cur e he).not_opensExits hc

theorem Plain.generates (h : Plain F w) {e : OrderQueueElem} (hg : F.Generates e) :
    e.condition.IsPlain := by
  by_contra hne
  rcases hg.opensExits fun hc => hne (.inl hc) with ⟨a, ha, hc⟩ | ⟨e', he', hc⟩
  · exact (h.acting a ha).condition.not_opensExits hc
  · exact (h.cur e' he').not_opensExits hc

/-- A plain order does not change the size of another. -/
theorem OrderBndl.Plain.not_resizes {a : Acting} (h : a.bndl.Plain) {b b' : OrderBndl} :
    ¬ a.Resizes b b' := by
  rintro (⟨n, hm⟩ | ⟨link, hl⟩)
  · rw [h.payload] at hm
    cases hm
  · exact absurd (hl.symm.trans h.payload) (by simp)

theorem OrderBndl.Plain.settled {b b' : OrderBndl} (h : b.Plain) (hs : b.Settled b') : b'.Plain := by
  obtain ⟨hpay, hcond⟩ := h
  cases hs with
  | same => exact ⟨hpay, hcond⟩
  | disarmed => exact ⟨rfl, .inl rfl⟩
  | spent => exact ⟨rfl, hcond⟩
  | bracket h => exact absurd (h.symm.trans hpay) (by simp)
  | nticks h => exact absurd (h.symm.trans hpay) (by simp)

theorem Plain.becomes (h : Plain F w) {q q' : Kind × Nat} {b b' : OrderBndl}
    (hr : Resident F w q b) (hb : Becomes F F' q b q' b') : b'.Plain := by
  have hp := h.resident q b hr
  cases hb with
  | same | traded | toAons | shifted => exact hp
  | resized a ha hs => exact absurd hs (h.acting a ha).not_resizes
  | settled H a hH ha hq hid hs =>
    obtain ⟨hpay, hcond⟩ := (h.acting a ha).settled hs
    exact ⟨hpay, hcond⟩
  | reduced => exact ⟨hp.payload, hp.condition⟩

theorem Plain.next (h : Plain F w)
    (hr : ∀ q b, Resident F' w' q b → (∃ q₀ b₀, Resident F w q₀ b₀ ∧ Becomes F F' q₀ b₀ q b) ∨ b.Plain)
    (hact : ∀ a, F'.acting = some a → (∃ a', F.acting = some a' ∧ a.bndl = a'.bndl) ∨ a.bndl.Plain)
    (hqueue : ∀ e ∈ w'.internalOrderQueue, e ∈ w.internalOrderQueue ∨ F.Generates e)
    (hcur : ∀ e, F'.cur = some e → F.cur = some e ∨ e.condition.IsPlain)
    (hext : F'.ext = F.ext) : Plain F' w' := by
  refine ⟨fun q b hb => ?_, fun a ha => ?_, fun e he => ?_, fun e he => ?_, fun e he => ?_⟩
  · rcases hr q b hb with ⟨q₀, b₀, h₀, hb⟩ | hp
    · exact h.becomes h₀ hb
    · exact hp
  · rcases hact a ha with ⟨a', ha', heq⟩ | hp
    · exact heq ▸ h.acting a' ha'
    · exact hp
  · exact (hqueue e he).elim (h.queue e) h.generates
  · exact (hcur e he).elim (h.cur e) fun hp => hp
  · exact h.ext e (hext ▸ he)

theorem Act.plain {c c' : Config} (h : Act c c') (hi : Filed c.1 c.2) (hp : Plain c.1 c.2) :
    Plain c'.1 c'.2 := by
  have hF := h.sameInsertion
  exact hp.next (fun q b hb => .inl (h.resident hi hb)) (fun a ha => .inl (h.acting_bndl ha)) h.queue
    (fun e he => .inl (hF.cur ▸ he)) hF.ext

theorem Plain.traded {F : Flight} {w : World} (h : Plain F w) {plev : Nat} {x : LimitBndl}
    (hx : x ∈ (w.limits plev).elems) (hlive : x.id ∉ F.spentAt plev) : x.Plain :=
  h.resident _ _ (resident_limit.mpr ⟨x, hx, hlive, rfl⟩)

theorem Move.plain {c c' : Config} (h : Move c c') (hi : Filed c.1 c.2) (ha : Ambient c.1 c.2)
    (hw : c.1.Walks) (hzero : c'.2.NoEmptyHit) (hp : Plain c.1 c.2) : Plain c'.1 c'.2 := by
  have hF := h.sameInsertion
  refine hp.next (fun q b hb => .inl (h.resident hi ha hw hzero hb)) (fun a hact => ?_) h.queue
    (fun e he => .inl (hF.cur ▸ he)) hF.ext
  cases h with
  | act h => exact .inl (h.acting_bndl hact)
  | @fill F w h id size cb x todo hands hh hhit htodo hl =>
    cases hact
    exact .inr (hp.traded (Chain.findLimit_mem hl).1 (hw.live hhit htodo))
  | @beginTrigger F w d e todo hdet htodo =>
    cases hact
    refine .inr (hp.resident (.stop, d.plev) _ (resident_stop.mpr ⟨e, .inr ?_, rfl⟩))
    rw [Flight.triggering_of_some hdet, if_pos rfl, htodo]
    exact List.mem_cons_self
  | reduce | retire | endTrigger => cases hact
  | _ => exact .inl ⟨a, hact, rfl⟩

end Plain
end SimpleOrderbook
