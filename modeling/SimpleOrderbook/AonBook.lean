import SimpleOrderbook.Shrinking

/-!
# The all-or-none chains

All-or-none chains are only found at levels of the book: an order comes to one from the limit chain
of its level, or is pushed there by the insertion of a limit order.
-/
namespace SimpleOrderbook

def AonsInRange (s : Sob) : Prop :=
  ∀ buys p, s.aons buys p ≠ none → beg ≤ p ∧ p < s.end_

section Aons
variable {F : Flight} {w : World}

/-- Limit chains are only found at levels of the book. -/
theorem Ambient.inRange (h : Ambient F w) {p : Nat} (hp : w.limits p ≠ none) :
    beg ≤ p ∧ p < w.end_ := by
  have hrange : ∀ {s : Sob}, LimitInv s.limitView → s.limits p ≠ none → beg ≤ p ∧ p < s.end_ :=
    fun hl hne => ⟨Nat.pos_of_ne_zero fun h0 => hne (h0 ▸ hl.pad),
      not_le.mp fun hge => hne (hl.top p hge)⟩
  cases hgap : F.gap with
  | none => exact hrange (h.limitInv hgap) hp
  | some q =>
    obtain ⟨c, hc, -, hl⟩ := h.open hgap
    refine hrange (s := w.setLimits q c) hl ?_
    rw [Sob.limits_setLimits]
    split <;> assumption

theorem aons_updateAt (s : Sob) (c : ChainIterWrap) (id : Nat) (g : OrderBndl → OrderBndl)
    (buys : Bool) (p : Nat) : (s.updateAt c id g).aons buys p =
      if c.type = (if buys then .aonBuy else .aonSell) ∧ p = c.p then
        (s.aons buys p).map (Chain.updateLimit (fun b => { b with toOrderBndl := g b.toOrderBndl }) id)
      else s.aons buys p := by
  unfold Sob.updateAt
  rcases c with ⟨ty, cp⟩
  cases ty <;> cases buys <;> simp <;> by_cases h : p = cp <;> simp [h]

theorem aons_updateAt_ne_none {s : Sob} {c : ChainIterWrap} {id : Nat}
    {g : OrderBndl → OrderBndl} {buys : Bool} {p : Nat}
    (h : (s.updateAt c id g).aons buys p ≠ none) : s.aons buys p ≠ none := by
  intro hn
  rw [aons_updateAt, hn, Option.map_none, ite_self] at h
  exact h rfl

theorem aons_copiedToAons {s : Sob} {buyLimit : Bool} {p : Nat} {b : LimitBndl}
    {c : ChainIterWrap} {buys : Bool} {q : Nat} :
    (s.copiedToAons buyLimit p b c).aons buys q =
      if q = p ∧ buys = true then (s.aons true p).push b else s.aons buys q := by
  unfold Sob.copiedToAons
  rw [aons_of_files (Exec.Aon.files_adjustStateAfterInsert _ _ _)]
  exact Sob.aons_setAons ..

theorem aons_erasedAon {s : Sob} {isBuy : Bool} {p id : Nat} {buys : Bool} {q : Nat} :
    (s.erasedAon isBuy p id).aons buys q = if q = p ∧ buys = isBuy then
      ChainManager.ofList (Chain.eraseLimit (s.aons isBuy p).elems id) else s.aons buys q := by
  unfold Sob.erasedAon
  dsimp only
  split
  · rw [aons_of_files (Exec.Aon.files_adjustStateAfterPull _ _ _)]
    exact Sob.aons_setAons ..
  · exact Sob.aons_setAons ..

theorem aons_erasedStop {s : Sob} {p : Nat} {b : StopBndl} : (s.erasedStop p b).aons = s.aons := by
  obtain ⟨_, _, _, _, _, _, h⟩ := s.erasedStop_eq p b
  funext buys q
  unfold Sob.erasedStop
  dsimp only
  split
  · rw [aons_of_files (Exec.Stop.files_adjustStateAfterPull _ _ _)]
    exact Sob.aons_setStops ..
  · exact Sob.aons_setStops ..

/-! ## Where all-or-none orders come from -/

theorem Act.aons {c c' : Config} (h : Act c c') {buys : Bool} {p : Nat}
    (hp : c'.2.aons buys p ≠ none) :
    c.2.aons buys p ≠ none ∨ ∃ b ∈ (c.2.limits p).elems, b.isAON = true := by
  cases h with
  | report =>
    left
    rwa [aons_of_files (files_report _ _ _ _ _ _ _)] at hp
  | @popLimit F w id cw =>
    exact .inl (by simpa [Sob.erasedLimit] using hp)
  | @moveFront F w q b bs cw hgap hl hb =>
    simp only [World.toSob_onSob, World.toSob_log, Sob.aons_setLimits, aons_copiedToAons] at hp
    split at hp
    next heq => exact .inr ⟨b, by rw [heq.1, hl]; exact List.mem_cons_self, hb⟩
    next => exact .inl hp
  | @settle F w q =>
    left
    rwa [World.toSob_onSob, aons_of_files (Exec.Limit.files_adjustStateAfterPull _ _ _)] at hp
  | @popAon F w id cw isBuy b hc hty hb =>
    left
    simp only [World.toSob_onSob, aons_erasedAon] at hp
    split at hp
    next heq =>
      obtain ⟨rfl, rfl⟩ := heq
      exact fun hn => by simp [hn, Chain.findLimit] at hb
    next => exact hp
  | popStop =>
    left
    rwa [World.toSob_onSob, aons_erasedStop] at hp
  | trailingErase =>
    left
    rwa [World.toSob_onSob, aons_of_files (files_trailingErased _ _ _)] at hp
  | grow => exact .inl (aons_updateAt_ne_none hp)
  | growBoth =>
    left
    have h2 := aons_updateAt_ne_none hp
    rw [aons_of_files (files_report _ _ _ _ _ _ _)] at h2
    exact aons_updateAt_ne_none h2
  | tell => exact .inl (aons_updateAt_ne_none hp)
  | _ => exact .inl hp

theorem Move.aons {c c' : Config} (h : Move c c') {buys : Bool} {p : Nat}
    (hp : c'.2.aons buys p ≠ none) :
    c.2.aons buys p ≠ none ∨ ∃ b ∈ (c.2.limits p).elems, b.isAON = true := by
  have hset : ∀ {s : Sob} {cl : ChainManager AonBndl} {bidSide : Bool} {plev : Nat},
      s.aons bidSide plev ≠ none → (s.setAons bidSide plev cl).aons buys p ≠ none →
        s.aons buys p ≠ none := fun hl h => by
    rw [Sob.aons_setAons] at h
    split at h
    next heq => rw [heq.1, heq.2]; exact hl
    next => exact h
  cases h with
  | act h => exact h.aons hp
  | @fillAon F w bidSide plev id size cb b kept bs hands hh hl =>
    have htr := aons_of_files (files_traded w plev b.sz id b.id cb b.cb)
    refine .inl ?_
    rw [← htr]
    exact hset (by simp [htr, hl]) hp
  | @fillLastAon F w bidSide plev id size cb b hands hh hl =>
    have htr := aons_of_files (files_traded w plev b.sz id b.id cb b.cb)
    rw [World.toSob_onSob, aons_of_files (Exec.Aon.files_adjustStateAfterPull _ _ _)] at hp
    refine .inl ?_
    rw [← htr]
    exact hset (by simp [htr, hl]) hp
  | freeAon bidSide plev hl =>
    rw [World.toSob_onSob, aons_of_files (Exec.Aon.files_adjustStateAfterPull _ _ _)] at hp
    exact .inl (hset (by simp [hl]) hp)
  | @moveHit F w h id size b c todo hands hgap hact hh hhit htodo hl hsize hb =>
    simp only [Sob.updateLimit, World.toSob_onSob, World.toSob_log, Sob.aons_setLimits,
      aons_copiedToAons] at hp
    split at hp
    next heq => exact .inr ⟨b, heq.1 ▸ (Chain.findLimit_mem hl).1, hb⟩
    next => exact .inl hp
  | fill =>
    rw [aons_of_files (files_traded _ _ _ _ _ _ _)] at hp
    exact .inl hp
  | rearm | reduce | retire =>
    left
    simpa [Sob.reduced, Sob.updateLimit] using hp
  | eraseHit => exact .inl (by simpa using hp)
  | freeHit | wipeHit =>
    rw [World.toSob_onSob, aons_of_files (Exec.Core.files_findNewBestInside _ _)] at hp
    exact .inl (by simpa using hp)
  | @moveStop F w buyStops p' id c b =>
    unfold World.movedStop Chain.stopPush at hp
    rw [World.toSob_onSob, aons_of_files (Exec.Stop.files_adjustStateAfterInsert _ _ _),
      Sob.aons_cacheEmplace, Sob.aons_setStops, aons_of_files (files_report _ _ _ _ _ _ _),
      World.toSob_onSob, aons_erasedStop] at hp
    exact .inl hp
  | detach =>
    rw [World.toSob_onSob, aons_of_files (Exec.Stop.files_adjustStateAfterTrigger _ _ _)] at hp
    exact .inl (by simpa using hp)
  | eraseTriggered =>
    rw [World.toSob_onSob, aons_of_files (files_trailingErased _ _ _)] at hp
    exact .inl hp
  | turn =>
    rw [aons_of_files (files_turned _ _ _ _ _)] at hp
    exact .inl hp
  | _ => exact .inl hp

theorem limits_ne_none_of_mem {s : Sob} {p : Nat} {P : LimitBndl → Prop}
    (h : ∃ b ∈ (s.limits p).elems, P b) : s.limits p ≠ none := fun hn => by
  obtain ⟨b, hb, -⟩ := h
  rw [hn] at hb
  cases hb

theorem AonsInRange.of_aons {s' : Sob} (h : AonsInRange w.toSob) (ha : Ambient F w)
    (hgrid : s'.grid = w.grid)
    (haons : ∀ {buys p}, s'.aons buys p ≠ none → w.aons buys p ≠ none ∨ w.limits p ≠ none) :
    AonsInRange s' := by
  have hend : s'.end_ = w.end_ := congrArg Prod.snd hgrid
  intro buys p hp
  rw [hend]
  exact (haons hp).elim (h buys p) ha.inRange

theorem Moves.aonsInRange {c c' : Config} (h : Moves c c') (ha : Ambient c.1 c.2)
    (hr : AonsInRange c.2.toSob) : AonsInRange c'.2.toSob := by
  induction h with
  | refl => exact hr
  | tail hm h ih =>
    exact ih.of_aons (Moves.ambient hm ha) h.shrinks.grid_eq fun hp =>
      (h.aons hp).imp_right limits_ne_none_of_mem

/-! ## Insertions -/

/-- What is assumed of the book when an order is inserted. -/
structure WellFormed (c : Config) : Prop where
  ambient : Ambient c.1 c.2
  aons : AonsInRange c.2.toSob
  levels : 1 < c.2.end_

theorem Step.grid_eq {c c' : Config} (h : Step c c') : c'.2.grid = c.2.grid := by
  cases h with
  | act h => exact h.grid_eq
  | trade bidSide plev id size r cb hF hp hpe hrun hm => exact hm.shrinks.grid_eq
  | kill => exact grid_of_bookView (bookView_report _ _ _ _ _ _ _)
  | print => exact grid_of_bookView (bookView_traded _ _ _ _ _ _ _)
  | @pushLimit F w buy p b =>
    obtain ⟨_, h⟩ := (w.setLimits p ((w.limits p).push b)).cacheEmplace_eq b.id ⟨.limit, p⟩
    rw [World.toSob_onSob]
    unfold Chain.limitPush
    rw [h]
    cases buy <;> rfl
  | pushAon buy p b => exact grid_of_bookView (bookView_aonPush _ _ _ _)
  | pushStop p b => exact grid_of_bookView (bookView_stopPush _ _ _)
  | arm => exact grid_updateAt _ _ _ _
  | link => exact (grid_updateAt _ _ _ _).trans (grid_updateAt _ _ _ _)
  | openLoss => exact (grid_of_bookView (bookView_stopPush _ _ _)).trans (grid_updateAt _ _ _ _)
  | trailingInsert => exact grid_of_bookView (bookView_trailing _ _ _).2
  | tellEntry => exact grid_updateAt _ _ _ _
  | _ => rfl

theorem Steps.grid_eq {c c' : Config} (h : Steps c c') : c'.2.grid = c.2.grid := by
  induction h with
  | refl => rfl
  | tail _ h ih => exact h.grid_eq.trans ih

/-- An AON chain appears when a trade is made or an AON comes to rest. -/
theorem Step.aons {c c' : Config} (h : Step c c') {buys : Bool} {p : Nat}
    (hp : c'.2.aons buys p ≠ none) :
    (c.2.aons buys p ≠ none ∨ ∃ b ∈ (c.2.limits p).elems, b.isAON = true) ∨ Moves c c' ∨
      c.2.HasLevel p ∧ ∃ (e : OrderQueueElem) (b : OrderBndl),
        c.1.Inserts e ∧ e.Rests b ∧ b.isAON = true := by
  cases h with
  | act h => exact .inl (h.aons hp)
  | trade bidSide plev id size r cb hF hp hpe hrun hm => exact .inr (.inl hm)
  | kill => exact .inl (.inl (by rwa [aons_of_files (files_report _ _ _ _ _ _ _)] at hp))
  | print => exact .inl (.inl (by rwa [aons_of_files (files_traded _ _ _ _ _ _ _)] at hp))
  | @pushLimit F w buy p b =>
    unfold Chain.limitPush at hp
    rw [World.toSob_onSob, aons_of_files (Exec.Limit.files_adjustStateAfterInsert _ _ _)] at hp
    exact .inl (.inl (by simpa using hp))
  | @pushAon F w buy q b hands ids hh hids hsz hq hqe hside hpay hAON e hins hb =>
    unfold Chain.aonPush at hp
    rw [World.toSob_onSob, aons_of_files (Exec.Aon.files_adjustStateAfterInsert _ _ _),
      Sob.aons_cacheEmplace, Sob.aons_setAons] at hp
    split at hp
    next heq =>
      obtain ⟨rfl, -⟩ := heq
      exact .inr (.inr ⟨⟨hq, hqe⟩, e, b.toOrderBndl, hins, hb, hAON⟩)
    next => exact .inl (.inl hp)
  | pushStop =>
    unfold Chain.stopPush at hp
    rw [World.toSob_onSob, aons_of_files (Exec.Stop.files_adjustStateAfterInsert _ _ _)] at hp
    exact .inl (.inl (by simpa using hp))
  | arm | tellEntry => exact .inl (.inl (aons_updateAt_ne_none hp))
  | link => exact .inl (.inl (aons_updateAt_ne_none (aons_updateAt_ne_none hp)))
  | openLoss =>
    unfold Chain.stopPush at hp
    rw [World.toSob_onSob, aons_of_files (Exec.Stop.files_adjustStateAfterInsert _ _ _),
      Sob.aons_cacheEmplace, Sob.aons_setStops] at hp
    exact .inl (.inl (aons_updateAt_ne_none hp))
  | trailingInsert =>
    exact .inl (.inl (by rwa [World.toSob_onSob, aons_of_files (files_trailingInserted _ _ _)] at hp))
  | _ => exact .inl (.inl hp)

theorem Step.aonsInRange {c c' : Config} (h : Step c c') (ha : Ambient c.1 c.2)
    (hr : AonsInRange c.2.toSob) : AonsInRange c'.2.toSob := by
  have hend : c'.2.end_ = c.2.end_ := congrArg Prod.snd h.grid_eq
  intro buys p hp
  rcases h.aons hp with (hp | hm) | hm | ⟨hlevel, -⟩
  · exact hend ▸ hr buys p hp
  · exact hend ▸ ha.inRange (limits_ne_none_of_mem hm)
  · exact hm.aonsInRange ha hr buys p hp
  · exact hend ▸ hlevel

theorem Steps.wellFormed {c c' : Config} (h : Steps c c') (hw : WellFormed c) : WellFormed c' := by
  induction h with
  | refl => exact hw
  | tail _ h ih =>
    have hend := congrArg Prod.snd h.grid_eq
    exact ⟨h.ambient ih.ambient, h.aonsInRange ih.ambient ih.aons, ih.levels.trans_eq hend.symm⟩

end Aons
end SimpleOrderbook
