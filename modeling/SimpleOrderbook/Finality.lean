import SimpleOrderbook.CacheChains
import SimpleOrderbook.TimePriority

/-!
# Gone for good

An order is live while it waits, rests in a chain, or is in the hands of a call. A call only does
something to live orders and to those it gives an id to, and no order comes back to life.

## Main results

* `Run.gone_for_good` — over any run that continues another.
-/
namespace SimpleOrderbook

/-! ## Live orders -/

/-- The orders a call does something to. -/
def Event.subjects : Event → List Nat
  | .filled id => [id]
  | ev => ev.parties

/-- Order `id` rests in a chain. -/
def Sob.InBook (s : Sob) (id : Nat) : Prop :=
  (∃ p, id ∈ s.limitIds p) ∨ (∃ buys p, id ∈ s.aonIds buys p) ∨ ∃ p, id ∈ s.stopIds p

inductive Live : Config → Nat → Prop where
  | rests {c id} (h : c.2.InBook id) : Live c id
  | waits {c id} (h : id ∈ c.2.pending c.1) : Live c id
  | held {c id} (sz : Nat) (h : (id, sz) ∈ c.1.hands) : Live c id
  | acts {c} (a : Acting) (h : c.1.acting = some a) : Live c a.bndl.id
  | turns {c} (d : Detached) (e : StopBndl) (h : c.1.detached = some d) (he : e ∈ d.todo) :
      Live c e.id

theorem KeepsPlaces.inBook {New : Nat → Prop} {s s' : Sob} (h : KeepsPlaces New s s') {id : Nat}
    (hid : s'.InBook id) : s.InBook id ∨ New id := by
  rcases hid with ⟨p, hp⟩ | ⟨buys, p, hp⟩ | ⟨p, hp⟩
  · exact ((h.limits p).mem hp).imp_left fun hm => .inl ⟨p, hm⟩
  · rcases (h.aons buys p).mem hp with hm | hm | hm
    · exact .inl (.inr (.inl ⟨buys, p, hm⟩))
    · exact .inr hm
    · exact .inl (.inl ⟨p, hm⟩)
  · rcases (h.stops p).mem hp with hm | hm | ⟨q, hm⟩
    · exact .inl (.inr (.inr ⟨p, hm⟩))
    · exact .inr hm
    · exact .inl (.inr (.inr ⟨q, hm⟩))

/-- What `c` becomes `c'` by is done to live and to new orders. -/
structure Follows (c c' : Config) : Prop where
  lastId : c.2.lastId ≤ c'.2.lastId
  live : ∀ id, Live c' id → Live c id ∨ c.2.lastId < id
  events : ∃ evs, c'.2.trace = evs ++ c.2.trace ∧
    ∀ ev ∈ evs, ∀ id ∈ ev.subjects, Live c id ∨ c.2.lastId < id

namespace Follows
variable {c c' c'' : Config}

theorem refl (c : Config) : Follows c c :=
  ⟨le_rfl, fun _ h => .inl h, [], rfl, fun _ h => by cases h⟩

theorem trans (h : Follows c c') (h' : Follows c' c'') : Follows c c'' := by
  have hlive : ∀ id, Live c' id ∨ c'.2.lastId < id → Live c id ∨ c.2.lastId < id := by
    intro id hid
    rcases hid with hid | hlt
    · exact h.live id hid
    · exact .inr (h.lastId.trans_lt hlt)
  refine ⟨h.lastId.trans h'.lastId, fun id hid => hlive id (h'.live id hid), ?_⟩
  obtain ⟨evs, htrace, hevs⟩ := h.events
  obtain ⟨evs', htrace', hevs'⟩ := h'.events
  refine ⟨evs' ++ evs, ?_, fun ev hev id hid => ?_⟩
  · rw [htrace', htrace, List.append_assoc]
  · rcases List.mem_append.mp hev with hev | hev
    · exact hlive id (hevs' ev hev id hid)
    · exact hevs ev hev id hid

end Follows

/-! ## Transitions -/

section Transitions
variable {F F' : Flight} {w w' : World}

theorem Live.of_limits {p : Nat} {b : LimitBndl} (h : b ∈ (w.limits p).elems) : Live (F, w) b.id :=
  .rests (.inl ⟨p, List.mem_map_of_mem h⟩)

theorem Live.of_aons {buys : Bool} {p : Nat} {b : AonBndl} (h : b ∈ (w.aons buys p).elems) :
    Live (F, w) b.id :=
  .rests (.inr (.inl ⟨buys, p, List.mem_map_of_mem h⟩))

theorem Live.of_stops {p : Nat} {b : StopBndl} (h : b ∈ (w.stops p).elems) : Live (F, w) b.id :=
  .rests (.inr (.inr ⟨p, List.mem_map_of_mem h⟩))

theorem Live.of_ids {id : Nat} (h : id ∈ F.ids) : Live (F, w) id :=
  .waits (List.mem_append_left _ h)

/-- The hands, the order that acts and the stops being triggered are those of before, or live ones. -/
structure HoldsLive (c c' : Config) : Prop where
  hands : ∀ h ∈ c'.1.hands, Live c h.1
  acting : ∀ a, c'.1.acting = some a → Live c a.bndl.id
  todo : ∀ d, c'.1.detached = some d → ∀ e ∈ d.todo, Live c e.id

/-- New events are about live orders. -/
def Tells (c c' : Config) : Prop :=
  ∃ evs, c'.2.trace = evs ++ c.2.trace ∧ ∀ ev ∈ evs, ∀ id ∈ ev.subjects, Live c id

theorem Follows.of_holdsLive {c c' : Config} (hlast : c.2.lastId ≤ c'.2.lastId)
    (hplaces : KeepsPlaces (· ∈ c.1.ids) c.2.toSob c'.2.toSob)
    (hpend : ∀ id ∈ c'.2.pending c'.1, id ∈ c.2.pending c.1 ∨ c.2.lastId < id) (hc : HoldsLive c c')
    (hev : Tells c c') : Follows c c' := by
  obtain ⟨evs, htrace, hevs⟩ := hev
  refine ⟨hlast, fun id hid => ?_, evs, htrace, fun ev hev id hid => .inl (hevs ev hev id hid)⟩
  cases hid with
  | rests h => exact .inl ((hplaces.inBook h).elim .rests .of_ids)
  | waits h => exact (hpend id h).imp_left .waits
  | held sz h => exact .inl (hc.hands _ h)
  | acts a h => exact .inl (hc.acting a h)
  | turns d e h he => exact .inl (hc.todo d h e he)

theorem HoldsLive.of_same (hh : ∀ h ∈ F'.hands, Live (F, w) h.1) (ha : F'.acting = F.acting)
    (hd : F'.detached = F.detached) : HoldsLive (F, w) (F', w') :=
  ⟨hh, fun a h => .acts a (ha ▸ h), fun d h e he => .turns d e (hd ▸ h) he⟩

theorem Act.holdsLive (h : Act (F, w) (F', w')) : HoldsLive (F, w) (F', w') := by
  have hsame : ∀ h ∈ F.hands, Live (F, w) h.1 := fun h hm => .held h.2 hm
  have hhold : ∀ {id sz : Nat}, Live (F, w) id → ∀ h ∈ (F.hold id sz).hands, Live (F, w) h.1 := by
    intro id sz hid h hm
    rcases List.mem_cons.mp hm with rfl | hm
    · exact hid
    · exact hsame h hm
  have htail : ∀ {id sz : Nat} {hands : List (Nat × Nat)}, F.hands = (id, sz) :: hands →
      ∀ h ∈ hands, Live (F, w) h.1 :=
    fun hh h hm => hsame h (hh ▸ List.mem_cons_of_mem _ hm)
  cases h with
  | popLimit id c b hgap hpull hc hty hb =>
    exact .of_same (hhold (.of_limits (Chain.findLimit_mem hb).1)) rfl rfl
  | popAon id c isBuy b hc hty hb =>
    exact .of_same (hhold (.of_aons (Chain.findLimit_mem hb).1)) rfl rfl
  | popStop id c b hc hb =>
    exact .of_same (hhold (.of_stops (List.mem_of_find?_eq_some hb))) rfl rfl
  | pulled id sz hands hh => exact .of_same (htail hh) rfl rfl
  | drop id hands hh => exact .of_same (htail hh) rfl rfl
  | lose id sz p hands b bs hh => exact .of_same (htail hh) rfl rfl
  | tell link c a hgap ha =>
    refine ⟨hsame, fun a' ha' => ?_, fun d h e he => .turns d e h he⟩
    obtain rfl := Option.some.inj ha'
    exact .acts a ha
  | _ => exact .of_same hsame rfl rfl

theorem Tells.same (htrace : w'.trace = w.trace) : Tells (F, w) (F', w') :=
  ⟨[], htrace, fun _ h => by cases h⟩

theorem Tells.one {ev : Event} (htrace : w'.trace = ev :: w.trace)
    (hev : ∀ id ∈ ev.subjects, Live (F, w) id) : Tells (F, w) (F', w') := by
  refine ⟨[ev], htrace, fun ev' hm => ?_⟩
  rw [List.mem_singleton.mp hm]
  exact hev

theorem Tells.cons {u : World} {ev : Event} (h : Tells (F, w) (F', u))
    (htrace : w'.trace = ev :: u.trace) (hev : ∀ id ∈ ev.subjects, Live (F, w) id) :
    Tells (F, w) (F', w') := by
  obtain ⟨evs, hu, hevs⟩ := h
  refine ⟨ev :: evs, htrace.trans (congrArg (ev :: ·) hu), fun ev' hm => ?_⟩
  rcases List.mem_cons.mp hm with rfl | hm
  · exact hev
  · exact hevs ev' hm

theorem Tells.traded {u : World} (h : Tells (F, w) (F', u)) (plev n : Nat) {id1 id2 : Nat}
    (cb1 cb2 : OrderExecCbBndl) (h1 : Live (F, w) id1) (h2 : Live (F, w) id2) :
    Tells (F, w) (F', u.traded plev n id1 id2 cb1 cb2) := by
  obtain ⟨evs, hu, hevs⟩ := h
  refine ⟨_ :: _ :: _ :: evs, by rw [trace_traded, hu]; rfl, fun ev hev id hid => ?_⟩
  simp only [List.mem_cons] at hev
  rcases hev with rfl | rfl | rfl | hev
  · simp only [Event.subjects, Event.parties, List.mem_cons, List.not_mem_nil, or_false] at hid
    rcases hid with rfl | rfl
    · exact h1
    · exact h2
  · cases hid
  · cases hid
  · exact hevs ev hev id hid

theorem Act.tells (h : Act (F, w) (F', w')) : Tells (F, w) (F', w') := by
  cases h with
  | report | growBoth => exact .one (trace_report _ _ _ _ _ _ _) fun id hid => by cases hid
  | enqueue | moveFront | missFront | popAon | pullEmptyStop | look =>
    exact .one rfl fun id hid => by cases hid
  | pulled id sz hands hh =>
    refine .one rfl fun i hi => ?_
    obtain rfl : i = id := List.mem_singleton.mp hi
    exact .held sz (hh ▸ List.mem_cons_self)
  | _ => exact .same rfl

theorem Act.follows (h : Act (F, w) (F', w')) : Follows (F, w) (F', w') :=
  .of_holdsLive h.lastId_le h.keepsPlaces h.pending_sub h.holdsLive h.tells

theorem Move.holdsLive (h : Move (F, w) (F', w')) : HoldsLive (F, w) (F', w') := by
  have hsame : ∀ h ∈ F.hands, Live (F, w) h.1 := fun h hm => .held h.2 hm
  have hspend : ∀ {id sz sz' : Nat} {hands : List (Nat × Nat)}, F.hands = (id, sz) :: hands →
      ∀ h ∈ (id, sz') :: hands, Live (F, w) h.1 := by
    intro id sz sz' hands hh h hm
    rcases List.mem_cons.mp hm with rfl | hm
    · exact .held sz (hh ▸ List.mem_cons_self)
    · exact hsame h (hh ▸ List.mem_cons_of_mem _ hm)
  have hacting : ∀ a, F.acting = some a → Live (F, w) a.bndl.id := fun a ha => .acts a ha
  have htodo : ∀ d, F.detached = some d → ∀ e ∈ d.todo, Live (F, w) e.id :=
    fun d hd e he => .turns d e hd he
  cases h with
  | act h => exact h.holdsLive
  | fillAon bidSide plev id size cb b kept bs hands hh => exact .of_same (hspend hh) rfl rfl
  | fillLastAon bidSide plev id size cb b hands hh => exact .of_same (hspend hh) rfl rfl
  | fill h id size cb b todo hands hh hhit htodo' hl =>
    refine ⟨hspend hh, fun a ha => ?_, htodo⟩
    obtain rfl := Option.some.inj ha
    exact .of_limits (Chain.findLimit_mem hl).1
  | reduce | retire => exact ⟨hsame, fun a ha => (by cases ha), htodo⟩
  | detach buyStops plev =>
    refine ⟨hsame, hacting, fun d hd e he => ?_⟩
    obtain rfl := Option.some.inj hd
    exact .of_stops he
  | beginTrigger d e todo hdet htodo' =>
    refine ⟨hsame, fun a ha => ?_, htodo⟩
    obtain rfl := Option.some.inj ha
    exact .turns d e hdet (htodo' ▸ List.mem_cons_self)
  | turn d e todo order ids msg hdet htodo' =>
    refine ⟨hsame, hacting, fun d' hd e' he => ?_⟩
    obtain rfl := Option.some.inj hd
    exact .turns d e' hdet (htodo' ▸ List.mem_cons_of_mem _ he)
  | endTrigger d id hdet =>
    refine ⟨hsame, fun a ha => (by cases ha), fun d' hd e he => ?_⟩
    obtain rfl := Option.some.inj hd
    exact .turns d e hdet he
  | endDetached => exact ⟨hsame, hacting, fun d hd => by cases hd⟩
  | _ => exact .of_same hsame rfl rfl

theorem Move.tells (h : Move (F, w) (F', w')) : Tells (F, w) (F', w') := by
  have hfirst : ∀ {id sz : Nat} {hands : List (Nat × Nat)}, F.hands = (id, sz) :: hands →
      Live (F, w) id := fun hh => .held _ (hh ▸ List.mem_cons_self)
  cases h with
  | act h => exact h.tells
  | call ev hev =>
    refine .one rfl fun id hid => ?_
    cases ev <;> first | exact hev.elim | cases hid
  | fillAon bidSide plev id size cb b kept bs hands hh hl =>
    have hmem : b ∈ (w.aons bidSide plev).elems := by simp [hl]
    have hb : Live (F, w) b.id := .of_aons hmem
    refine ((Tells.same rfl).traded plev b.sz cb b.cb (hfirst hh) hb).cons rfl fun i hi => ?_
    obtain rfl : i = b.id := List.mem_singleton.mp hi
    exact hb
  | fillLastAon bidSide plev id size cb b hands hh hl =>
    have hmem : b ∈ (w.aons bidSide plev).elems := by simp [hl]
    have hb : Live (F, w) b.id := .of_aons hmem
    refine ((Tells.same rfl).traded plev b.sz cb b.cb (hfirst hh) hb).cons rfl fun i hi => ?_
    obtain rfl : i = b.id := List.mem_singleton.mp hi
    exact hb
  | fill h id size cb b todo hands hh hhit htodo hl =>
    exact (Tells.same rfl).traded _ _ _ _ (hfirst hh) (.of_limits (Chain.findLimit_mem hl).1)
  | retire h a x hgap hhit ha =>
    refine .one rfl fun i hi => ?_
    obtain rfl : i = a.bndl.id := List.mem_singleton.mp hi
    exact .acts a ha
  | moveStop buyStops p id c b nticks pAdj =>
    exact .one (trace_report _ _ _ _ _ _ _) fun id hid => by cases hid
  | turn d e todo order ids msg hdet htodo =>
    refine ⟨[_, _, _], trace_turned _ _ _ _ _, fun ev hev id hid => ?_⟩
    simp only [List.mem_cons, List.not_mem_nil, or_false] at hev
    rcases hev with rfl | rfl | rfl
    · cases hid
    · cases hid
    · obtain rfl : id = e.id := List.mem_singleton.mp hid
      exact .turns d e hdet (htodo ▸ List.mem_cons_self)
  | beginHit | moveHit | beginScan | turnScan => exact .one rfl fun id hid => by cases hid
  | _ => exact .same rfl

theorem Move.follows (h : Move (F, w) (F', w')) : Follows (F, w) (F', w') :=
  .of_holdsLive h.lastId_le h.keepsPlaces h.pending_sub h.holdsLive h.tells

theorem Moves.follows {c c' : Config} (h : Moves c c') : Follows c c' := by
  induction h with
  | refl => exact .refl c
  | tail _ h ih => exact ih.trans h.follows

theorem Step.follows (h : Step (F, w) (F', w')) : Follows (F, w) (F', w') := by
  have hsame : ∀ h ∈ F.hands, Live (F, w) h.1 := fun h hm => .held h.2 hm
  have hof : (∀ h ∈ F'.hands, Live (F, w) h.1) → F'.acting = F.acting → F'.detached = F.detached →
      Tells (F, w) (F', w') → Follows (F, w) (F', w') := fun hh ha hd ht =>
    .of_holdsLive h.lastId_le (h.keepsPlaces fun _ hid => hid) h.pending_sub (.of_same hh ha hd) ht
  have htail : ∀ {id sz : Nat} {hands : List (Nat × Nat)}, F.hands = (id, sz) :: hands →
      ∀ h ∈ hands, Live (F, w) h.1 :=
    fun hh h hm => hsame h (hh ▸ List.mem_cons_of_mem _ hm)
  have hfirst : ∀ {id : Nat} {ids : List Nat}, F.ids = id :: ids → Live (F, w) id :=
    fun hids => .of_ids (hids ▸ List.mem_cons_self)
  have hnew : ∀ {id : Nat} {ids : List Nat} (sz : Nat), F.ids = id :: ids →
      ∀ h ∈ [(id, sz)], Live (F, w) h.1 := by
    intro id ids sz hids h hm
    rw [List.mem_singleton.mp hm]
    exact hfirst hids
  cases h with
  | act h => exact h.follows
  | trade bidSide plev id size r cb hF hp hpe hrun hm => exact Moves.follows hm
  | accept e ids hids =>
    refine hof (hnew e.sz hids) rfl rfl (.one rfl fun i hi => ?_)
    obtain rfl : i = e.id := List.mem_singleton.mp hi
    exact hfirst hids
  | addLeg e op id ids hids => exact hof (hnew op.size hids) rfl rfl (.same rfl)
  | kill e cb id sz price hands he hcond hh =>
    exact hof (htail hh) rfl rfl (.one (trace_report _ _ _ _ _ _ _) fun id hid => by cases hid)
  | print p id1 id2 sz1 sz2 n cb1 cb2 hands hh =>
    have h1 : Live (F, w) id1 := hsame (id1, sz1) (hh ▸ List.mem_cons_self)
    have h2 : Live (F, w) id2 := htail hh (id2, sz2) List.mem_cons_self
    refine hof (fun h hm => ?_) rfl rfl ?_
    · rcases List.mem_cons.mp hm with rfl | hm
      · exact h1
      rcases List.mem_cons.mp hm with rfl | hm
      · exact h2
      · exact htail hh h (List.mem_cons_of_mem _ hm)
    · have hlog : Tells (F, w) (F, w.log (.preTradePrint w.toSob p)) := .one rfl fun id hid => by cases hid
      exact hlog.traded p n cb1 cb2 h1 h2
  | pushLimit buy p b hands ids hgap hh => exact hof (htail hh) rfl rfl (.same rfl)
  | pushAon buy p b hands ids hh => exact hof (htail hh) rfl rfl (.same rfl)
  | pushStop p b hands ids hh => exact hof (htail hh) rfl rfl (.same rfl)
  | trailingInsert => exact hof hsame rfl rfl (.one rfl fun id hid => by cases hid)
  | _ => exact hof hsame rfl rfl (.same rfl)

theorem Steps.follows {c c' : Config} (h : Steps c c') : Follows c c' := by
  induction h with
  | refl => exact .refl c
  | tail _ h ih => exact ih.trans h.follows

end Transitions

/-! ## Windows and runs -/

section Runs
variable {w₀ w w' : World} {rs rs' : List (Request × Outcome)} {r : Request} {o : Outcome}

/-- Between windows only the orders that rest are live. -/
theorem Live.opened {qe : Option OrderQueueElem} {id : Nat} (h : Live (.opened qe, w) id)
    (hq : w.internalOrderQueue = []) : w.InBook id := by
  cases h with
  | rests h => exact h
  | waits h =>
    unfold Sob.pending at h
    rw [hq] at h
    cases h
  | held sz h => cases h
  | acts a h => cases h
  | turns d e h => cases h

theorem Sob.InBook.of_shifted {s : Sob} {off id : Nat} (h : (s.shifted off).InBook id) :
    s.InBook id := by
  rcases h with ⟨p, hp⟩ | ⟨buys, p, hp⟩ | ⟨p, hp⟩
  · rw [limitIds_shifted] at hp
    split at hp
    · cases hp
    · exact .inl ⟨_, hp⟩
  · rw [aonIds_shifted] at hp
    split at hp
    · cases hp
    · exact .inr (.inl ⟨buys, _, hp⟩)
  · rw [stopIds_shifted] at hp
    split at hp
    · cases hp
    · exact .inr (.inr ⟨_, hp⟩)

theorem World.PlacesKept.inBook (h : w.PlacesKept w') {id : Nat}
    (hid : w'.InBook id ∨ w'.lastId < id) : w.InBook id ∨ w.lastId < id := by
  obtain ⟨hle, off, -, hkeeps⟩ := h
  rcases hid with hid | hlt
  · exact (hkeeps.inBook hid).imp_left .of_shifted
  · exact .inr (hle.trans_lt hlt)

/-- What a window does, it does to orders of the book and to new ones. -/
theorem Closes.events (h : Closes r w o w') (hq : w.internalOrderQueue = []) :
    ∃ evs, w'.trace = evs ++ w.trace ∧
      ∀ ev ∈ evs, ∀ id ∈ ev.subjects, w.InBook id ∨ w.lastId < id := by
  have hof : ∀ {qe : Option OrderQueueElem} {c : Config}, Follows (.opened qe, w) c →
      ∃ evs, c.2.trace = evs ++ w.trace ∧
        ∀ ev ∈ evs, ∀ id ∈ ev.subjects, w.InBook id ∨ w.lastId < id := by
    intro qe c hf
    obtain ⟨evs, htrace, hevs⟩ := hf.events
    refine ⟨evs, htrace, fun ev hev id hid => ?_⟩
    exact (hevs ev hev id hid).imp_left fun hlive => hlive.opened hq
  have hdropped : ∀ {u : World} (queue : List OrderQueueElem), (∃ evs, u.trace = evs ++ w.trace ∧
      ∀ ev ∈ evs, ∀ id ∈ ev.subjects, w.InBook id ∨ w.lastId < id) →
      ∃ evs, .dropped queue :: u.trace = evs ++ w.trace ∧
        ∀ ev ∈ evs, ∀ id ∈ ev.subjects, w.InBook id ∨ w.lastId < id := by
    intro u queue hu
    obtain ⟨evs, htrace, hevs⟩ := hu
    refine ⟨.dropped queue :: evs, congrArg (_ :: ·) htrace, fun ev hev id hid => ?_⟩
    rcases List.mem_cons.mp hev with rfl | hev
    · cases hid
    · exact hevs ev hev id hid
  cases h with
  | refused => exact ⟨[], rfl, fun _ h => by cases h⟩
  | rejected => exact hdropped _ ⟨[], rfl, fun _ h => by cases h⟩
  | grown => exact ⟨[], rfl, fun _ h => by cases h⟩
  | value hqe hs => exact hof (Steps.follows hs)
  | left hqe hs herr =>
    refine hdropped _ ?_
    cases hs with
    | undefined => exact absurd rfl herr
    | failed hs hm => exact hof ((Steps.follows hs).trans (Moves.follows hm))
    | refused hs => exact hof (Steps.follows hs)

/-- Over every run of requests that continues a run, whatever its windows end in and however the book
grows, an order that was once accepted and is in no chain any more comes into none again, and nothing
is done with it: it is not accepted again, it does not trade, and it is not filled, pulled or
triggered. -/
theorem Run.gone_for_good (h0 : Initial w₀) (h : Run w₀ rs w) (h' : Run w rs' w') {id : Nat}
    (hid : id ≤ w.lastId) (hgone : ¬ w.InBook id) :
    ¬ w'.InBook id ∧ ∃ evs, w'.trace = evs ++ w.trace ∧ ∀ ev ∈ evs, id ∉ ev.subjects := by
  have hold : ¬ (w.InBook id ∨ w.lastId < id) := by
    rintro (hin | hlt)
    · exact hgone hin
    · omega
  refine ⟨fun hin => hold ((h.placesKept h0 h').inBook (.inl hin)), ?_⟩
  induction h' with
  | nil => exact ⟨[], rfl, fun _ h => by cases h⟩
  | @snoc rs' v w' r o hr hw ih =>
    obtain ⟨hwf, hq⟩ := (h.trans hr).wellFormed h0
    obtain ⟨evs, htrace, hevs⟩ := ih
    obtain ⟨evs', htrace', hevs'⟩ := (hw.closes hwf hq).events hq
    refine ⟨evs' ++ evs, ?_, fun ev hev => ?_⟩
    · rw [htrace', htrace, List.append_assoc]
    · rcases List.mem_append.mp hev with hev | hev
      · exact fun hsub => hold ((h.placesKept h0 hr).inBook (hevs' ev hev id hsub))
      · exact hevs ev hev

theorem Sob.InBook.ordersAt {s : Sob} {id : Nat} (h : s.InBook id) :
    ∃ p, ∃ b ∈ s.ordersAt p, b.id = id := by
  rcases h with ⟨p, hp⟩ | ⟨buys, p, hp⟩ | ⟨p, hp⟩ <;> obtain ⟨b, hb, rfl⟩ := List.mem_map.mp hp <;>
    refine ⟨p, b.toOrderBndl, ?_, rfl⟩ <;> unfold Sob.ordersAt <;>
    simp only [List.map_append, List.mem_append]
  · exact .inl (List.mem_map_of_mem hb)
  · cases buys
    · exact .inr (.inr (.inr (List.mem_map_of_mem hb)))
    · exact .inr (.inr (.inl (List.mem_map_of_mem hb)))
  · exact .inr (.inl (List.mem_map_of_mem hb))

/-- What is not cached is in no chain. -/
theorem Filed.not_inBook (hi : Filed {} w) {id : Nat} (hc : w.idCache id = none) :
    ¬ w.InBook id := by
  intro hin
  obtain ⟨p, b, hb, rfl⟩ := hin.ordersAt
  obtain ⟨k, hres⟩ := mem_ordersAt.mp hb
  obtain ⟨c, hcached, -⟩ := hres.cached hi
  rw [hc] at hcached
  cases hcached

/-- The first order is filled. Then another one comes to its price, the first is pulled in vain, and an
order trades. -/
theorem gone_after_fill : ∃ rs w rs' w', Run (World.create 1 20) rs w ∧ Run w rs' w' ∧
    rs.map (·.1) = [.limit true 8 2, .limit false 9 3, .market false 2] ∧
    rs'.map (·.1) = [.limit true 8 5, .pullOrder 1 .synchronous, .market false 1] ∧
    ¬ w'.InBook 1 ∧ ∃ evs, w'.trace = evs ++ w.trace ∧ ∀ ev ∈ evs, 1 ∉ ev.subjects := by
  obtain ⟨rs, w, h, hrs, hw⟩ := Run.exists_of_execAll 0
    [.limit true 8 2, .limit false 9 3, .market false 2]
    (f := fun os w => (decide (∀ o ∈ os, o.Expected), w.trace.all fun ev => ! ev.isEmptyHit,
      w.idCache 1, w.lastId, (execAll 0 [.limit true 8 5, .pullOrder 1 .synchronous, .market false 1]
        w).isSome))
    (v := (true, true, none, 3, true)) (w := World.create 1 20) (by decide +kernel)
  obtain ⟨hall, hzero, hc, hlast, hexec⟩ : _ ∧ _ ∧ _ ∧ _ ∧ _ := by simpa only [Prod.mk.injEq] using hw
  obtain ⟨⟨rs', w'⟩, hexec⟩ := Option.isSome_iff_exists.mp hexec
  have h0 : Initial (World.create 1 20) := initial_create (by decide) (by decide)
  have htidy := h.tidy h0 (fun ro hro => of_decide_eq_true hall ro.2 (List.mem_map_of_mem hro))
    (World.noEmptyHit_of_all hzero)
  have h' : Run w rs' w' := .of_execAll hexec
  exact ⟨rs, w, rs', w', h, h', hrs, execAll_requests hexec,
    h.gone_for_good h0 h' (hlast ▸ by decide) (htidy.filed.not_inBook hc)⟩

end Runs
end SimpleOrderbook
