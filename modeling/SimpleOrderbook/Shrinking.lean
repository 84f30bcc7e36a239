import SimpleOrderbook.Handlers

/-!
# What a trade leaves of the limit chains

During a trade no order is added to a limit chain, so the market only widens; and the handlers of an
order do not change the size of that order.
-/
namespace SimpleOrderbook

/-! ## Handlers -/

theorem elems_updateAt (s : Sob) (c : ChainIterWrap) (id : Nat) (g : OrderBndl → OrderBndl)
    (p : Nat) : ((s.updateAt c id g).limits p).elems = if c.type = .limit ∧ p = c.p then
      Chain.updateLimit (fun b => { b with toOrderBndl := g b.toOrderBndl }) id (s.limits p).elems
      else (s.limits p).elems := by
  rw [Sob.limits_updateAt]
  split
  · cases s.limits p <;> rfl
  · rfl

/-- A handler keeps to the order it is run for. -/
theorem Act.acting {c c' : Config} (h : Act c c') {b : OrderBndl} {n : Nat} {told : Bool}
    (ha : c.1.acting = some ⟨b, n, told⟩) : ∃ told', c'.1.acting = some ⟨b, n, told'⟩ := by
  cases h with
  | tell link cw a hgap ha' =>
    obtain rfl : a = ⟨b, n, told⟩ := Option.some.inj (ha'.symm.trans ha)
    exact ⟨true, rfl⟩
  | _ => exact ⟨told, ha⟩

/-- Orders of `ids` may have changed their size. -/
def Resized (ids : List Nat) (l l' : List LimitBndl) : Prop :=
  List.Forall₂ (fun x x' => x' = { x with sz := x'.sz } ∧ (x.id ∉ ids → x' = x)) l l'

namespace Resized
variable {ids : List Nat} {l l' l'' : List LimitBndl}

theorem refl (ids : List Nat) (l : List LimitBndl) : Resized ids l l :=
  List.forall₂_same.mpr fun _ _ => ⟨rfl, fun _ => rfl⟩

theorem updateAt {s : Sob} {c : ChainIterWrap} {id : Nat} {g : OrderBndl → OrderBndl}
    (hid : id ∈ ids) (hg : ∀ b, g b = { b with sz := (g b).sz }) (p : Nat) :
    Resized ids (s.limits p).elems ((s.updateAt c id g).limits p).elems := by
  rw [elems_updateAt]
  split
  · generalize (s.limits p).elems = l
    induction l with
    | nil => exact .nil
    | cons x l ih =>
      unfold Chain.updateLimit
      split
      next hx => exact .cons ⟨by rw [hg], fun hn => absurd (hx ▸ hid) hn⟩ (refl ids l)
      next => exact .cons ⟨rfl, fun _ => rfl⟩ ih
  · exact refl ids _

theorem trans (h : Resized ids l l') (h' : Resized ids l' l'') : Resized ids l l'' := by
  induction h generalizing l'' with
  | nil => exact h'
  | cons hx _ ih =>
    cases h' with
    | cons hx' h' =>
      refine .cons ⟨?_, fun hn => ?_⟩ (ih h')
      · rw [hx'.1, hx.1]
      · have heq := hx.2 hn
        exact (hx'.2 (heq.symm ▸ hn)).trans heq

theorem mem (h : Resized ids l l') {x' : LimitBndl} (hx : x' ∈ l') :
    ∃ x ∈ l, x' = { x with sz := x'.sz } ∧ (x.id ∉ ids → x' = x) := by
  induction h with
  | nil => cases hx
  | cons hx' _ ih =>
    rcases List.mem_cons.mp hx with rfl | hx
    · exact ⟨_, List.mem_cons_self, hx'⟩
    · obtain ⟨x, hx, heq⟩ := ih hx
      exact ⟨x, List.mem_cons_of_mem _ hx, heq⟩

theorem map_eq {α : Type} (h : Resized ids l l') {f : LimitBndl → α}
    (hf : ∀ x n, f { x with sz := n } = f x) : l'.map f = l.map f := by
  induction h with
  | nil => rfl
  | cons hx _ ih => rw [List.map_cons, List.map_cons, ih, hx.1, hf]

end Resized

/-- Orders only leave the limit chains, or the ones the acting order refers to change their size. -/
theorem Act.elems {c c' : Config} (h : Act c c') :
    (∀ p, (c'.2.limits p).elems.Sublist (c.2.limits p).elems) ∨
      ∃ a, c.1.acting = some a ∧
        ∀ p, Resized a.bndl.payload.refs (c.2.limits p).elems (c'.2.limits p).elems := by
  have hview : ∀ {s s' : Sob}, s'.bookView = s.bookView →
      ∀ p, (s'.limits p).elems.Sublist (s.limits p).elems := fun h p => by
    rw [limits_of_bookView h]
  have hset : ∀ {s : Sob} {p : Nat} {l l' : List LimitBndl}, (s.limits p).elems = l →
      l'.Sublist l → ∀ q, ((s.setLimits p (ChainManager.ofList l')).limits q).elems.Sublist
        (s.limits q).elems := fun {s p l l'} hl hsub q => by
    by_cases hq : q = p
    · subst hq; simpa [hl] using hsub
    · simp [hq]
  cases h with
  | report => exact .inl (hview (bookView_report _ _ _ _ _ _ _))
  | popLimit => exact .inl (hset rfl (Chain.eraseLimit_sublist _ _))
  | @moveFront F w p b bs cw hgap hl =>
    have hl' : ((w.copiedToAons (decide (p < w.ask)) p b cw).limits p).elems = b :: bs := by
      rw [limits_of_bookView (bookView_copiedToAons _ _ _ _ _), hl]; rfl
    refine .inl fun q => (hset hl' (List.sublist_cons_self b bs) q).trans ?_
    rw [limits_of_bookView (bookView_copiedToAons _ _ _ _ _)]
  | @settle F w p =>
    obtain ⟨_, _, _, _, heq⟩ := Exec.Limit.adjustStateAfterPull_eq (decide (p ≤ w.bid)) w.toSob p
    refine .inl fun q => ?_
    simp only [World.onSob, heq]
    exact .refl _
  | popAon => exact .inl (hview (bookView_erasedAon _ _ _ _))
  | popStop => exact .inl (hview (bookView_erasedStop _ _ _))
  | trailingErase => exact .inl (hview (bookView_trailing _ _ _).1)
  | grow params id cw a hgap ha hpay hid =>
    exact .inr ⟨a, ha, .updateAt (by simp [hpay, Payload.refs, hid]) fun _ => rfl⟩
  | @growBoth F w first second id1 id2 c1 c2 a msg cb id price sz hgap ha hpay hid =>
    refine .inr ⟨a, ha, fun p => ?_⟩
    refine .trans (Resized.updateAt (c := c1) (g := incrSize a.amount)
      (show id1 ∈ _ by simp [hpay, Payload.refs, hid]) (fun _ => rfl) p) ?_
    refine .trans ?_ (Resized.updateAt (show id2 ∈ _ by simp [hpay, Payload.refs, hid]) (fun _ => rfl) p)
    rw [limits_of_bookView (bookView_report _ _ _ _ _ _ _)]
    exact .refl _ _
  | tell link cw a hgap ha hl =>
    exact .inr ⟨a, ha, .updateAt (by simp [hl, Payload.refs]) fun _ => rfl⟩
  | _ => exact .inl fun p => .refl _

/-! ### Stop chains -/

theorem stops_updateAt (s : Sob) (c : ChainIterWrap) (id : Nat) (g : OrderBndl → OrderBndl)
    (q : Nat) : (s.updateAt c id g).stops q = if c.type = .stop ∧ q = c.p then
      (s.stops q).map (Chain.updateStop (fun b => { b with toOrderBndl := g b.toOrderBndl }) id)
    else s.stops q := by
  unfold Sob.updateAt
  rcases c with ⟨ty, cp⟩
  cases ty <;> simp
  by_cases h : q = cp <;> simp [h]

theorem stops_erasedStop {s : Sob} {p : Nat} {b : StopBndl} {q : Nat} :
    (s.erasedStop p b).stops q = if q = p then
      ChainManager.ofList (Chain.eraseStop (s.stops p).elems b.id) else s.stops q := by
  unfold Sob.erasedStop
  dsimp only
  split
  · rw [stops_of_files (Exec.Stop.files_adjustStateAfterPull _ _ _)]
    exact Sob.stops_setStops ..
  · exact Sob.stops_setStops ..

theorem stops_updateAt_ne_none {s : Sob} {c : ChainIterWrap} {id : Nat}
    {g : OrderBndl → OrderBndl} {p : Nat} (h : (s.updateAt c id g).stops p ≠ none) :
    s.stops p ≠ none := by
  intro hn
  rw [stops_updateAt, hn, Option.map_none, ite_self] at h
  exact h rfl

theorem stops_erasedStop_ne_none {s : Sob} {c : ChainIterWrap} {id : Nat} {b : StopBndl} {p : Nat}
    (hb : Chain.findStop (s.stops c.p).elems id = some b)
    (h : (s.erasedStop c.p b).stops p ≠ none) : s.stops p ≠ none := by
  rw [stops_erasedStop] at h
  split at h
  next heq => exact fun hn => by simp [← heq, hn, Chain.findStop] at hb
  next => exact h

/-- Pulls and handlers bring no stop into an empty chain. -/
theorem Act.stops {c c' : Config} (h : Act c c') {p : Nat} (hp : c'.2.stops p ≠ none) :
    c.2.stops p ≠ none := by
  cases h with
  | report => rwa [stops_of_files (files_report _ _ _ _ _ _ _)] at hp
  | popLimit => simpa [Sob.erasedLimit] using hp
  | @moveFront F w q b bs cw =>
    rw [World.toSob_onSob, Sob.stops_setLimits, World.toSob_onSob, World.toSob_log] at hp
    unfold Sob.copiedToAons at hp
    rw [stops_of_files (Exec.Aon.files_adjustStateAfterInsert _ _ _), Sob.stops_cacheInsert,
      Sob.stops_setAons] at hp
    exact hp
  | settle =>
    rwa [World.toSob_onSob, stops_of_files (Exec.Limit.files_adjustStateAfterPull _ _ _)] at hp
  | @popAon F w id cw isBuy b =>
    rw [World.toSob_onSob] at hp
    unfold Sob.erasedAon at hp
    dsimp only at hp
    split at hp
    · rw [stops_of_files (Exec.Aon.files_adjustStateAfterPull _ _ _)] at hp
      simpa using hp
    · simpa using hp
  | popStop id cw b hc hb => exact stops_erasedStop_ne_none hb hp
  | trailingErase => rwa [World.toSob_onSob, stops_of_files (files_trailingErased _ _ _)] at hp
  | grow => exact stops_updateAt_ne_none hp
  | growBoth =>
    have h2 := stops_updateAt_ne_none hp
    rw [stops_of_files (files_report _ _ _ _ _ _ _)] at h2
    exact stops_updateAt_ne_none h2
  | tell => exact stops_updateAt_ne_none hp
  | _ => exact hp

theorem Acts.stops {c c' : Config} (h : Acts c c') {p : Nat} (hp : c.2.stops p = none) :
    c'.2.stops p = none := by
  induction h with
  | refl => exact hp
  | tail _ h ih =>
    by_contra hne
    exact h.stops hne ih

/-! ### Sizes -/

/-- The size of the acting order does not change while its handlers run. -/
theorem Acts.sz_eq {c c' : Config} (h : Acts c c') {b : OrderBndl} {n : Nat} {told : Bool}
    (ha : c.1.acting = some ⟨b, n, told⟩) (hself : b.id ∉ b.payload.refs) {p sz : Nat}
    (hsz : ∀ x ∈ (c.2.limits p).elems, x.id = b.id → x.sz = sz) :
    ∀ x ∈ (c'.2.limits p).elems, x.id = b.id → x.sz = sz := by
  suffices (∃ told', c'.1.acting = some ⟨b, n, told'⟩) ∧
      ∀ x ∈ (c'.2.limits p).elems, x.id = b.id → x.sz = sz from this.2
  induction h with
  | refl => exact ⟨⟨told, ha⟩, hsz⟩
  | tail _ h ih =>
    obtain ⟨⟨told', ha'⟩, hsz'⟩ := ih
    refine ⟨h.acting ha', fun x hx hid => ?_⟩
    rcases h.elems with hsub | ⟨a, ha'', hres⟩
    · exact hsz' x ((hsub p).subset hx) hid
    · obtain ⟨y, hy, heq, hsame⟩ := (hres p).mem hx
      have hyid : y.id = b.id := by rw [← hid, heq]
      obtain rfl : a = ⟨b, n, told'⟩ := Option.some.inj (ha''.symm.trans ha')
      rw [hsame (hyid ▸ hself)]
      exact hsz' y hy hyid

/-! ## Trades -/

/-- What stays of an order while others trade. -/
def LimitBndl.key (b : LimitBndl) : Nat × Bool := (b.id, b.side)

def Sob.limitKeys (s : Sob) (p : Nat) : List (Nat × Bool) := (s.limits p).elems.map LimitBndl.key

/-- The prices of a book: its base and the number of its levels. -/
def Sob.grid (s : Sob) : Int × Nat := (s.base, s.end_)

theorem grid_of_bookView {s s' : Sob} (h : s'.bookView = s.bookView) : s'.grid = s.grid :=
  Prod.ext (congrArg (·.2.2.2) h) (congrArg LimitView.end_ (congrArg (·.1) h))

/-- From `s` to `s'` no order was added to a limit chain. -/
structure Shrinks (s s' : Sob) : Prop where
  sublist : ∀ p, (s'.limitKeys p).Sublist (s.limitKeys p)
  grid_eq : s'.grid = s.grid

namespace Shrinks
variable {s s' s'' : Sob}

theorem refl (s : Sob) : Shrinks s s := ⟨fun _ => .refl _, rfl⟩

theorem trans (h : Shrinks s s') (h' : Shrinks s' s'') : Shrinks s s'' :=
  ⟨fun p => (h'.sublist p).trans (h.sublist p), h'.grid_eq.trans h.grid_eq⟩

theorem of_bookView (h : s'.bookView = s.bookView) : Shrinks s s' :=
  ⟨fun p => by unfold Sob.limitKeys; rw [limits_of_bookView h],
    grid_of_bookView h⟩

theorem of_elems (h : ∀ p, (s'.limits p).elems.Sublist (s.limits p).elems)
    (he : s'.grid = s.grid) : Shrinks s s' :=
  ⟨fun p => (h p).map _, he⟩

theorem end_eq (h : Shrinks s s') : s'.end_ = s.end_ := congrArg Prod.snd h.grid_eq

/-- Rewriting an order of a level. -/
theorem updateLimit (s : Sob) (plev id : Nat) {f : LimitBndl → LimitBndl}
    (hkey : ∀ x, (f x).key = x.key) : Shrinks s (s.updateLimit plev id f) := by
  refine ⟨fun p => ?_, rfl⟩
  unfold Sob.limitKeys
  rw [Sob.elems_updateLimit]
  split
  · rw [Chain.map_updateLimit hkey]
  · exact .refl _

theorem limitIds (h : Shrinks s s') (p : Nat) : (s'.limitIds p).Sublist (s.limitIds p) := by
  have := (h.sublist p).map Prod.fst
  unfold Sob.limitKeys at this
  rwa [List.map_map, List.map_map] at this

/-- The orders left at a level are on the side they were on. -/
theorem exists_mem (h : Shrinks s s') {p : Nat} {b : LimitBndl} (hb : b ∈ (s'.limits p).elems) :
    ∃ b' ∈ (s.limits p).elems, b'.side = b.side := by
  obtain ⟨b', hb', heq⟩ := List.mem_map.mp ((h.sublist p).subset (List.mem_map_of_mem hb))
  exact ⟨b', hb', congrArg Prod.snd heq⟩

/-- Without new orders the market only widens. -/
theorem bid_le_ask_le (h : Shrinks s s') (hs : LimitInv s.limitView)
    (hs' : LimitInv s'.limitView) : s'.bid ≤ s.bid ∧ s.ask ≤ s'.ask := by
  have hpick : ∀ p, s'.limits p ≠ none → ∃ b, b ∈ (s'.limits p).elems := fun p hp => by
    obtain ⟨l, hl⟩ := Option.ne_none_iff_exists'.mp hp
    cases l with
    | nil => exact absurd hl (hs'.nonempty p)
    | cons b bs => exact ⟨b, by simp [hl]⟩
  have hlt : s'.bid < s'.ask := hs'.bid_lt_ask
  constructor
  · by_contra hgt
    obtain ⟨b, hb⟩ := hpick s'.bid (hs'.bestBid.1 (show 0 < s'.bid by omega))
    have hside := hs'.toOrdered.side_of_le le_rfl b hb
    obtain ⟨b', hb', heq⟩ := h.exists_mem hb
    have := hs.side s'.bid b' hb'
    rw [heq, hside] at this
    exact hgt this
  · by_contra hgt
    have hend : s.ask ≤ s.end_ := hs.ask_le_end
    obtain ⟨b, hb⟩ := hpick s'.ask (hs'.bestAsk.1 (show s'.ask < s'.end_ by rw [h.end_eq]; omega))
    have hside := hs'.side s'.ask b hb
    obtain ⟨b', hb', heq⟩ := h.exists_mem hb
    have := hs.side s'.ask b' hb'
    rw [heq] at this
    cases hbs : b.side with
    | true =>
      rw [hbs] at hside
      exact absurd (show s'.ask ≤ s'.bid from hside) (by omega)
    | false =>
      rw [hbs] at this
      exact hgt (show s.ask ≤ s'.ask from this)

end Shrinks

theorem grid_updateAt (s : Sob) (c : ChainIterWrap) (id : Nat) (g : OrderBndl → OrderBndl) :
    (s.updateAt c id g).grid = s.grid := by
  unfold Sob.updateAt; split <;> rfl

/-- The prices only change when the book grows. -/
theorem Act.grid_eq {c c' : Config} (h : Act c c') : c'.2.grid = c.2.grid := by
  cases h with
  | report => exact grid_of_bookView (bookView_report _ _ _ _ _ _ _)
  | @moveFront F w p b bs cw =>
    exact (grid_of_bookView (bookView_copiedToAons w.toSob (decide (p < w.ask)) p b cw) :)
  | @settle F w p =>
    obtain ⟨_, _, _, _, heq⟩ := Exec.Limit.adjustStateAfterPull_eq (decide (p ≤ w.bid)) w.toSob p
    simp only [World.onSob, heq]
    rfl
  | popAon => exact grid_of_bookView (bookView_erasedAon _ _ _ _)
  | popStop => exact grid_of_bookView (bookView_erasedStop _ _ _)
  | trailingErase => exact grid_of_bookView (bookView_trailing _ _ _).1
  | grow => exact grid_updateAt _ _ _ _
  | @growBoth F w first second id1 id2 c1 c2 a msg cb id price sz =>
    have hreport := grid_of_bookView (bookView_report (w.onSob (·.updateAt c1 id1
      (incrSize a.amount))) msg cb id id price sz)
    exact (grid_updateAt _ _ _ _).trans (hreport.trans (grid_updateAt _ _ _ _))
  | tell => exact grid_updateAt _ _ _ _
  | _ => rfl

theorem Act.shrinks {c c' : Config} (h : Act c c') : Shrinks c.2.toSob c'.2.toSob := by
  rcases h.elems with hsub | ⟨a, -, hres⟩
  · exact .of_elems hsub h.grid_eq
  · refine ⟨fun p => ?_, h.grid_eq⟩
    unfold Sob.limitKeys
    rw [(hres p).map_eq fun _ _ => rfl]

theorem Shrinks.freeLimits (s : Sob) (bidSide : Bool) (p : Nat) :
    Shrinks s (Exec.Core.findNewBestInside bidSide (s.setLimits p none)) := by
  obtain ⟨_, _, _, _, heq⟩ := Exec.Core.findNewBestInside_eq bidSide (s.setLimits p none)
  refine .of_elems (fun q => ?_) (by rw [heq]; rfl)
  have hq : (Exec.Core.findNewBestInside bidSide (s.setLimits p none)).limits q =
      (s.setLimits p none).limits q := by rw [heq]; rfl
  rw [hq, Sob.limits_setLimits]
  split
  · exact List.nil_sublist _
  · exact .refl _

theorem Move.shrinks {c c' : Config} (h : Move c c') : Shrinks c.2.toSob c'.2.toSob := by
  cases h with
  | act h => exact h.shrinks
  | fillAon bidSide plev id size cb b kept bs =>
    refine .of_bookView ((bookView_setAons _ _ _ _).trans ?_)
    exact bookView_traded _ plev b.sz id b.id cb b.cb
  | fillLastAon bidSide plev id size cb b =>
    refine .of_bookView ((bookView_aonAdjust _ _ _).1.trans ((bookView_setAons _ _ _ _).trans ?_))
    exact bookView_traded _ plev b.sz id b.id cb b.cb
  | freeAon => exact .of_bookView ((bookView_aonAdjust _ _ _).1.trans (bookView_setAons _ _ _ _))
  | moveHit =>
    exact (Shrinks.of_bookView (bookView_copiedToAons _ _ _ _ _)).trans
      (.updateLimit _ _ _ fun _ => rfl)
  | fill => exact .of_bookView (bookView_traded _ _ _ _ _ _ _)
  | rearm => exact .updateLimit _ _ _ fun _ => rfl
  | reduce => exact .updateLimit _ _ _ fun _ => rfl
  | @retire F w h a =>
    exact (Shrinks.updateLimit w.toSob h.plev a.bndl.id (f := fun x =>
      { x with sz := x.sz - a.amount }) fun _ => rfl).trans (.of_elems (fun _ => .refl _) rfl)
  | endScan => exact .of_elems (fun _ => .refl _) rfl
  | endTrigger => exact .of_elems (fun _ => .refl _) rfl
  | turn =>
    exact .of_elems (fun p => by rw [limits_of_files (files_turned _ _ _ _ _)])
      (by obtain ⟨_, _, h⟩ := World.turned_eq _ _ _ _ _; rw [h]; rfl)
  | @eraseHit F w h pos l hgap hact hhit hpos hl =>
    refine .of_elems (fun q => ?_) rfl
    by_cases hq : q = h.plev
    · subst hq; simpa [World.onSob, hl] using (eraseVisited_suffix pos l).sublist
    · simp [World.onSob, hq]
  | freeHit bidSide h => exact .freeLimits _ bidSide h.plev
  | wipeHit bidSide h => exact .freeLimits _ bidSide h.plev
  | moveStop => exact .of_bookView (bookView_movedStop _ _ _ _)
  | detach => exact .of_bookView ((bookView_stopAdjust _ _ _).2.2.trans (bookView_setStops _ _ _))
  | eraseTriggered => exact .of_bookView (bookView_trailing _ _ _).1
  | _ => exact .refl _

theorem Moves.shrinks {c c' : Config} (h : Moves c c') : Shrinks c.2.toSob c'.2.toSob := by
  induction h with
  | refl => exact .refl _
  | tail _ h ih => exact ih.trans h.shrinks

end SimpleOrderbook
