import SimpleOrderbook.Shrinking

/-!
# Trades as transitions

`_trade` and what it calls is a sequence of `Move`s. What it could not fill has nothing left to
trade with: no limit chain of the other side is left through its level.
-/
namespace SimpleOrderbook

open Hoare

/-- A hit goes on to the next order. -/
def Hit.visit (h : Hit) (i : Nat) (todo : List Nat) : Hit :=
  { h with done := h.done ++ [i], todo := todo }

/-- Order `i` of its chain leaves the cache. -/
def Hit.spend (h : Hit) (i : Nat) : Hit := { h with spent := i :: h.spent }

/-- It hits a limit chain. -/
def Flight.hits (F : Flight) (h : Hit) (id size : Nat) : Flight :=
  { F.hold id size with hit := some h }

/-! ## What is left of an order -/

/-- The program returns at most `n`. -/
def Returns (m : M Nat) (n : Nat) : Prop := ∀ w, wp m (fun r _ => r ≤ n) (fun _ _ => True) w

section Returns
variable {bidSide : Bool} {plev id : Nat} {cb : OrderExecCbBndl}

theorem returns_hitAonChain (kept l : List AonBndl) (size : Nat) (w : World) :
    wp (hitAonChain bidSide plev id cb kept l size) (fun r _ => r.1 ≤ size) (fun _ _ => True) w := by
  induction l generalizing kept size w with
  | nil => exact wp_pure le_rfl
  | cons b bs ih =>
    unfold hitAonChain
    refine wp_ite (fun _ => wp_pure le_rfl) fun _ => wp_ite (fun _ => ?_) fun _ => ih _ _ _
    exact wp_bind_of (fun _ _ => wp_record_bind (wp_modifySob_bind ((ih _ _ _).post fun _ _ h =>
      h.trans (Nat.sub_le _ _)))) fun _ _ => trivial

theorem returns_hitOrder (b : LimitBndl) (size : Nat) : Returns (hitOrder plev id cb b size) size := by
  intro w
  unfold hitOrder
  refine wp_ite (fun _ => wp_bind_of (fun _ _ => wp_modifySob_bind (wp_pure le_rfl)) fun _ _ => trivial)
    fun _ => wp_bind_of (fun _ _ => wp_bind_of (fun _ _ => wp_modifySob_bind (wp_getSob_bind ?_))
      fun _ _ => trivial) fun _ _ => trivial
  split
  · exact wp_throw trivial
  · exact wp_ite (fun _ => wp_record_bind (wp_modifySob_bind (wp_pure (Nat.sub_le _ _))))
      fun _ => wp_pure (Nat.sub_le _ _)

theorem returns_hitOrders (ids : List Nat) (pos : Option Nat) (size : Nat) (w : World) :
    wp (hitOrders plev id cb ids pos size) (fun r _ => r.1 ≤ size) (fun _ _ => True) w := by
  induction ids generalizing pos size w with
  | nil => exact wp_pure le_rfl
  | cons i ids ih =>
    unfold hitOrders
    refine wp_ite (fun _ => wp_pure le_rfl) fun _ => wp_getSob_bind ?_
    split
    · exact ih _ _ _
    · exact (returns_hitOrder _ _ w).bind fun r _ hr => (ih _ _ _).post fun _ _ h => h.trans hr

theorem returns_hitChain (size : Nat) (w : World) :
    wp (hitChain plev id size cb) (fun r _ => r.1 ≤ size) (fun _ _ => True) w := by
  unfold hitChain
  refine wp_getSob_bind (wp_record_bind ((returns_hitOrders _ _ _ _).bind ?_))
  rintro ⟨r, pos⟩ w' hr
  refine wp_getSob_bind ?_
  split
  · exact wp_getSob_bind (wp_record_bind (wp_modifySob_bind (wp_pure hr)))
  · exact wp.bind (wp_get (Q := fun _ _ => True) trivial) fun _ _ _ => wp_ite
      (fun _ => wp_modifySob_bind (wp_pure hr)) fun _ => wp_pure hr
  · exact wp_throw trivial

theorem returns_tradeLimits (p size : Nat) : Returns (tradeLimits bidSide p id cb size) size := by
  intro w
  unfold tradeLimits
  refine wp_getSob_bind (wp_ite (fun _ => ?_) fun _ => wp_pure le_rfl)
  split
  · exact wp_pure le_rfl
  · refine (returns_hitChain size w).bind ?_
    rintro ⟨r, all⟩ w' hr
    exact wp_ite (fun _ => wp_modifySob_bind (wp_pure hr)) fun _ => wp_pure hr

theorem returns_tradeAons (p size : Nat) : Returns (tradeAons bidSide p id cb size) size := by
  intro w
  unfold tradeAons
  refine wp_getSob_bind (wp_ite (fun _ => ?_) fun _ => wp_pure le_rfl)
  split
  · exact wp_pure le_rfl
  · refine wp_record_bind ((returns_hitAonChain [] _ size _).bind ?_)
    rintro ⟨r, all⟩ w' hr
    exact wp_ite (fun _ => wp_modifySob_bind (wp_pure hr)) fun _ => wp_pure hr

theorem returns_sweep (endp n p size high low : Nat) (w : World) :
    wp (sweep bidSide plev endp id cb n p size high low) (fun r _ => r.1 ≤ size)
      (fun _ _ => True) w := by
  induction n generalizing p size high low w with
  | zero => exact wp_pure le_rfl
  | succ n ih =>
    unfold sweep
    refine wp_ite (fun _ => ?_) fun _ => wp_pure le_rfl
    exact (returns_tradeAons p size w).bind fun r1 w1 h1 => (returns_tradeLimits p r1 w1).bind
      fun r2 w2 h2 => wp_getSob_bind ((ih _ _ _ _ _).post fun _ _ h => (h.trans h2).trans h1)

theorem returns_trade (size : Nat) : Returns (trade bidSide plev id size cb) size := by
  intro w
  unfold trade
  refine wp_getSob_bind (wp_record_bind ((returns_sweep _ _ _ _ _ _ _).bind ?_))
  rintro ⟨r, high, low⟩ w' hr
  exact wp_bind_of (fun _ _ => wp_bind_of (fun _ _ => wp_pure hr) fun _ _ => trivial)
    fun _ _ => trivial

end Returns

section Moves
variable {c₀ : Config} {F : Flight} {w : World}

theorem Fails.of_moves (h : Moves c₀ (F, w)) (hgap : F.gap = none) {err : Err}
    (he : err.expected = false) : Fails Move c₀ err w :=
  .inr ⟨he, F, h, hgap⟩

theorem Fails.after {c : Config} {err : Err} (he : Fails Act c err w) (h : Moves c₀ c) :
    Fails Move c₀ err w :=
  he.imp_right fun ⟨hx, F, h', hgap⟩ => ⟨hx, F, h.acts h', hgap⟩

/-- Acts within a trade. -/
theorem Moves.lift {α : Type} {m : M α} {Q : α → World → Prop} (h : Moves c₀ (F, w))
    (hm : wp m Q (Fails Act (F, w)) w) : wp m Q (Fails Move c₀) w :=
  hm.mono (fun _ _ hq => hq) fun _ _ he => he.after h

/-! ## Fills -/

theorem wp_tradeHasOccured {Q : Unit → World → Prop} {E : Err → World → Prop}
    {plev size idbuy idsell : Nat} {cbbuy cbsell : OrderExecCbBndl}
    (h : Q () (w.traded plev size idbuy idsell cbbuy cbsell)) :
    wp (tradeHasOccured plev size idbuy idsell cbbuy cbsell) Q E w :=
  wp_getSob_bind (wp_pushExecCallback_bind (wp_pushExecCallback_bind (wp_record_bind
    (wp_modifySob h))))

theorem wp_tradeHasOccured_bind {α : Type} {Q : α → World → Prop} {E : Err → World → Prop}
    {plev size idbuy idsell : Nat} {cbbuy cbsell : OrderExecCbBndl} {f : Unit → M α}
    (h : wp (f ()) Q E (w.traded plev size idbuy idsell cbbuy cbsell)) :
    wp (tradeHasOccured plev size idbuy idsell cbbuy cbsell >>= f) Q E w :=
  (wp_tradeHasOccured (Q := fun _ w' => w' = w.traded plev size idbuy idsell cbbuy cbsell)
    rfl).bind fun _ _ hw => hw ▸ h

/-- The conditions of a resting order that just traded. -/
theorem Moves.handleFill {h : Hit} {b : LimitBndl} {amount : Nat}
    (hm : Moves c₀ (F.runs b.toOrderBndl amount false, w)) (hgap : F.gap = none)
    (hhit : F.hit = some h) (hself : b.id ∉ b.payload.refs)
    (hsz : ∀ x ∈ (w.limits h.plev).elems, x.id = b.id → x.sz = b.sz) :
    wp (handleFill h.plev b amount) (fun _ w' =>
      (∃ told, Moves c₀ (F.runs b.toOrderBndl amount told, w')) ∧
        ∀ x ∈ (w'.limits h.plev).elems, x.id = b.id → x.sz = b.sz) (Fails Move c₀) w := by
  unfold SimpleOrderbook.handleFill
  refine wp_ite (fun _ => ?_) fun _ => wp_pure ⟨⟨_, hm⟩, hsz⟩
  have hacts := Acts.handleAdvancedOrder (.refl (a := (F.runs b.toOrderBndl amount false, w)))
    hgap b.id
  refine (hm.lift hacts).bind fun b' w1 ⟨⟨told, h1⟩, hset⟩ => wp_modifySob ?_
  refine ⟨⟨told, (hm.acts h1).move (.rearm h ⟨b.toOrderBndl, amount, told⟩ b' hgap hhit rfl hset)⟩,
    fun x hx hid => ?_⟩
  have hsz1 := h1.sz_eq rfl hself hsz
  simp only [World.onSob, Sob.elems_updateLimit, if_true] at hx
  rcases Chain.mem_updateLimit hx with hx | ⟨x', hx', hid', rfl⟩
  · exact hsz1 x hx hid
  · exact hsz1 x' hx' hid'

/-- Order `i` was visited in hit `h`, with `size` left of the incoming order: nothing is left of
order `i`, or nothing of the incoming one. -/
def Hit.Visited (h : Hit) (i size : Nat) (s : Sob) : Prop :=
  ∃ x ∈ (s.limits h.plev).elems, x.id = i ∧
    (x.sz = 0 ∧ i ∈ h.spent ∨ x.sz ≠ 0 ∧ i ∉ h.spent ∧ size = 0)

/-- One order of the loop of `_hit_chain`. If the incoming order has something left, then nothing
is left of this one. -/
theorem Moves.hitOrder (h0 : Ambient c₀.1 c₀.2) {h : Hit} {id size : Nat} {todo : List Nat}
    {b : LimitBndl} (cb : OrderExecCbBndl) (hm : Moves c₀ (F.hits h id size, w))
    (hcalm : F.Calm) (htodo : h.todo = b.id :: todo) (hnew : b.id ∉ h.spent)
    (hsize : size ≠ 0) (hl : Chain.findLimit (w.limits h.plev).elems b.id = some b) :
    wp (hitOrder h.plev id cb b size) (fun size' w' => ∃ h' : Hit,
      (h' = h.visit b.id todo ∨ h' = (h.visit b.id todo).spend b.id) ∧
        Moves c₀ (F.hits h' id size', w') ∧ h'.Visited b.id size' w'.toSob)
      (Fails Move c₀) w := by
  have hamb := hm.ambient h0
  have hmem := (Chain.findLimit_mem hl).1
  unfold SimpleOrderbook.hitOrder
  refine wp_ite (fun hbig => ?_) fun hfit => ?_
  · refine ((wp_copyBndlToAonChain w h.plev b).mono (fun _ _ hq => hq) ?_).bind ?_
    · rintro _ _ ⟨rfl, -, rfl⟩
      exact .of_moves (hm.move (.call (.copyBndlToAonChain ..) rfl fun _ _ _ h => by cases h)) hcalm.gap rfl
    · rintro _ _ ⟨c, hc, rfl⟩
      refine wp_modifySob_bind (wp_pure ⟨(h.visit b.id todo).spend b.id, .inr rfl, ?_, ?_⟩)
      · exact hm.move (.moveHit h id size b c todo F.hands hcalm.gap hcalm.acting rfl rfl htodo hl
          hsize hbig.1 hbig.2 hnew hc)
      · have hids := hamb.nodup h.plev
        refine ⟨{ b with sz := 0 }, ?_, rfl, .inl ⟨rfl, List.mem_cons_self⟩⟩
        simp only [World.onSob, Sob.elems_updateLimit, Hit.spend, Hit.visit, if_true]
        rw [limits_of_bookView (bookView_copiedToAons _ _ _ _ _), World.toSob_log,
          Chain.updateLimit_eq_map hids]
        exact List.mem_map.mpr ⟨b, hmem, if_pos rfl⟩
  · have hfill := hm.move (.fill h id size cb b todo F.hands rfl rfl htodo hl hsize hfit
      hcalm.acting hcalm.scan)
    have hsz : ∀ x ∈ (w.limits h.plev).elems, x.id = b.id → x.sz = b.sz := fun x hx hid => by
      rw [List.inj_on_of_nodup_map (hamb.nodup h.plev) hx hmem hid]
    refine wp_tradeHasOccured_bind ?_
    let F' := F.hits (h.visit b.id todo) id (size - min size b.sz)
    refine (Moves.handleFill (F := F') (h := h.visit b.id todo) hfill hcalm.gap rfl
      (hamb.noSelf _ b hmem) ?_).bind ?_
    · rw [limits_of_bookView (bookView_traded _ _ _ _ _ _ _)]
      exact hsz
    rintro _ w2 ⟨⟨told, h2⟩, hsz2⟩
    refine wp_modifySob_bind (wp_getSob_bind ?_)
    have hF : { F'.runs b.toOrderBndl (min size b.sz) told with acting := none } = F' :=
      F'.acting_none hcalm.acting
    have hids := (h2.ambient h0).nodup h.plev
    have hleft : ∀ x ∈ ((w2.reduced h.plev b.id (min size b.sz)).limits h.plev).elems,
        x.id = b.id → x.sz = b.sz - min size b.sz := by
      intro x hx hid
      simp only [Sob.reduced, Sob.elems_updateLimit, if_true] at hx
      obtain ⟨x', hx', hid', rfl⟩ := Chain.mem_updateLimit_self hids hx hid
      have := hsz2 x' hx' hid'
      dsimp only
      omega
    split
    next => exact wp_throw (.inl rfl)
    next x hx =>
      obtain ⟨hxm, hxid⟩ := Chain.findLimit_mem hx
      have hxsz := hleft x hxm hxid
      refine wp_ite (fun hz => wp_record_bind (wp_modifySob_bind (wp_pure ?_)))
        fun hz => wp_pure ?_
      · refine ⟨(h.visit b.id todo).spend b.id, .inr rfl, ?_,
          x, hxm, hxid, .inl ⟨hz, List.mem_cons_self⟩⟩
        exact (h2.move (.retire (h.visit b.id todo) ⟨b.toOrderBndl, min size b.sz, told⟩ x
          hcalm.gap rfl rfl hx hz hnew)).congr
          (congrArg (fun G : Flight => { G with hit := some ((h.visit b.id todo).spend b.id) }) hF)
      · have hAON : b.isAON = false := by
          by_contra hb
          exact hfit ⟨by simpa using hb, by omega⟩
        refine ⟨h.visit b.id todo, .inl rfl, ?_, x, hxm, hxid, .inr ⟨hz, hnew, by omega⟩⟩
        exact (h2.move (.reduce (h.visit b.id todo) ⟨b.toOrderBndl, min size b.sz, told⟩ x
          hcalm.gap rfl rfl hx hz hAON)).congr hF

/-- Where the loop of `_hit_chain` stands: it started with `size₀`, and with some of it left nothing
is left of the orders visited. -/
structure Visited (h : Hit) (size₀ size : Nat) (s : Sob) (pos : Option Nat) : Prop where
  sublist : (s.limitIds h.plev).Sublist (h.done ++ h.todo)
  nodup : (h.done ++ h.todo).Nodup
  last : pos = h.done.getLast?
  start : h.done = [] → size = size₀
  spent_sub : ∀ i ∈ h.spent, i ∈ h.done
  front : ∀ i ∈ h.done.dropLast, i ∈ h.spent
  visited : ∀ i, pos = some i → h.Visited i size s

/-- With size left, nothing is left of any order visited. -/
theorem Visited.spent {h : Hit} {size₀ size : Nat} {s : Sob} {pos : Option Nat}
    (hv : Visited h size₀ size s pos) (hz : size ≠ 0) : ∀ i ∈ h.done, i ∈ h.spent := by
  intro i hi
  obtain ⟨d, j, heq⟩ := (List.eq_nil_or_concat' h.done).resolve_left (List.ne_nil_of_mem hi)
  have hlast : pos = some j := by rw [hv.last, heq]; simp
  rw [heq] at hi
  rcases List.mem_append.mp hi with hi | hi
  · exact hv.front i (by rw [heq]; simpa using hi)
  · obtain rfl := List.mem_singleton.mp hi
    obtain ⟨x, -, -, ⟨-, hs⟩ | ⟨-, -, hz'⟩⟩ := hv.visited _ hlast
    · exact hs
    · exact absurd hz' hz

theorem Fails.trans {c : Config} {err : Err} (he : Fails Move c err w) (h : Moves c₀ c) :
    Fails Move c₀ err w :=
  he.imp_right fun ⟨hx, F, h', hgap⟩ => ⟨hx, F, h.trans h', hgap⟩

theorem Moves.hitOrders {id size₀ : Nat} (cb : OrderExecCbBndl) (hcalm : F.Calm)
    (h0 : Ambient c₀.1 c₀.2) (todo : List Nat) :
    ∀ {w : World} {h : Hit} {pos : Option Nat} {size : Nat}, h.todo = todo →
      Moves c₀ (F.hits h id size, w) → Visited h size₀ size w.toSob pos →
      wp (hitOrders h.plev id cb todo pos size) (fun r w' => ∃ h' : Hit, h'.plev = h.plev ∧
        Moves c₀ (F.hits h' id r.1, w') ∧ Visited h' size₀ r.1 w'.toSob r.2 ∧
          (r.1 ≠ 0 → h'.todo = [])) (Fails Move c₀) w := by
  induction todo with
  | nil => exact fun htodo hm hv => wp_pure ⟨_, rfl, hm, hv, fun _ => htodo⟩
  | cons i todo ih =>
    intro w h pos size htodo hm hv
    unfold SimpleOrderbook.hitOrders
    refine wp_ite (fun hz => wp_pure ⟨h, rfl, hm, hv, fun hne => absurd hz hne⟩) fun hz =>
      wp_getSob_bind ?_
    have hnodup := hv.nodup
    rw [htodo] at hnodup
    split
    next hnone =>
      -- the order left the chain while another one was hit
      refine @ih w { h with todo := todo } _ _ rfl (hm.move (.skip h i todo rfl htodo hnone))
        ⟨?_, hnodup.sublist (by simp), hv.last, hv.start, hv.spent_sub, hv.front, hv.visited⟩
      have hni := Chain.findLimit_eq_none hnone
      have := hv.sublist.filter (· ≠ i)
      rw [List.filter_eq_self.mpr fun j hj => by simpa using ne_of_mem_of_not_mem hj hni] at this
      refine this.trans ?_
      simp only [htodo, ne_eq, List.filter_append, List.filter_cons, not_true, decide_false,
        Bool.false_eq_true, if_false]
      exact List.filter_sublist.append List.filter_sublist
    next b hb =>
      obtain ⟨hmem, rfl⟩ := Chain.findLimit_mem hb
      have hnew : b.id ∉ h.done := fun hd =>
        (List.nodup_append'.mp hnodup).2.2 hd List.mem_cons_self
      have hhit := Moves.hitOrder (hm.ambient h0) cb (.refl (a := (F.hits h id size, w))) hcalm
        htodo (fun hs => hnew (hv.spent_sub _ hs)) hz hb
      refine (hhit.mono (fun _ _ hq => hq) fun _ _ he => he.trans hm).bind
        fun size' w1 ⟨h', hh', h1, hvis⟩ => ?_
      have hfields : h'.plev = h.plev ∧ h'.done = h.done ++ [b.id] ∧ h'.todo = todo ∧
          h.spent ⊆ h'.spent ∧ ∀ i ∈ h'.spent, i = b.id ∨ i ∈ h.spent := by
        rcases hh' with rfl | rfl
        · exact ⟨rfl, rfl, rfl, fun _ hi => hi, fun _ hi => .inr hi⟩
        · exact ⟨rfl, rfl, rfl, List.subset_cons_self _ _, fun _ hi => List.mem_cons.mp hi⟩
      obtain ⟨hplev, hdone, htodo', hsub, hspent⟩ := hfields
      rw [← hplev]
      refine @ih w1 h' _ _ htodo' (hm.trans h1) ⟨?_, ?_, ?_, ?_, ?_, ?_, ?_⟩
      · have := (h1.shrinks.limitIds h.plev).trans hv.sublist
        simpa [hplev, hdone, htodo', htodo] using this
      · simpa [hdone, htodo'] using hnodup
      · simp [hdone]
      · simp [hdone]
      · intro i hi
        rw [hdone]
        rcases hspent i hi with rfl | hi
        · simp
        · exact List.mem_append_left _ (hv.spent_sub i hi)
      · intro i hi
        rw [hdone, List.dropLast_concat] at hi
        exact hsub (hv.spent hz i hi)
      · intro j hj
        cases hj
        exact hvis

theorem hitOrders_zero (plev id : Nat) (cb : OrderExecCbBndl) (ids : List Nat)
    (pos : Option Nat) : hitOrders plev id cb ids pos 0 = pure (0, pos) := by
  cases ids <;> rfl

/-- A sublist through an element that occurs once is a sublist on either side of it. -/
theorem sublist_split {α : Type} {a : α} {t l2 : List α} (ht : a ∉ t) :
    ∀ {d l : List α}, a ∉ d → (l ++ a :: l2).Sublist (d ++ a :: t) →
      l.Sublist d ∧ l2.Sublist t := by
  intro d
  induction d with
  | nil =>
    intro l _ h
    cases l with
    | nil => exact ⟨.slnil, List.cons_sublist_cons.mp h⟩
    | cons x l =>
      rcases List.cons_sublist_cons'.mp h with h | ⟨-, h⟩
      · exact absurd (h.subset (by simp)) ht
      · exact absurd (h.subset (by simp)) ht
  | cons y d ih =>
    intro l hd h
    obtain ⟨hy, hd'⟩ := not_or.mp (fun hm => hd (List.mem_cons.mpr hm))
    cases l with
    | nil =>
      rcases List.cons_sublist_cons'.mp h with h | ⟨heq, -⟩
      · exact ⟨List.nil_sublist _, (ih (l := []) hd' h).2⟩
      · exact absurd heq hy
    | cons x l =>
      rcases List.cons_sublist_cons'.mp h with hs | ⟨rfl, hs⟩
      · have := ih (l := x :: l) hd' hs
        exact ⟨this.1.cons _, this.2⟩
      · have := ih hd' hs
        exact ⟨this.1.cons_cons _, this.2⟩

/-- The bulk erase takes the spent orders, and no others. -/
theorem Visited.eraseVisited {h : Hit} {size₀ size pos : Nat} {s : Sob} {l : List LimitBndl}
    (hv : Visited h size₀ size s (some pos)) (hl : s.limits h.plev = some l) :
    eraseVisited pos l = l.filter (·.id ∉ h.spent) := by
  obtain ⟨d, hd⟩ := List.getLast?_eq_some_iff.mp hv.last.symm
  have hnodup := hv.nodup
  have hsub := hv.sublist
  have hfront := hv.front
  obtain ⟨x, hx, hxid, hcase⟩ := hv.visited pos rfl
  have hspent := hv.spent_sub
  unfold Sob.limitIds at hsub
  simp only [hl, ChainManager.elems_some, hd, List.dropLast_concat, List.append_assoc,
    List.singleton_append] at hnodup hsub hfront hspent hx
  -- the chain: orders in front of `pos`, that one, orders not visited yet
  obtain ⟨l1, l2, rfl⟩ := List.append_of_mem hx
  rw [List.map_append, List.map_cons, hxid] at hsub
  have hpd : pos ∉ d := fun hm => (List.nodup_append'.mp hnodup).2.2 hm List.mem_cons_self
  have hpt : pos ∉ h.todo := (List.nodup_cons.mp (List.nodup_append'.mp hnodup).2.1).1
  have hsplit : (l1.map (·.id)).Sublist d ∧ (l2.map (·.id)).Sublist h.todo :=
    sublist_split hpt hpd hsub
  have h1 : ∀ y ∈ l1, y.id ≠ pos ∧ y.id ∈ h.spent := fun y hy => by
    have hm : y.id ∈ d := hsplit.1.subset (List.mem_map_of_mem hy)
    exact ⟨ne_of_mem_of_not_mem hm hpd, hfront _ hm⟩
  have h2 : ∀ y ∈ l2, y.id ∉ h.spent := fun y hy hs => by
    have hm : y.id ∈ h.todo := hsplit.2.subset (List.mem_map_of_mem hy)
    rcases List.mem_append.mp (hspent _ hs) with hd | hp
    · exact (List.nodup_append'.mp hnodup).2.2 hd (List.mem_cons_of_mem _ hm)
    · exact hpt (List.mem_singleton.mp hp ▸ hm)
  have hdrop : (l1 ++ x :: l2).dropWhile (fun b => decide (b.id ≠ pos)) = x :: l2 := by
    rw [List.dropWhile_append_of_pos (by simpa using fun y hy => (h1 y hy).1)]
    simp [hxid]
  have hf1 : l1.filter (fun b => decide (b.id ∉ h.spent)) = [] :=
    List.filter_eq_nil_iff.mpr (by simpa using fun y hy => (h1 y hy).2)
  have hf2 : l2.filter (fun b => decide (b.id ∉ h.spent)) = l2 :=
    List.filter_eq_self.mpr (by simpa using h2)
  unfold SimpleOrderbook.eraseVisited
  rw [hdrop, List.filter_append, hf1, List.nil_append, List.filter_cons, hf2, hxid]
  rcases hcase with ⟨hz, hs⟩ | ⟨hz, hs, -⟩ <;> simp [hz, hs]

/-! ## The chains of a level -/

/-- The side of the book a level with a chain is on. -/
def OnSide (bidSide : Bool) (s : Sob) (p : Nat) : Prop :=
  if bidSide then p ≤ s.bid else s.ask ≤ p

/-- A level that keeps an order stays on its side of the book. -/
theorem Shrinks.onSide {s s' : Sob} (h : Shrinks s s') (hs : LimitInv s.limitView)
    (hs' : LimitInv s'.limitView) {bidSide : Bool} {p : Nat} (hp : OnSide bidSide s p)
    (hl : s'.limits p ≠ none) : OnSide bidSide s' p := by
  obtain ⟨l, hl⟩ := Option.ne_none_iff_exists'.mp hl
  cases l with
  | nil => exact absurd hl (hs'.nonempty p)
  | cons b bs =>
    have hb : b ∈ (s'.limits p).elems := by simp [hl]
    obtain ⟨b', hb', heq⟩ := h.exists_mem hb
    have hside := hs.side p b' hb'
    have hside' := hs'.side p b hb
    have hlt : s.bid < s.ask := hs.bid_lt_ask
    simp only [Sob.limitView] at hside hside'
    rw [heq] at hside
    unfold OnSide at hp ⊢
    cases bidSide <;> cases hbs : b.side <;> simp only [hbs, if_true, if_false,
      Bool.false_eq_true] at hp hside hside' ⊢ <;> omega

/-- Either nothing of the incoming order is left, and the chain is in place, or the chain was
emptied and is to be freed. -/
def HitResult (c₀ : Config) (F : Flight) (bidSide : Bool) (plev id : Nat) (r : Nat × Bool)
    (w' : World) : Prop :=
  if r.2 then ∃ F1 w1, Moves c₀ (F1, w1) ∧ w' = w1.onSob (·.setLimits plev (some [])) ∧
    Move (F1, w1) (F.hold id r.1, w1.onSob fun s =>
      Exec.Core.findNewBestInside bidSide (s.setLimits plev none))
  else Moves c₀ (F.hold id r.1, w') ∧ r.1 = 0

theorem Moves.hitChain (h0 : Ambient c₀.1 c₀.2) {bidSide : Bool} {plev id size : Nat}
    (cb : OrderExecCbBndl) (hm : Moves c₀ (F.hold id size, w)) (hcalm : F.Calm)
    (hside : OnSide bidSide w.toSob plev)
    (hl : w.limits plev ≠ none) :
    wp (hitChain plev id size cb) (HitResult c₀ F bidSide plev id) (Fails Move c₀) w := by
  have hamb := hm.ambient h0
  have hF : ∀ (h : Hit) (size : Nat), { F.hits h id size with hit := none } = F.hold id size :=
    fun h size => (F.hold id size).hit_none hcalm.hit
  have hbegin := hm.move (.beginHit plev id size F.hands rfl hcalm.gap hcalm.hit hcalm.acting hl)
  unfold SimpleOrderbook.hitChain
  refine wp_getSob_bind (wp_record_bind ?_)
  by_cases hz : size = 0
  · -- nothing is visited
    subst hz
    obtain ⟨l, hl'⟩ := Option.ne_none_iff_exists'.mp hl
    have hne : l ≠ [] := fun hn =>
      (hamb.limitInv hcalm.gap).nonempty plev (by simp [Sob.limitView, hl', hn])
    rw [hitOrders_zero]
    refine wp.bind (R := fun r w' => r = (0, none) ∧ w' = w.log (.hitChain w.toSob plev 0))
      (wp_pure ⟨rfl, rfl⟩) ?_
    rintro _ _ ⟨rfl, rfl⟩
    refine wp_getSob_bind ?_
    have hl'' : (w.log (.hitChain w.toSob plev 0)).limits plev = some l := hl'
    rw [hl'']
    refine wp.bind (R := fun w2 w' => w' = w.log (.hitChain w.toSob plev 0)) (wp_get rfl) ?_
    rintro w2 _ rfl
    unfold HitResult
    refine wp_ite (fun _ => wp_modifySob_bind (wp_pure ?_)) fun _ => wp_pure ?_
    · refine ⟨_, _, hbegin, rfl, ?_⟩
      have := Move.wipeHit (F := F.hits ⟨plev, [], w.limitIds plev, []⟩ id 0)
        (w := w.log (.hitChain w.toSob plev 0)) bidSide ⟨plev, [], w.limitIds plev, []⟩ w.toSob w.trace
        hcalm.gap rfl rfl rfl hside
      rwa [hF] at this
    · simp only [List.isEmpty_iff, hne, if_false]
      exact ⟨(hbegin.move (.missHit ⟨plev, [], w.limitIds plev, []⟩ w.toSob w.trace rfl rfl
        rfl rfl)).congr (hF _ _), trivial⟩
  · have hv : Visited ⟨plev, [], w.limitIds plev, []⟩ size size
        (w.log (.hitChain w.toSob plev size)).toSob none :=
      ⟨.refl _, hamb.nodup plev, rfl, fun _ => rfl, fun _ hi => absurd hi (by simp),
        fun _ hi => absurd hi (by simp), fun _ hi => absurd hi (by simp)⟩
    have hloop := Moves.hitOrders (F := F) cb hcalm (hbegin.ambient h0) (w.limitIds plev) rfl
      (.refl (a := (F.hits ⟨plev, [], w.limitIds plev, []⟩ id size,
        w.log (.hitChain w.toSob plev size)))) hv
    refine (hloop.mono (fun _ _ hq => hq) fun _ _ he => he.trans hbegin).bind ?_
    rintro ⟨size', pos⟩ w1 ⟨h, rfl, h1, hv1, htodo⟩
    have hm1 : Moves c₀ (F.hits h id size', w1) := hbegin.trans h1
    have hamb1 := hm1.ambient h0
    refine wp_getSob_bind ?_
    dsimp only at hv1 htodo ⊢
    split
    next pos l hl1 =>
      have hlast := hv1.last.symm
      have herase := hv1.eraseVisited hl1
      let w2 := w1.log (.hitChainEnd w1.toSob h.plev pos)
      have hm2 : Moves c₀ (F.hits h id size', w2) := hm1.move (.call _ rfl fun _ _ _ h => by cases h)
      unfold HitResult
      refine wp_getSob_bind (wp_record_bind (wp_modifySob_bind (wp_pure ?_)))
      by_cases he : eraseVisited pos l = []
      · simp only [he, List.isEmpty_nil, if_true]
        refine ⟨_, w2, hm2, rfl, ?_⟩
        have hall : ∀ b ∈ l, b.id ∈ h.spent := by
          rw [he] at herase
          simpa using List.filter_eq_nil_iff.mp herase.symm
        have := Move.freeHit (F := F.hits h id size') (w := w2) bidSide h pos l hcalm.gap hcalm.acting rfl
          hlast hl1 hall he (h1.shrinks.onSide (hamb.limitInv hcalm.gap) (hamb1.limitInv hcalm.gap)
            hside (by simp [hl1]))
        rwa [hF] at this
      · simp only [List.isEmpty_iff, he, if_false]
        refine ⟨(hm2.move (.eraseHit h pos l hcalm.gap hcalm.acting rfl hlast hl1 herase he
          ⟨_, rfl⟩)).congr (hF _ _), ?_⟩
        by_contra hne
        have hids : (l.map (·.id)).Sublist h.done := by
          have := hv1.sublist
          unfold Sob.limitIds at this
          rwa [htodo hne, List.append_nil, hl1] at this
        refine he (herase.trans (List.filter_eq_nil_iff.mpr fun b hb => ?_))
        simpa using hv1.spent hne _ (hids.subset (List.mem_map_of_mem hb))
    next l hl1 =>
      -- the first order of the chain is visited
      exfalso
      have hdone := List.getLast?_eq_none_iff.mp hv1.last.symm
      have hsz : size' ≠ 0 := by rw [hv1.start hdone]; exact hz
      have := hv1.sublist
      rw [hdone, htodo hsz] at this
      unfold Sob.limitIds at this
      rw [hl1] at this
      exact (hamb1.limitInv hcalm.gap).nonempty h.plev
        (by simpa [Sob.limitView, hl1] using this)
    next => exact wp_throw (.inl rfl)

/-- The limit chain of a level: with size left, it is freed or was not on this side. -/
theorem Moves.tradeLimits (h0 : Ambient c₀.1 c₀.2) {bidSide : Bool} {p id size : Nat}
    (cb : OrderExecCbBndl) (hm : Moves c₀ (F.hold id size, w)) (hcalm : F.Calm) :
    wp (tradeLimits bidSide p id cb size) (fun size' w' => Moves c₀ (F.hold id size', w') ∧
      (size' ≠ 0 → w'.limits p = none ∨ ¬ OnSide bidSide w'.toSob p)) (Fails Move c₀) w := by
  have hinv := (hm.ambient h0).limitInv hcalm.gap
  unfold SimpleOrderbook.tradeLimits
  refine wp_getSob_bind (wp_ite (fun hwin => ?_) fun hwin => wp_pure ⟨hm, fun _ => ?_⟩)
  · have hside : OnSide bidSide w.toSob p := by
      unfold Exec.Limit.inWindow at hwin
      unfold OnSide
      cases bidSide <;> simp at hwin ⊢ <;> omega
    split
    next hl => exact wp_pure ⟨hm, fun _ => .inl hl⟩
    next l hl =>
      refine (hm.hitChain h0 cb hcalm hside (by simp [hl])).bind ?_
      rintro ⟨size', all⟩ w' hr
      unfold HitResult at hr
      refine wp_ite (fun hall => ?_) fun hall => ?_
      · simp only [hall, if_true] at hr
        obtain ⟨F1, w1, h1, rfl, hmove⟩ := hr
        refine wp_modifySob_bind (wp_pure ⟨?_, fun _ => .inl ?_⟩)
        · have := h1.move hmove
          simp only [World.onSob, Sob.setLimits_setLimits] at this ⊢
          exact this
        · obtain ⟨_, _, _, _, heq⟩ := Exec.Core.findNewBestInside_eq bidSide
            ((w1.setLimits p (some [])).setLimits p none)
          simp only [World.onSob, heq]
          exact (Sob.limits_setLimits _ p p none).trans (if_pos rfl)
      · simp only [hall, if_false, Bool.false_eq_true] at hr
        exact wp_pure ⟨hr.1, fun hne => absurd hr.2 hne⟩
  · unfold Exec.Limit.inWindow at hwin
    by_cases hl : w.limits p = none
    · exact .inl hl
    · refine .inr fun hside => ?_
      have hw := hinv.window p hl
      have hlt := hinv.bid_lt_ask
      unfold OnSide at hside
      simp only [Sob.limitView] at hw hlt
      cases bidSide <;> simp at hwin hside <;> omega

/-- The hit of the AON chain of level `p` left the orders `l` in it, and `size` to trade. -/
def World.HitsAons (w : World) (buys : Bool) (p size : Nat) (l : List AonBndl) : Prop :=
  ∃ s n, .hitAonChain s buys p n ∈ w.trace ∧ s.aonTotal buys p + size ≤ n + (l.map (·.sz)).sum ∧
    s.aonPointers = w.aonPointers ∧ ∀ q, q ≠ p → w.aons buys q = s.aons buys q

theorem World.HitsAons.fill {buys : Bool} {p size id : Nat} {cb : OrderExecCbBndl} {b : AonBndl}
    {kept bs : List AonBndl} (h : w.HitsAons buys p size (kept ++ b :: bs)) (hsz : b.sz ≤ size) :
    (((w.traded p b.sz id b.id cb b.cb).log (.filled b.id)).onSob fun s =>
      (s.cacheErase b.id).setAons buys p (some (kept ++ bs))).HitsAons buys p (size - b.sz)
        (kept ++ bs) := by
  obtain ⟨s, n, hev, hle, hptr, hothers⟩ := h
  obtain ⟨sync, async, heq⟩ := w.traded_eq p b.sz id b.id cb b.cb
  rw [heq]
  refine ⟨s, n, ?_, ?_, hptr, fun q hq => ?_⟩
  · simp [World.onSob, World.log, hev]
  · simp only [List.map_append, List.map_cons, List.sum_append, List.sum_cons] at hle ⊢
    omega
  · rw [← hothers q hq]
    simp only [World.onSob, Sob.aons_setAons, hq]
    rfl

/-- The AON chain of a level, with the orders `kept` in front of the ones still to visit. -/
theorem Moves.hitAonChain {bidSide : Bool} {plev id : Nat} (cb : OrderExecCbBndl)
    (hcalm : F.Calm) (bs : List AonBndl) : ∀ {w : World} {kept : List AonBndl} {size : Nat},
      Moves c₀ (F.hold id size, w) → w.aons bidSide plev = some (kept ++ bs) →
      w.HitsAons bidSide plev size (kept ++ bs) →
      wp (hitAonChain bidSide plev id cb kept bs size) (fun r w' => if r.2 then
        ∃ F1 w1, ∃ s : Sob, Moves c₀ (F1, w1) ∧
          w'.toSob = s.setAons bidSide plev (some []) ∧
          Move (F1, w1) (F.hold id r.1, w'.onSob fun _ => Exec.Aon.adjustStateAfterPull bidSide
            (s.setAons bidSide plev none) plev)
        else Moves c₀ (F.hold id r.1, w')) (Fails Move c₀) w := by
  induction bs with
  | nil =>
    intro w kept size hm hl _
    refine wp_pure ?_
    rw [List.append_nil] at hl
    cases kept with
    | nil =>
      exact ⟨_, w, w.toSob, hm, by rw [← hl, Sob.setAons_aons], .freeAon bidSide plev hl⟩
    | cons b bs => exact hm
  | cons b bs ih =>
    intro w kept size hm hl hfrom
    unfold SimpleOrderbook.hitAonChain
    refine wp_ite (fun _ => wp_pure (by simpa using hm)) fun hsize => wp_ite (fun hsz => ?_)
      fun _ => ?_
    · refine wp_tradeHasOccured_bind (wp_record_bind (wp_modifySob_bind ?_))
      by_cases hempty : kept ++ bs = []
      · obtain ⟨rfl, rfl⟩ := List.append_eq_nil_iff.mp hempty
        have hfull : w.HitAons bidSide plev := by
          obtain ⟨s, n, hev, hle, hrest⟩ := hfrom
          refine ⟨s, n, hev, ?_, hrest⟩
          simp only [List.nil_append, List.map_cons, List.map_nil, List.sum_cons,
            List.sum_nil] at hle
          omega
        exact wp_pure ⟨_, w, (w.traded plev b.sz id b.id cb b.cb).cacheErase b.id, hm, rfl,
          .fillLastAon bidSide plev id size cb b F.hands rfl hl hsize hsz hcalm.scan hfull⟩
      · refine ih (hm.move (.fillAon bidSide plev id size cb b kept bs F.hands rfl hl hempty hsize
          hsz hcalm.scan)) ?_ (hfrom.fill hsz)
        simp [World.onSob]
    · exact ih hm (by simpa using hl) (by simpa using hfrom)

theorem Moves.tradeAons {bidSide : Bool} {p id size : Nat} (cb : OrderExecCbBndl)
    (hm : Moves c₀ (F.hold id size, w)) (hcalm : F.Calm) :
    wp (tradeAons bidSide p id cb size) (fun size' w' => Moves c₀ (F.hold id size', w'))
      (Fails Move c₀) w := by
  unfold SimpleOrderbook.tradeAons
  refine wp_getSob_bind (wp_ite (fun _ => ?_) fun _ => wp_pure hm)
  split
  next => exact wp_pure hm
  next l hl =>
    have hcall := hm.move (.call (.hitAonChain w.toSob bidSide p size) rfl
      fun _ _ _ h => by cases h)
    have hfrom : (w.log (.hitAonChain w.toSob bidSide p size)).HitsAons bidSide p size ([] ++ l) := by
      refine ⟨w.toSob, size, List.mem_cons_self, ?_, rfl, fun _ _ => rfl⟩
      unfold Sob.aonTotal
      rw [hl, ChainManager.elems_some, List.nil_append, Nat.add_comm]
    refine wp_record_bind ((hcall.hitAonChain cb hcalm l (show _ = some ([] ++ l) from hl)
      hfrom).bind ?_)
    rintro ⟨size', all⟩ w' hr
    refine wp_ite (fun hall => ?_) fun hall => ?_
    · simp only [hall, if_true] at hr
      obtain ⟨F1, w1, s, h1, hs, hmove⟩ := hr
      refine wp_modifySob_bind (wp_pure ?_)
      have := h1.move hmove
      simp only [World.onSob, hs, Sob.setAons_setAons] at this ⊢
      exact this
    · simp only [hall, if_false, Bool.false_eq_true] at hr
      exact wp_pure hr

/-! ## The sweep -/

/-- No limit chain of the side is inside of level `p`. -/
def Reached (bidSide : Bool) (s : Sob) (p : Nat) : Prop :=
  if bidSide then s.bid ≤ p else p ≤ s.ask

theorem reached_begin (bidSide : Bool) (s : Sob) :
    Reached bidSide s (Exec.Core.begin_ bidSide s) := by
  unfold Reached Exec.Core.begin_
  cases bidSide <;> simp

/-- Once a level is done with, the next one is reached. -/
theorem reached_next {bidSide : Bool} {s : Sob} {p : Nat} (h : ¬ OnSide bidSide s p) :
    Reached bidSide s (Exec.Core.nextOrJump bidSide s p) := by
  unfold OnSide at h
  unfold Reached Exec.Core.nextOrJump Exec.Core.begin_ Exec.Core.next
  cases bidSide <;> simp at h ⊢ <;> omega

/-- A level that was reached and is freed is done with. -/
theorem not_onSide_of_none {bidSide : Bool} {s : Sob} {p : Nat} (hs : LimitInv s.limitView)
    (hp : if bidSide then 0 < p else p < s.end_) (hr : Reached bidSide s p)
    (hl : s.limits p = none ∨ ¬ OnSide bidSide s p) : ¬ OnSide bidSide s p := by
  refine hl.elim (fun hl hon => ?_) fun h => h
  have hb := hs.bestBid.1
  have ha := hs.bestAsk.1
  simp only [Sob.limitView] at hb ha
  unfold Reached at hr
  unfold OnSide at hon
  cases bidSide with
  | true =>
    obtain rfl : s.bid = p := by simp at hr hon; omega
    exact hb (by simpa using hp) ‹_›
  | false =>
    obtain rfl : s.ask = p := by simp at hr hon; omega
    exact ha (by simpa using hp) ‹_›

/-- Beyond the far bound of a side it has no limit chain. -/
theorem Shrinks.not_onSide_of_bound {s s' : Sob} (h : Shrinks s s') (hs : LimitInv s.limitView)
    (hs' : LimitInv s'.limitView) {bidSide : Bool} {p : Nat} (hp : 0 < p) (hpe : p < s.end_)
    (hb : if bidSide then s'.bid < s.lowBuyLimit else s.highSellLimit < s'.ask) :
    ¬ OnSide bidSide s' p := by
  intro hon
  have hlt := hs'.bid_lt_ask
  have hle := hs'.ask_le_end
  have hlt₀ := hs.bid_lt_ask
  have hend := h.end_eq
  unfold OnSide at hon
  -- the best level of the side, of which an order was there before
  have hpick : ∀ q, s'.limits q ≠ none → ∃ b ∈ (s'.limits q).elems, True := fun q hq => by
    obtain ⟨l, hl⟩ := Option.ne_none_iff_exists'.mp hq
    cases l with
    | nil => exact absurd hl (hs'.nonempty q)
    | cons b bs => exact ⟨b, by simp [hl], trivial⟩
  have hold : ∀ q, s'.limits q ≠ none → s.limits q ≠ none := fun q hq hn => by
    obtain ⟨b, hb, -⟩ := hpick q hq
    obtain ⟨b', hb', -⟩ := h.exists_mem hb
    simp [hn] at hb'
  simp only [Sob.limitView] at hlt hle hlt₀
  have hmarket := h.bid_le_ask_le hs hs'
  cases bidSide with
  | true =>
    simp only [if_true] at hb hon
    have hw := hs.window s'.bid (hold _ (hs'.bestBid.1 (show 0 < s'.bid by omega)))
    simp only [Sob.limitView] at hw
    omega
  | false =>
    simp only [Bool.false_eq_true, if_false] at hb hon
    have hw := hs.window s'.ask (hold _ (hs'.bestAsk.1 (show s'.ask < s'.end_ by omega)))
    simp only [Sob.limitView] at hw
    omega

theorem Moves.sweep (h0 : Ambient c₀.1 c₀.2) {bidSide : Bool} {plev endp id : Nat}
    (cb : OrderExecCbBndl) (hcalm : F.Calm)
    {s₀ : Sob} (hs₀ : LimitInv s₀.limitView) (hp : 0 < plev) (hpe : plev < s₀.end_)
    (hend : if bidSide then endp ≤ s₀.lowBuyLimit else s₀.highSellLimit ≤ endp) (n : Nat) :
    ∀ {w : World} {p size high low : Nat}, Moves c₀ (F.hold id size, w) → Shrinks s₀ w.toSob →
      Reached bidSide w.toSob p ∨ size = 0 → Exec.Core.distance bidSide p plev ≤ n →
      wp (sweep bidSide plev endp id cb n p size high low) (fun r w' =>
        Moves c₀ (F.hold id r.1, w') ∧ (r.1 ≠ 0 → ¬ OnSide bidSide w'.toSob plev))
        (Fails Move c₀) w := by
  -- where the levels of the sweep end
  have hexit : ∀ {w : World} {p size : Nat}, Moves c₀ (F.hold id size, w) →
      Shrinks s₀ w.toSob → Reached bidSide w.toSob p ∨ size = 0 →
      (¬ Exec.Core.insideOf bidSide p plev ∨ ¬ Exec.Core.insideOf bidSide p endp) →
      size ≠ 0 → ¬ OnSide bidSide w.toSob plev := by
    intro w p size hm hs hr hout hne
    have hr := hr.resolve_right hne
    rcases hout with hout | hout
    · unfold Exec.Core.insideOf at hout
      unfold Reached at hr
      unfold OnSide
      cases bidSide <;> simp at hout hr ⊢ <;> omega
    · refine hs.not_onSide_of_bound hs₀ ((hm.ambient h0).limitInv hcalm.gap) hp hpe ?_
      unfold Exec.Core.insideOf at hout
      unfold Reached at hr
      cases bidSide <;> simp at hout hr hend ⊢ <;> omega
  induction n with
  | zero =>
    intro w p size high low hm hs hr hn
    refine wp_pure ⟨hm, hexit hm hs hr (.inl ?_)⟩
    unfold Exec.Core.distance at hn
    unfold Exec.Core.insideOf
    cases bidSide <;> simp at hn ⊢ <;> omega
  | succ n ih =>
    intro w p size high low hm hs hr hn
    unfold SimpleOrderbook.sweep
    refine wp_ite (fun hin => ?_) fun hout => wp_pure ⟨hm, fun hne =>
      hexit hm hs hr (not_and_or.mp fun h => hout ⟨hne, h⟩) hne⟩
    obtain ⟨hne, hin, -⟩ := hin
    have hr := hr.resolve_right hne
    refine ((Moves.tradeAons cb (.refl (a := (F.hold id size, w))) hcalm).mono (fun _ _ hq => hq)
      fun _ _ he => he.trans hm).bind fun size1 w1 h1 => ?_
    have hm1 : Moves c₀ (F.hold id size1, w1) := hm.trans h1
    refine ((Moves.tradeLimits (hm1.ambient h0) cb (.refl (a := (F.hold id size1, w1)))
      hcalm).mono (fun _ _ hq => hq) fun _ _ he => he.trans hm1).bind
        fun size2 w2 ⟨h2, hdone⟩ => wp_getSob_bind ?_
    have hm2 : Moves c₀ (F.hold id size2, w2) := hm1.trans h2
    have hs2 := (hs.trans h1.shrinks).trans h2.shrinks
    have hinv2 := (hm2.ambient h0).limitInv hcalm.gap
    -- the level is done with, so the next one is reached
    have hnext : Reached bidSide w2.toSob (Exec.Core.nextOrJump bidSide w2.toSob p) ∨ size2 = 0 := by
      refine or_iff_not_imp_right.mpr fun hne2 => reached_next (not_onSide_of_none hinv2 ?_ ?_
        (hdone hne2))
      · unfold Exec.Core.insideOf at hin
        have hend2 : w2.end_ = s₀.end_ := hs2.end_eq
        cases bidSide <;> simp at hin ⊢ <;> omega
      · have hmarket : w2.bid ≤ w.bid ∧ w.ask ≤ w2.ask := (h1.shrinks.trans h2.shrinks).bid_le_ask_le
          ((hm.ambient h0).limitInv hcalm.gap) hinv2
        unfold Reached at hr ⊢
        cases bidSide <;> simp at hr ⊢ <;> omega
    refine ih hm2 hs2 hnext ?_
    unfold Exec.Core.distance Exec.Core.nextOrJump Exec.Core.next Exec.Core.insideOf at *
    cases bidSide <;> simp at hn hin ⊢ <;> omega

/-! ## Trailing stops -/

theorem wp_plevelOffset (w : World) (buy : Bool) (nticks start : Nat) :
    wp (plevelOffset true buy nticks start)
      (fun p w' => (w.StopOffset buy nticks start p ∧ w.HasLevel p) ∧ w' = w)
      (fun err w' => err = .undefinedBehaviour ∨ err = .derivedPriceException ∧ w' = w) w := by
  unfold plevelOffset Sob.StopOffset
  have hthrow : (Err.derivedPriceException = .undefinedBehaviour) ∨
      Err.derivedPriceException = .derivedPriceException ∧ w = w := .inr ⟨rfl, rfl⟩
  refine wp_getSob_bind (wp_ite (fun _ => wp_throw (.inl rfl)) fun hstart => ?_)
  obtain ⟨hlow, hhigh⟩ := not_or.mp hstart
  refine wp_ite (fun hbuy => wp_ite (fun _ => wp_throw hthrow) fun hle => wp_pure ⟨⟨?_, ?_⟩, rfl⟩)
    fun hbuy => wp_ite (fun _ => wp_throw hthrow) fun hle => wp_pure ⟨⟨?_, ?_⟩, rfl⟩
  · rw [if_pos (by simpa using hbuy)]
    exact ⟨rfl, not_lt.mp hle⟩
  · exact ⟨by omega, by omega⟩
  · rw [if_neg (by simpa using hbuy)]
    exact ⟨rfl, not_lt.mp hle⟩
  · exact ⟨by omega, by omega⟩

/-- A trailing stop is moved, unless it is not cached or its new level is off the book. -/
theorem wp_trailingStopAdjust (w : World) (id : Nat) (buyStop : Bool) (p : Nat) :
    wp (trailingStopAdjust id buyStop p)
      (fun _ w' => ∃ c b nticks pAdj, w.idCache id = some c ∧
        Chain.findStop (w.stops c.p).elems id = some b ∧ (∀ w, trailingNticks b w = .ok nticks w) ∧
        w.StopOffset buyStop nticks p pAdj ∧ w.HasLevel pAdj ∧ w' = w.movedStop c.p b pAdj)
      (fun err w' => err = .undefinedBehaviour ∨
        err = .orderNotInCache id ∧ w.idCache id = none ∧ w' = w ∨
        err = .derivedPriceException ∧ ∃ c b, w.idCache id = some c ∧
          Chain.findStop (w.stops c.p).elems id = some b ∧ w' = w.onSob (·.erasedStop c.p b)) w := by
  unfold SimpleOrderbook.trailingStopAdjust
  refine ((wp_stopPop w id).mono (fun _ _ hq => hq) ?_).bind ?_
  · rintro err _ (rfl | ⟨rfl, hn, rfl⟩)
    · exact .inl rfl
    · exact .inr (.inl ⟨rfl, hn, rfl⟩)
  rintro b _ ⟨c, hc, hb, rfl⟩
  refine wp.bind (R := fun n w' => (∀ w, trailingNticks b w = .ok n w) ∧
    w' = w.onSob (·.erasedStop c.p b)) ?_ ?_
  · unfold trailingNticks
    split
    next hact hp => exact wp_pure ⟨fun w => by rw [hact, hp]; rfl, rfl⟩
    next hact hp => exact wp_pure ⟨fun w => by rw [hact, hp]; rfl, rfl⟩
    next => exact wp_throw (.inl rfl)
  rintro nticks _ ⟨hn, rfl⟩
  refine ((wp_plevelOffset _ buyStop nticks p).mono (fun _ _ hq => hq) ?_).bind ?_
  · rintro _ _ (rfl | ⟨rfl, rfl⟩)
    · exact .inl rfl
    · exact .inr (.inr ⟨rfl, c, b, hc, hb, rfl⟩)
  rintro pAdj _ ⟨⟨hp, hlevel⟩, rfl⟩
  refine wp_getSob_bind (wp_pushExecCallback_bind (wp_modifySob ?_))
  have hid := Chain.findStop_id hb
  have hitop : (w.erasedStop c.p b).itop pAdj = w.itop pAdj := by
    obtain ⟨_, _, _, _, _, _, heq⟩ := w.erasedStop_eq c.p b
    rw [heq]
    rfl
  have hend : (w.erasedStop c.p b).end_ = w.end_ := by
    obtain ⟨_, _, _, _, _, _, heq⟩ := w.erasedStop_eq c.p b
    rw [heq]
  have hp : w.StopOffset buyStop nticks p pAdj := by
    unfold Sob.StopOffset at hp ⊢
    rwa [World.toSob_onSob, hend] at hp
  have hlevel : w.HasLevel pAdj := by
    unfold Sob.HasLevel at hlevel ⊢
    rwa [World.toSob_onSob, hend] at hlevel
  refine ⟨c, b, nticks, pAdj, hc, hb, hn, hp, hlevel, ?_⟩
  unfold World.movedStop
  simp only [World.onSob, hitop, ← hid]

theorem Moves.trailingStopAdjust (hm : Moves c₀ (F, w)) (hcalm : F.Calm) (id : Nat)
    (buyStop : Bool) (p : Nat) :
    wp (trailingStopAdjust id buyStop p) (fun _ w' => Moves c₀ (F, w')) (Fails Move c₀) w := by
  refine (wp_trailingStopAdjust w id buyStop p).mono ?_ ?_
  · rintro _ _ ⟨c, b, nticks, pAdj, hc, hb, hn, hp, hlevel, rfl⟩
    obtain rfl := Chain.findStop_id hb
    exact hm.move (.moveStop buyStop p b.id c b nticks pAdj hc hb hn hp hcalm.scan hlevel)
  · rintro _ _ (rfl | ⟨rfl, -, rfl⟩ | ⟨rfl, c, b, hc, hb, rfl⟩)
    · exact .inl rfl
    · exact .of_moves hm hcalm.gap rfl
    · exact .of_moves (hm.move (.act (.popStop id c b hc hb))) hcalm.gap rfl

theorem Moves.trailingStopsAdjust (hm : Moves c₀ (F, w)) (hcalm : F.Calm) (buyStops : Bool)
    (p : Nat) :
    wp (trailingStopsAdjust buyStops p) (fun _ w' => Moves c₀ (F, w')) (Fails Move c₀) w := by
  unfold SimpleOrderbook.trailingStopsAdjust
  refine wp_getSob_bind (wp_record_bind ?_)
  exact wp_forM (fun _ w' => Moves c₀ (F, w')) (hm.move (.call (.trailingStopsAdjust ..) rfl fun _ _ _ _ => hcalm))
    fun id _ w' h => h.trailingStopAdjust hcalm id buyStops p

theorem Moves.adjustTrailingStops (hm : Moves c₀ (F, w)) (hcalm : F.Calm)
    (oldLast high low : Nat) :
    wp (adjustTrailingStops oldLast high low) (fun _ w' => Moves c₀ (F, w')) (Fails Move c₀) w := by
  unfold SimpleOrderbook.adjustTrailingStops
  refine wp.bind (R := fun _ w' => Moves c₀ (F, w')) ?_ fun _ w' h => ?_
  · exact wp_ite (fun _ => hm.trailingStopsAdjust hcalm _ _) fun _ => wp_pure hm
  · exact wp_ite (fun _ => h.trailingStopsAdjust hcalm _ _) fun _ => wp_pure h

/-! ## Triggered stops -/

/-- The chain under way while its stops `todo` are still to be triggered. -/
def Flight.triggers (F : Flight) (buyStops : Bool) (plev : Nat) (todo : List StopBndl) : Flight :=
  { F with detached := some { buyStops := buyStops, plev := plev, todo := todo } }

theorem Moves.cancelTriggered {e : StopBndl}
    (hm : Moves c₀ (F.runs e.toOrderBndl e.sz false, w)) (hgap : F.gap = none) :
    wp (cancelTriggered e) (fun b w' => Moves c₀ (F.runs e.toOrderBndl e.sz false, w') ∧
      (b.isAdvanced → b = e.toOrderBndl) ∧ ∀ p, w.stops p = none → w'.stops p = none)
      (Fails Move c₀) w := by
  unfold SimpleOrderbook.cancelTriggered
  refine wp_ite (fun _ => ?_) fun _ => wp_pure ⟨hm, fun _ => rfl, fun _ hp => hp⟩
  refine (hm.lift (Acts.handleAdvancedOrderCancel .refl hgap e.id)).bind ?_
  rintro ⟨cancelled, b⟩ w1 ⟨h1, -, hb⟩
  refine wp_pure ⟨hm.acts h1, fun hadv => ?_, fun p hp => h1.stops hp⟩
  split at hb
  next =>
    simp only [OrderBndl.isAdvanced, decide_eq_true_eq] at hadv
    exact absurd hb hadv
  next => exact hb

theorem wp_triggeredOrder {Q : OrderQueueElem → World → Prop} {E : Err → World → Prop}
    {b : OrderBndl} {e : StopBndl} {idNew : Nat}
    (h : ∀ order, order.id = idNew → order.sz = e.sz →
      order.condition = .none ∨ order.condition = b.condition ∧
        (b.condition = .trailingStop ∨ b.condition = .trailingBracket) → Q order w)
    (hn : E .undefinedBehaviour w) : wp (triggeredOrder b e idNew) Q E w := by
  unfold triggeredOrder
  refine wp_ite (fun hb => ?_) fun _ => wp_ite (fun hb => ?_) fun _ => wp_pure (h _ rfl rfl (.inl rfl))
  · split
    next => exact wp_pure (h _ rfl rfl (.inr ⟨rfl, .inl (of_decide_eq_true hb)⟩))
    next => exact wp_throw hn
  · split
    next => exact wp_pure (h _ rfl rfl (.inr ⟨rfl, .inr (of_decide_eq_true hb)⟩))
    next => exact wp_throw hn

theorem Moves.triggerTriggered {b : OrderBndl} {e : StopBndl}
    (hm : Moves c₀ (F.runs e.toOrderBndl e.sz false, w)) (hgap : F.gap = none)
    (hb : b.isAdvanced → b = e.toOrderBndl) :
    wp (triggerTriggered b e) (fun _ w' => (∃ told,
      Moves c₀ (F.runs e.toOrderBndl e.sz told, w')) ∧ ∀ p, w.stops p = none → w'.stops p = none)
      (Fails Move c₀) w := by
  unfold SimpleOrderbook.triggerTriggered
  refine wp_ite (fun hadv => ?_) fun _ => wp_pure ⟨⟨_, hm⟩, fun _ hp => hp⟩
  rw [hb (by simp only [Bool.and_eq_true] at hadv; exact hadv.1.1)]
  refine wp.discard ((hm.lift (Acts.handleAdvancedOrderTrigger .refl hgap e.id)).post ?_)
  rintro b' w' ⟨⟨told, h'⟩, -⟩
  exact ⟨⟨told, hm.acts h'⟩, fun p hp => h'.stops hp⟩

theorem Moves.handleTriggeredStop {buyStops : Bool} {plev : Nat} {e : StopBndl}
    {todo : List StopBndl} (hm : Moves c₀ (F.triggers buyStops plev (e :: todo), w))
    (hgap : F.gap = none) (hact : F.acting = none) (hhit : F.hit = none) :
    wp (handleTriggeredStop buyStops plev e)
      (fun _ w' => Moves c₀ (F.triggers buyStops plev todo, w') ∧
        ∀ p, w.stops p = none → w'.stops p = none) (Fails Move c₀) w := by
  unfold SimpleOrderbook.handleTriggeredStop
  refine wp_modifySob_bind ?_
  have herased : e.id ∉ (w.toSob.trailingErased e.id buyStops).trailingStops buyStops := by
    cases buyStops <;> simp [Sob.trailingErased, Sob.trailingStops]
  have h1 := (hm.move (.eraseTriggered ⟨buyStops, plev, e :: todo, none⟩ e todo rfl rfl)).move
    (.beginTrigger ⟨buyStops, plev, e :: todo, none⟩ e todo rfl rfl hact hhit herased)
  refine (Moves.cancelTriggered (F := F.triggers buyStops plev (e :: todo)) h1 hgap).bind
    fun b w2 ⟨h2, hb, hstops2⟩ => wp_generateId_bind (wp_getSob_bind (wp_record_bind
      (wp_pushExecCallback_bind ?_)))
  let w3 := (w2.onSob fun s => { s with lastId := s.lastId + 1 }).log
    (.stopTriggered e plev w2.last (w2.lastId + 1))
  let w4 := w3.report (if e.limit ≠ 0 then .stopToLimit else .stopToMarket) e.cb e.id
    (w2.lastId + 1) e.limit e.sz
  let F2 : Flight := (F.triggers buyStops plev (e :: todo)).runs e.toOrderBndl e.sz false
  let F5 : Flight := { F with detached := some ⟨buyStops, plev, todo, some e.id⟩ }
  have h3 := h2.move (.act .newId)
  refine wp.bind (wp_triggeredOrder (Q := fun order w' => order.id = w2.lastId + 1 ∧
    order.sz = e.sz ∧ (order.condition = .none ∨ order.condition = b.condition ∧
      (b.condition = .trailingStop ∨ b.condition = .trailingBracket)) ∧ w' = w4)
    (fun order hid hsz hcond => ⟨hid, hsz, hcond, rfl⟩) (.inl rfl)) ?_
  rintro order _ ⟨hid, hsz, hcond, rfl⟩
  have hgen : (F2.give (w2.lastId + 1)).Generates order := by
    obtain hc | hc | hc : order.condition = .none ∨ order.condition = .trailingStop ∨
        order.condition = .trailingBracket :=
      hcond.imp_right fun ⟨heq, hc⟩ => heq ▸ hc
    all_goals refine ⟨.inl ⟨_, rfl, .inl hsz⟩, by simp [hc], by simp [hc], fun hne => .inl ⟨_, rfl, ?_⟩⟩
    · exact absurd hc hne
    all_goals
      obtain ⟨heq, -⟩ := hcond.resolve_left hne
      have hadv : b.isAdvanced := by simp [OrderBndl.isAdvanced, ← heq, hc]
      simp [OrderCondition.opensExits, ← hb hadv, ← heq, hc]
  refine wp_pushInternalOrder_bind ?_
  have h5 := h3.move (.turn ⟨buyStops, plev, e :: todo, none⟩ e todo order F2.ids
    (if e.limit ≠ 0 then .stopToLimit else .stopToMarket) rfl rfl rfl (by rw [hid]; rfl) hsz hgen
    (Option.some_ne_none _) (by rw [hid]; exact Nat.succ_ne_zero _))
  have h5' : Moves c₀ (F5.runs e.toOrderBndl e.sz false, (w4.log (.pushInternalOrder order)).onSob
      fun s => { s with internalOrderQueue := s.internalOrderQueue ++ [order] }) := by
    unfold World.turned at h5
    rw [hid] at h5
    exact h5
  refine (Moves.triggerTriggered (F := F5) h5' hgap hb).bind
    fun _ w6 ⟨⟨told, h6⟩, hstops6⟩ => wp_modifySob ⟨?_, fun p hp => hstops6 p ?_⟩
  · exact (h6.move (.endTrigger ⟨buyStops, plev, todo, some e.id⟩ e.id rfl rfl hhit)).congr
      (Flight.acting_none (F := F.triggers buyStops plev todo) hact)
  · have h4 : w4.stops p = w2.stops p := congrFun (stops_of_files (files_report ..)) p
    refine h4.trans (hstops2 p ?_)
    rwa [World.toSob_onSob, stops_of_files (files_trailingErased _ _ _)]

theorem Moves.handleTriggeredStopChain {buyStops : Bool} {plev : Nat} {sc : Scan}
    (hm : Moves c₀ (F, w)) (hgap : F.gap = none) (hact : F.acting = none) (hhit : F.hit = none)
    (hdet : F.detached = none) (hscan : F.scan = some sc)
    (hbuy : buyStops = true → sc.start.lowBuyStop ≤ plev ∧ plev ≤ sc.start.last)
    (hsell : buyStops = false → ∃ s, sc.turn = some s ∧ s.last ≤ plev ∧ plev ≤ s.highSellStop)
    (hdone : ∀ p, sc.Passed buyStops plev p → w.stops p = none) :
    wp (handleTriggeredStopChain buyStops plev) (fun _ w' => Moves c₀ (F, w') ∧
      ∀ p, p = plev ∨ w.stops p = none → w'.stops p = none) (Fails Move c₀) w := by
  unfold SimpleOrderbook.handleTriggeredStopChain
  refine wp_getSob_bind (wp_modifySob_bind ?_)
  have h1 := hm.move (.detach buyStops plev sc hscan hdet hbuy hsell hdone hact)
  refine (wp_forM (fun todo w' => Moves c₀ (F.triggers buyStops plev todo, w') ∧
    ∀ p, p = plev ∨ w.stops p = none → w'.stops p = none) ⟨h1, fun p hp => ?_⟩ fun e todo w' h =>
      (h.1.handleTriggeredStop hgap hact hhit).post fun _ w2 h2 =>
        ⟨h2.1, fun p hp => h2.2 p (h.2 p hp)⟩).post fun _ w' ⟨h, hstops⟩ => ⟨?_, hstops⟩
  · rw [World.toSob_onSob, stops_of_files (Exec.Stop.files_adjustStateAfterTrigger _ _ _),
      Sob.stops_setStops]
    split
    next => rfl
    next hne => exact hp.resolve_left hne
  · have := h.move (.endDetached ⟨buyStops, plev, [], none⟩ rfl rfl rfl)
    rwa [show { F.triggers buyStops plev [] with detached := none } = F by
      unfold Flight.triggers; rw [← hdet]] at this

theorem Moves.triggerBuyStops {sc : Scan} (hgap : F.gap = none) (hact : F.acting = none)
    (hhit : F.hit = none) (hdet : F.detached = none) (hscan : F.scan = some sc) (n : Nat) :
    ∀ {w : World} {p : Nat}, Moves c₀ (F, w) → sc.start.lowBuyStop ≤ p →
      p + n ≤ sc.start.last + 1 ∨ n = 0 → (∀ q, sc.Passed true p q → w.stops q = none) →
      wp (triggerBuyStops n p) (fun _ w' => Moves c₀ (F, w')) (Fails Move c₀) w := by
  induction n with
  | zero => exact fun hm _ _ _ => wp_pure hm
  | succ n ih =>
    intro w p hm hlow hn hdone
    refine (hm.handleTriggeredStopChain hgap hact hhit hdet hscan (fun _ => ⟨hlow, by omega⟩)
      (fun h => by cases h) hdone).bind fun _ w1 ⟨h1, hstops⟩ => ih h1 (by omega) (by omega)
        fun q hq => hstops q ?_
    obtain ⟨hq1, hq2⟩ : sc.start.lowBuyStop ≤ q ∧ q < p + 1 := hq
    rcases Nat.lt_succ_iff_lt_or_eq.mp hq2 with hlt | heq
    · exact .inr (hdone q ⟨hq1, hlt⟩)
    · exact .inl heq

theorem Moves.triggerSellStops {sc : Scan} {s : Sob} (hgap : F.gap = none)
    (hact : F.acting = none) (hhit : F.hit = none) (hdet : F.detached = none)
    (hscan : F.scan = some sc) (hturn : sc.turn = some s) (n : Nat) :
    ∀ {w : World} {p : Nat}, Moves c₀ (F, w) → p ≤ s.highSellStop → n ≤ p + 1 - s.last →
      (n ≠ 0 → ∀ q, sc.Passed false p q → w.stops q = none) →
      wp (triggerSellStops n p) (fun _ w' => Moves c₀ (F, w')) (Fails Move c₀) w := by
  induction n with
  | zero => exact fun hm _ _ _ => wp_pure hm
  | succ n ih =>
    intro w p hm hhigh hn hdone
    refine (hm.handleTriggeredStopChain hgap hact hhit hdet hscan (fun h => by cases h)
      (fun _ => ⟨s, hturn, by omega, hhigh⟩) (hdone (by omega))).bind
        fun _ w1 ⟨h1, hstops⟩ => ih h1 (by omega) (by omega) fun hn0 q hq => hstops q ?_
    obtain ⟨s', hs', hq1, hq2⟩ : ∃ s, sc.turn = some s ∧ p - 1 < q ∧ q ≤ s.highSellStop := hq
    by_cases heq : q = p
    · exact .inl heq
    · exact .inr (hdone (by omega) q ⟨s', hs', by omega, hq2⟩)

theorem Moves.lookForTriggeredStops (hm : Moves c₀ (F, w)) (hF : F.Calm)
    (hneed : w.needCheckForStops = true) :
    wp lookForTriggeredStops (fun _ w' => Moves c₀ (F, w')) (Fails Move c₀) w := by
  unfold SimpleOrderbook.lookForTriggeredStops
  refine wp_getSob_bind (wp_record_bind ?_)
  let sc : Scan := { start := w.toSob }
  have h1 := hm.move (.beginScan hF.scan hneed)
  refine (Moves.triggerBuyStops (F := { F with scan := some sc }) hF.gap hF.acting
    hF.hit hF.detached rfl _ h1 le_rfl (by dsimp only [sc]; omega) fun q hq => ?_).bind
      fun _ w2 h2 => wp_getSob_bind (wp_record_bind ?_)
  · obtain ⟨hq1, hq2⟩ : w.lowBuyStop ≤ q ∧ q < w.lowBuyStop := hq
    omega
  let sc' : Scan := { sc with turn := some w2.toSob }
  have h3 := h2.move (.turnScan sc rfl rfl)
  refine (Moves.triggerSellStops (F := { F with scan := some sc' }) hF.gap hF.acting
    hF.hit hF.detached rfl rfl _ h3 le_rfl le_rfl fun _ q hq => ?_).bind
      fun _ w4 h4 => wp_modifySob ?_
  · obtain ⟨s, hs, hq1, hq2⟩ :
        ∃ s, sc'.turn = some s ∧ w2.highSellStop < q ∧ q ≤ s.highSellStop := hq
    cases hs
    omega
  exact (h4.move (.endScan hF.detached)).congr (by rw [← hF.scan])

/-- `_trade`. What is left over found no limit chain of the side through `plev`. -/
theorem Moves.trade (h0 : Ambient c₀.1 c₀.2) {bidSide : Bool} {plev id size : Nat}
    (cb : OrderExecCbBndl) (hm : Moves c₀ (F.hold id size, w)) (hF : F.Calm)
    (hp : 0 < plev) (hpe : plev < w.end_) :
    wp (trade bidSide plev id size cb) (fun r w' => Moves c₀ (F.hold id r, w') ∧
      (r ≠ 0 → ¬ OnSide bidSide w'.toSob plev)) (Fails Move c₀) w := by
  have hamb := hm.ambient h0
  have hinv := hamb.limitInv hF.gap
  unfold SimpleOrderbook.trade
  refine wp_getSob_bind (wp_record_bind ?_)
  have h1 := hm.move (.call (.tradeCall w.toSob bidSide plev id size) rfl
    fun _ _ _ h => by cases h)
  have hend : if bidSide then Exec.Core.end_ bidSide w.toSob ≤ w.lowBuyLimit
      else w.highSellLimit ≤ Exec.Core.end_ bidSide w.toSob := by
    unfold Exec.Core.end_
    cases bidSide <;> simp
  refine (Moves.sweep h0 cb hF hinv hp hpe hend _ h1 (.refl _)
    (.inl (reached_begin bidSide w.toSob)) le_rfl).bind ?_
  rintro ⟨size', high, low⟩ w2 ⟨h2, hclear⟩
  have hF' : (F.hold id size').Calm := ⟨hF.gap, hF.hit, hF.acting, hF.scan, hF.detached,
    hF.leaving, hF.arriving⟩
  refine (Moves.adjustTrailingStops (.refl (a := (F.hold id size', w2))) hF' w.last high
    low).mono (fun _ _ hq => hq) (fun _ _ he => he.trans h2) |>.bind fun _ w3 h3 => ?_
  refine wp.bind (R := fun _ w' => Moves (F.hold id size', w2) (F.hold id size', w')) ?_
    fun _ w4 h4 => wp_pure ⟨h2.trans h4, fun hne => ?_⟩
  · unfold checkForStops
    refine wp_getSob_bind (wp_ite (fun hneed => ?_) fun _ => wp_pure h3)
    refine ((Moves.lookForTriggeredStops (.refl (a := (F.hold id size', w3))) hF' hneed).mono
      (fun _ _ hq => h3.trans hq) fun _ _ he => (he.trans h3).trans h2)
  · -- what follows the sweep adds no limit order
    have hm4 : Moves c₀ (F.hold id size', w4) := h2.trans h4
    have hmarket : w4.bid ≤ w2.bid ∧ w2.ask ≤ w4.ask := h4.shrinks.bid_le_ask_le
      ((h2.ambient h0).limitInv hF.gap) ((hm4.ambient h0).limitInv hF.gap)
    have := hclear hne
    unfold OnSide at this ⊢
    cases bidSide <;> simp at this ⊢ <;> omega

end Moves
end SimpleOrderbook
