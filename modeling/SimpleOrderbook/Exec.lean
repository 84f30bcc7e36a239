import SimpleOrderbook.State

/-!
# Execution helpers

`exec::core`, `exec::aon`, `exec::limit` and `exec::stop` of `specials.tpp`. The source writes each
twice, for the two sides; here the side is a parameter and both bodies stand next to each other.
-/
namespace SimpleOrderbook
namespace Exec

/-! ## `exec::core`: the best price of a side, over limit and AON chains -/

namespace Core

def begin_ (bidSide : Bool) (s : Sob) : Nat :=
  if bidSide then max s.bid s.highBuyAon else min s.ask s.lowSellAon

def end_ (bidSide : Bool) (s : Sob) : Nat :=
  if bidSide then min s.lowBuyLimit s.lowBuyAon else max s.highSellLimit s.highSellAon

def insideOf (bidSide : Bool) (p p2 : Nat) : Bool :=
  if bidSide then decide (p ≥ p2) else decide (p ≤ p2)

def next (bidSide : Bool) (p : Nat) : Nat :=
  if bidSide then p - 1 else p + 1

def nextOrJump (bidSide : Bool) (s : Sob) (p : Nat) : Nat :=
  if bidSide then min (next true p) (begin_ true s) else max (next false p) (begin_ false s)

def isTradable (bidSide : Bool) (s : Sob) (p : Nat) : Bool :=
  if bidSide then decide (p ≤ begin_ true s) else decide (p ≥ begin_ false s)

/-- The number of levels from `p` through `plev`, for as long as `p` is inside of `plev`. -/
def distance (bidSide : Bool) (p plev : Nat) : Nat :=
  if bidSide then p + 1 - plev else plev + 1 - p

/-- The levels a scan from the best price through `plev` visits. -/
def levels (bidSide : Bool) (s : Sob) (plev : Nat) : List Nat :=
  (List.range (distance bidSide (begin_ bidSide s) plev)).map fun i =>
    if bidSide then begin_ true s - i else begin_ false s + i

/-- The loop of `_jump_to_nonempty_chain` on `_bid`. -/
def jumpDown (s : Sob) : Nat → Nat
  | 0 => 0
  | p + 1 => if (s.limits (p + 1)).empty then jumpDown s p else p + 1

/-- The loop of `_jump_to_nonempty_chain` on `_ask`, `n` levels below `_end`. -/
def jumpUp (s : Sob) : (n : Nat) → Nat → Nat
  | 0, p => p
  | n + 1, p => if (s.limits p).empty then jumpUp s n (p + 1) else p

def jumpToNonemptyChain (bidSide : Bool) (s : Sob) : Sob :=
  if bidSide then { s with bid := jumpDown s s.bid }
  else { s with ask := jumpUp s (s.end_ - s.ask) s.ask }

def findNewBestInside (bidSide : Bool) (s : Sob) : Sob :=
  let s := jumpToNonemptyChain bidSide s
  if bidSide then
    if s.bid < beg then { s with lowBuyLimit := s.end_ }
    else if s.bid < s.lowBuyLimit then { s with lowBuyLimit := s.bid } else s
  else
    if s.ask ≥ s.end_ then { s with highSellLimit := beg - 1 }
    else if s.ask > s.highSellLimit then { s with highSellLimit := s.ask } else s

end Core

/-! ## `exec::aon`: the windows of the AON chains -/

namespace Aon

def inWindow (bidSide : Bool) (s : Sob) (p : Nat) : Bool :=
  if bidSide then decide (p ≥ s.lowBuyAon ∧ p ≤ s.highBuyAon)
  else decide (p ≤ s.highSellAon ∧ p ≥ s.lowSellAon)

/-- `for( ; p >= low && chain(p).empty(); --p )`. -/
def scanDown (s : Sob) (buys : Bool) (low : Nat) : Nat → Nat
  | 0 => 0
  | p + 1 => if p + 1 ≥ low ∧ (s.aons buys (p + 1)).empty then scanDown s buys low p else p + 1

/-- `for( ; p <= high && chain(p).empty(); ++p )`, `n` levels below `high + 1`. -/
def scanUp (s : Sob) (buys : Bool) : (n : Nat) → Nat → Nat
  | 0, p => p
  | n + 1, p => if (s.aons buys p).empty then scanUp s buys n (p + 1) else p

def adjustStateAfterPull (bidSide : Bool) (s : Sob) (p : Nat) : Sob :=
  if bidSide then
    let s :=
      if p = s.highBuyAon then { s with highBuyAon := scanDown s true s.lowBuyAon s.highBuyAon }
      -- the source bounds this scan by `_high_sell_aon`
      else if p = s.lowBuyAon then
        { s with lowBuyAon := scanUp s true (s.highSellAon + 1 - s.lowBuyAon) s.lowBuyAon }
      else s
    if s.highBuyAon < s.lowBuyAon then { s with highBuyAon := beg - 1, lowBuyAon := s.end_ } else s
  else
    let s :=
      if p = s.lowSellAon then
        { s with lowSellAon := scanUp s false (s.highSellAon + 1 - s.lowSellAon) s.lowSellAon }
      else if p = s.highSellAon then
        { s with highSellAon := scanDown s false s.lowSellAon s.highSellAon }
      else s
    if s.lowSellAon > s.highSellAon then { s with lowSellAon := s.end_, highSellAon := beg - 1 }
    else s

def adjustStateAfterInsert (bidSide : Bool) (s : Sob) (p : Nat) : Sob :=
  if bidSide then
    { s with highBuyAon := max p s.highBuyAon, lowBuyAon := min p s.lowBuyAon }
  else
    { s with lowSellAon := min p s.lowSellAon, highSellAon := max p s.highSellAon }

/-- The AONs of a side at `p` and inside, nearest level first. -/
def overlapping (bidSide : Bool) (s : Sob) (p : Nat) : List (Nat × AonBndl) :=
  let ps := (List.range (distance bidSide s p)).map fun i => if bidSide then p + i else p - i
  ps.flatMap fun q => ((s.aons bidSide q).elems).map fun b => (q, b)
where
  distance (bidSide : Bool) (s : Sob) (p : Nat) : Nat :=
    if bidSide then s.highBuyAon + 1 - p else p + 1 - s.lowSellAon

end Aon

/-! ## `exec::limit`: the best price and the far bound of a side's limit chains -/

namespace Limit

def inWindow (bidSide : Bool) (s : Sob) (p : Nat) : Bool :=
  if bidSide then decide (p ≤ s.bid ∧ p ≥ s.lowBuyLimit)
  else decide (p ≥ s.ask ∧ p ≤ s.highSellLimit)

def isTradable (bidSide : Bool) (s : Sob) (p : Nat) : Bool :=
  if bidSide then decide (p ≤ s.bid) else decide (p ≥ s.ask)

/-- Called when the last order of level `p` was pulled. -/
def adjustStateAfterPull (bidSide : Bool) (s : Sob) (p : Nat) : Sob :=
  if bidSide then
    let s := if p = s.lowBuyLimit then { s with lowBuyLimit := s.lowBuyLimit + 1 } else s
    if p = s.bid then Core.findNewBestInside true s else s
  else
    let s := if p = s.highSellLimit then { s with highSellLimit := s.highSellLimit - 1 } else s
    if p = s.ask then Core.findNewBestInside false s else s

def adjustStateAfterInsert (bidSide : Bool) (s : Sob) (p : Nat) : Sob :=
  if bidSide then
    { s with bid := max p s.bid, lowBuyLimit := min p s.lowBuyLimit }
  else
    { s with ask := min p s.ask, highSellLimit := max p s.highSellLimit }

end Limit

/-! ## `exec::stop`: the windows of the stop chains -/

namespace Stop

/-- Called when the last order of level `p` was pulled. -/
def adjustStateAfterPull (buyStop : Bool) (s : Sob) (p : Nat) : Sob :=
  if buyStop then
    if s.highBuyStop = s.lowBuyStop then { s with highBuyStop := beg - 1, lowBuyStop := s.end_ }
    else if p = s.highBuyStop then { s with highBuyStop := s.highBuyStop - 1 }
    else if p = s.lowBuyStop then { s with lowBuyStop := s.lowBuyStop + 1 }
    else s
  else
    if s.highSellStop = s.lowSellStop then
      { s with highSellStop := beg - 1, lowSellStop := s.end_ }
    else if p = s.highSellStop then { s with highSellStop := s.highSellStop - 1 }
    else if p = s.lowSellStop then { s with lowSellStop := s.lowSellStop + 1 }
    else s

def adjustStateAfterInsert (buyStop : Bool) (s : Sob) (p : Nat) : Sob :=
  if buyStop then
    { s with lowBuyStop := min p s.lowBuyStop, highBuyStop := max p s.highBuyStop }
  else
    { s with highSellStop := max p s.highSellStop, lowSellStop := min p s.lowSellStop }

def adjustStateAfterTrigger (buyStop : Bool) (s : Sob) (p : Nat) : Sob :=
  if buyStop then
    if p + 1 > s.highBuyStop then { s with lowBuyStop := s.end_, highBuyStop := beg - 1 }
    else { s with lowBuyStop := p + 1 }
  else
    if p - 1 < s.lowSellStop then { s with highSellStop := beg - 1, lowSellStop := s.end_ }
    else { s with highSellStop := p - 1 }

end Stop
end Exec
end SimpleOrderbook
