import StrategyTree.Allocation
import StrategyTree.Strategy.Basic
/-!
# Weighting of slots

The allocations of the nodes in a slot are spread by shares into one allocation.
A weighting by volatility then rescales the tickers without changing the total,
and a cap moves what lies above it to a fallback or to cash.
-/
namespace StrategyTree

variable {α : Type} [Arith α]

namespace Allocation

/-- Multiplies each weight by `factor` of the ticker's deviation and restores the total. If
the deviation of any ticker is undefined or not positive, nothing changes. -/
def scaleByVolatility (a : Allocation α) (sigma : String → Option α) (factor : α → α) :
    Allocation α :=
  let invested := a.total
  if invested ≤ 0 then a
  else if a.keys.all fun t => (sigma t).any (0 < ·) then
    let scaled : Allocation α := a.map fun t w => w * factor ((sigma t).getD 0)
    let ratio := invested / scaled.total
    scaled.map fun _ w => w * ratio
  else a

/-- Whether a weight of this ticker lies above the cap. The fallback has no cap. -/
def exceeds (cap : α) (fallback : Option String) (ticker : String) (w : α) : Bool :=
  cap < w && fallback != some ticker

/-- What lies above the cap in all. -/
def excess (a : Allocation α) (cap : α) (fallback : Option String) : α :=
  a.entries.foldl (fun x e => if exceeds cap fallback e.1 e.2 then x + (e.2 - cap) else x) 0

/-- Clips every weight at the cap and gives the excess to the fallback. Without one, or with
cash for one, the excess is cash. -/
def capped (a : Allocation α) (cap : α) (fallback : Option String) : Allocation α :=
  let fallback := fallback.filter (· ≠ cashTicker)
  let clipped : Allocation α := a.map fun t w => if exceeds cap fallback t w then cap else w
  let excess := a.excess cap fallback
  match fallback with
  | some ticker => if 0 < excess then clipped.add ticker excess else clipped
  | none => clipped

end Allocation

namespace Weighting

/-- The indicator that a weighting reads for every ticker, if it reads one. -/
def volatilityIndicator (w : Weighting α) : Except Failure (Option Indicator) :=
  match w with
  | .inverseVolatility window | .volatility window =>
      some <$> Indicator.resolve .stdDevReturn window
  | _ => .ok none

/-- The shares of children, each given by its place in the slot. Specified weights count in
proportion, negative and missing ones as zero; if none is positive the shares are equal. -/
def shares (w : Weighting α) (places : List Nat) : List α :=
  let equal := List.replicate places.length (1 / Arith.ofNat places.length)
  match w with
  | .specified weights =>
      let raw := places.map fun i => Arith.larger (weights[i]?.getD 0) 0
      let sum := Arith.sum raw
      if 0 < sum then raw.map (· / sum) else equal
  | _ => equal

/-- Spreads the children's allocations by their shares. Without children the slot is
pruned. -/
def spread (w : Weighting α) (children : List (Nat × Allocation α)) : Option (Allocation α) :=
  if children.isEmpty then none
  else
    some (((children.map Prod.snd).zip (w.shares (children.map Prod.fst))).foldl
      (fun t p => t.addScaled p.1 p.2) .empty)

/-- What a weighting does to the spread allocation. -/
def adjust (w : Weighting α) (sigma : String → Option α) (a : Allocation α) : Allocation α :=
  match w with
  | .inverseVolatility _ => a.scaleByVolatility sigma Arith.reciprocal
  | .volatility _ => a.scaleByVolatility sigma fun s => s
  | .capped cap fallback => a.capped cap fallback
  | .equal | .specified _ => a

def combine (w : Weighting α) (children : List (Nat × Allocation α))
    (sigma : String → Option α) : Option (Allocation α) :=
  (w.spread children).map (w.adjust sigma)

end Weighting
end StrategyTree
