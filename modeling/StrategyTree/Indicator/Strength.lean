import StrategyTree.Indicator.Average
/-!
# Wilder's indicators

The relative strength index, the average true range and the average directional
index. Each averages a daily amount by Wilder's rule: the mean of the first `n`
amounts, and from then on `n - 1` parts of the last average and one part of the
new amount.
-/
namespace StrategyTree.Indicator

variable {α : Type} [Arith α]

/-- Wilder's step from the last average to the next one. -/
def wilder (n : Nat) (average x : α) : α :=
  (average * (Arith.ofNat n - 1) + x) / Arith.ofNat n

/-- The average gain and loss, the sums that seed them, the number of changes since
the last gap, and the last price. -/
structure GainLoss (α : Type) where
  previous : Option α
  changes : Nat
  gainSeed : α
  lossSeed : α
  gain : α
  loss : α

/-- The index of two averages: 100 where nothing was lost. -/
def strengthIndex (gain loss : α) : α :=
  if loss == 0 then 100 else 100 - 100 / (1 + gain / loss)

def GainLoss.change (n : Nat) (s : GainLoss α) (x : α) : GainLoss α × Option α :=
  let gain := Arith.larger x 0
  let loss := Arith.larger (-x) 0
  let changes := s.changes + 1
  if n < changes then
    let gain := wilder n s.gain gain
    let loss := wilder n s.loss loss
    (⟨s.previous, changes, s.gainSeed, s.lossSeed, gain, loss⟩, some (strengthIndex gain loss))
  else
    let gainSeed := s.gainSeed + gain
    let lossSeed := s.lossSeed + loss
    if changes = n then
      let gain := gainSeed / Arith.ofNat n
      let loss := lossSeed / Arith.ofNat n
      (⟨s.previous, changes, gainSeed, lossSeed, gain, loss⟩, some (strengthIndex gain loss))
    else (⟨s.previous, changes, gainSeed, lossSeed, s.gain, s.loss⟩, none)

def strengthMachine (n : Nat) : Machine (GainLoss α) α α where
  start := ⟨none, 0, 0, 0, 0, 0⟩
  step s x :=
    let (next, out) :=
      match s.previous with
      | none => (s, none)
      | some p => s.change n (x - p)
    (⟨some x, next.changes, next.gainSeed, next.lossSeed, next.gain, next.loss⟩, out)

/-- The relative strength index over `n` changes. -/
def relativeStrength (xs : Series α) (n : Nat) : Series α :=
  if n = 0 then .undefined xs.length else (strengthMachine n).run (xs.map Series.usable)

/-- The high, the low and the close of one day. -/
structure Range (α : Type) where
  high : α
  low : α
  close : α

/-- The days on which high, low and close are all present. -/
def ranges : Series α → Series α → Series α → List (Option (Range α))
  | h :: hs, l :: ls, c :: cs =>
      ((Series.usable h).bind fun h => (Series.usable l).bind fun l =>
        (Series.usable c).map fun c => ⟨h, l, c⟩) :: ranges hs ls cs
  | _, _, _ => []

/-- The true range of a day after a day that closed at `close`. -/
def Range.trueRange (r : Range α) (close : α) : α :=
  Arith.larger (Arith.larger (r.high - r.low) (Arith.abs (r.high - close)))
    (Arith.abs (r.low - close))

/-- Answers the true range of each day. The first day after a gap has no earlier close
and takes its own range. -/
def trueRangeMachine : Machine (Option α) (Range α) α where
  start := none
  step previous r :=
    (some r.close, some (match previous with
      | some close => r.trueRange close
      | none => r.high - r.low))

def averageTrueRange (high low close : Series α) (n : Nat) : Series α :=
  if n = 0 then .undefined close.length
  else (seededMachine n (wilder n)).run (trueRangeMachine.run (ranges high low close))

/-- What the directional index remembers: the last day, the smoothed sums of true range
and of the two directional moves, and the sum and average of the index. -/
structure Direction (α : Type) where
  previous : Option (Range α)
  moves : Nat
  range : α
  up : α
  down : α
  indices : Nat
  indexSum : α
  average : α

/-- The two directional moves of a day: of the rise of the high and the fall of the low
only the larger counts, and only if it is positive. -/
def directionalMoves (previous r : Range α) : α × α :=
  let rise := r.high - previous.high
  let fall := previous.low - r.low
  (if fall < rise ∧ 0 < rise then rise else 0, if rise < fall ∧ 0 < fall then fall else 0)

/-- The directional index of the smoothed sums, zero where nothing moved. -/
def directionalIndex (range up down : α) : α :=
  if range ≤ 0 then 0
  else
    let plus := 100 * up / range
    let minus := 100 * down / range
    let total := plus + minus
    if total == 0 then 0 else 100 * Arith.abs (plus - minus) / total

/-- A running sum over `n` days: sums the first `n` amounts and then lets one `n`th fade
for each new amount. -/
def fadingSum (n moves : Nat) (sum x : α) : α :=
  if moves ≤ n then sum + x else sum - sum / Arith.ofNat n + x

def Direction.move (n : Nat) (s : Direction α) (previous r : Range α) : Direction α × Option α :=
  let (plus, minus) := directionalMoves previous r
  let moves := s.moves + 1
  let range := fadingSum n moves s.range (r.trueRange previous.close)
  let up := fadingSum n moves s.up plus
  let down := fadingSum n moves s.down minus
  let next : Direction α := { s with moves, range, up, down }
  if moves < n then (next, none)
  else
    let index := directionalIndex range up down
    let indices := s.indices + 1
    if n < indices then
      let average := wilder n s.average index
      ({ next with indices, average }, some average)
    else
      let indexSum := s.indexSum + index
      if indices = n then
        let average := indexSum / Arith.ofNat n
        ({ next with indices, indexSum, average }, some average)
      else ({ next with indices, indexSum }, none)

def directionMachine (n : Nat) : Machine (Direction α) (Range α) α where
  start := ⟨none, 0, 0, 0, 0, 0, 0, 0⟩
  step s r :=
    let (next, out) :=
      match s.previous with
      | none => (s, none)
      | some p => s.move n p r
    ({ next with previous := some r }, out)

def averageDirection (high low close : Series α) (n : Nat) : Series α :=
  if n = 0 then .undefined close.length else (directionMachine n).run (ranges high low close)

end StrategyTree.Indicator
