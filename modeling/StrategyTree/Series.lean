import StrategyTree.Arith
/-!
# Daily series

A series has one entry a day, absent where the day has no value. Indicators read
a series from the left with a machine that keeps a state between days and goes
back to its start at a gap, so that what follows a gap depends on nothing before it.
-/
namespace StrategyTree

/-- One entry a day; `none` where the day has no value. -/
abbrev Series (α : Type) := List (Option α)

namespace Series

variable {α : Type}

/-- The entry on `day`, absent past the end. -/
def at? (xs : Series α) (day : Nat) : Option α :=
  xs[day]?.join

/-- The series of `length` days without a value. -/
def undefined (length : Nat) : Series α :=
  List.replicate length none

/-- The series as it stood `lag` days earlier, absent on the first `lag` days. -/
def delayed (lag : Nat) (xs : Series α) : Series α :=
  List.replicate (min lag xs.length) none ++ xs.take (xs.length - lag)

/-- An entry is usable if it is a finite number. -/
def usable [Arith α] (x : Option α) : Option α :=
  x.filter Arith.isFinite

end Series

/-- A device that reads one value a day, keeps a state, and may answer. -/
structure Machine (σ ι ο : Type) where
  start : σ
  step : σ → ι → σ × Option ο

namespace Machine

variable {σ ι ο : Type}

/-- Reads a list from state `s`. A gap answers nothing and restarts the machine. -/
def runFrom (m : Machine σ ι ο) : σ → List (Option ι) → List (Option ο)
  | _, [] => []
  | _, none :: rest => none :: m.runFrom m.start rest
  | s, some x :: rest => (m.step s x).2 :: m.runFrom (m.step s x).1 rest

def run (m : Machine σ ι ο) (xs : List (Option ι)) : List (Option ο) :=
  m.runFrom m.start xs

@[simp] theorem length_runFrom (m : Machine σ ι ο) (s : σ) (xs : List (Option ι)) :
    (m.runFrom s xs).length = xs.length := by
  fun_induction m.runFrom s xs <;> simp_all

@[simp] theorem length_run (m : Machine σ ι ο) (xs : List (Option ι)) :
    (m.run xs).length = xs.length :=
  m.length_runFrom m.start xs

end Machine
end StrategyTree
