import StyleTokens.Decimal.Shortest
import StyleTokens.Message

/-!
# Timing

The durations of a stage, measured in milliseconds: their sum, their number, and the longest one
with its label.

## Main definitions

* `Timing`: the durations of a stage
* `Timing.record`: one more duration
* `Timing.report`: the line that sums them up
-/

namespace StyleTokens

/-- The durations of a stage, in milliseconds. -/
structure Timing where
  stage : Text
  total : Float := 0
  count : Nat := 0
  longest : Float := 0
  /-- The label of the longest duration. -/
  slowest : Text := []

namespace Timing

/-- The timing with one more duration; of equal durations the last one is the longest. -/
def record (timing : Timing) (duration : Float) (label : Text) : Timing :=
  let timing := { timing with total := timing.total + duration, count := timing.count + 1 }
  if timing.longest ≤ duration then { timing with longest := duration, slowest := label }
  else timing

/-- The mean duration. -/
def average (timing : Timing) : Float :=
  if timing.count = 0 then 0 else timing.total / Float.ofNat timing.count

/-- A duration with two places, and with no more digits than needed. -/
def duration (x : Float) : Text :=
  Decimal.shortest (Decimal.roundTwo x)

/-- The line that sums up the timing. -/
def report (timing : Timing) : Message where
  head := "DEBUG: ".toList ++ timing.stage ++ ": ".toList ++ Text.ofNat timing.count ++
    " items in ".toList
  circumstance := some (.duration
    (duration timing.total ++ "ms (avg ".toList ++ duration timing.average ++ "ms, max ".toList ++
      duration timing.longest ++ "ms ".toList ++ timing.slowest ++ [')']))

end Timing

end StyleTokens
