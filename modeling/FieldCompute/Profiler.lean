import FieldCompute.Log
import FieldCompute.Misuse
import FieldCompute.Table
/-!
# The kernel profiler

Durations of kernel launches by kernel name, in whole nanoseconds. One measurement can be under way
at a time: a start drops the one before it, a stop without a start does nothing, and both warn.
-/

namespace FieldCompute

/-- Durations of one kernel, summed up. `average` is rounded down. -/
structure ProfileStats where
  count : Nat
  min : Nat
  max : Nat
  average : Nat
deriving DecidableEq, Repr

/-- The kernel being measured, and the durations of every kernel, the oldest first. -/
structure Profiler where
  running : Option String
  runs : Table String (List Nat)
deriving Repr

namespace Profiler

def empty : Profiler := ⟨none, .empty⟩

/-- The first sum of durations that is no duration: `2 ^ 64` seconds. -/
def durationBound : Nat := 2 ^ 64 * 1000000000

/-- A duration is divided by a number of 32 bits: the low ones of a count. -/
def divisor (count : Nat) : Nat := count % 2 ^ 32

def durations (p : Profiler) (name : String) : List Nat := (p.runs.find? name).getD []

def record (p : Profiler) (name : String) (elapsed : Nat) : Profiler :=
  { p with runs := p.runs.insert name (p.durations name ++ [elapsed]) }

/-- Begins to measure a launch. -/
def start (p : Profiler) (name : String) : Profiler × List Event :=
  ({ p with running := some name }, p.running.toList.map .startWithoutStop)

/-- Ends the measurement begun last, after `elapsed`. -/
def stop (p : Profiler) (elapsed : Nat) : Profiler × List Event :=
  match p.running with
  | some name => ({ p with running := none }.record name elapsed, [])
  | none => (p, [.stopWithoutStart])

/-- The statistics of a kernel, all zero if it was never measured. -/
def query (p : Profiler) (name : String) : Except Misuse ProfileStats :=
  match p.durations name with
  | [] => pure ⟨0, 0, 0, 0⟩
  | d :: ds =>
    let total := (d :: ds).sum
    let count := ds.length + 1
    if durationBound ≤ total then throw .durationOverflow
    else if divisor count = 0 then throw .zeroDivisor
    else pure ⟨count, ds.foldl Nat.min d, ds.foldl Nat.max d, total / divisor count⟩

def clear (_ : Profiler) : Profiler := empty

/-- The names of all measured kernels, sorted. -/
def kernels (p : Profiler) : List String := p.runs.keys.mergeSort (· ≤ ·)

end Profiler

end FieldCompute
