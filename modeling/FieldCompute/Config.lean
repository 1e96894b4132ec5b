import FieldCompute.Arch
import FieldCompute.Size
import FieldCompute.Table
/-!
# Configuration

The settings for compiling and running kernels, and the overlay that gives every thread settings of
its own: a thread starts with a copy of the main thread's settings at the moment it first asks, and
from then on only its own updates count.
-/

namespace FieldCompute

structure Config where
  arch : Arch := .host
  /-- Checks in compiled kernels. -/
  debug : Bool := false
  /-- Optimizing passes while lowering. -/
  advancedOptimization : Bool := true
  /-- Launches are timed. -/
  kernelProfiler : Bool := false
  /-- The lowered body of every compiled kernel is logged. -/
  printIr : Bool := false
  cpuBlockDim : Nat := 32
  gpuBlockDim : Nat := 128
  /-- An access outside a field is a fault of the runtime and not an error of the launch. -/
  checkOutOfBound : Bool := false
  /-- The device memory limit in MiB; zero is no limit. -/
  deviceMemoryMb : Nat := 0
deriving DecidableEq, Repr

namespace Config

instance : Inhabited Config := ⟨{}⟩

/-- The block dimension for kernels that do not choose one. -/
def blockDim (c : Config) : Nat := if c.arch.isCpu then c.cpuBlockDim else c.gpuBlockDim

/-- The memory limit in bytes. What a 64-bit number cannot hold of it is lost. -/
def memoryLimit? (c : Config) : Option Nat :=
  if c.deviceMemoryMb = 0 then none else some (c.deviceMemoryMb * 2 ^ 20 % 2 ^ 64)

/-- Kernels compiled under these settings report accesses outside a field as faults. -/
def checksBounds (c : Config) : Bool := c.debug || c.checkOutOfBound

/-- The settings that a list of environment variables asks for. A switch is on when its variable is
there, whatever it holds; an unknown architecture means the host. -/
def ofEnvironment (env : List (String × String)) : Config :=
  let isSet (name : String) := (env.lookup name).isSome
  let debug := isSet "TESSEL_DEBUG"
  { arch := ((env.lookup "TESSEL_ARCH").bind Arch.parse?).getD .host
    debug
    checkOutOfBound := debug
    advancedOptimization := !isSet "TESSEL_NO_ADVANCED_OPT"
    kernelProfiler := isSet "TESSEL_KERNEL_PROFILER"
    printIr := isSet "TESSEL_PRINT_IR" }

end Config

/-- Threads are told apart by a number. -/
abbrev Thread := Nat

/-- The settings of every thread that has asked for them. -/
structure Overlay where
  main : Thread
  configs : Table Thread Config
deriving Repr

namespace Overlay

/-- The thread that makes the overlay is its main thread. -/
def create (thread : Thread) (c : Config) : Overlay := ⟨thread, Table.empty.insert thread c⟩

/-- A thread's settings, if it has any. -/
def configOf? (o : Overlay) (thread : Thread) : Option Config := o.configs.find? thread

def mainConfig (o : Overlay) : Config := (o.configOf? o.main).getD {}

/-- A thread's settings; the first time they are copied from the main thread's. -/
def thisThread (o : Overlay) (thread : Thread) : Config × Overlay :=
  match o.configOf? thread with
  | some c => (c, o)
  | none => (o.mainConfig, { o with configs := o.configs.insert thread o.mainConfig })

/-- Changes a thread's settings and gives the ones before. -/
def update (o : Overlay) (thread : Thread) (change : Config → Config) : Config × Overlay :=
  let (c, o) := o.thisThread thread
  (c, { o with configs := o.configs.insert thread (change c) })

def numThreads (o : Overlay) : Nat := o.configs.size

end Overlay

end FieldCompute
