import FieldCompute.AotModule.Text
import FieldCompute.Host
import FieldCompute.Proofs.Block.Defects
import FieldCompute.Proofs.Block.Survivors
import FieldCompute.Proofs.Block.Text
import FieldCompute.Proofs.Device.Contents
import FieldCompute.Proofs.Device.Counters
import FieldCompute.Proofs.Device.Draining
import FieldCompute.Proofs.Device.FreeLists
import FieldCompute.Proofs.Device.Limits
import FieldCompute.Proofs.Device.PoolRuns
import FieldCompute.Proofs.Device.SharedRuns
import FieldCompute.Proofs.Device.Takings
import FieldCompute.Proofs.Host.Ending
import FieldCompute.Proofs.Host.Isolation
import FieldCompute.Proofs.Launch.DeadCode
import FieldCompute.Proofs.Launch.Drafts
import FieldCompute.Proofs.Overlay
import FieldCompute.Proofs.Profiler
import FieldCompute.Proofs.Program.AccessorCache
import FieldCompute.Proofs.Program.Admission
import FieldCompute.Proofs.Program.Arrays
import FieldCompute.Proofs.Program.Attempts
import FieldCompute.Proofs.Program.ConstantFolding
import FieldCompute.Proofs.Program.Demands
import FieldCompute.Proofs.Program.Displaced
import FieldCompute.Proofs.Program.EvaluatorCache
import FieldCompute.Proofs.Program.Faults
import FieldCompute.Proofs.Program.FieldStorage
import FieldCompute.Proofs.Program.Finalized
import FieldCompute.Proofs.Program.Finalizing
import FieldCompute.Proofs.Program.InStep
import FieldCompute.Proofs.Program.LaunchSafety
import FieldCompute.Proofs.Program.ModuleFields
import FieldCompute.Proofs.Program.OutOfBounds
import FieldCompute.Proofs.Program.RejectedTrees
import FieldCompute.Proofs.Program.Takings
import FieldCompute.Proofs.Program.Twins
import FieldCompute.Proofs.Program.Types
import FieldCompute.Proofs.Size
import FieldCompute.Proofs.Tree.Addresses
import FieldCompute.Proofs.Tree.Circulation
import FieldCompute.Proofs.Tree.Fitting
import FieldCompute.Proofs.Tree.RowMajor
import FieldCompute.Proofs.Value.Division
import FieldCompute.Proofs.Value.FloatCasts
import FieldCompute.Proofs.Value.IntegerCasts
import FieldCompute.Proofs.Value.IntegerOrder
import FieldCompute.Proofs.Value.Shifts
import FieldCompute.Proofs.Value.Words
