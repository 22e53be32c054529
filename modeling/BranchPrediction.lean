import BranchPrediction.Library.ArrayLoops
import BranchPrediction.Library.BlockBuffer
import BranchPrediction.Library.CyclicFold
import BranchPrediction.Library.FiniteRank
import BranchPrediction.Library.FoldRun
import BranchPrediction.Library.ForwardCode
import BranchPrediction.Library.Interleaving
import BranchPrediction.Library.LinkedChain
import BranchPrediction.Library.SaturatingCounter
import BranchPrediction.Library.CounterTable
import BranchPrediction.Library.StateSteps
import BranchPrediction.Library.TableSum
import BranchPrediction.Library.WordStream
import BranchPrediction.Tage.State
import BranchPrediction.Tage.History
import BranchPrediction.Tage.GetPrediction
import BranchPrediction.Tage.UpdatePredictor
import BranchPrediction.Tage.Run
import BranchPrediction.Tage.Allocation
import BranchPrediction.Tage.HistoryWindows
import BranchPrediction.Tage.HistoryFold
import BranchPrediction.Tage.GlobalHistory
import BranchPrediction.Tage.Invariant
import BranchPrediction.Tage.Choice
import BranchPrediction.Tage.Locality
import BranchPrediction.Tage.AllocationChoice
import BranchPrediction.Tage.AltBetterCount
import BranchPrediction.Tage.UsefulReset
import BranchPrediction.Tage.Mispredictions
import BranchPrediction.Tage.Aliasing
import BranchPrediction.Bimodal.Branch
import BranchPrediction.Bimodal.CallHistory
import BranchPrediction.Bimodal.Buckets
import BranchPrediction.Bimodal.PerBranch
import BranchPrediction.Bimodal.TableLength
import BranchPrediction.Bimodal.MistakeBound
import BranchPrediction.SharedMemory.Shared
import BranchPrediction.SharedMemory.Printer
import BranchPrediction.SharedMemory.Server
import BranchPrediction.SharedMemory.System
import BranchPrediction.SharedMemory.Assertions
import BranchPrediction.SharedMemory.ClientSteps
import BranchPrediction.SharedMemory.ServerSteps
import BranchPrediction.SharedMemory.Coherence
import BranchPrediction.SharedMemory.FullMemory
import BranchPrediction.SharedMemory.FullWait
import BranchPrediction.SharedMemory.Blocking
import BranchPrediction.SharedMemory.Delivery
import BranchPrediction.SharedMemory.EmulatedClient
import BranchPrediction.SharedMemory.Statistics
import BranchPrediction.SharedMemory.LostCalls
import BranchPrediction.SharedMemory.Simulation
import BranchPrediction.SharedMemory.Progress
import BranchPrediction.Translator.Tcg
import BranchPrediction.Translator.Translate
import BranchPrediction.Translator.Emission
import BranchPrediction.Translator.Branches
import BranchPrediction.Translator.OwnAddress
import BranchPrediction.Translator.ControlFlow
import BranchPrediction.Translator.Block
import BranchPrediction.Translator.Frame
import BranchPrediction.Translator.Guest
import BranchPrediction.Translator.MoveImmediate
import BranchPrediction.Translator.BlockSize
import BranchPrediction.Translator.GuestRun
import BranchPrediction.TraceFile.Helper
import BranchPrediction.TraceFile.Reader
import BranchPrediction.TraceFile.RoundTrip
import BranchPrediction.TraceFile.Programs
import BranchPrediction.TraceFile.Dumper
import BranchPrediction.Championship.Simulator
import BranchPrediction.Championship.Gshare
import BranchPrediction.Pipelines
