import Lc3.Main
import Lc3.Session
import Lc3.Proofs.AddressSyntax
import Lc3.Proofs.BinaryCodec
import Lc3.Proofs.BinaryNumbers
import Lc3.Proofs.Bits
import Lc3.Proofs.CheckedEngine
import Lc3.Proofs.Culprits
import Lc3.Proofs.Dumps
import Lc3.Proofs.Escapes
import Lc3.Proofs.FieldArithmetic
import Lc3.Proofs.ImageGrammar
import Lc3.Proofs.InstructionTable
import Lc3.Proofs.Layouts
import Lc3.Proofs.Lifecycle
import Lc3.Proofs.LimitedRuns
import Lc3.Proofs.LineScanner
import Lc3.Proofs.Lockstep
import Lc3.Proofs.LosslessDumps
import Lc3.Proofs.MemoryWrites
import Lc3.Proofs.MinimalReport
import Lc3.Proofs.Modes
import Lc3.Proofs.NumeralSyntax
import Lc3.Proofs.Numerals
import Lc3.Proofs.Outcomes
import Lc3.Proofs.Placement
import Lc3.Proofs.Preconditions
import Lc3.Proofs.RegisterWrites
import Lc3.Proofs.Relocation
import Lc3.Proofs.Resumption
import Lc3.Proofs.Runs
import Lc3.Proofs.SignificantBits
import Lc3.Proofs.SourceLines
import Lc3.Proofs.StagedFailure
import Lc3.Proofs.StartState
import Lc3.Proofs.Stopped
import Lc3.Proofs.Stripping
import Lc3.Proofs.TextStore
import Lc3.Proofs.Traces
import Lc3.Proofs.Transactions
import Lc3.Proofs.Transcripts
import Lc3.Proofs.UnreadMemory
