import PressPath.Text.Blank
import PressPath.Text.Lines
import PressPath.Text.Location
import PressPath.Grammar.Expr
import PressPath.Grammar.Rules
import PressPath.Decimal.Binary
import PressPath.Decimal.Shortest
import PressPath.Decimal.Numeral
import PressPath.Decimal.Reader
import PressPath.Source.Command
import PressPath.Source.Listing
import PressPath.Pose
import PressPath.Statement
import PressPath.Motion
import PressPath.Fault
import PressPath.Journal
import PressPath.Sequencer
import PressPath.Identifier
import PressPath.Draft
import PressPath.Job
import PressPath.FileSystem
import PressPath.CommandLine.Arguments
import PressPath.CommandLine.Session
import PressPath.Main
import PressPath.Proofs.Feeding
import PressPath.Proofs.History
import PressPath.Proofs.PressBlocks
import PressPath.Proofs.Pieces
import PressPath.Proofs.OneLine
import PressPath.Proofs.Legible
import PressPath.Proofs.Assembly
import PressPath.Proofs.Frame
import PressPath.Proofs.Readback
import PressPath.Proofs.Tokens
import PressPath.Proofs.Trimming
import PressPath.Proofs.Reading
import PressPath.Proofs.Location
import PressPath.Proofs.Restart
import PressPath.Proofs.Insertion
import PressPath.Proofs.NormalForm
import PressPath.Proofs.Places
import PressPath.Proofs.Layout
import PressPath.Proofs.Batch
import PressPath.Proofs.Storing
import PressPath.Proofs.Arguments
import PressPath.Proofs.Outcome
import PressPath.Proofs.LineReader
import PressPath.Proofs.ModuleName
import PressPath.Proofs.ProcedureNames
import PressPath.Proofs.SafeName
import PressPath.Proofs.ByteOrder
import PressPath.Proofs.SortedRuns
import PressPath.Proofs.PoseReading
import PressPath.Proofs.Extension
import PressPath.Proofs.Rejection
import PressPath.Proofs.Drafting
import PressPath.Proofs.Accounting
import PressPath.Proofs.Coherence
import PressPath.Proofs.Derivation
import PressPath.Proofs.Tiling
