import StackLang.CommandLine.Command
import StackLang.Machine.Unbounded
import StackLang.Main
import StackLang.Meaning
import StackLang.Proofs.Grammar
import StackLang.Proofs.Reading
import StackLang.Proofs.Derivation
import StackLang.Proofs.ParseExpr
import StackLang.Proofs.ParseStmt
import StackLang.Proofs.ParseProgram
import StackLang.Proofs.NestingBound
import StackLang.Proofs.Lookahead
import StackLang.Proofs.Interruption
import StackLang.Proofs.Code
import StackLang.Proofs.Generation
import StackLang.Proofs.Placement
import StackLang.Proofs.Activation
import StackLang.Proofs.IntegerBits
import StackLang.Proofs.Arithmetic
import StackLang.Proofs.ExprRun
import StackLang.Proofs.StmtRun
import StackLang.Proofs.RoutineRun
import StackLang.Proofs.Decimal
import StackLang.Proofs.ListingOperand
import StackLang.Proofs.ListingLine
import StackLang.Proofs.ListingRead
import StackLang.Proofs.ListingShape
import StackLang.Proofs.CodeLabels
import StackLang.Proofs.CodeText
import StackLang.Proofs.RoundTrip
import StackLang.Proofs.Source
import StackLang.Proofs.Compiled
import StackLang.Proofs.Correctness
import StackLang.Proofs.Boundaries
import StackLang.Proofs.StackDiscipline
import StackLang.Proofs.CompileFaults
import StackLang.Proofs.Effects
import StackLang.Proofs.StepCount
import StackLang.Proofs.MachineFaults
import StackLang.Proofs.Sessions
import StackLang.Proofs.Masks
import StackLang.Proofs.Representation
import StackLang.Proofs.Refinement
import StackLang.Proofs.Independence
import StackLang.Proofs.Lockstep
import StackLang.Proofs.Cuts
import StackLang.Proofs.Tiling
import StackLang.Proofs.FirstError
import StackLang.Proofs.CommandOutput
import StackLang.Proofs.SlotOrder
import StackLang.Proofs.StepLimit
import StackLang.Proofs.ExprContract
import StackLang.Proofs.Nodes
import StackLang.Proofs.FirstOffence
import StackLang.Proofs.Rescan
import StackLang.Proofs.SoleExpression
import StackLang.Proofs.ExprText
import StackLang.Proofs.Unplaced
import StackLang.Proofs.SlotUse
import StackLang.Proofs.TreeText
import StackLang.Proofs.CanonicalListing
import StackLang.Proofs.OperandValue
import StackLang.Proofs.Comparison
import StackLang.Proofs.Segmentation
import StackLang.Proofs.Relayout
import StackLang.Proofs.Relocation
import StackLang.Proofs.Concatenation
import StackLang.Proofs.EntryNames
import StackLang.Proofs.Literals
import StackLang.Proofs.Quotation
import StackLang.Proofs.QuotedLines
import StackLang.Proofs.SlotHistory
import StackLang.Proofs.OwnTokens
import StackLang.Proofs.Descent
import StackLang.Proofs.MnemonicColumn
