import Abacus.Binary
import Abacus.CommandLine
import Abacus.Decimal.Arithmetic
import Abacus.Decimal.Basic
import Abacus.Decimal.Display
import Abacus.Decimal.Numeral
import Abacus.Decimal.Rounding
import Abacus.Diagnostic
import Abacus.Enclosure.Basic
import Abacus.Enclosure.Elementary
import Abacus.Enclosure.Series
import Abacus.Main
import Abacus.Numeric.Checked
import Abacus.Numeric.Logarithm
import Abacus.Numeric.Power
import Abacus.Numeric.Trigonometry
import Abacus.Prompt
import Abacus.Proofs.Decimal.Accuracy
import Abacus.Proofs.Decimal.Canonical
import Abacus.Proofs.Decimal.Nearest
import Abacus.Proofs.Decimal.Plain
import Abacus.Proofs.Decimal.Range
import Abacus.Proofs.Decimal.Value
import Abacus.Proofs.Derivation.Acceptance
import Abacus.Proofs.Derivation.Balance
import Abacus.Proofs.Derivation.Basic
import Abacus.Proofs.Derivation.Concatenation
import Abacus.Proofs.Derivation.Expectation
import Abacus.Proofs.Derivation.Expressions
import Abacus.Proofs.Derivation.FirstFault
import Abacus.Proofs.Derivation.Lookahead
import Abacus.Proofs.Derivation.Occurrence
import Abacus.Proofs.Derivation.Positions
import Abacus.Proofs.Derivation.Progress
import Abacus.Proofs.Derivation.Recognition
import Abacus.Proofs.Derivation.Relocation
import Abacus.Proofs.Derivation.Seam
import Abacus.Proofs.Derivation.Slices
import Abacus.Proofs.Derivation.Unambiguous
import Abacus.Proofs.Derivation.Viability
import Abacus.Proofs.Numeric.Errors
import Abacus.Proofs.Numeric.Poles
import Abacus.Proofs.Numeric.Powers
import Abacus.Proofs.Numeric.Range
import Abacus.Proofs.Numeric.Remainder
import Abacus.Proofs.Numeric.Representation
import Abacus.Proofs.Numeric.Rounding
import Abacus.Proofs.Run.Activity
import Abacus.Proofs.Run.Answers
import Abacus.Proofs.Run.Blame
import Abacus.Proofs.Run.Carets
import Abacus.Proofs.Run.Dialogue
import Abacus.Proofs.Run.Echo
import Abacus.Proofs.Run.Frames
import Abacus.Proofs.Run.Guards
import Abacus.Proofs.Run.Induction
import Abacus.Proofs.Run.Interpretation
import Abacus.Proofs.Run.Joining
import Abacus.Proofs.Run.LateBinding
import Abacus.Proofs.Run.Operands
import Abacus.Proofs.Run.Origins
import Abacus.Proofs.Run.Plan
import Abacus.Proofs.Run.Representation
import Abacus.Proofs.Run.Safety
import Abacus.Proofs.Run.Scope
import Abacus.Proofs.Run.Semantics
import Abacus.Proofs.Run.Sessions
import Abacus.Proofs.Run.Simulation
import Abacus.Proofs.Run.StackSafety
import Abacus.Proofs.Run.Termination
import Abacus.Proofs.Run.Values
import Abacus.Proofs.Script.Acceptance
import Abacus.Proofs.Script.Bare
import Abacus.Proofs.Script.Coverage
import Abacus.Proofs.Script.Derivation
import Abacus.Proofs.Script.Faults
import Abacus.Proofs.Script.Grammar
import Abacus.Proofs.Script.Kinds
import Abacus.Proofs.Script.Lexemes
import Abacus.Proofs.Script.Parts
import Abacus.Proofs.Script.Precedence
import Abacus.Proofs.Script.Programs
import Abacus.Proofs.Script.Rearrangement
import Abacus.Proofs.Script.Scanning
import Abacus.Proofs.Script.ShuntingYard
import Abacus.Proofs.Script.Soundness
import Abacus.Proofs.Script.Spacing
import Abacus.Proofs.Script.Tree
import Abacus.Run.Environment
import Abacus.Run.Evaluate
import Abacus.Run.Event
import Abacus.Run.Meaning
import Abacus.Run.Session
import Abacus.Run.Store
import Abacus.Run.Table
import Abacus.Script.Nesting
import Abacus.Script.Operator
import Abacus.Script.Parse
import Abacus.Script.Postfix
import Abacus.Script.Program
import Abacus.Script.Scan
import Abacus.Script.Term
import Abacus.Script.Token
import Abacus.Settings.Basic
import Abacus.Settings.Datum
import Abacus.Settings.Document
import Abacus.Settings.Flow
import Abacus.Settings.Load
import Abacus.Settings.Scalar
import Abacus.Text.Letter
import Abacus.Text.Lines
import Abacus.Text.Path
import Abacus.Text.Quoted
