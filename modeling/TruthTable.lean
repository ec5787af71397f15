import TruthTable.Grammar
import TruthTable.Main
import TruthTable.Proofs.Token.Cut
import TruthTable.Proofs.Reading.Grammar
import TruthTable.Proofs.Token.Boundary
import TruthTable.Proofs.Expr.RoundTrip
import TruthTable.Proofs.Reading.ViablePrefix
import TruthTable.Proofs.Inputs.Undeclared
import TruthTable.Proofs.Inputs.Valuation
import TruthTable.Proofs.Table.Checks
import TruthTable.Proofs.Table.Enumeration
import TruthTable.Proofs.Table.Equivalence
import TruthTable.Proofs.Reading.Layout
import TruthTable.Proofs.Expr.Groups
import TruthTable.Proofs.Inputs.Declaring
import TruthTable.Proofs.FirstOccurrences
import TruthTable.Proofs.Output.Batch
import TruthTable.Proofs.Output.Answer
import TruthTable.Proofs.Request.Faults
import TruthTable.Proofs.Request.Log
import TruthTable.Proofs.Reading.Names
import TruthTable.Proofs.Inputs.History
import TruthTable.Proofs.Assignment.History
import TruthTable.Proofs.Assignment.Numbering
import TruthTable.Proofs.Rule.Stability
import TruthTable.Proofs.Rule.Validation
import TruthTable.Proofs.Inputs.RowValue
import TruthTable.Proofs.Table.OtherInputs
import TruthTable.Proofs.Table.Lines
import TruthTable.Proofs.Table.ReadBack
import TruthTable.Proofs.Request.Lines
import TruthTable.Proofs.Text.CommaList
import TruthTable.Proofs.Inputs.Listing
import TruthTable.Proofs.Output.Listing
import TruthTable.Proofs.Table.RowAssignment
import TruthTable.Proofs.Expr.OperatorFirst
import TruthTable.Proofs.Expr.Brackets
import TruthTable.Proofs.Expr.Walk
