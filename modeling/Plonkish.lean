import Plonkish.Bytes
import Plonkish.Bytes.Hex
import Plonkish.Circuit
import Plonkish.Circuit.Builder
import Plonkish.Circuit.FromJson
import Plonkish.Column
import Plonkish.CommandLine
import Plonkish.CommandLine.Directory
import Plonkish.CommandLine.Options
import Plonkish.CommandLine.Path
import Plonkish.ConstantTable
import Plonkish.ConstantTable.Indexed
import Plonkish.Expansion
import Plonkish.Expr
import Plonkish.Expr.Degree
import Plonkish.Expr.FromJson
import Plonkish.Expr.Postorder
import Plonkish.Hash.Blake2b
import Plonkish.Ir
import Plonkish.Ir.Text
import Plonkish.Json
import Plonkish.Json.Access
import Plonkish.Json.Printer
import Plonkish.Json.Reader
import Plonkish.Json.Shown
import Plonkish.Keygen
import Plonkish.LoadError
import Plonkish.Lowering
import Plonkish.Main
import Plonkish.Monomial
import Plonkish.Number
import Plonkish.Number.Binary64
import Plonkish.Number.Literal
import Plonkish.Outline
import Plonkish.Poly
import Plonkish.Position
import Plonkish.Proofs.Agreement
import Plonkish.Proofs.Bytes
import Plonkish.Proofs.Bytes.Hex
import Plonkish.Proofs.Circuit.Calls
import Plonkish.Proofs.Circuit.Extension
import Plonkish.Proofs.Circuit.FromJson
import Plonkish.Proofs.Circuit.History
import Plonkish.Proofs.Circuit.Written
import Plonkish.Proofs.CommandLine
import Plonkish.Proofs.ConstantTable
import Plonkish.Proofs.ConstantTable.Indexed
import Plonkish.Proofs.ConstantTable.Operations
import Plonkish.Proofs.Expansion
import Plonkish.Proofs.Expansion.Degree
import Plonkish.Proofs.Expansion.Order
import Plonkish.Proofs.Expr
import Plonkish.Proofs.Expr.FromJson
import Plonkish.Proofs.Expr.Notation
import Plonkish.Proofs.Expr.Postorder
import Plonkish.Proofs.Ir
import Plonkish.Proofs.Ir.Description
import Plonkish.Proofs.Ir.Identifier
import Plonkish.Proofs.List
import Plonkish.Proofs.Lowering.Again
import Plonkish.Proofs.Lowering.Circuit
import Plonkish.Proofs.Lowering.Constants
import Plonkish.Proofs.Lowering.Described
import Plonkish.Proofs.Lowering.Failure
import Plonkish.Proofs.Lowering.Inlined
import Plonkish.Proofs.Lowering.Meaning
import Plonkish.Proofs.Lowering.Refusal
import Plonkish.Proofs.Lowering.Run
import Plonkish.Proofs.Lowering.Structure
import Plonkish.Proofs.Lowering.Variables
import Plonkish.Proofs.Monomial
import Plonkish.Proofs.Monomial.Exponent
import Plonkish.Proofs.Number.Literal
import Plonkish.Proofs.Outcome
import Plonkish.Proofs.Outline
import Plonkish.Proofs.Poly.Built
import Plonkish.Proofs.Poly.Canonical
import Plonkish.Proofs.Poly.Coefficient
import Plonkish.Proofs.Poly.Degree
import Plonkish.Proofs.Poly.Laws
import Plonkish.Proofs.Poly.Normal
import Plonkish.Proofs.Poly.Shortcut
import Plonkish.Proofs.Poly.Value
import Plonkish.Proofs.Poly.Weighted
import Plonkish.Proofs.Scalar.Canonical
import Plonkish.Proofs.Scalar.Prime
import Plonkish.Proofs.Scalar.Ring
import Plonkish.Proofs.VariableSpace
import Plonkish.Proofs.VariableSpace.Indexed
import Plonkish.Proofs.VariableSpace.Partition
import Plonkish.Proofs.Wire.Artifact
import Plonkish.Proofs.Wire.Column
import Plonkish.Proofs.Wire.Cursor
import Plonkish.Proofs.Wire.Described
import Plonkish.Proofs.Wire.Expression
import Plonkish.Proofs.Wire.Failure
import Plonkish.Proofs.Wire.Fits
import Plonkish.Proofs.Wire.GeneralInfo
import Plonkish.Proofs.Wire.Outline
import Plonkish.Proofs.Wire.Passage
import Plonkish.Proofs.Wire.RoundTrip
import Plonkish.Proofs.Wire.Spelling
import Plonkish.Proofs.Wire.Truncated
import Plonkish.Proofs.Wire.Width
import Plonkish.Quantity
import Plonkish.Scalar
import Plonkish.SchemaError
import Plonkish.Text
import Plonkish.Text.Printable
import Plonkish.Text.Quoted
import Plonkish.VariableNumber
import Plonkish.VariableSpace
import Plonkish.VariableSpace.Indexed
import Plonkish.VerifyingKey
import Plonkish.Wire.Artifact
import Plonkish.Wire.Column
import Plonkish.Wire.Cursor
import Plonkish.Wire.Error
import Plonkish.Wire.Expression
import Plonkish.Wire.GeneralInfo
import Plonkish.Wire.Outline
import Plonkish.Wire.Reader
import Plonkish.Wire.Word
