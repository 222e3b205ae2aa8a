import RowCode.Json.Row
import RowCode.Pipeline.Session
import RowCode.Runner
import RowCode.Proofs.Pipeline.Drain
import RowCode.Proofs.Decimal.Equality
import RowCode.Proofs.Operand.Equality
import RowCode.Proofs.Pipeline.Ledger
import RowCode.Proofs.Code.Word
import RowCode.Proofs.Expr
import RowCode.Proofs.Operator.Faults
import RowCode.Proofs.Pipeline.Batch
import RowCode.Proofs.Pipeline.Grouping
import RowCode.Proofs.Typing
import RowCode.Proofs.Code.Grammar
import RowCode.Pipeline.Rig
import RowCode.Proofs.Pipeline.Rig
import RowCode.Proofs.Code.StageWord
import RowCode.Proofs.Pipeline.Drained
import RowCode.Proofs.Pipeline.Refused
import RowCode.Proofs.Code.Append
import RowCode.Proofs.Pipeline.Filter
import RowCode.Proofs.Pipeline.Tandem
import RowCode.Proofs.Decimal.Value
import RowCode.Proofs.Step
import RowCode.Proofs.Bounded
import RowCode.Proofs.Nulls
import RowCode.Proofs.Operand.Order
import RowCode.Proofs.Operator.Folds
import RowCode.Proofs.Pipeline.Reordered
import RowCode.Proofs.Binary.Value
import RowCode.Proofs.Binary.Exact
import RowCode.Proofs.Operator.Integer
import RowCode.Proofs.Operator.FloatCast
import RowCode.Proofs.Operator.Cast
import RowCode.Proofs.Operator.Comparison
import RowCode.Proofs.Text.Digits
import RowCode.Proofs.Text.Plain
import RowCode.Proofs.Decimal.Literal
import RowCode.Proofs.Decimal.Text
import RowCode.Proofs.Operator.CastText
import RowCode.Proofs.Operator.Pieces
import RowCode.Proofs.Code.Varint
import RowCode.Proofs.Code.Negated
import RowCode.Proofs.Runner
import RowCode.Proofs.Binary.Sum
import RowCode.Proofs.Pipeline.FromZero
import RowCode.Proofs.Code.Unknown
import RowCode.Proofs.Pipeline.Slots
import RowCode.Proofs.Json.Row
import RowCode.Proofs.Code.Confined
