import SmallLisp.Value.Inspect
import SmallLisp.Proofs.Evaluation.DepthLimit
import SmallLisp.Proofs.Evaluation.ErrorPlaces
import SmallLisp.Proofs.Evaluation.Scoping
import SmallLisp.Proofs.Form.Slices
import SmallLisp.Proofs.Evaluation.PrintedData
import SmallLisp.Proofs.Interpreter.Pieces
import SmallLisp.Proofs.Evaluation.Renaming
import SmallLisp.Proofs.Evaluation.Independence
import SmallLisp.Proofs.Interpreter.Sessions
import SmallLisp.Proofs.Primitive.Rounding
import SmallLisp.Proofs.Interpreter.CallsInProgress
import SmallLisp.Proofs.Interpreter.Printing
import SmallLisp.Proofs.Interpreter.Nesting
import SmallLisp.Proofs.Form.Descent
import SmallLisp.Proofs.Form.Faults
import SmallLisp.Proofs.Number.Conversion
import SmallLisp.Proofs.Interpreter.Visibility
import SmallLisp.Proofs.Value.Equality
import SmallLisp.Proofs.Interpreter.Parameters
import SmallLisp.Proofs.Primitive.Extremes
import SmallLisp.Proofs.Token.Rejoining
import SmallLisp.Proofs.Evaluation.Calculation
import SmallLisp.Proofs.Interpreter.Equalities
import SmallLisp.Proofs.Interpreter.Mapping
import SmallLisp.Proofs.Form.Single
import SmallLisp.Proofs.Form.IntegerAtom
import SmallLisp.Proofs.Evaluation.Unguarded
