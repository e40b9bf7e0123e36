import PixelCalc.Main
import PixelCalc.Proofs.Builtin.Clamping
import PixelCalc.Proofs.Builtin.Combining
import PixelCalc.Proofs.Builtin.Normalizing
import PixelCalc.Proofs.Builtin.Slices
import PixelCalc.Proofs.Commas.Shape
import PixelCalc.Proofs.Evaluation.FirstFault
import PixelCalc.Proofs.Evaluation.FromEnd
import PixelCalc.Proofs.Evaluation.Methods
import PixelCalc.Proofs.Evaluation.PlainValues
import PixelCalc.Proofs.Evaluation.RangeText
import PixelCalc.Proofs.Evaluation.Shadowing
import PixelCalc.Proofs.Exchange.Bindings
import PixelCalc.Proofs.Exchange.Names
import PixelCalc.Proofs.Exchange.RoundTrip
import PixelCalc.Proofs.Exchange.StatedSizes
import PixelCalc.Proofs.Folding.Precedence
import PixelCalc.Proofs.Session.Alignment
import PixelCalc.Proofs.Syntax.Flattening
import PixelCalc.Proofs.Syntax.NormalForm
import PixelCalc.Proofs.Syntax.Spacing
import PixelCalc.Proofs.Builtin.Indices
import PixelCalc.Proofs.Exchange.Inputs
