import Backprop.Dataset.Basic
import Backprop.Dataset.Delimited
import Backprop.Dataset.Import
import Backprop.Dataset.Records
import Backprop.Decimal.Notation
import Backprop.Decimal.Reader
import Backprop.Decimal.Rounding
import Backprop.Decimal.Shortest
import Backprop.Device
import Backprop.Evaluator
import Backprop.Failure
import Backprop.GradientCheck
import Backprop.Graph.Basic
import Backprop.Graph.Build
import Backprop.Json.Document
import Backprop.Json.Number
import Backprop.Json.Record
import Backprop.Json.Token
import Backprop.Json.Value
import Backprop.Near
import Backprop.Parameter
import Backprop.Proofs.Answer
import Backprop.Proofs.Attribution
import Backprop.Proofs.CentralDifference
import Backprop.Proofs.Dataset.Delimited
import Backprop.Proofs.Dataset.Export
import Backprop.Proofs.Dataset.Formats
import Backprop.Proofs.Dataset.Heading
import Backprop.Proofs.Dataset.Layout
import Backprop.Proofs.Dataset.Loading
import Backprop.Proofs.Dataset.Objects
import Backprop.Proofs.Dataset.Separators
import Backprop.Proofs.Decimal.Large
import Backprop.Proofs.Decimal.Notation
import Backprop.Proofs.Decimal.Plain
import Backprop.Proofs.Decimal.Rounding
import Backprop.Proofs.Decimal.Shortest
import Backprop.Proofs.Double.Arithmetic
import Backprop.Proofs.Double.Comparison
import Backprop.Proofs.Double.Magnitude
import Backprop.Proofs.Double.Nearest
import Backprop.Proofs.Double.Packing
import Backprop.Proofs.Double.Product
import Backprop.Proofs.Double.Rounding
import Backprop.Proofs.Double.Scientific
import Backprop.Proofs.Epoch
import Backprop.Proofs.Equations
import Backprop.Proofs.Exact
import Backprop.Proofs.Gradient
import Backprop.Proofs.GradientCheck
import Backprop.Proofs.Graph.Build
import Backprop.Proofs.Graph.Defects
import Backprop.Proofs.Graph.Forward
import Backprop.Proofs.Graph.Live
import Backprop.Proofs.Graph.NormalForm
import Backprop.Proofs.Graph.Renaming
import Backprop.Proofs.Graph.WellOrdered
import Backprop.Proofs.Interpretation
import Backprop.Proofs.Interpreter
import Backprop.Proofs.Json.Lexing
import Backprop.Proofs.Json.Number
import Backprop.Proofs.Json.Numeral
import Backprop.Proofs.Json.Reading
import Backprop.Proofs.Json.Render
import Backprop.Proofs.Json.Scale
import Backprop.Proofs.Lenient
import Backprop.Proofs.Linear
import Backprop.Proofs.Lookup
import Backprop.Proofs.Monad
import Backprop.Proofs.Near
import Backprop.Proofs.Numbering
import Backprop.Proofs.Parameter
import Backprop.Proofs.PassedCheck
import Backprop.Proofs.Payload
import Backprop.Proofs.Recording
import Backprop.Proofs.Relocation
import Backprop.Proofs.Renaming
import Backprop.Proofs.Reordering
import Backprop.Proofs.Report
import Backprop.Proofs.Request
import Backprop.Proofs.Rows
import Backprop.Proofs.Tape.Append
import Backprop.Proofs.Tape.Backward
import Backprop.Proofs.Tape.Call
import Backprop.Proofs.Tape.Duality
import Backprop.Proofs.Tape.Embedding
import Backprop.Proofs.Tape.Reading
import Backprop.Proofs.Tape.Renaming
import Backprop.Proofs.Tape.Sequence
import Backprop.Proofs.Text
import Backprop.Proofs.Training.Batch
import Backprop.Proofs.Training.Columns
import Backprop.Proofs.Training.Congruence
import Backprop.Proofs.Training.Ends
import Backprop.Proofs.Training.Epoch
import Backprop.Proofs.Training.Finite
import Backprop.Proofs.Training.Inert
import Backprop.Proofs.Training.Origin
import Backprop.Proofs.Training.Phase
import Backprop.Proofs.Training.PlainLoss
import Backprop.Proofs.Training.Renaming
import Backprop.Proofs.Training.Reordering
import Backprop.Proofs.Training.Resume
import Backprop.Proofs.Training.Run
import Backprop.Proofs.Training.Sampling
import Backprop.Proofs.Training.Simulation
import Backprop.Report
import Backprop.Request.Basic
import Backprop.Request.Payload
import Backprop.Request.Train
import Backprop.Scalar
import Backprop.Tape.Backward
import Backprop.Tape.Basic
import Backprop.Training.Epoch
import Backprop.Training.Run
