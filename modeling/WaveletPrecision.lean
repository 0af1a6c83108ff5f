import WaveletPrecision.Binary.Arithmetic
import WaveletPrecision.Binary.Basic
import WaveletPrecision.Binary.Conversion
import WaveletPrecision.Binary.Format
import WaveletPrecision.Binary.Rounding
import WaveletPrecision.Boundary.Extension
import WaveletPrecision.Boundary.Mode
import WaveletPrecision.CommandLine.Execution
import WaveletPrecision.CommandLine.Grammar
import WaveletPrecision.CommandLine.Help
import WaveletPrecision.CommandLine.Invocation
import WaveletPrecision.CommandLine.Settings
import WaveletPrecision.Decimal.Layout
import WaveletPrecision.Decimal.Shortest
import WaveletPrecision.Error
import WaveletPrecision.Experiment.Comparison
import WaveletPrecision.Experiment.Config
import WaveletPrecision.Experiment.ErrorStats
import WaveletPrecision.Experiment.ReferenceCase
import WaveletPrecision.Experiment.Report
import WaveletPrecision.Experiment.Signals
import WaveletPrecision.Experiment.TransformRun
import WaveletPrecision.Experiment.Workflow
import WaveletPrecision.FilterBank.Basic
import WaveletPrecision.FilterBank.Wavelet
import WaveletPrecision.Main
import WaveletPrecision.Matrix.Bands
import WaveletPrecision.Matrix.Basic
import WaveletPrecision.Matrix.Tensor
import WaveletPrecision.Proofs.Boundary.Continuation
import WaveletPrecision.Proofs.Boundary.Extension
import WaveletPrecision.Proofs.Error
import WaveletPrecision.Proofs.Experiment.Comparison
import WaveletPrecision.Proofs.Experiment.FailedRun
import WaveletPrecision.Proofs.Experiment.Layout
import WaveletPrecision.Proofs.Experiment.Pipeline
import WaveletPrecision.Proofs.Experiment.SampleRange
import WaveletPrecision.Proofs.Experiment.Signals
import WaveletPrecision.Proofs.Experiment.StoredInverse
import WaveletPrecision.Proofs.Experiment.Sweep
import WaveletPrecision.Proofs.Experiment.TransformRun
import WaveletPrecision.Proofs.Experiment.Workflow
import WaveletPrecision.Proofs.FilterBank.Orthonormal
import WaveletPrecision.Proofs.Matrix.Assembly
import WaveletPrecision.Proofs.Matrix.Separable
import WaveletPrecision.Proofs.Matrix.Shapes
import WaveletPrecision.Proofs.Matrix.Tensor
import WaveletPrecision.Proofs.Storage.Artifact
import WaveletPrecision.Proofs.Storage.Creation
import WaveletPrecision.Proofs.Storage.FileTree
import WaveletPrecision.Proofs.Storage.Path
import WaveletPrecision.Proofs.Storage.Store
import WaveletPrecision.Proofs.Transform.Accesses
import WaveletPrecision.Proofs.Transform.Convolution
import WaveletPrecision.Proofs.Transform.Daubechies
import WaveletPrecision.Proofs.Transform.Haar
import WaveletPrecision.Proofs.Transform.Lengths
import WaveletPrecision.Proofs.Transform.Lifting
import WaveletPrecision.Proofs.Transform.Periodized
import WaveletPrecision.Proofs.Transform.Reconstruction
import WaveletPrecision.Proofs.Transform.Repeated
import WaveletPrecision.Proofs.Transform.Seam
import WaveletPrecision.Proofs.Transform.Splitting
import WaveletPrecision.Proofs.Transform.Synthesis
import WaveletPrecision.Proofs.Transform.Transpose
import WaveletPrecision.Proofs.Transform.Windowed
import WaveletPrecision.Random.ChaCha
import WaveletPrecision.Random.Normal
import WaveletPrecision.Random.Source
import WaveletPrecision.Random.Ziggurat
import WaveletPrecision.Sample.Basic
import WaveletPrecision.Sample.Precision
import WaveletPrecision.Storage.Artifact
import WaveletPrecision.Storage.FileTree
import WaveletPrecision.Storage.Path
import WaveletPrecision.Storage.Store
import WaveletPrecision.Text.Name
import WaveletPrecision.Toml.Document
import WaveletPrecision.Toml.Scalar
import WaveletPrecision.Toml.Value
import WaveletPrecision.Transform.Convolution
import WaveletPrecision.Transform.Engine
import WaveletPrecision.Transform.Lifting
import WaveletPrecision.Proofs.Binary.Value
import WaveletPrecision.Proofs.FilterBank.Defect
import WaveletPrecision.Proofs.Transform.Energy
import WaveletPrecision.Proofs.Transform.Tolerance
import WaveletPrecision.Proofs.Matrix.LinearForms
import WaveletPrecision.Proofs.Matrix.TensorProduct
import WaveletPrecision.Proofs.Transform.Linear
import WaveletPrecision.Proofs.Transform.Periodic
import WaveletPrecision.Proofs.Binary.Exact
import WaveletPrecision.Proofs.Binary.Nearest
import WaveletPrecision.Proofs.Binary.Product
import WaveletPrecision.Proofs.Sample.Narrowing
import WaveletPrecision.Proofs.Sample.Widening
import WaveletPrecision.Proofs.Transform.Acceptance
import WaveletPrecision.Proofs.Storage.Codec
import WaveletPrecision.Proofs.Experiment.Outcome
import WaveletPrecision.Proofs.Binary.NotANumber
import WaveletPrecision.Proofs.Experiment.ErrorStats
import WaveletPrecision.Proofs.Experiment.NotANumber
import WaveletPrecision.Proofs.Transform.StraightLine
import WaveletPrecision.Proofs.Experiment.ReferenceCase
import WaveletPrecision.Proofs.FilterBank.Mirror
import WaveletPrecision.Proofs.Experiment.ReportText
import WaveletPrecision.Proofs.Experiment.SignalStream
import WaveletPrecision.Proofs.Experiment.Confinement
import WaveletPrecision.Proofs.Matrix.Grid
import WaveletPrecision.Proofs.Matrix.Layout
