import FieldGraph.Expression.Document
import FieldGraph.Generator.Block
import FieldGraph.Interval.Named
import FieldGraph.Operation.Document
import FieldGraph.Operation.Exact
import FieldGraph.Run.Document
import FieldGraph.Service.Answer
import FieldGraph.Proofs.Compile.Embedding
import FieldGraph.Proofs.Compile.Fingerprint
import FieldGraph.Proofs.Expression.Detached
import FieldGraph.Proofs.Expression.Literals
import FieldGraph.Proofs.Generator.Layers
import FieldGraph.Proofs.Generator.Pointwise
import FieldGraph.Proofs.Generator.Session
import FieldGraph.Proofs.Library.Atomic
import FieldGraph.Proofs.Library.Invariance
import FieldGraph.Proofs.Library.Rebinding
import FieldGraph.Proofs.Library.Walks
import FieldGraph.Proofs.Service.Atomic
import FieldGraph.Proofs.Service.Consistent
import FieldGraph.Proofs.Range.Conservative
import FieldGraph.Proofs.Range.Passthrough
import FieldGraph.Proofs.Range.Power
import FieldGraph.Proofs.Noise
import FieldGraph.Proofs.Voxel.Quantize
import FieldGraph.Proofs.Expression.Complaints
import FieldGraph.Proofs.Tolerance
