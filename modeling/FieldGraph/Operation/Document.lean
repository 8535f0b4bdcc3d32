import FieldGraph.Operation.Range
import FieldGraph.Value

/-! # Documents of operations

Literals, simplifications, and what the catalog knows about a kind beyond its entry.
-/

namespace FieldGraph

def Literal.document : Literal Float → Value
  | .real x => .real x
  | .integer n => .integer n
  | .text s => .text s
  | .noise none => .null
  | .noise (some source) => .ofNoise source.noise

def ParamDefault.literal (fresh : FrozenNoise Float) : ParamDefault → Literal Float
  | .real x => .real x
  | .integer n => .integer n
  | .text s => .text s
  | .freshNoise => .noise (some fresh)

def Operation.Simplified.document (simplified : Operation.Simplified Float) : Value :=
  .record [
    ("type", .text simplified.operation.entry.name),
    ("kept", .ofNats simplified.kept),
    ("params", .list (simplified.params.map Literal.document))]

def Kind.operation? : Kind → Option Operation
  | .operation op => some op
  | _ => none

/-- What nodes of a kind can do: whether constants are folded, and which rules there
are. -/
def Kind.abilities (kind : Kind) : Value :=
  let op := kind.operation?
  .record [
    ("is_pure", .bool (op.all Operation.isPure)),
    ("debug_only", .bool kind.isDebugOnly),
    ("kernel", .bool op.isSome),
    ("range_rule", .bool op.isSome),
    ("passthrough", .bool (op.any Operation.hasPassthrough)),
    ("simplify", .bool (op.any Operation.hasSimplification))]

end FieldGraph
