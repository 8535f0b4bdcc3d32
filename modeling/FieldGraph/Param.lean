import FieldGraph.Noise

/-! # Params

Literals attached to a node or an instruction. Nodes refer to a noise by its handle, so that they
can share it and see it change. Instructions hold the noise as it was when the program was compiled,
with the handle it came from.
-/

namespace FieldGraph

abbrev NoiseId := Nat

/-- A literal, with real numbers in `R` and references to a noise in `ν`. -/
inductive Param (R ν : Type) where
  | real (x : R)
  | integer (n : Int)
  | text (s : String)
  | noise (source : Option ν)
  deriving Repr

instance {R ν : Type} : Inhabited (Param R ν) := ⟨.integer 0⟩

/-- A noise as a program holds it. -/
structure FrozenNoise (R : Type) where
  /-- The handle the noise was taken from. -/
  origin : NoiseId
  noise : ValueNoise R
  deriving Repr

/-- The params of nodes. -/
abbrev Setting := Param Float NoiseId

/-- The params of instructions. -/
abbrev Literal (R : Type) := Param R (FrozenNoise R)

/-- Whether two literals of programs are interchangeable: numbers by value, all undefined ones being
one, and noises by handle. -/
def Literal.same {R : Type} [Arithmetic R] : Literal R → Literal R → Bool
  | .real x, .real y => Arithmetic.eq x y || (Arithmetic.isNaN x && Arithmetic.isNaN y)
  | .integer m, .integer n => m == n
  | .text s, .text t => s == t
  | .noise none, .noise none => true
  | .noise (some a), .noise (some b) => a.origin == b.origin
  | _, _ => false

end FieldGraph
