/-! # Packed quadruples

Four numbers from zero to fifteen in one 16-bit word, the first in the lowest four
bits. Layer indices are packed as they are; weights of eight bits are packed by
their four high bits.
-/

namespace FieldGraph.Voxel.Packing

/-- Four values, one for each slot of a word. -/
structure Quad (β : Type) where
  first : β
  second : β
  third : β
  fourth : β
  deriving DecidableEq, Repr

def Quad.map {β γ : Type} (f : β → γ) (quad : Quad β) : Quad γ :=
  ⟨f quad.first, f quad.second, f quad.third, f quad.fourth⟩

def Quad.toList {β : Type} (quad : Quad β) : List β :=
  [quad.first, quad.second, quad.third, quad.fourth]

/-- Packs four indices; only their four low bits are kept. -/
def packIndices (indices : Quad Nat) : Nat :=
  let low := indices.map (· % 16)
  low.first + 16 * low.second + 256 * low.third + 4096 * low.fourth

def unpackIndices (word : Nat) : Quad Nat :=
  ⟨word % 16, word / 16 % 16, word / 256 % 16, word / 4096 % 16⟩

/-- Packs four weights, keeping the high bits of each. -/
def packWeights (weights : Quad Nat) : Nat := packIndices (weights.map (· / 16))

/-- The four weights of a word, as multiples of sixteen. -/
def unpackWeights (word : Nat) : Quad Nat := (unpackIndices word).map (· * 16)

end FieldGraph.Voxel.Packing
