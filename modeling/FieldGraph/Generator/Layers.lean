import FieldGraph.Voxel.Buffer

/-! # Texture layers

A voxel keeps the four strongest of its texture layers with their weights, equal ones by smaller
layer. With fewer, layers that are not in use fill up the slots with weight zero, so the four
indices are always distinct.
-/

namespace FieldGraph.Voxel

open Arithmetic

def slotCount : Nat := 4

def layerLimit : Nat := 16

/-- A weight in eight bits: clipped between zero and one, and cut to a multiple of `1/255`. -/
def weightByte {α : Type} [Arithmetic α] (weight : α) : Nat :=
  let defined := if isNaN weight then zero else weight
  match truncate? (clip defined zero one * ofNat 255) with
  | some n => n.toNat % Nat.pow 2 8
  | none => 0

/-- The layers that a voxel keeps, with their weights, out of all layers by ascending
index. -/
def keptLayers (weighted : List (Nat × Nat)) : List (Nat × Nat) :=
  if slotCount < weighted.length then
    (weighted.mergeSort fun a b => decide (b.2 ≤ a.2)).take slotCount
  else
    let unused := (List.range layerLimit).filter fun layer => !(weighted.map (·.1)).contains layer
    weighted ++ (unused.take (slotCount - weighted.length)).map (·, 0)

def slots (values : List Nat) : Packing.Quad Nat :=
  ⟨values.getD 0 0, values.getD 1 0, values.getD 2 0, values.getD 3 0⟩

def packLayers (weighted : List (Nat × Nat)) : Nat × Nat :=
  let kept := keptLayers weighted
  (Packing.packIndices (slots (kept.map (·.1))), Packing.packWeights (slots (kept.map (·.2))))

end FieldGraph.Voxel
