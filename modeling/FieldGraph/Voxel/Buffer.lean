import FieldGraph.Value
import FieldGraph.Voxel.Packing
import FieldGraph.Voxel.Quantize

/-! # Voxel buffers

A buffer is a dense block of voxels with four channels: the type of matter, the signed distance to
the surface, and four texture layers with their weights, packed. The third coordinate varies
fastest.

A real number in an integer cell is cut to its whole part, which is refused if it does not fit the
cell.
-/

namespace FieldGraph.Voxel

inductive Channel where
  | type | sdf | indices | weights
  deriving DecidableEq, Repr

namespace Channel

def all : List Channel := [.type, .sdf, .indices, .weights]

def name : Channel → String
  | .type => "TYPE"
  | .sdf => "SDF"
  | .indices => "INDICES"
  | .weights => "WEIGHTS"

def ofName? (text : String) : Option Channel := all.find? (·.name == text)

def isPacked : Channel → Bool
  | .indices | .weights => true
  | .type | .sdf => false

end Channel

/-- The content of a cell. -/
abbrev Cell := Number Float

inductive CellFormat where
  | unsigned (bits : Nat)
  | signed (bits : Nat)
  | single
  | double

/-- The three extents of a buffer. -/
structure Extent where
  x : Nat
  y : Nat
  z : Nat
  deriving DecidableEq, Repr

namespace Extent

def volume (extent : Extent) : Nat := extent.x * extent.y * extent.z

def longest (extent : Extent) : Nat := Nat.max extent.x (Nat.max extent.y extent.z)

def place (extent : Extent) (x y z : Nat) : Nat := (x * extent.y + y) * extent.z + z

def quote (extent : Extent) : String :=
  tuple [toString extent.x, toString extent.y, toString extent.z]

end Extent

/-- Why a buffer refuses a change or a question. -/
inductive BufferError where
  | badDepth (bits : Int)
  | badSize (size : List Int)
  | packedDepth (channel : Channel)
  | outside (x y z : Int) (extent : Extent)
  | cellOverflow
  | conversion (cause : ConversionError)
  /-- There is not one number for every voxel. -/
  | wrongCount (given : Nat) (extent : Extent)

def BufferError.message : BufferError → String
  | .badDepth bits =>
    "Unsupported channel depth " ++ toString bits ++ ", expected one of " ++
      tuple (Depth.all.map fun depth => toString depth.bits)
  | .badSize size => "Invalid buffer size " ++ tuple (size.map toString)
  | .packedDepth channel => channel.name ++ " channel is always 16-bit"
  | .outside x y z extent =>
    "Position " ++ tuple [toString x, toString y, toString z] ++
      " is outside of buffer of size " ++ extent.quote
  | .cellOverflow => "integer out of bounds"
  | .conversion cause => cause.message
  | .wrongCount given extent =>
    "cannot reshape array of size " ++ toString given ++ " into shape (" ++
      ",".intercalate ([extent.x, extent.y, extent.z].map toString) ++ ")"

namespace CellFormat

def storeWhole (low high : Int) (number : Number Float) : Except BufferError Cell :=
  match number.truncate with
  | .ok n => if low ≤ n ∧ n < high then .ok (.integer n) else .error .cellOverflow
  | .error cause => .error (.conversion cause)

def storeReal (round : Float → Float) (number : Number Float) : Except BufferError Cell :=
  match number.toReal with
  | .ok x => .ok (.real (round x))
  | .error cause => .error (.conversion cause)

def store : CellFormat → Number Float → Except BufferError Cell
  | .unsigned bits => storeWhole 0 (Int.pow 2 bits)
  | .signed bits => storeWhole (-Int.pow 2 (bits - 1)) (Int.pow 2 (bits - 1))
  | .single => storeReal fun x => x.toFloat32.toFloat
  | .double => storeReal id

def blank : CellFormat → Cell
  | .unsigned _ | .signed _ => .integer 0
  | .single | .double => .real 0

end CellFormat

def Depth.distanceFormat : Depth → CellFormat
  | .bits8 => .signed 8
  | .bits16 => .signed 16
  | .bits32 => .single
  | .bits64 => .double

def encodeDistance (depth : Depth) (scaled : Float) : Cell :=
  match depth.levels? with
  | some levels => .integer (quantize levels scaled)
  | none => if depth = .bits32 then .real scaled.toFloat32.toFloat else .real scaled

def decodeDistance (depth : Depth) (stored : Number Float) : Except ConversionError Float :=
  match depth.levels?, stored with
  | some levels, .integer n =>
    match (Number.integer n : Number Float).toReal with
    | .ok _ => .ok (dequantize levels n)
    | .error cause => .error cause
  | some levels, .real x => .ok (Arithmetic.maximum (x / Float.ofNat levels) (-1))
  | none, number => number.toReal

/-- A block of voxels. -/
structure Buffer where
  extent : Extent
  typeDepth : Depth
  sdfDepth : Depth
  types : Array Cell
  distances : Array Cell
  indices : Array Cell
  weights : Array Cell

namespace Buffer

def depth (buffer : Buffer) : Channel → Depth
  | .type => buffer.typeDepth
  | .sdf => buffer.sdfDepth
  | .indices | .weights => .bits16

def format (buffer : Buffer) (channel : Channel) : CellFormat :=
  match channel with
  | .sdf => buffer.sdfDepth.distanceFormat
  | _ => .unsigned (buffer.depth channel).bits

def cells (buffer : Buffer) : Channel → Array Cell
  | .type => buffer.types
  | .sdf => buffer.distances
  | .indices => buffer.indices
  | .weights => buffer.weights

def withCells (buffer : Buffer) (channel : Channel) (cells : Array Cell) : Buffer :=
  match channel with
  | .type => { buffer with types := cells }
  | .sdf => { buffer with distances := cells }
  | .indices => { buffer with indices := cells }
  | .weights => { buffer with weights := cells }

/-- The scaled distance of empty space. -/
def farOutside : Float := 1000000

def uniform (buffer : Buffer) (cell : Cell) : Array Cell :=
  Array.replicate buffer.extent.volume cell

def fillDistance (buffer : Buffer) (scaled : Float) : Buffer :=
  { buffer with distances := buffer.uniform (encodeDistance buffer.sdfDepth scaled) }

/-- Makes the whole block empty space. -/
def clearDistances (buffer : Buffer) : Buffer := buffer.fillDistance farOutside

def extentOf (size : List Int) : Except BufferError Extent :=
  match size with
  | [x, y, z] =>
    if 0 < x ∧ 0 < y ∧ 0 < z then .ok ⟨x.toNat, y.toNat, z.toNat⟩ else .error (.badSize size)
  | _ => .error (.badSize size)

/-- Gives a buffer new extents and blank cells. -/
def resize (buffer : Buffer) (size : List Int) : Except BufferError Buffer := do
  let extent ← extentOf size
  let blank (channel : Channel) := Array.replicate extent.volume (buffer.format channel).blank
  return clearDistances { buffer with
    extent
    types := blank .type
    distances := blank .sdf
    indices := blank .indices
    weights := blank .weights }

def depthOf (bits : Int) : Except BufferError Depth :=
  match Depth.ofBits? bits with
  | some depth => .ok depth
  | none => .error (.badDepth bits)

def new (size : List Int) (sdfBits typeBits : Int) : Except BufferError Buffer := do
  let sdfDepth ← depthOf sdfBits
  let typeDepth ← depthOf typeBits
  let empty : Buffer :=
    { extent := ⟨0, 0, 0⟩, typeDepth, sdfDepth
      types := #[], distances := #[], indices := #[], weights := #[] }
  empty.resize size

/-- Changes the depth of a channel, whose content is reset. -/
def setDepth (buffer : Buffer) (channel : Channel) (bits : Int) : Except BufferError Buffer := do
  let depth ← depthOf bits
  match channel with
  | .type =>
    let changed := { buffer with typeDepth := depth }
    return changed.withCells .type (changed.uniform (changed.format .type).blank)
  | .sdf => return clearDistances { buffer with sdfDepth := depth }
  | .indices | .weights =>
    if depth ≠ .bits16 then throw (.packedDepth channel)
    return buffer.withCells channel (buffer.uniform (buffer.format channel).blank)

def placeOf (buffer : Buffer) (x y z : Int) : Except BufferError Nat :=
  let extent := buffer.extent
  if 0 ≤ x ∧ x < extent.x ∧ 0 ≤ y ∧ y < extent.y ∧ 0 ≤ z ∧ z < extent.z then
    .ok (extent.place x.toNat y.toNat z.toNat)
  else .error (.outside x y z extent)

/-- The stored form of a number: scaled in the distance channel, the number itself elsewhere. -/
def encode (buffer : Buffer) (channel : Channel) (number : Number Float) :
    Except BufferError Cell :=
  match channel with
  | .sdf =>
    match number.toReal with
    | .ok scaled => .ok (encodeDistance buffer.sdfDepth scaled)
    | .error cause => .error (.conversion cause)
  | _ => (buffer.format channel).store number

def set (buffer : Buffer) (channel : Channel) (x y z : Int) (number : Number Float) :
    Except BufferError Buffer := do
  let place ← buffer.placeOf x y z
  let cell ← (buffer.format channel).store number
  return buffer.withCells channel ((buffer.cells channel).setIfInBounds place cell)

def get (buffer : Buffer) (channel : Channel) (x y z : Int) : Except BufferError Cell := do
  let place ← buffer.placeOf x y z
  return (buffer.cells channel).getD place (.integer 0)

/-- Stores a number in a cell, distances scaled. -/
def setReal (buffer : Buffer) (channel : Channel) (x y z : Int) (number : Number Float) :
    Except BufferError Buffer := do
  let place ← buffer.placeOf x y z
  let cell ← buffer.encode channel number
  return buffer.withCells channel ((buffer.cells channel).setIfInBounds place cell)

/-- The number that a cell stands for, distances scaled. -/
def getReal (buffer : Buffer) (channel : Channel) (x y z : Int) : Except BufferError Float := do
  let stored ← buffer.get channel x y z
  let read := match channel with
    | .sdf => decodeDistance buffer.sdfDepth stored
    | _ => stored.toReal
  match read with
  | .ok value => return value
  | .error cause => throw (.conversion cause)

/-- Stores a number in every cell of a channel as it is. -/
def fill (buffer : Buffer) (channel : Channel) (number : Number Float) :
    Except BufferError Buffer := do
  let cell ← (buffer.format channel).store number
  return buffer.withCells channel (buffer.uniform cell)

/-- Stores a number in every cell of a channel, distances scaled. -/
def fillReal (buffer : Buffer) (channel : Channel) (number : Number Float) :
    Except BufferError Buffer := do
  let cell ← buffer.encode channel number
  return buffer.withCells channel (buffer.uniform cell)

/-- Stores distances, which are scaled by the factor of the channel's depth unless
another one is given. -/
def setDistances (buffer : Buffer) (distances : Array Float) (factor : Option Float) : Buffer :=
  let scale := factor.getD buffer.sdfDepth.scale
  { buffer with
    distances := distances.map fun distance => encodeDistance buffer.sdfDepth (distance * scale) }

def loadDistances (buffer : Buffer) (distances : List Float) (factor : Option Float) :
    Except BufferError Buffer :=
  if distances.length = buffer.extent.volume then
    .ok (buffer.setDistances distances.toArray factor)
  else .error (.wrongCount distances.length buffer.extent)

def distanceOf (buffer : Buffer) (stored : Cell) : Float :=
  match decodeDistance buffer.sdfDepth stored with
  | .ok scaled => scaled / buffer.sdfDepth.scale
  | .error _ => 0

def getDistances (buffer : Buffer) : Array Float := buffer.distances.map buffer.distanceOf

def word : Cell → Nat
  | .integer n => n.toNat
  | .real _ => 0

def layerIndices (buffer : Buffer) (x y z : Int) : Except BufferError (Packing.Quad Nat) := do
  return Packing.unpackIndices (word (← buffer.get .indices x y z))

def layerWeights (buffer : Buffer) (x y z : Int) : Except BufferError (Packing.Quad Nat) := do
  return Packing.unpackWeights (word (← buffer.get .weights x y z))

def stored : Cell → Float
  | .integer n => ofInteger n
  | .real x => x

/-- Whether two stored distances count as equal. -/
def distancesAgree (depth : Depth) (tolerance a b : Float) : Bool :=
  match depth.levels? with
  | some _ => isNear tolerance a b
  | none => isClose tolerance a b

/-- Whether two buffers have the same extents and depth of distances, and distances
that count as equal. -/
def equalsApprox (buffer other : Buffer) (tolerance : Option Float) : Bool :=
  buffer.extent == other.extent && buffer.sdfDepth == other.sdfDepth &&
    (buffer.distances.toList.zip other.distances.toList).all fun (a, b) =>
      distancesAgree buffer.sdfDepth (tolerance.getD buffer.sdfDepth.tolerance)
        (stored a) (stored b)

/-- Whether two cells read the same: undefined numbers do, and the two zeros do not. -/
def sameCell : Cell → Cell → Bool
  | .integer a, .integer b => a == b
  | .real a, .real b => a.toBits == b.toBits || (a.isNaN && b.isNaN)
  | _, _ => false

/-- The runs of cells that read the same, with their lengths. -/
def runs (cells : List Cell) : List (Cell × Nat) :=
  cells.foldr (fun cell runs =>
    match runs with
    | (first, count) :: rest =>
      if sameCell cell first then (cell, count + 1) :: rest else (cell, 1) :: runs
    | [] => [(cell, 1)]) []

def quote (buffer : Buffer) : String :=
  "VoxelBuffer(" ++ buffer.extent.quote ++ ", sdf_depth=" ++ toString buffer.sdfDepth.bits ++ ")"

end Buffer

end FieldGraph.Voxel
