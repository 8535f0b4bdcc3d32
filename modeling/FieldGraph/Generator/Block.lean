import FieldGraph.Generator.Layers
import FieldGraph.Generator.Sample

/-! # Blocks

Filling a voxel buffer from a field. Voxel `(i, j, k)` samples the position that lies `2 ^ detail`
times `(i, j, k)` beyond the origin. Each part of a block can have a plan of its own, made from the
intervals of its coordinates.
-/

namespace FieldGraph

open Voxel

/-- A part of a block: a range of voxels along each axis. -/
structure Part where
  xs : List Nat
  ys : List Nat
  zs : List Nat

namespace Part

def ranges (extent size : Nat) : List (List Nat) :=
  (List.range ((extent + size - 1) / size)).map fun part =>
    List.range' (part * size) (Nat.min size (extent - part * size))

def cover (extent : Extent) (size : Nat) : List Part :=
  (ranges extent.x size).flatMap fun xs =>
    (ranges extent.y size).flatMap fun ys =>
      (ranges extent.z size).map fun zs => ⟨xs, ys, zs⟩

/-- All combinations of three lists, the third varying fastest. -/
def grid {α β : Type} (xs ys zs : List α) (f : α → α → α → β) : List β :=
  xs.flatMap fun x => ys.flatMap fun y => zs.map fun z => f x y z

/-- The places of the voxels of a part among the cells of a buffer. -/
def places (part : Part) (extent : Extent) : List Nat :=
  grid part.xs part.ys part.zs extent.place

end Part

def axisSamples (origin : Int) (stride : Nat) (voxels : List Nat) :
    Except ConversionError (List Float32) := do
  let step ← sampleOfNumber (.integer stride)
  let start ← sampleOfNumber (.integer origin)
  return voxels.map fun voxel => start + Float32.ofNat voxel * step

/-- The interval between the first and the last number of a list. -/
def spanOf (samples : List Float32) : Interval Float :=
  .between (samples.headD 0).toFloat (samples.getLastD 0).toFloat

def hullOf (samples : List Float32) : Interval Float :=
  let first := samples.headD 0
  .between (samples.foldl Arithmetic.minimum first).toFloat
    (samples.foldl Arithmetic.maximum first).toFloat

def blockKinds : List Kind := [.outputSdf, .outputType, .outputWeight]

/-- The samples of some addresses for every voxel of a block. -/
abbrev BlockValues := List (Nat × Array Float32)

namespace BlockValues

def zeros (addresses : List Nat) (volume : Nat) : BlockValues :=
  addresses.map fun address => (address, Array.replicate volume 0)

def add (values : BlockValues) (machine : Machine Float32) (places : List Nat) : BlockValues :=
  values.map fun (address, samples) =>
    (address, (places.zip (machine.buffer address)).foldl
      (fun samples (place, sample) => samples.setIfInBounds place sample) samples)

def samplesAt (values : BlockValues) (address : Nat) : Array Float32 :=
  (values.lookup address).getD #[]

end BlockValues

/-- What a part of a block is computed from. -/
structure PartSamples where
  xs : List Float32
  ys : List Float32
  zs : List Float32
  /-- The distances found in the part, if the program reads them. -/
  found : Option (List Float32)

namespace PartSamples

def size (samples : PartSamples) : Nat :=
  samples.xs.length * samples.ys.length * samples.zs.length

def box (samples : PartSamples) : Box Float
  | .x => some (spanOf samples.xs)
  | .y => some (spanOf samples.ys)
  | .z => some (spanOf samples.zs)
  | .sdf => samples.found.map hullOf

def inputs (samples : PartSamples) : Coordinate → List Float32
  | .x => Part.grid samples.xs samples.ys samples.zs fun x _ _ => x
  | .y => Part.grid samples.xs samples.ys samples.zs fun _ y _ => y
  | .z => Part.grid samples.xs samples.ys samples.zs fun _ _ z => z
  | .sdf => samples.found.getD [0]

end PartSamples

/-- What the parts of a block have in common. -/
structure BlockTask where
  serial : Nat
  program : Program Float
  extent : Extent
  origin : Position
  stride : Nat
  /-- The distances found in the block, if the program reads them. -/
  distances : Option (Array Float32)
  addresses : List Nat

def Program.blockOutputs {R : Type} (program : Program R) : List Output :=
  program.outputs.filter fun output => blockKinds.contains output.kind

namespace BlockTask

def fill (serial : Nat) (program : Program Float) (buffer : Buffer) (origin : Position)
    (detail : Nat) : BlockTask :=
  let distances :=
    if (program.inputAddress? .sdf).isSome then some (buffer.getDistances.map Float.toFloat32)
    else none
  { serial, program, extent := buffer.extent, origin, distances
    stride := Nat.pow 2 detail
    addresses := distinct (program.blockOutputs.map (·.address)) }

def samples (task : BlockTask) (part : Part) : Except ConversionError PartSamples := do
  let xs ← axisSamples task.origin.x task.stride part.xs
  let ys ← axisSamples task.origin.y task.stride part.ys
  let zs ← axisSamples task.origin.z task.stride part.zs
  let found := task.distances.map fun distances =>
    (part.places task.extent).map fun place => distances.getD place 0
  return { xs, ys, zs, found }

end BlockTask

def Generator.partExtent (generator : Generator) (extent : Extent) : Nat :=
  if generator.subdivided then generator.partSize else extent.longest

namespace Generating

/-- The steps for one part of a block: a plan if the generator makes plans, all steps
otherwise. -/
def partSteps (task : BlockTask) (samples : PartSamples) : Generating (List (Step Float32)) := do
  if (← get).optimized then
    let ranges ← ofFault (task.program.ranges samples.box)
    ofFault (task.program.plan ranges task.addresses)
  else return task.program.allSteps

def runPart (task : BlockTask) (part : Part) : Generating Unit := do
  let samples ← ofConversion (task.samples part)
  let steps ← partSteps task samples
  runProgram task.serial task.program samples.size (fun c => .ok (samples.inputs c)) steps

/-- Runs a part and takes over its samples. -/
def addPart (task : BlockTask) (values : BlockValues) (part : Part) : Generating BlockValues := do
  runPart task part
  return values.add (← get).machine (part.places task.extent)

def blockValues (task : BlockTask) (partSize : Nat) : Generating BlockValues :=
  (Part.cover task.extent partSize).foldlM (addPart task)
    (BlockValues.zeros task.addresses task.extent.volume)

end Generating

/-- The stored type of a value: its whole part, moved between zero and the largest word in single
precision, which wraps to zero where it is not exact. -/
def typeWord (bits : Nat) (value : Float32) : Nat :=
  let defined := if value.isNaN then 0 else value
  match Arithmetic.truncate? (Arithmetic.clip defined 0 (Float32.ofNat (Nat.pow 2 bits - 1))) with
  | some n => n.toNat % Nat.pow 2 bits
  | none => 0

def weightLayers (outputs : List Output) (values : BlockValues) :
    List (Nat × Array Float32) :=
  let weights := outputs.filter (·.kind == .outputWeight)
  (weights.map fun output => (output.layer.toNat, values.samplesAt output.address)).mergeSort
    fun a b => decide (a.1 ≤ b.1)

namespace Voxel.Buffer

/-- Writes the packed layers of all voxels. -/
def writeLayers (buffer : Buffer) (layers : List (Nat × Array Float32)) : Buffer :=
  let packed := (List.range buffer.extent.volume).map fun place =>
    packLayers (layers.map fun (layer, weights) => (layer, weightByte (weights.getD place 0)))
  { buffer with
    indices := (packed.map fun words => Number.integer words.1).toArray
    weights := (packed.map fun words => Number.integer words.2).toArray }

def writeBlock (buffer : Buffer) (outputs : List Output) (values : BlockValues) : Buffer :=
  let filled := outputs.foldl (fun buffer output =>
    let samples := values.samplesAt output.address
    match output.kind with
    | .outputSdf => buffer.setDistances (samples.map Float32.toFloat) none
    | .outputType =>
      let bits := buffer.typeDepth.bits
      { buffer with types := samples.map fun value => Number.integer (typeWord bits value) }
    | _ => buffer) buffer
  let layers := weightLayers outputs values
  if layers.isEmpty then filled else filled.writeLayers layers

end Voxel.Buffer

namespace Generating

/-- Fills a buffer with the block at an origin, if there is an output that blocks are made of. -/
def block (buffer : Buffer) (origin : List (Number Float)) (detail : Number Float) :
    Generating Buffer := do
  let generator ← get
  match generator.program with
  | none => return buffer
  | some (serial, program) =>
    let origin ← position origin
    let detail ← ofConversion detail.truncate
    if detail < 0 then throw .negativeDetail
    if program.blockOutputs.isEmpty then return buffer
    let task := BlockTask.fill serial program buffer origin detail.toNat
    let values ← blockValues task (generator.partExtent buffer.extent)
    return buffer.writeBlock program.blockOutputs values

end Generating

end FieldGraph
