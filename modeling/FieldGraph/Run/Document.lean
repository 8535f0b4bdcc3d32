import FieldGraph.Program.Document
import FieldGraph.Run.Plan

/-! # Documents of plans -/

namespace FieldGraph

def sampleList (samples : List Float32) : Value := .list (samples.map fun x => .real x.toFloat)

def Step.document (step : Step Float32) : Value :=
  let (mode, source, values) : String × Nat × List Float32 :=
    match step.mode with
    | .execute => ("EXECUTE", 0, [])
    | .copy source => ("COPY", source, [])
    | .constant values => ("CONSTANT", 0, values)
  .record [
    ("index", .ofNat step.index),
    ("mode", .text mode),
    ("source", .ofNat source),
    ("values", sampleList values)]

def stepCounts (steps : List (Step Float32)) : List Nat :=
  let count (test : StepMode Float32 → Bool) := (steps.filter fun step => test step.mode).length
  [count fun | .execute => true | _ => false, count fun | .copy _ => true | _ => false,
    count fun | .constant _ => true | _ => false]

def planDocument (steps : List (Step Float32)) (addresses : List Int) : Value :=
  .record [
    ("steps", .list (steps.map Step.document)),
    ("length", .ofNat steps.length),
    ("outputs", .ofInts addresses),
    ("counts", .ofNats (stepCounts steps))]

end FieldGraph
