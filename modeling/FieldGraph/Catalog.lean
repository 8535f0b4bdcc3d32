import FieldGraph.Kind

/-! # Catalog

What every kind of node looks like: its names, its category, its ports with their defaults, and its
params. An input port bound to a coordinate reads it while nothing is connected.
-/

namespace FieldGraph

/-- Groups of kinds shown together. -/
inductive Category where
  | input | output | math | convert | sdf | noise | misc | debug | functions
  deriving DecidableEq, Repr

namespace Category

def name : Category → String
  | .input => "input"
  | .output => "output"
  | .math => "math"
  | .convert => "convert"
  | .sdf => "sdf"
  | .noise => "noise"
  | .misc => "misc"
  | .debug => "debug"
  | .functions => "functions"

def all : List Category :=
  [.input, .output, .math, .convert, .sdf, .noise, .misc, .debug, .functions]

def ofName? (text : String) : Option Category := all.find? (·.name == text)

end Category

/-- The type of a param. -/
inductive ParamType where
  | real | integer | text | resource | textList
  deriving DecidableEq, Repr

namespace ParamType

def name : ParamType → String
  | .real => "float"
  | .integer => "int"
  | .text => "string"
  | .resource => "resource"
  | .textList => "string_list"

def ofName? (text : String) : Option ParamType :=
  [.real, .integer, .text, .resource, .textList].find? (·.name == text)

end ParamType

/-- An input port as the catalog describes it. -/
structure PortSpec where
  name : String
  default : Float := 0
  /-- The coordinate the port reads while nothing is connected. -/
  binding : Option Coordinate := none

/-- The first value of a param. -/
inductive ParamDefault where
  | real (x : Float)
  | integer (n : Int)
  | text (s : String)
  /-- A noise of its own for every node. -/
  | freshNoise

def ParamDefault.type : ParamDefault → ParamType
  | .real _ => .real
  | .integer _ => .integer
  | .text _ => .text
  | .freshNoise => .resource

/-- A param as the catalog describes it. -/
structure ParamSpec where
  name : String
  default : ParamDefault

def ParamSpec.type (spec : ParamSpec) : ParamType := spec.default.type

/-- The description of a kind. -/
structure Entry where
  name : String
  title : String
  category : Category
  inputs : List PortSpec := []
  outputs : List String := []
  params : List ParamSpec := []
  callName : Option String := none

namespace Entry

def paramIndex? (entry : Entry) (name : String) : Option Nat :=
  entry.params.findIdx? (·.name == name)

end Entry

namespace Catalog

def bound (name : String) (coordinate : Coordinate) : PortSpec :=
  { name, binding := some coordinate }

def plain (name : String) : PortSpec := { name }

def preset (name : String) (default : Float) : PortSpec := { name, default }

def realParam (name : String) (default : Float) : ParamSpec := ⟨name, .real default⟩

/-- The ports of a point of space that reads the position. -/
def position : List PortSpec := [bound "x" .x, bound "y" .y, bound "z" .z]

def math (name title : String) (inputs : List PortSpec) (callName : Option String := none)
    (params : List ParamSpec := []) : Entry :=
  { name, title, category := .math, inputs, outputs := ["out"], params, callName }

def convert (name title : String) (inputs : List PortSpec) (callName : Option String := none)
    (params : List ParamSpec := []) : Entry :=
  { name, title, category := .convert, inputs, outputs := ["out"], params, callName }

def distance (name title : String) (inputs : List PortSpec)
    (params : List ParamSpec := []) : Entry :=
  { name, title, category := .sdf, inputs, outputs := ["sdf"], params }

def ofOperation : Operation → Entry
  | .add => math "ADD" "Add" [plain "a", plain "b"]
  | .subtract => math "SUBTRACT" "Subtract" [plain "a", plain "b"]
  | .multiply => math "MULTIPLY" "Multiply" [plain "a", plain "b"]
  | .divide => math "DIVIDE" "Divide" [plain "a", preset "b" 1]
  | .sin => math "SIN" "Sin" [plain "x"] (some "sin")
  | .floor => math "FLOOR" "Floor" [plain "x"] (some "floor")
  | .abs => math "ABS" "Abs" [plain "x"] (some "abs")
  | .sqrt => math "SQRT" "Sqrt" [plain "x"] (some "sqrt")
  | .fract => math "FRACT" "Fract" [plain "x"] (some "fract")
  | .stepify => convert "STEPIFY" "Stepify" [plain "x", preset "steps" 1] (some "stepify")
  | .wrap => convert "WRAP" "Wrap" [plain "x", preset "length" 1] (some "wrap")
  | .min => math "MIN" "Min" [plain "a", plain "b"] (some "min")
  | .max => math "MAX" "Max" [plain "a", plain "b"] (some "max")
  | .distance2 =>
    math "DISTANCE_2D" "Distance2D" [bound "x0" .x, bound "y0" .y, plain "x1", plain "y1"]
      (some "distance_2d")
  | .distance3 =>
    math "DISTANCE_3D" "Distance3D"
      [bound "x0" .x, bound "y0" .y, bound "z0" .z, plain "x1", plain "y1", plain "z1"]
      (some "distance_3d")
  | .clamp => math "CLAMP" "Clamp" [plain "x", preset "min" (-1), preset "max" 1] (some "clamp")
  | .clampConst =>
    math "CLAMP_C" "ClampC" [plain "x"] none [realParam "min" (-1), realParam "max" 1]
  | .mix => math "MIX" "Mix" [plain "a", plain "b", plain "ratio"] (some "lerp")
  | .remap =>
    convert "REMAP" "Remap" [plain "x"] none
      [realParam "min0" (-1), realParam "max0" 1, realParam "min1" (-1), realParam "max1" 1]
  | .smoothstep =>
    math "SMOOTHSTEP" "Smoothstep" [plain "x"] none [realParam "edge0" 0, realParam "edge1" 1]
  | .select =>
    convert "SELECT" "Select" [plain "a", plain "b", plain "t"] none [realParam "threshold" 0]
  | .pow => math "POW" "Pow" [plain "x", preset "p" 2] (some "pow")
  | .powInt => math "POWI" "Powi" [plain "x"] none [⟨"power", .integer 2⟩]
  | .normalize3 =>
    { name := "NORMALIZE_3D", title := "Normalize3D", category := .math
      inputs := [plain "x", plain "y", plain "z"], outputs := ["nx", "ny", "nz"] }
  | .noise2 =>
    { name := "NOISE_2D", title := "Noise2D", category := .noise
      inputs := [bound "x" .x, bound "y" .y], outputs := ["out"]
      params := [⟨"noise", .freshNoise⟩] }
  | .noise3 =>
    { name := "NOISE_3D", title := "Noise3D", category := .noise
      inputs := position, outputs := ["out"], params := [⟨"noise", .freshNoise⟩] }
  | .sdfPlane => distance "SDF_PLANE" "SdfPlane" [bound "y" .y, plain "height"]
  | .sdfBox =>
    distance "SDF_BOX" "SdfBox"
      (position ++ [preset "size_x" 10, preset "size_y" 10, preset "size_z" 10])
  | .sdfSphere => distance "SDF_SPHERE" "SdfSphere" position [realParam "radius" 1]
  | .sdfTorus =>
    distance "SDF_TORUS" "SdfTorus" position [realParam "radius1" 16, realParam "radius2" 4]
  | .sdfSmoothUnion =>
    distance "SDF_SMOOTH_UNION" "SdfSmoothUnion" [plain "a", plain "b"]
      [realParam "smoothness" 0]
  | .sdfSmoothSubtract =>
    distance "SDF_SMOOTH_SUBTRACT" "SdfSmoothSubtract" [plain "a", plain "b"]
      [realParam "smoothness" 0]

def entry : Kind → Entry
  | .constant =>
    { name := "CONSTANT", title := "Constant", category := .input
      outputs := ["value"], params := [realParam "value" 0] }
  | .input .x => { name := "INPUT_X", title := "InputX", category := .input, outputs := ["x"] }
  | .input .y => { name := "INPUT_Y", title := "InputY", category := .input, outputs := ["y"] }
  | .input .z => { name := "INPUT_Z", title := "InputZ", category := .input, outputs := ["z"] }
  | .input .sdf =>
    { name := "INPUT_SDF", title := "InputSDF", category := .input, outputs := ["sdf"] }
  | .customInput =>
    { name := "CUSTOM_INPUT", title := "CustomInput", category := .input
      outputs := ["value"] }
  | .outputSdf =>
    { name := "OUTPUT_SDF", title := "OutputSDF", category := .output
      inputs := [plain "sdf"] }
  | .outputWeight =>
    { name := "OUTPUT_WEIGHT", title := "OutputWeight", category := .output
      inputs := [plain "weight"], params := [⟨"layer", .integer 0⟩] }
  | .outputType =>
    { name := "OUTPUT_TYPE", title := "OutputType", category := .output
      inputs := [plain "type"] }
  | .customOutput =>
    { name := "CUSTOM_OUTPUT", title := "CustomOutput", category := .output
      inputs := [plain "value"] }
  | .operation op => ofOperation op
  | .preview =>
    { name := "SDF_PREVIEW", title := "SdfPreview", category := .debug
      inputs := [plain "value"]
      params := [realParam "min_value" (-1), realParam "max_value" 1] }
  | .expression =>
    { name := "EXPRESSION", title := "Expression", category := .misc
      outputs := ["out"], params := [⟨"expression", .text "0"⟩] }
  | .function => { name := "FUNCTION", title := "Function", category := .functions }
  | .relay =>
    { name := "RELAY", title := "Relay", category := .misc
      inputs := [plain "in"], outputs := ["out"] }
  | .comment =>
    { name := "COMMENT", title := "Comment", category := .misc
      params := [⟨"text", .text ""⟩] }

def kindNamed? (name : String) : Option Kind :=
  Kind.all.find? fun kind => (entry kind).name == name || (entry kind).title == name

def kindsIn (categories : List Category) : List Kind :=
  Kind.all.filter fun kind => categories.contains (entry kind).category

end Catalog

namespace Kind

def entry (kind : Kind) : Entry := Catalog.entry kind

def name (kind : Kind) : String := kind.entry.name

def hasDerivedPorts : Kind → Bool
  | .expression | .function => true
  | _ => false

def isDebugOnly : Kind → Bool
  | .preview => true
  | _ => false

end Kind

def Operation.entry (op : Operation) : Entry := Catalog.ofOperation op

/-- The operations that expressions can call. -/
def Operation.callable : List Operation :=
  Operation.all.filter fun op => op.entry.callName.isSome

end FieldGraph
