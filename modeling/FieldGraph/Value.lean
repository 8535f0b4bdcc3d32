import FieldGraph.Catalog
import FieldGraph.Decimal.Layout
import FieldGraph.Interval.Basic
import FieldGraph.Number
import FieldGraph.Param
import FieldGraph.Text.Quoted

/-! # Values

Values of any type, as they are proposed for params and exchanged with an editor.
`Value.quote` is the form in which messages quote a value.
-/

namespace FieldGraph

inductive Value where
  | null
  | bool (b : Bool)
  | integer (n : Int)
  | real (x : Float)
  | text (s : String)
  | list (items : List Value)
  | record (fields : List (String × Value))
  | noise (id : NoiseId)
  deriving Inhabited

namespace Number

def toValue : Number Float → Value
  | .integer n => .integer n
  | .real x => .real x

def quote : Number Float → String
  | .integer n => toString n
  | .real x => Decimal.text x

end Number

def bracketed (items : List String) : String := "[" ++ ", ".intercalate items ++ "]"

/-- Some texts between parentheses, with commas; one alone keeps a comma. -/
def tuple (items : List String) : String :=
  match items with
  | [only] => "(" ++ only ++ ",)"
  | _ => "(" ++ ", ".intercalate items ++ ")"

def Interval.quote (interval : Interval Float) : String :=
  bracketed [Decimal.text interval.lower, Decimal.text interval.upper]

namespace ValueNoise

def quote (noise : ValueNoise Float) : String :=
  "ValueNoise(seed=" ++ toString noise.seed ++ ", period=" ++ Decimal.text noise.period ++ ")"

end ValueNoise

namespace Value

mutual

/-- The quoted form of a value; `noise` gives the quoted forms of noises. -/
def quote (noise : NoiseId → String) : Value → String
  | .null => "None"
  | .bool true => "True"
  | .bool false => "False"
  | .integer n => toString n
  | .real x => Decimal.text x
  | .text s => Text.quoted s
  | .list items => bracketed (quoteAll noise items)
  | .record fields => "\x7b" ++ ", ".intercalate (quoteFields noise fields) ++ "\x7d"
  | .noise id => noise id

/-- The quoted forms of some values. -/
def quoteAll (noise : NoiseId → String) : List Value → List String
  | [] => []
  | item :: items => quote noise item :: quoteAll noise items

def quoteFields (noise : NoiseId → String) : List (String × Value) → List String
  | [] => []
  | (name, value) :: fields =>
    (Text.quoted name ++ ": " ++ quote noise value) :: quoteFields noise fields

end

def toName (noise : NoiseId → String) : Value → String
  | .text s => s
  | value => value.quote noise

def isText : Value → Bool
  | .text _ => true
  | _ => false

def field? (name : String) : Value → Option Value
  | .record fields => fields.lookup name
  | _ => none

def ofText? : Option String → Value
  | some s => .text s
  | none => .null

def ofInt? : Option Int → Value
  | some n => .integer n
  | none => .null

def ofNat (n : Nat) : Value := .integer (Int.ofNat n)

def ofNat? : Option Nat → Value
  | some n => .ofNat n
  | none => .null

def ofNoise (noise : ValueNoise Float) : Value :=
  .record [("noise", .list [.text "ValueNoise", .integer noise.seed, .real noise.period])]

def ofInterval (interval : Interval Float) : Value :=
  .list [.real interval.lower, .real interval.upper]

/-- A finite number; null for infinite and undefined ones. -/
def ofFinite (x : Float) : Value := if x.isFinite then .real x else .null

def ofNats (numbers : List Nat) : Value := .list (numbers.map ofNat)

def ofInts (numbers : List Int) : Value := .list (numbers.map .integer)

end Value

/-- Sorts by ascending keys, which are compared element by element. -/
def ascendingBy {α : Type} (key : α → List Int) (items : List α) : List α :=
  items.mergeSort fun a b => !(key b).lex (key a)

/-- Whether a param of the type can hold a value. An integer can stand for a real number. -/
def ParamType.accepts : ParamType → Value → Bool
  | .real, .real _ | .real, .integer _ => true
  | .integer, .integer _ => true
  | .text, .text _ => true
  | .textList, .list items => items.all Value.isText
  | .resource, .null | .resource, .noise _ => true
  | _, _ => false

namespace Catalog

def bindingName : Option Coordinate → String
  | none => "none"
  | some .x => "x"
  | some .y => "y"
  | some .z => "z"
  | some .sdf => "sdf"

/-- The document of a first value; a fresh noise has none. -/
def defaultDocument : ParamDefault → Value
  | .real x => .real x
  | .integer n => .integer n
  | .text s => .text s
  | .freshNoise => .null

end Catalog

def Kind.document (kind : Kind) : Value :=
  let entry := kind.entry
  .record [
    ("id", .ofNat kind.number),
    ("type", .text entry.name),
    ("name", .text entry.title),
    ("category", .text entry.category.name),
    ("inputs", .list (entry.inputs.map fun port => .record [
      ("name", .text port.name),
      ("default_value", .real port.default),
      ("autoconnect", .text (Catalog.bindingName port.binding))])),
    ("outputs", .list (entry.outputs.map .text)),
    ("params", .list (entry.params.map fun param => .record [
      ("name", .text param.name),
      ("type", .text param.type.name),
      ("default_value", Catalog.defaultDocument param.default)])),
    ("expression_function", .ofText? entry.callName),
    ("dynamic_ports", .bool kind.hasDerivedPorts)]

/-- The document of a noise: its settings and the range of its values. -/
def ValueNoise.document (noise : ValueNoise Float) : Value :=
  .record [
    ("seed", .integer noise.seed),
    ("period", .real noise.period),
    ("range", .list [.real lowest, .real highest]),
    ("state", .list [.text "ValueNoise", .integer noise.seed, .real noise.period]),
    ("repr", .text noise.quote)]

end FieldGraph
