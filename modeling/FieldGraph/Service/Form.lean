import FieldGraph.Decimal.Reading
import FieldGraph.Value

/-! # Forms

The fields of a request. A field takes also values of other types that plainly stand for one of its
own: a text that writes a number, an integral number for an integer, a word for a truth value.
-/

namespace FieldGraph.Form

def text? : Value → Option String
  | .text s => some s
  | _ => none

/-- The magnitude that real numbers which stand for integers do not reach. -/
def integerLimit : Float := 9223372036854775808

def integerOfReal? (x : Float) : Option Int :=
  match Arithmetic.truncate? x with
  | some n => if x.floor == x && x.abs < integerLimit then some n else none
  | none => none

def integer? : Value → Option Int
  | .integer n => some n
  | .bool b => some (if b then 1 else 0)
  | .real x => integerOfReal? x
  | .text s => Decimal.integer? s
  | _ => none

def real? : Value → Option Float
  | .integer n => Arithmetic.ofInt? n
  | .bool b => some (if b then 1 else 0)
  | .real x => some x
  | .text s => Decimal.real? s
  | _ => none

def words : Bool → List String
  | true => ["1", "on", "t", "true", "y", "yes"]
  | false => ["0", "off", "f", "false", "n", "no"]

/-- The truth value that an integer stands for. -/
def boolOfInt? (n : Int) : Option Bool :=
  if n = 0 then some false else if n = 1 then some true else none

def bool? : Value → Option Bool
  | .bool b => some b
  | .integer n => boolOfInt? n
  | .real x => (integerOfReal? x).bind boolOfInt?
  | .text s => [true, false].find? fun b => (words b).contains s.toLower
  | _ => none

def list? {α : Type} (element? : Value → Option α) : Value → Option (List α)
  | .list items => items.mapM element?
  | _ => none

def reals? : Value → Option (List (String × Float))
  | .record fields => fields.mapM fun (name, value) => (real? value).map (name, ·)
  | _ => none

def required? {α : Type} (body : Value) (name : String) (read? : Value → Option α) : Option α :=
  (body.field? name).bind read?

def withDefault? {α : Type} (body : Value) (name : String) (absent : α)
    (read? : Value → Option α) : Option α :=
  match body.field? name with
  | none => some absent
  | some value => read? value

def optional? {α : Type} (body : Value) (name : String) (read? : Value → Option α) :
    Option (Option α) :=
  match body.field? name with
  | none | some .null => some none
  | some value => (read? value).map some

end FieldGraph.Form
