import FieldGraph.Catalog
import FieldGraph.Decimal.Layout
import FieldGraph.Expression.Token
import FieldGraph.Operation.Kernel

/-! # Expression trees

Trees are built through `Tree.combine` and `Tree.apply`, which replace an operator or a call of
nothing but numbers by the number it stands for, computed in double precision.
-/

namespace FieldGraph.Expression

/-- The number two numbers make under an operator. A quotient by zero is zero. -/
def BinaryOperator.apply : BinaryOperator → Float → Float → Float
  | .add, a, b => a + b
  | .subtract, a, b => a - b
  | .multiply, a, b => a * b
  | .divide, a, b => if b == 0 then 0 else a / b
  | .power, a, b => Arithmetic.powShared a b

/-- The number that two numbers make under an operator, where integers are combined
exactly. -/
def BinaryOperator.applyExact (op : BinaryOperator) (a b : Number Float) :
    Except Fault (Number Float) :=
  match op with
  | .add => a.add b
  | .subtract => a.sub b
  | .multiply => a.mul b
  | .divide => if b.isZero then .ok (.real 0) else (a.div b).map .real
  | .power => do return .real (op.apply (← a.operand) (← b.operand))

def BinaryOperator.operation : BinaryOperator → Operation
  | .add => .add
  | .subtract => .subtract
  | .multiply => .multiply
  | .divide => .divide
  | .power => .pow

/-- A function that expressions can call. -/
structure Callable where
  name : String
  arity : Nat
  operation : Operation
  evaluate : List Float → Float

instance : Inhabited Callable := ⟨⟨"", 0, .add, fun _ => 0⟩⟩

namespace Callable

def firstResult (op : Operation) (args : List Float) : Float :=
  match op.double [] args with
  | .ok (x :: _) => x
  | _ => 0 / 0

/-- The function that calls an operation of the catalog. -/
def ofOperation? (op : Operation) : Option Callable :=
  op.entry.callName.map fun name =>
    ⟨name, op.entry.inputs.length, op, firstResult op⟩

def catalog : List Callable := Operation.all.filterMap ofOperation?

def find? (table : List Callable) (name : String) : Option Callable :=
  List.find? (fun function => function.name == name) table

end Callable

/-- The tree of an expression. -/
inductive Tree where
  | number (value : Float)
  | var (name : String)
  | binary (op : BinaryOperator) (left right : Tree)
  | call (function : Callable) (args : List Tree)

namespace Tree

instance : Inhabited Tree := ⟨.number 0⟩

def number? : Tree → Option Float
  | .number value => some value
  | _ => none

def combine (op : BinaryOperator) (left right : Tree) : Tree :=
  match left, right with
  | .number a, .number b => .number (op.apply a b)
  | _, _ => .binary op left right

def apply (function : Callable) (args : List Tree) : Tree :=
  match args.mapM number? with
  | some values => .number (function.evaluate values)
  | none => .call function args

mutual

def same : Tree → Tree → Bool
  | .number a, .number b => a == b
  | .var a, .var b => a == b
  | .binary p a b, .binary q c d => p == q && same a c && same b d
  | .call f xs, .call g ys => f.name == g.name && sameAll xs ys
  | _, _ => false

def sameAll : List Tree → List Tree → Bool
  | [], [] => true
  | x :: xs, y :: ys => same x y && sameAll xs ys
  | _, _ => false

end

mutual

/-- The text of a tree, with every operator in parentheses. -/
def render : Tree → String
  | .number value => Decimal.brief.write value
  | .var name => name
  | .binary op left right =>
    "(" ++ render left ++ " " ++ op.symbol.toString ++ " " ++ render right ++ ")"
  | .call function args => function.name ++ "(" ++ ", ".intercalate (renderAll args) ++ ")"

def renderAll : List Tree → List String
  | [] => []
  | tree :: trees => render tree :: renderAll trees

end

mutual

/-- The variables of a tree from left to right, with repetitions. -/
def occurrences : Tree → List String
  | .number _ => []
  | .var name => [name]
  | .binary _ left right => occurrences left ++ occurrences right
  | .call _ args => occurrencesAll args

def occurrencesAll : List Tree → List String
  | [] => []
  | tree :: trees => occurrences tree ++ occurrencesAll trees

end

def firstAppearances (names : List String) : List String :=
  names.foldl (fun seen name => if seen.contains name then seen else seen ++ [name]) []

/-- The variables of a tree in order of first appearance. -/
def variableNames (tree : Tree) : List String := firstAppearances tree.occurrences

end Tree

def sameRoot : Option Tree → Option Tree → Bool
  | none, none => true
  | some a, some b => a.same b
  | _, _ => false

def renderRoot : Option Tree → String
  | none => ""
  | some tree => tree.render

def variablesOf : Option Tree → List String
  | none => []
  | some tree => tree.variableNames

end FieldGraph.Expression
