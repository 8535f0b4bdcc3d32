import FieldGraph.Proofs.Compile.Substitution

/-! # Numbers given at run time

What an expression makes of numbers only is computed when it is read, in double precision;
everything else is computed for each sample, in single precision. If a number of an
expression is given at run time instead, by a variable of its own, then the steps around it
move from the one to the other. The value of the expression stays the same as long as each
of these steps has the same value in single precision, and no power loses its rule for
integer exponents.
-/

namespace FieldGraph

open List Option

/-- A quantity as it is given at run time. -/
def Quantity.sampled (quantity : Quantity) : Quantity := .sample quantity.single

namespace Operation

variable {op : Operation} {params : List (Literal Float)} {operands : List Quantity} {place : Nat}
  {name : String}

/-- The first result of an operation without parameters. -/
def firstOf (op : Operation) (operands : List Quantity) : Option Quantity :=
  (op.denote [] operands).bind head?

theorem map_single_modify (operands : List Quantity) (place : Nat) :
    (operands.modify place Quantity.sampled).map Quantity.single =
      operands.map Quantity.single := by
  induction operands generalizing place with
  | nil => simp
  | cons operand operands ih =>
    cases place with
    | zero => rfl
    | succ place => rw [modify_succ_cons, map_cons, map_cons, ih]

/-- A result that depends on a sample is a sample. -/
theorem resultsOf_modify (inside : place < operands.length) :
    op.resultsOf params (operands.modify place Quantity.sampled) =
      (op.resultsOf params operands).map (map Quantity.sampled) := by
  have sample : (operands.modify place Quantity.sampled).all Quantity.isLiteral = false := by
    rw [List.all_eq_false]
    refine ⟨operands[place].sampled, ?_, by simp [Quantity.sampled, Quantity.isLiteral]⟩
    exact mem_of_getElem? (i := place) (by simp [inside])
  have literal (x : Float32) :
      Quantity.sampled (.literal (Precision.widen x)) = .sample x :=
    congrArg Quantity.sample (Single.ofDouble_toDouble x)
  unfold resultsOf
  rw [map_single_modify, sample]
  cases (op.single params (operands.map Quantity.single)).toOption with
  | none => rfl
  | some results =>
    simp only [Bool.and_false, Bool.false_eq_true, if_false]
    split
    · simp [literal]
    · simp [Quantity.sampled, Quantity.single]

/-- Giving one operand at run time changes the results in nothing but that, unless it is
an integer that a power has for its exponent. -/
theorem denote_modify (inside : place < operands.length)
    (exponent : op = .pow → place = 1 → ∀ base e, operands = [base, .literal e] →
      Arithmetic.toInt? e = none) :
    op.denote params (operands.modify place Quantity.sampled) =
      (op.denote params operands).map (map Quantity.sampled) := by
  by_cases plain : op ≠ .pow ∨ operands.length ≠ 2
  · rw [denote_eq_resultsOf plain, denote_eq_resultsOf (by rwa [length_modify])]
    exact resultsOf_modify inside
  rw [not_or, not_ne_iff, not_ne_iff] at plain
  obtain ⟨rfl, two⟩ := plain
  obtain ⟨base, last, rfl⟩ := length_eq_two.mp two
  have kept : resultsOf .pow params ([base, last].modify place Quantity.sampled) =
      (resultsOf .pow params [base, last]).map (map Quantity.sampled) := resultsOf_modify inside
  cases last with
  | sample x =>
    match place, inside with
    | 0, _ | 1, _ => exact kept
  | literal e =>
    match place, inside with
    | 0, _ =>
      change denote .pow params [base.sampled, .literal e] = _
      simp only [denote]
      cases Arithmetic.toInt? e with
      | none => exact kept
      | some n =>
        have whole := @resultsOf_modify .powInt [.integer n] [base] 0 Nat.one_pos
        exact whole
    | 1, _ =>
      rw [show denote .pow params [base, .literal e] = resultsOf .pow params [base, .literal e] by
        simp only [denote, exponent rfl rfl base]]
      exact kept

end Operation

namespace Expression

/-- The number that two numbers make under an operator. -/
def BinaryOperator.evaluate (op : BinaryOperator) : List Float → Float
  | [a, b] => op.apply a b
  | _ => 0

namespace Tree

variable {bindings others : Table String Quantity} {op : Operation}
  {evaluate : List Float → Float} {args : List Tree} {place : Nat} {name : String}

/-- The value of an operator or a call in a tree that has been folded. -/
def stepValue (bindings : Table String Quantity) (op : Operation) (evaluate : List Float → Float)
    (args : List Tree) : Option Quantity :=
  match (foldAll args).mapM number? with
  | some values => some (.literal (evaluate values))
  | none => (denoteAll bindings (foldAll args)).bind op.firstOf

theorem denote_fold_binary (op : BinaryOperator) (left right : Tree) :
    (binary op left right).fold.denote bindings =
      stepValue bindings op.operation op.evaluate [left, right] := by
  have folded : (binary op left right).fold = combine op left.fold right.fold := by rw [fold]
  have operands : foldAll [left, right] = [left.fold, right.fold] := by
    rfl
  rw [folded, stepValue, operands]
  unfold combine
  split
  · rename_i a b here there
    rw [here, there]
    simp [number?, denote, BinaryOperator.evaluate]
  · rename_i apart
    have open_ : [left.fold, right.fold].mapM number? = none := by
      cases here : left.fold <;> cases there : right.fold <;> simp [number?]
      exact apart _ _ here there
    rw [open_]
    simp [denote, denoteAll, Operation.firstOf, bind_assoc]

theorem denote_fold_call (fn : Callable) (args : List Tree) :
    (call fn args).fold.denote bindings = stepValue bindings fn.operation fn.evaluate args := by
  have folded : (call fn args).fold = Tree.apply fn (foldAll args) := by rw [fold]
  rw [folded, stepValue, Tree.apply]
  cases (foldAll args).mapM number? with
  | some values => simp only [denote]
  | none => rfl

theorem denoteAll_congr
    (kept : ∀ tree ∈ args, tree.fold.denote others = tree.fold.denote bindings) :
    denoteAll others (foldAll args) = denoteAll bindings (foldAll args) := by
  induction args with
  | nil => rfl
  | cons tree trees ih =>
    rw [foldAll, denoteAll, denoteAll, kept tree mem_cons_self,
      ih fun tree mem => kept tree (mem_cons_of_mem _ mem)]

theorem not_mem_occurrences (fresh : name ∉ occurrencesAll args) {tree : Tree} (mem : tree ∈ args) :
    name ∉ tree.occurrences := by
  induction args with
  | nil => cases mem
  | cons first trees ih =>
    rw [occurrencesAll, mem_append, not_or] at fresh
    obtain rfl | mem := mem_cons.mp mem
    · exact fresh.1
    · exact ih fresh.2 mem

/-- A tree does not depend on a variable that it does not have. -/
theorem denote_insert_of_fresh {value : Quantity} (tree : Tree) (fresh : name ∉ tree.occurrences) :
    tree.fold.denote (bindings.insert name value) = tree.fold.denote bindings := by
  match tree with
  | .number x => simp [fold, denote]
  | .var other =>
    have different : other ≠ name := fun same => fresh (by simp [occurrences, same])
    exact Table.get?_insert_of_ne _ _ different
  | .binary op left right =>
    rw [occurrences, mem_append, not_or] at fresh
    rw [denote_fold_binary, denote_fold_binary, stepValue, stepValue]
    simp only [foldAll, denoteAll, denote_insert_of_fresh left fresh.1,
      denote_insert_of_fresh right fresh.2]
  | .call fn args =>
    rw [denote_fold_call, denote_fold_call, stepValue, stepValue, denoteAll_congr
      fun tree mem => denote_insert_of_fresh tree (not_mem_occurrences fresh mem)]

/-! ## One step -/

/-- An operator or a call makes the same of its operands if one of them is given at run
time. -/
structure Steady (bindings : Table String Quantity) (op : Operation)
    (evaluate : List Float → Float) (args : List Tree) (place : Nat) : Prop where
  /-- What is computed from numbers only has the same value in single precision. -/
  computed : ∀ values, (foldAll args).mapM number? = some values →
    op.firstOf ((values.map .literal).modify place .sampled) =
      some (.sample (Precision.narrow (evaluate values)))
  /-- Otherwise the operand is not an integer that a power has for its exponent. -/
  exponent : (foldAll args).mapM number? = none → op = .pow → place = 1 → ∀ base e,
    denoteAll bindings (foldAll args) = some [base, .literal e] → Arithmetic.toInt? e = none

theorem denoteAll_foldAll (trees : List Tree) :
    denoteAll bindings (foldAll trees) = trees.mapM fun tree => tree.fold.denote bindings := by
  induction trees with
  | nil => rfl
  | cons tree trees ih => rw [foldAll, denoteAll, ih, mapM_cons]

theorem denoteAll_of_numbers {values : List Float}
    (numbers : (foldAll args).mapM number? = some values) :
    denoteAll bindings (foldAll args) = some (values.map .literal) := by
  rw [foldAll_eq_map, mapM_eq_some_iff, forall₂_map_left_iff] at numbers
  rw [denoteAll_foldAll, mapM_eq_some_iff, forall₂_map_right_iff]
  refine numbers.imp fun tree x number => ?_
  cases folded : tree.fold with
  | number y =>
    rw [folded] at number
    cases number
    rfl
  | _ => simp [folded, number?] at number

/-- The operands of a step, if the tree of one of them gives its value at run time. -/
theorem denoteAll_set {arg freed : Tree} (here : args[place]? = some arg)
    (sampled : freed.fold.denote others = (arg.fold.denote bindings).map .sampled)
    (kept : ∀ tree ∈ args, tree.fold.denote others = tree.fold.denote bindings) :
    denoteAll others (foldAll (args.set place freed)) =
      (denoteAll bindings (foldAll args)).map (·.modify place .sampled) := by
  induction args generalizing place with
  | nil => simp at here
  | cons first args ih =>
    have rest : ∀ tree ∈ args, tree.fold.denote others = tree.fold.denote bindings :=
      fun tree mem => kept tree (mem_cons_of_mem _ mem)
    cases place with
    | zero =>
      obtain rfl := some.inj here
      rw [set_cons_zero, foldAll, denoteAll, sampled, denoteAll_congr rest, foldAll, denoteAll]
      cases first.fold.denote bindings <;> cases denoteAll bindings (foldAll args) <;> rfl
    | succ place =>
      rw [set_cons_succ, foldAll, denoteAll, kept first mem_cons_self, ih here rest, foldAll,
        denoteAll]
      cases first.fold.denote bindings <;> cases denoteAll bindings (foldAll args) <;> rfl

theorem stepValue_set {arg freed : Tree} (here : args[place]? = some arg)
    (sampled : freed.fold.denote others = (arg.fold.denote bindings).map .sampled)
    (kept : ∀ tree ∈ args, tree.fold.denote others = tree.fold.denote bindings)
    (steady : Steady bindings op evaluate args place) :
    stepValue others op evaluate (args.set place freed) =
      (stepValue bindings op evaluate args).map .sampled := by
  obtain ⟨inside, -⟩ := List.getElem?_eq_some_iff.mp here
  -- The operand that is given at run time keeps the step from being computed in advance.
  have delayed : (foldAll (args.set place freed)).mapM number? = none := by
    cases numbers : (foldAll (args.set place freed)).mapM number? with
    | none => rfl
    | some values =>
      rw [foldAll_eq_map, mapM_eq_some_iff, forall₂_map_left_iff] at numbers
      obtain ⟨x, -, number⟩ := exists_of_forall₂_left numbers (mem_set inside freed)
      cases folded : freed.fold with
      | number y =>
        rw [folded] at sampled
        obtain ⟨value, -, literal⟩ := map_eq_some_iff.mp sampled.symm
        cases literal
      | _ => simp [folded, number?] at number
  rw [stepValue, delayed, stepValue, denoteAll_set here sampled kept]
  cases numbers : (foldAll args).mapM number? with
  | some values =>
    rw [denoteAll_of_numbers numbers]
    exact steady.computed values numbers
  | none =>
    cases operands : denoteAll bindings (foldAll args) with
    | none => rfl
    | some quantities =>
      have many : place < quantities.length := by
        rw [denoteAll_foldAll, mapM_eq_some_iff] at operands
        rwa [← operands.length_eq]
      have results : op.denote [] (quantities.modify place .sampled) =
          (op.denote [] quantities).map (map .sampled) := Operation.denote_modify many
        fun power second base e same =>
          steady.exponent numbers power second base e (same ▸ operands)
      simp only [map_some, bind_some, Operation.firstOf, results]
      cases op.denote [] quantities with
      | none => rfl
      | some made => cases made <;> rfl

/-! ## Whole trees -/

/-- `Frees bindings name x tree freed` says that `freed` is `tree` with one of its numbers,
`x`, replaced by a variable, and that all steps around the number are steady. -/
inductive Frees (bindings : Table String Quantity) (name : String) (x : Float) :
    Tree → Tree → Prop
  | number : Frees bindings name x (.number x) (.var name)
  | left {op : BinaryOperator} {left right freed : Tree} : Frees bindings name x left freed →
      Steady bindings op.operation op.evaluate [left, right] 0 →
        Frees bindings name x (.binary op left right) (.binary op freed right)
  | right {op : BinaryOperator} {left right freed : Tree} : Frees bindings name x right freed →
      Steady bindings op.operation op.evaluate [left, right] 1 →
        Frees bindings name x (.binary op left right) (.binary op left freed)
  | arg {fn : Callable} {args : List Tree} {place : Nat} {arg freed : Tree} :
      args[place]? = some arg → Frees bindings name x arg freed →
        Steady bindings fn.operation fn.evaluate args place →
          Frees bindings name x (.call fn args) (.call fn (args.set place freed))

theorem Frees.denote_eq {x : Float} {tree freed : Tree} (frees : Frees bindings name x tree freed)
    (fresh : name ∉ tree.occurrences) :
    freed.fold.denote (bindings.insert name (.sample (Precision.narrow x))) =
      (tree.fold.denote bindings).map .sampled := by
  induction frees with
  | number => exact Table.get?_insert_self _ _ _
  | @left op left right freed _ steady ih =>
    rw [occurrences, mem_append, not_or] at fresh
    rw [denote_fold_binary, denote_fold_binary]
    refine stepValue_set rfl (ih fresh.1) ?_ steady
    simp [denote_insert_of_fresh left fresh.1, denote_insert_of_fresh right fresh.2]
  | @right op left right freed _ steady ih =>
    rw [occurrences, mem_append, not_or] at fresh
    rw [denote_fold_binary, denote_fold_binary]
    refine stepValue_set rfl (ih fresh.2) ?_ steady
    simp [denote_insert_of_fresh left fresh.1, denote_insert_of_fresh right fresh.2]
  | arg here _ steady ih =>
    rw [denote_fold_call, denote_fold_call]
    exact stepValue_set here (ih (not_mem_occurrences fresh (mem_of_getElem? here)))
      (fun tree mem => denote_insert_of_fresh tree (not_mem_occurrences fresh mem)) steady

end Tree

/-- A text is read as a derivation tree, before anything is folded. -/
def ReadsAs (text : String) (tree : Tree) : Prop :=
  ∃ tokens, scan text = .ok tokens ∧ Root Callable.catalog tokens (some tree)

theorem ReadsAs.parse {text : String} {tree : Tree} (reads : ReadsAs text tree) :
    Expression.parse Callable.catalog text = .ok (some tree.fold) := by
  obtain ⟨tokens, scanned, root⟩ := reads
  exact parse_eq_ok_iff.mpr ⟨tokens, some tree, scanned, root, rfl⟩

end Expression

namespace Node

open Expression

/-- The values that the variables of an expression node have. -/
def bindings (node : Node) (operands : List Quantity) : Table String Quantity :=
  (node.inputs.zip operands).foldl (fun table (port, value) => table.insert port.name value) {}

/-- **Numbers can be given at run time.** Take two expression nodes, the second with one
more port, whose texts have the same tree but for one number, in the place of which the
second text has a variable for the new port that the first does not have. Let every step
around the number be steady: if it is computed from numbers only when the text is read,
then it has the same value in single precision, and the number is not part of an integer
exponent. Then the nodes have the same value at every sample, if the number is fed to the
new port in single precision. -/
theorem expressionValue_frees {node other : Node} {port : InputPort} {operands : List Quantity}
    {tree freed : Tree} {x : Float} (reads : ReadsAs node.expressionText tree)
    (readsFreed : ReadsAs other.expressionText freed) (ports : other.inputs = node.inputs ++ [port])
    (fed : operands.length = node.inputs.length) (fresh : port.name ∉ tree.occurrences)
    (frees : Tree.Frees (node.bindings operands) port.name x tree freed) :
    (other.expressionValue (operands ++ [.sample (Precision.narrow x)])).map Quantity.single =
      (node.expressionValue operands).map Quantity.single := by
  have bound : other.bindings (operands ++ [.sample (Precision.narrow x)]) =
      (node.bindings operands).insert port.name (.sample (Precision.narrow x)) := by
    rw [bindings, ports, zip_append fed.symm, foldl_append]
    rfl
  have first : node.expressionValue operands = tree.fold.denote (node.bindings operands) := by
    rw [expressionValue, reads.parse]
    rfl
  have second : other.expressionValue (operands ++ [.sample (Precision.narrow x)]) =
      freed.fold.denote (other.bindings (operands ++ [.sample (Precision.narrow x)])) := by
    rw [expressionValue, readsFreed.parse]
    rfl
  rw [first, second, bound, frees.denote_eq fresh, Option.map_map]
  rfl

/-- A sum that is computed when the text is read, and is exact in both precisions. -/
theorem expressionValue_frees_sum :
    let node : Node := { id := 1, kind := .expression, params := [.text "1+2"] }
    let other : Node :=
      { id := 1, kind := .expression, inputs := [{ name := "b" }], params := [.text "b+2"] }
    (other.expressionValue [.sample (Precision.narrow (1 : Float))]).map Quantity.single =
      (node.expressionValue []).map Quantity.single := by
  intro node other
  have one : numberValue? "1" = some 1 := by decide +kernel
  have two : numberValue? "2" = some 2 := by decide +kernel
  have scanned : scan "1+2" = .ok [⟨.number, "1", 0⟩, ⟨.operator .add, "+", 1⟩,
      ⟨.number, "2", 2⟩] := by decide +kernel
  have scannedFreed : scan "b+2" = .ok [⟨.name, "b", 0⟩, ⟨.operator .add, "+", 1⟩,
      ⟨.number, "2", 2⟩] := by decide +kernel
  have last : Derives Callable.catalog .primary [⟨.number, "2", 2⟩] (.number 2) := .number rfl two
  have derives {first : Token} {tree : Tree}
      (primary : Derives Callable.catalog .primary [first] tree) : Derives Callable.catalog .sum
        [first, ⟨.operator .add, "+", 1⟩, ⟨.number, "2", 2⟩] (.binary .add tree (.number 2)) :=
    .sum (.ofProduct (.ofUnary (.ofPower (.ofPrimary primary)))) rfl (.inl rfl)
      (.ofUnary (.ofPower (.ofPrimary last)))
  have steady : Tree.Steady (node.bindings []) BinaryOperator.add.operation
      BinaryOperator.add.evaluate [.number 1, .number 2] 0 := by
    refine ⟨fun values numbers => ?_, fun numbers => ?_⟩
    · obtain rfl : [1, 2] = values := some.inj numbers
      rfl
    · cases numbers
  exact @expressionValue_frees node other { name := "b" } [] _ _ 1
    ⟨_, scanned, .sum (derives (.number rfl one))⟩ ⟨_, scannedFreed, .sum (derives (.var rfl))⟩ rfl
    rfl (by decide) (.left .number steady)

end Node

end FieldGraph
