import FieldGraph.Expression.Depth

/-! # How deep a text is nested

Reading a text nests at most three calls for each of its tokens, so a short text is never nested too
deep, and two calls for each parenthesis and sign in front, so there are texts of every depth.
-/

namespace FieldGraph.Expression

open List

variable {table : List Callable} {tokens : List Token} {text : String}

theorem Reading.deeper_le {β : Type} {reading : Reading β tokens} {depth count : Nat}
    {behind : Portion β tokens → Nat} (first : depth ≤ count)
    (second : ∀ portion, behind portion ≤ count) : reading.deeper depth behind ≤ count := by
  cases reading with
  | error _ => exact first
  | ok portion => exact Nat.max_le.mpr ⟨first, second portion⟩

/-- The readers nest at most three calls in each other for a token, and two more. -/
theorem expressionDepth_le (table : List Callable) (length level : Nat) (tokens : List Token) :
    expressionDepth table length level tokens ≤ 3 * tokens.length + 2 := by
  refine (expressionDepth.mutual_induct table
    (fun level tokens => expressionDepth table length level tokens ≤ 3 * tokens.length + 2)
    (fun level left tokens => operatorsDepth table length level left tokens ≤ 3 * tokens.length)
    (fun tokens => operandDepth table length tokens ≤ 3 * tokens.length + 1)
    (fun tokens => argumentsDepth table length tokens ≤ 3 * tokens.length + 2)
    ?expression ?weak ?operator ?noOperator ?noArguments ?call ?unknown ?group ?sign ?leaf
    ?arguments).1 level tokens
  case expression =>
    intro level tokens operand operators
    rw [expressionDepth, Nat.add_comm]
    refine Nat.succ_le_succ (Reading.deeper_le operand fun left => ?_)
    have bound := left.bound
    have behind := operators left
    omega
  case operator =>
    intro level left op _ _ rest strong right more
    rw [operatorsDepth, if_neg strong, length_cons]
    refine Reading.deeper_le (by omega) fun portion => ?_
    have bound := portion.bound
    split
    · rename_i a b _
      have behind := more portion a b
      omega
    · exact Nat.zero_le _
  case call =>
    intro _ _ _ _ rest nonempty _ known args
    rw [operandDepth, known]
    · simp only [length_cons]
      omega
    · exact nonempty
  case arguments =>
    intro tokens arg more
    rw [argumentsDepth.eq_def]
    refine Reading.deeper_le arg fun portion => ?_
    split
    · rename_i behind bound
      have later := more _ _ behind bound
      rw [length_cons] at bound
      omega
    · exact Nat.zero_le _
  case group | sign =>
    intro _ _ rest inner
    rw [operandDepth, length_cons]
    omega
  -- In the other cases no reader is called.
  all_goals
    intros
    simp_all [operandDepth, operatorsDepth]
  all_goals omega

/-- An opening parenthesis and a sign in front nest two more calls. -/
theorem le_expressionDepth (table : List Callable) (length level : Nat) {outer : List Token}
    (opens : ∀ token ∈ outer, token.kind = .opening ∨ token.kind = .operator .subtract)
    (inner : List Token) :
    2 * outer.length + 2 ≤ expressionDepth table length level (outer ++ inner) := by
  have operand (level : Nat) (tokens : List Token) : 1 + operandDepth table length tokens ≤
      expressionDepth table length level tokens := by
    rw [expressionDepth]
    refine Nat.add_le_add_left ?_ 1
    cases readOperand table length tokens with
    | error _ => exact Nat.le_refl _
    | ok portion => exact Nat.le_max_left _ _
  refine Nat.le_trans ?_ (operand level _)
  induction outer with
  | nil =>
    rw [operandDepth.eq_def]
    split <;> grind
  | cons token outer ih =>
    obtain ⟨first, rest⟩ := forall_mem_cons.mp opens
    have inside (level : Nat) := Nat.le_trans (ih rest) (operand level _)
    obtain ⟨kind, text, position⟩ := token
    rw [cons_append, length_cons]
    rcases first with rfl | rfl
    · have deep := inside 0
      rw [operandDepth]
      omega
    · have deep := inside signStrength
      rw [operandDepth]
      omega

/-- The depth of a text is bounded by the number of its tokens. -/
theorem depth_le (scanned : scan text = .ok tokens) :
    depth table text ≤ 3 * tokens.length + 2 := by
  rw [depth, scanned]
  exact expressionDepth_le table text.length 0 tokens

/-- Where there is room, a text is read as it is without a limit. -/
theorem parseWithin_cases (room : Nat) (table : List Callable) (text : String) :
    room < depth table text ∧ parseWithin room table text = .error .nestedTooDeep ∨
      parseWithin room table text = parse table text := by
  unfold parseWithin
  split
  · rename_i deep
    exact .inl ⟨deep, rfl⟩
  · exact .inr rfl

theorem parseWithin_eq_ok_iff {room : Nat} {root : Option Tree} :
    parseWithin room table text = .ok root ↔
      depth table text ≤ room ∧ parse table text = .ok root := by
  unfold parseWithin
  split <;> simp <;> omega

end FieldGraph.Expression
