import FieldGraph.Proofs.Interval.Elementary
import FieldGraph.Proofs.Results

/-! # Smaller inputs have smaller ranges

The rules for operations on rational numbers keep containment. Rules with several forms are compared
across them, since a smaller interval can be on one side of zero or between two integers where the
larger one is not. So range analysis keeps containment too: smaller intervals for the inputs of a
program give smaller intervals at all its addresses.
-/

namespace FieldGraph

open Arithmetic Extended FieldGraph.Interval List

namespace Operation

variable {x x' y y' z z' : Interval Extended}

theorem stepifyRange_within (within : x.Within x') (steps : y.Within y') :
    (stepifyRange x y).Within (stepifyRange x' y') := by
  have proper : (stepifyRange x y).Proper := by
    unfold stepifyRange
    split_ifs
    · exact proper_between _ _
    · exact proper_between _ _
    · exact steps.inner.whole.outer
  simp only [stepifyRange, lt_eq_true, zero_eq, bottom_le_rational, true_and, steps.upper_defined,
    steps.outer.upper_defined] at proper ⊢
  rcases lt_or_ge (rational 0) y'.lower with pos | nonpos
  · have inner := pos.trans_le steps.lower
    rw [if_pos inner, if_pos pos, one_div_eq steps.inner_defined inner.ne',
      one_div_eq steps.defined pos.ne']
    exact within.lowered
      (neg_le_neg_iff.mpr (rational_le_rational.mp (steps.reciprocals (.inl pos)).upper))
      (neg_nonpos.mpr (reciprocal_nonneg inner.le))
  rw [if_neg nonpos.not_gt]
  rcases lt_or_ge y'.upper (rational 0) with negative | nonneg
  · have inner := steps.upper.trans_lt negative
    rw [if_neg (steps.ordered.trans_lt inner).not_gt, if_pos inner, if_pos negative,
      one_div_eq steps.upper_defined inner.ne, one_div_eq steps.outer.upper_defined negative.ne]
    exact within.lifted (neg_nonneg.mpr (reciprocal_nonpos inner.le))
      (neg_le_neg_iff.mpr (rational_le_rational.mp (steps.reciprocals (.inr negative)).lower))
  · rw [if_neg nonneg.not_gt]
    exact proper.whole

theorem wrapRange_within (within : x.Within x') (length : y.Within y') :
    (wrapRange x y).Within (wrapRange x' y') := by
  have spread {k : Interval Extended} (proper : k.Proper) :
      between (least k.lower (rational 0)) (greatest k.upper (rational 0)) =
        ⟨k.lower ⊓ rational 0, k.upper ⊔ rational 0⟩ := by
    rw [least_eq bottom_le_rational, greatest_eq proper.upper_defined]
    exact between_eq (le_inf proper.defined bottom_le_rational) (inf_le_right.trans le_sup_right)
  have spread_within : Within ⟨y.lower ⊓ rational 0, y.upper ⊔ rational 0⟩
      ⟨y'.lower ⊓ rational 0, y'.upper ⊔ rational 0⟩ :=
    ⟨le_inf length.defined bottom_le_rational, inf_le_inf length.lower le_rfl,
      inf_le_right.trans le_sup_right, sup_le_sup length.upper le_rfl⟩
  simp only [wrapRange, Bool.and_eq_true, lt_eq_true, le_eq_true, zero_eq, bottom_le_rational,
    true_and, length.upper_defined, length.outer.upper_defined, within.upper_defined,
    within.outer.upper_defined, spread length.inner, spread length.outer]
  rcases lt_or_ge (rational 0) y'.lower with pos | nonpos
  · have inner := pos.trans_le length.lower
    rw [between_eq bottom_le_rational (inner.le.trans length.ordered),
      between_eq bottom_le_rational (pos.le.trans length.outer_ordered)]
    split_ifs with fits fits' fits'
    · exact within
    · exact ⟨bottom_le_rational, fits.1, within.ordered,
        fits.2.le.trans (length.ordered.trans length.upper)⟩
    · exact absurd ⟨fits'.1.trans within.lower,
        within.upper.trans_lt (fits'.2.trans_le length.lower)⟩ fits
    · exact ⟨bottom_le_rational, le_rfl, inner.le.trans length.ordered, length.upper⟩
  rw [if_neg nonpos.not_gt]
  rcases lt_or_ge y'.upper (rational 0) with negative | nonneg
  · have inner := length.upper.trans_lt negative
    have below := length.ordered.trans inner.le
    rw [if_neg below.not_gt, if_pos inner, if_pos negative, between_eq length.inner_defined below,
      between_eq length.defined (length.outer_ordered.trans negative.le)]
    exact ⟨length.defined, length.lower, below, le_rfl⟩
  · rw [if_neg nonneg.not_gt]
    split_ifs with inner fits inner'
    · exact within_union_left within spread_within.outer
    · rw [between_eq bottom_le_rational (inner.le.trans length.ordered)]
      exact within_union_right ⟨spread_within.defined, inf_le_right,
        inner.le.trans length.ordered, length.upper.trans le_sup_left⟩ within.outer
    · rw [between_eq length.inner_defined (length.ordered.trans inner'.le)]
      exact within_union_right ⟨spread_within.defined, inf_le_left.trans length.lower,
        length.ordered.trans inner'.le, le_sup_right⟩ within.outer
    · exact within.union spread_within

theorem remapRange_within (within : x.Within x') (min0 max0 min1 max1 : ℚ) :
    (remapRange (rational min0) (rational max0) (rational min1) (rational max1) x).Within
      (remapRange (rational min0) (rational max0) (rational min1) (rational max1) x') := by
  unfold remapRange
  simp only [eq_eq_true, bottom_le_rational, true_and, rational.injEq]
  split_ifs with degenerate
  · exact proper_between _ _
  · rw [rational_sub, rational_sub, rational_div (sub_ne_zero.mpr degenerate)]
    exact ((within.shiftDown min0).scale _).shift min1

theorem selectRange_within (threshold : ℚ) (first : x.Within x') (second : y.Within y')
    (control : z.Within z') :
    (selectRange (rational threshold) x y z).Within
      (selectRange (rational threshold) x' y' z') := by
  unfold selectRange
  simp only [lt_eq_true, le_eq_true, control.upper_defined, control.outer.upper_defined,
    bottom_le_rational, true_and]
  -- A smaller control is on the side of the threshold where the larger one is.
  split_ifs with below below' above' above below' above' below' above'
  · exact first
  · exact absurd below (above'.trans (control.lower.trans control.ordered)).not_gt
  · exact within_union_left first second.outer
  · exact absurd (control.upper.trans_lt below') below
  · exact second
  · exact within_union_right second first.outer
  · exact absurd (control.upper.trans_lt below') below
  · exact absurd (above'.trans control.lower) above
  · exact first.union second

/-- An operation on rational numbers, with the params and the number of operands it has in the
catalog. -/
inductive Exact : Operation → List (Literal Extended) → Nat → Prop
  | add : Exact .add [] 2
  | subtract : Exact .subtract [] 2
  | multiply : Exact .multiply [] 2
  | divide : Exact .divide [] 2
  | floor : Exact .floor [] 1
  | abs : Exact .abs [] 1
  | fract : Exact .fract [] 1
  | stepify : Exact .stepify [] 2
  | wrap : Exact .wrap [] 2
  | min : Exact .min [] 2
  | max : Exact .max [] 2
  | clamp : Exact .clamp [] 3
  | clampConst (low high : ℚ) : Exact .clampConst [.real (rational low), .real (rational high)] 1
  | mix : Exact .mix [] 3
  | remap (min0 max0 min1 max1 : ℚ) :
      Exact .remap [.real (rational min0), .real (rational max0), .real (rational min1),
        .real (rational max1)] 1
  | smoothstep (edge0 edge1 : ℚ) :
      Exact .smoothstep [.real (rational edge0), .real (rational edge1)] 1
  | select (threshold : ℚ) : Exact .select [.real (rational threshold)] 3
  | powInt (exp : ℤ) : Exact .powInt [.integer exp] 1
  | sdfPlane : Exact .sdfPlane [] 2
  | sdfSmoothUnion (smoothness : ℚ) : Exact .sdfSmoothUnion [.real (rational smoothness)] 2
  | sdfSmoothSubtract (smoothness : ℚ) : Exact .sdfSmoothSubtract [.real (rational smoothness)] 2

section Operands

variable {α β : Type} {r : α → β → Prop} {as : List α} {bs : List β}

variable (related : Forall₂ r as bs)

include related

theorem one_operand (count : as.length = 1) : ∃ a b, as = [a] ∧ bs = [b] ∧ r a b := by
  obtain _ | ⟨first, _ | _⟩ := related <;> simp_all

theorem two_operands (count : as.length = 2) :
    ∃ a b c d, as = [a, c] ∧ bs = [b, d] ∧ r a b ∧ r c d := by
  obtain _ | ⟨first, _ | ⟨second, _ | _⟩⟩ := related <;> simp_all

theorem three_operands (count : as.length = 3) :
    ∃ a b c d e f, as = [a, c, e] ∧ bs = [b, d, f] ∧ r a b ∧ r c d ∧ r e f := by
  obtain _ | ⟨first, _ | ⟨second, _ | ⟨third, _ | _⟩⟩⟩ := related <;> simp_all

end Operands

/-- From smaller intervals for its operands an operation has a smaller one for its result. -/
theorem range_within {op : Operation} {params : List (Literal Extended)} {count : Nat}
    {smaller larger : List (Interval Extended)} (exact : op.Exact params count)
    (length : smaller.length = count) (within : Forall₂ Within smaller larger) :
    ∃ i j, op.range params smaller = .ok [i] ∧ op.range params larger = .ok [j] ∧ i.Within j := by
  cases exact
  case' floor | abs | fract | clampConst | remap | smoothstep | powInt =>
    obtain ⟨i, j, rfl, rfl, first⟩ := one_operand within length
  case' add | subtract | sdfPlane | multiply | divide | stepify | wrap | min | max |
      sdfSmoothUnion | sdfSmoothSubtract =>
    obtain ⟨_, _, _, _, rfl, rfl, first, second⟩ := two_operands within length
  case' clamp | mix | select =>
    obtain ⟨_, _, _, _, _, _, rfl, rfl, first, second, third⟩ := three_operands within length
  case add => exact ⟨_, _, rfl, rfl, first.add second⟩
  case subtract | sdfPlane => exact ⟨_, _, rfl, rfl, first.sub second⟩
  case multiply => exact ⟨_, _, rfl, rfl, first.mul second⟩
  case divide => exact ⟨_, _, rfl, rfl, first.div second⟩
  case floor => exact ⟨_, _, rfl, rfl, first.floor⟩
  case abs => exact ⟨_, _, rfl, rfl, first.abs⟩
  case fract => exact ⟨_, _, rfl, rfl, first.fract⟩
  case stepify => exact ⟨_, _, rfl, rfl, stepifyRange_within first second⟩
  case wrap => exact ⟨_, _, rfl, rfl, wrapRange_within first second⟩
  case min => exact ⟨_, _, rfl, rfl, first.min second⟩
  case max => exact ⟨_, _, rfl, rfl, first.max second⟩
  case clamp => exact ⟨_, _, rfl, rfl, first.clamp second third⟩
  case clampConst =>
    exact ⟨_, _, rfl, rfl, first.clamp (proper_between _ _) (proper_between _ _)⟩
  case mix => exact ⟨_, _, rfl, rfl, first.add (third.mul (second.sub first))⟩
  case remap => exact ⟨_, _, rfl, rfl, remapRange_within first _ _ _ _⟩
  case smoothstep => exact ⟨_, _, rfl, rfl, first.smoothstep _ _⟩
  case select => exact ⟨_, _, rfl, rfl, selectRange_within _ first second third⟩
  case sdfSmoothUnion => exact ⟨_, _, rfl, rfl, first.smoothUnion second _⟩
  case sdfSmoothSubtract => exact ⟨_, _, rfl, rfl, first.smoothSubtract second _⟩
  case powInt n =>
    refine ⟨i.powers n, j.powers n, ?_, ?_, first.powers n⟩
    · exact congrArg one? (powInt?_eq first.inner n)
    · exact congrArg one? (powInt?_eq first.outer n)

end Operation

/-- An instruction for an operation on rational numbers, with one result. -/
structure Instruction.Exact (instr : Instruction Extended) : Prop where
  operation : instr.operation.Exact instr.params instr.inputs.length
  result : ∃ addr, instr.outputs = [addr]

namespace Program

variable {i : Interval Extended} {instr : Instruction Extended}

/-- All instructions are for operations on rational numbers, and all constants are rational. -/
structure Exact (prog : Program Extended) : Prop where
  instructions : ∀ instr ∈ prog.instructions, instr.Exact
  constants : ∀ entry ∈ prog.constants, ∃ q : ℚ, entry.2 = rational q

variable {ranges ranges' smaller : List (Interval Extended)}

theorem getD_within (within : Forall₂ Within ranges ranges') (addr : Nat) :
    (ranges.getD addr .whole).Within (ranges'.getD addr .whole) := by
  induction within generalizing addr with
  | nil => exact ⟨le_rfl, le_rfl, bottom_le_top, le_rfl⟩
  | cons first rest ih =>
    cases addr with
    | zero => exact first
    | succ addr => exact ih addr

theorem set_within {j : Interval Extended} (within : Forall₂ Within ranges ranges')
    (new : i.Within j) (addr : Nat) : Forall₂ Within (ranges.set addr i) (ranges'.set addr j) := by
  induction within generalizing addr with
  | nil => exact .nil
  | cons first rest ih =>
    cases addr with
    | zero => exact .cons new rest
    | succ addr => exact .cons first (ih addr)

theorem foldl_set_within {ι : Type} {entries : List ι} {addr : ι → Nat}
    {inner outer : ι → Interval Extended}
    (new : ∀ entry ∈ entries, (inner entry).Within (outer entry))
    (within : Forall₂ Within ranges ranges') :
    Forall₂ Within
      (entries.foldl (fun ranges entry => ranges.set (addr entry) (inner entry)) ranges)
      (entries.foldl (fun ranges entry => ranges.set (addr entry) (outer entry)) ranges') := by
  induction entries generalizing ranges ranges' with
  | nil => exact within
  | cons entry rest ih =>
    obtain ⟨first, later⟩ := forall_mem_cons.mp new
    exact ih later (set_within within first _)

theorem inputRanges_within {prog : Program Extended} {box box' : Box Extended}
    (smaller : ∀ entry ∈ prog.inputs,
      ((box entry.1).getD .whole).Within ((box' entry.1).getD .whole)) :
    Forall₂ Within (prog.inputRanges box) (prog.inputRanges box') := by
  have start : Forall₂ Within (List.replicate prog.bufferCount whole)
      (List.replicate prog.bufferCount whole) :=
    forall₂_same.mpr fun i mem => by
      rw [eq_of_mem_replicate mem]
      exact ⟨le_rfl, le_rfl, bottom_le_top, le_rfl⟩
  exact foldl_set_within (fun entry _ => proper_between entry.2 entry.2)
    (foldl_set_within smaller start)

theorem rangeStep_eq {addr : Nat} (written : instr.outputs = [addr])
    (found : instr.operation.range instr.params (rangesAt ranges instr.inputs) = .ok [i]) :
    rangeStep ranges instr = .ok (ranges.set addr i) := by
  rw [rangeStep, found, written]
  rfl

theorem rangeStep_within (exact : instr.Exact) (within : Forall₂ Within ranges ranges') :
    ∃ next next', rangeStep ranges instr = .ok next ∧
      rangeStep ranges' instr = .ok next' ∧ Forall₂ Within next next' := by
  have args : Forall₂ Within (rangesAt ranges instr.inputs) (rangesAt ranges' instr.inputs) := by
    rw [rangesAt, rangesAt, forall₂_map_left_iff, forall₂_map_right_iff]
    exact forall₂_same.mpr fun addr _ => getD_within within addr
  obtain ⟨i, j, found, found', result⟩ := Operation.range_within exact.operation (length_map _) args
  obtain ⟨addr, written⟩ := exact.result
  exact ⟨_, _, rangeStep_eq written found, rangeStep_eq written found',
    set_within within result addr⟩

theorem foldlM_rangeStep_within {instructions : List (Instruction Extended)}
    (exact : ∀ instr ∈ instructions, instr.Exact) (within : Forall₂ Within ranges ranges') :
    ∃ last last', instructions.foldlM rangeStep ranges = .ok last ∧
    instructions.foldlM rangeStep ranges' = .ok last' ∧ Forall₂ Within last last' := by
  induction instructions generalizing ranges ranges' with
  | nil => exact ⟨ranges, ranges', rfl, rfl, within⟩
  | cons instr rest ih =>
    obtain ⟨next, next', stepped, stepped', kept⟩ := rangeStep_within (exact _ mem_cons_self) within
    rw [foldlM_cons, foldlM_cons, stepped, stepped']
    exact ih (fun later mem => exact later (.tail _ mem)) kept

/-- **Smaller inputs have smaller ranges.** If every input of a program has an interval in one
analysis that lies in the interval it has in another, then so has every buffer. -/
theorem ranges_within_of_smaller_inputs {program : Program Extended} {box box' : Box Extended}
    (exact : ∀ instruction ∈ program.instructions, instruction.Exact)
    (smaller : ∀ entry ∈ program.inputs,
      ((box entry.1).getD .whole).Within ((box' entry.1).getD .whole)) :
    ∃ ranges ranges', program.ranges box = .ok ranges ∧ program.ranges box' = .ok ranges' ∧
      List.Forall₂ Within ranges ranges' :=
  foldlM_rangeStep_within exact (inputRanges_within smaller)

/-- A program that wraps a coordinate around one half, and unites both smoothly. -/
def wrapped : Program Extended where
  instructions := [ { operation := .wrap, inputs := [0, 1], outputs := [2] },
    { operation := .sdfSmoothUnion, inputs := [0, 2], outputs := [3]
      params := [.real (rational 1)] }]
  bufferCount := 4
  constants := [(1, rational (1 / 2))]
  inputs := [(.x, 0)]
  outputs := []
  ports := []

theorem exact_wrapped : wrapped.Exact where
  instructions instr listed := by
    obtain rfl | rfl : instr = _ ∨ instr = _ := by simpa [wrapped] using listed
    · exact ⟨.wrap, _, rfl⟩
    · exact ⟨.sdfSmoothUnion 1, _, rfl⟩
  constants entry listed := ⟨1 / 2, by simp_all [wrapped]⟩

theorem ranges_within_of_smaller_inputs_wrapped :
    ∃ ranges ranges', wrapped.ranges (fun _ => some ⟨rational 0, rational 1⟩) = .ok ranges ∧
      wrapped.ranges (fun _ => some ⟨rational (-1), top⟩) = .ok ranges' ∧
      List.Forall₂ Within ranges ranges' :=
  ranges_within_of_smaller_inputs exact_wrapped.instructions fun _ _ =>
    ⟨bottom_le_rational, rational_le_rational.mpr (by norm_num),
      rational_le_rational.mpr zero_le_one, le_top _⟩

end Program

end FieldGraph
