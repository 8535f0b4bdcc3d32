import FieldGraph.Tolerance
import FieldGraph.Voxel.Buffer
import Mathlib

/-! # Infinite numbers in approximate comparisons

An approximate comparison bounds a difference by the tolerance times the largest magnitude. Between
finite numbers that is the bound of the documentation. An infinite number makes both sides infinite,
so it is approximately equal to all numbers, unless the tolerance is zero.
-/

namespace FieldGraph

open Arithmetic Float.Model

namespace Double

variable {x m a b tolerance : Float} {sign : UnpackedFloat.Sign}

/-- Two numbers are equal or both undefined, or finite and as near as a tolerance relative to the
largest magnitude allows. -/
def Agree (tolerance largest a b : Float) : Prop :=
  Arithmetic.eq a b = true ∨ isNaN a = true ∧ isNaN b = true ∨
    isFinite a = true ∧ isFinite b = true ∧
      Arithmetic.le (Arithmetic.abs (a - b)) (tolerance * largest) = true

/-- One of two numbers is infinite. -/
def Unbounded (a b : Float) : Prop :=
  isNaN a = false ∧ isNaN b = false ∧ (isFinite a = false ∨ isFinite b = false)

theorem agree_or_unbounded (left : isNaN a = false) (right : isNaN b = false)
    (le : Arithmetic.le (Arithmetic.abs (a - b)) (tolerance * m) = true) :
    Agree tolerance m a b ∨ Unbounded a b := by
  by_cases infinite : isFinite a = false ∨ isFinite b = false
  · exact .inr ⟨left, right, infinite⟩
  · rw [not_or, Bool.not_eq_false, Bool.not_eq_false] at infinite
    exact .inl (.inr (.inr ⟨infinite.1, infinite.2, le⟩))

theorem agree_or_unbounded_of_holds (holds : Tolerance.holds tolerance a b = true) :
    Agree tolerance (greatest (greatest one (Arithmetic.abs a)) (Arithmetic.abs b)) a b ∨
      Unbounded a b := by
  unfold Tolerance.holds at holds
  split at holds
  · rename_i equal
    exact .inl (.inl equal)
  split at holds
  · exact .inl (.inr (.inl (Bool.and_eq_true_iff.mp holds)))
  · rename_i numbers
    obtain ⟨left, right⟩ := Bool.or_eq_false_iff.mp (Bool.eq_false_iff.mpr numbers)
    exact agree_or_unbounded left right holds

theorem le_iff : Arithmetic.le a b = true ↔
    (a.toModel.unpack.compare b.toModel.unpack).any (·.isLE) = true :=
  decide_eq_true_iff.trans decide_eq_true_iff

theorem lt_iff : Arithmetic.lt a b = true ↔
    (a.toModel.unpack.compare b.toModel.unpack == some .lt) = true :=
  decide_eq_true_iff.trans decide_eq_true_iff

theorem isNaN_of_le (le : Arithmetic.le (Arithmetic.abs (a - b)) x = true) :
    isNaN a = false ∧ isNaN b = false := by
  have compared := le_iff.mp le
  change ((Float.Model.pack (Float.Model.pack (UnpackedFloat.sub Format.binary64
    a.toModel.unpack b.toModel.unpack)).unpack.abs).unpack.compare _).any _ = true at compared
  have defined : UnpackedFloat.sub Format.binary64 a.toModel.unpack b.toModel.unpack ≠
      .notANumber := by
    intro undefined
    rw [undefined] at compared
    exact Bool.false_ne_true compared
  change a.toModel.unpack.isNaN = false ∧ b.toModel.unpack.isNaN = false
  revert defined
  cases a.toModel.unpack <;> cases b.toModel.unpack <;> intro defined <;>
    first | exact ⟨rfl, rfl⟩ | exact (defined rfl).elim

/-! ## Infinite numbers -/

/-- A double is the positive infinity. -/
def IsTop (x : Float) : Prop := x.toModel.unpack = .infinity .positive

theorem isTop_abs (infinite : x.toModel.unpack = .infinity sign) : IsTop (Arithmetic.abs x) := by
  change (Float.Model.pack x.toModel.unpack.abs).unpack = _
  rw [infinite]
  cases sign <;> rfl

theorem IsTop.greatest_eq (top : IsTop x) (other : Float) : greatest x other = x := by
  refine if_neg ?_
  rw [lt_iff, top]
  rcases other.toModel.unpack with (_ | _) | _ | _ | _ <;> exact Bool.false_ne_true

theorem IsTop.greatest_one (top : IsTop x) : greatest one x = x := by
  refine if_pos (lt_iff.mpr ?_)
  rw [top]
  decide +kernel

theorem isNaN_greatest_one (x : Float) : isNaN (greatest one x) = false := by
  unfold greatest
  split
  · rename_i less
    rw [lt_iff] at less
    change x.toModel.unpack.isNaN = false
    revert less
    cases x.toModel.unpack <;> simp [UnpackedFloat.isNaN]
    cases (one : Float).toModel.unpack <;> simp [UnpackedFloat.compare]
  · decide +kernel

theorem IsTop.greatest_right (top : IsTop x) (number : isNaN m = false) : IsTop (greatest m x) := by
  unfold greatest
  split
  · exact top
  · rename_i most
    rw [lt_iff, top] at most
    change m.toModel.unpack.isNaN = false at number
    change m.toModel.unpack = _
    revert most number
    rcases m.toModel.unpack with (_ | _) | _ | (_ | _) | _ <;>
      simp [UnpackedFloat.isNaN, UnpackedFloat.compare]
    rfl

theorem isTop_difference (unbounded : Unbounded a b) (differ : Arithmetic.eq a b = false) :
    IsTop (Arithmetic.abs (a - b)) := by
  have apart : ∃ sign, UnpackedFloat.sub Format.binary64 a.toModel.unpack b.toModel.unpack =
      .infinity sign := by
    obtain ⟨left, right, infinite⟩ := unbounded
    change a.toModel.unpack.isNaN = false at left
    change b.toModel.unpack.isNaN = false at right
    change a.toModel.unpack.isFinite = false ∨ b.toModel.unpack.isFinite = false at infinite
    change (a.toModel.unpack.compare b.toModel.unpack == some .eq) = false at differ
    revert left right infinite differ
    rcases a.toModel.unpack with (_ | _) | _ | (_ | _) | _ <;>
      rcases b.toModel.unpack with (_ | _) | _ | (_ | _) | _ <;>
      simp [UnpackedFloat.isNaN, UnpackedFloat.isFinite, UnpackedFloat.sub,
        UnpackedFloat.compare] <;>
      first | rfl | exact ⟨_, rfl⟩
  obtain ⟨sign, apart⟩ := apart
  refine isTop_abs (?_ : (a - b).toModel.unpack = .infinity sign)
  change (Float.Model.pack (UnpackedFloat.sub _ a.toModel.unpack _)).unpack = _
  rw [apart]
  cases sign <;> rfl

theorem IsTop.le_mul (difference : IsTop x) (largest : IsTop m)
    (positive : Arithmetic.lt Arithmetic.zero tolerance = true) :
    Arithmetic.le x (tolerance * m) = true := by
  have none : (Arithmetic.zero : Float).toModel.unpack = .zero .positive := by rfl
  rw [lt_iff, none] at positive
  refine le_iff.mpr ?_
  change (x.toModel.unpack.compare (Float.Model.pack
    (UnpackedFloat.mul _ tolerance.toModel.unpack m.toModel.unpack)).unpack).any _ = true
  rw [difference, largest]
  revert positive
  rcases tolerance.toModel.unpack with (_ | _) | _ | (_ | _) | ⟨_ | _, m, e, _⟩ <;>
    simp only [UnpackedFloat.mul, UnpackedFloat.compare] <;> decide

theorem isTop_abs_of_infinite (defined : isNaN a = false) (infinite : isFinite a = false) :
    IsTop (Arithmetic.abs a) := by
  have shape : ∃ sign, a.toModel.unpack = .infinity sign := by
    change a.toModel.unpack.isNaN = false at defined
    change a.toModel.unpack.isFinite = false at infinite
    revert defined infinite
    cases a.toModel.unpack <;> simp [UnpackedFloat.isNaN, UnpackedFloat.isFinite]
  exact isTop_abs shape.choose_spec

theorem isTop_largest (unbounded : Unbounded a b) :
    IsTop (greatest (greatest one (Arithmetic.abs a)) (Arithmetic.abs b)) := by
  obtain ⟨left, right, infinite | infinite⟩ := unbounded
  · have top := isTop_abs_of_infinite left infinite
    rwa [top.greatest_one, top.greatest_eq]
  · exact (isTop_abs_of_infinite right infinite).greatest_right (isNaN_greatest_one _)

theorem holds_of_unbounded (positive : Arithmetic.lt Arithmetic.zero tolerance = true)
    (unbounded : Unbounded a b) : Tolerance.holds tolerance a b = true := by
  cases differ : Arithmetic.eq a b with
  | true => rw [Tolerance.holds, if_pos differ]
  | false =>
    rw [Tolerance.holds, differ, unbounded.1, unbounded.2.1]
    exact (isTop_difference unbounded differ).le_mul (isTop_largest unbounded) positive

end Double

open Double

/-- **Approximate equality is what it is meant to be, unless a number is infinite.** An infinite
number is approximately equal to every number. -/
theorem approximate_equality (tolerance a b : Float) (buffer other : Voxel.Buffer)
    (given : Option Float) :
    (Tolerance.holdsBetween (.real tolerance) (.real a) (.real b) = .ok true →
      Agree tolerance (greatest (greatest one (Arithmetic.abs a)) (Arithmetic.abs b)) a b ∨
        Unbounded a b) ∧
    (Arithmetic.lt Arithmetic.zero tolerance = true → Unbounded a b →
      Tolerance.holdsBetween (.real tolerance) (.real a) (.real b) = .ok true) ∧
    (buffer.sdfDepth.levels? = none → buffer.equalsApprox other given = true →
      buffer.extent = other.extent ∧ buffer.sdfDepth = other.sdfDepth ∧
        ∀ (i : Nat) (x y : Voxel.Cell) (a b tolerance : Float),
          buffer.distances[i]? = some x → other.distances[i]? = some y →
          a = Voxel.Buffer.stored x → b = Voxel.Buffer.stored y →
          tolerance = given.getD buffer.sdfDepth.tolerance →
            Agree tolerance (maximum one (maximum (Arithmetic.abs a) (Arithmetic.abs b))) a b ∨
              Unbounded a b) := by
  simp only [Tolerance.holdsBetween_real, Except.ok.injEq]
  refine ⟨agree_or_unbounded_of_holds, holds_of_unbounded, fun real equal => ?_⟩
  obtain ⟨same, all⟩ := Bool.and_eq_true_iff.mp equal
  obtain ⟨extents, depths⟩ := Bool.and_eq_true_iff.mp same
  refine ⟨beq_iff_eq.mp extents, beq_iff_eq.mp depths, ?_⟩
  rintro i x y _ _ _ first second rfl rfl rfl
  have pair : (x, y) ∈ buffer.distances.toList.zip other.distances.toList := by
    refine List.mem_of_getElem? (i := i) ?_
    rw [List.getElem?_zip_eq_some]
    exact ⟨by rw [Array.getElem?_toList, first], by rw [Array.getElem?_toList, second]⟩
  have close := List.all_eq_true.mp all _ pair
  simp only [Voxel.Buffer.distancesAgree, real] at close
  rcases Bool.or_eq_true_iff.mp close with le | equal
  · exact agree_or_unbounded (isNaN_of_le le).1 (isNaN_of_le le).2 le
  · exact .inl (.inl equal)

/-- A block with one distance. -/
def lone (distance : Float) : Voxel.Buffer where
  extent := ⟨1, 1, 1⟩
  typeDepth := .bits8
  sdfDepth := .bits32
  types := #[]
  distances := #[.real distance]
  indices := #[]
  weights := #[]

theorem approximate_equality_infinite :
    Tolerance.holdsBetween (.real Tolerance.usual) (.real infinity) (.real 5) = .ok true ∧
      (lone infinity).equalsApprox (lone 5) (some Tolerance.usual) = true ∧
      ¬ Agree Tolerance.usual infinity infinity 5 ∧ Unbounded infinity 5 := by
  have equal : (lone infinity).equalsApprox (lone 5) (some Tolerance.usual) = true := by
    decide +kernel
  have apart : ∀ largest, ¬ Agree Tolerance.usual largest infinity 5 := fun largest agree => by
    rcases agree with same | undefined | finite
    · exact absurd same (by decide +kernel)
    · exact absurd undefined.1 (by decide +kernel)
    · exact absurd finite.1 (by decide +kernel)
  have equality := approximate_equality Tolerance.usual infinity 5 (lone infinity) (lone 5)
    (some Tolerance.usual)
  have unbounded := ((equality.2.2 rfl equal).2.2 0 _ _ _ _ _ rfl rfl rfl rfl rfl).resolve_left
    (apart _)
  exact ⟨equality.2.1 (by decide +kernel) unbounded, equal, apart _, unbounded⟩

end FieldGraph
