import FieldGraph.Proofs.Extended

/-! # Containment of intervals

Every operation on intervals of exact numbers, infinite ends included, makes a smaller interval from
smaller ones. A sum without a value widens to the whole line, and zero times an infinite end is
zero.

`Within` says of both intervals that their ends are numbers in order, so that one statement for each
operation says that it makes such intervals, and that it keeps containment.
-/

namespace FieldGraph.Interval

open Arithmetic Extended List

variable {others : List Extended}

/-- The first interval lies in the second one, and the ends of both are numbers in order. -/
structure Within (i j : Interval Extended) : Prop where
  defined : bottom ≤ j.lower
  lower : j.lower ≤ i.lower
  ordered : i.lower ≤ i.upper
  upper : i.upper ≤ j.upper

/-- The ends are numbers in order. -/
abbrev Proper (i : Interval Extended) : Prop := i.Within i

/-- A number is a member if the interval of it alone lies inside. -/
instance : Membership Extended (Interval Extended) := ⟨fun i x => Within ⟨x, x⟩ i⟩

variable {a b c d x y : Extended} {i j k i' j' : Interval Extended}

theorem mem_iff : x ∈ i ↔ bottom ≤ i.lower ∧ i.lower ≤ x ∧ x ≤ i.upper :=
  ⟨fun ⟨defined, lower, _, upper⟩ => ⟨defined, lower, upper⟩,
    fun ⟨defined, lower, upper⟩ => ⟨defined, lower, le_rfl, upper⟩⟩

namespace Within

section

variable (within : i.Within j)

include within

theorem inner_defined : bottom ≤ i.lower := within.defined.trans within.lower

theorem upper_defined : bottom ≤ i.upper :=
  within.inner_defined.trans within.ordered

theorem outer_ordered : j.lower ≤ j.upper :=
  within.lower.trans (within.ordered.trans within.upper)

theorem inner : i.Proper :=
  ⟨within.inner_defined, le_rfl, within.ordered, le_rfl⟩

theorem outer : j.Proper :=
  ⟨within.defined, le_rfl, within.outer_ordered, le_rfl⟩

end

theorem trans (first : i.Within j) (second : j.Within k) : i.Within k :=
  ⟨second.defined, second.lower.trans first.lower, first.ordered,
    first.upper.trans second.upper⟩

theorem lower_mem (within : i.Within j) : i.lower ∈ j :=
  mem_iff.mpr ⟨within.defined, within.lower, within.ordered.trans within.upper⟩

theorem upper_mem (within : i.Within j) : i.upper ∈ j :=
  mem_iff.mpr ⟨within.defined, within.lower.trans within.ordered, within.upper⟩

theorem whole (proper : i.Proper) : i.Within whole :=
  ⟨le_rfl, proper.defined, proper.ordered, le_top _⟩

end Within

theorem mem_whole (q : ℚ) : rational q ∈ (whole : Interval Extended) :=
  ⟨le_rfl, bottom_le_rational, le_rfl, le_top _⟩

theorem within_iff_mem : i.Within j ↔ i.lower ≤ i.upper ∧ i.lower ∈ j ∧ i.upper ∈ j :=
  ⟨fun within => ⟨within.ordered, within.lower_mem, within.upper_mem⟩,
    fun ⟨ordered, ⟨defined, lower, _, _⟩, ⟨_, _, _, upper⟩⟩ => ⟨defined, lower, ordered, upper⟩⟩

theorem between_eq (defined : bottom ≤ a) (ordered : a ≤ b) : between a b = ⟨a, b⟩ := by
  simp [between, isNaN_eq_false defined, isNaN_eq_false (defined.trans ordered), ordered.not_gt]

theorem proper_between (a b : Extended) : (between a b).Proper := by
  unfold between
  split_ifs with undefined swapped
  · exact ⟨le_rfl, le_rfl, bottom_le_top, le_rfl⟩
  · obtain ⟨defined, less⟩ := lt_eq_true.mp swapped
    exact ⟨defined, le_rfl, less.le, le_rfl⟩
  · simp only [Bool.or_eq_true, not_or, isNaN, decide_eq_true_eq] at undefined
    rw [lt_eq_true, not_and, not_lt] at swapped
    exact ⟨bottom_le_iff.mpr undefined.1, le_rfl, swapped (bottom_le_iff.mpr undefined.2), le_rfl⟩

theorem single_eq (defined : bottom ≤ x) : single x = ⟨x, x⟩ := between_eq defined le_rfl

/-! ## Sums and differences -/

/-- The lower end of a sum. -/
def lowSum (a b : Extended) : Extended := if a = bottom ∨ b = bottom then bottom else a + b

/-- The upper end of a sum. -/
def highSum (a b : Extended) : Extended := -lowSum (-a) (-b)

theorem lowSum_mono_left (defined : bottom ≤ a) (le : a ≤ b) (other : bottom ≤ c) :
    lowSum a c ≤ lowSum b c := by
  cases a <;> cases b <;> cases c <;> simp_all [lowSum, le_iff]

section

variable (first : bottom ≤ a)

include first

theorem lowSum_mono (second : bottom ≤ c) (le : a ≤ b) (le' : c ≤ d) : lowSum a c ≤ lowSum b d := by
  have comm (a b : Extended) : lowSum a b = lowSum b a := by
    cases a <;> cases b <;> simp [lowSum, add_def, add_comm]
  calc lowSum a c ≤ lowSum b c := lowSum_mono_left first le second
    _ = lowSum c b := comm b c
    _ ≤ lowSum d b := lowSum_mono_left second le' (first.trans le)
    _ = lowSum b d := comm d b

theorem bottom_le_lowSum (second : bottom ≤ b) : bottom ≤ lowSum a b := by
  cases a <;> cases b <;> simp_all [lowSum, add_def]

theorem highSum_mono (second : bottom ≤ c) (le : a ≤ b) (le' : c ≤ d) : highSum a c ≤ highSum b d :=
  have above := bottom_le_neg (first.trans le)
  have above' := bottom_le_neg (second.trans le')
  neg_le_neg (bottom_le_lowSum above above')
    (lowSum_mono above above' (neg_le_neg first le) (neg_le_neg second le'))

theorem lowSum_le_highSum (second : bottom ≤ b) : lowSum a b ≤ highSum a b := by
  cases a <;> cases b <;> simp_all [lowSum, highSum, le_iff, add_comm]

end

theorem add_eq (proper : i.Proper) (proper' : j.Proper) :
    i + j = ⟨lowSum i.lower j.lower, highSum i.upper j.upper⟩ := by
  obtain ⟨a, b⟩ := i
  obtain ⟨c, d⟩ := j
  obtain ⟨defined, -, ordered, -⟩ := proper
  obtain ⟨defined', -, ordered', -⟩ := proper'
  change between (a + c) (b + d) = _
  have defaults : isNaN undefined = true := rfl
  cases a <;> cases b <;> simp_all [le_iff] <;> cases c <;> cases d <;>
    simp_all [lowSum, highSum, add_def, between, whole, isNaN_eq_false, infinity, add_le_add,
      add_comm]

theorem Within.add (within : i.Within i') (within' : j.Within j') : (i + j).Within (i' + j') := by
  rw [add_eq within.inner within'.inner, add_eq within.outer within'.outer]
  have ordered := lowSum_le_highSum within.inner_defined within'.inner_defined
  exact ⟨bottom_le_lowSum within.defined within'.defined,
    lowSum_mono within.defined within'.defined within.lower within'.lower,
    ordered.trans (highSum_mono within.inner_defined within'.inner_defined within.ordered
      within'.ordered),
    highSum_mono within.upper_defined within'.upper_defined within.upper within'.upper⟩

theorem neg_eq (proper : i.Proper) : -i = ⟨-i.upper, -i.lower⟩ :=
  between_eq (bottom_le_neg proper.upper_defined) (neg_le_neg proper.defined proper.ordered)

theorem Within.neg (within : i.Within i') : (-i).Within (-i') := by
  rw [neg_eq within.inner, neg_eq within.outer]
  exact ⟨bottom_le_neg within.outer.upper_defined, neg_le_neg within.upper_defined within.upper,
    neg_le_neg within.inner_defined within.ordered, neg_le_neg within.defined within.lower⟩

theorem sub_eq (proper : j.Proper) : i - j = i + -j := by
  rw [neg_eq proper]
  rfl

theorem Within.sub (within : i.Within i') (within' : j.Within j') : (i - j).Within (i' - j') := by
  rw [sub_eq within'.inner, sub_eq within'.outer]
  exact within.add within'.neg

/-! ## Hulls -/

theorem foldl_least (defined : ∀ x ∈ others, bottom ≤ x) :
    others.foldl least a = others.foldl (· ⊓ ·) a :=
  foldl_ext _ _ _ fun _ x mem => least_eq (defined x mem)

theorem foldl_greatest (defined : ∀ x ∈ a :: others, bottom ≤ x) :
    others.foldl greatest a = others.foldl (· ⊔ ·) a := by
  induction others generalizing a with
  | nil => rfl
  | cons b rest ih =>
    obtain ⟨first, second, later⟩ := by simpa using defined
    rw [foldl_cons, greatest_eq first]
    exact ih (by simpa [first] using later)

theorem hull_spec (a : Extended) (others : List Extended)
    (defined : ∀ x ∈ a :: others, bottom ≤ x) : (∀ x ∈ a :: others, x ∈ hull a others) ∧ ∀ i :
    Interval Extended, (∀ x ∈ a :: others, x ∈ i) → (hull a others).Within i := by
  have least : (a :: others).min? = some _ := min?_cons'
  have greatest : (a :: others).max? = some _ := max?_cons'
  obtain ⟨least_mem, least_le⟩ := min?_eq_some_iff.mp least
  obtain ⟨greatest_mem, le_greatest⟩ := max?_eq_some_iff.mp greatest
  have numbers : (a :: others).any isNaN = false :=
    any_eq_false.mpr fun x mem => by simp [isNaN_eq_false (defined x mem)]
  have same : hull a others = ⟨others.foldl (· ⊓ ·) a, others.foldl (· ⊔ ·) a⟩ := by
    rw [hull, numbers, foldl_greatest defined,
      foldl_least fun x mem => defined x (.tail _ mem)]
    exact between_eq (defined _ least_mem) (least_le _ greatest_mem)
  rw [same]
  exact ⟨fun x mem => mem_iff.mpr ⟨defined _ least_mem, least_le x mem, le_greatest x mem⟩,
    fun i inside => within_iff_mem.mpr
      ⟨least_le _ greatest_mem, inside _ least_mem, inside _ greatest_mem⟩⟩

theorem hull_pair (first : bottom ≤ a) (second : bottom ≤ b) : hull a [b] = ⟨a ⊓ b, a ⊔ b⟩ := by
  simp [hull, isNaN_eq_false, least_eq, greatest_eq, between_eq, first, second]

/-! ## Products -/

/-- A rational number times the infinite one above, where zero times it is zero. -/
def toward (x : ℚ) : Extended := if 0 < x then top else if x < 0 then bottom else rational 0

/-- The product of two numbers, where zero times an infinite one is zero. -/
def product : Extended → Extended → Extended
  | rational x, rational y => rational (x * y)
  | rational x, top | top, rational x => toward x
  | rational x, bottom | bottom, rational x => toward (-x)
  | top, top | bottom, bottom => top
  | _, _ => bottom

theorem cornerProduct_eq (first : bottom ≤ a) (second : bottom ≤ b) :
    cornerProduct a b = product a b := by
  cases a <;> cases b <;>
    simp_all [cornerProduct, product, mul_def, timesTop, toward, le_iff] <;> grind

theorem bottom_le_product (a b : Extended) : bottom ≤ product a b := by
  cases a <;> cases b <;> simp [product, toward] <;> split_ifs <;> simp

theorem product_comm (a b : Extended) : product a b = product b a := by
  cases a <;> cases b <;> simp [product, mul_comm]

theorem product_eq_neg (first : bottom ≤ a) (second : bottom ≤ b) :
    product a b = -product a (-b) := by
  cases a <;> cases b <;> simp_all [product, toward, le_iff] <;> grind

theorem product_mono (defined : bottom ≤ a) (le : a ≤ b) (nonneg : rational 0 ≤ c) :
    product a c ≤ product b c := by
  rcases nonneg.eq_or_lt with rfl | pos
  · cases a <;> cases b <;> simp_all [product, toward, le_iff]
  · cases a <;> cases b <;> cases c <;>
      simp_all [product, toward, le_iff] <;> grind

theorem product_mem (inside : x ∈ i) (defined : bottom ≤ c) (first : product i.lower c ∈ j)
    (last : product i.upper c ∈ j) : product x c ∈ j := by
  obtain ⟨lower_defined, lower, upper⟩ := mem_iff.mp inside
  obtain ⟨bound, first_above, first_below⟩ := mem_iff.mp first
  obtain ⟨-, last_above, last_below⟩ := mem_iff.mp last
  have x_defined := lower_defined.trans lower
  refine mem_iff.mpr ⟨bound, ?_⟩
  rcases le_total (rational 0) c with nonneg | nonpos
  · exact ⟨first_above.trans (product_mono lower_defined lower nonneg),
      (product_mono x_defined upper nonneg).trans last_below⟩
  · have nonneg : rational 0 ≤ -c := neg_nonneg defined nonpos
    rw [product_eq_neg x_defined defined]
    rw [product_eq_neg lower_defined defined] at first_below
    rw [product_eq_neg (x_defined.trans upper) defined] at last_above
    have falls {a b : Extended} (a_defined : bottom ≤ a) (le : a ≤ b) :
        -product b (-c) ≤ -product a (-c) :=
      neg_le_neg (bottom_le_product _ _) (product_mono a_defined le nonneg)
    exact ⟨last_above.trans (falls x_defined upper), (falls lower_defined lower).trans first_below⟩

theorem mul_eq (proper : i.Proper) (proper' : j.Proper) : i * j = hull (product i.lower j.lower)
      [product i.lower j.upper, product i.upper j.lower, product i.upper j.upper] := by
  change hull _ _ = _
  simp only [cornerProduct_eq, proper.defined, proper.upper_defined, proper'.defined,
    proper'.upper_defined]

theorem mem_mul (inside : x ∈ i) (inside' : y ∈ j) : product x y ∈ i * j := by
  rw [mul_eq inside.outer inside'.outer]
  obtain ⟨holds, -⟩ := hull_spec (product i.lower j.lower)
    [product i.lower j.upper, product i.upper j.lower, product i.upper j.upper]
    (by simp [bottom_le_product])
  have edge {a : Extended} (defined : bottom ≤ a) {k : Interval Extended}
      (first : product a j.lower ∈ k) (last : product a j.upper ∈ k) : product a y ∈ k := by
    rw [product_comm] at first last ⊢
    exact product_mem inside' defined first last
  exact product_mem inside inside'.inner_defined
    (edge inside.defined (holds _ (by simp)) (holds _ (by simp)))
    (edge inside.outer.upper_defined (holds _ (by simp)) (holds _ (by simp)))

theorem Within.mul (within : i.Within i') (within' : j.Within j') : (i * j).Within (i' * j') := by
  rw [mul_eq within.inner within'.inner]
  refine (hull_spec _ _ (by simp [bottom_le_product])).2 _ ?_
  simp [mem_mul, within.lower_mem, within.upper_mem, within'.lower_mem, within'.upper_mem]

/-! ## Quotients -/

/-- The reciprocal, zero for infinite numbers. -/
def reciprocal : Extended → ℚ
  | rational x => x⁻¹
  | _ => 0

/-- Numbers on one side of zero. -/
def Apart (a b : Extended) : Prop := rational 0 < a ∨ b < rational 0

theorem one_div_eq (defined : bottom ≤ a) (nonzero : a ≠ rational 0) :
    one / a = rational (reciprocal a) := by
  cases a <;> simp_all [div_def, le_iff, reciprocal]

theorem reciprocal_anti (defined : bottom ≤ a) (le : a ≤ b) (apart : Apart a b) :
    reciprocal b ≤ reciprocal a := by
  cases a <;> cases b <;> simp_all [reciprocal, le_iff, lt_iff, Apart, le_of_lt]
  rcases apart with pos | negative
  · exact inv_anti₀ pos le
  · exact (inv_le_inv_of_neg negative (le.trans_lt negative)).mpr le

theorem reciprocal_nonneg (nonneg : rational 0 ≤ a) : 0 ≤ reciprocal a := by
  cases a <;> simp_all [reciprocal]

theorem reciprocal_nonpos (nonpos : a ≤ rational 0) : reciprocal a ≤ 0 := by
  cases a <;> simp_all [reciprocal]

/-- The reciprocals of members on one side of zero. -/
def reciprocals (i : Interval Extended) : Interval Extended :=
  ⟨rational (reciprocal i.upper), rational (reciprocal i.lower)⟩

theorem Within.reciprocals (within : i.Within j) (apart : Apart j.lower j.upper) :
    i.reciprocals.Within j.reciprocals := by
  have falls {a b : Extended} (lower : j.lower ≤ a) (le : a ≤ b) (upper : b ≤ j.upper) :
      rational (reciprocal b) ≤ rational (reciprocal a) :=
    rational_le_rational.mpr (reciprocal_anti (within.defined.trans lower) le
      (apart.imp (·.trans_le lower) upper.trans_lt))
  exact ⟨bottom_le_rational, falls (within.lower.trans within.ordered) within.upper le_rfl,
    falls within.lower within.ordered within.upper,
    falls le_rfl within.lower (within.ordered.trans within.upper)⟩

theorem div_of_apart (proper : j.Proper) (apart : Apart j.lower j.upper) :
    i / j = i * j.reciprocals := by
  have nonzero : j.lower ≠ rational 0 ∧ j.upper ≠ rational 0 := by
    rcases apart with pos | negative
    · exact ⟨pos.ne', (pos.trans_le proper.ordered).ne'⟩
    · exact ⟨(proper.ordered.trans_lt negative).ne, negative.ne⟩
  have falls : rational (reciprocal j.upper) ≤ rational (reciprocal j.lower) :=
    (proper.reciprocals apart).ordered
  change div i j = _
  rw [div, if_pos (by simpa [proper.upper_defined, Apart] using apart),
    one_div_eq proper.defined nonzero.1, one_div_eq proper.upper_defined nonzero.2,
    hull_pair bottom_le_rational bottom_le_rational, inf_eq_right.mpr falls, sup_eq_left.mpr falls]
  rfl

theorem div_of_zero (i : Interval Extended) :
    i / ⟨rational 0, rational 0⟩ = ⟨rational 0, rational 0⟩ := by
  change div i _ = _
  simp [div, single_eq]

theorem div_of_mixed (proper : j.Proper) (mixed : ¬Apart j.lower j.upper)
    (nonzero : j ≠ ⟨rational 0, rational 0⟩) : i / j = whole := by
  obtain ⟨c, d⟩ := j
  simp only [Apart, not_or, not_lt] at mixed
  change div i _ = _
  simp_all [div, mixed.1.not_gt, mixed.2.not_gt]

theorem Within.div (within : i.Within i') (within' : j.Within j') : (i / j).Within (i' / j') := by
  have zero_proper : Proper ⟨rational 0, rational 0⟩ := ⟨bottom_le_rational, le_rfl, le_rfl, le_rfl⟩
  by_cases outer : Apart j'.lower j'.upper
  · have inner : Apart j.lower j.upper :=
      outer.imp (·.trans_le within'.lower) within'.upper.trans_lt
    rw [div_of_apart within'.inner inner, div_of_apart within'.outer outer]
    exact within.mul (within'.reciprocals outer)
  · by_cases zero : j' = ⟨rational 0, rational 0⟩
    · obtain ⟨c, d⟩ := j
      obtain ⟨-, lower, ordered, upper⟩ := within'
      rw [zero] at lower upper
      obtain ⟨rfl, rfl⟩ : c = rational 0 ∧ d = rational 0 :=
        ⟨(ordered.trans upper).antisymm lower, upper.antisymm (lower.trans ordered)⟩
      rw [zero]
      exact zero_proper
    · rw [div_of_mixed within'.outer outer zero]
      refine whole ?_
      by_cases inner : Apart j.lower j.upper
      · rw [div_of_apart within'.inner inner]
        exact (within.mul (within'.inner.reciprocals inner)).inner
      · by_cases inner_zero : j = ⟨rational 0, rational 0⟩
        · rw [inner_zero]
          exact zero_proper
        · rw [div_of_mixed within'.inner inner inner_zero]
          exact within.inner.whole.outer

end FieldGraph.Interval
