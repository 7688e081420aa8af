import LinearChoice.Proofs.Pruner.Containment

/-!
# Derived intervals are projections

The sum of two intervals with members has no gaps: whatever is between its ends
is a sum of two members. So the range of an expression is what its variables can
make of it, and the interval derived for a variable holds exactly the values for
which the other variables have values that satisfy the constraint.
-/

set_option autoImplicit false

namespace LinearChoice
open scoped Exact

namespace Extended

variable {x y : Extended} {a : ℚ}

theorem le_reflect (hx : x < posInf) (hy : y < posInf) :
    x ≤ finite a + -y ↔ x + y ≤ finite a := by
  cases x <;> cases y <;> simp_all [le_add_neg_iff_add_le]

theorem reflect_le (hx : negInf < x) (hy : negInf < y) :
    finite a + -y ≤ x ↔ finite a ≤ x + y := by
  cases x <;> cases y <;> simp_all

end Extended

namespace Interval

variable {i j : Interval Extended} {a k : ℚ}

structure Occupied (i : Interval Extended) : Prop where
  ordered : i.lower ≤ i.upper
  lower : i.lower < .posInf
  upper : .negInf < i.upper

instance (i : Interval Extended) : Decidable i.Occupied :=
  decidable_of_iff (i.lower ≤ i.upper ∧ i.lower < .posInf ∧ .negInf < i.upper)
    ⟨fun h => ⟨h.1, h.2.1, h.2.2⟩, fun h => ⟨h.ordered, h.lower, h.upper⟩⟩

theorem occupied_iff : i.Occupied ↔ ∃ q, i.Contains q := by
  obtain ⟨lower, upper⟩ := i
  constructor
  · rintro ⟨ordered, below, above⟩
    cases lower with
    | posInf => exact absurd below Extended.not_posInf_lt
    | finite q => exact ⟨q, le_refl _, ordered⟩
    | negInf =>
      cases upper with
      | negInf => exact absurd above Extended.not_lt_negInf
      | finite q => exact ⟨q, ordered, le_refl _⟩
      | posInf => exact ⟨0, contains_unbounded⟩
  · rintro ⟨q, below, above⟩
    exact ⟨below.trans above, below.trans_lt Extended.finite_lt_posInf,
      Extended.negInf_lt_finite.trans_le above⟩

/-- Two intervals meet when neither is above the other. -/
theorem exists_common (hi : i.Occupied) (hj : j.Occupied) (above : i.lower ≤ j.upper)
    (below : j.lower ≤ i.upper) : ∃ q, i.Contains q ∧ j.Contains q := by
  have meet : (i.intersect j).Occupied := by
    unfold intersect
    rw [Scalar.max_eq, Scalar.min_eq]
    exact ⟨max_le (le_min hi.ordered above) (le_min below hj.ordered),
      max_lt hi.lower hj.lower, lt_min hi.upper hj.upper⟩
  exact (occupied_iff.mp meet).imp fun q hq => contains_intersect.mp hq

theorem lower_le_iff (hi : i.Occupied) : i.lower ≤ .finite a ↔ ∃ p, i.Contains p ∧ p ≤ a := by
  constructor
  · intro below
    have half : (atMost (Extended.finite a)).Occupied :=
      occupied_iff.mpr ⟨a, Extended.negInf_le, le_refl _⟩
    obtain ⟨p, own, other⟩ := exists_common hi half below Extended.negInf_le
    exact ⟨p, own, Extended.finite_le_finite.mp other.2⟩
  · rintro ⟨p, hp, least⟩
    exact hp.1.trans (Extended.finite_le_finite.mpr least)

theorem le_upper_iff (hi : i.Occupied) : .finite a ≤ i.upper ↔ ∃ p, i.Contains p ∧ a ≤ p := by
  constructor
  · intro above
    have half : (atLeast (Extended.finite a)).Occupied :=
      occupied_iff.mpr ⟨a, le_refl _, Extended.le_posInf⟩
    obtain ⟨p, own, other⟩ := exists_common hi half Extended.le_posInf above
    exact ⟨p, own, Extended.finite_le_finite.mp other.1⟩
  · rintro ⟨p, hp, greatest⟩
    exact (Extended.finite_le_finite.mpr greatest).trans hp.2

/-- The interval that a relation leaves to a variable holds what some value of the rest makes room
for. -/
theorem contains_solve_iff (relation : Relation) (hi : i.Occupied) (hk : k ≠ 0) {q : ℚ} :
    (solve relation i (.finite k)).Contains q ↔
      ∃ p, i.Contains p ∧ relation.Allows (p + k * q) := by
  rw [contains_solve relation hk]
  cases relation with
  | equal => simp [Relation.Allows, ← eq_neg_iff_add_eq_zero]
  | atMost => simp [Relation.Allows, lower_le_iff hi, ← le_neg_iff_add_nonpos_right]
  | atLeast => simp [Relation.Allows, le_upper_iff hi, neg_le_iff_add_nonneg]

def sum (i j : Interval Extended) : Interval Extended := ⟨i.lower + j.lower, i.upper + j.upper⟩

def reflect (a : ℚ) (j : Interval Extended) : Interval Extended :=
  ⟨.finite a + -j.upper, .finite a + -j.lower⟩

theorem contains_reflect {p : ℚ} : (j.reflect a).Contains p ↔ j.Contains (a - p) := by
  unfold Contains reflect
  cases j.lower <;> cases j.upper <;>
    simp [add_comm p, le_sub_iff_add_le', and_comm]

theorem contains_sum (hi : i.Occupied) (hj : j.Occupied) :
    (i.sum j).Contains a ↔ ∃ p q, i.Contains p ∧ j.Contains q ∧ p + q = a := by
  constructor
  · rintro ⟨below, above⟩
    obtain ⟨q, hq⟩ := occupied_iff.mp hj
    have reflected : (j.reflect a).Occupied :=
      occupied_iff.mpr ⟨a - q, contains_reflect.mpr (by rwa [sub_sub_cancel])⟩
    obtain ⟨p, own, other⟩ := exists_common hi reflected
      ((Extended.le_reflect hi.lower hj.lower).mpr below)
      ((Extended.reflect_le hi.upper hj.upper).mpr above)
    exact ⟨p, a - p, own, contains_reflect.mp other, add_sub_cancel p a⟩
  · rintro ⟨p, q, hp, hq, rfl⟩
    exact ⟨Extended.add_le_finite hp.1 hq.1, Extended.finite_le_add hp.2 hq.2⟩

theorem occupied_sum (hi : i.Occupied) (hj : j.Occupied) : (i.sum j).Occupied := by
  obtain ⟨p, hp⟩ := occupied_iff.mp hi
  obtain ⟨q, hq⟩ := occupied_iff.mp hj
  exact occupied_iff.mpr ⟨p + q, (contains_sum hi hj).mpr ⟨p, q, hp, hq, rfl⟩⟩

def scale (k : ℚ) (i : Interval Extended) : Interval Extended :=
  if 0 < Extended.finite k then ⟨.finite k * i.lower, .finite k * i.upper⟩
  else ⟨.finite k * i.upper, .finite k * i.lower⟩

theorem contains_scale (hk : k ≠ 0) {q : ℚ} : (i.scale k).Contains (k * q) ↔ i.Contains q := by
  have sign : 0 < Extended.finite k ↔ 0 < k := Extended.finite_lt_finite
  unfold scale
  rcases lt_or_gt_of_ne hk with neg | pos
  · rw [if_neg (mt sign.mp neg.not_gt)]
    unfold Contains
    rw [Extended.mul_le_finite_of_neg neg, Extended.finite_le_mul_of_neg neg, and_comm]
  · rw [if_pos (sign.mpr pos)]
    unfold Contains
    rw [Extended.mul_le_finite pos, Extended.finite_le_mul pos]

theorem occupied_scale (hk : k ≠ 0) (hi : i.Occupied) : (i.scale k).Occupied := by
  obtain ⟨q, hq⟩ := occupied_iff.mp hi
  exact occupied_iff.mpr ⟨k * q, (contains_scale hk).mpr hq⟩

/-- With one more term the range has what the new variable adds to the old members. -/
theorem contains_sum_scale (hi : i.Occupied) (hj : j.Occupied) (hk : k ≠ 0) :
    (i.sum (j.scale k)).Contains a ↔ ∃ p q, i.Contains p ∧ j.Contains q ∧ p + k * q = a := by
  rw [contains_sum hi (occupied_scale hk hj)]
  constructor
  · rintro ⟨p, m, hp, hm, rfl⟩
    have multiple : m = k * (m / k) := (mul_div_cancel₀ m hk).symm
    rw [multiple] at hm ⊢
    exact ⟨p, m / k, hp, (contains_scale hk).mp hm, rfl⟩
  · rintro ⟨p, q, hp, hq, rfl⟩
    exact ⟨p, k * q, hp, (contains_scale hk).mpr hq, rfl⟩

end Interval

namespace Bounds

variable {b : Bounds Extended} {l : List (Variable × Extended)} {v : Variable → ℚ} {x : Variable}
  {a q : ℚ}

def Encloses (b : Bounds Extended) (l : List (Variable × Extended)) (v : Variable → ℚ) : Prop :=
  ∀ t ∈ l, (b.of t.1).Contains (v t.1)

theorem exists_encloses (occupied : ∀ t ∈ l, (b.of t.1).Occupied) : ∃ v, b.Encloses l v := by
  have member (x : Variable) : ∃ q, (b.of x).Occupied → (b.of x).Contains q := by
    by_cases h : (b.of x).Occupied
    · exact (Interval.occupied_iff.mp h).imp fun q hq _ => hq
    · exact ⟨0, fun occupied => absurd occupied h⟩
  choose v hv using member
  exact ⟨v, fun t ht => hv t.1 (occupied t ht)⟩

theorem weigh_toRat_congr {w : Variable → ℚ} (same : ∀ t ∈ l, v t.1 = w t.1) :
    weigh v (l.map fun t => (t.1, t.2.toRat)) = weigh w (l.map fun t => (t.1, t.2.toRat)) := by
  apply weigh_congr
  intro e he _
  obtain ⟨t, ht, rfl⟩ := List.mem_map.mp he
  exact same t ht

theorem encloses_update (new : ∀ t ∈ l, t.1 ≠ x) :
    b.Encloses l (Function.update v x q) ↔ b.Encloses l v := by
  apply forall₂_congr
  intro t ht
  rw [Function.update_of_ne (new t ht)]

theorem addRange_eq (b : Bounds Extended) (range : Interval Extended) (x : Variable) (k : ℚ) :
    b.addRange range (x, .finite k) = range.sum ((b.of x).scale k) := by
  unfold addRange Interval.scale
  split <;> rfl

/-- By induction on the terms. Their variables are distinct, so the value chosen for one of them
leaves the values of the others alone. -/
theorem contains_addRanges (proper : ∀ t ∈ l, .finite t.2.toRat = t.2 ∧ t.2.toRat ≠ 0)
    (nodup : (l.map Prod.fst).Nodup) (occupied : ∀ t ∈ l, (b.of t.1).Occupied)
    {range : Interval Extended} (hr : range.Occupied) :
    (l.foldl b.addRange range).Contains a ↔ ∃ p v, range.Contains p ∧ b.Encloses l v ∧
      p + weigh v (l.map fun t => (t.1, t.2.toRat)) = a := by
  induction l generalizing range with
  | nil => simp [Encloses]
  | cons t l ih =>
    obtain ⟨⟨same, hk⟩, proper⟩ := List.forall_mem_cons.mp proper
    obtain ⟨ht, occupied⟩ := List.forall_mem_cons.mp occupied
    rw [List.map_cons, List.nodup_cons] at nodup
    have new (u : Variable × Extended) (hu : u ∈ l) : u.1 ≠ t.1 := by
      intro heq
      exact nodup.1 (List.mem_map.mpr ⟨u, hu, heq⟩)
    have added : b.addRange range t = range.sum ((b.of t.1).scale t.2.toRat) := by
      rw [← addRange_eq, same]
    rw [List.foldl_cons, added,
      ih proper nodup.2 occupied (Interval.occupied_sum hr (Interval.occupied_scale hk ht))]
    simp only [Interval.contains_sum_scale hr ht hk, List.map_cons, weigh_cons]
    constructor
    · rintro ⟨_, v, ⟨p, q, hp, hq, rfl⟩, hv, rfl⟩
      have rest := weigh_toRat_congr fun u hu => Function.update_of_ne (new u hu) q v
      refine ⟨p, Function.update v t.1 q, hp, List.forall_mem_cons.mpr ⟨?_, ?_⟩, ?_⟩
      · rwa [Function.update_self]
      · exact (encloses_update new).mpr hv
      · rw [rest, Function.update_self, add_assoc]
    · rintro ⟨p, v, hp, hv, rfl⟩
      obtain ⟨own, others⟩ := List.forall_mem_cons.mp hv
      exact ⟨_, v, ⟨p, v t.1, hp, own, rfl⟩, others, add_assoc _ _ _⟩

end Bounds

namespace Constraint

variable {b : Bounds Extended} {c : Constraint Extended} {t : Variable × Extended} {a q : ℚ}

def others (c : Constraint Extended) (target : Variable) : List (Variable × Extended) :=
  c.expression.terms.entries.filter fun t => t.1 ≠ target

theorem mem_others {target : Variable} :
    t ∈ c.others target ↔ t ∈ c.expression.terms.entries ∧ t.1 ≠ target := by
  simp [others]

theorem rest_congr {target : Variable} {v w : Variable → ℚ}
    (same : ∀ t ∈ c.others target, v t.1 = w t.1) : c.rest target v = c.rest target w := by
  unfold rest
  rw [rationalTerms_filter]
  exact congrArg _ (Bounds.weigh_toRat_congr same)

/-- The range of the rest holds what the other variables can make of it. -/
theorem Proper.contains_rangeWithout (h : c.Proper) {target : Variable}
    (occupied : ∀ t ∈ c.others target, (b.of t.1).Occupied) :
    (b.rangeWithout c.expression target).Contains a ↔
      ∃ v, b.Encloses (c.others target) v ∧ c.rest target v = a := by
  have proper (t : Variable × Extended) (ht : t ∈ c.others target) :=
    h.coefficient (mem_others.mp ht).1
  have nodup : ((c.others target).map Prod.fst).Nodup :=
    c.expression.terms.nodup_keys.sublist (List.filter_sublist.map _)
  have start (p : ℚ) :
      (Interval.point c.expression.constant).Contains p ↔ c.expression.constant.toRat = p := by
    rw [← h.constant]
    simp [Interval.Contains, Interval.point, le_antisymm_iff, Extended.toRat]
  have terms := Bounds.contains_addRanges (a := a) proper nodup occupied
    (Interval.occupied_iff.mpr ⟨_, (start _).mpr rfl⟩)
  refine terms.trans ?_
  simp only [start, exists_and_left, exists_eq_left']
  unfold rest
  rw [rationalTerms_filter]
  rfl

theorem Proper.occupied_rangeWithout (h : c.Proper) {target : Variable}
    (occupied : ∀ t ∈ c.others target, (b.of t.1).Occupied) :
    (b.rangeWithout c.expression target).Occupied := by
  obtain ⟨v, hv⟩ := Bounds.exists_encloses occupied
  exact Interval.occupied_iff.mpr ⟨_, (h.contains_rangeWithout occupied).mpr ⟨v, hv, rfl⟩⟩

theorem Proper.contains_derive (h : c.Proper) (ht : t ∈ c.expression.terms.entries)
    (occupied : ∀ u ∈ c.others t.1, (b.of u.1).Occupied) :
    (b.derive c t.1 t.2).Contains q ↔ ∃ v, b.Encloses (c.others t.1) v ∧
      c.relation.Allows (c.rest t.1 v + t.2.toRat * q) := by
  obtain ⟨same, nonzero⟩ := h.coefficient ht
  have solved := Interval.contains_solve_iff (q := q) c.relation (h.occupied_rangeWithout occupied)
    nonzero
  rw [same] at solved
  refine solved.trans ?_
  simp only [h.contains_rangeWithout occupied]
  constructor
  · rintro ⟨_, ⟨v, hv, rfl⟩, allowed⟩
    exact ⟨v, hv, allowed⟩
  · rintro ⟨v, hv, allowed⟩
    exact ⟨_, ⟨v, hv, rfl⟩, allowed⟩

end Constraint

namespace Bounds

variable {b : Bounds Extended} {c : Constraint Extended} {t : Variable × Extended}

/-- A rational is in the interval derived for a variable if and only if the other variables have
values within their own intervals that satisfy the constraint together with it. -/
theorem projected_derive (h : c.Proper) (ht : t ∈ c.expression.terms.entries)
    (occupied : ∀ u ∈ c.others t.1, (b.of u.1).Occupied) (q : ℚ) :
    (b.derive c t.1 t.2).Contains q ↔
      ∃ v, v t.1 = q ∧ b.Encloses (c.others t.1) v ∧ c.Admits v := by
  rw [h.contains_derive ht occupied]
  constructor
  · rintro ⟨v, hv, allowed⟩
    have apart (u : Variable × Extended) (hu : u ∈ c.others t.1) : u.1 ≠ t.1 :=
      (Constraint.mem_others.mp hu).2
    have same : c.rest t.1 (Function.update v t.1 q) = c.rest t.1 v :=
      Constraint.rest_congr fun u hu => Function.update_of_ne (apart u hu) q v
    refine ⟨Function.update v t.1 q, Function.update_self t.1 q v,
      (encloses_update apart).mpr hv, ?_⟩
    rwa [h.admits_iff, c.residual_eq ht, same, Function.update_self]
  · rintro ⟨v, rfl, hv, admits⟩
    rw [h.admits_iff, c.residual_eq ht] at admits
    exact ⟨v, hv, admits⟩

def halfOpen : Bounds Extended :=
  (Table.empty.insert ⟨0⟩ (.atLeast 1)).insert ⟨1⟩ ⟨0, .finite 2⟩

def slanted : Constraint Extended :=
  .relate (.sum [(⟨0⟩, 1), (⟨1⟩, .finite (-2)), (⟨2⟩, .finite (-3))]) .equal (.finite 6)

/-- What is derived for the third variable starts at an end that other values within their intervals
lead to, and none of them lead below it. -/
theorem projected_slanted :
    slanted.Proper ∧ (⟨2⟩, .finite (-3)) ∈ slanted.expression.terms.entries ∧
    (∀ u ∈ slanted.others ⟨2⟩, (halfOpen.of u.1).Occupied) ∧
    halfOpen.derive slanted ⟨2⟩ (.finite (-3)) = ⟨.finite (-3), .posInf⟩ ∧
    (∃ v, v ⟨2⟩ = -3 ∧ halfOpen.Encloses (slanted.others ⟨2⟩) v ∧ slanted.Admits v) ∧
    ¬∃ v, v ⟨2⟩ = -4 ∧ halfOpen.Encloses (slanted.others ⟨2⟩) v ∧ slanted.Admits v := by
  have proper : slanted.Proper := by decide +kernel
  have term : (⟨2⟩, .finite (-3)) ∈ slanted.expression.terms.entries := by decide +kernel
  have occupied : ∀ u ∈ slanted.others ⟨2⟩, (halfOpen.of u.1).Occupied := by decide +kernel
  have derived : halfOpen.derive slanted ⟨2⟩ (.finite (-3)) = ⟨.finite (-3), .posInf⟩ := by cbv
  have inside := projected_derive proper term occupied
  rw [derived] at inside
  refine ⟨proper, term, occupied, derived, (inside (-3)).mp ?_, mt (inside (-4)).mpr ?_⟩
  · exact ⟨le_refl _, Extended.le_posInf⟩
  · exact fun beyond => absurd (Extended.finite_le_finite.mp beyond.1) (by norm_num)

end Bounds

end LinearChoice
