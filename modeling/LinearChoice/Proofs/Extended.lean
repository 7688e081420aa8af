import LinearChoice.Scalar.Extended

/-!
# Order and arithmetic with infinite ends

The ends of intervals are linearly ordered, and sums, products and quotients
with rationals keep the bounds that the ends are for rationals.
-/

set_option autoImplicit false

namespace LinearChoice

namespace Exact

/-- Ends of intervals with an exact zero test. Intervals keep the slack they have in floating point. -/
scoped instance extended : ExtendedScalar Extended := ExtendedScalar.rational 0 (1 / 1000000)

end Exact

open scoped Exact

namespace Extended

def toRat : Extended → ℚ
  | finite q => q
  | _ => 0

variable {p q : ℚ} {x y : Extended}

theorem finite_toRat (h : Scalar.isFinite x = true) : finite x.toRat = x := by
  cases x with
  | negInf => cases h
  | finite q => rfl
  | posInf => cases h

@[simp] theorem scalar_negInf : (ExtendedScalar.negInf : Extended) = negInf := rfl

@[simp] theorem scalar_posInf : (ExtendedScalar.posInf : Extended) = posInf := rfl

@[simp] theorem finite_lt_finite : finite p < finite q ↔ p < q := Iff.rfl

@[simp] theorem negInf_lt_finite : negInf < finite q := trivial

@[simp] theorem finite_lt_posInf : finite q < posInf := trivial

@[simp] theorem negInf_lt_posInf : negInf < posInf := trivial

@[simp] theorem not_lt_negInf : ¬x < negInf := by cases x <;> exact id

@[simp] theorem not_posInf_lt : ¬posInf < x := by cases x <;> exact id

@[simp] theorem finite_le_finite : finite p ≤ finite q ↔ p ≤ q := by
  change finite p < finite q ∨ finite p = finite q ↔ _
  rw [finite_lt_finite, finite.injEq, le_iff_lt_or_eq]

@[simp] theorem negInf_le : negInf ≤ x := by
  cases x
  · exact Or.inr rfl
  · exact Or.inl trivial
  · exact Or.inl trivial

@[simp] theorem le_posInf : x ≤ posInf := by
  cases x
  · exact Or.inl trivial
  · exact Or.inl trivial
  · exact Or.inr rfl

@[simp] theorem not_finite_le_negInf : ¬finite q ≤ negInf := by
  rintro (h | h)
  · exact h
  · cases h

@[simp] theorem not_posInf_le_finite : ¬posInf ≤ finite q := by
  rintro (h | h)
  · exact h
  · cases h

@[simp] theorem not_posInf_le_negInf : ¬posInf ≤ negInf := by
  rintro (h | h)
  · exact h
  · cases h

instance : LinearOrder Extended where
  le_refl _ := Or.inr rfl
  le_trans x y z hxy hyz := by
    cases x <;> cases y <;> cases z <;> simp_all
    exact hxy.trans hyz
  lt_iff_le_not_ge x y := by
    cases x <;> cases y <;> simp
    exact le_of_lt
  le_antisymm x y hxy hyx := by
    cases x <;> cases y <;> simp_all
    exact le_antisymm hxy hyx
  le_total x y := by
    cases x <;> cases y <;> simp
    exact le_total _ _
  toDecidableLE := inferInstance

@[simp] theorem finite_add_finite : finite p + finite q = finite (p + q) := rfl

@[simp] theorem negInf_add : negInf + x = negInf := rfl

@[simp] theorem add_negInf : x + negInf = negInf := by cases x <;> rfl

@[simp] theorem posInf_add_finite : posInf + finite q = posInf := rfl

@[simp] theorem finite_add_posInf : finite q + posInf = posInf := rfl

@[simp] theorem posInf_add_posInf : posInf + posInf = posInf := rfl

@[simp] theorem neg_finite : -finite q = finite (-q) := rfl

@[simp] theorem neg_negInf : -negInf = posInf := rfl

@[simp] theorem neg_posInf : -posInf = negInf := rfl

@[simp] theorem finite_mul_finite : finite p * finite q = finite (p * q) := rfl

@[simp] theorem finite_div_finite : finite p / finite q = finite (p / q) := by
  rw [div_eq_mul_inv]
  rfl

section Infinite

variable {k : ℚ}

theorem infinite_pos (h : 0 < k) : infinite k = posInf := if_pos h

theorem infinite_neg (h : k < 0) : infinite k = negInf := by
  rw [infinite, if_neg h.not_gt, if_pos h]

theorem finite_mul_posInf : finite k * posInf = infinite k := rfl

theorem finite_mul_negInf : finite k * negInf = infinite (-k) := rfl

theorem posInf_div_finite : posInf / finite k = infinite k⁻¹ := rfl

theorem negInf_div_finite : negInf / finite k = infinite (-k⁻¹) := rfl

end Infinite

section Ends

variable {a b k : ℚ}

theorem add_le_finite (hx : x ≤ finite a) (hy : y ≤ finite b) : x + y ≤ finite (a + b) := by
  cases x <;> cases y <;> simp_all
  exact add_le_add hx hy

theorem finite_le_add (hx : finite a ≤ x) (hy : finite b ≤ y) : finite (a + b) ≤ x + y := by
  cases x <;> cases y <;> simp_all
  exact add_le_add hx hy

theorem neg_le_finite : -x ≤ finite a ↔ finite (-a) ≤ x := by
  cases x <;> simp [neg_le]

theorem finite_le_neg : finite a ≤ -x ↔ x ≤ finite (-a) := by
  cases x <;> simp [le_neg]

theorem mul_le_finite (hk : 0 < k) : finite k * x ≤ finite (k * a) ↔ x ≤ finite a := by
  cases x with
  | negInf => simp [finite_mul_negInf, infinite_neg (neg_lt_zero.mpr hk)]
  | finite q => simp [mul_le_mul_iff_right₀ hk]
  | posInf => simp [finite_mul_posInf, infinite_pos hk]

theorem finite_le_mul (hk : 0 < k) : finite (k * a) ≤ finite k * x ↔ finite a ≤ x := by
  cases x with
  | negInf => simp [finite_mul_negInf, infinite_neg (neg_lt_zero.mpr hk)]
  | finite q => simp [mul_le_mul_iff_right₀ hk]
  | posInf => simp [finite_mul_posInf, infinite_pos hk]

theorem mul_le_finite_of_neg (hk : k < 0) : finite k * x ≤ finite (k * a) ↔ finite a ≤ x := by
  cases x with
  | negInf => simp [finite_mul_negInf, infinite_pos (neg_pos.mpr hk)]
  | finite q => simp [mul_le_mul_left_of_neg hk]
  | posInf => simp [finite_mul_posInf, infinite_neg hk]

theorem finite_le_mul_of_neg (hk : k < 0) : finite (k * a) ≤ finite k * x ↔ x ≤ finite a := by
  cases x with
  | negInf => simp [finite_mul_negInf, infinite_pos (neg_pos.mpr hk)]
  | finite q => simp [mul_le_mul_left_of_neg hk]
  | posInf => simp [finite_mul_posInf, infinite_neg hk]

theorem div_le_finite (hk : 0 < k) : x / finite k ≤ finite a ↔ x ≤ finite (k * a) := by
  have hi := inv_pos.mpr hk
  cases x with
  | negInf => simp [negInf_div_finite, infinite_neg (neg_lt_zero.mpr hi)]
  | finite q => simp [div_le_iff₀' hk]
  | posInf => simp [posInf_div_finite, infinite_pos hi]

theorem finite_le_div (hk : 0 < k) : finite a ≤ x / finite k ↔ finite (k * a) ≤ x := by
  have hi := inv_pos.mpr hk
  cases x with
  | negInf => simp [negInf_div_finite, infinite_neg (neg_lt_zero.mpr hi)]
  | finite q => simp [le_div_iff₀' hk]
  | posInf => simp [posInf_div_finite, infinite_pos hi]

theorem div_le_finite_of_neg (hk : k < 0) : x / finite k ≤ finite a ↔ finite (k * a) ≤ x := by
  have hi := inv_lt_zero.mpr hk
  cases x with
  | negInf => simp [negInf_div_finite, infinite_pos (neg_pos.mpr hi)]
  | finite q => simp [div_le_iff_of_neg' hk]
  | posInf => simp [posInf_div_finite, infinite_neg hi]

theorem finite_le_div_of_neg (hk : k < 0) : finite a ≤ x / finite k ↔ x ≤ finite (k * a) := by
  have hi := inv_lt_zero.mpr hk
  cases x with
  | negInf => simp [negInf_div_finite, infinite_pos (neg_pos.mpr hi)]
  | finite q => simp [le_div_iff_of_neg' hk]
  | posInf => simp [posInf_div_finite, infinite_neg hi]

end Ends

end Extended

end LinearChoice
