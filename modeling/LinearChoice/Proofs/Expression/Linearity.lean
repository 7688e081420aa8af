import LinearChoice.Proofs.Simplex.Equation

/-!
# Linear up to what is dropped

A term is dropped if its coefficient is close to zero, as it comes in or once it
is added to what is there. Either way the value is off by no more than the width
of the zero test for each unit of the variable, and the next term starts from
what is stored. So the errors of a list of terms add up over the list, repeated
variables included. Factors and offsets drop nothing.
-/

set_option autoImplicit false

namespace LinearChoice.Expression

def spread (x : Variable → ℚ) (vs : List Variable) : ℚ := (vs.map fun v => |x v|).sum

section Dropping

variable (w : ℚ≥0) (x : Variable → ℚ)

theorem abs_le_of_nearZero {c : ℚ} (h : @Scalar.nearZero ℚ (Scalar.rational w) c = true) :
    |c| ≤ w := by
  let := Scalar.rational w
  have hw : (0 : ℚ) ≤ w := w.2
  rw [Scalar.nearZero, Bool.or_eq_true, beq_iff_eq, decide_eq_true_iff] at h
  rcases h with rfl | h
  · rwa [abs_zero]
  · have hc : |c| < w := Scalar.magnitude_eq_abs c ▸ h
    exact hc.le

theorem abs_drop_le {c : ℚ} (h : @Scalar.nearZero ℚ (Scalar.rational w) c = true) (v : Variable) :
    |c * x v| ≤ w * |x v| := by
  rw [abs_mul]
  exact mul_le_mul_of_nonneg_right (abs_le_of_nearZero w h) (abs_nonneg _)

/-- Evaluation adds and multiplies, and tests nothing. -/
theorem evaluate_eq_weigh (e : Expression ℚ) :
    @evaluate ℚ (Scalar.rational w) e x = e.constant + weigh x e.terms.entries :=
  evaluate_eq e x

theorem weigh_eraseShift (t : Table Variable ℚ) (v : Variable) :
    weigh x (t.eraseShift v).entries = weigh x t.entries - (t.get? v).getD 0 * x v := by
  have swapped := weigh_swapOut x v t.entries
  rw [weigh_perm x (Table.swapOut_perm v t.entries)] at swapped
  exact swapped

theorem abs_addTerm_sub_le (e : Expression ℚ) (v : Variable) (c : ℚ) :
    letI := Scalar.rational w
    |(e.addTerm v c).evaluate x - (e.evaluate x + c * x v)| ≤ w * |x v| := by
  let := Scalar.rational w
  have hw : (0 : ℚ) ≤ w * |x v| := mul_nonneg w.2 (abs_nonneg _)
  simp only [evaluate_eq_weigh]
  unfold addTerm
  split
  · next small =>
    have drop := abs_drop_le w x small v
    rwa [sub_add_cancel_left, abs_neg]
  · dsimp only
    split
    · next cancelled =>
      have drop := abs_drop_le w x cancelled v
      have change : e.constant + weigh x (e.terms.eraseShift v).entries -
          (e.constant + weigh x e.terms.entries + c * x v) = -((e.coefficient v + c) * x v) := by
        rw [weigh_eraseShift]
        change _ + (_ - e.coefficient v * x v) - _ = _
        ring
      rwa [change, abs_neg]
    · have change : e.constant + weigh x (e.terms.insert v (e.coefficient v + c)).entries -
          (e.constant + weigh x e.terms.entries + c * x v) = 0 := by
        simp only [Table.insert, weigh_place]
        change _ + (_ + (e.coefficient v + c - e.coefficient v) * x v) - _ = _
        ring
      rwa [change, abs_zero]

/-- The terms are added in their order, and each finds what the ones before it left. -/
theorem abs_addTerms_sub_le (e : Expression ℚ) (terms : List (Variable × ℚ)) :
    letI := Scalar.rational w
    |(e.addTerms terms).evaluate x - (e.evaluate x + weigh x terms)| ≤
      w * spread x (terms.map Prod.fst) := by
  let := Scalar.rational w
  induction terms generalizing e with
  | nil => simp [addTerms, spread]
  | cons t terms ih =>
    have first := abs_addTerm_sub_le w x e t.1 t.2
    have rest := ih (e.addTerm t.1 t.2)
    have whole : (e.addTerms (t :: terms)).evaluate x -
        (e.evaluate x + (t.2 * x t.1 + weigh x terms)) =
        ((e.addTerm t.1 t.2).addTerms terms).evaluate x -
            ((e.addTerm t.1 t.2).evaluate x + weigh x terms) +
          ((e.addTerm t.1 t.2).evaluate x - (e.evaluate x + t.2 * x t.1)) := by
      change ((e.addTerm t.1 t.2).addTerms terms).evaluate x - _ = _
      ring
    calc |(e.addTerms (t :: terms)).evaluate x - (e.evaluate x + (t.2 * x t.1 + weigh x terms))|
        ≤ w * spread x (terms.map Prod.fst) + w * |x t.1| := by
          rw [whole]
          exact (abs_add_le _ _).trans (add_le_add rest first)
      _ = w * spread x ((t :: terms).map Prod.fst) := by
          simp only [spread, List.map_cons, List.sum_cons]
          ring

theorem evaluate_offset (e : Expression ℚ) (k : ℚ) :
    letI := Scalar.rational w
    (e.offset k).evaluate x = e.evaluate x + k := by
  simp only [evaluate_eq_weigh, offset]
  ring

theorem evaluate_scale (e : Expression ℚ) (k : ℚ) :
    letI := Scalar.rational w
    (e.scale k).evaluate x = k * e.evaluate x := by
  simp only [evaluate_eq_weigh, scale, Table.mapValues, weigh_scaled]
  ring

end Dropping

/-- Addition of a multiple, sums, factors and offsets are linear, up to the width of the zero test for
each term that is added. -/
theorem linear_within (w : ℚ≥0) (a b : Expression ℚ) (k : ℚ) (terms : List (Variable × ℚ))
    (x : Variable → ℚ) :
    letI := Scalar.rational w
    |(a.addScaled b k).evaluate x - (a.evaluate x + k * b.evaluate x)| ≤ w * spread x b.support ∧
    |(sum terms).evaluate x - (terms.map fun t => t.2 * x t.1).sum| ≤
      w * spread x (terms.map Prod.fst) ∧
    (a.scale k).evaluate x = k * a.evaluate x ∧
    (a.offset k).evaluate x = a.evaluate x + k := by
  let := Scalar.rational w
  refine ⟨?_, ?_, evaluate_scale w x a k, evaluate_offset w x a k⟩
  · have added := abs_addTerms_sub_le w x (a.offset (b.constant * k))
      (b.terms.entries.map fun t => (t.1, t.2 * k))
    have target : (a.offset (b.constant * k)).evaluate x +
        weigh x (b.terms.entries.map fun t => (t.1, t.2 * k)) =
        a.evaluate x + k * b.evaluate x := by
      rw [evaluate_offset, weigh_scaled, evaluate_eq_weigh w x b]
      ring
    have listed : (b.terms.entries.map fun t => (t.1, t.2 * k)).map Prod.fst = b.support := by
      rw [List.map_map]
      rfl
    rwa [target, listed] at added
  · have added := abs_addTerms_sub_le w x (ofConstant 0) terms
    have start : (ofConstant (0 : ℚ)).evaluate x = 0 := rfl
    rwa [start, zero_add] at added

end LinearChoice.Expression
