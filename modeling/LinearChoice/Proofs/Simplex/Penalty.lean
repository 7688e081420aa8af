import LinearChoice.Proofs.Simplex.Keeping

/-!
# What violated constraints cost

An optional constraint is violated by the part of its residual that it does
not allow, and this costs its strength. The errors of an admissible solution
pay at least for the violation, and markers that are filled in pay no more.
-/

set_option autoImplicit false

namespace LinearChoice
open scoped Exact

namespace Constraint

variable (c : Constraint ℚ) (n : ℕ) (v : Variable → ℚ)

def violation : ℚ :=
  match c.relation with
  | .atMost => max (c.expression.evaluate v) 0
  | .equal => |c.expression.evaluate v|
  | .atLeast => max (-c.expression.evaluate v) 0

def penalty : ℚ := if c.isRequired then 0 else c.strength.weight * c.violation v

variable {c n v} {σ : Valuation}

theorem penalty_le_costs (weight : 0 ≤ c.strength.weight) (hσ : σ.Admissible)
    (meets : c.Meets n σ) : c.penalty σ.outer ≤ weigh σ (Markers.ofConstraint c n).costs := by
  have slack := hσ.nonneg (.slack n) rfl
  have down := hσ.nonneg (.error n) rfl
  have up := hσ.nonneg (.error (n + 1)) rfl
  rw [Meets, Markers.ofConstraint_eq] at meets
  rw [Markers.ofConstraint_eq]
  unfold penalty violation
  cases hr : c.relation <;> cases hq : c.isRequired
  all_goals
    simp only [hr, hq, weigh_cons, weigh_nil] at meets ⊢
  · have covered : max (c.expression.evaluate σ.outer) 0 ≤ σ (.error (n + 1)) :=
      max_le (by linarith) up
    simpa using mul_le_mul_of_nonneg_left covered weight
  · simp
  · have covered : |c.expression.evaluate σ.outer| ≤ σ (.error n) + σ (.error (n + 1)) :=
      abs_le.mpr ⟨by linarith, by linarith⟩
    have paid := mul_le_mul_of_nonneg_left covered weight
    simp only [Bool.false_eq_true, if_false]
    linarith
  · simp
  · have covered : max (-c.expression.evaluate σ.outer) 0 ≤ σ (.error (n + 1)) :=
      max_le (by linarith) up
    simpa using mul_le_mul_of_nonneg_left covered weight
  · simp

theorem costs_fill : weigh (c.fill n v σ) (Markers.ofConstraint c n).costs = c.penalty v := by
  have parts := max_zero_add_max_neg_zero_eq_abs_self (c.expression.evaluate v)
  rw [Markers.ofConstraint_eq]
  unfold penalty violation fill
  cases hr : c.relation <;> cases hq : c.isRequired
  all_goals
    simp only [weigh_cons, weigh_nil, Function.update_self, Bool.false_eq_true, if_false, if_true,
      add_zero]
  rw [Function.update_of_ne (by simp), Function.update_self, ← mul_add, parts]

end Constraint

theorem weigh_flatMap {κ ι : Type} (σ : κ → ℚ) (f : ι → List (κ × ℚ)) (l : List ι) :
    weigh σ (l.flatMap f) = (l.map fun i => weigh σ (f i)).sum := by
  induction l with
  | nil => rfl
  | cons i l ih => rw [List.flatMap_cons, weigh_append, ih, List.map_cons, List.sum_cons]

namespace Book

variable {book : Book} {base : ConstraintId → ℕ} {σ : Valuation}

def penalty (book : Book) (v : Variable → ℚ) : ℚ :=
  (book.entries.map fun e => e.2.penalty v).sum

theorem penalty_le_costs (weights : ∀ id c, book.get? id = some c → 0 ≤ c.strength.weight)
    (hσ : σ.Admissible) (meets : ∀ id c, book.get? id = some c → c.Meets (base id) σ) :
    book.penalty σ.outer ≤ weigh σ (book.costs base) := by
  rw [costs, weigh_flatMap]
  apply List.sum_le_sum
  intro e he
  have held := (book.get?_eq_some_iff e.1 e.2).mpr he
  exact Constraint.penalty_le_costs (weights e.1 e.2 held) hσ (meets e.1 e.2 held)

theorem costs_eq_penalty {v : Variable → ℚ}
    (exact : ∀ id c, book.get? id = some c →
      weigh σ (Markers.ofConstraint c (base id)).costs = c.penalty v) :
    weigh σ (book.costs base) = book.penalty v := by
  rw [costs, weigh_flatMap, penalty]
  congr 1
  apply List.map_congr_left
  intro e he
  exact exact e.1 e.2 ((book.get?_eq_some_iff e.1 e.2).mpr he)

end Book

end LinearChoice
