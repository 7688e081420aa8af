import LinearChoice.Proofs.Extended
import LinearChoice.Proofs.Simplex.RowValue
import LinearChoice.Pruner.Check

/-!
# What intervals contain

Every operation of the pruner on intervals is judged by the rationals that the
intervals contain. The interval of a constraint on one variable contains what
satisfies the constraint, and an interval derived from a constraint contains
whatever satisfies it within the intervals of the other variables.
-/

set_option autoImplicit false

namespace LinearChoice
open scoped Exact

theorem weigh_remove {κ : Type} [DecidableEq κ] (σ : κ → ℚ) (l : List (κ × ℚ)) {k : κ} {x : ℚ}
    (nodup : (l.map Prod.fst).Nodup) (mem : (k, x) ∈ l) :
    weigh σ l = x * σ k + weigh σ (l.filter fun e => e.1 ≠ k) := by
  induction l with
  | nil => cases mem
  | cons e l ih =>
    rw [List.map_cons, List.nodup_cons] at nodup
    rw [List.mem_cons] at mem
    by_cases here : e.1 = k
    · have others : l.filter (fun e => e.1 ≠ k) = l := by
        rw [List.filter_eq_self]
        intro e' he'
        have : e'.1 ≠ k := fun heq => nodup.1 (here ▸ heq ▸ List.mem_map_of_mem he')
        simpa using this
      have head : e = (k, x) := by
        rcases mem with rfl | mem
        · rfl
        · exact absurd (here ▸ List.mem_map_of_mem mem) nodup.1
      rw [List.filter_cons_of_neg (by simp [here]), others, weigh_cons, head]
    · have tail : (k, x) ∈ l := by
        rcases mem with rfl | mem
        · exact absurd rfl here
        · exact mem
      rw [List.filter_cons_of_pos (by simp [here]), weigh_cons, weigh_cons, ih nodup.2 tail]
      ring

theorem Scalar.max_eq (x y : Extended) : Scalar.max x y = x ⊔ y := by
  unfold Scalar.max
  split
  · next h => exact (max_eq_right (le_of_lt h)).symm
  · next h =>
    have self : (x == x) = true := decide_eq_true rfl
    rw [if_pos self, max_eq_left (not_lt.mp h)]

theorem Scalar.min_eq (x y : Extended) : Scalar.min x y = x ⊓ y := by
  unfold Scalar.min
  split
  · next h => exact (min_eq_right (le_of_lt h)).symm
  · next h =>
    have self : (x == x) = true := decide_eq_true rfl
    rw [if_pos self, min_eq_left (not_lt.mp h)]

namespace Interval

variable {i j : Interval Extended} {q : ℚ}

def Contains (i : Interval Extended) (q : ℚ) : Prop := i.lower ≤ .finite q ∧ .finite q ≤ i.upper

theorem contains_unbounded : (unbounded : Interval Extended).Contains q :=
  ⟨Extended.negInf_le, Extended.le_posInf⟩

def Spans (i : Interval Extended) (a b : Extended) : Prop := i.lower ≤ a ∧ b ≤ i.upper

theorem spans_intersect {a b : Extended} :
    (i.intersect j).Spans a b ↔ i.Spans a b ∧ j.Spans a b := by
  unfold Spans intersect
  dsimp only
  rw [Scalar.max_eq, Scalar.min_eq, max_le_iff, le_min_iff, and_and_and_comm]

theorem contains_intersect : (i.intersect j).Contains q ↔ i.Contains q ∧ j.Contains q :=
  spans_intersect

theorem magnitude_finite (q : ℚ) : Scalar.magnitude (Extended.finite q) = .finite |q| := by
  unfold Scalar.magnitude
  split
  · next h => rw [Extended.neg_finite, abs_of_neg (Extended.finite_lt_finite.mp h)]
  · next h => rw [abs_of_nonneg (not_lt.mp fun hq => h (Extended.finite_lt_finite.mpr hq))]

theorem max_finite (p q : ℚ) :
    Scalar.max (Extended.finite p) (Extended.finite q) = .finite (p ⊔ q) := by
  rw [Scalar.max_eq]
  rcases le_total p q with h | h
  · rw [max_eq_right h, max_eq_right (Extended.finite_le_finite.mpr h)]
  · rw [max_eq_left h, max_eq_left (Extended.finite_le_finite.mpr h)]

/-- Infinite ends do not count. -/
theorem tolerance_eq (x y : Extended) :
    tolerance x y = .finite (1 / 1000000 * (1 + |x.toRat| ⊔ |y.toRat|)) := by
  have zero : (0 : Extended) = .finite 0 := rfl
  have one : (1 : Extended) = .finite 1 := rfl
  have slack : (ExtendedScalar.slack : Extended) = .finite (1 / 1000000) := rfl
  unfold tolerance
  rw [zero, one, slack]
  cases x <;> cases y <;>
    simp [List.filter_cons, Scalar.isFinite, Extended.isFinite, Extended.toRat, magnitude_finite,
      max_finite]

theorem tolerance_finite (x y : Extended) : ∃ τ : ℚ, 0 ≤ τ ∧ tolerance x y = .finite τ :=
  ⟨_, by positivity, tolerance_eq x y⟩

/-- However much slack there is, nothing that has a member counts as empty. -/
theorem not_isEmpty (h : i.Contains q) : i.isEmpty = false := by
  obtain ⟨τ, hτ, tolerance⟩ := tolerance_finite i.lower i.upper
  have above : .finite (q + 0) ≤ i.upper + .finite τ :=
    Extended.finite_le_add h.2 (Extended.finite_le_finite.mpr hτ)
  rw [add_zero] at above
  unfold isEmpty
  rw [tolerance, decide_eq_false_iff_not]
  exact not_lt.mpr (h.1.trans above)

end Interval

namespace Constraint

variable {c : Constraint Extended} {v : Variable → ℚ}

def Admits (c : Constraint Extended) (v : Variable → ℚ) : Prop :=
  c.holds (fun x => .finite (v x)) 0 = true

structure Proper (c : Constraint Extended) : Prop where
  finite : c.isFinite = true
  nonzero : ∀ t ∈ c.expression.terms.entries, t.2 ≠ 0

instance (c : Constraint Extended) : Decidable c.Proper :=
  decidable_of_iff (c.isFinite = true ∧ ∀ t ∈ c.expression.terms.entries, t.2 ≠ 0)
    ⟨fun h => ⟨h.1, h.2⟩, fun h => ⟨h.finite, h.nonzero⟩⟩

def rationalTerms (c : Constraint Extended) : List (Variable × ℚ) :=
  c.expression.terms.entries.map fun t => (t.1, t.2.toRat)

def residual (c : Constraint Extended) (v : Variable → ℚ) : ℚ :=
  c.expression.constant.toRat + weigh v c.rationalTerms

def rest (c : Constraint Extended) (target : Variable) (v : Variable → ℚ) : ℚ :=
  c.expression.constant.toRat + weigh v (c.rationalTerms.filter fun t => t.1 ≠ target)

theorem rationalTerms_filter (c : Constraint Extended) (target : Variable) :
    c.rationalTerms.filter (fun t => t.1 ≠ target) =
      (c.expression.terms.entries.filter fun t => t.1 ≠ target).map fun t => (t.1, t.2.toRat) := by
  rw [rationalTerms, List.filter_map]
  rfl

theorem residual_eq (c : Constraint Extended) {t : Variable × Extended}
    (ht : t ∈ c.expression.terms.entries) (v : Variable → ℚ) :
    c.residual v = c.rest t.1 v + t.2.toRat * v t.1 := by
  have keys : c.rationalTerms.map Prod.fst = c.expression.terms.entries.map Prod.fst := by
    rw [rationalTerms, List.map_map]
    rfl
  have mem : (t.1, t.2.toRat) ∈ c.rationalTerms := List.mem_map_of_mem ht
  rw [residual, weigh_remove v _ (keys ▸ c.expression.terms.nodup_keys) mem, rest]
  ring

theorem constant_of_finite (h : c.isFinite = true) :
    .finite c.expression.constant.toRat = c.expression.constant := by
  rw [isFinite, Bool.and_eq_true] at h
  exact Extended.finite_toRat h.1

theorem coefficient_of_finite (h : c.isFinite = true) {t : Variable × Extended}
    (ht : t ∈ c.expression.terms.entries) : .finite t.2.toRat = t.2 := by
  rw [isFinite, Bool.and_eq_true, List.all_eq_true] at h
  exact Extended.finite_toRat (h.2 t ht)

theorem evaluate_of_finite (h : c.isFinite = true) (v : Variable → ℚ) :
    c.expression.evaluate (fun x => .finite (v x)) = .finite (c.residual v) := by
  have terms (l : List (Variable × Extended))
      (hl : ∀ t ∈ l, t ∈ c.expression.terms.entries) (a : ℚ) :
      l.foldl (fun total t => total + t.2 * .finite (v t.1)) (.finite a) =
        .finite (a + weigh v (l.map fun t => (t.1, t.2.toRat))) := by
    induction l generalizing a with
    | nil => simp
    | cons t l ih =>
      obtain ⟨ht, hl⟩ := List.forall_mem_cons.mp hl
      rw [List.foldl_cons, ← coefficient_of_finite h ht, Extended.finite_mul_finite,
        Extended.finite_add_finite, ih hl, List.map_cons, weigh_cons, add_assoc]
  unfold Expression.evaluate
  rw [← constant_of_finite h]
  exact terms _ (fun _ ht => ht) _

theorem admits_iff_of_finite (h : c.isFinite = true) (v : Variable → ℚ) :
    c.Admits v ↔ c.relation.Allows (c.residual v) := by
  have zero : (0 : Extended) = .finite 0 := rfl
  unfold Admits holds
  rw [evaluate_of_finite h]
  cases c.relation <;> simp [Interval.magnitude_finite, zero, Relation.Allows]

theorem Proper.constant (h : c.Proper) :
    .finite c.expression.constant.toRat = c.expression.constant := constant_of_finite h.finite

theorem Proper.coefficient (h : c.Proper) {t : Variable × Extended}
    (ht : t ∈ c.expression.terms.entries) : .finite t.2.toRat = t.2 ∧ t.2.toRat ≠ 0 := by
  have same := coefficient_of_finite h.finite ht
  exact ⟨same, fun zero => h.nonzero t ht (same ▸ congrArg Extended.finite zero)⟩

theorem Proper.admits_iff (h : c.Proper) (v : Variable → ℚ) :
    c.Admits v ↔ c.relation.Allows (c.residual v) := admits_iff_of_finite h.finite v

end Constraint

namespace Interval

variable {rest : Interval Extended} {k t : ℚ}

def solve (relation : Relation) (rest : Interval Extended) (k : Extended) : Interval Extended :=
  let term : Interval Extended :=
    match relation with
    | .equal => ⟨-rest.upper, -rest.lower⟩
    | .atMost => ⟨.negInf, -rest.lower⟩
    | .atLeast => ⟨-rest.upper, .posInf⟩
  if 0 < k then ⟨term.lower / k, term.upper / k⟩ else ⟨term.upper / k, term.lower / k⟩

theorem contains_quotient (i : Interval Extended) (hk : k ≠ 0) :
    Contains (if 0 < Extended.finite k then ⟨i.lower / .finite k, i.upper / .finite k⟩
      else ⟨i.upper / .finite k, i.lower / .finite k⟩) t ↔ i.Contains (k * t) := by
  have sign : 0 < Extended.finite k ↔ 0 < k := Extended.finite_lt_finite
  rcases lt_or_gt_of_ne hk with neg | pos
  · rw [if_neg (mt sign.mp neg.not_gt)]
    unfold Contains
    rw [Extended.div_le_finite_of_neg neg, Extended.finite_le_div_of_neg neg, and_comm]
  · rw [if_pos (sign.mpr pos)]
    unfold Contains
    rw [Extended.div_le_finite pos, Extended.finite_le_div pos]

/-- What is left to a variable is what some value of the rest makes room for. -/
theorem contains_solve (relation : Relation) (hk : k ≠ 0) :
    (solve relation rest (.finite k)).Contains t ↔
      match relation with
      | .equal => rest.Contains (-(k * t))
      | .atMost => rest.lower ≤ .finite (-(k * t))
      | .atLeast => .finite (-(k * t)) ≤ rest.upper := by
  refine (contains_quotient _ hk).trans ?_
  unfold Contains
  cases relation <;> simp [Extended.neg_le_finite, Extended.finite_le_neg, and_comm]

/-- With nothing else in the expression this is the interval of a constraint on one variable. -/
theorem solve_point (relation : Relation) (a : ℚ) (hk : k ≠ 0) :
    solve relation (point (.finite a)) (.finite k) =
      match relation with
      | .equal => point (-.finite a / .finite k)
      | .atMost => if Extended.finite k < 0 then atLeast (-.finite a / .finite k)
          else atMost (-.finite a / .finite k)
      | .atLeast => if Extended.finite k < 0 then atMost (-.finite a / .finite k)
          else atLeast (-.finite a / .finite k) := by
  have below : Extended.finite k < 0 ↔ k < 0 := Extended.finite_lt_finite
  have above : 0 < Extended.finite k ↔ 0 < k := Extended.finite_lt_finite
  unfold solve
  simp only [below, above]
  rcases lt_or_gt_of_ne hk with neg | pos
  · have inverse := inv_lt_zero.mpr neg
    cases relation <;>
      simp [neg, neg.not_gt, point, atLeast, atMost, Extended.negInf_div_finite,
        Extended.posInf_div_finite, Extended.infinite_neg, Extended.infinite_pos, inverse]
  · have inverse := inv_pos.mpr pos
    cases relation <;>
      simp [pos, pos.not_gt, point, atLeast, atMost, Extended.negInf_div_finite,
        Extended.posInf_div_finite, Extended.infinite_neg, Extended.infinite_pos, inverse]

end Interval

namespace Constraint.Proper

variable {c : Constraint Extended} {x : Variable} {i : Interval Extended}

theorem unitBound (h : c.Proper) (bound : c.unitBound? = some (x, i)) :
    c.isRequired = true ∧ ∃ k : ℚ, k ≠ 0 ∧ c.rationalTerms = [(x, k)] ∧
      i = Interval.solve c.relation (.point c.expression.constant) (.finite k) := by
  unfold unitBound? at bound
  split at bound
  · next required =>
    split at bound
    · next y k single =>
      have mem : (y, k) ∈ c.expression.terms.entries := by simp [single]
      obtain ⟨q, rfl, hq⟩ : ∃ q, k = .finite q ∧ q ≠ 0 :=
        ⟨k.toRat, (h.coefficient mem).1.symm, (h.coefficient mem).2⟩
      have terms : c.rationalTerms = [(y, q)] := by simp [rationalTerms, single, Extended.toRat]
      have solved := Interval.solve_point c.relation c.expression.constant.toRat hq
      rw [h.constant] at solved
      refine ⟨required, q, hq, ?_⟩
      rw [solved]
      simp only [decide_eq_true_eq] at bound
      cases hr : c.relation
      all_goals
        simp only [hr, Option.some.injEq, Prod.mk.injEq] at bound ⊢
        exact ⟨bound.1 ▸ terms, bound.2.symm⟩
    · cases bound
  · cases bound

/-- The interval of a constraint on one variable says the same as the constraint. -/
theorem contains_unitBound (h : c.Proper) (bound : c.unitBound? = some (x, i))
    (v : Variable → ℚ) : i.Contains (v x) ↔ c.Admits v := by
  obtain ⟨-, k, hk, terms, rfl⟩ := h.unitBound bound
  have constant := h.constant
  have residual : c.residual v = c.expression.constant.toRat + k * v x := by
    simp [Constraint.residual, terms]
  rw [h.admits_iff, residual, Interval.contains_solve _ hk]
  generalize c.expression.constant.toRat = a at constant
  rw [← constant]
  unfold Interval.Contains Interval.point
  unfold Relation.Allows
  cases c.relation with
  | equal => simp [← le_antisymm_iff, eq_neg_iff_add_eq_zero]
  | atMost => simp [le_neg_iff_add_nonpos_right]
  | atLeast => simp [neg_le_iff_add_nonneg]

end Constraint.Proper

end LinearChoice
