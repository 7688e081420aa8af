import LinearChoice.Proofs.Simplex.Bland
import LinearChoice.Proofs.Simplex.Minimise

/-!
# Pivots that gain nothing

A pivot through a row that stands at zero changes the basis and not the solution
that is shown. Where two bases show the same solution, the smallest-symbol rules
do not let the greatest symbol that comes and goes between them leave the one
and enter the other.
-/

set_option autoImplicit false

namespace LinearChoice
open scoped Exact

/-- A row grows when no symbol in it moves against its coefficient. -/
theorem Row.eval_mono (r : Row ℚ) {σ τ : Valuation}
    (h : ∀ s, 0 ≤ r.coefficient s * (τ s - σ s)) : r.eval σ ≤ r.eval τ := by
  apply add_le_add_right
  apply List.sum_le_sum
  intro e he
  have grows := h e.1
  rw [coefficient_of_mem he] at grows
  linarith

namespace Tableau

variable {t : Tableau ℚ}

/-- On its solutions a tableau shows the values of the parametric symbols only. -/
theorem point_of_solves {σ : Valuation} (h : t.Solves σ) : t.point σ = σ := by
  funext x
  cases hx : t.rows.get? x with
  | none => exact point_parametric hx σ
  | some row => exact (point_basic hx σ).trans (h x row hx).symm

/-- What the point shows depends on the parametric symbols only. -/
theorem point_congr (parametric : ∀ x row, t.rows.get? x = some row → t.Parametric row)
    {σ τ : Valuation} (same : ∀ x, t.rows.get? x = none → σ x = τ x) : t.point σ = t.point τ := by
  funext x
  cases hx : t.rows.get? x with
  | none => rw [point_parametric hx, point_parametric hx, same x hx]
  | some row =>
    rw [point_basic hx, point_basic hx]
    apply Row.eval_congr
    intro y hy
    exact same y (parametric_of_coefficient (parametric x row hx) hy)

end Tableau

structure Stage where
  tableau : Tableau ℚ
  goal : Row ℚ

namespace Stage

structure Posed (costs : List (Symbol × ℚ)) (x : Stage) : Prop where
  standard : x.tableau.Standard
  prices : x.tableau.Prices costs x.goal
  priced : Tableau.Priced costs

def Basic (x : Stage) (s : Symbol) : Prop := x.tableau.rows.get? s ≠ none

def shown (x : Stage) : Valuation := x.tableau.point 0

structure Pivots (x y : Stage) (entering : Symbol) (c : Candidate ℚ) : Prop where
  enters : Tableau.entering? x.goal = some entering
  leaves : x.tableau.leaving? entering = some c
  tableau : y.tableau = x.tableau.pivot c.symbol c.row entering
  goal : y.goal = x.goal.substitute entering (c.row.exchange c.symbol entering)

variable {x y z : Stage} {costs : List (Symbol × ℚ)} {entering s : Symbol} {c : Candidate ℚ}

theorem pivots_of_advance (h : x.tableau.advance x.goal = .moved y.tableau y.goal) :
    ∃ entering c, Pivots x y entering c := by
  unfold Tableau.advance at h
  split at h
  · cases h
  · next entering enters =>
    split at h
    · cases h
    · next c leaves =>
      obtain ⟨tableau, goal⟩ := Progress.moved.inj h
      exact ⟨entering, c, enters, leaves, tableau.symm, goal.symm⟩

theorem shown_parametric (h : ¬x.Basic s) : x.shown s = 0 :=
  Tableau.point_parametric (not_not.mp h) 0

theorem shown_basic {row : Row ℚ} (h : x.tableau.rows.get? s = some row) :
    x.shown s = row.constant := (Tableau.point_basic h 0).trans row.eval_zero

/-- The same solutions with the parametric symbols of the one at zero in the other. -/
theorem Posed.shown_eq (posed : x.Posed costs) (posed' : y.Posed costs)
    (solves : ∀ σ, y.tableau.Solves σ → x.tableau.Solves σ)
    (zero : ∀ s, ¬x.Basic s → y.shown s = 0) : y.shown = x.shown := by
  have solution := solves _ (posed'.standard.solves_point 0)
  rw [shown, ← Tableau.point_of_solves solution]
  exact Tableau.point_congr posed.standard.parametric fun s hs => zero s (not_not.mpr hs)

namespace Pivots

variable (h : Pivots x y entering c)
include h

theorem row : x.tableau.rows.get? c.symbol = some c.row :=
  (Tableau.leaving_eq_some h.leaves).1

theorem falls : Falls entering (c.symbol, c.row) := (Tableau.leaving_eq_some h.leaves).2.1

theorem descends : entering.isDummy = false ∧ x.goal.coefficient entering < 0 :=
  Tableau.entering_eq_some h.enters

theorem coefficient_ne : c.row.coefficient entering ≠ 0 := ne_of_lt h.falls.2

variable (hx : x.Posed costs)
include hx

theorem inside : entering.isExternal = false :=
  Tableau.not_external_of_internal (hx.prices.internal hx.standard hx.priced)
    (ne_of_lt h.descends.2)

theorem parametric : x.tableau.rows.get? entering = none :=
  Tableau.parametric_of_coefficient (hx.standard.parametric _ _ h.row) h.coefficient_ne

theorem entering_ne : entering ≠ c.symbol :=
  Tableau.ne_of_basic_of_parametric h.row (h.parametric hx)

theorem posed : y.Posed costs := by
  have rebased : Tableau.Rebased costs x.tableau (x.tableau.pivot c.symbol c.row entering) :=
    Tableau.rebased_pivot hx.standard h.leaves h.descends.1 (h.inside hx)
  refine ⟨h.tableau ▸ rebased.standard, ?_, hx.priced⟩
  rw [h.tableau, h.goal]
  exact hx.prices.pivot hx.standard h.row (h.parametric hx) h.coefficient_ne

theorem solves (σ : Valuation) : y.tableau.Solves σ ↔ x.tableau.Solves σ := by
  rw [h.tableau]
  exact Tableau.solves_pivot h.row (h.parametric hx) h.coefficient_ne σ

theorem basic_iff : y.Basic s ↔ s = entering ∨ (s ≠ c.symbol ∧ x.Basic s) := by
  rw [Basic, h.tableau, Tableau.get?_pivot]
  by_cases enters : entering = s
  · simp [enters]
  · by_cases leaves : c.symbol = s
    · simp [← leaves, h.entering_ne hx, (h.entering_ne hx).symm]
    · simp [enters, leaves, Ne.symm enters, Ne.symm leaves, Basic]

/-- The goal falls by what the entering symbol gains. -/
theorem constant : y.goal.constant =
    x.goal.constant + x.goal.coefficient entering * fallRatio entering (c.symbol, c.row) := by
  rw [h.goal, Row.constant_substitute,
    Row.constant_exchange (h.entering_ne hx) h.coefficient_ne]
  rfl

theorem ratio_nonneg : 0 ≤ fallRatio entering (c.symbol, c.row) :=
  div_nonneg_of_nonpos
    (neg_nonpos.mpr ((hx.standard.admits _ _ h.row).nonneg h.falls.1)) (le_of_lt h.falls.2)

theorem constant_le : y.goal.constant ≤ x.goal.constant := by
  rw [h.constant hx]
  have gain := mul_nonpos_of_nonpos_of_nonneg (le_of_lt h.descends.2) (h.ratio_nonneg hx)
  linarith

/-- A goal that does not fall is left where it is by a row that stands at zero. -/
theorem degenerate (level : y.goal.constant = x.goal.constant) :
    fallRatio entering (c.symbol, c.row) = 0 := by
  rw [h.constant hx, add_eq_left, mul_eq_zero] at level
  exact level.resolve_left (ne_of_lt h.descends.2)

theorem shown_of_degenerate (still : fallRatio entering (c.symbol, c.row) = 0) :
    y.shown = x.shown := by
  apply hx.shown_eq (h.posed hx) fun σ => (h.solves hx σ).mp
  intro s hs
  by_cases enters : s = entering
  · have entered : y.tableau.rows.get? entering = some (c.row.exchange c.symbol entering) := by
      rw [h.tableau, Tableau.get?_pivot, if_pos rfl]
    rw [enters, shown_basic entered, Row.constant_exchange (h.entering_ne hx) h.coefficient_ne]
    exact still
  · apply shown_parametric
    rw [h.basic_iff hx]
    exact fun basic => basic.elim enters fun basic => hs basic.2

/-- Along the entering symbol a goal with the same prices falls in any basis. -/
theorem lowers (hz : z.Posed costs) (solves : ∀ σ, x.tableau.Solves σ → z.tableau.Solves σ) :
    z.goal.eval (x.tableau.point (Pi.single entering 1)) < z.goal.eval x.shown := by
  have moved := hx.standard.solves_point (Pi.single entering 1)
  have started := hx.standard.solves_point 0
  rw [hz.prices.value _ (solves _ moved), shown, hz.prices.value _ (solves _ started),
    ← hx.prices.value _ moved, ← hx.prices.value _ started,
    Tableau.eval_point hx.prices.parametric, Tableau.eval_point hx.prices.parametric,
    Row.eval_single, Row.eval_zero]
  linarith [h.descends.2]

/-- Let the greatest symbol that comes and goes leave one basis and enter another. The direction of
the pivot that it leaves by lowers the goal in either basis, so in the other one some symbol moves
against its price. That is not the greatest symbol, and no smaller one. -/
theorem no_return (still : fallRatio entering (c.symbol, c.row) = 0)
    (hz : z.Posed costs) (solves : ∀ σ, x.tableau.Solves σ → z.tableau.Solves σ)
    (same : z.shown = x.shown)
    (greatest : ∀ s, s = entering ∨ (x.Basic s ∧ ¬z.Basic s) → ¬c.symbol < s) :
    Tableau.entering? z.goal ≠ some c.symbol := by
  intro returns
  have descends := Tableau.entering_eq_some returns
  have below (s : Symbol) (hs : s ≠ c.symbol) (moves : s = entering ∨ (x.Basic s ∧ ¬z.Basic s)) :
      s < c.symbol := by
    by_contra above
    exact hs (Symbol.eq_of_not_lt above (greatest s moves))
  refine absurd (z.goal.eval_mono fun s => ?_) (not_le.mpr (h.lowers hx hz solves))
  by_cases absent : z.goal.coefficient s = 0
  · simp [absent]
  have free : ¬z.Basic s :=
    not_not.mpr (Tableau.parametric_of_coefficient hz.prices.parametric absent)
  have inside : s.isExternal = false :=
    Tableau.not_external_of_internal (hz.prices.internal hz.standard hz.priced) absent
  have zero : x.shown s = 0 := same ▸ shown_parametric free
  rw [zero, sub_zero]
  cases basic : x.tableau.rows.get? s with
  | none =>
    rw [Tableau.point_parametric basic]
    by_cases enters : s = entering
    · subst enters
      rw [Pi.single_eq_same, mul_one]
      exact Tableau.entering_smallest returns h.descends.1 (below s (h.entering_ne hx) (Or.inl rfl))
    · rw [Pi.single_eq_of_ne enters, mul_zero]
  | some row =>
    have constant : row.constant = 0 := (shown_basic basic).symm.trans zero
    rw [Tableau.point_basic basic, Row.eval_single, constant, zero_add, mul_one]
    by_cases unmoved : row.coefficient entering = 0
    · simp [unmoved]
    by_cases leaves : s = c.symbol
    · subst leaves
      obtain rfl : c.row = row := Option.some.inj (h.row.symm.trans basic)
      exact le_of_lt (mul_pos_of_neg_of_neg descends.2 h.falls.2)
    · have smaller := below s leaves (Or.inr ⟨by simp [Basic, basic], free⟩)
      have hd := hx.standard.not_dummy_of_mentions basic h.descends.1 unmoved
      refine mul_nonneg (Tableau.entering_smallest returns hd smaller) ?_
      -- A smaller row that falls from zero would have left instead.
      by_contra falls
      refine Tableau.leaving_foremost h.leaves basic ⟨inside, not_le.mp falls⟩ ?_ smaller
      rw [still, fallRatio, constant, neg_zero, zero_div]

end Pivots

end Stage

end LinearChoice
