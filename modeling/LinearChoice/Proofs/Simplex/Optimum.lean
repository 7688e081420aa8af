import LinearChoice.Proofs.Simplex.Session
import LinearChoice.Proofs.Simplex.Outcomes

/-!
# Optional constraints are violated no more than they must be

Every call that comes to an end leaves the objective at an optimum of the
tableau. By the equations of the book the objective is what the violations
cost, so no other values within the required constraints are cheaper.
-/

set_option autoImplicit false

namespace LinearChoice
open scoped Exact

namespace Tableau

/-- As a goal of its own the objective goes through the pivot that the tableau goes through. -/
theorem advance_objective (t : Tableau ℚ) :
    match t.advance t.objective with
    | .optimal => Optimal t.objective
    | .unbounded => True
    | .moved t' goal => goal = t'.objective := by
  unfold advance
  cases he : entering? t.objective with
  | none => exact entering_eq_none he
  | some s =>
    dsimp only
    cases t.leaving? s with
    | none => trivial
    | some c => rfl

theorem minimise_objective (n : ℕ) (t : Tableau ℚ) :
    match minimise n t t.objective with
    | (.ok (), t', goal) => goal = t'.objective ∧ Optimal goal
    | (.error _, _, _) => True := by
  induction n generalizing t with
  | zero => trivial
  | succ n ih =>
    have step := advance_objective t
    unfold minimise
    generalize t.advance t.objective = progress at step ⊢
    cases progress with
    | optimal => exact ⟨rfl, step⟩
    | unbounded => trivial
    | moved t' goal =>
      subst step
      exact ih t'

theorem withdraw_outcome (t : Tableau ℚ) (marker : Symbol) :
    (t.withdraw marker).1 ≠ .error .unsatisfiable := by
  unfold withdraw
  repeat' split
  all_goals simp

/-- The errors of a new constraint come at prices that are not negative. -/
theorem Optimal.addCells {goal : Row ℚ} (h : Optimal goal) {cells : List (Symbol × ℚ)}
    (nonneg : ∀ e ∈ cells, 0 ≤ e.2) : Optimal (goal.addCells cells) := by
  intro s hs
  rw [Row.coefficient_addCells]
  apply add_nonneg (h s hs)
  apply weigh_nonneg
  intro e he
  apply mul_nonneg (nonneg e he)
  rw [Row.single_one]
  split <;> norm_num

end Tableau

namespace Solver

variable {s : Solver ℚ} {ε : Type}

def Tidy : Except SolverError ε × Solver ℚ → Prop
  | (.ok _, s) | (.error .unsatisfiable, s) => Tableau.Optimal s.tableau.objective
  | _ => True

theorem Tidy.error {δ : Type} {e : SolverError}
    (h : Tidy ((.error e, s) : Except SolverError ε × Solver ℚ)) :
    Tidy ((.error e, s) : Except SolverError δ × Solver ℚ) := by
  cases e <;> exact h

theorem tidy_optimise (s : Solver ℚ) : Tidy s.optimise := by
  have endless := Tableau.endless_of_minimise s.tableau.budget s.tableau s.tableau.objective
  have run := Tableau.minimise_objective s.tableau.budget s.tableau
  unfold optimise Tableau.optimise
  generalize Tableau.minimise _ s.tableau s.tableau.objective = answer at endless run ⊢
  obtain ⟨e | _, t, goal⟩ := answer
  · cases e with
    | unsatisfiable => exact absurd rfl (endless _ rfl).ne_unsatisfiable
    | _ => trivial
  · exact run.1 ▸ run.2

theorem tidy_accept (s : Solver ℚ) (tag : Tag) (strength : Strength ℚ) :
    Tidy (s.accept tag strength) := by
  unfold accept
  dsimp only
  split
  all_goals
    next run =>
      have tidy := tidy_optimise { s with
        nextConstraint := s.nextConstraint + 1
        constraints := s.constraints.insert ⟨s.nextConstraint⟩ ⟨tag, strength⟩ }
      rw [run] at tidy
      first | exact tidy | exact tidy.error

theorem tidy_refuse (s : Solver ℚ) : Tidy s.refuse := by
  have tidy := tidy_optimise s
  unfold refuse
  split
  all_goals
    next run =>
      rw [run] at tidy
      first | exact tidy | exact tidy.error

theorem tidy_acceptWithArtificial (s : Solver ℚ) (row : Row ℚ) (tag : Tag)
    (strength : Strength ℚ) : Tidy (s.acceptWithArtificial row tag strength) := by
  have endless := s.tableau.endless_of_introduce (.slack s.nextSymbol) row
  unfold acceptWithArtificial
  generalize s.tableau.introduce _ row = answer at endless ⊢
  obtain ⟨e | ⟨_ | _⟩, t⟩ := answer
  · cases e with
    | unsatisfiable => exact absurd rfl (endless _ rfl).ne_unsatisfiable
    | _ => trivial
  · exact tidy_refuse _
  · exact tidy_accept _ _ _

theorem tidy_insert (optimal : Tableau.Optimal s.tableau.objective) {c : Constraint ℚ}
    (weight : 0 ≤ c.strength.weight) : Tidy (s.insert c) := by
  have priced : Tableau.Optimal
      (s.tableau.objective.addCells (Markers.ofConstraint c s.nextSymbol).costs) := by
    apply optimal.addCells
    intro e he
    exact (Markers.costs_numbered c s.nextSymbol e he).2.1 ▸ weight
  unfold insert
  dsimp only
  repeat' split
  · exact tidy_accept _ _ _
  · exact tidy_accept _ _ _
  · exact priced
  · exact tidy_acceptWithArtificial _ _ _ _
  · trivial

theorem tidy_removeConstraint (s : Solver ℚ) (id : ConstraintId) :
    Tidy (s.removeConstraint id) := by
  unfold removeConstraint
  split
  · trivial
  · next held _ =>
    have outcome := (s.tableau.removeCosts held.tag held.strength.weight).withdraw_outcome
      held.tag.marker
    generalize (s.tableau.removeCosts held.tag held.strength.weight).withdraw held.tag.marker =
      answer at outcome ⊢
    obtain ⟨e | _, t⟩ := answer
    · cases e with
      | unsatisfiable => exact absurd rfl outcome
      | _ => trivial
    · exact tidy_optimise _

end Solver

namespace Solver.Keeps

variable {s : Solver ℚ} {book : Book} {base : ConstraintId → ℕ}

/-- At an optimum of the objective no values that satisfy the book are cheaper than the current
ones. -/
theorem penalty_le (h : s.Keeps book base) (optimal : Tableau.Optimal s.tableau.objective)
    {v : Variable → ℚ} (hv : book.Satisfied v) : book.penalty s.currentValue ≤ book.penalty v := by
  have standard := h.describes.standard
  have prices := h.describes.prices
  have meets := (h.describes.solves _).mp (standard.solves_point 0)
  obtain ⟨σ, hσ, -, solved, exact⟩ := Book.extend_exact h.numbered hv
  calc book.penalty s.currentValue
      ≤ weigh (s.tableau.point 0) (book.costs base) := by
        rw [← outer_point]
        exact Book.penalty_le_costs h.weights standard.admissible_point_zero meets
    _ = s.tableau.objective.constant := (prices.constant standard).symm
    _ ≤ s.tableau.objective.eval σ :=
        Tableau.constant_le_eval (prices.internal standard h.priced) optimal hσ
    _ = book.penalty v := by rw [prices.value σ ((h.describes.solves σ).mpr solved), exact]

end Solver.Keeps

namespace Session

variable {x : Session} {base : ConstraintId → ℕ}

theorem optimal_add (keeps : x.solver.Keeps x.held base)
    (optimal : Tableau.Optimal x.solver.tableau.objective) {c : Constraint ℚ}
    (weight : 0 ≤ c.strength.weight) (fin : ended (x.add c).1 = true) :
    Tableau.Optimal (x.add c).2.solver.tableau.objective := by
  have cases := add_cases keeps weight fin
  have tidy := Solver.tidy_insert optimal weight
  unfold add Solver.addConstraint at *
  generalize x.solver.insert c = answer at tidy cases ⊢
  obtain ⟨e | ⟨id, tag⟩, s⟩ := answer
  · obtain ⟨id, base', ok, -⟩ | ⟨refused, -⟩ := cases
    · cases ok
    · cases refused
      exact tidy
  · exact tidy

theorem optimal_remove (keeps : x.solver.Keeps x.held base)
    (optimal : Tableau.Optimal x.solver.tableau.objective) {id : ConstraintId}
    (fin : ended (x.remove id).1 = true) :
    Tableau.Optimal (x.remove id).2.solver.tableau.objective := by
  rcases remove_cases keeps id fin with ⟨-, ok, -⟩ | ⟨-, same⟩
  · have tidy := Solver.tidy_removeConstraint x.solver id
    unfold remove at *
    generalize x.solver.removeConstraint id = answer at tidy ok ⊢
    obtain ⟨e | _, s⟩ := answer
    · cases ok
    · exact tidy
  · rw [same]
    exact optimal

theorem Reached.optimal (h : x.Reached) : Tableau.Optimal x.solver.tableau.objective := by
  induction h with
  | start => exact fun _ _ => le_refl 0
  | newVariable _ ih => exact ih
  | add h c weight fin ih =>
    obtain ⟨base, keeps⟩ := h.keeps
    exact optimal_add keeps ih weight fin
  | remove h id fin ih =>
    obtain ⟨base, keeps⟩ := h.keeps
    exact optimal_remove keeps ih fin
  | update _ ih =>
    unfold Session.update Solver.updateVariables
    split <;> exact ih

/-- After any calls the current values are within the required constraints that are held, and no
values within these violate the optional ones at a lower price. -/
theorem cheapest_of_reached (h : x.Reached) :
    x.held.Satisfied x.solver.currentValue ∧
      ∀ v, x.held.Satisfied v → x.held.penalty x.solver.currentValue ≤ x.held.penalty v := by
  obtain ⟨base, keeps⟩ := h.keeps
  exact ⟨keeps.shown, fun _ hv => keeps.penalty_le h.optimal hv⟩

def torn : Session :=
  let x : Expression ℚ := .ofVariable ⟨0⟩
  let pull (relation : Relation) (rhs weight : ℚ) : Constraint ℚ :=
    { Constraint.relate x relation rhs with strength := ⟨weight⟩ }
  let held := (start.newVariable.add (.relate x .atLeast 1)).2
  let pulled := (((held.add (pull .equal 3 1)).2.add (pull .atMost 2 5)).2.add (pull .equal 9 7)).2
  ((pulled.add (.relate x .atMost 0)).2.remove ⟨3⟩).2

theorem reached_torn : torn.Reached := by
  refine .remove (.add (.add (.add (.add (.add (.newVariable .start) _ ?_ ?_) _ ?_ ?_) _ ?_ ?_) _
    ?_ ?_) _ ?_ ?_) _ ?_
  all_goals decide +kernel

/-- Two optional constraints pull apart, neither within reach of the required one that was refused,
and a third has come and gone. -/
theorem cheapest_torn : torn.Reached ∧ torn.held.Satisfied torn.solver.currentValue ∧
    ∀ v, torn.held.Satisfied v → torn.held.penalty torn.solver.currentValue ≤ torn.held.penalty v :=
  ⟨reached_torn, cheapest_of_reached reached_torn⟩

end Session

end LinearChoice
