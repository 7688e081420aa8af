import LinearChoice.Proofs.Simplex.Optimum
import LinearChoice.Proofs.Simplex.Termination

/-!
# What is written in a tableau

After any additions and removals a slack or an error stands on no external
variable and not below zero, a dummy stands on dummies only and at zero, and no
slack or error lowers the objective, which no external variable is in. Where a
constraint leaves through the row of an external variable this variable could
come into the objective. It does not, since the objective prices restricted
symbols, which do not depend on it.
-/

set_option autoImplicit false

namespace LinearChoice
open scoped Exact

namespace Tableau

structure Classified (t : Tableau ℚ) : Prop where
  restricted : ∀ s row, t.rows.get? s = some row → s.isPivotable = true →
    (∀ x ∈ row.cells.keys, x.isExternal = false) ∧ 0 ≤ row.constant
  dummies : ∀ s row, t.rows.get? s = some row → s.isDummy = true →
    (∀ x ∈ row.cells.keys, x.isDummy = true) ∧ row.constant = 0
  objective : ∀ e ∈ t.objective.cells.entries,
    e.1.isExternal = false ∧ (e.1.isPivotable = true → 0 ≤ e.2)

variable {t : Tableau ℚ} {costs : List (Symbol × ℚ)}

theorem Standard.classified (h : t.Standard) (prices : t.Prices costs t.objective)
    (priced : Priced costs) (optimal : Optimal t.objective) : t.Classified := by
  constructor
  · intro s row hs restricted
    obtain ⟨internal, nonneg⟩ := (Symbol.admits_pivotable restricted).mp (h.admits s row hs)
    refine ⟨fun x hx => ?_, nonneg⟩
    exact not_external_of_internal internal (((h.reduced s row hs).mem_keys_iff x).mp hx)
  · intro s row hs dummy
    obtain ⟨only, zero⟩ := (Symbol.admits_dummy dummy).mp (h.admits s row hs)
    refine ⟨fun x hx => ?_, zero⟩
    by_contra other
    exact ((h.reduced s row hs).mem_keys_iff x).mp hx (only x (by simpa using other))
  · intro e he
    have written := Row.coefficient_of_mem he
    constructor
    · apply not_external_of_internal (prices.internal h priced)
      rw [written]
      exact prices.reduced e he
    · intro restricted
      rw [← written]
      exact optimal e.1 (Symbol.not_dummy_of_pivotable restricted)

end Tableau

namespace Session

theorem solver_add (x : Session) (c : Constraint ℚ) :
    (x.add c).2.solver = (x.solver.addConstraint c).2 := by
  unfold add
  rcases x.solver.addConstraint c with ⟨_ | _, s⟩ <;> rfl

theorem solver_remove (x : Session) (id : ConstraintId) :
    (x.remove id).2.solver = (x.solver.removeConstraint id).2 := by
  unfold remove
  rcases x.solver.removeConstraint id with ⟨_ | _, s⟩ <;> rfl

/-- Whatever the calls are, a client who keeps the book reaches the state that they lead to: in
exact arithmetic each of them ends. -/
theorem exists_reached (calls : List (Solver.Call ℚ))
    (within : ∀ call ∈ calls, call.Within Constraint.Fair) :
    ∃ x : Session, x.Reached ∧ x.solver = (Solver.empty : Solver ℚ).afterAll calls := by
  refine Solver.afterAll_invariant_of (P := fun s => ∃ x : Session, x.Reached ∧ x.solver = s)
    ⟨start, .start, rfl⟩ ?_ calls within
  rintro _ call own ⟨x, hx, rfl⟩
  cases call with
  | newVariable => exact ⟨x.newVariable, hx.newVariable, rfl⟩
  | add c =>
    have fair : c.Fair := own
    obtain ⟨base, keeps⟩ := hx.keeps
    have ends := (ended_next keeps).1 c fair.weight
    exact ⟨(x.add c).2, hx.add c fair.weight ends, x.solver_add c⟩
  | remove id =>
    obtain ⟨base, keeps⟩ := hx.keeps
    exact ⟨(x.remove id).2, hx.remove id ((ended_next keeps).2 id), x.solver_remove id⟩
  | update => exact ⟨x.update.2, hx.update, rfl⟩
  | addEdit v strength => exact own.elim
  | removeEdit v => exact own.elim
  | suggest v x => exact own.elim

end Session

namespace Solver

/-- The tableau is classified after any additions and removals, refused ones included. -/
theorem classified_afterAll (calls : List (Call ℚ))
    (within : ∀ call ∈ calls, call.Within Constraint.Fair) :
    ((empty : Solver ℚ).afterAll calls).tableau.Classified := by
  obtain ⟨x, reached, state⟩ := Session.exists_reached calls within
  obtain ⟨base, keeps⟩ := reached.keeps
  rw [← state]
  exact keeps.describes.standard.classified keeps.describes.prices keeps.priced reached.optimal

def doubled : List (Call ℚ) :=
  let x : Expression ℚ := .ofVariable ⟨0⟩
  let y : Expression ℚ := .ofVariable ⟨1⟩
  [.newVariable, .newVariable, .add (.relate (.ofTerm ⟨0⟩ (-1)) .equal 5),
    .add (.relate (.sum [(⟨1⟩, -2), (⟨0⟩, 2)]) .atMost 3),
    .add (.relate (.ofTerm ⟨1⟩ (-3)) .atMost (-7)),
    .add { Constraint.relate y .atMost 1 with strength := .weak },
    .add (.relate (.ofTerm ⟨0⟩ (-2)) .equal 10), .add (.relate x .equal 7)]

/-- An equality is held twice, on two scales. The second copy has a row of its own, which the first
one leaves by. -/
theorem classified_doubled :
    (∀ call ∈ doubled ++ [.remove ⟨0⟩], call.Within Constraint.Fair) ∧
    ((empty : Solver ℚ).afterAll doubled).tableau.rows.keys.any Symbol.isDummy = true ∧
    ((empty : Solver ℚ).afterAll (doubled ++ [.remove ⟨0⟩])).tableau.Classified := by
  have within : ∀ call ∈ doubled ++ [.remove ⟨0⟩], call.Within Constraint.Fair := by
    decide +kernel
  exact ⟨within, by decide +kernel, classified_afterAll _ within⟩

end Solver

end LinearChoice
