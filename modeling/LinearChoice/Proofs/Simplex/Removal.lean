import LinearChoice.Proofs.Simplex.Termination

/-!
# Removing what is held

The record of a held constraint goes in any case. Whether its marker leaves the
tableau depends on its still being within reach: basic, or in a row through which
it can become basic. In exact arithmetic it always is, so that every removal
succeeds. Otherwise its last cell may have been dropped as being close to zero.
-/

set_option autoImplicit false

namespace LinearChoice

namespace Solver

variable {α : Type} [Scalar α] {s : Solver α}

instance {t : Tableau α} {marker : Symbol} : Decidable (t.Reaches marker) :=
  inferInstanceAs (Decidable (_ = true ∨ ∃ e ∈ t.rows.entries, _ = true))

structure Removes (s : Solver α) (id : ConstraintId) (held : Held α) : Prop where
  record : (s.removeConstraint id).2.constraints = s.constraints.eraseSwap id
  stuck : (s.removeConstraint id).1 = .error (.internal .noLeavingRow) ↔
    ¬s.tableau.Reaches held.tag.marker
  endless : ∀ e, (s.removeConstraint id).1 = .error e → e = .internal .noLeavingRow ∨ e.Endless

theorem removes {id : ConstraintId} {held : Held α} (found : s.constraints.get? id = some held) :
    s.Removes id held := by
  have removed := removed found
  generalize answer : s.removeConstraint id = answer at removed
  cases removed with
  | done reached =>
    exact ⟨by rw [answer], by simp [answer, reached], by simp [answer]⟩
  | stuck vanished =>
    exact ⟨by rw [answer], by simp [answer, vanished], by simp [answer]⟩
  | @endless e _ he reached =>
    refine ⟨by rw [answer], ?_, ?_⟩
    · rcases he with rfl | rfl <;> simp [answer, reached]
    · rw [answer]
      rintro e ⟨⟩
      exact Or.inr he

structure Unpriced (s : Solver α) : Prop where
  objective : s.tableau.Unpriced
  tags : ∀ id held, s.constraints.get? id = some held → held.tag.symbols.filter Symbol.isError = []

theorem unpriced_empty : (empty : Solver α).Unpriced := ⟨rfl, nofun⟩

theorem Unpriced.addConstraint (h : s.Unpriced) {c : Constraint α} (required : c.isRequired = true) :
    (s.addConstraint c).2.Unpriced := by
  have inserted := inserted s c
  change (s.insert c).2.Unpriced
  generalize s.insert c = answer at inserted
  have record {t : Tableau α} {n : Nat} (posed : Posed s c t n) : (s.record c t n).Unpriced := by
    refine ⟨posed.unpriced required h.objective, fun id held found => ?_⟩
    rw [Solver.record, Table.get?_insert] at found
    split at found
    · cases found
      exact Markers.errors_required c s.nextSymbol required
    · exact h.tags id held found
  cases inserted with
  | nonFinite => exact h
  | refused posed => exact ⟨posed.unpriced required h.objective, h.tags⟩
  | endless _ posed => exact ⟨posed.unpriced required h.objective, h.tags⟩
  | accepted posed => exact record posed
  | orphaned _ posed => exact record posed

theorem Unpriced.removeConstraint (h : s.Unpriced) (id : ConstraintId) :
    (s.removeConstraint id).2.Unpriced := by
  cases found : s.constraints.get? id with
  | none =>
    rw [Solver.removeConstraint, found]
    exact h
  | some held =>
    have noErrors := h.tags id held found
    have erased {t : Tableau α} (left : Left s held t) :
        Unpriced { s with constraints := s.constraints.eraseSwap id, tableau := t } := by
      refine ⟨left.unpriced noErrors h.objective, fun id' held' found' => ?_⟩
      rw [Table.get?_eraseSwap] at found'
      split at found'
      · contradiction
      · exact h.tags id' held' found'
    have removed := removed found
    generalize s.removeConstraint id = answer at removed
    cases removed with
    | done _ left => exact erased left
    | stuck _ left => exact erased left
    | endless _ _ left _ => exact erased left

theorem Unpriced.updateVariables (h : s.Unpriced) : s.updateVariables.2.Unpriced := by
  unfold Solver.updateVariables
  split
  · exact ⟨h.objective, h.tags⟩
  · exact h

theorem Unpriced.after (h : s.Unpriced) {call : Call α}
    (required : call.Within fun c => c.isRequired = true) : (s.after call).Unpriced := by
  cases call with
  | newVariable => exact ⟨h.objective, h.tags⟩
  | add c => exact h.addConstraint required
  | remove id => exact h.removeConstraint id
  | update => exact h.updateVariables
  | addEdit | removeEdit | suggest => exact required.elim

theorem unpriced_afterAll (calls : List (Call α))
    (required : ∀ call ∈ calls, call.Within fun c => c.isRequired = true) :
    ((empty : Solver α).afterAll calls).Unpriced :=
  afterAll_invariant_of unpriced_empty (fun _ _ within h => h.after within) calls required

/-- Without prices there is nothing to optimise, so a removal fails only if the marker vanished. -/
theorem Unpriced.removes_iff (h : s.Unpriced) {id : ConstraintId} {held : Held α}
    (found : s.constraints.get? id = some held) :
    (s.removeConstraint id).1 = .ok () ↔ s.tableau.Reaches held.tag.marker := by
  have removed := removed found
  generalize s.removeConstraint id = answer at removed
  cases removed with
  | done reached => simp [reached]
  | stuck vanished => simp [vanished]
  | endless _ _ _ priced => exact absurd h.objective (priced (h.tags id held found))

open scoped Exact in
/-- In exact arithmetic the marker of a constraint that is held is always within reach. -/
theorem Keeps.reaches {s : Solver ℚ} {book : Book} {base : ConstraintId → ℕ}
    (h : s.Keeps book base) {id : ConstraintId} {held : Held ℚ}
    (found : s.constraints.get? id = some held) : s.tableau.Reaches held.tag.marker := by
  obtain ⟨c, hc, -⟩ := Option.map_eq_some_iff.mp ((h.records id).symm.trans found)
  obtain ⟨outcome, s', run, -, result⟩ := removeConstraint_spec h hc
  have stuck := (removes found).stuck
  rw [run] at stuck
  by_contra vanished
  rcases result with rfl | rfl <;> simp [vanished] at stuck

open scoped Exact in
/-- Whatever the arithmetic, the removal of a constraint that is held gets stuck if and only if its
marker is out of reach, and that is all that can go wrong while every constraint is required. In
exact arithmetic no marker gets out of reach. -/
theorem removes_held {α : Type} [Scalar α] :
    (∀ (calls : List (Call α)) (id : ConstraintId) (held : Held α),
      ((empty : Solver α).afterAll calls).constraints.get? id = some held →
      ((empty : Solver α).afterAll calls).Removes id held ∧
      ((∀ call ∈ calls, call.Within fun c => c.isRequired = true) →
        ((((empty : Solver α).afterAll calls).removeConstraint id).1 = .ok () ↔
          ((empty : Solver α).afterAll calls).tableau.Reaches held.tag.marker))) ∧
    ∀ x : Session, x.Reached → ∀ (id : ConstraintId) (held : Held ℚ),
      x.solver.constraints.get? id = some held →
      x.solver.tableau.Reaches held.tag.marker ∧ (x.remove id).1 = .ok () := by
  refine ⟨fun calls id held found => ⟨removes found, fun required =>
    (unpriced_afterAll calls required).removes_iff found⟩, fun x h id held found => ?_⟩
  obtain ⟨base, keeps⟩ := h.keeps
  refine ⟨keeps.reaches found, ?_⟩
  obtain ⟨c, hc, -⟩ := Option.map_eq_some_iff.mp ((keeps.records id).symm.trans found)
  exact h.remove_held (by simp [Table.contains, hc]) ((Session.ended_next keeps).2 id)

def steep : List (Constraint Float) :=
  [.relate ((Expression.ofTerm ⟨0⟩ 1e9).addTerm ⟨1⟩ 1) .atMost 1,
    .relate ((Expression.ofTerm ⟨0⟩ 1e9).addTerm ⟨1⟩ 2) .atMost 5]

def steepCalls : List (Call Float) := [.newVariable, .newVariable] ++ steep.map .add

/-- Two constraints whose large coefficients are equal and whose small ones are not. -/
theorem removes_steep :
    (((empty : Solver Float).afterAll steepCalls).removeConstraint ⟨1⟩).1 = .ok () ∧
    (Session.contradicted.remove ⟨0⟩).1 = .ok () := by
  have reached : (((empty : Solver Float).afterAll steepCalls).constraints.get? ⟨1⟩).any
      (fun held => decide (((empty : Solver Float).afterAll steepCalls).tableau.Reaches
        held.tag.marker)) = true := by decide +kernel
  obtain ⟨held, found, reaches⟩ := Option.any_eq_true _ _ |>.mp reached
  have recorded : (Session.contradicted.solver.constraints.get? ⟨0⟩).isSome = true := by
    decide +kernel
  obtain ⟨held', found'⟩ := Option.isSome_iff_exists.mp recorded
  have removes := (removes_held.1 steepCalls ⟨1⟩ held found).2 (by decide +kernel)
  exact ⟨removes.mpr (of_decide_eq_true reaches),
    ((removes_held (α := Float)).2 _ Session.reached_contradicted ⟨0⟩ held' found').2⟩

/-- Once one of the two is gone, so is the marker of the other one. -/
theorem stuck_steep :
    let s := (((empty : Solver Float).afterAll steepCalls).removeConstraint ⟨1⟩).2
    (∀ c ∈ steep, c.isFinite = true ∧ 0 ≤ c.strength.weight ∧
      c.strength.weight ≤ (Strength.required : Strength Float).weight) ∧
    (((empty : Solver Float).afterAll steepCalls).removeConstraint ⟨1⟩).1 = .ok () ∧
    s.hasConstraint ⟨0⟩ = true ∧
    (s.removeConstraint ⟨0⟩).1 = .error (.internal .noLeavingRow) := by
  decide +kernel

end Solver

end LinearChoice
