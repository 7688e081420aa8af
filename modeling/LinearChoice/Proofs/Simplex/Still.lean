import LinearChoice.Proofs.Signs
import LinearChoice.Proofs.Simplex.Numbering

/-!
# Calls without a pivot

A call that makes no pivot adds a row or takes one out, and rounds nothing but
the new row. By the rule of signs alone the restricted symbols that stood at zero
or above stay there, so that updates keep succeeding.
-/

set_option autoImplicit false

namespace LinearChoice

variable {α : Type}

namespace Tableau

structure Upright [Scalar α] (t : Tableau α) : Prop where
  constant : ∀ s row, t.rows.get? s = some row → s.isExternal = false → ¬row.constant < 0
  internal : ∀ s row, t.rows.get? s = some row → s.isExternal = false →
    row.Over fun x => x.isExternal = false

variable [Scalar α] {t t' : Tableau α}

theorem upright_empty : (empty : Tableau α).Upright := ⟨nofun, nofun⟩

theorem Upright.of_rows (h : t.Upright) (same : t'.rows = t.rows) : t'.Upright :=
  ⟨same ▸ h.constant, same ▸ h.internal⟩

theorem Upright.detach (h : t.Upright) (s : Symbol) : (t.detach s).Upright := by
  constructor
  all_goals
    intro x row hx
    rw [get?_detach] at hx
    split at hx
    · contradiction
  · exact h.constant x row hx
  · exact h.internal x row hx

/-- A symbol enters that no restricted symbol depends on. -/
theorem Upright.enter (h : t.Upright) {s : Symbol} {row : Row α}
    (absent : ∀ x r, t.rows.get? x = some r → x.isExternal = false → r.cells.get? s = none)
    (own : s.isExternal = false → ¬row.constant < 0 ∧ row.Over fun x => x.isExternal = false) :
    (t.enter s row).Upright := by
  have old {x : Symbol} {r : Row α} (hx : (t.rows.get? x).map (fun r => r.substitute s row) = some r)
      (restricted : x.isExternal = false) : t.rows.get? x = some r := by
    obtain ⟨r', hr', rfl⟩ := Option.map_eq_some_iff.mp hx
    rw [hr', Row.substitute, absent x r' hr' restricted]
  constructor
  all_goals
    intro x r hx restricted
    rw [get?_enter] at hx
    split at hx
  · next heq =>
    cases hx
    exact (own (heq ▸ restricted)).1
  · exact h.constant x r (old hx restricted) restricted
  · next heq =>
    cases hx
    exact (own (heq ▸ restricted)).2
  · exact h.internal x r (old hx restricted) restricted

theorem Upright.isFeasible (signed : Scalar.Signed α) (h : t.Upright) : t.isFeasible = true := by
  rw [Tableau.isFeasible, List.all_eq_true]
  intro e he
  have found := (t.rows.get?_eq_some_iff e.1 e.2).mpr he
  cases restricted : e.1.isExternal with
  | true => rfl
  | false =>
    have standing : ¬e.2.constant < -Scalar.tolerance := fun below =>
      h.constant e.1 e.2 found restricted (signed.tolerance _ below)
    simpa using standing

end Tableau

namespace Row

variable [Scalar α] {r : Row α} {s : Symbol}

theorem oriented_upright (signed : Scalar.Signed α) (r : Row α) : ¬r.oriented.constant < 0 := by
  unfold oriented
  split
  · next below => exact signed.neg _ below
  · next standing => exact standing

/-- Solved for a symbol with a negative coefficient, the constant keeps its sign. -/
theorem solveFor_upright (signed : Scalar.Signed α) (standing : ¬r.constant < 0)
    (falls : r.coefficient s < 0) : ¬(r.solveFor s).constant < 0 := by
  unfold coefficient at falls
  unfold solveFor
  cases cell : r.cells.get? s with
  | none =>
    rw [cell] at falls
    exact absurd falls signed.irrefl
  | some c =>
    rw [cell] at falls
    exact signed.quotient _ _ standing falls

theorem subject_cases {tag : Tag} (subject : r.subject? tag = some s) :
    s.isExternal = true ∨
      s ∈ tag.symbols ∧ r.coefficient s < 0 ∧ r.Over fun x => x.isExternal = false := by
  unfold subject? at subject
  split at subject
  · next found =>
    cases subject
    exact Or.inl (List.find?_some found)
  · next none =>
    have chosen := List.find?_some subject
    rw [Bool.and_eq_true, decide_eq_true_iff] at chosen
    exact Or.inr ⟨List.mem_of_find?_eq_some subject, chosen.2, fun x hx => by
      simpa using List.find?_eq_none.mp none x hx⟩

end Row

namespace Solver

variable [Scalar α] {s : Solver α} {c : Constraint α}

def Still (s : Solver α) (c : Constraint α) : Prop :=
  let m := Markers.ofConstraint c s.nextSymbol
  let row := s.rowOf c m
  let t := s.tableau.addCosts m.costs
  match row.subject? m.tag with
  | some x => (t.enter x (row.solveFor x)).AtRest
  | none => s.AtSight c ∧ (Scalar.nearZero row.constant = true →
      (row.constant == 0) = true ∧ (t.enter m.tag.marker (row.solveFor m.tag.marker)).AtRest)

instance : Decidable (s.Still c) := by
  unfold Still
  dsimp only
  split <;> infer_instance

def Frees (s : Solver α) (held : Held α) : Prop :=
  s.tableau.rows.contains held.tag.marker = true ∧
    ((s.tableau.removeCosts held.tag held.strength.weight).detach held.tag.marker).AtRest

instance {held : Held α} : Decidable (s.Frees held) := inferInstanceAs (Decidable (_ ∧ _))

def Call.Still (s : Solver α) : Call α → Prop
  | .newVariable | .update => True
  | .add c => c.isFinite = true → Solver.Still s c
  | .remove id => ∀ held ∈ s.constraints.get? id, s.Frees held
  | .addEdit _ _ | .removeEdit _ | .suggest _ _ => False

instance : DecidablePred (Call.Still s)
  | .newVariable | .update => isTrue trivial
  | .add c => inferInstanceAs (Decidable (c.isFinite = true → Solver.Still s c))
  | .remove id => inferInstanceAs (Decidable (∀ held ∈ s.constraints.get? id, s.Frees held))
  | .addEdit _ _ | .removeEdit _ | .suggest _ _ => isFalse id

def StillThrough : Solver α → List (Call α) → Prop
  | _, [] => True
  | s, call :: calls => call.Still s ∧ (s.after call).StillThrough calls

instance decidableStillThrough : (s : Solver α) → DecidablePred s.StillThrough
  | _, [] => isTrue trivial
  | s, call :: calls =>
    have := decidableStillThrough (s.after call) calls
    inferInstanceAs (Decidable (call.Still s ∧ (s.after call).StillThrough calls))

theorem tableau_accept (rest : s.tableau.AtRest) (tag : Tag) (strength : Strength α) :
    (s.accept tag strength).2.tableau = s.tableau := by
  unfold accept Solver.optimise
  dsimp only
  rw [rest.optimise]

/-- No row mentions the markers of the next constraint. -/
theorem Numbered.absent (h : s.Numbered) {x : Symbol}
    (own : x ∈ (Markers.ofConstraint c s.nextSymbol).tag.symbols) {y : Symbol} {r : Row α}
    (hy : s.tableau.rows.get? y = some r) : r.cells.get? x = none := by
  obtain ⟨restricted, passed, -⟩ := Markers.symbols_numbered c s.nextSymbol x own
  rw [Table.get?_eq_none_iff]
  intro mentioned
  rcases h.tableau.rows y r hy x mentioned with external | below
  · rw [restricted] at external
    contradiction
  · omega

theorem row_upright (signed : Scalar.Signed α) (m : Markers α) : ¬(s.rowOf c m).constant < 0 :=
  Row.oriented_upright signed _

theorem Numbered.upright_subject (h : s.Numbered) (signed : Scalar.Signed α)
    (upright : s.tableau.Upright) {x : Symbol}
    (subject : (s.rowOf c (Markers.ofConstraint c s.nextSymbol)).subject?
      (Markers.ofConstraint c s.nextSymbol).tag = some x) :
    ((s.tableau.addCosts (Markers.ofConstraint c s.nextSymbol).costs).enter x
      ((s.rowOf c (Markers.ofConstraint c s.nextSymbol)).solveFor x)).Upright := by
  have start : (s.tableau.addCosts (Markers.ofConstraint c s.nextSymbol).costs).Upright :=
    upright.of_rows rfl
  rcases Row.subject_cases subject with external | ⟨own, falls, internal⟩
  · refine start.enter (fun y r hy restricted => ?_) fun restricted => ?_
    · rw [Table.get?_eq_none_iff]
      intro mentioned
      rw [upright.internal y r hy restricted x mentioned] at external
      contradiction
    · rw [restricted] at external
      contradiction
  · exact start.enter (fun y r hy _ => h.absent own hy) fun _ =>
      ⟨Row.solveFor_upright signed (row_upright signed _) falls, internal.solveFor x⟩

theorem Numbered.upright_redundant (h : s.Numbered) (signed : Scalar.Signed α)
    (upright : s.tableau.Upright) (sight : s.AtSight c)
    (zero : ((s.rowOf c (Markers.ofConstraint c s.nextSymbol)).constant == 0) = true) :
    ((s.tableau.addCosts (Markers.ofConstraint c s.nextSymbol).costs).enter
      (Markers.ofConstraint c s.nextSymbol).tag.marker
      ((s.rowOf c (Markers.ofConstraint c s.nextSymbol)).solveFor
        (Markers.ofConstraint c s.nextSymbol).tag.marker)).Upright := by
  have start : (s.tableau.addCosts (Markers.ofConstraint c s.nextSymbol).costs).Upright :=
    upright.of_rows rfl
  have internal : (s.rowOf c (Markers.ofConstraint c s.nextSymbol)).Over
      fun x => x.isExternal = false := by
    intro x hx
    have dummy := List.all_eq_true.mp sight x hx
    cases x <;> first | rfl | contradiction
  exact start.enter (fun y r hy _ => h.absent List.mem_cons_self hy) fun _ =>
    ⟨signed.zero _ _ zero, internal.solveFor _⟩

theorem Numbered.upright_insert (h : s.Numbered) (signed : Scalar.Signed α)
    (upright : s.tableau.Upright) (still : c.isFinite = true → s.Still c) :
    (s.insert c).2.tableau.Upright := by
  unfold Solver.insert
  split
  · next fin =>
    have still := still fin
    unfold Still AtSight at still
    dsimp only at still ⊢
    cases subject : (s.rowOf c (Markers.ofConstraint c s.nextSymbol)).subject?
        (Markers.ofConstraint c s.nextSymbol).tag with
    | some x =>
      rw [subject] at still
      dsimp only [acceptWithSubject]
      rw [tableau_accept still]
      exact h.upright_subject signed upright subject
    | none =>
      rw [subject] at still
      obtain ⟨sight, redundant⟩ := still
      dsimp only
      rw [if_pos sight]
      split
      · next near =>
        obtain ⟨zero, rest⟩ := redundant near
        dsimp only [acceptWithSubject]
        rw [tableau_accept rest]
        exact h.upright_redundant signed upright sight zero
      · exact upright.of_rows rfl
  · exact upright

theorem upright_removeConstraint (upright : s.tableau.Upright) {id : ConstraintId}
    (still : ∀ held ∈ s.constraints.get? id, s.Frees held) :
    (s.removeConstraint id).2.tableau.Upright := by
  unfold removeConstraint
  cases found : s.constraints.get? id with
  | none => exact upright
  | some held =>
    obtain ⟨basic, rest⟩ := still held found
    have costless : (s.tableau.removeCosts held.tag held.strength.weight).Upright :=
      upright.of_rows (Tableau.rows_removeCosts _ _ _)
    dsimp only [Tableau.withdraw]
    rw [Tableau.rows_removeCosts, if_pos basic]
    dsimp only [Solver.optimise]
    rw [rest.optimise]
    exact costless.detach _

theorem Numbered.upright_after (h : s.Numbered) (signed : Scalar.Signed α)
    (upright : s.tableau.Upright) {call : Call α} (still : call.Still s) :
    (s.after call).tableau.Upright := by
  cases call with
  | newVariable => exact upright
  | add c => exact h.upright_insert signed upright still
  | remove id => exact upright_removeConstraint upright still
  | update =>
    change s.updateVariables.2.tableau.Upright
    unfold Solver.updateVariables
    split <;> exact upright
  | addEdit | removeEdit | suggest => exact still.elim

theorem Numbered.upright_afterAll (h : s.Numbered) (signed : Scalar.Signed α)
    (upright : s.tableau.Upright) {calls : List (Call α)} (still : s.StillThrough calls) :
    (s.afterAll calls).tableau.Upright := by
  induction calls generalizing s with
  | nil => exact upright
  | cons call calls ih =>
    exact ih (h.after call) (h.upright_after signed upright still.1) still.2

/-- An update fails only after a pivot. -/
theorem update_of_still (signed : Scalar.Signed α) (before calls : List (Call α))
    (upright : ((empty : Solver α).afterAll before).tableau.Upright)
    (still : ((empty : Solver α).afterAll before).StillThrough calls) :
    (((empty : Solver α).afterAll before).afterAll calls).updateVariables.1 = .ok () := by
  have feasible := ((numbered_afterAll before).upright_afterAll signed upright still).isFeasible signed
  unfold updateVariables
  rw [if_pos feasible]

end Solver

end LinearChoice
