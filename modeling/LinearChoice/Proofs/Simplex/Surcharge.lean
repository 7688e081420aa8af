import LinearChoice.Proofs.Exact
import LinearChoice.Proofs.Simplex.Runs
import LinearChoice.Proofs.Simplex.Lookup

/-!
# A surcharge on the objective

The constant of the objective is carried along but never read. A solver with a
surcharge on all its costs gives the same answers, and the surcharge stays what
it is.
-/

set_option autoImplicit false

namespace LinearChoice
open scoped Exact

namespace Row

variable (r row : Row ℚ) (k : ℚ) (s : Symbol) (c : ℚ)

theorem addCell_shift : (r.shift k).addCell s c = (r.addCell s c).shift k := by
  unfold addCell
  dsimp only
  have same : (r.shift k).coefficient s = r.coefficient s := rfl
  rw [same]
  split <;> rfl

theorem addCells_shift (cells : List (Symbol × ℚ)) :
    (r.shift k).addCells cells = (r.addCells cells).shift k := by
  induction cells generalizing r with
  | nil => rfl
  | cons e cells ih =>
    change ((r.shift k).addCell e.1 e.2).addCells cells = _
    rw [addCell_shift, ih]
    rfl

theorem addScaled_shift : (r.shift k).addScaled row c = (r.addScaled row c).shift k := by
  have swapped : (r.shift k).shift (row.constant * c) = (r.shift (row.constant * c)).shift k := by
    simp only [shift, add_right_comm]
  rw [addScaled, swapped, addCells_shift]
  rfl

theorem substitute_shift : (r.shift k).substitute s row = (r.substitute s row).shift k := by
  have cells : (r.shift k).cells.get? s = r.cells.get? s := rfl
  unfold substitute
  rw [cells]
  cases r.cells.get? s with
  | none => rfl
  | some c => exact addScaled_shift (r.erase s) row k c

end Row

namespace Tableau

def surcharge (k : ℚ) (t : Tableau ℚ) : Tableau ℚ := { t with objective := t.objective.shift k }

variable (k : ℚ) (t : Tableau ℚ) (s : Symbol) (row : Row ℚ)

theorem attach_surcharge : (t.surcharge k).attach s row = (t.attach s row).surcharge k := rfl

theorem detach_surcharge : (t.surcharge k).detach s = (t.detach s).surcharge k := rfl

theorem substitute_surcharge :
    (t.surcharge k).substitute s row = (t.substitute s row).surcharge k := by
  simp only [substitute, surcharge, Row.substitute_shift]

theorem enter_surcharge : (t.surcharge k).enter s row = (t.enter s row).surcharge k := by
  rw [enter, substitute_surcharge]
  rfl

theorem pivot_surcharge (entering : Symbol) :
    (t.surcharge k).pivot s row entering = (t.pivot s row entering).surcharge k := by
  rw [pivot, detach_surcharge, enter_surcharge]
  rfl

theorem drop_surcharge : (t.surcharge k).drop s = (t.drop s).surcharge k := rfl

theorem addCosts_surcharge (costs : List (Symbol × ℚ)) :
    (t.surcharge k).addCosts costs = (t.addCosts costs).surcharge k := by
  simp only [addCosts, surcharge, Row.addCells_shift]

/-- The goal may have a surcharge of its own. -/
theorem minimise_surcharge (n : ℕ) (goal : Row ℚ) (j : ℚ) :
    minimise n (t.surcharge k) (goal.shift j) =
      ((minimise n t goal).1, (minimise n t goal).2.1.surcharge k,
        (minimise n t goal).2.2.shift j) := by
  induction n generalizing t goal with
  | zero => rfl
  | succ n ih =>
    have entering : entering? (goal.shift j) = entering? goal := rfl
    have leaving (s : Symbol) : (t.surcharge k).leaving? s = t.leaving? s := rfl
    unfold minimise advance
    rw [entering]
    cases entering? goal with
    | none => rfl
    | some s =>
      dsimp only
      rw [leaving]
      cases t.leaving? s with
      | none => rfl
      | some c =>
        dsimp only
        rw [pivot_surcharge, Row.substitute_shift]
        exact ih _ _

theorem optimise_surcharge :
    (t.surcharge k).optimise = (t.optimise.1, t.optimise.2.surcharge k) := by
  have run := minimise_surcharge k t t.budget t.objective k
  unfold optimise
  change (match minimise t.budget (t.surcharge k) (t.objective.shift k) with
    | (outcome, t, _) => (outcome, t)) = _
  rw [run]

theorem introduce_surcharge : (t.surcharge k).introduce s row =
    ((t.introduce s row).1, (t.introduce s row).2.surcharge k) := by
  have own : row = row.shift 0 := by simp [Row.shift]
  have run := minimise_surcharge k (t.attach s row) (t.attach s row).budget row 0
  rw [← own] at run
  have start : minimise ((t.surcharge k).attach s row).budget ((t.surcharge k).attach s row) row =
      minimise (t.attach s row).budget ((t.attach s row).surcharge k) row := rfl
  unfold introduce
  dsimp only
  rw [start, run]
  generalize minimise (t.attach s row).budget (t.attach s row) row = answer
  obtain ⟨outcome, t', goal⟩ := answer
  have unread (j : ℚ) : (goal.shift 0).constant = goal.constant := by simp [Row.shift]
  dsimp only
  rw [unread 0]
  cases outcome with
  | error e => rfl
  | ok _ =>
    have found : (t'.surcharge k).rows.get? s = t'.rows.get? s := rfl
    dsimp only
    rw [found]
    cases t'.rows.get? s with
    | none => rfl
    | some last =>
      dsimp only
      split
      · rfl
      · cases last.cells.keys.find? Symbol.isPivotable with
        | none => rfl
        | some entering =>
          dsimp only
          rw [detach_surcharge, enter_surcharge, drop_surcharge]

theorem removeCosts_surcharge (tag : Tag) (price : ℚ) :
    (t.surcharge k).removeCosts tag price = (t.removeCosts tag price).surcharge k := by
  unfold removeCosts
  induction tag.symbols.filter Symbol.isError generalizing t with
  | nil => rfl
  | cons x l ih =>
    rw [List.foldl_cons, List.foldl_cons, ← ih]
    congr 1
    cases basic : t.rows.get? x with
    | none => simp only [surcharge, basic, Row.addCell_shift]
    | some row => simp only [surcharge, basic, Row.addScaled_shift]

theorem withdraw_surcharge :
    (t.surcharge k).withdraw s = ((t.withdraw s).1, (t.withdraw s).2.surcharge k) := by
  have exit : (t.surcharge k).exit? s = t.exit? s := rfl
  have basic : (t.surcharge k).rows.contains s = t.rows.contains s := rfl
  unfold withdraw
  rw [basic, exit]
  split
  · rfl
  · cases t.exit? s with
    | none => rfl
    | some c =>
      dsimp only
      rw [detach_surcharge, substitute_surcharge]

theorem restore_surcharge (n : ℕ) (stack : List Symbol) :
    restore n stack (t.surcharge k) =
      ((restore n stack t).1, (restore n stack t).2.surcharge k) := by
  induction n generalizing stack t with
  | zero => cases stack <;> rfl
  | succ n ih =>
    cases stack with
    | nil => rfl
    | cons s stack =>
      have found : (t.surcharge k).rows.get? s = t.rows.get? s := rfl
      have entering (row : Row ℚ) : dualEntering? (t.surcharge k).objective row =
          dualEntering? t.objective row := rfl
      unfold restore
      rw [found]
      cases t.rows.get? s with
      | none => exact ih t stack
      | some row =>
        dsimp only
        rw [entering]
        split
        · cases dualEntering? t.objective row with
          | none => rfl
          | some entering =>
            dsimp only
            rw [detach_surcharge, substitute_surcharge, attach_surcharge, ← ih]
            rfl
        · exact ih t stack

theorem shiftTarget_surcharge (tag : Tag) (x : ℚ) : (t.surcharge k).shiftTarget tag x =
    ((t.shiftTarget tag x).1, (t.shiftTarget tag x).2.surcharge k) := by
  have found (s : Symbol) : (t.surcharge k).rows.get? s = t.rows.get? s := rfl
  unfold shiftTarget
  simp only [found]
  repeat' split
  all_goals rfl

end Tableau

namespace Solver

def surcharge (k : ℚ) (s : Solver ℚ) : Solver ℚ := { s with tableau := s.tableau.surcharge k }

variable (k : ℚ) (s : Solver ℚ) (c : Constraint ℚ)

theorem optimise_surcharge :
    (s.surcharge k).optimise = (s.optimise.1, s.optimise.2.surcharge k) := by
  unfold optimise
  change (match (s.tableau.surcharge k).optimise with
    | (outcome, t) => (outcome, { s.surcharge k with tableau := t })) = _
  rw [Tableau.optimise_surcharge]
  rfl

/-- The solver that an accepted constraint is recorded in. -/
theorem accept_eq (tag : Tag) (strength : Strength ℚ) (recorded : Solver ℚ)
    (same : recorded = { s with
      nextConstraint := s.nextConstraint + 1
      constraints := s.constraints.insert ⟨s.nextConstraint⟩ ⟨tag, strength⟩ }) :
    s.accept tag strength =
      (recorded.optimise.1.map fun _ => (⟨s.nextConstraint⟩, tag), recorded.optimise.2) := by
  unfold accept
  dsimp only
  rw [← same]
  generalize recorded.optimise = answer
  obtain ⟨outcome, s'⟩ := answer
  cases outcome <;> rfl

theorem accept_surcharge (tag : Tag) (strength : Strength ℚ) : (s.surcharge k).accept tag strength =
    ((s.accept tag strength).1, (s.accept tag strength).2.surcharge k) := by
  let recorded : Solver ℚ := { s with
    nextConstraint := s.nextConstraint + 1
    constraints := s.constraints.insert ⟨s.nextConstraint⟩ ⟨tag, strength⟩ }
  rw [s.accept_eq tag strength recorded rfl,
    (s.surcharge k).accept_eq tag strength (recorded.surcharge k) rfl, optimise_surcharge]
  rfl

theorem refuse_surcharge :
    (s.surcharge k).refuse = (s.refuse.1, s.refuse.2.surcharge k) := by
  unfold refuse
  rw [optimise_surcharge]
  generalize s.optimise = answer
  obtain ⟨outcome, s'⟩ := answer
  cases outcome <;> rfl

theorem acceptWithSubject_surcharge (row : Row ℚ) (subject : Symbol) (tag : Tag)
    (strength : Strength ℚ) : (s.surcharge k).acceptWithSubject row subject tag strength =
      ((s.acceptWithSubject row subject tag strength).1,
        (s.acceptWithSubject row subject tag strength).2.surcharge k) := by
  unfold acceptWithSubject
  rw [← accept_surcharge]
  change accept { s with tableau := (s.tableau.surcharge k).enter _ _ } _ _ = _
  rw [Tableau.enter_surcharge]
  rfl

theorem acceptWithArtificial_surcharge (row : Row ℚ) (tag : Tag) (strength : Strength ℚ) :
    (s.surcharge k).acceptWithArtificial row tag strength =
      ((s.acceptWithArtificial row tag strength).1,
        (s.acceptWithArtificial row tag strength).2.surcharge k) := by
  have introduced : (s.surcharge k).tableau.introduce (.slack (s.surcharge k).nextSymbol) row =
      ((s.tableau.introduce (.slack s.nextSymbol) row).1,
        (s.tableau.introduce (.slack s.nextSymbol) row).2.surcharge k) :=
    Tableau.introduce_surcharge k s.tableau (.slack s.nextSymbol) row
  unfold acceptWithArtificial
  rw [introduced]
  generalize s.tableau.introduce (.slack s.nextSymbol) row = answer
  obtain ⟨verdict, t⟩ := answer
  cases verdict with
  | error e => rfl
  | ok success =>
    cases success with
    | true => exact accept_surcharge k { s with nextSymbol := s.nextSymbol + 1, tableau := t } tag _
    | false => exact refuse_surcharge k { s with nextSymbol := s.nextSymbol + 1, tableau := t }

theorem insert_surcharge :
    (s.surcharge k).insert c = ((s.insert c).1, (s.insert c).2.surcharge k) := by
  have costs : (s.surcharge k).tableau.addCosts (Markers.ofConstraint c s.nextSymbol).costs =
      (s.tableau.addCosts (Markers.ofConstraint c s.nextSymbol).costs).surcharge k :=
    Tableau.addCosts_surcharge k s.tableau _
  let posed : Solver ℚ := { s with
    nextSymbol := s.nextSymbol + (Markers.ofConstraint c s.nextSymbol).count
    tableau := s.tableau.addCosts (Markers.ofConstraint c s.nextSymbol).costs }
  have same : ({ s.surcharge k with
      nextSymbol := s.nextSymbol + (Markers.ofConstraint c s.nextSymbol).count
      tableau := (s.surcharge k).tableau.addCosts (Markers.ofConstraint c s.nextSymbol).costs } :
      Solver ℚ) = posed.surcharge k := by
    rw [costs]
    rfl
  have row : (s.surcharge k).rowOf c = s.rowOf c := rfl
  have next : (s.surcharge k).nextSymbol = s.nextSymbol := rfl
  unfold insert
  simp only [row, next, same]
  split
  · split
    · exact acceptWithSubject_surcharge k posed _ _ _ _
    · split
      · split
        · exact acceptWithSubject_surcharge k posed _ _ _ _
        · rfl
      · exact acceptWithArtificial_surcharge k posed _ _ _
  · rfl

theorem addConstraint_surcharge :
    (s.surcharge k).addConstraint c = ((s.addConstraint c).1, (s.addConstraint c).2.surcharge k) := by
  unfold addConstraint
  rw [insert_surcharge]

theorem removeConstraint_surcharge (id : ConstraintId) : (s.surcharge k).removeConstraint id =
    ((s.removeConstraint id).1, (s.removeConstraint id).2.surcharge k) := by
  have held : (s.surcharge k).constraints.get? id = s.constraints.get? id := rfl
  have withdrawn (tag : Tag) (price : ℚ) :
      ((s.surcharge k).tableau.removeCosts tag price).withdraw tag.marker =
        (((s.tableau.removeCosts tag price).withdraw tag.marker).1,
          ((s.tableau.removeCosts tag price).withdraw tag.marker).2.surcharge k) := by
    change ((s.tableau.surcharge k).removeCosts tag price).withdraw tag.marker = _
    rw [Tableau.removeCosts_surcharge, Tableau.withdraw_surcharge]
  unfold removeConstraint
  rw [held]
  cases s.constraints.get? id with
  | none => rfl
  | some held =>
    dsimp only
    rw [withdrawn]
    generalize (s.tableau.removeCosts held.tag held.strength.weight).withdraw held.tag.marker =
      answer
    obtain ⟨outcome, t⟩ := answer
    cases outcome with
    | error e => rfl
    | ok _ =>
      exact optimise_surcharge k { s with
        constraints := s.constraints.eraseSwap id, tableau := t }

theorem updateVariables_surcharge : (s.surcharge k).updateVariables =
    (s.updateVariables.1, s.updateVariables.2.surcharge k) := by
  have feasible : (s.surcharge k).tableau.isFeasible = s.tableau.isFeasible := rfl
  unfold updateVariables
  rw [feasible]
  split <;> rfl

theorem addEdit_surcharge (v : Variable) (strength : Strength ℚ) :
    (s.surcharge k).addEdit v strength =
      ((s.addEdit v strength).1, (s.addEdit v strength).2.surcharge k) := by
  have edited : (s.surcharge k).hasEdit v = s.hasEdit v := rfl
  unfold addEdit
  dsimp only
  rw [edited, insert_surcharge]
  split
  · rfl
  · split
    · rfl
    · generalize s.insert _ = answer
      obtain ⟨outcome, s'⟩ := answer
      cases outcome <;> rfl

theorem removeEdit_surcharge (v : Variable) :
    (s.surcharge k).removeEdit v = ((s.removeEdit v).1, (s.removeEdit v).2.surcharge k) := by
  have edits : (s.surcharge k).edits.get? v = s.edits.get? v := rfl
  unfold removeEdit
  rw [edits]
  cases s.edits.get? v with
  | none => rfl
  | some edit => exact removeConstraint_surcharge k { s with edits := s.edits.eraseSwap v } _

theorem suggest_surcharge (v : Variable) (x : ℚ) :
    (s.surcharge k).suggest v x = ((s.suggest v x).1, (s.suggest v x).2.surcharge k) := by
  have edits : (s.surcharge k).edits.get? v = s.edits.get? v := rfl
  have shifted (tag : Tag) (y : ℚ) : (s.surcharge k).tableau.shiftTarget tag y =
      ((s.tableau.shiftTarget tag y).1, (s.tableau.shiftTarget tag y).2.surcharge k) :=
    s.tableau.shiftTarget_surcharge k tag y
  unfold suggest
  rw [edits]
  cases s.edits.get? v with
  | none => rfl
  | some edit =>
    dsimp only
    rw [shifted]
    dsimp only
    rw [Tableau.restore_surcharge]
    rfl

theorem after_surcharge (call : Call ℚ) :
    (s.surcharge k).after call = (s.after call).surcharge k := by
  cases call with
  | newVariable => rfl
  | add c => exact congrArg Prod.snd (addConstraint_surcharge k s c)
  | remove id => exact congrArg Prod.snd (removeConstraint_surcharge k s id)
  | update => exact congrArg Prod.snd (updateVariables_surcharge k s)
  | addEdit v strength => exact congrArg Prod.snd (addEdit_surcharge k s v strength)
  | removeEdit v => exact congrArg Prod.snd (removeEdit_surcharge k s v)
  | suggest v x => exact congrArg Prod.snd (suggest_surcharge k s v x)

theorem answer_surcharge (call : Call ℚ) : (s.surcharge k).answer call = s.answer call := by
  cases call with
  | newVariable => rfl
  | add c => simp only [answer, addConstraint_surcharge]
  | remove id => simp only [answer, removeConstraint_surcharge]
  | update => simp only [answer, updateVariables_surcharge]
  | addEdit v strength => simp only [answer, addEdit_surcharge]
  | removeEdit v => simp only [answer, removeEdit_surcharge]
  | suggest v x => simp only [answer, suggest_surcharge]

theorem surcharge_zero : s.surcharge 0 = s := by
  simp [surcharge, Tableau.surcharge, Row.shift]

theorem surcharge_surcharge (j : ℚ) : (s.surcharge k).surcharge j = s.surcharge (k + j) := by
  simp only [surcharge, Tableau.surcharge, Row.shift, add_assoc]

end Solver

end LinearChoice
