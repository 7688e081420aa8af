import LinearChoice.Proofs.Simplex.Numbering
import LinearChoice.Proofs.Simplex.Renamed

/-!
# Numbers passed over

A solver whose numbers are raised from some point on takes every call as before.
So it makes no difference to any later answer that some numbers were passed over.
-/

set_option autoImplicit false

namespace LinearChoice

variable {α : Type} (ρ : Renaming)

namespace Symbol

def raise (n k : Nat) : Symbol → Symbol
  | .external v => .external v
  | .slack i => .slack (if i < n then i else i + k)
  | .error i => .error (if i < n then i else i + k)
  | .dummy i => .dummy (if i < n then i else i + k)

theorem rank_raise (n k : Nat) (s : Symbol) : (s.raise n k).rank = s.rank := by
  cases s <;> rfl

theorem raise_lt_iff (n k : Nat) (s x : Symbol) : s.raise n k < x.raise n k ↔ s < x := by
  have order (i j : Nat) :
      ((if i < n then i else i + k) < if j < n then j else j + k) ↔ i < j := by
    split <;> split <;> omega
  change _ ∨ _ ↔ _ ∨ _
  cases s <;> cases x <;> simp [raise, rank, id, order]

theorem raise_of_below {n k : Nat} {s : Symbol} (below : s.Below n) : s.raise n k = s := by
  cases s <;> simp_all [raise, Below, isExternal, id]

end Symbol

def Renaming.raise (n k : Nat) : Renaming :=
  ⟨Symbol.raise n k, Symbol.rank_raise n k, fun _ => rfl, Symbol.raise_lt_iff n k⟩

def Markers.rename (m : Markers α) : Markers α :=
  ⟨m.tag.rename ρ, m.cells.map (Prod.map ρ.map id), m.costs.map (Prod.map ρ.map id), m.count⟩

@[simp] theorem Markers.tag_rename (m : Markers α) : (m.rename ρ).tag = m.tag.rename ρ := rfl

@[simp] theorem Markers.count_rename (m : Markers α) : (m.rename ρ).count = m.count := rfl

theorem Markers.ofConstraint_raise [Scalar α] (c : Constraint α) {n i : Nat} (h : n ≤ i) (k : Nat) :
    ofConstraint c (i + k) = (ofConstraint c i).rename (.raise n k) := by
  have up (i : Nat) (h : n ≤ i) : (if i < n then i else i + k) = i + k := if_neg (by omega)
  have next : i + k + 1 = i + 1 + k := by omega
  unfold ofConstraint inequality equality
  rw [next]
  split <;> split <;> simp [rename, Tag.rename, Renaming.raise, Symbol.raise, up i h, up (i + 1) (by omega)]

namespace Table

variable {κ ν : Type} [DecidableEq κ]

theorem mapValues_eq_self {g : ν → ν} {t : Table κ ν}
    (fixed : ∀ k v, t.get? k = some v → g v = v) : (t.mapValues fun _ => g) = t := by
  have same : ∀ e ∈ t.entries, (e.1, g e.2) = id e := fun e he =>
    Prod.ext rfl (fixed e.1 e.2 ((t.get?_eq_some_iff e.1 e.2).mpr he))
  exact Table.ext ((List.map_congr_left same).trans (List.map_id _))

end Table

namespace Solver

def raise (n k : Nat) (s : Solver α) : Solver α :=
  { s with
    nextSymbol := s.nextSymbol + k
    tableau := s.tableau.rename (.raise n k)
    constraints := s.constraints.mapValues fun _ held => ⟨held.tag.rename (.raise n k), held.strength⟩
    edits := s.edits.mapValues fun _ edit =>
      ⟨edit.tag.rename (.raise n k), edit.constraint, edit.suggested⟩ }

variable [Scalar α] {n : Nat} (k : Nat) (s : Solver α) (c : Constraint α)

theorem optimise_raise :
    (s.raise n k).optimise = (s.optimise.1, s.optimise.2.raise n k) := by
  unfold optimise
  have run := s.tableau.optimise_rename (.raise n k)
  change ((s.tableau.rename (.raise n k)).optimise.1,
    { s.raise n k with tableau := (s.tableau.rename (.raise n k)).optimise.2 }) = _
  rw [run]
  rfl

omit [Scalar α] in
/-- Numbers may be handed out before or after they are raised. -/
theorem raise_posed (t : Tableau α) (m : Nat) :
    ({ s.raise n k with
      nextSymbol := (s.raise n k).nextSymbol + m
      tableau := t.rename (.raise n k) } : Solver α) =
      raise n k { s with nextSymbol := s.nextSymbol + m, tableau := t } := by
  have next : s.nextSymbol + k + m = s.nextSymbol + m + k := by omega
  simp only [raise, next]

omit [Scalar α] in
theorem raise_record (tag : Tag) (strength : Strength α) :
    ({ s.raise n k with
      nextConstraint := (s.raise n k).nextConstraint + 1
      constraints := (s.raise n k).constraints.insert ⟨(s.raise n k).nextConstraint⟩
        ⟨tag.rename (.raise n k), strength⟩ } : Solver α) =
      raise n k { s with
        nextConstraint := s.nextConstraint + 1
        constraints := s.constraints.insert ⟨s.nextConstraint⟩ ⟨tag, strength⟩ } := by
  simp only [raise, mk.injEq, true_and, and_true]
  exact (Table.mapValues_insert s.constraints _ _ ⟨tag, strength⟩).symm

theorem accept_raise (tag : Tag) (strength : Strength α) :
    (s.raise n k).accept (tag.rename (.raise n k)) strength =
      ((s.accept tag strength).1.map (Prod.map id (Tag.rename (.raise n k))),
        (s.accept tag strength).2.raise n k) := by
  unfold accept
  dsimp only
  rw [raise_record, optimise_raise]
  generalize Solver.optimise (α := α) _ = answer
  obtain ⟨outcome, s'⟩ := answer
  cases outcome <;> rfl

theorem refuse_raise :
    (s.raise n k).refuse = (s.refuse.1.map (Prod.map id (Tag.rename (.raise n k))),
      s.refuse.2.raise n k) := by
  unfold refuse
  rw [optimise_raise]
  generalize s.optimise = answer
  obtain ⟨outcome, s'⟩ := answer
  cases outcome <;> rfl

theorem rowOf_raise (m : Markers α) :
    (s.raise n k).rowOf c (m.rename (.raise n k)) = (s.rowOf c m).rename (.raise n k) := by
  unfold rowOf
  change (((s.tableau.rename _).express c.expression).addCells
    (m.cells.map (Prod.map (Renaming.raise n k).map id))).oriented = _
  rw [Tableau.express_rename, Row.addCells_rename, Row.oriented_rename]

theorem acceptWithSubject_raise (row : Row α) (subject : Symbol) (tag : Tag)
    (strength : Strength α) :
    (s.raise n k).acceptWithSubject (row.rename (.raise n k)) ((Renaming.raise n k).map subject)
        (tag.rename (.raise n k)) strength =
      ((s.acceptWithSubject row subject tag strength).1.map
          (Prod.map id (Tag.rename (.raise n k))),
        (s.acceptWithSubject row subject tag strength).2.raise n k) := by
  unfold acceptWithSubject
  rw [← accept_raise, Row.solveFor_rename]
  change accept { s.raise n k with tableau := (s.tableau.rename _).enter _ _ } _ _ = _
  rw [Tableau.enter_rename]
  rfl

theorem acceptWithArtificial_raise (h : n ≤ s.nextSymbol) (row : Row α) (tag : Tag)
    (strength : Strength α) :
    (s.raise n k).acceptWithArtificial (row.rename (.raise n k)) (tag.rename (.raise n k)) strength =
      ((s.acceptWithArtificial row tag strength).1.map
          (Prod.map id (Tag.rename (.raise n k))),
        (s.acceptWithArtificial row tag strength).2.raise n k) := by
  have artificial : Symbol.slack (s.nextSymbol + k) =
      (Renaming.raise n k).map (.slack s.nextSymbol) := by
    simp only [Renaming.raise, Symbol.raise, if_neg (Nat.not_lt.mpr h)]
  have introduced : (s.raise n k).tableau.introduce (.slack (s.raise n k).nextSymbol)
      (row.rename (.raise n k)) =
      ((s.tableau.introduce (.slack s.nextSymbol) row).1,
        (s.tableau.introduce (.slack s.nextSymbol) row).2.rename (.raise n k)) := by
    rw [← Tableau.introduce_rename, ← artificial]
    rfl
  unfold acceptWithArtificial
  rw [introduced]
  generalize s.tableau.introduce (.slack s.nextSymbol) row = answer
  obtain ⟨verdict, t⟩ := answer
  dsimp only
  rw [raise_posed]
  cases verdict with
  | error e => rfl
  | ok success =>
    cases success with
    | true => exact accept_raise k _ tag strength
    | false => exact refuse_raise k _

theorem insert_raise (h : n ≤ s.nextSymbol) :
    (s.raise n k).insert c = ((s.insert c).1.map (Prod.map id (Tag.rename (.raise n k))),
      (s.insert c).2.raise n k) := by
  have markers : Markers.ofConstraint c (s.raise n k).nextSymbol =
      (Markers.ofConstraint c s.nextSymbol).rename (.raise n k) :=
    Markers.ofConstraint_raise c h k
  have costs : (s.raise n k).tableau.addCosts
      ((Markers.ofConstraint c s.nextSymbol).rename (.raise n k)).costs =
      (s.tableau.addCosts (Markers.ofConstraint c s.nextSymbol).costs).rename (.raise n k) :=
    Tableau.addCosts_rename _ s.tableau _
  unfold insert
  split
  · simp only [markers, rowOf_raise, costs, Markers.tag_rename, Markers.count_rename, raise_posed,
      Row.subject?_rename, Row.keys_rename, Row.constant_rename]
    generalize s.rowOf c (Markers.ofConstraint c s.nextSymbol) = row
    cases row.subject? (Markers.ofConstraint c s.nextSymbol).tag with
    | some subject => exact acceptWithSubject_raise k _ row subject _ _
    | none =>
      simp only [Option.map_none, List.all_map, Function.comp_def, Renaming.isDummy]
      split
      · split
        · exact acceptWithSubject_raise k _ row _ _ _
        · rfl
      · exact acceptWithArtificial_raise k _ (Nat.le_add_right_of_le h) row _ _
  · rfl

theorem addConstraint_raise (h : n ≤ s.nextSymbol) :
    (s.raise n k).addConstraint c = ((s.addConstraint c).1, (s.addConstraint c).2.raise n k) := by
  unfold addConstraint
  rw [insert_raise k s c h]
  generalize s.insert c = answer
  obtain ⟨outcome, s'⟩ := answer
  cases outcome <;> rfl

theorem removeConstraint_raise (id : ConstraintId) :
    (s.raise n k).removeConstraint id =
      ((s.removeConstraint id).1, (s.removeConstraint id).2.raise n k) := by
  have held : (s.raise n k).constraints.get? id =
      (s.constraints.get? id).map fun held => ⟨held.tag.rename (.raise n k), held.strength⟩ :=
    Table.get?_mapValues _ _ id
  unfold removeConstraint
  rw [held]
  cases s.constraints.get? id with
  | none => rfl
  | some held =>
    have withdrawn : ((s.raise n k).tableau.removeCosts (held.tag.rename (.raise n k))
        held.strength.weight).withdraw (held.tag.rename (.raise n k)).marker =
        (((s.tableau.removeCosts held.tag held.strength.weight).withdraw held.tag.marker).1,
          ((s.tableau.removeCosts held.tag held.strength.weight).withdraw held.tag.marker).2.rename
            (.raise n k)) := by
      change ((s.tableau.rename _).removeCosts _ _).withdraw ((Renaming.raise n k).map _) = _
      rw [Tableau.removeCosts_rename, Tableau.withdraw_rename]
    have erased (t : Tableau α) : ({ s.raise n k with
        constraints := (s.raise n k).constraints.eraseSwap id
        tableau := t.rename (.raise n k) } : Solver α) =
        raise n k { s with constraints := s.constraints.eraseSwap id, tableau := t } := by
      simp only [raise, mk.injEq, true_and, and_true]
      exact (Table.mapValues_eraseSwap s.constraints _ id).symm
    simp only [Option.map_some, withdrawn, erased]
    generalize (s.tableau.removeCosts held.tag held.strength.weight).withdraw held.tag.marker
      = answer
    obtain ⟨outcome, t⟩ := answer
    cases outcome with
    | error e => rfl
    | ok _ => exact optimise_raise k _

theorem updateVariables_raise : (s.raise n k).updateVariables =
    (s.updateVariables.1, s.updateVariables.2.raise n k) := by
  have feasible : (s.raise n k).tableau.isFeasible = s.tableau.isFeasible :=
    s.tableau.isFeasible_rename _
  have value (v : Variable) : (s.raise n k).currentValue v = s.currentValue v :=
    s.tableau.value_rename _ v
  unfold updateVariables
  simp only [feasible, value]
  split <;> rfl

omit [Scalar α] in
theorem get?_edits_raise (v : Variable) : (s.raise n k).edits.get? v =
    (s.edits.get? v).map fun edit =>
      ⟨edit.tag.rename (.raise n k), edit.constraint, edit.suggested⟩ :=
  Table.get?_mapValues _ _ v

omit [Scalar α] in
theorem raise_edit (v : Variable) (tag : Tag) (id : ConstraintId) (x : α) :
    ({ s.raise n k with
      edits := (s.raise n k).edits.insert v ⟨tag.rename (.raise n k), id, x⟩ } : Solver α) =
      raise n k { s with edits := s.edits.insert v ⟨tag, id, x⟩ } := by
  simp only [raise, mk.injEq, true_and, and_true]
  exact (Table.mapValues_insert s.edits _ v ⟨tag, id, x⟩).symm

theorem addEdit_raise (h : n ≤ s.nextSymbol) (v : Variable) (strength : Strength α) :
    (s.raise n k).addEdit v strength =
      ((s.addEdit v strength).1, (s.addEdit v strength).2.raise n k) := by
  have edited : (s.raise n k).hasEdit v = s.hasEdit v := by
    simp [hasEdit, Table.contains, get?_edits_raise]
  unfold addEdit
  simp only [edited, insert_raise k s _ h]
  split
  · rfl
  · split
    · rfl
    · generalize s.insert _ = answer
      obtain ⟨outcome, s'⟩ := answer
      cases outcome with
      | error e => rfl
      | ok found =>
        exact Prod.ext rfl (raise_edit k s' v found.2 found.1 0)

theorem removeEdit_raise (v : Variable) :
    (s.raise n k).removeEdit v = ((s.removeEdit v).1, (s.removeEdit v).2.raise n k) := by
  unfold removeEdit
  rw [get?_edits_raise]
  cases s.edits.get? v with
  | none => rfl
  | some edit =>
    have erased : ({ s.raise n k with edits := (s.raise n k).edits.eraseSwap v } : Solver α) =
        raise n k { s with edits := s.edits.eraseSwap v } := by
      simp only [raise, mk.injEq, true_and, and_true]
      exact (Table.mapValues_eraseSwap s.edits _ v).symm
    simp only [Option.map_some, erased, removeConstraint_raise]

theorem suggest_raise (v : Variable) (x : α) :
    (s.raise n k).suggest v x = ((s.suggest v x).1, (s.suggest v x).2.raise n k) := by
  unfold suggest
  rw [get?_edits_raise]
  cases s.edits.get? v with
  | none => rfl
  | some edit =>
    have shifted (x : α) : (s.raise n k).tableau.shiftTarget (edit.tag.rename (.raise n k)) x =
        ((s.tableau.shiftTarget edit.tag x).1.map (Renaming.raise n k).map,
          (s.tableau.shiftTarget edit.tag x).2.rename (.raise n k)) :=
      s.tableau.shiftTarget_rename _ edit.tag x
    simp only [Option.map_some, shifted, Tableau.budget_rename, Tableau.restore_rename]
    generalize Tableau.restore (α := α) _ _ _ = answer
    exact Prod.ext rfl (raise_edit k { s with tableau := answer.2 } v edit.tag edit.constraint x)

theorem after_raise (h : n ≤ s.nextSymbol) (call : Call α) :
    (s.raise n k).after call = (s.after call).raise n k := by
  cases call with
  | newVariable => rfl
  | add c => exact congrArg Prod.snd (addConstraint_raise k s c h)
  | remove id => exact congrArg Prod.snd (removeConstraint_raise k s id)
  | update => exact congrArg Prod.snd (updateVariables_raise k s)
  | addEdit v strength => exact congrArg Prod.snd (addEdit_raise k s h v strength)
  | removeEdit v => exact congrArg Prod.snd (removeEdit_raise k s v)
  | suggest v x => exact congrArg Prod.snd (suggest_raise k s v x)

theorem nextSymbol_insert : s.nextSymbol ≤ (s.insert c).2.nextSymbol := by
  have inserted := inserted s c
  generalize s.insert c = answer at inserted
  cases inserted with
  | nonFinite => exact Nat.le_refl _
  | refused posed | endless _ posed | accepted posed | orphaned _ posed =>
    exact Nat.le_of_add_right_le posed.passed

theorem nextSymbol_removeConstraint (id : ConstraintId) :
    (s.removeConstraint id).2.nextSymbol = s.nextSymbol := by
  cases found : s.constraints.get? id with
  | none => rw [removeConstraint, found]
  | some held =>
    have removed := removed found
    generalize s.removeConstraint id = answer at removed
    cases removed <;> rfl

theorem nextSymbol_after (call : Call α) : s.nextSymbol ≤ (s.after call).nextSymbol := by
  cases call with
  | newVariable => exact Nat.le_refl _
  | add c => exact nextSymbol_insert s c
  | remove id => exact Nat.le_of_eq (nextSymbol_removeConstraint s id).symm
  | update =>
    unfold after updateVariables
    dsimp only
    split <;> exact Nat.le_refl _
  | addEdit v strength =>
    have inserted := nextSymbol_insert s
      ⟨Expression.ofVariable v, .equal, Strength.clipped strength.weight⟩
    unfold after addEdit
    dsimp only
    split
    · exact Nat.le_refl _
    · split
      · exact Nat.le_refl _
      · generalize s.insert _ = answer at inserted
        obtain ⟨outcome, s'⟩ := answer
        cases outcome <;> exact inserted
  | removeEdit v =>
    unfold after removeEdit
    dsimp only
    split
    · exact Nat.le_refl _
    · next edit _ =>
      have same := nextSymbol_removeConstraint { s with edits := s.edits.eraseSwap v } edit.constraint
      exact Nat.le_of_eq same.symm
  | suggest v x =>
    unfold after suggest
    dsimp only
    split <;> exact Nat.le_refl _

theorem afterAll_raise (h : n ≤ s.nextSymbol) (calls : List (Call α)) :
    (s.raise n k).afterAll calls = (s.afterAll calls).raise n k := by
  induction calls generalizing s with
  | nil => rfl
  | cons call calls ih =>
    have step := ih (s.after call) (Nat.le_trans h (nextSymbol_after s call))
    rwa [← after_raise k s h] at step

omit [Scalar α] in
theorem Numbered.raise_eq {s : Solver α} (h : s.Numbered) :
    s.raise s.nextSymbol k = { s with nextSymbol := s.nextSymbol + k } := by
  have fixed (x : Symbol) (below : x.Below s.nextSymbol) :=
    Symbol.raise_of_below (k := k) below
  have tableau : s.tableau.rename (.raise s.nextSymbol k) = s.tableau :=
    Tableau.rename_eq_self _ h.tableau fixed
  have constraints : (s.constraints.mapValues fun _ held =>
      (⟨held.tag.rename (.raise s.nextSymbol k), held.strength⟩ : Held α)) = s.constraints := by
    apply Table.mapValues_eq_self
    intro id held found
    rw [Tag.rename_eq_self _ fun x hx => fixed x (h.tags id held found x hx)]
  have edits : (s.edits.mapValues fun _ edit =>
      (⟨edit.tag.rename (.raise s.nextSymbol k), edit.constraint, edit.suggested⟩ : Edit α)) =
      s.edits := by
    apply Table.mapValues_eq_self
    intro v edit found
    rw [Tag.rename_eq_self _ fun x hx => fixed x (h.edits v edit found x hx)]
  rw [raise, tableau, constraints, edits]

end Solver

end LinearChoice
