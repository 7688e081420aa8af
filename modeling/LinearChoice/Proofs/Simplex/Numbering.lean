import LinearChoice.Proofs.Simplex.Outcomes

/-!
# Numbers are not given out twice

After any calls the symbols that occur and the constraints that are held are
numbered below the next ones to be given out, whatever the arithmetic.
-/

set_option autoImplicit false

namespace LinearChoice.Solver

variable {α : Type}

structure Numbered (s : Solver α) : Prop where
  tableau : s.tableau.Over (Symbol.Below s.nextSymbol)
  tags : ∀ id held, s.constraints.get? id = some held →
    ∀ x ∈ held.tag.symbols, x.Below s.nextSymbol
  issued : ∀ id held, s.constraints.get? id = some held → id.index < s.nextConstraint
  edits : ∀ v edit, s.edits.get? v = some edit → ∀ x ∈ edit.tag.symbols, x.Below s.nextSymbol

variable [Scalar α] {s : Solver α} {c : Constraint α}

theorem numbered_empty : (empty : Solver α).Numbered := ⟨Tableau.over_empty, nofun, nofun, nofun⟩

omit [Scalar α] in
/-- The number of the next constraint is not in use. -/
theorem Numbered.new (h : s.Numbered) : s.constraints.get? ⟨s.nextConstraint⟩ = none := by
  cases found : s.constraints.get? ⟨s.nextConstraint⟩ with
  | none => rfl
  | some held => exact absurd (h.issued _ held found) (Nat.lt_irrefl _)

theorem Numbered.posed (h : s.Numbered) {t : Tableau α} {n : Nat} (posed : Posed s c t n) :
    Numbered { s with tableau := t, nextSymbol := n } :=
  ⟨posed.numbered h.tableau, fun id held found x hx =>
    (h.tags id held found x hx).mono (Nat.le_of_add_right_le posed.passed) x, h.issued,
    fun v edit found x hx =>
      (h.edits v edit found x hx).mono (Nat.le_of_add_right_le posed.passed) x⟩

theorem Numbered.record (h : s.Numbered) {t : Tableau α} {n : Nat} (posed : Posed s c t n) :
    (s.record c t n).Numbered := by
  have posed' := h.posed posed
  refine ⟨posed'.tableau, fun id held found => ?_, fun id held found => ?_, posed'.edits⟩
  all_goals
    rw [Solver.record, Table.get?_insert] at found
    split at found
  · cases found
    intro x hx
    exact Or.inr (Nat.lt_of_lt_of_le (Markers.symbols_numbered c s.nextSymbol x hx).2.2 posed.passed)
  · exact posed'.tags id held found
  · next heq => exact heq ▸ Nat.lt_succ_self _
  · exact Nat.lt_succ_of_lt (h.issued id held found)

theorem Numbered.insert (h : s.Numbered) (c : Constraint α) : (s.insert c).2.Numbered := by
  have inserted := inserted s c
  generalize s.insert c = answer at inserted
  cases inserted with
  | nonFinite => exact h
  | refused posed => exact h.posed posed
  | endless _ posed => exact h.posed posed
  | accepted posed => exact h.record posed
  | orphaned _ posed => exact h.record posed

theorem Numbered.removeConstraint (h : s.Numbered) (id : ConstraintId) :
    (s.removeConstraint id).2.Numbered := by
  cases found : s.constraints.get? id with
  | none =>
    rw [Solver.removeConstraint, found]
    exact h
  | some held =>
    have erased {t : Tableau α} (left : Left s held t) :
        Numbered { s with constraints := s.constraints.eraseSwap id, tableau := t } := by
      refine ⟨left.numbered _ (h.tags id held found) h.tableau, fun id' held' found' => ?_,
        fun id' held' found' => ?_, h.edits⟩
      all_goals
        rw [Table.get?_eraseSwap] at found'
        split at found'
        · contradiction
      · exact h.tags id' held' found'
      · exact h.issued id' held' found'
    have removed := removed found
    generalize s.removeConstraint id = answer at removed
    cases removed with
    | done _ left => exact erased left
    | stuck _ left => exact erased left
    | endless _ _ left _ => exact erased left

theorem Numbered.updateVariables (h : s.Numbered) : s.updateVariables.2.Numbered := by
  unfold Solver.updateVariables
  split
  · exact ⟨h.tableau, h.tags, h.issued, h.edits⟩
  · exact h

/-- The tag that an addition answers with is numbered below what comes next. -/
theorem below_of_insert (s : Solver α) (c : Constraint α) :
    ∀ found, (s.insert c).1 = .ok found →
      ∀ x ∈ found.2.symbols, x.Below (s.insert c).2.nextSymbol := by
  have inserted := inserted s c
  intro found ok
  generalize s.insert c = answer at inserted ok
  cases inserted with
  | accepted posed =>
    cases ok
    exact fun x hx => Or.inr
      (Nat.lt_of_lt_of_le (Markers.symbols_numbered c s.nextSymbol x hx).2.2 posed.passed)
  | nonFinite | refused | endless | orphaned => contradiction

theorem Numbered.addEdit (h : s.Numbered) (v : Variable) (strength : Strength α) :
    (s.addEdit v strength).2.Numbered := by
  have inserted := h.insert ⟨Expression.ofVariable v, .equal, Strength.clipped strength.weight⟩
  unfold Solver.addEdit
  split
  · exact h
  · dsimp only
    split
    · exact h
    · have below := below_of_insert s
        ⟨Expression.ofVariable v, .equal, Strength.clipped strength.weight⟩
      generalize s.insert _ = answer at inserted below
      obtain ⟨outcome, s'⟩ := answer
      cases outcome with
      | error e => exact inserted
      | ok found =>
        refine ⟨inserted.tableau, inserted.tags, inserted.issued, fun v' edit hv => ?_⟩
        rw [Table.get?_insert] at hv
        split at hv
        · exact Option.some.inj hv ▸ below found rfl
        · exact inserted.edits v' edit hv

theorem Numbered.removeEdit (h : s.Numbered) (v : Variable) : (s.removeEdit v).2.Numbered := by
  unfold Solver.removeEdit
  split
  · exact h
  · next edit _ =>
    refine removeConstraint (s := { s with edits := s.edits.eraseSwap v })
      ⟨h.tableau, h.tags, h.issued, fun v' edit' hv => ?_⟩ edit.constraint
    rw [Table.get?_eraseSwap] at hv
    split at hv
    · contradiction
    · exact h.edits v' edit' hv

theorem Numbered.suggest (h : s.Numbered) (v : Variable) (x : α) : (s.suggest v x).2.Numbered := by
  unfold Solver.suggest
  split
  · exact h
  · next edit found =>
    have shifted := h.tableau.shiftTarget edit.tag (x - edit.suggested)
    refine ⟨shifted.restore _ _, h.tags, h.issued, fun v' edit' hv => ?_⟩
    rw [Table.get?_insert] at hv
    split at hv
    · exact Option.some.inj hv ▸ h.edits v edit found
    · exact h.edits v' edit' hv

theorem Numbered.after (h : s.Numbered) (call : Call α) : (s.after call).Numbered := by
  cases call with
  | newVariable => exact ⟨h.tableau, h.tags, h.issued, h.edits⟩
  | add c => exact h.insert c
  | remove id => exact h.removeConstraint id
  | update => exact h.updateVariables
  | addEdit v strength => exact h.addEdit v strength
  | removeEdit v => exact h.removeEdit v
  | suggest v x => exact h.suggest v x

theorem numbered_afterAll (calls : List (Call α)) :
    ((empty : Solver α).afterAll calls).Numbered :=
  afterAll_invariant numbered_empty (fun _ call h => h.after call) calls

end LinearChoice.Solver
