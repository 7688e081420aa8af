import LinearChoice.Proofs.Simplex.Edits
import LinearChoice.Proofs.Simplex.Termination

/-!
# Runs of a solver with edit variables

Every call leaves a solver in good order: up to a constant in its objective it
keeps a book, and its edits are in step with the book. Additions and removals
come to their end, those of edits among them, so that nothing is assumed of any
call but a suggestion, which pivots by the dual method. It moves the target of
the edit's constraint, or nothing if that constraint is gone.
-/

set_option autoImplicit false

namespace LinearChoice
open scoped Exact

theorem Strength.clipped_nonneg (weight : ℚ) : 0 ≤ (Strength.clipped weight).weight := by
  unfold Strength.clipped Strength.required
  split
  · exact le_refl 0
  · next nonneg =>
    split
    · norm_num
    · exact not_lt.mp nonneg

namespace Solver

structure KeepsEdits (s : Solver ℚ) (book : Book) (base : ConstraintId → ℕ) : Prop
    extends s.Keeps book base where
  edits : ∀ v edit, s.edits.get? v = some edit →
    edit.Stands book base v ∨ edit.Orphaned s.nextConstraint s.nextSymbol book base

variable {s : Solver ℚ} {book : Book} {base : ConstraintId → ℕ} {c : Constraint ℚ}

/-- An edit is entered, or entered anew. -/
theorem Keeps.enter (h : s.Keeps book base) {v : Variable} {edit : Edit ℚ}
    (own : edit.Stands book base v ∨ edit.Orphaned s.nextConstraint s.nextSymbol book base)
    (others : ∀ v' edit', v ≠ v' → s.edits.get? v' = some edit' →
      edit'.Stands book base v' ∨ edit'.Orphaned s.nextConstraint s.nextSymbol book base) :
    KeepsEdits { s with edits := s.edits.insert v edit } book base := by
  refine ⟨⟨h.records, h.issued, h.weights, h.numbered, h.describes⟩, fun v' edit' found => ?_⟩
  rw [Table.get?_insert] at found
  split at found
  · next same =>
    subst same
    cases found
    exact own
  · next other => exact others v' edit' other found

theorem Keeps.ended_insert (h : s.Keeps book base) (weight : 0 ≤ c.strength.weight) :
    Session.ended (s.insert c).1 = true :=
  Session.ended_of_answer fun e failed =>
    h.halting.added c (fun _ => weight) e (addConstraint_error.mpr failed)

theorem Keeps.ended_remove (h : s.Keeps book base) (id : ConstraintId) :
    Session.ended (s.removeConstraint id).1 = true :=
  Session.ended_of_answer (h.halting.removed id)

/-- The two ends of an addition. -/
theorem KeepsEdits.insert_cases (h : s.KeepsEdits book base)
    (weight : 0 ≤ c.strength.weight) :
    (∃ t n, s.insert c = (.ok (⟨s.nextConstraint⟩, (Markers.ofConstraint c s.nextSymbol).tag),
        s.record c t n) ∧
      (s.record c t n).KeepsEdits (book.insert ⟨s.nextConstraint⟩ c)
        (Function.update base ⟨s.nextConstraint⟩ s.nextSymbol)) ∨
    (∃ t n, s.insert c = (.error .unsatisfiable, { s with tableau := t, nextSymbol := n }) ∧
      KeepsEdits { s with tableau := t, nextSymbol := n } book base) := by
  have fin := h.ended_insert weight
  have added := added_insert h.toKeeps weight
  have inserted := inserted s c
  have new := h.new
  generalize s.insert c = answer at added inserted fin ⊢
  cases inserted with
  | nonFinite => cases added
  | refused posed =>
    have passed := Nat.le_of_add_right_le posed.passed
    cases added with
    | refused _ keeps =>
      refine Or.inr ⟨_, _, rfl, keeps, fun v edit found => ?_⟩
      rcases h.edits v edit found with stands | orphaned
      · exact Or.inl stands
      · exact Or.inr (orphaned.moved orphaned.gone (le_refl _) passed fun _ _ foreign => foreign)
  | endless endless =>
    cases added with
    | stalled => cases fin
    | refused => exact absurd rfl endless.ne_unsatisfiable
  | accepted posed =>
    have passed := Nat.le_of_add_right_le posed.passed
    cases added with
    | accepted _ _ keeps =>
      refine Or.inl ⟨_, _, rfl, keeps, fun v edit found => ?_⟩
      rcases h.edits v edit found with stands | orphaned
      · exact Or.inl (stands.insert new c _)
      · exact Or.inr (orphaned.insert c passed)
  | orphaned endless =>
    cases added with
    | stalled => cases fin
    | refused => exact absurd rfl endless.ne_unsatisfiable

/-- A removal touches nothing but the record and the tableau. -/
theorem frame_removeConstraint (s : Solver ℚ) (id : ConstraintId) :
    ∃ constraints t, (s.removeConstraint id).2 =
      { s with constraints := constraints, tableau := t } := by
  cases found : s.constraints.get? id with
  | none =>
    rw [removeConstraint, found]
    exact ⟨s.constraints, s.tableau, rfl⟩
  | some held =>
    have removed := removed found
    generalize s.removeConstraint id = answer at removed
    cases removed with
    | done | stuck | endless => exact ⟨_, _, rfl⟩

theorem KeepsEdits.removeConstraint (h : s.KeepsEdits book base) (id : ConstraintId) :
    ∃ book', (s.removeConstraint id).2.KeepsEdits book' base := by
  cases held : book.get? id with
  | none =>
    refine ⟨book, ?_⟩
    have unknown : s.removeConstraint id = (.error .unknownConstraint, s) := by
      simp [Solver.removeConstraint, h.records, held]
    rw [unknown]
    exact h
  | some c =>
    obtain ⟨outcome, s', run, keeps, -⟩ := removeConstraint_spec h.toKeeps held
    obtain ⟨constraints, t, frame⟩ := s.frame_removeConstraint id
    rw [run] at frame ⊢
    cases frame
    refine ⟨book.eraseSwap id, keeps, fun v edit found => ?_⟩
    rcases h.edits v edit found with stands | orphaned
    · by_cases own : id = edit.constraint
      · have gone := stands.orphaned h.toKeeps
        exact Or.inr (own ▸ gone)
      · exact Or.inl (stands.erase own)
    · exact Or.inr (orphaned.erase id)

def pull (v : Variable) (strength : Strength ℚ) : Constraint ℚ :=
  .suggesting v (.clipped strength.weight) 0

structure PosesEdit (s : Solver ℚ) (v : Variable) (strength : Strength ℚ) : Prop where
  fresh : s.edits.get? v = none
  optional : (pull v strength).isRequired = false
  weight : 0 ≤ (pull v strength).strength.weight
  accepted : ∀ id tag s', s.insert (pull v strength) = (.ok (id, tag), s') →
    s.addEdit v strength = (.ok (), { s' with edits := s'.edits.insert v ⟨tag, id, 0⟩ })
  refused : ∀ e s', s.insert (pull v strength) = (.error e, s') →
    s.addEdit v strength = (.error e, s')

theorem addEdit_cases (s : Solver ℚ) (v : Variable) (strength : Strength ℚ) :
    (∃ e, s.addEdit v strength = (.error e, s)) ∨ s.PosesEdit v strength := by
  have posed : (⟨Expression.ofVariable v, .equal, .clipped strength.weight⟩ : Constraint ℚ) =
      pull v strength := (Constraint.suggesting_zero v _).symm
  by_cases twice : s.hasEdit v = true
  · exact Or.inl ⟨_, by rw [Solver.addEdit, if_pos twice]⟩
  by_cases required : (Strength.clipped strength.weight).isRequired = true
  · exact Or.inl ⟨_, by rw [Solver.addEdit, if_neg twice, if_pos required]⟩
  have accepted (id : ConstraintId) (tag : Tag) (s' : Solver ℚ)
      (ok : s.insert (pull v strength) = (.ok (id, tag), s')) : s.addEdit v strength =
        (.ok (), { s' with edits := s'.edits.insert v ⟨tag, id, 0⟩ }) := by
    rw [Solver.addEdit, if_neg twice, if_neg required, posed, ok]
  have refused (e : SolverError) (s' : Solver ℚ)
      (error : s.insert (pull v strength) = (.error e, s')) :
      s.addEdit v strength = (.error e, s') := by
    rw [Solver.addEdit, if_neg twice, if_neg required, posed, error]
  exact Or.inr ⟨by simpa [hasEdit, Table.contains] using twice, eq_false_of_ne_true required,
    Strength.clipped_nonneg _, accepted, refused⟩

theorem KeepsEdits.addEdit (h : s.KeepsEdits book base) (v : Variable) (strength : Strength ℚ) :
    ∃ book' base', (s.addEdit v strength).2.KeepsEdits book' base' := by
  rcases s.addEdit_cases v strength with ⟨e, unchanged⟩ | posed
  · rw [unchanged]
    exact ⟨book, base, h⟩
  · rcases h.insert_cases posed.weight with ⟨t, n, run, keeps⟩ | ⟨t, n, run, keeps⟩
    · rw [posed.accepted _ _ _ run]
      refine ⟨_, _, keeps.enter (Or.inl ⟨_, ?_, posed.optional, ?_⟩)
        fun v' edit _ found => keeps.edits v' edit found⟩
      · rw [Table.get?_insert, if_pos rfl]
        rfl
      · rw [Function.update_self]
        rfl
    · rw [posed.refused _ _ run]
      exact ⟨book, base, keeps⟩

theorem KeepsEdits.removeEdit (h : s.KeepsEdits book base) (v : Variable) :
    ∃ book', (s.removeEdit v).2.KeepsEdits book' base := by
  unfold Solver.removeEdit
  split
  · exact ⟨book, h⟩
  · next edit found =>
    have dropped : KeepsEdits { s with edits := s.edits.eraseSwap v } book base := by
      refine ⟨⟨h.records, h.issued, h.weights, h.numbered, h.describes⟩, fun v' edit' found' => ?_⟩
      rw [Table.get?_eraseSwap] at found'
      split at found'
      · contradiction
      · exact h.edits v' edit' found'
    exact dropped.removeConstraint edit.constraint

/-- With the target moved the equations have an admissible solution still. -/
theorem Keeps.retarget (h : s.Keeps book base) {id : ConstraintId} (held : book.get? id = some c)
    (equality : c.relation = .equal) (optional : c.isRequired = false) (x : ℚ) (n : ℕ) :
    let shifted := s.tableau.shiftTarget (Markers.ofConstraint c (base id)).tag x
    ((Tableau.restore n shifted.1 shifted.2).1 = .ok () ∧
      ∃ k, ((Tableau.restore n shifted.1 shifted.2).2.surcharge k).Describes
        (book.insert id (c.offset (-x))) base) ∨
    (Tableau.restore n shifted.1 shifted.2).1 = .error (.internal .stalled) := by
  obtain ⟨errors, down, up⟩ := Markers.share_errors (n := base id) equality optional
  have inside (y : Symbol) (hy : y ∈ (Markers.ofConstraint c (base id)).tag.symbols) :=
    (Markers.symbols_numbered c (base id) y hy).1
  obtain ⟨pending, y, own, z, displaced, side⟩ :=
    Tableau.shiftTarget_spec h.describes.standard inside x
  -- The errors stand on either side of the target, so both displacements move it the same way.
  have amount : Markers.share c (base id) y * z = -x := by
    rcases side with ⟨rfl, rfl⟩ | ⟨named, rfl⟩
    · rw [down, neg_one_mul]
    · rw [up y named, one_mul]
  have solves := h.describes.displaced h.numbered held own displaced
  rw [amount] at solves
  have proper := Symbol.not_dummy_of_pivotable (Symbol.isPivotable_of_isError (errors y own))
  obtain ⟨σ, hσ, -, meets⟩ := Book.extend (h.numbered.offset held (-x))
    (Book.satisfied_offset optional (-x) h.shown)
  exact h.describes.restore displaced proper pending solves (Book.costs_offset held (-x))
    ⟨σ, hσ, (solves σ).mpr meets⟩ n

/-- Symbols that are out of use are in no row, so nothing but constants of zero is shifted. -/
theorem Keeps.retarget_unused (h : s.Keeps book base) {tag : Tag}
    (errors : ∀ y ∈ tag.symbols, y.isError = true)
    (unused : ∀ y ∈ tag.symbols, book.Foreign base y) (x : ℚ) (n : ℕ) :
    let shifted := s.tableau.shiftTarget tag x
    ((Tableau.restore n shifted.1 shifted.2).1 = .ok () ∧
      ∃ k, ((Tableau.restore n shifted.1 shifted.2).2.surcharge k).Describes book base) ∨
    (Tableau.restore n shifted.1 shifted.2).1 = .error (.internal .stalled) := by
  have restricted (y : Symbol) (hy : y ∈ tag.symbols) :=
    Symbol.isPivotable_of_isError (errors y hy)
  have inside (y : Symbol) (hy : y ∈ tag.symbols) :=
    Symbol.not_external_of_pivotable (restricted y hy)
  have standard := h.describes.standard
  obtain ⟨pending, y, own, z, displaced, -⟩ := Tableau.shiftTarget_spec standard inside x
  have absent := h.describes.absent (inside y own) (unused y own)
  have same (σ : Valuation) : (s.tableau.shiftTarget tag x).2.Solves σ ↔ s.tableau.Solves σ := by
    rw [displaced.solves, absent.solves_update]
  exact h.describes.restore displaced (Symbol.not_dummy_of_pivotable (restricted y own)) pending
    (fun σ => (same σ).trans (h.describes.solves σ)) rfl
    ⟨_, standard.admissible_point_zero, (same _).mpr (standard.solves_point 0)⟩ n

theorem Keeps.offset (h : s.Keeps book base) {id : ConstraintId} (held : book.get? id = some c)
    (x : ℚ) {t : Tableau ℚ} (describes : t.Describes (book.insert id (c.offset x)) base) :
    Keeps { s with tableau := t } (book.insert id (c.offset x)) base := by
  constructor
  · intro y
    rw [Table.get?_insert]
    change s.constraints.get? y = _
    split
    · next heq =>
      subst heq
      rw [h.records, held]
      rfl
    · exact h.records y
  · intro y d hy
    rcases Book.get?_offset x hy with ⟨rfl, -⟩ | ⟨-, hy⟩
    · exact h.issued id c held
    · exact h.issued y d hy
  · intro y d hy
    rcases Book.get?_offset x hy with ⟨rfl, rfl⟩ | ⟨-, hy⟩
    · exact h.weights id c held
    · exact h.weights y d hy
  · exact h.numbered.offset held x
  · exact describes

/-- While the constraint of the edit is held the book asks for the new value from now on. -/
theorem KeepsEdits.suggest_held (h : s.KeepsEdits book base) {v : Variable} {edit : Edit ℚ}
    {strength : Strength ℚ}
    (held : book.get? edit.constraint = some (.suggesting v strength edit.suggested))
    (optional : Strength.isRequired strength = false)
    (tag : edit.tag =
      (Markers.ofConstraint (.suggesting v strength edit.suggested) (base edit.constraint)).tag)
    {x : ℚ} {t : Tableau ℚ}
    (describes : t.Describes (book.insert edit.constraint
      (Constraint.offset (.suggesting v strength edit.suggested) (-(x - edit.suggested)))) base) :
    KeepsEdits { s with tableau := t, edits := s.edits.insert v { edit with suggested := x } }
      (book.insert edit.constraint (.suggesting v strength x)) base := by
  have keeps := h.offset held _ describes
  rw [Constraint.suggesting_offset] at keeps
  refine keeps.enter (Or.inl ⟨strength, ?_, optional, tag⟩) fun v' edit' other found => ?_
  · rw [Table.get?_insert, if_pos rfl]
  · rw [← Constraint.suggesting_offset v strength edit.suggested x]
    rcases h.edits v' edit' found with stands | orphaned
    · refine Or.inl (stands.offset ?_ _)
      intro same
      obtain ⟨strength', held', -⟩ := stands.held
      rw [same, held'] at held
      exact other (Constraint.eq_of_suggesting (Option.some.inj held)).symm
    · exact Or.inr (orphaned.offset held _)

theorem KeepsEdits.suggest_gone (h : s.KeepsEdits book base) (v : Variable) {edit : Edit ℚ}
    (orphaned : edit.Orphaned s.nextConstraint s.nextSymbol book base) (x : ℚ) {t : Tableau ℚ}
    (describes : t.Describes book base) :
    KeepsEdits { s with tableau := t, edits := s.edits.insert v { edit with suggested := x } }
      book base := by
  have keeps : Keeps { s with tableau := t } book base :=
    ⟨h.records, h.issued, h.weights, h.numbered, describes⟩
  have own : Edit.Orphaned s.nextConstraint s.nextSymbol book base { edit with suggested := x } :=
    ⟨orphaned.gone, orphaned.issued, orphaned.errors, orphaned.passed, orphaned.unused⟩
  exact keeps.enter (Or.inr own) fun v' edit' _ found => h.edits v' edit' found

/-- A suggestion is entered in the book unless the constraint of the edit is gone. -/
theorem KeepsEdits.suggest (h : s.KeepsEdits book base) (v : Variable) (x : ℚ)
    (fin : Session.ended (s.suggest v x).1 = true) :
    ∃ book' k, ((s.suggest v x).2.surcharge k).KeepsEdits book' base := by
  unfold Solver.suggest at fin ⊢
  cases found : s.edits.get? v with
  | none => exact ⟨book, 0, by rwa [surcharge_zero]⟩
  | some edit =>
    rw [found] at fin
    dsimp only at fin ⊢
    rcases h.edits v edit found with stands | orphaned
    · obtain ⟨strength, held, optional, tag⟩ := stands.held
      have retarget := h.retarget held rfl optional (x - edit.suggested)
        (s.tableau.shiftTarget edit.tag (x - edit.suggested)).2.budget
      rw [← tag] at retarget
      rcases retarget with ⟨-, k, describes⟩ | stalled
      · exact ⟨_, k, h.suggest_held held optional tag describes⟩
      · rw [stalled] at fin
        cases fin
    · rcases h.retarget_unused orphaned.errors orphaned.unused (x - edit.suggested)
        (s.tableau.shiftTarget edit.tag (x - edit.suggested)).2.budget with
        ⟨-, k, describes⟩ | stalled
      · exact ⟨book, k, h.suggest_gone v orphaned x describes⟩
      · rw [stalled] at fin
        cases fin

def Orderly (s : Solver ℚ) : Prop := ∃ k book base, (s.surcharge k).KeepsEdits book base

theorem KeepsEdits.orderly (h : s.KeepsEdits book base) : s.Orderly :=
  ⟨0, book, base, by rwa [surcharge_zero]⟩

theorem Orderly.of_surcharge {k : ℚ} (h : (s.surcharge k).Orderly) : s.Orderly := by
  obtain ⟨j, book, base, keeps⟩ := h
  exact ⟨k + j, book, base, by rwa [surcharge_surcharge] at keeps⟩

def Call.Weighted : Call ℚ → Prop
  | .add c => 0 ≤ c.strength.weight
  | _ => True

instance : DecidablePred Call.Weighted
  | .add c => inferInstanceAs (Decidable (0 ≤ c.strength.weight))
  | .newVariable | .remove _ | .update => isTrue trivial
  | .addEdit _ _ | .removeEdit _ | .suggest _ _ => isTrue trivial

def concludes (s : Solver ℚ) : Call ℚ → Bool
  | .suggest v x => Session.ended (s.suggest v x).1
  | _ => true

def concludesAll : Solver ℚ → List (Call ℚ) → Bool
  | _, [] => true
  | s, call :: calls => s.concludes call && (s.after call).concludesAll calls

theorem concludes_surcharge (k : ℚ) (s : Solver ℚ) (call : Call ℚ) :
    (s.surcharge k).concludes call = s.concludes call := by
  cases call with
  | suggest v x => exact congrArg Session.ended (answer_surcharge k s (.suggest v x))
  | newVariable | add _ | remove _ | update | addEdit _ _ | removeEdit _ => rfl

theorem KeepsEdits.after (h : s.KeepsEdits book base) {call : Call ℚ} (weight : call.Weighted)
    (fin : s.concludes call = true) : (s.after call).Orderly := by
  cases call with
  | newVariable =>
    exact KeepsEdits.orderly ⟨⟨h.records, h.issued, h.weights, h.numbered, h.describes⟩, h.edits⟩
  | add c =>
    change (s.insert c).2.Orderly
    rcases h.insert_cases weight with ⟨t, n, run, keeps⟩ | ⟨t, n, run, keeps⟩
    · rw [run]
      exact keeps.orderly
    · rw [run]
      exact keeps.orderly
  | remove id =>
    obtain ⟨book', keeps⟩ := h.removeConstraint id
    exact keeps.orderly
  | update =>
    change s.updateVariables.2.Orderly
    unfold updateVariables
    split
    · exact KeepsEdits.orderly ⟨⟨h.records, h.issued, h.weights, h.numbered, h.describes⟩, h.edits⟩
    · exact h.orderly
  | addEdit v strength =>
    obtain ⟨book', base', keeps⟩ := h.addEdit v strength
    exact keeps.orderly
  | removeEdit v =>
    obtain ⟨book', keeps⟩ := h.removeEdit v
    exact keeps.orderly
  | suggest v x =>
    obtain ⟨book', k, keeps⟩ := h.suggest v x fin
    exact ⟨k, book', base, keeps⟩

theorem Orderly.after (h : s.Orderly) {call : Call ℚ} (weight : call.Weighted)
    (fin : s.concludes call = true) : (s.after call).Orderly := by
  obtain ⟨k, book, base, keeps⟩ := h
  rw [← concludes_surcharge k] at fin
  have after := keeps.after weight fin
  rw [after_surcharge] at after
  exact after.of_surcharge

theorem orderly_afterAll {calls : List (Call ℚ)} (weights : ∀ call ∈ calls, call.Weighted)
    (fin : empty.concludesAll calls = true) : ((empty : Solver ℚ).afterAll calls).Orderly := by
  have start : (empty : Solver ℚ).Orderly := KeepsEdits.orderly ⟨keeps_empty fun _ => 0, nofun⟩
  generalize (empty : Solver ℚ) = s at start fin ⊢
  induction calls generalizing s with
  | nil => exact start
  | cons call calls ih =>
    obtain ⟨own, others⟩ := List.forall_mem_cons.mp weights
    rw [concludesAll, Bool.and_eq_true] at fin
    exact ih others (s.after call) (start.after own fin.1) fin.2

end Solver

end LinearChoice
