import LinearChoice.Proofs.Simplex.Outcomes
import LinearChoice.Proofs.Simplex.Session
import LinearChoice.Proofs.Simplex.Trails

/-!
# Every minimisation ends

An addition minimises the objective, and an artificial goal before it if the row
has no subject. A removal minimises the objective. After any additions and
removals all of these start from a tableau in standard form and a goal with
prices, so that they end and no such call is given up.
-/

set_option autoImplicit false

namespace LinearChoice
open scoped Exact

namespace Stage

def ofObjective (t : Tableau ℚ) : Stage := ⟨t, t.objective⟩

def outcome (x : Stage) : Except SolverError Unit :=
  (Tableau.minimise x.tableau.budget x.tableau x.goal).1

end Stage

namespace Solver

section Minimisations

variable (s : Solver ℚ)

def introductions (row : Row ℚ) : List Stage :=
  ⟨s.tableau.attach (.slack s.nextSymbol) row, row⟩ ::
    match s.tableau.introduce (.slack s.nextSymbol) row with
    | (.error _, _) => []
    | (.ok _, t) => [.ofObjective t]

def insertions (c : Constraint ℚ) : List Stage :=
  let m := Markers.ofConstraint c s.nextSymbol
  let row := s.rowOf c m
  let s := { s with nextSymbol := s.nextSymbol + m.count, tableau := s.tableau.addCosts m.costs }
  match row.subject? m.tag with
  | some subject => [.ofObjective (s.tableau.enter subject (row.solveFor subject))]
  | none =>
    if row.cells.keys.all Symbol.isDummy then
      if Scalar.nearZero row.constant then
        [.ofObjective (s.tableau.enter m.tag.marker (row.solveFor m.tag.marker))]
      else []
    else s.introductions row

def removals (id : ConstraintId) : List Stage :=
  match s.constraints.get? id with
  | none => []
  | some held =>
    match (s.tableau.removeCosts held.tag held.strength.weight).withdraw held.tag.marker with
    | (.error _, _) => []
    | (.ok (), t) => [.ofObjective t]

end Minimisations

variable {s : Solver ℚ} {c : Constraint ℚ} {e : SolverError}

theorem outcome_ofObjective (t : Tableau ℚ) : (Stage.ofObjective t).outcome = t.optimise.1 := rfl

theorem accept_error (tag : Tag) (strength : Strength ℚ) :
    (s.accept tag strength).1 = .error e ↔ s.tableau.optimise.1 = .error e := by
  unfold accept optimise
  dsimp only
  generalize s.tableau.optimise = answer
  obtain ⟨outcome, t⟩ := answer
  cases outcome <;> simp

theorem refuse_error (he : e.Endless) :
    s.refuse.1 = .error e ↔ s.tableau.optimise.1 = .error e := by
  unfold refuse optimise
  dsimp only
  generalize s.tableau.optimise = answer
  obtain ⟨outcome, t⟩ := answer
  cases outcome with
  | ok _ => simpa using he.ne_unsatisfiable.symm
  | error e' => simp

theorem introduce_error (t : Tableau ℚ) (artificial : Symbol) (row : Row ℚ) :
    (t.introduce artificial row).1 = .error e ↔
      Stage.outcome ⟨t.attach artificial row, row⟩ = .error e := by
  unfold Tableau.introduce Stage.outcome
  dsimp only
  generalize Tableau.minimise _ _ row = answer
  obtain ⟨outcome, t', goal⟩ := answer
  cases outcome with
  | error e' => simp
  | ok _ =>
    dsimp only
    repeat' split
    all_goals simp

theorem artificial_error (he : e.Endless) (row : Row ℚ) (tag : Tag) (strength : Strength ℚ) :
    (s.acceptWithArtificial row tag strength).1 = .error e ↔
      ∃ x ∈ s.introductions row, x.outcome = .error e := by
  have first := introduce_error (e := e) s.tableau (.slack s.nextSymbol) row
  unfold acceptWithArtificial introductions
  dsimp only
  generalize s.tableau.introduce _ row = answer at first ⊢
  obtain ⟨verdict, t⟩ := answer
  simp only [List.mem_cons, exists_eq_or_imp, ← first]
  rcases verdict with e' | _ | _
  · simp
  · simp [refuse_error he, outcome_ofObjective]
  · simp [accept_error, outcome_ofObjective]

/-- An addition is given up exactly where one of its minimisations is. -/
theorem insert_error (he : e.Endless) :
    (s.insert c).1 = .error e ↔ ∃ x ∈ s.insertions c, x.outcome = .error e := by
  have finite : c.isFinite = true := by simp [Constraint.isFinite, Scalar.isFinite]
  unfold insert insertions
  rw [if_pos finite]
  dsimp only
  cases (s.rowOf c (Markers.ofConstraint c s.nextSymbol)).subject?
      (Markers.ofConstraint c s.nextSymbol).tag with
  | some subject => simp [acceptWithSubject, accept_error, outcome_ofObjective]
  | none =>
    dsimp only
    split
    · split
      · simp [acceptWithSubject, accept_error, outcome_ofObjective]
      · simpa using he.ne_unsatisfiable.symm
    · exact artificial_error he _ _ _

/-- A removal is given up exactly where its minimisation is. -/
theorem remove_error (he : e.Endless) {id : ConstraintId} :
    (s.removeConstraint id).1 = .error e ↔ ∃ x ∈ s.removals id, x.outcome = .error e := by
  unfold removeConstraint removals
  cases s.constraints.get? id with
  | none => rcases he with rfl | rfl <;> simp
  | some held =>
    have leaves := Tableau.withdraw_cases (s.tableau.removeCosts held.tag held.strength.weight)
      held.tag.marker
    dsimp only
    generalize (s.tableau.removeCosts held.tag held.strength.weight).withdraw held.tag.marker =
      answer at leaves ⊢
    obtain ⟨outcome, t⟩ := answer
    rcases leaves with ⟨-, rfl⟩ | ⟨-, rfl⟩
    · simp [optimise, outcome_ofObjective]
    · rcases he with rfl | rfl <;> simp

end Solver

def Constraint.Fair (c : Constraint ℚ) : Prop := c.isRequired = false → 0 ≤ c.strength.weight

instance : DecidablePred Constraint.Fair :=
  fun c => inferInstanceAs (Decidable (c.isRequired = false → 0 ≤ c.strength.weight))

theorem Constraint.Fair.weight {c : Constraint ℚ} (h : c.Fair) : 0 ≤ c.strength.weight := by
  cases required : c.isRequired with
  | true => exact Session.weight_of_required required
  | false => exact h required

namespace Solver

structure Halting (s : Solver ℚ) : Prop where
  insertions : ∀ c : Constraint ℚ, c.Fair → ∀ x ∈ s.insertions c, x.Terminates
  removals : ∀ id, ∀ x ∈ s.removals id, x.Terminates
  added : ∀ c : Constraint ℚ, c.Fair → ∀ e, (s.addConstraint c).1 = .error e → ¬e.Endless
  removed : ∀ id e, (s.removeConstraint id).1 = .error e → ¬e.Endless

namespace Keeps

variable {s : Solver ℚ} {book : Book} {base : ConstraintId → ℕ} {c : Constraint ℚ}

theorem posed (h : s.Keeps book base) :
    (Stage.ofObjective s.tableau).Posed (book.costs base) :=
  ⟨h.describes.standard, h.describes.prices, h.priced⟩

theorem posed_recorded (h : s.Keeps book base) (weight : 0 ≤ c.strength.weight) {row : Row ℚ}
    (hr : s.tableau.RowFor c s.nextSymbol row) {t : Tableau ℚ}
    (hj : Tableau.Joined (book.costs base ++ (Markers.ofConstraint c s.nextSymbol).costs)
      s.tableau row t) : ∃ costs, (Stage.ofObjective t).Posed costs :=
  ⟨_, (h.recorded weight hr (le_refl _) hj).posed⟩

theorem posed_introductions (h : s.Keeps book base) (weight : 0 ≤ c.strength.weight)
    {row : Row ℚ} (hr : s.tableau.RowFor c s.nextSymbol row) (required : c.isRequired = true)
    (hi : s.tableau.Introducible
      (.slack (s.nextSymbol + (Markers.ofConstraint c s.nextSymbol).count)) row) :
    ∀ x ∈ introductions
        { s with nextSymbol := s.nextSymbol + (Markers.ofConstraint c s.nextSymbol).count } row,
      ∃ costs, x.Posed costs := by
  have introduced := Tableau.introduce_spec h.describes.standard hi h.describes.prices
    (h.costs_apart (Nat.le_add_right _ _))
  unfold introductions
  rw [List.forall_mem_cons]
  constructor
  · exact ⟨_, Tableau.standard_start h.describes.standard hi, Tableau.prices_artificial hi,
      Tableau.priced_artificial hi⟩
  · dsimp only
    generalize s.tableau.introduce _ row = answer at introduced ⊢
    cases introduced with
    | stalled t => exact fun x hx => absurd hx List.not_mem_nil
    | joined t joined =>
      rw [List.forall_mem_singleton]
      apply h.posed_recorded weight hr
      rwa [Markers.costs_required c _ required, List.append_nil]
    | refused t rebased never =>
      rw [List.forall_mem_singleton]
      exact ⟨_, (h.rebased (le_refl _) rebased).posed⟩

theorem posed_insertions (h : s.Keeps book base) (weight : 0 ≤ c.strength.weight) :
    ∀ x ∈ s.insertions c, ∃ costs, x.Posed costs := by
  have hr := h.row c
  unfold insertions
  dsimp only
  split
  · next subject found =>
    rw [List.forall_mem_singleton]
    exact h.posed_recorded weight hr (h.join_subject found)
  · next none =>
    have required := hr.isRequired_of_no_subject none
    rw [Markers.costs_required c _ required]
    split
    · next dummies =>
      split
      · next zero =>
        rw [List.forall_mem_singleton]
        apply h.posed_recorded weight hr
        rw [Markers.costs_required c _ required, List.append_nil]
        exact h.join_dummy dummies zero
      · exact fun x hx => absurd hx List.not_mem_nil
    · next proper =>
      have fresh := h.describes.fresh h.numbered
      exact h.posed_introductions weight hr required (hr.introducible fresh none proper)

theorem posed_removals (h : s.Keeps book base) (id : ConstraintId) :
    ∀ x ∈ s.removals id, ∃ costs, x.Posed costs := by
  unfold removals
  rw [h.records]
  cases held : book.get? id with
  | none => exact fun x hx => absurd hx List.not_mem_nil
  | some c =>
    obtain ⟨t, withdrawn, struck⟩ := h.struck held
    simp only [Option.map_some, withdrawn, List.forall_mem_singleton]
    exact ⟨_, struck.posed⟩

theorem halting (h : s.Keeps book base) : s.Halting := by
  have terminates {l : List Stage} (posed : ∀ x ∈ l, ∃ costs, x.Posed costs) :
      ∀ x ∈ l, x.Terminates := by
    intro x hx
    obtain ⟨costs, posed⟩ := posed x hx
    exact posed.terminates
  have given_up {l : List Stage} (posed : ∀ x ∈ l, ∃ costs, x.Posed costs) (e : SolverError) :
      ¬∃ x ∈ l, x.outcome = .error e := by
    rintro ⟨x, hx, stuck⟩
    rw [Stage.outcome, (terminates posed x hx).minimise] at stuck
    contradiction
  constructor
  · exact fun c fair => terminates (h.posed_insertions fair.weight)
  · exact fun id => terminates (h.posed_removals id)
  · intro c fair e failed endless
    rw [addConstraint_error, insert_error endless] at failed
    exact given_up (h.posed_insertions fair.weight) e failed
  · exact fun id e failed endless =>
      given_up (h.posed_removals id) e ((remove_error endless).mp failed)

theorem after (h : s.Keeps book base) {call : Call ℚ} (within : call.Within Constraint.Fair) :
    ∃ book base, (s.after call).Keeps book base := by
  cases call with
  | newVariable =>
    exact ⟨book, base, h.records, h.issued, h.weights, h.numbered, h.describes⟩
  | add c =>
    have added := added_insert h (Constraint.Fair.weight within)
    have ends := h.halting.added c within
    simp only [addConstraint_error] at ends
    change ∃ book base, (s.insert c).2.Keeps book base
    generalize s.insert c = answer at added ends ⊢
    cases added with
    | stalled s' => exact absurd (Or.inr rfl) (ends _ rfl)
    | accepted tag s' keeps => exact ⟨_, _, keeps⟩
    | refused s' keeps => exact ⟨_, _, keeps⟩
  | remove id =>
    cases held : book.get? id with
    | none =>
      have unknown : s.removeConstraint id = (.error .unknownConstraint, s) := by
        simp [removeConstraint, h.records, held]
      exact ⟨book, base, by simpa [Solver.after, unknown] using h⟩
    | some c =>
      obtain ⟨outcome, s', run, keeps, -⟩ := removeConstraint_spec h held
      exact ⟨_, _, by simpa [Solver.after, run] using keeps⟩
  | update =>
    obtain ⟨s', run, keeps, -⟩ := h.update
    exact ⟨book, base, by simpa [Solver.after, run] using keeps⟩
  | addEdit v strength => exact within.elim
  | removeEdit v => exact within.elim
  | suggest v x => exact within.elim

end Keeps

/-- In exact arithmetic every minimisation of an addition or a removal comes to an end, of the
objective and of artificial goals. -/
theorem halting_afterAll (calls : List (Call ℚ))
    (within : ∀ call ∈ calls, call.Within Constraint.Fair) :
    ((empty : Solver ℚ).afterAll calls).Halting := by
  have keeps := afterAll_invariant_of (P := fun s : Solver ℚ => ∃ book base, s.Keeps book base)
    ⟨_, _, keeps_empty fun _ => 0⟩ (fun s call own ⟨_, _, keeps⟩ => keeps.after own) calls within
  obtain ⟨book, base, keeps⟩ := keeps
  exact keeps.halting

def bounded : List (Call ℚ) :=
  [.newVariable, .add (.relate (.ofVariable ⟨0⟩) .atLeast 1)]

/-- A greater lower bound takes two minimisations, and a pivot for the artificial goal. -/
theorem halting_bounded :
    (∀ call ∈ bounded, call.Within Constraint.Fair) ∧
    ((empty : Solver ℚ).afterAll bounded).Halting ∧
    (((empty : Solver ℚ).afterAll bounded).insertions (.relate (.ofVariable ⟨0⟩) .atLeast 2)).map
      (fun x => x.next.isSome) = [true, false] :=
  ⟨by decide +kernel, halting_afterAll bounded (by decide +kernel), by decide +kernel⟩

end Solver

namespace Session

theorem ended_of_answer {ε : Type} {answer : Except SolverError ε}
    (h : ∀ e, answer = .error e → ¬e.Endless) : ended answer = true := by
  cases answer with
  | ok _ => rfl
  | error e =>
    unfold ended
    split
    · next stalled =>
      cases stalled
      exact absurd (Or.inr rfl) (h _ rfl)
    · rfl

/-- Where the solver is as the book has it, the next call ends. -/
theorem ended_next {x : Session} {base : ConstraintId → ℕ} (h : x.solver.Keeps x.held base) :
    (∀ c : Constraint ℚ, 0 ≤ c.strength.weight → ended (x.add c).1 = true) ∧
      ∀ id, ended (x.remove id).1 = true := by
  constructor
  · intro c weight
    have answer : (x.add c).1 = (x.solver.addConstraint c).1 := by
      unfold Session.add
      rcases x.solver.addConstraint c with ⟨_ | _, s⟩ <;> rfl
    exact answer ▸ ended_of_answer (h.halting.added c fun _ => weight)
  · intro id
    have answer : (x.remove id).1 = (x.solver.removeConstraint id).1 := by
      unfold Session.remove
      rcases x.solver.removeConstraint id with ⟨_ | _, s⟩ <;> rfl
    exact answer ▸ ended_of_answer (h.halting.removed id)

end Session

end LinearChoice
