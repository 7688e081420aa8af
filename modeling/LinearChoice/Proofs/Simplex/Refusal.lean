import LinearChoice.Proofs.Simplex.Raised
import LinearChoice.Proofs.Simplex.Termination

/-!
# After a refusal

A refused constraint is not recorded. If the tableau comes out of the refusal as
it was, then only numbers were passed over, and no later answer depends on the
refusal, whatever the arithmetic. In exact arithmetic the tableau may be pivoted
and still has the same solutions, so every refusal is forgotten.
-/

set_option autoImplicit false

namespace LinearChoice

namespace Solver

variable {α : Type} [Scalar α] {s : Solver α} {c : Constraint α}

/-- A refusal touches nothing but the tableau and the next number. -/
theorem state_of_refused (refused : (s.addConstraint c).1 = .error .unsatisfiable) :
    ∃ t k, (s.addConstraint c).2 = { s with tableau := t, nextSymbol := s.nextSymbol + k } := by
  have refused' := addConstraint_error.mp refused
  have inserted := inserted s c
  change ∃ t k, (s.insert c).2 = _
  generalize s.insert c = answer at inserted refused'
  cases inserted with
  | @refused t n posed =>
    obtain ⟨k, rfl⟩ := Nat.exists_eq_add_of_le (Nat.le_of_add_right_le posed.passed)
    exact ⟨t, k, rfl⟩
  | endless he | orphaned he =>
    cases refused'
    exact absurd rfl he.ne_unsatisfiable
  | nonFinite | accepted => cases refused'

theorem accept_not_refused (s : Solver α) (tag : Tag) (strength : Strength α) :
    (s.accept tag strength).1 ≠ .error .unsatisfiable := by
  have run := s.tableau.endless_of_optimise
  unfold accept optimise
  dsimp only
  generalize s.tableau.optimise = answer at run
  obtain ⟨outcome, t⟩ := answer
  cases outcome with
  | ok _ => exact nofun
  | error e =>
    rintro ⟨⟩
    exact absurd rfl (run _ rfl).ne_unsatisfiable

theorem tableau_of_refused (refused : (s.addConstraint c).1 = .error .unsatisfiable)
    (required : c.isRequired = true) (sight : s.AtSight c) :
    (s.addConstraint c).2.tableau = s.tableau := by
  unfold AtSight at sight
  refine (?_ : (s.insert c).1 = .error .unsatisfiable → (s.insert c).2.tableau = s.tableau)
    (addConstraint_error.mp refused)
  unfold insert acceptWithSubject
  dsimp only
  rw [Markers.costs_required c _ required, if_pos sight]
  split
  · split
    · exact fun refused => absurd refused (accept_not_refused _ _ _)
    · split
      · exact fun refused => absurd refused (accept_not_refused _ _ _)
      · exact fun _ => rfl
  · rintro ⟨⟩

def Alike (s s' : Solver α) : Prop :=
  ∀ (later : List (Call α)) (d : Constraint α),
    ((s'.afterAll later).addConstraint d).1 = ((s.afterAll later).addConstraint d).1

theorem alike_of_kept (h : s.Numbered) (refused : (s.addConstraint c).1 = .error .unsatisfiable)
    (kept : (s.addConstraint c).2.tableau = s.tableau) : s.Alike (s.addConstraint c).2 := by
  obtain ⟨t, k, state⟩ := state_of_refused refused
  have raised : (s.addConstraint c).2 = s.raise s.nextSymbol k := by
    rw [state] at kept ⊢
    rw [h.raise_eq]
    exact congrArg (fun t => { s with tableau := t, nextSymbol := s.nextSymbol + k }) kept
  intro later d
  have passed : s.nextSymbol ≤ (s.afterAll later).nextSymbol :=
    afterAll_invariant (P := fun s' => s.nextSymbol ≤ s'.nextSymbol) (Nat.le_refl _)
      (fun s' call le => Nat.le_trans le (nextSymbol_after s' call)) later
  rw [raised, afterAll_raise k s (Nat.le_refl _), addConstraint_raise k _ _ passed]

structure Forgets (s : Solver α) (c : Constraint α) : Prop where
  count : (s.addConstraint c).2.constraintCount = s.constraintCount
  held : ∀ id, (s.addConstraint c).2.hasConstraint id = s.hasConstraint id
  sight : c.isRequired = true → s.AtSight c → (s.addConstraint c).2.tableau = s.tableau
  alike : (s.addConstraint c).2.tableau = s.tableau → s.Alike (s.addConstraint c).2

theorem Numbered.forgets (h : s.Numbered)
    (refused : (s.addConstraint c).1 = .error .unsatisfiable) : s.Forgets c := by
  obtain ⟨t, k, state⟩ := state_of_refused refused
  have constraints : (s.addConstraint c).2.constraints = s.constraints := by rw [state]
  exact ⟨congrArg Table.size constraints,
    fun id => congrArg (fun t => t.contains id) constraints,
    tableau_of_refused refused, alike_of_kept h refused⟩

end Solver

namespace Session
open scoped Exact

variable {x : Session} {c d : Constraint ℚ}

/-- In exact arithmetic a refusal leaves the solutions as they were, and these decide what is
accepted. -/
theorem Reached.accepted_after_refused (h : x.Reached) (required : c.isRequired = true)
    (refused : (x.add c).1 = .error .unsatisfiable) (required' : d.isRequired = true) :
    (∃ id, ((x.add c).2.add d).1 = .ok id) ↔ ∃ id, (x.add d).1 = .ok id := by
  have weight := weight_of_required required
  have weight' := weight_of_required required'
  obtain ⟨base, keeps⟩ := h.keeps
  have ended_c := (ended_next keeps).1 c weight
  have reached := h.add c weight ended_c
  obtain ⟨held, base', keeps'⟩ : (x.add c).2.held = x.held ∧
      ∃ base', (x.add c).2.solver.Keeps (x.add c).2.held base' := by
    rcases add_cases keeps weight ended_c with ⟨id, -, ok, -⟩ | ⟨-, held, keeps', -⟩
    · rw [refused] at ok
      contradiction
    · exact ⟨held, base, held ▸ keeps'⟩
  have before := h.add_required weight' ((ended_next keeps).1 d weight') required'
  have after := reached.add_required weight' ((ended_next keeps').1 d weight') required'
  rw [after, before, held]

end Session

namespace Solver
open scoped Exact

/-- Whatever the arithmetic, a refusal changes no record, and no later answer either unless it
changed the tableau. In exact arithmetic no later required constraint is judged otherwise in any
case. -/
theorem forgets_of_refused {α : Type} [Scalar α] :
    (∀ (calls : List (Call α)) (c : Constraint α),
      (((empty : Solver α).afterAll calls).addConstraint c).1 = .error .unsatisfiable →
      ((empty : Solver α).afterAll calls).Forgets c) ∧
    ∀ (x : Session) (c d : Constraint ℚ), x.Reached → c.isRequired = true → d.isRequired = true →
      (x.add c).1 = .error .unsatisfiable →
      ((∃ id, ((x.add c).2.add d).1 = .ok id) ↔ ∃ id, (x.add d).1 = .ok id) :=
  ⟨fun calls _ refused => (numbered_afterAll calls).forgets refused,
    fun _ _ _ h required required' refused =>
      h.accepted_after_refused required refused required'⟩

def pinned : Solver Float :=
  (empty : Solver Float).afterAll
    [.newVariable, .add (.relate (.ofVariable ⟨0⟩) .equal 0)]

/-- A variable is zero, and as one it is refused at sight. -/
theorem forgets_pinned :
    (pinned.addConstraint (.relate (.ofVariable ⟨0⟩) .equal 1)).1 = .error .unsatisfiable ∧
    pinned.Alike (pinned.addConstraint (.relate (.ofVariable ⟨0⟩) .equal 1)).2 ∧
    ((∃ id, ((Session.contradicted.add (.relate (.ofVariable ⟨0⟩) .atMost 0)).2.add
        (.relate (.ofVariable ⟨0⟩) .atLeast 2)).1 = .ok id) ↔
      ∃ id, (Session.contradicted.add (.relate (.ofVariable ⟨0⟩) .atLeast 2)).1 = .ok id) := by
  have refused : (pinned.addConstraint (.relate (.ofVariable ⟨0⟩) .equal 1)).1 =
      .error .unsatisfiable := by decide +kernel
  have forgets := forgets_of_refused.1 _ _ refused
  exact ⟨refused, forgets.alike (forgets.sight (by decide +kernel) (by decide +kernel)),
    (forgets_of_refused (α := Float)).2 _ _ _ Session.reached_contradicted (by decide +kernel)
      (by decide +kernel) (by decide +kernel)⟩

/-- In general the refused row may have left the basis and stays behind. Here it does: the third
constraint is refused after the refusal of the second one, and accepted without it. -/
theorem remembers_refused :
    let s := (empty : Solver Float).afterAll
      [.newVariable, .add (.relate (.ofVariable ⟨0⟩) .atMost (-7))]
    let c : Constraint Float := .relate (.ofTerm ⟨0⟩ 3) .equal (-7000000000)
    let d : Constraint Float := .relate (.ofVariable ⟨0⟩) .equal (-20)
    c.isFinite = true ∧ c.isRequired = true ∧ d.isFinite = true ∧ d.isRequired = true ∧
    (s.addConstraint c).1 = .error .unsatisfiable ∧
    ((s.addConstraint c).2.addConstraint d).1 = .error .unsatisfiable ∧
    (s.addConstraint d).1 = .ok ⟨1⟩ := by
  decide +kernel

end Solver

end LinearChoice
