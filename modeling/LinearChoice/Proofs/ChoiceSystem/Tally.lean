import LinearChoice.Proofs.Backend.Tallied
import LinearChoice.Proofs.ChoiceSystem.Custody
import LinearChoice.Proofs.ChoiceSystem.Follows
import LinearChoice.Proofs.ChoiceSystem.Maintained

/-!
# What an error leaves in the solver

Between two calls the solver holds what was in it at first, the baseline, the
kept alternatives and the orphans of failed additions. An error that is not the
caller's comes after the kept alternatives went, unless it is one of theirs. So
it leaves the baseline and the orphans, and where every constraint is required
there are none.
-/

set_option autoImplicit false

namespace LinearChoice

theorem Tallied.follows {σ α : Type} [BackendOver σ α] :
    Backend.Follows (Tallied.inner : Tallied σ → σ) where
  newVariable _ := rfl
  addConstraint r c := by
    simp only [Backend.addConstraint]
    cases Backend.addConstraint r.inner c with
    | mk outcome b => cases outcome <;> rfl
  removeConstraint _ _ := rfl
  updateVariables _ := rfl
  value _ := rfl

/-- While every constraint is required nothing has a price, so that no addition is orphaned. -/
theorem Tallied.maintains_unpriced :
    Backend.Maintains (fun c => c.isRequired = true)
      fun r : Tallied (Solver Float) => r.inner.Unpriced ∧ r.orphans = 0 where
  newVariable r h := ⟨⟨h.1.objective, h.1.tags⟩, h.2⟩
  addConstraint r c required h := by
    have unpriced := h.1.addConstraint required
    simp only [Backend.addConstraint]
    split
    · next run =>
      rw [run] at unpriced
      exact ⟨unpriced, h.2⟩
    · next run =>
      rw [run] at unpriced
      refine ⟨unpriced, ?_⟩
      rcases Solver.constraints_of_failed run with same | ⟨priced, -⟩
      · simp [Backend.constraintCount, Solver.constraintCount, same, h.2]
      · exact absurd h.1.objective (priced required)
  removeConstraint r id h := ⟨h.1.removeConstraint id, h.2⟩
  updateVariables r h := ⟨h.1.updateVariables, h.2⟩

namespace ChoiceSystem

def keptCount {σ α : Type} (s : ChoiceSystem σ α) : Nat :=
  (s.kept.flatMap Commit.constraints).length

theorem Guards.count {n : Nat} {s : ChoiceSystem (Tallied (Solver Float))}
    (h : Guards (Tallied.tally n) s) : s.backend.inner.constraintCount =
      n + s.baseline.size + s.keptCount + s.backend.orphans := by
  obtain ⟨Qs, ids, owned⟩ := h
  have kept : s.keptCount = Qs.flatten.length := by
    rw [keptCount, List.flatMap_def, ids, ← List.map_flatten, List.length_map]
  have baseline : s.baselineEntries.length = s.baseline.size := List.length_map _
  rw [owned.count, Multiset.card_add, Multiset.coe_card, Multiset.coe_card, kept, baseline]
  omega

section Errors

variable {σ α : Type} [ExtendedScalar α] [Numeral α] [BackendOver σ α] {K : Custody σ}
  {s : ChoiceSystem σ α} {e : SystemError}

theorem kept_of_solve_error (h : Guards K s) (error : s.solve.1 = .error e)
    (usable : e ≠ .discarded) (went : s.retractKept.1 = .ok ()) : s.solve.2.kept = [] := by
  have solved := solved h
  generalize s.solve = answer at solved error
  cases solved with
  | discarded => exact absurd (Except.error.inj error).symm usable
  | blocked _ stuck =>
    rw [stuck] at went
    contradiction
  | nothing => rfl
  | found => contradiction

theorem kept_of_add_error (h : Guards K s) {c : Constraint α}
    (error : (s.addConjunctive c).1 = .error e) (blameless : e.isConfiguration = false)
    (usable : e ≠ .discarded) (went : s.retractKept.1 = .ok ()) :
    (s.addConjunctive c).2.kept = [] := by
  obtain ⟨outcome, kept, backend, pruner, run, -, done⟩ := h.retractKept
  unfold addConjunctive at error ⊢
  split at error
  · exact absurd (Except.error.inj error).symm usable
  · next available =>
    rw [if_neg available]
    split at error
    · next failed =>
      unfold Registry.check at failed
      split at failed
      · cases failed
        cases error
        contradiction
      · contradiction
    · next checked =>
      rw [run] at went error ⊢
      have went : outcome = .ok () := went
      subst went
      have none := done rfl
      subst none
      dsimp only
      split <;> rfl

def Reverts {β : Type} (n : Nat) (extra : σ → Nat)
    (answer : Except SystemError β × ChoiceSystem σ α) : Prop :=
  ∀ e, answer.1 = .error e → e.isConfiguration = false → e ≠ .discarded →
    Backend.constraintCount answer.2.backend = n + answer.2.baseline.size + extra answer.2.backend

end Errors

section Tally

variable {n : Nat} {r : ChoiceSystem (Tallied (Solver Float))}

theorem Guards.count_of_kept_nil (h : Guards (Tallied.tally n) r) (none : r.kept = []) :
    Backend.constraintCount r.backend = n + r.baseline.size + r.backend.orphans := by
  have count := h.count
  rw [keptCount, none] at count
  exact count

theorem Guards.reverts_solve (h : Guards (Tallied.tally n) r) (went : r.retractKept.1 = .ok ()) :
    Reverts n Tallied.orphans r.solve :=
  fun _ error _ usable => Guards.count_of_kept_nil (h.after .solve)
    (kept_of_solve_error h error usable went)

theorem Guards.reverts_add (h : Guards (Tallied.tally n) r) (went : r.retractKept.1 = .ok ())
    (c : Constraint Float) : Reverts n Tallied.orphans (r.addConjunctive c) :=
  fun _ error blameless usable => Guards.count_of_kept_nil (h.after (.addConjunctive c))
    (kept_of_add_error h error blameless usable went)

/-- Without orphans the answer on record is one that reverts to the baseline. -/
theorem Reverts.inner {β : Type}
    {answer : Except SystemError β × ChoiceSystem (Tallied (Solver Float))}
    (h : Reverts n Tallied.orphans answer) (none : answer.2.backend.orphans = 0) :
    Reverts n (fun _ => 0) (answer.map id (map Tallied.inner)) := by
  intro e error blameless usable
  have count := h e error blameless usable
  rwa [none] at count

end Tally

/-- After any calls the account of the solver comes out even, and an error that is not the caller's
leaves the baseline and the orphans, unless the kept alternatives could not be taken out. Where
every constraint is required, before and in the system, it leaves the baseline alone. -/
theorem reverts_afterAll (before : List (Solver.Call Float)) (config : Config) (calls : List Call)
    (c : Constraint Float) :
    let b := (Solver.empty : Solver Float).afterAll before
    let n := b.constraintCount
    let s := (ofBackend b config).afterAll calls
    let r := (ofBackend (⟨b, 0⟩ : Tallied (Solver Float)) config).afterAll calls
    (r.map Tallied.inner = s ∧
      s.backend.constraintCount = n + s.baseline.size + s.keptCount + r.backend.orphans ∧
      (s.retractKept.1 = .ok () → Reverts n Tallied.orphans r.solve ∧
        Reverts n Tallied.orphans (r.addConjunctive c))) ∧
    ((∀ call ∈ before, call.Within fun c => c.isRequired = true) →
      (∀ call ∈ calls, call.Within fun c => c.isRequired = true) →
      s.backend.constraintCount = n + s.baseline.size + s.keptCount ∧
      (s.retractKept.1 = .ok () → Reverts n (fun _ => 0) s.solve ∧
        (c.isRequired = true → Reverts n (fun _ => 0) (s.addConjunctive c)))) := by
  intro b n s r
  have guards : Guards (Tallied.tally n) r :=
    guards_afterAll (⟨b, 0⟩ : Tallied (Solver Float))
      (Tallied.tally_start (Solver.numbered_afterAll before)) config calls
  have same : r.map Tallied.inner = s := (afterAll_map Tallied.follows _ calls).symm
  have count : s.backend.constraintCount = n + s.baseline.size + s.keptCount + r.backend.orphans :=
    same ▸ guards.count
  have went : s.retractKept.1 = r.retractKept.1 := by
    rw [← same, retractKept_map Tallied.follows]
    rfl
  refine ⟨⟨same, count, fun ok => ?_⟩, fun required required' => ?_⟩
  · rw [went] at ok
    exact ⟨guards.reverts_solve ok, guards.reverts_add ok c⟩
  · have maintained := maintained_afterAll (b := (⟨b, 0⟩ : Tallied (Solver Float)))
      Tallied.maintains_unpriced ⟨Solver.unpriced_afterAll before required, rfl⟩ config calls required'
    refine ⟨by rw [count, maintained.backend.2, add_zero], fun ok => ?_⟩
    rw [went] at ok
    rw [← same, solve_map Tallied.follows, addConjunctive_map Tallied.follows]
    exact ⟨(guards.reverts_solve ok).inner
        (maintained.solve Tallied.maintains_unpriced).backend.2,
      fun own => (guards.reverts_add ok c).inner
        (maintained.addConjunctive Tallied.maintains_unpriced own).backend.2⟩

def idle : ChoiceSystem (Solver Float) :=
  (ofBackend (Solver.empty.afterAll [.newVariable, .add (.relate (.ofVariable ⟨0⟩) .atLeast 0)])
    ⟨.off, .registration, some 0⟩).afterAll
    [.registerVariable "x" ⟨0⟩, .addConjunctive (.relate (.ofVariable ⟨0⟩) .atMost 5),
      .addDisjunction none [[.relate (.ofVariable ⟨0⟩) .atMost 3]]]

/-- A solver that holds a constraint of its own, under a system that may attempt nothing. -/
theorem reverts_idle :
    idle.solve.1 = .error (.stepLimitExceeded 0) ∧
    Reverts 1 (fun _ => 0) idle.solve ∧
    (idle.addConjunctive (.relate (.ofVariable ⟨0⟩) .atMost (-1))).1.isOk = false ∧
    Reverts 1 (fun _ => 0) (idle.addConjunctive (.relate (.ofVariable ⟨0⟩) .atMost (-1))) := by
  have limited : idle.solve.1.map (fun _ => ()) = .error (.stepLimitExceeded 0) := by
    decide +kernel
  have error : idle.solve.1 = .error (.stepLimitExceeded 0) := by
    generalize idle.solve.1 = answer at limited ⊢
    cases answer with
    | error e => exact congrArg _ (Except.error.inj limited)
    | ok _ => contradiction
  have start : ((Solver.empty : Solver Float).afterAll
      [.newVariable, .add (.relate (.ofVariable ⟨0⟩) .atLeast 0)]).constraintCount = 1 := by
    decide +kernel
  have reverts := (reverts_afterAll [.newVariable, .add (.relate (.ofVariable ⟨0⟩) .atLeast 0)]
    ⟨.off, .registration, some 0⟩
    [.registerVariable "x" ⟨0⟩, .addConjunctive (.relate (.ofVariable ⟨0⟩) .atMost 5),
      .addDisjunction none [[.relate (.ofVariable ⟨0⟩) .atMost 3]]]
    (.relate (.ofVariable ⟨0⟩) .atMost (-1))).2 (by decide +kernel) (by decide +kernel)
  rw [start] at reverts
  obtain ⟨solve, add⟩ := reverts.2 (by decide +kernel)
  exact ⟨error, solve, by decide +kernel, add (by decide +kernel)⟩

/-- In general an orphan may be left. A strength below zero is a price that rewards violation, so
the objective has no minimum, but the constraint is already recorded. -/
theorem orphaned_negative :
    let c : Constraint Float :=
      { Constraint.relate (.ofVariable ⟨0⟩) .atMost 0 with strength := ⟨-1⟩ }
    let s : ChoiceSystem (Solver Float) := (ofBackend Solver.empty .standard).afterAll
      [.newVariable "x", .addDisjunction none [[c]]]
    c.isFinite = true ∧ s.backend.constraintCount = 0 ∧ s.retractKept.1 = .ok () ∧
    s.solve.1.map (fun _ => ()) = .error (.solver .unbounded) ∧
    (SystemError.solver .unbounded).isConfiguration = false ∧
    s.solve.2.baseline.size = 0 ∧ s.solve.2.backend.constraintCount = 1 := by
  decide +kernel

end ChoiceSystem

end LinearChoice
