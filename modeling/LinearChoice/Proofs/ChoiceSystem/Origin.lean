import LinearChoice.Backend.Disrupted
import LinearChoice.Proofs.Backend.Shelf
import LinearChoice.Proofs.Search.Origin

/-!
# Where the errors of a solve come from

Whatever the backend answers, a solve fails because the system was discarded,
because of its step limit, or with an error that the backend answered in the
course of this solve. The caller is never to blame, and a constraint that the
backend finds unsatisfiable is no error.
-/

set_option autoImplicit false

namespace LinearChoice.ChoiceSystem

variable {σ α : Type} [ExtendedScalar α] [Numeral α] [BackendOver σ α]

def exchanges (s : ChoiceSystem σ α) : List (Exchange α) :=
  (s.map Overheard.ofBackend).solve.2.backend.exchanges

theorem solve_overheard (s : ChoiceSystem σ α) :
    (s.map (Overheard.ofBackend (α := α))).solve.1 = s.solve.1 :=
  (congrArg Prod.fst (solve_map Overheard.follows (s.map Overheard.ofBackend))).symm

omit [Numeral α] in
theorem origin_retractAll (stepLimit : Option Nat) {layers kept : List Commit}
    {state state' : Search.State (Overheard σ α) α} {e : SolverError}
    (run : retractAll layers state = (.error e, kept, state')) :
    Search.Origin stepLimit state'.backend.exchanges (.solver e) := by
  induction layers generalizing state with
  | nil => cases run
  | cons c layers ih =>
    unfold retractAll at run
    split at run
    · next back =>
      cases run
      exact Search.origin_retract stepLimit back
    · exact ih run

omit [Numeral α] in
theorem origin_retractKept {s s' : ChoiceSystem (Overheard σ α) α} {e : SystemError}
    (run : s.retractKept = (.error e, s')) :
    Search.Origin s.config.stepLimit s'.backend.exchanges e := by
  cases all : retractAll s.kept ⟨s.backend, s.pruner, Journal.empty⟩ with
  | mk outcome rest =>
    rw [retractKept, all] at run
    cases outcome with
    | ok _ => cases run
    | error e =>
      cases run
      exact origin_retractAll _ all

theorem origin_solve {s : ChoiceSystem (Overheard σ α) α} {e : SystemError}
    (failed : s.solve.1 = .error e) :
    (e = .discarded ∧ s.discarded = true) ∨
      Search.Origin s.config.stepLimit s.solve.2.backend.exchanges e := by
  rcases s.solve_cases with ⟨gone, answer⟩ | ⟨-, e', s', run, answer⟩ | ⟨usable, s', run, answer⟩
  · rw [answer] at failed
    cases failed
    exact Or.inl ⟨rfl, gone⟩
  · rw [answer] at failed ⊢
    cases failed
    exact Or.inr (origin_retractKept run)
  · have same : s'.clearValues.config = s.config := by
      rw [show s' = s.retractKept.2 by rw [run]]
      rfl
    rw [answer] at failed ⊢
    rw [backend_conclude, ← same]
    cases searched : s'.clearValues.search with
    | mk outcome state =>
      rw [searched] at failed
      cases outcome with
      | error e =>
        cases failed
        exact Or.inr (Search.origin_explore _ 0 _ searched)
      | ok found => cases found <;> cases failed

structure Excused (s : ChoiceSystem σ α) (e : SystemError) : Prop where
  origin : (e = .discarded ∧ s.discarded = true) ∨ Search.Origin s.config.stepLimit s.exchanges e
  unsatisfiable : e = .solver .unsatisfiable →
    ∃ id, .remove id (.error .unsatisfiable) ∈ s.exchanges
  blameless : e.isConfiguration = false
  feasible : ∀ constraint, e ≠ .baselineInfeasible constraint

theorem excused_solve (s : ChoiceSystem σ α) {e : SystemError} (failed : s.solve.1 = .error e) :
    Excused s e := by
  have origin : (e = .discarded ∧ s.discarded = true) ∨
      Search.Origin s.config.stepLimit s.exchanges e :=
    origin_solve (s := s.map (Overheard.ofBackend (α := α))) (s.solve_overheard.trans failed)
  refine ⟨origin, ?_, ?_, ?_⟩
  · rintro rfl
    rcases origin with ⟨other, -⟩ | ⟨-⟩ | ⟨overheard, upsets⟩
    · cases other
    · cases upsets with
      | add c other => exact absurd rfl other
      | remove id => exact ⟨id, overheard⟩
      | update other => exact absurd rfl other
  · rcases origin with ⟨rfl, -⟩ | ⟨-⟩ | ⟨-⟩ <;> rfl
  · rcases origin with ⟨rfl, -⟩ | ⟨-⟩ | ⟨-⟩ <;> exact nofun

def jammed : ChoiceSystem (Disrupted (Shelf 1)) :=
  (ofBackend (.ofBackend (Shelf.empty 1) [⟨.remove, 0, false, .unsatisfiable⟩])
    ⟨.off, .registration, none⟩).afterAll
    [.newVariable "x", .addDisjunction none
      [[.relate (.ofVariable ⟨0⟩) .atLeast 1, .relate (.ofVariable ⟨0⟩) .atLeast 2]]]

/-- The second constraint has no room, and the removal of the first one is refused as well. -/
theorem excused_jammed : jammed.solve.1 = .error (.solver .unsatisfiable) ∧
    Excused jammed (.solver .unsatisfiable) := by
  have outcome : (jammed.solve.1.map fun _ => ()) = .error (.solver .unsatisfiable) := by
    decide +kernel
  have failed : jammed.solve.1 = .error (.solver .unsatisfiable) := by
    cases answer : jammed.solve.1 with
    | error e =>
      rw [answer] at outcome
      cases outcome
      rfl
    | ok result =>
      rw [answer] at outcome
      cases outcome
  exact ⟨failed, jammed.excused_solve failed⟩

end LinearChoice.ChoiceSystem
