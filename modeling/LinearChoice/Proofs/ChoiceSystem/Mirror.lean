import LinearChoice.Proofs.ChoiceSystem.Runs
import LinearChoice.Proofs.Choices
import LinearChoice.Proofs.Search.Mirror

/-!
# The pruner between calls

Whatever the backend does, between two calls the pruner is the one that was
empty and committed the baseline, and after it the kept alternatives in the
order of the decisions.
-/

set_option autoImplicit false
set_option linter.unusedSectionVars false

namespace LinearChoice

variable {α : Type}

namespace Disjunctions

theorem entries_add (ds : Disjunctions α) (d : Disjunction α) :
    (ds.add d).2.entries = ds.entries ++ [(⟨ds.size⟩, d)] := by
  simp [entries, add, size, List.zipIdx_append]

theorem decisions_subset (ds : Disjunctions α) (order : DecisionOrder) :
    ds.decisions order ⊆ ds.entries := (ds.decisions_perm order).subset

end Disjunctions

namespace ChoiceSystem

open Search (Marked)

variable {σ : Type} [ExtendedScalar α] [Numeral α] [BackendOver σ α] {s : ChoiceSystem σ α}

def Mirrors (s : ChoiceSystem σ α) : Prop :=
  ∃ cs, Marked s.disjunctions.entries s.baseline.constraints s.kept cs ∧
    s.pruner = (Pruner.empty s.config.prune).commit cs

omit [BackendOver σ α] in
/-- Without kept alternatives the pruner has committed the baseline. -/
theorem Mirrors.pruner (h : Mirrors s) (none : s.kept = []) :
    s.pruner = (Pruner.empty s.config.prune).commit s.baseline.constraints := by
  obtain ⟨cs, marked, pruner⟩ := h
  rw [none] at marked
  cases marked
  exact pruner

omit [BackendOver σ α] in
theorem mirrors_of_kept_nil (none : s.kept = [])
    (pruner : s.pruner = (Pruner.empty s.config.prune).commit s.baseline.constraints) :
    Mirrors s := ⟨_, none.symm ▸ .base, pruner⟩

theorem mirrors_retractAll {mode : PruneMode} {ds : List (DisjunctionId × Disjunction α)}
    {cs₀ cs : List (Constraint α)} {layers : List Commit} (marked : Marked ds cs₀ layers cs)
    (state : Search.State σ α) (pruner : state.pruner = (Pruner.empty mode).commit cs) :
    ∃ cs', Marked ds cs₀ (retractAll layers state).2.1 cs' ∧
      (retractAll layers state).2.2.pruner = (Pruner.empty mode).commit cs' ∧
      ((retractAll layers state).1 = .ok () → (retractAll layers state).2.1 = []) := by
  induction marked generalizing state with
  | base => exact ⟨cs₀, .base, pruner, fun _ => rfl⟩
  | @commit layers cs c d alternative below offered own found mark ih =>
    have restored := Search.pruner_retract c pruner mark
    unfold retractAll
    split
    · next run =>
      rw [run] at restored
      exact ⟨cs, below, restored, nofun⟩
    · next run =>
      rw [run] at restored
      exact ih _ restored

theorem Mirrors.retractKept (h : Mirrors s) :
    Mirrors s.retractKept.2 ∧ (s.retractKept.1 = .ok () → s.retractKept.2.kept = []) := by
  obtain ⟨cs, marked, pruner⟩ := h
  obtain ⟨cs', marked', pruner', done⟩ :=
    mirrors_retractAll marked ⟨s.backend, s.pruner, Journal.empty⟩ pruner
  refine ⟨⟨cs', marked', pruner'⟩, fun ok => done ?_⟩
  unfold ChoiceSystem.retractKept at ok
  dsimp only at ok
  cases outcome : (retractAll s.kept ⟨s.backend, s.pruner, Journal.empty⟩).1 with
  | error e =>
    rw [outcome] at ok
    cases ok
  | ok _ => rfl

theorem Mirrors.extend (h : Mirrors s) (none : s.kept = []) (c : Constraint α) :
    Mirrors (s.clearValues.extend c) := by
  have pruner := h.pruner none
  unfold ChoiceSystem.extend
  split
  · refine mirrors_of_kept_nil none ?_
    change s.pruner.commit [c] = (Pruner.empty s.config.prune).commit
      (Baseline.constraints ⟨s.baseline.held ++ [(c, _)]⟩)
    rw [Baseline.constraints_append, pruner, Pruner.commit_append]
  · exact mirrors_of_kept_nil none pruner

theorem Mirrors.addConjunctive (h : Mirrors s) (c : Constraint α) :
    Mirrors (s.addConjunctive c).2 := by
  obtain ⟨mirrors, none⟩ := h.retractKept
  rcases s.addConjunctive_cases c with
    same | ⟨-, -, ⟨e, s', run, result⟩ | ⟨s', run, result⟩⟩
  · rwa [same]
  · rw [run] at mirrors
    rwa [result]
  · rw [run] at mirrors none
    rw [result]
    exact mirrors.extend (none rfl) c

theorem Mirrors.conclude (h : Mirrors s) (none : s.kept = []) :
    Mirrors (s.clearValues.conclude s.clearValues.search).2 := by
  have pruner := h.pruner none
  have mirrored : Search.Mirrored s.config.prune s.disjunctions.entries s.baseline.constraints []
      s.baseline.constraints s.clearValues.search :=
    Search.mirrored_explore _ _ 0 (s.disjunctions.decisions_subset s.config.order) pruner .base
  generalize s.clearValues.search = answer at mirrored ⊢
  cases mirrored with
  | found pruner' marked' =>
    rw [List.append_nil] at marked'
    exact ⟨_, marked', pruner'⟩
  | exhausted pruner' => exact mirrors_of_kept_nil none pruner'
  | aborted pruner' => exact mirrors_of_kept_nil none pruner'

theorem Mirrors.solve (h : Mirrors s) : Mirrors s.solve.2 := by
  obtain ⟨mirrors, none⟩ := h.retractKept
  rcases s.solve_cases with ⟨-, result⟩ | ⟨-, e, s', run, result⟩ | ⟨-, s', run, result⟩
  · rwa [result]
  all_goals
    rw [run] at mirrors none
    rw [result]
  · exact mirrors
  · exact mirrors.conclude (none rfl)

theorem Mirrors.after (h : Mirrors s) (call : Call α) : Mirrors (s.after call) := by
  cases call with
  | newVariable name =>
    rcases s.newVariable_cases name with same | ⟨registry, -, moved⟩
    · rwa [ChoiceSystem.after, same]
    · rw [ChoiceSystem.after, moved]
      exact h
  | registerVariable name v =>
    rcases s.registerVariable_cases name v with same | ⟨registry, -, moved⟩
    · rwa [ChoiceSystem.after, same]
    · rw [ChoiceSystem.after, moved]
      exact h
  | addConjunctive c => exact h.addConjunctive c
  | addDisjunction label alternatives =>
    rcases s.addDisjunction_cases label alternatives with same | ⟨d, -, -, moved⟩
    · rwa [ChoiceSystem.after, same]
    · obtain ⟨cs, marked, pruner⟩ := h
      rw [ChoiceSystem.after, moved]
      refine ⟨cs, marked.mono ?_, pruner⟩
      change s.disjunctions.entries ⊆ (s.disjunctions.add d).2.entries
      rw [Disjunctions.entries_add]
      exact List.subset_append_left _ _
  | setConfig config =>
    obtain ⟨cs, marked, pruner⟩ := h
    refine ⟨cs, marked, ?_⟩
    change s.pruner.setMode config.prune = _
    rw [pruner, Pruner.setMode_commit]
    rfl
  | solve => exact h.solve

theorem mirrors_afterAll (b : σ) (config : Config) (calls : List (Call α)) :
    Mirrors ((ofBackend b config).afterAll calls) :=
  afterAll_invariant (mirrors_of_kept_nil rfl rfl) (fun _ call h => h.after call) calls

end ChoiceSystem

end LinearChoice
