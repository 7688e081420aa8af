import LinearChoice.ChoiceSystem
import LinearChoice.Proofs.Backend.Contract
import LinearChoice.Proofs.Registry

/-!
# Runs of a system

The calls that change a system, and what a sequence of them leads to.
-/

set_option autoImplicit false
set_option linter.unusedSectionVars false

namespace LinearChoice

variable {α : Type}

theorem Baseline.constraints_append (held : List (Constraint α × ConstraintId))
    (c : Constraint α) (id : ConstraintId) :
    Baseline.constraints ⟨held ++ [(c, id)]⟩ = Baseline.constraints ⟨held⟩ ++ [c] := by
  simp [Baseline.constraints]

namespace ChoiceSystem

def baselineEntries {σ : Type} (s : ChoiceSystem σ α) : List (Entry α) :=
  s.baseline.held.map Prod.swap

theorem texts_baselineEntries {σ : Type} (s : ChoiceSystem σ α) :
    s.baselineEntries.map Prod.snd = s.baseline.constraints := by
  simp [baselineEntries, Baseline.constraints, Function.comp_def]

inductive Call (α : Type := Float) where
  | newVariable (name : String)
  | registerVariable (name : String) (v : Variable)
  | addConjunctive (c : Constraint α)
  | addDisjunction (label : Option String) (alternatives : List (Alternative α))
  | setConfig (config : Config)
  | solve

variable {σ : Type} [ExtendedScalar α] [Numeral α] [BackendOver σ α]

def after (s : ChoiceSystem σ α) : Call α → ChoiceSystem σ α
  | .newVariable name => (s.newVariable name).2
  | .registerVariable name v => (s.registerVariable name v).2
  | .addConjunctive c => (s.addConjunctive c).2
  | .addDisjunction label alternatives => (s.addDisjunction label alternatives).2
  | .setConfig config => s.setConfig config
  | .solve => s.solve.2

def afterAll (s : ChoiceSystem σ α) (calls : List (Call α)) : ChoiceSystem σ α :=
  calls.foldl after s

theorem afterAll_append (s : ChoiceSystem σ α) (calls later : List (Call α)) :
    s.afterAll (calls ++ later) = (s.afterAll calls).afterAll later := List.foldl_append

theorem afterAll_invariant_of {P : ChoiceSystem σ α → Prop} {Q : Call α → Prop}
    {s : ChoiceSystem σ α}
    (start : P s) (step : ∀ s call, Q call → P s → P (s.after call)) (calls : List (Call α))
    (all : ∀ call ∈ calls, Q call) : P (s.afterAll calls) := by
  induction calls generalizing s with
  | nil => exact start
  | cons call calls ih =>
    obtain ⟨own, others⟩ := List.forall_mem_cons.mp all
    exact ih (step s call own start) others

theorem afterAll_invariant {P : ChoiceSystem σ α → Prop} {s : ChoiceSystem σ α} (start : P s)
    (step : ∀ s call, P s → P (s.after call)) (calls : List (Call α)) : P (s.afterAll calls) :=
  afterAll_invariant_of (Q := fun _ => True) start (fun s call _ => step s call) calls
    fun _ _ => trivial

section Naming

variable (s : ChoiceSystem σ α)

/-- Naming a variable may move the backend, and otherwise only the registry changes. -/
theorem newVariable_cases (name : String) :
    (s.newVariable name).2 = s ∨
      ∃ registry, s.registry.register name (Backend.newVariable s.backend).1 = .ok registry ∧
        (s.newVariable name).2 =
          { s with backend := (Backend.newVariable s.backend).2, registry := registry } := by
  unfold newVariable
  split
  · exact Or.inl rfl
  · split
    · exact Or.inl rfl
    · next free =>
      have named := Registry.register_of_new (v := (Backend.newVariable s.backend).1)
        (Bool.eq_false_iff.mpr free)
      dsimp only
      rw [named]
      exact Or.inr ⟨_, rfl, rfl⟩

omit [BackendOver σ α] in
theorem registerVariable_cases (name : String) (v : Variable) :
    (s.registerVariable name v).2 = s ∨
      ∃ registry, s.registry.register name v = .ok registry ∧
        (s.registerVariable name v).2 = { s with registry := registry } := by
  unfold registerVariable
  split
  · exact Or.inl rfl
  · split
    · exact Or.inl rfl
    · next registry h => exact Or.inr ⟨registry, h, rfl⟩

omit [BackendOver σ α] in
/-- A disjunction is registered once its constraints were checked, and voids the values. -/
theorem addDisjunction_cases (label : Option String) (alternatives : List (Alternative α)) :
    (s.addDisjunction label alternatives).2 = s ∨
      ∃ d, d.alternatives = alternatives ∧ s.registry.checkAll d.constraints = .ok () ∧
        (s.addDisjunction label alternatives).2 =
          { s.clearValues with disjunctions := (s.disjunctions.add d).2 } := by
  unfold addDisjunction Disjunction.ofAlternatives
  split
  · exact Or.inl rfl
  · next d h =>
    split at h
    · contradiction
    · cases h
      unfold insertDisjunction
      split
      · exact Or.inl rfl
      · split
        · exact Or.inl rfl
        · next checked => exact Or.inr ⟨_, rfl, checked, rfl⟩

end Naming

/-- What keeps the kept alternatives from going is an error of the backend. -/
theorem solver_of_stuck {s s' : ChoiceSystem σ α} {e : SystemError}
    (run : s.retractKept = (.error e, s')) : ∃ e', e = .solver e' := by
  have answer : s.retractKept.1 = .error e := by rw [run]
  unfold retractKept at answer
  dsimp only at answer
  generalize (retractAll s.kept ⟨s.backend, s.pruner, Journal.empty⟩).1 = outcome at answer
  cases outcome with
  | error e' =>
    cases answer
    exact ⟨e', rfl⟩
  | ok _ => cases answer

section Constraints

variable (s : ChoiceSystem σ α) (c : Constraint α)

def extend : ChoiceSystem σ α :=
  match Backend.addConstraint s.backend c with
  | (.ok id, b) =>
    { s with
      backend := b
      baseline := ⟨s.baseline.held ++ [(c, id)]⟩
      pruner := s.pruner.commit [c] }
  | (.error e, b) => { s with backend := b, discarded := decide (e = .unsatisfiable) }

variable {s c}

theorem addConjunctive_of_refused {e : SystemError} (usable : s.discarded = false)
    (refused : s.registry.check c = .error e) : s.addConjunctive c = (.error e, s) := by
  unfold addConjunctive
  rw [if_neg (by simp [usable]), refused]

theorem addConjunctive_of_stuck {s' : ChoiceSystem σ α} {e : SystemError}
    (usable : s.discarded = false) (checked : s.registry.check c = .ok ())
    (run : s.retractKept = (.error e, s')) : s.addConjunctive c = (.error e, s') := by
  unfold addConjunctive
  rw [if_neg (by simp [usable]), checked, run]

theorem addConjunctive_of_retracted {s' : ChoiceSystem σ α} (usable : s.discarded = false)
    (checked : s.registry.check c = .ok ()) (run : s.retractKept = (.ok (), s')) :
    s.addConjunctive c =
      ((s'.baseline.add s'.backend s'.registry.clearValues c).1.map fun _ => (),
        s'.clearValues.extend c) := by
  have same : s'.clearValues.backend = s'.backend := rfl
  unfold addConjunctive
  rw [if_neg (by simp [usable]), checked]
  dsimp only
  rw [run]
  dsimp only
  unfold extend Baseline.add
  rw [same]
  cases Backend.addConstraint s'.backend c with
  | mk verdict b =>
    cases verdict with
    | ok id => rfl
    | error e => cases e <;> rfl

variable (s c)

/-- A permanent constraint is refused at once, or the kept alternatives go first. If they do not,
that is all; otherwise the values are void and the backend is asked. -/
theorem addConjunctive_cases :
    (s.addConjunctive c).2 = s ∨
    (s.discarded = false ∧ s.registry.check c = .ok () ∧
      ((∃ e s', s.retractKept = (.error e, s') ∧ (s.addConjunctive c).2 = s') ∨
        ∃ s', s.retractKept = (.ok (), s') ∧
          (s.addConjunctive c).2 = s'.clearValues.extend c)) := by
  cases gone : s.discarded with
  | true => exact Or.inl (by rw [addConjunctive, if_pos gone])
  | false =>
    cases checked : s.registry.check c with
    | error e => exact Or.inl (by rw [addConjunctive_of_refused gone checked])
    | ok _ =>
      refine Or.inr ⟨rfl, rfl, ?_⟩
      cases run : s.retractKept with
      | mk outcome s' =>
        cases outcome with
        | error e => exact Or.inl ⟨e, s', rfl, by rw [addConjunctive_of_stuck gone checked run]⟩
        | ok _ => exact Or.inr ⟨s', rfl, by rw [addConjunctive_of_retracted gone checked run]⟩

end Constraints

section Solving

variable (s : ChoiceSystem σ α)

def search : Search.Outcome × Search.State σ α :=
  Search.run ⟨s.config.stepLimit, s.registry.displayName⟩ (s.disjunctions.decisions s.config.order)
    s.backend s.pruner

def conclude (answer : Search.Outcome × Search.State σ α) :
    Except SystemError (SolveResult α) × ChoiceSystem σ α :=
  let s' := { s with backend := answer.2.backend, pruner := answer.2.pruner }
  match answer.1 with
  | .error e => (.error e, s')
  | .ok none =>
    (.ok (.unsatisfied
      ⟨answer.2.journal.traces (s.disjunctions.decisions s.config.order),
        answer.2.journal.stats⟩), s')
  | .ok (some commits) =>
    (.ok (.satisfied (s'.keep commits answer.2.journal.stats).1),
      (s'.keep commits answer.2.journal.stats).2)

theorem solve_of_retracted {s' : ChoiceSystem σ α} (usable : s.discarded = false)
    (run : s.retractKept = (.ok (), s')) :
    s.solve = s'.clearValues.conclude s'.clearValues.search := by
  unfold solve
  rw [if_neg (by simp [usable]), run]
  dsimp only
  unfold conclude search
  generalize Search.run (σ := σ) _ _ _ _ = answer
  obtain ⟨outcome, state⟩ := answer
  cases outcome with
  | error e => rfl
  | ok found => cases found <;> rfl

theorem solve_of_stuck {s' : ChoiceSystem σ α} {e : SystemError} (usable : s.discarded = false)
    (run : s.retractKept = (.error e, s')) : s.solve = (.error e, s') := by
  unfold solve
  rw [if_neg (by simp [usable]), run]

theorem solve_cases :
    (s.discarded = true ∧ s.solve = (.error .discarded, s)) ∨
    (s.discarded = false ∧ ∃ e s', s.retractKept = (.error e, s') ∧ s.solve = (.error e, s')) ∨
    (s.discarded = false ∧ ∃ s', s.retractKept = (.ok (), s') ∧
      s.solve = s'.clearValues.conclude s'.clearValues.search) := by
  cases gone : s.discarded with
  | true => exact Or.inl ⟨rfl, by rw [solve, if_pos gone]⟩
  | false =>
    right
    cases run : s.retractKept with
    | mk outcome s' =>
      cases outcome with
      | error e => exact Or.inl ⟨rfl, e, s', rfl, s.solve_of_stuck gone run⟩
      | ok _ => exact Or.inr ⟨rfl, s', rfl, s.solve_of_retracted gone run⟩

structure Framed (s s' : ChoiceSystem σ α) : Prop where
  names : s'.registry.names = s.registry.names
  baseline : s'.baseline = s.baseline
  disjunctions : s'.disjunctions = s.disjunctions
  config : s'.config = s.config
  discarded : s'.discarded = s.discarded

theorem framed_conclude (answer : Search.Outcome × Search.State σ α) :
    Framed s (s.conclude answer).2 := by
  obtain ⟨outcome, state⟩ := answer
  cases outcome with
  | error e => exact ⟨rfl, rfl, rfl, rfl, rfl⟩
  | ok found => cases found <;> exact ⟨rfl, rfl, rfl, rfl, rfl⟩

theorem backend_conclude (answer : Search.Outcome × Search.State σ α) :
    (s.conclude answer).2.backend = answer.2.backend := by
  obtain ⟨outcome, state⟩ := answer
  cases outcome with
  | error e => rfl
  | ok found => cases found <;> rfl

theorem framed_solve : Framed s s.solve.2 := by
  rcases s.solve_cases with ⟨-, result⟩ | ⟨-, e, s', run, result⟩ | ⟨-, s', run, result⟩
  · rw [result]
    exact ⟨rfl, rfl, rfl, rfl, rfl⟩
  all_goals
    obtain rfl : s.retractKept.2 = s' := congrArg Prod.snd run
    rw [result]
  · exact ⟨rfl, rfl, rfl, rfl, rfl⟩
  · have framed := framed_conclude s.retractKept.2.clearValues s.retractKept.2.clearValues.search
    exact ⟨framed.names, framed.baseline, framed.disjunctions, framed.config, framed.discarded⟩

end Solving

end ChoiceSystem

end LinearChoice
