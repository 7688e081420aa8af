import LinearChoice.Backend.Simplex
import LinearChoice.Proofs.ChoiceSystem.History

/-!
# Discarded systems

A system is discarded when an addition finds its baseline infeasible, and by
nothing else. From then on it refuses what it is asked and stays as it is; only
the configuration can still be changed. A disjunction without alternatives is
refused for that, before anyone looks whether the system can be used.
-/

set_option autoImplicit false

namespace LinearChoice

def SystemError.inAnswer? {α : Type} : Except SystemError α → Option SystemError
  | .error e => some e
  | .ok _ => none

theorem SystemError.inAnswer_eq_some {α : Type} {answer : Except SystemError α} {e : SystemError} :
    inAnswer? answer = some e ↔ answer = .error e := by
  cases answer <;> simp [inAnswer?]

namespace ChoiceSystem

open SystemError (inAnswer?)

namespace Call

variable {α : Type}

def isHollow : Call α → Bool
  | .addDisjunction _ alternatives => alternatives.isEmpty
  | .newVariable _ | .registerVariable _ _ | .addConjunctive _ | .setConfig _ | .solve => false

def isSetting : Call α → Bool
  | .setConfig _ => true
  | .newVariable _ | .registerVariable _ _ | .addConjunctive _ | .addDisjunction _ _ | .solve =>
    false

end Call

variable {σ α : Type} [ExtendedScalar α] [Numeral α] [BackendOver σ α] {s t : ChoiceSystem σ α}

def error? (s : ChoiceSystem σ α) : Call α → Option SystemError
  | .newVariable name => inAnswer? (s.newVariable name).1
  | .registerVariable name v => inAnswer? (s.registerVariable name v).1
  | .addConjunctive c => inAnswer? (s.addConjunctive c).1
  | .addDisjunction label alternatives => inAnswer? (s.addDisjunction label alternatives).1
  | .setConfig _ => none
  | .solve => inAnswer? s.solve.1

section Refusing

structure Refuses (s : ChoiceSystem σ α) (call : Call α) : Prop where
  answer : s.error? call = some (if call.isHollow then .emptyDisjunction else .discarded)
  unchanged : s.after call = s

theorem refuses_of_discarded (gone : s.discarded = true) {call : Call α}
    (asks : call.isSetting = false) : s.Refuses call := by
  cases call with
  | newVariable name =>
    have answer : s.newVariable name = (.error .discarded, s) := by rw [newVariable, if_pos gone]
    exact ⟨by rw [error?, answer]; rfl, by rw [after, answer]⟩
  | registerVariable name v =>
    have answer : s.registerVariable name v = (.error .discarded, s) := by
      rw [registerVariable, if_pos gone]
    exact ⟨by rw [error?, answer]; rfl, by rw [after, answer]⟩
  | addConjunctive c =>
    have answer : s.addConjunctive c = (.error .discarded, s) := by
      rw [addConjunctive, if_pos gone]
    exact ⟨by rw [error?, answer]; rfl, by rw [after, answer]⟩
  | addDisjunction label alternatives =>
    cases alternatives with
    | nil => exact ⟨rfl, rfl⟩
    | cons first rest =>
      have answer : s.addDisjunction label (first :: rest) = (.error .discarded, s) := by
        change s.insertDisjunction _ = _
        rw [insertDisjunction, if_pos gone]
      exact ⟨by rw [error?, answer]; rfl, by rw [after, answer]⟩
  | setConfig config => cases asks
  | solve =>
    have answer : s.solve = (.error .discarded, s) := by rw [solve, if_pos gone]
    exact ⟨by rw [error?, answer]; rfl, by rw [after, answer]⟩

/-- Nothing but a new configuration gets through to a discarded system. -/
theorem after_of_discarded (gone : s.discarded = true) (call : Call α) :
    (∃ config, call = .setConfig config) ∨ s.after call = s := by
  cases call with
  | setConfig config => exact Or.inl ⟨config, rfl⟩
  | newVariable | registerVariable | addConjunctive | addDisjunction | solve =>
    exact Or.inr (refuses_of_discarded gone rfl).unchanged

end Refusing

section Discarding

theorem not_condemned_of_refused {c : Constraint α} {e : SystemError}
    (usable : s.discarded = false) (refused : s.registry.check c = .error e) :
    s.condemned (.addConjunctive c) = false := by
  rw [condemned, addConjunctive_of_refused usable refused]
  unfold Registry.check at refused
  split at refused
  · cases refused
    rfl
  · cases refused

theorem not_condemned_of_stuck {c : Constraint α} {e : SystemError}
    (usable : s.discarded = false) (checked : s.registry.check c = .ok ())
    (run : s.retractKept = (.error e, t)) : s.condemned (.addConjunctive c) = false := by
  obtain ⟨e', rfl⟩ := solver_of_stuck run
  rw [condemned, addConjunctive_of_stuck usable checked run]

/-- An addition discards the system if and only if it finds the baseline infeasible. -/
theorem discarded_addConjunctive (usable : s.discarded = false) (c : Constraint α) :
    (s.addConjunctive c).2.discarded = s.condemned (.addConjunctive c) := by
  cases checked : s.registry.check c with
  | error e =>
    rw [not_condemned_of_refused usable checked, addConjunctive_of_refused usable checked]
    exact usable
  | ok _ =>
    have kept : s.retractKept.2.discarded = false := usable
    cases run : s.retractKept with
    | mk outcome s' =>
      rw [run] at kept
      cases outcome with
      | error e =>
        rw [not_condemned_of_stuck usable checked run, addConjunctive_of_stuck usable checked run]
        exact kept
      | ok _ =>
        have there : s'.clearValues.backend = s'.backend := rfl
        rw [condemned, addConjunctive_of_retracted usable checked run, extend, Baseline.add, there]
        cases Backend.addConstraint s'.backend c with
        | mk verdict b =>
          cases verdict with
          | ok id => exact kept
          | error e => cases e <;> rfl

theorem discarded_after (s : ChoiceSystem σ α) (call : Call α) :
    (s.after call).discarded = (s.discarded || s.condemned call) := by
  cases gone : s.discarded with
  | true =>
    rcases after_of_discarded gone call with ⟨config, rfl⟩ | same
    · exact gone
    · rw [same, gone, Bool.true_or]
  | false =>
    rw [Bool.false_or]
    cases call with
    | addConjunctive c => exact discarded_addConjunctive gone c
    | newVariable | registerVariable | addDisjunction | setConfig | solve =>
      exact usable_after gone rfl

/-- A system is discarded once one of the calls found its baseline infeasible. -/
theorem discarded_afterAll (s : ChoiceSystem σ α) (calls : List (Call α)) :
    (s.afterAll calls).discarded = (s.discarded || !s.spared calls) := by
  induction calls generalizing s with
  | nil => simp [afterAll, spared]
  | cons call calls ih =>
    change ((s.after call).afterAll calls).discarded = _
    rw [ih, discarded_after, spared, Bool.not_and, Bool.not_not, Bool.or_assoc]

end Discarding

section Retiring

def Voided (s : ChoiceSystem σ α) : Prop := s.discarded = true → s.registry.solved = Table.empty

omit [ExtendedScalar α] [Numeral α] [BackendOver σ α] in
theorem Voided.of_usable (usable : s.discarded = false) : Voided s := fun gone => by
  rw [usable] at gone
  cases gone

theorem Voided.after (h : Voided s) (call : Call α) : Voided (s.after call) := by
  cases gone : s.discarded with
  | true =>
    rcases after_of_discarded gone call with ⟨config, rfl⟩ | same
    · exact h
    · rw [same]
      exact h
  | false =>
    cases call with
    | addConjunctive c =>
      rcases s.addConjunctive_cases c with
        same | ⟨-, -, ⟨e, s', run, result⟩ | ⟨s', run, result⟩⟩
      · rw [ChoiceSystem.after, same]
        exact h
      · have kept : s'.discarded = false := by
          rw [← gone, show s' = s.retractKept.2 by rw [run]]
          rfl
        rw [ChoiceSystem.after, result]
        exact .of_usable kept
      · rw [ChoiceSystem.after, result]
        intro _
        unfold extend
        split <;> rfl
    | newVariable | registerVariable | addDisjunction | setConfig | solve =>
      exact .of_usable (usable_after gone rfl)

structure Retired (s t : ChoiceSystem σ α) : Prop where
  backend : t.backend = s.backend
  registry : t.registry = s.registry
  baseline : t.baseline = s.baseline
  disjunctions : t.disjunctions = s.disjunctions
  values : t.values = []
  refuses : ∀ call : Call α, call.isSetting = false → t.Refuses call

theorem retired_refl (gone : s.discarded = true) (void : Voided s) : Retired s s := by
  refine ⟨rfl, rfl, rfl, rfl, ?_, fun call asks => refuses_of_discarded gone asks⟩
  rw [values, List.eq_nil_iff_forall_not_mem]
  rintro ⟨name, x⟩ shown
  obtain ⟨v, -, found⟩ := Registry.value_eq_ok_iff.mp (Registry.mem_values.mp shown)
  rw [void gone] at found
  cases found

theorem retired_afterAll (gone : s.discarded = true) (void : Voided s) (later : List (Call α)) :
    Retired s (s.afterAll later) := by
  induction later generalizing s with
  | nil => exact retired_refl gone void
  | cons call later ih =>
    have retired : Retired (s.after call) (s.afterAll (call :: later)) :=
      ih (by rw [discarded_after, gone, Bool.true_or]) (void.after call)
    rcases after_of_discarded gone call with ⟨config, rfl⟩ | same
    · exact ⟨retired.backend, retired.registry, retired.baseline, retired.disjunctions,
        retired.values, retired.refuses⟩
    · rw [same] at retired
      exact retired

end Retiring

theorem condemned_iff {call : Call α} : s.condemned call = true ↔
    ∃ c text, call = .addConjunctive c ∧
      (s.addConjunctive c).1 = .error (.baselineInfeasible text) := by
  constructor
  · intro found
    cases call with
    | addConjunctive c =>
      simp only [condemned] at found
      split at found
      · next text answer => exact ⟨c, text, rfl, answer⟩
      · contradiction
    | newVariable | registerVariable | addDisjunction | setConfig | solve => cases found
  · rintro ⟨c, text, rfl, answer⟩
    rw [condemned, answer]

theorem spared_eq_false_iff {calls : List (Call α)} : s.spared calls = false ↔
    ∃ before c later text, calls = before ++ .addConjunctive c :: later ∧
      ((s.afterAll before).addConjunctive c).1 = .error (.baselineInfeasible text) := by
  induction calls generalizing s with
  | nil => simp [spared]
  | cons call calls ih =>
    rw [spared, Bool.and_eq_false_iff, Bool.not_eq_false', condemned_iff, ih]
    constructor
    · rintro (⟨c, text, rfl, answer⟩ | ⟨before, c, later, text, rfl, answer⟩)
      · exact ⟨[], c, calls, text, rfl, answer⟩
      · exact ⟨call :: before, c, later, text, rfl, answer⟩
    · rintro ⟨before, c, later, text, split, answer⟩
      cases before with
      | nil =>
        cases split
        exact Or.inl ⟨c, text, rfl, answer⟩
      | cons first before =>
        cases split
        exact Or.inr ⟨before, c, later, text, rfl, answer⟩

structure Discards (s : ChoiceSystem σ α) (calls : List (Call α)) : Prop where
  cause : (s.afterAll calls).discarded = true ↔
    ∃ before c later text, calls = before ++ .addConjunctive c :: later ∧
      ((s.afterAll before).addConjunctive c).1 = .error (.baselineInfeasible text)
  forever : (s.afterAll calls).discarded = true →
    ∀ later, Retired (s.afterAll calls) (s.afterAll (calls ++ later))

/-- On any backend, only a baseline that was found infeasible discards a system, and that for good.
Every later call that asks for something is refused and changes nothing. It is told that the system
is discarded, unless what it brings is a disjunction without alternatives. -/
theorem discards_afterAll (b : σ) (config : Config) (calls : List (Call α)) :
    Discards (ofBackend b config) calls := by
  have void : Voided ((ofBackend b config).afterAll calls) :=
    afterAll_invariant (Voided.of_usable rfl) (fun _ call h => h.after call) calls
  refine ⟨?_, fun gone later => ?_⟩
  · rw [← spared_eq_false_iff, discarded_afterAll]
    change (false || _) = true ↔ _
    rw [Bool.false_or, Bool.not_eq_true']
  · rw [afterAll_append]
    exact retired_afterAll gone void later

/-- A discarded system that answers something else. -/
theorem hollow_discarded :
    let s : ChoiceSystem (Solver Float) := (ofBackend Solver.empty .standard).afterAll
      [.newVariable "x", .addConjunctive (.relate (.ofVariable ⟨0⟩) .atLeast 1)]
    let c : Constraint Float := .relate (.ofVariable ⟨0⟩) .atMost 0
    s.condemned (.addConjunctive c) = true ∧
    (s.addConjunctive c).2.error? (.addDisjunction none [[]]) = some .discarded ∧
    (s.addConjunctive c).2.error? (.addDisjunction none []) = some .emptyDisjunction := by
  decide +kernel

end ChoiceSystem

end LinearChoice
