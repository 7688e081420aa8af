import LinearChoice.Proofs.ChoiceSystem.Discarded
import LinearChoice.Proofs.ChoiceSystem.Origin

/-!
# Mistakes of the caller

What is wrong with a call can be told from the call and the names alone. A
system looks for it before it does anything, so a call that fails by a mistake
leaves the whole system as it was, the backend included.
-/

set_option autoImplicit false

namespace LinearChoice.ChoiceSystem

variable {α : Type}

open SystemError (inAnswer? inAnswer_eq_some)

def Call.mistake? (r : Registry α) : Call α → Option SystemError
  | .newVariable name | .registerVariable name _ =>
    if (r.handle? name).isSome then some (.duplicateVariable name) else none
  | .addConjunctive c => (r.stranger? [c]).map .unregisteredHandle
  | .addDisjunction _ alternatives =>
    if alternatives.isEmpty then some .emptyDisjunction
    else (r.stranger? alternatives.flatten).map .unregisteredHandle
  | .setConfig _ | .solve => none

theorem Call.configuration_of_mistake {r : Registry α} {call : Call α} {e : SystemError}
    (found : call.mistake? r = some e) : e.isConfiguration = true := by
  cases call with
  | newVariable name | registerVariable name _ =>
    obtain ⟨-, same⟩ := Option.ite_none_right_eq_some.mp found
    cases same
    rfl
  | addConjunctive c =>
    obtain ⟨v, -, rfl⟩ := Option.map_eq_some_iff.mp found
    rfl
  | addDisjunction label alternatives =>
    simp only [mistake?] at found
    split at found
    · cases found
      rfl
    · obtain ⟨v, -, rfl⟩ := Option.map_eq_some_iff.mp found
      rfl
  | setConfig | solve => cases found

variable {σ : Type} [ExtendedScalar α] [Numeral α] [BackendOver σ α] {s : ChoiceSystem σ α}

inductive Answered (s : ChoiceSystem σ α) (call : Call α) : Prop
  | mistaken {e : SystemError} (mistake : call.mistake? s.registry = some e)
      (answer : s.error? call = some e) (unchanged : s.after call = s)
  | blameless (proper : call.mistake? s.registry = none)
      (answer : ∀ e, s.error? call = some e → e.isConfiguration = false)

theorem Answered.of_refused {β : Type} {answer : Except SystemError β × ChoiceSystem σ α}
    {call : Call α}
    {e : SystemError} (mistake : call.mistake? s.registry = some e) (run : answer = (.error e, s))
    (error : s.error? call = inAnswer? answer.1) (after : s.after call = answer.2) :
    Answered s call := by
  rw [run] at error after
  exact .mistaken mistake error after

theorem answered_newVariable (usable : s.discarded = false) (name : String) :
    Answered s (.newVariable name) := by
  cases taken : (s.registry.handle? name).isSome with
  | true =>
    have run : s.newVariable name = (.error (.duplicateVariable name), s) := by
      rw [newVariable, if_neg (by simp [usable]), if_pos taken]
    exact .of_refused (if_pos taken) run rfl rfl
  | false =>
    refine .blameless (if_neg (by simp [taken])) ?_
    intro e failed
    rw [error?, newVariable, if_neg (by simp [usable]), if_neg (by simp [taken])] at failed
    dsimp only at failed
    rw [Registry.register_of_new taken] at failed
    cases failed

theorem answered_registerVariable (usable : s.discarded = false) (name : String) (v : Variable) :
    Answered s (.registerVariable name v) := by
  cases taken : (s.registry.handle? name).isSome with
  | true =>
    have refused : s.registry.register name v = .error (.duplicateVariable name) := if_pos taken
    have run : s.registerVariable name v = (.error (.duplicateVariable name), s) := by
      rw [registerVariable, if_neg (by simp [usable]), refused]
    exact .of_refused (if_pos taken) run rfl rfl
  | false =>
    refine .blameless (if_neg (by simp [taken])) ?_
    intro e failed
    rw [error?, registerVariable, if_neg (by simp [usable]),
      Registry.register_of_new taken] at failed
    cases failed

theorem blameless_add {b : Baseline α} {backend : σ} {r : Registry α} {c : Constraint α}
    {e : SystemError} (failed : (b.add backend r c).1 = .error e) : e.isConfiguration = false := by
  unfold Baseline.add at failed
  split at failed
  · cases failed
  · cases failed
    rfl
  · cases failed
    rfl

/-- Once the constraint is checked, only the backend can still fail. -/
theorem answered_addConjunctive (usable : s.discarded = false) (c : Constraint α) :
    Answered s (.addConjunctive c) := by
  have checked := s.registry.check_eq c
  cases stranger : s.registry.stranger? [c] with
  | some v =>
    rw [stranger] at checked
    have mistake : Call.mistake? s.registry (.addConjunctive c) =
        some (.unregisteredHandle v) := by
      rw [Call.mistake?, stranger]
      rfl
    exact .of_refused mistake (addConjunctive_of_refused usable checked) rfl rfl
  | none =>
    rw [stranger] at checked
    refine .blameless (by rw [Call.mistake?, stranger]; rfl) ?_
    intro e failed
    have failed := inAnswer_eq_some.mp failed
    -- From here on the state has changed, but no mistake is looked for any more.
    cases retracted : s.retractKept with
    | mk outcome s' =>
      cases outcome with
      | error e' =>
        rw [addConjunctive_of_stuck usable checked retracted] at failed
        obtain ⟨e'', rfl⟩ := solver_of_stuck retracted
        cases failed
        rfl
      | ok _ =>
        rw [addConjunctive_of_retracted usable checked retracted] at failed
        cases added : (s'.baseline.add s'.backend s'.registry.clearValues c).1 with
        | ok id =>
          rw [added] at failed
          cases failed
        | error e' =>
          rw [added] at failed
          cases failed
          exact blameless_add added

theorem answered_addDisjunction (usable : s.discarded = false) (label : Option String)
    (alternatives : List (Alternative α)) : Answered s (.addDisjunction label alternatives) := by
  cases alternatives with
  | nil => exact .mistaken rfl rfl rfl
  | cons first rest =>
    have run : s.addDisjunction label (first :: rest) =
        s.insertDisjunction ⟨label, first :: rest, List.cons_ne_nil first rest⟩ := rfl
    have checked := s.registry.checkAll_eq (first :: rest).flatten
    cases stranger : s.registry.stranger? (first :: rest).flatten with
    | some v =>
      rw [stranger] at checked
      have refused : s.addDisjunction label (first :: rest) =
          (.error (.unregisteredHandle v), s) := by
        rw [run, insertDisjunction, if_neg (by simp [usable]), Disjunction.constraints, checked]
      have mistake : Call.mistake? s.registry (.addDisjunction label (first :: rest)) =
          some (.unregisteredHandle v) := by
        rw [Call.mistake?, stranger]
        rfl
      exact .of_refused mistake refused rfl rfl
    | none =>
      rw [stranger] at checked
      refine .blameless ?_ ?_
      · rw [Call.mistake?, stranger]
        rfl
      · intro e failed
        rw [error?, run, insertDisjunction, if_neg (by simp [usable]), Disjunction.constraints,
          checked] at failed
        cases failed

theorem blameless_solve {e : SystemError} (failed : s.solve.1 = .error e) :
    e.isConfiguration = false := by
  have overheard := s.solve_overheard.trans failed
  rcases origin_solve overheard with ⟨rfl, -⟩ | ⟨-⟩ | ⟨-⟩ <;> rfl

theorem answered (usable : s.discarded = false) (call : Call α) : Answered s call := by
  cases call with
  | newVariable name => exact answered_newVariable usable name
  | registerVariable name v => exact answered_registerVariable usable name v
  | addConjunctive c => exact answered_addConjunctive usable c
  | addDisjunction label alternatives => exact answered_addDisjunction usable label alternatives
  | setConfig config => exact .blameless rfl nofun
  | solve => exact .blameless rfl fun e failed => blameless_solve (inAnswer_eq_some.mp failed)

theorem Answered.unchanged {call : Call α} (h : Answered s call) {e : SystemError}
    (failed : s.error? call = some e) (configuration : e.isConfiguration = true) :
    s.after call = s := by
  cases h with
  | mistaken _ _ unchanged => exact unchanged
  | blameless _ answer => exact absurd configuration (by simp [answer e failed])

theorem Answered.mistake_iff {call : Call α} (h : Answered s call) (e : SystemError) :
    (s.error? call = some e ∧ e.isConfiguration = true) ↔ call.mistake? s.registry = some e := by
  cases h with
  | mistaken found answer _ =>
    rw [found, answer]
    constructor
    · exact fun h => h.1
    · exact fun h => ⟨h, Call.configuration_of_mistake (found.trans h)⟩
  | blameless proper answer =>
    rw [proper]
    constructor
    · rintro ⟨failed, configuration⟩
      exact absurd configuration (by simp [answer e failed])
    · exact nofun

omit [ExtendedScalar α] [Numeral α] in
/-- The search for a stranger goes through every alternative to its end. -/
theorem mistake_of_unnamed {r : Registry α} (label : Option String)
    {alternatives : List (Alternative α)}
    (unnamed : ∃ alternative ∈ alternatives, ∃ c ∈ alternative, ∃ v ∈ c.support,
      r.contains v = false) : ∃ e, Call.mistake? r (.addDisjunction label alternatives) = some e := by
  obtain ⟨alternative, ha, c, hc, v, hv, missing⟩ := unnamed
  have some : alternatives.isEmpty = false :=
    List.isEmpty_eq_false_iff_exists_mem.mpr ⟨alternative, ha⟩
  have stranger : (r.stranger? alternatives.flatten).isSome = true :=
    Registry.stranger_isSome_iff.mpr ⟨c, List.mem_flatten.mpr ⟨alternative, ha, hc⟩, v, hv, missing⟩
  obtain ⟨w, found⟩ := Option.isSome_iff_exists.mp stranger
  refine ⟨.unregisteredHandle w, ?_⟩
  rw [Call.mistake?, some, found]
  rfl

structure Forbearing (s : ChoiceSystem σ α) : Prop where
  unchanged : ∀ call e, s.error? call = some e → e.isConfiguration = true → s.after call = s
  noticed : s.discarded = false → ∀ call e,
    (s.error? call = some e ∧ e.isConfiguration = true) ↔ call.mistake? s.registry = some e
  refused : ∀ label (alternatives : List (Alternative α)),
    (∃ alternative ∈ alternatives, ∃ c ∈ alternative, ∃ v ∈ c.support,
      s.registry.contains v = false) →
    (s.error? (.addDisjunction label alternatives)).isSome = true ∧
      s.after (.addDisjunction label alternatives) = s

/-- A call that fails by a mistake of the caller changes nothing, on any backend and in any state.
-/
theorem forbearing (s : ChoiceSystem σ α) : Forbearing s := by
  refine ⟨?_, fun usable call e => (answered usable call).mistake_iff e, ?_⟩
  · intro call e failed configuration
    cases gone : s.discarded with
    | true =>
      -- The configuration can still be set, but that never fails.
      rcases after_of_discarded gone call with ⟨config, rfl⟩ | same
      · cases failed
      · exact same
    | false => exact (answered gone call).unchanged failed configuration
  · intro label alternatives unnamed
    cases gone : s.discarded with
    | true =>
      have refuses : s.Refuses (.addDisjunction label alternatives) :=
        refuses_of_discarded gone rfl
      exact ⟨by rw [refuses.answer]; rfl, refuses.unchanged⟩
    | false =>
      have answers := answered gone (.addDisjunction label alternatives)
      obtain ⟨e, mistake⟩ := mistake_of_unnamed label unnamed
      obtain ⟨failed, configuration⟩ := (answers.mistake_iff e).mpr mistake
      exact ⟨by rw [failed]; rfl, answers.unchanged failed configuration⟩

def settled : ChoiceSystem (Solver Float) :=
  (ofBackend Solver.empty .standard).afterAll
    [.newVariable "x", .addConjunctive (.relate (.ofVariable ⟨0⟩) .atLeast 1),
      .addDisjunction none [[.relate (.ofVariable ⟨0⟩) .atMost 0],
        [.relate (.ofVariable ⟨0⟩) .atMost 5]], .solve]

def obscure : List Alternative :=
  [[], [.relate (.ofVariable ⟨0⟩) .atMost 3, .relate (.sum [(⟨0⟩, 1), (⟨7⟩, 2)]) .atLeast 4]]

/-- A system with solved values and a kept alternative. -/
theorem forbearing_settled :
    (settled.kept.length, settled.values.length, settled.backend.constraintCount) = (1, 1, 2) ∧
    settled.error? (.newVariable "x") = some (.duplicateVariable "x") ∧
    settled.after (.newVariable "x") = settled ∧
    settled.error? (.addDisjunction none obscure) = some (.unregisteredHandle ⟨7⟩) ∧
    settled.after (.addDisjunction none obscure) = settled := by
  have state : (settled.kept.length, settled.values.length,
      settled.backend.constraintCount) = (1, 1, 2) := by decide +kernel
  have taken : settled.error? (.newVariable "x") = some (.duplicateVariable "x") := by
    decide +kernel
  have unknown : settled.error? (.addDisjunction none obscure) =
      some (.unregisteredHandle ⟨7⟩) := by decide +kernel
  exact ⟨state, taken, (forbearing settled).unchanged _ _ taken rfl, unknown,
    (forbearing settled).unchanged _ _ unknown rfl⟩

end LinearChoice.ChoiceSystem
