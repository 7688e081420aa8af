import LinearChoice.Proofs.ChoiceSystem.Runs
import LinearChoice.Proofs.Search.Custody

/-!
# Custody of a system

Between two calls a system is in charge of its baseline and of the alternatives
that it kept from the last successful solve, and of nothing else.
-/

set_option autoImplicit false
set_option linter.unusedSectionVars false

namespace LinearChoice.ChoiceSystem

open Search (Carried Returned)

variable {σ α : Type} [ExtendedScalar α] [Numeral α] [BackendOver σ α]

def Guards (K : Custody σ) (s : ChoiceSystem σ α) : Prop :=
  ∃ Qs : List (List (Entry α)), s.kept.map Commit.constraints = Qs.map (List.map Prod.fst) ∧
    K.owns (Qs.flatten + s.baselineEntries) s.backend

inductive Grown (K : Custody σ) (s : ChoiceSystem σ α) (c : Constraint α) : ChoiceSystem σ α → Prop
  | refused : Grown K s c s
  | blocked {kept : List Commit} {backend : σ} {pruner : Pruner α}
      (usable : s.discarded = false)
      (guards : Guards K { s with kept := kept, backend := backend, pruner := pruner }) :
      Grown K s c { s with kept := kept, backend := backend, pruner := pruner }
  | taken {id : ConstraintId} {backend : σ} {pruner : Pruner α}
      (usable : s.discarded = false) (checked : s.registry.check c = .ok ())
      (owned : K.owns ((id, c) ::ₘ s.baselineEntries) backend) :
      Grown K s c
        { s.clearValues with
          kept := []
          backend := backend
          baseline := ⟨s.baseline.held ++ [(c, id)]⟩
          pruner := pruner }
  | failed {backend : σ} {pruner : Pruner α} {discarded : Bool}
      (owned : K.owns s.baselineEntries backend) :
      Grown K s c
        { s.clearValues with
          kept := [], backend := backend, pruner := pruner, discarded := discarded }

inductive Solved (K : Custody σ) (s : ChoiceSystem σ α) :
    Except SystemError (SolveResult α) × ChoiceSystem σ α → Prop
  | discarded (gone : s.discarded = true) : Solved K s (.error .discarded, s)
  | blocked {e : SystemError} {kept : List Commit} {backend : σ} {pruner : Pruner α}
      (usable : s.discarded = false)
      (stuck : s.retractKept =
        (.error e, { s with kept := kept, backend := backend, pruner := pruner }))
      (guards : Guards K { s with kept := kept, backend := backend, pruner := pruner }) :
      Solved K s (.error e, { s with kept := kept, backend := backend, pruner := pruner })
  | nothing {reply : Except SystemError (SolveResult α)} {backend : σ} {pruner : Pruner α}
      (unsolved : ∀ solution, reply ≠ .ok (.satisfied solution))
      (owned : K.owns s.baselineEntries backend) :
      Solved K s (reply, { s.clearValues with kept := [], backend := backend, pruner := pruner })
  | found {commits : List Commit} {Qs : List (List (Entry α))} {backend : σ} {pruner : Pruner α}
      {stats : Stats} (usable : s.discarded = false)
      (carried : Carried (s.disjunctions.decisions s.config.order) commits Qs)
      (owned : K.owns (Qs.flatten + s.baselineEntries) backend)
      (last : ∃ b, Backend.updateVariables b = (.ok (), backend)) :
      Solved K s
        (.ok (.satisfied (({ s.clearValues with kept := [], backend := backend, pruner := pruner } :
          ChoiceSystem σ α).keep commits stats).1),
        (({ s.clearValues with kept := [], backend := backend, pruner := pruner } :
          ChoiceSystem σ α).keep commits stats).2)

variable {K : Custody σ} {s : ChoiceSystem σ α} {P : Multiset (Entry α)}

theorem guards_of_kept_nil {s : ChoiceSystem σ α} (none : s.kept = [])
    (owned : K.owns s.baselineEntries s.backend) : Guards K s :=
  ⟨[], by rw [none]; rfl, by simpa using owned⟩

theorem Guards.owns_baseline (h : Guards K s) (none : s.kept = []) :
    K.owns s.baselineEntries s.backend := by
  obtain ⟨Qs, ids, owned⟩ := h
  have empty : Qs = [] := by simpa [none] using ids
  simpa [empty] using owned

/-- Layers come off from the last one down; where one is stuck, those below it stay. -/
theorem owns_retractAll (layers : List Commit) {Qs : List (List (Entry α))}
    (ids : layers.map Commit.constraints = Qs.map (List.map Prod.fst)) (state : Search.State σ α)
    (h : K.owns (Qs.flatten + P) state.backend) :
    ∃ (outcome : Except SolverError Unit) (kept : List Commit) (state' : Search.State σ α)
      (Qs' : List (List (Entry α))), retractAll layers state = (outcome, kept, state') ∧
      kept.map Commit.constraints = Qs'.map (List.map Prod.fst) ∧
      K.owns (Qs'.flatten + P) state'.backend ∧ (outcome = .ok () → kept = []) := by
  induction layers generalizing Qs state with
  | nil => exact ⟨_, _, _, Qs, rfl, ids, h, fun _ => rfl⟩
  | cons c layers ih =>
    cases Qs with
    | nil => simp at ids
    | cons Q Qs =>
      rw [List.map_cons, List.map_cons, List.cons.injEq] at ids
      rw [List.flatten_cons, ← Multiset.coe_add, add_assoc] at h
      have held := Search.owns_retract h ids.1
      cases run : state.retract c with
      | mk outcome state₁ =>
        rw [run] at held
        cases outcome with
        | error e =>
          exact ⟨.error e, layers, state₁, Qs, by simp only [retractAll, run], ids.2, held, nofun⟩
        | ok _ =>
          obtain ⟨outcome, kept, state', Qs', runs, ids', held', done⟩ := ih ids.2 state₁ held
          have all : retractAll (c :: layers) state = (outcome, kept, state') := by
            simp only [retractAll, run, runs]
          exact ⟨outcome, kept, state', Qs', all, ids', held', done⟩

theorem Guards.retractKept (h : Guards K s) :
    ∃ outcome kept backend pruner, s.retractKept =
        (outcome, { s with kept := kept, backend := backend, pruner := pruner }) ∧
      Guards K { s with kept := kept, backend := backend, pruner := pruner } ∧
      (outcome = .ok () → kept = []) := by
  obtain ⟨Qs, ids, owned⟩ := h
  obtain ⟨outcome, kept, state, Qs', run, ids', owned', done⟩ :=
    owns_retractAll s.kept ids ⟨s.backend, s.pruner, Journal.empty⟩ owned
  refine ⟨outcome.mapError .solver, kept, state.backend, state.pruner,
    by simp only [ChoiceSystem.retractKept, run], ⟨Qs', ids', owned'⟩, fun ok => done ?_⟩
  cases outcome with
  | error e => contradiction
  | ok _ => rfl

theorem grown (h : Guards K s) (c : Constraint α) : Grown K s c (s.addConjunctive c).2 := by
  obtain ⟨outcome, kept, backend, pruner, run, guards, done⟩ := h.retractKept
  rcases s.addConjunctive_cases c with
    same | ⟨usable, checked, ⟨e, s₁, run', result⟩ | ⟨s₁, run', result⟩⟩
  · rw [same]
    exact .refused
  all_goals
    rw [run] at run'
    cases run'
    rw [result]
  · exact .blocked usable guards
  · have none := done rfl
    subst none
    have owned : K.owns s.baselineEntries backend := guards.owns_baseline rfl
    unfold extend
    have ask : (({ s with kept := [], backend := backend, pruner := pruner } :
      ChoiceSystem σ α).clearValues).backend = backend := rfl
    rw [ask]
    cases add : Backend.addConstraint backend c with
    | mk verdict b =>
      cases verdict with
      | ok id => exact .taken usable checked (K.add_ok _ _ _ _ _ owned add)
      | error e => exact .failed (K.add_error _ _ _ _ _ owned add)

theorem solved (h : Guards K s) : Solved K s s.solve := by
  obtain ⟨outcome, kept, backend, pruner, run, guards, done⟩ := h.retractKept
  rcases s.solve_cases with
    ⟨gone, result⟩ | ⟨usable, e, s₁, run', result⟩ | ⟨usable, s₁, run', result⟩
  · rw [result]
    exact .discarded gone
  · rw [run] at run'
    cases run'
    rw [result]
    exact .blocked usable run guards
  · rw [run] at run'
    cases run'
    rw [result]
    have none := done rfl
    subst none
    have owned : K.owns s.baselineEntries backend := guards.owns_baseline rfl
    have returned := Search.returned_explore
      ⟨s.config.stepLimit, s.registry.clearValues.displayName⟩ ⟨backend, pruner, Journal.empty⟩
      (s.disjunctions.decisions s.config.order) 0 owned
    unfold search Search.run
    dsimp only [clearValues]
    generalize Search.explore (σ := σ) _ _ _ _ = answer at returned ⊢
    cases returned with
    | found carried owned' last => exact .found usable carried owned' last
    | exhausted owned' => exact .nothing nofun owned'
    | aborted owned' => exact .nothing nofun owned'

theorem Guards.after (h : Guards K s) (call : Call α) : Guards K (s.after call) := by
  cases call with
  | newVariable name =>
    rcases s.newVariable_cases name with same | ⟨registry, -, moved⟩
    · rwa [ChoiceSystem.after, same]
    · obtain ⟨Qs, ids, owned⟩ := h
      rw [ChoiceSystem.after, moved]
      exact ⟨Qs, ids, K.newVariable _ _ owned⟩
  | registerVariable name v =>
    rcases s.registerVariable_cases name v with same | ⟨registry, -, moved⟩
    · rwa [ChoiceSystem.after, same]
    · rw [ChoiceSystem.after, moved]
      exact h
  | addConjunctive c =>
    have grown := grown h c
    rw [ChoiceSystem.after]
    generalize (s.addConjunctive c).2 = s' at grown ⊢
    cases grown with
    | refused => exact h
    | blocked usable guards => exact guards
    | @taken id backend pruner usable checked owned =>
      apply guards_of_kept_nil rfl
      have entries : List.map Prod.swap (s.baseline.held ++ [(c, id)]) =
          s.baselineEntries ++ [(id, c)] := by simp [baselineEntries]
      change K.owns (List.map Prod.swap (s.baseline.held ++ [(c, id)]) : List (Entry α)) _
      rwa [entries, ← Multiset.coe_add, Multiset.coe_singleton, add_comm, Multiset.singleton_add]
    | failed owned => exact guards_of_kept_nil rfl owned
  | addDisjunction label alternatives =>
    rcases s.addDisjunction_cases label alternatives with same | ⟨d, -, -, moved⟩
    · rwa [ChoiceSystem.after, same]
    · rw [ChoiceSystem.after, moved]
      exact h
  | setConfig config => exact h
  | solve =>
    have solved := solved h
    rw [ChoiceSystem.after]
    generalize s.solve = answer at solved ⊢
    cases solved with
    | discarded => exact h
    | blocked usable stuck guards => exact guards
    | nothing unsolved owned => exact guards_of_kept_nil rfl owned
    | @found commits Qs backend pruner stats usable carried owned last =>
      refine ⟨Qs.reverse, ?_, ?_⟩
      · change commits.reverse.map Commit.constraints = _
        rw [List.map_reverse, List.map_reverse, carried.ids]
      · have same : (Qs.reverse.flatten : Multiset (Entry α)) = Qs.flatten :=
          Multiset.coe_eq_coe.mpr (List.reverse_perm Qs).flatten
        rw [same]
        exact owned

theorem guards_afterAll (b : σ) (start : K.owns 0 b) (config : Config) (calls : List (Call α)) :
    Guards K ((ofBackend b config).afterAll calls) :=
  afterAll_invariant (guards_of_kept_nil rfl start) (fun _ call h => h.after call) calls

end LinearChoice.ChoiceSystem
