import LinearChoice.Proofs.Backend.Recorded
import LinearChoice.Proofs.ChoiceSystem.Runs

/-!
# Backends that follow

A map between backends that goes along with every call takes a run of a system
to the same run on the other side. So a record may be kept of what is asked of
a backend, and the run is the one that there would have been without it.
-/

set_option autoImplicit false
set_option linter.unusedSectionVars false

namespace LinearChoice

variable {σ τ α : Type} [BackendOver σ α] [BackendOver τ α] {f : σ → τ}

structure Backend.Follows (f : σ → τ) : Prop where
  newVariable : ∀ b, newVariable (f b) = (newVariable b).map id f
  addConstraint : ∀ b c, addConstraint (f b) c = (addConstraint b c).map id f
  removeConstraint : ∀ b id', removeConstraint (f b) id' = (removeConstraint b id').map id f
  updateVariables : ∀ b, updateVariables (f b) = (updateVariables b).map id f
  value : ∀ b, value (f b) = value b

theorem Recorded.follows : Backend.Follows (Recorded.inner (σ := σ)) where
  newVariable _ := rfl
  addConstraint r c := by
    simp only [Backend.addConstraint]
    cases Backend.addConstraint r.inner c with
    | mk outcome b => cases outcome <;> rfl
  removeConstraint r id := by
    simp only [Backend.removeConstraint]
    cases Backend.removeConstraint r.inner id with
    | mk outcome b => cases outcome <;> rfl
  updateVariables _ := rfl
  value _ := rfl

namespace Backend.Follows

variable (h : Backend.Follows f)
include h

theorem removeAll (ids : List ConstraintId) (b : σ) :
    Backend.removeAll ids (f b) = (Backend.removeAll ids b).map id f := by
  induction ids generalizing b with
  | nil => rfl
  | cons id ids ih =>
    simp only [Backend.removeAll, h.removeConstraint, Prod.map_fst, Prod.map_snd, ih, id_eq]
    cases (Backend.removeConstraint b id).1 <;> rfl

theorem addAll (added : List ConstraintId) (cs : List (Constraint α)) (b : σ) :
    Backend.addAll added cs (f b) = (Backend.addAll added cs b).map id f := by
  induction cs generalizing added b with
  | nil => rfl
  | cons c cs ih =>
    simp only [Backend.addAll, h.addConstraint]
    cases Backend.addConstraint b c with
    | mk outcome b₁ =>
      cases outcome with
      | ok id => exact ih (id :: added) b₁
      | error e => rfl

end Backend.Follows

namespace Search

def State.map (f : σ → τ) (s : State σ α) : State τ α := ⟨f s.backend, s.pruner, s.journal⟩

variable [ExtendedScalar α] (h : Backend.Follows f) (s : State σ α)
include h

theorem retract_map (c : Commit) : (s.map f).retract c = (s.retract c).map id (State.map f) := by
  simp only [State.retract, State.map, h.removeAll]
  rfl

theorem attempt_map (id' : DisjunctionId) (index : Nat) (alternative : Alternative α) :
    (s.map f).attempt id' index alternative =
      (s.attempt id' index alternative).map id (State.map f) := by
  simp only [State.attempt, State.map, h.addAll]
  cases s.pruner.check alternative with
  | error conflict => rfl
  | ok _ =>
    cases Backend.addAll [] alternative s.backend with
    | mk answer b =>
      obtain ⟨refusal, added⟩ := answer
      cases refusal with
      | none => rfl
      | some e =>
        simp only [Prod.map, id_eq, h.removeAll]
        cases Backend.removeAll added b with
        | mk outcome b' =>
          cases outcome with
          | error e' => rfl
          | ok _ => cases e <;> rfl

theorem leaf_map : (s.map f).leaf = s.leaf.map id (State.map f) := by
  simp only [State.leaf, State.map, h.updateVariables]
  cases Backend.updateVariables s.backend with
  | mk outcome b =>
    cases outcome with
    | ok _ => rfl
    | error e => cases e <;> rfl

theorem tryEach_map (setting : Setting) (id' : DisjunctionId) (depth : Nat)
    {below : State σ α → Outcome × State σ α} {below' : State τ α → Outcome × State τ α}
    (deep : ∀ s, below' (s.map f) = (below s).map id (State.map f)) (index : Nat)
    (alternatives : List (Alternative α)) (s : State σ α) :
    tryEach setting id' depth below' index alternatives (s.map f) =
      (tryEach setting id' depth below index alternatives s).map id (State.map f) := by
  have record (s : State σ α) (e : SearchEvent α) : (s.map f).record e = (s.record e).map f := rfl
  induction alternatives generalizing index s with
  | nil => rfl
  | cons alternative rest ih =>
    have journal : (s.map f).journal = s.journal := rfl
    have pruner : (s.map f).pruner = s.pruner := rfl
    simp only [tryEach, journal, pruner]
    cases setting.exceeded? s.journal.stats with
    | some limit => rfl
    | none =>
      simp only [record, attempt_map h]
      cases (s.record (.attempted id' index s.pruner)).attempt id' index alternative with
      | mk verdict s₁ =>
        simp only [Prod.map, id_eq]
        cases verdict with
        | error e => rfl
        | ok verdict =>
          cases verdict with
          | pruned c =>
            let reason : RejectReason α := .pruned (setting.displayName c.var) c.lower c.upper
            exact ih (index + 1) (s₁.record (.rejected id' index reason))
          | infeasible i => exact ih (index + 1) (s₁.record (.rejected id' index (.infeasible i)))
          | feasible commit =>
            simp only [record, deep]
            cases below (s₁.record (.committed id' index depth)) with
            | mk outcome s₂ =>
              simp only [Prod.map, id_eq]
              cases outcome with
              | error e =>
                dsimp only
                rw [retract_map h]
                rfl
              | ok found =>
                cases found with
                | some commits => rfl
                | none =>
                  dsimp only
                  rw [retract_map h]
                  cases s₂.retract commit with
                  | mk removal s₃ =>
                    cases removal with
                    | error e => rfl
                    | ok _ => exact ih (index + 1) (s₃.record (.rejected id' index .noCompletion))

theorem explore_map (setting : Setting) (depth : Nat) (ds : List (DisjunctionId × Disjunction α)) :
    explore setting depth ds (s.map f) =
      (explore setting depth ds s).map id (State.map f) := by
  induction ds generalizing depth s with
  | nil => exact leaf_map h s
  | cons d ds ih =>
    exact tryEach_map h setting d.1 depth (fun s => ih s (depth + 1)) 0 d.2.alternatives s

end Search

namespace ChoiceSystem

def map (f : σ → τ) (s : ChoiceSystem σ α) : ChoiceSystem τ α where
  backend := f s.backend
  config := s.config
  registry := s.registry
  baseline := s.baseline
  disjunctions := s.disjunctions
  pruner := s.pruner
  kept := s.kept
  discarded := s.discarded

variable [ExtendedScalar α] [Numeral α] (h : Backend.Follows f) (s : ChoiceSystem σ α)
include h

theorem retractAll_map (layers : List Commit) (state : Search.State σ α) :
    retractAll layers (state.map f) =
      (retractAll layers state).map id (Prod.map id (Search.State.map f)) := by
  induction layers generalizing state with
  | nil => rfl
  | cons c layers ih =>
    simp only [retractAll, Search.retract_map h]
    cases state.retract c with
    | mk outcome state₁ =>
      cases outcome with
      | error e => rfl
      | ok _ => exact ih state₁

theorem retractKept_map : (s.map f).retractKept = s.retractKept.map id (map f) := by
  have start : (⟨(s.map f).backend, (s.map f).pruner, Journal.empty⟩ : Search.State τ α) =
      Search.State.map f ⟨s.backend, s.pruner, Journal.empty⟩ := rfl
  unfold retractKept
  rw [start, retractAll_map h]
  rfl

theorem addConjunctive_map (c : Constraint α) :
    (s.map f).addConjunctive c = (s.addConjunctive c).map id (map f) := by
  have discarded : (s.map f).discarded = s.discarded := rfl
  have registry : (s.map f).registry = s.registry := rfl
  simp only [addConjunctive, discarded, registry, retractKept_map h]
  split
  · rfl
  · cases s.registry.check c with
    | error e => rfl
    | ok _ =>
      cases s.retractKept with
      | mk outcome s₁ =>
        cases outcome with
        | error e => rfl
        | ok _ =>
          simp only [Prod.map, id_eq, clearValues, map, Baseline.add, h.addConstraint]
          cases Backend.addConstraint s₁.backend c with
          | mk verdict b =>
            cases verdict with
            | ok id => rfl
            | error e => cases e <;> rfl

theorem newVariable_map (name : String) :
    (s.map f).newVariable name = (s.newVariable name).map id (map f) := by
  have discarded : (s.map f).discarded = s.discarded := rfl
  have registry : (s.map f).registry = s.registry := rfl
  have backend : (s.map f).backend = f s.backend := rfl
  simp only [newVariable, discarded, registry, backend, h.newVariable]
  split
  · rfl
  · split
    · rfl
    · cases Backend.newVariable s.backend with
      | mk v b =>
        dsimp only [Prod.map, id_eq]
        cases s.registry.register name v <;> rfl

omit [BackendOver σ α] [BackendOver τ α] h in
theorem registerVariable_map (name : String) (v : Variable) :
    (s.map f).registerVariable name v = (s.registerVariable name v).map id (map f) := by
  have discarded : (s.map f).discarded = s.discarded := rfl
  have registry : (s.map f).registry = s.registry := rfl
  simp only [registerVariable, discarded, registry]
  split
  · rfl
  · cases s.registry.register name v <;> rfl

omit [BackendOver σ α] [BackendOver τ α] h in
theorem addDisjunction_map (label : Option String) (alternatives : List (Alternative α)) :
    (s.map f).addDisjunction label alternatives =
      (s.addDisjunction label alternatives).map id (map f) := by
  unfold addDisjunction
  cases Disjunction.ofAlternatives label alternatives with
  | error e => rfl
  | ok d =>
    have discarded : (s.map f).discarded = s.discarded := rfl
    have registry : (s.map f).registry = s.registry := rfl
    simp only [insertDisjunction, discarded, registry]
    split
    · rfl
    · cases s.registry.checkAll d.constraints <;> rfl

theorem search_map : (s.map f).search = s.search.map id (Search.State.map f) :=
  Search.explore_map h ⟨s.backend, s.pruner, Journal.empty⟩ _ 0 _

theorem conclude_map (answer : Search.Outcome × Search.State σ α) :
    (s.map f).conclude (answer.map id (Search.State.map f)) =
      (s.conclude answer).map id (map f) := by
  obtain ⟨outcome, state⟩ := answer
  cases outcome with
  | error e => rfl
  | ok found =>
    cases found with
    | none => rfl
    | some commits =>
      simp only [conclude, keep, map, Prod.map, id_eq, Search.State.map, h.value]

theorem solve_map : (s.map f).solve = s.solve.map id (map f) := by
  cases gone : s.discarded with
  | true =>
    have gone' : (s.map f).discarded = true := gone
    rw [solve, solve, if_pos gone, if_pos gone']
    rfl
  | false =>
    cases run : s.retractKept with
    | mk outcome s₁ =>
      have run' := retractKept_map h s
      rw [run] at run'
      cases outcome with
      | error e =>
        rw [s.solve_of_stuck gone run, (s.map f).solve_of_stuck gone run']
        rfl
      | ok _ =>
        rw [s.solve_of_retracted gone run, (s.map f).solve_of_retracted gone run']
        change (s₁.clearValues.map f).conclude (s₁.clearValues.map f).search = _
        rw [search_map h, conclude_map h]

theorem after_map (call : Call α) : (s.map f).after call = (s.after call).map f := by
  cases call with
  | newVariable name => exact congrArg Prod.snd (newVariable_map h s name)
  | registerVariable name v => exact congrArg Prod.snd (registerVariable_map s name v)
  | addConjunctive c => exact congrArg Prod.snd (addConjunctive_map h s c)
  | addDisjunction label alternatives =>
    exact congrArg Prod.snd (addDisjunction_map s label alternatives)
  | setConfig config => rfl
  | solve => exact congrArg Prod.snd (solve_map h s)

/-- The image of a run is the run of the image. -/
theorem afterAll_map (calls : List (Call α)) :
    (s.map f).afterAll calls = (s.afterAll calls).map f := by
  induction calls generalizing s with
  | nil => rfl
  | cons call calls ih =>
    change ((s.map f).after call).afterAll calls = ((s.after call).afterAll calls).map f
    rw [after_map h, ih]

end ChoiceSystem

end LinearChoice
