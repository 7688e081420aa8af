import LinearChoice.Proofs.ChoiceSystem.Replay

/-!
# What a system maintains

A system asks nothing of its backend but the five calls, and no constraint that
its client did not bring in. So a property of the backend that these calls pass
on holds after any run.
-/

set_option autoImplicit false
set_option linter.unusedSectionVars false

namespace LinearChoice

variable {σ α : Type} [ExtendedScalar α] [Numeral α] [BackendOver σ α]

namespace Backend

structure Maintains (C : Constraint α → Prop) (P : σ → Prop) : Prop where
  newVariable : ∀ b, P b → P (newVariable b).2
  addConstraint : ∀ b c, C c → P b → P (addConstraint b c).2
  removeConstraint : ∀ b id, P b → P (removeConstraint b id).2
  updateVariables : ∀ b, P b → P (updateVariables b).2

variable {C : Constraint α → Prop} {P : σ → Prop} {b : σ}

theorem Maintains.removeAll (M : Maintains C P) (ids : List ConstraintId) (h : P b) :
    P (Backend.removeAll ids b).2 := by
  induction ids generalizing b with
  | nil => exact h
  | cons id ids ih =>
    have rest := ih (M.removeConstraint b id h)
    unfold Backend.removeAll
    dsimp only
    split <;> exact rest

theorem Maintains.addAll (M : Maintains C P) (added : List ConstraintId)
    {cs : List (Constraint α)} (known : ∀ c ∈ cs, C c) (h : P b) :
    P (Backend.addAll added cs b).2 := by
  induction cs generalizing added b with
  | nil => exact h
  | cons c cs ih =>
    obtain ⟨own, others⟩ := List.forall_mem_cons.mp known
    have moved := M.addConstraint b c own h
    unfold Backend.addAll
    split
    · next id b' run =>
      rw [run] at moved
      exact ih (id :: added) others moved
    · next e b' run =>
      rw [run] at moved
      exact moved

end Backend

namespace Search

variable {C : Constraint α → Prop} {P : σ → Prop} {s : State σ α}
variable (M : Backend.Maintains C P)
include M

theorem maintains_retract (h : P s.backend) (c : Commit) : P (s.retract c).2.backend :=
  M.removeAll c.constraints h

theorem maintains_attempt (h : P s.backend) (id : DisjunctionId) (index : Nat)
    {alternative : Alternative α} (known : ∀ c ∈ alternative, C c) :
    P (s.attempt id index alternative).2.backend := by
  have added := M.addAll [] known h
  unfold State.attempt
  split
  · exact h
  · split
    · next run =>
      rw [run] at added
      exact added
    · next ids b run =>
      rw [run] at added
      have removed := M.removeAll ids added
      split
      · next run =>
        rw [run] at removed
        exact removed
      · next run =>
        rw [run] at removed
        dsimp only
        split <;> exact removed

theorem maintains_leaf (h : P s.backend) : P s.leaf.2.backend := by
  have moved := M.updateVariables s.backend h
  unfold State.leaf
  split
  all_goals
    next run =>
      rw [run] at moved
      exact moved

theorem maintains_tried {setting : Setting} {id : DisjunctionId} {depth index : Nat}
    {below : State σ α → Outcome × State σ α} {alternatives : List (Alternative α)}
    {result : Outcome × State σ α} (deep : ∀ s, P s.backend → P (below s).2.backend)
    (t : Tried setting id depth below index alternatives s result)
    (known : ∀ alternative ∈ alternatives, ∀ c ∈ alternative, C c) (h : P s.backend) :
    P result.2.backend := by
  -- What an attempt leaves, and what the search below a commitment leaves.
  have attempted {index : Nat} {alternative : Alternative α} {s s₁ : State σ α} {e : SearchEvent α}
      {verdict : Except SystemError (Attempt α)} (own : ∀ c ∈ alternative, C c) (h : P s.backend)
      (trial : (s.record e).attempt id index alternative = (verdict, s₁)) : P s₁.backend := by
    have moved := maintains_attempt M (s := s.record e) h id index own
    rwa [trial] at moved
  have descended {s₁ s₂ : State σ α} {e : SearchEvent α} {outcome : Outcome} (h : P s₁.backend)
      (run : below (s₁.record e) = (outcome, s₂)) : P s₂.backend := by
    have moved := deep (s₁.record e) h
    rwa [run] at moved
  have returned {s₂ s₃ : State σ α} {commit : Commit} {outcome : Except SolverError Unit}
      (h : P s₂.backend) (back : s₂.retract commit = (outcome, s₃)) : P s₃.backend := by
    have moved := maintains_retract M h commit
    rwa [back] at moved
  induction t with
  | exhausted => exact h
  | limited => exact h
  | failed trial => exact attempted (known _ List.mem_cons_self) h trial
  | unfit trial no later ih =>
    obtain ⟨own, others⟩ := List.forall_mem_cons.mp known
    have moved := attempted own h trial
    exact ih others moved
  | completed trial run =>
    exact descended (attempted (known _ List.mem_cons_self) h trial) run
  | unwound trial run =>
    exact maintains_retract M (descended (attempted (known _ List.mem_cons_self) h trial) run) _
  | stuck trial run back =>
    exact returned (descended (attempted (known _ List.mem_cons_self) h trial) run) back
  | reentered trial run back later ih =>
    obtain ⟨own, others⟩ := List.forall_mem_cons.mp known
    have moved := returned (descended (attempted own h trial) run) back
    exact ih others moved

theorem maintains_explore (setting : Setting) (depth : Nat)
    {ds : List (DisjunctionId × Disjunction α)}
    (known : ∀ d ∈ ds, ∀ alternative ∈ d.2.alternatives, ∀ c ∈ alternative, C c)
    (h : P s.backend) : P (explore setting depth ds s).2.backend := by
  induction ds generalizing depth s with
  | nil => exact maintains_leaf M h
  | cons d ds ih =>
    obtain ⟨own, others⟩ := List.forall_mem_cons.mp known
    exact maintains_tried M (fun s h => ih (depth + 1) others h)
      (tried setting d.1 depth (explore setting (depth + 1) ds) d.2.alternatives 0 s) own h

end Search

namespace ChoiceSystem

variable {C : Constraint α → Prop} {P : σ → Prop} {s : ChoiceSystem σ α}

instance [DecidablePred C] : DecidablePred (Call.Within C)
  | .addConjunctive c => inferInstanceAs (Decidable (C c))
  | .addDisjunction _ alternatives =>
    inferInstanceAs (Decidable (∀ alternative ∈ alternatives, ∀ c ∈ alternative, C c))
  | .newVariable _ | .registerVariable _ _ | .setConfig _ | .solve => isTrue trivial

structure Maintained (C : Constraint α → Prop) (P : σ → Prop) (s : ChoiceSystem σ α) : Prop where
  offers : Offers C s.disjunctions
  backend : P s.backend

variable (M : Backend.Maintains C P)
include M

theorem maintains_retractAll (layers : List Commit) {state : Search.State σ α}
    (h : P state.backend) :
    P (retractAll layers state).2.2.backend := by
  induction layers generalizing state with
  | nil => exact h
  | cons c layers ih =>
    have moved := Search.maintains_retract M h c
    unfold retractAll
    split
    · next run =>
      rw [run] at moved
      exact moved
    · next run =>
      rw [run] at moved
      exact ih moved

theorem Maintained.retractKept (h : Maintained C P s) : Maintained C P s.retractKept.2 :=
  ⟨h.offers, maintains_retractAll M s.kept h.backend⟩

theorem Maintained.extend (h : Maintained C P s) {c : Constraint α} (known : C c) :
    Maintained C P (s.clearValues.extend c) := by
  have moved := M.addConstraint s.backend c known h.backend
  unfold ChoiceSystem.extend
  split
  all_goals
    next run =>
      have run : Backend.addConstraint s.backend c = _ := run
      rw [run] at moved
      exact ⟨h.offers, moved⟩

theorem Maintained.addConjunctive (h : Maintained C P s) {c : Constraint α} (known : C c) :
    Maintained C P (s.addConjunctive c).2 := by
  have retracted := h.retractKept M
  rcases s.addConjunctive_cases c with
    same | ⟨-, -, ⟨e, s', run, result⟩ | ⟨s', run, result⟩⟩
  · rwa [same]
  · rw [run] at retracted
    rwa [result]
  · rw [run] at retracted
    rw [result]
    exact retracted.extend M known

theorem Maintained.conclude (h : Maintained C P s) :
    Maintained C P (s.clearValues.conclude s.clearValues.search).2 := by
  have searched := Search.maintains_explore M
    (s := ⟨s.backend, s.pruner, Journal.empty⟩)
    ⟨s.config.stepLimit, s.clearValues.registry.displayName⟩ 0 (h.offers.decisions s.config.order)
    h.backend
  unfold ChoiceSystem.conclude search Search.run
  dsimp only [clearValues] at searched ⊢
  generalize Search.explore (σ := σ) _ _ _ _ = answer at searched ⊢
  obtain ⟨outcome, state⟩ := answer
  cases outcome with
  | error e => exact ⟨h.offers, searched⟩
  | ok found => cases found <;> exact ⟨h.offers, searched⟩

theorem Maintained.solve (h : Maintained C P s) : Maintained C P s.solve.2 := by
  have retracted := h.retractKept M
  rcases s.solve_cases with ⟨-, result⟩ | ⟨-, e, s', run, result⟩ | ⟨-, s', run, result⟩
  · rwa [result]
  all_goals
    rw [run] at retracted
    rw [result]
  · exact retracted
  · exact retracted.conclude M

theorem Maintained.after (h : Maintained C P s) {call : Call α} (within : call.Within C) :
    Maintained C P (s.after call) := by
  cases call with
  | newVariable name =>
    rcases s.newVariable_cases name with same | ⟨registry, -, moved⟩
    · rwa [ChoiceSystem.after, same]
    · rw [ChoiceSystem.after, moved]
      exact ⟨h.offers, M.newVariable _ h.backend⟩
  | registerVariable name v =>
    rcases s.registerVariable_cases name v with same | ⟨registry, -, moved⟩
    · rwa [ChoiceSystem.after, same]
    · rw [ChoiceSystem.after, moved]
      exact ⟨h.offers, h.backend⟩
  | addConjunctive c => exact h.addConjunctive M within
  | addDisjunction label alternatives =>
    rcases s.addDisjunction_cases label alternatives with same | ⟨d, rfl, -, moved⟩
    · rwa [ChoiceSystem.after, same]
    · rw [ChoiceSystem.after, moved]
      exact ⟨h.offers.add within, h.backend⟩
  | setConfig config => exact ⟨h.offers, h.backend⟩
  | solve => exact h.solve M

theorem maintained_afterAll {b : σ} (start : P b) (config : Config) (calls : List (Call α))
    (within : ∀ call ∈ calls, call.Within C) :
    Maintained C P ((ofBackend b config).afterAll calls) :=
  afterAll_invariant_of ⟨nofun, start⟩ (fun _ _ own h => h.after M own) calls within

end ChoiceSystem

end LinearChoice
