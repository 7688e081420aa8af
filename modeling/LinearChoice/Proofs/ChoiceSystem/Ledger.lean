import LinearChoice.Proofs.Backend.Disrupted
import LinearChoice.Proofs.Backend.Shelf
import LinearChoice.Proofs.ChoiceSystem.Custody
import LinearChoice.Proofs.ChoiceSystem.Follows

/-!
# The ledger of a system

Whatever fails, no constraint is lost or leaked: every number that the backend
ever handed out is in the baseline, in a kept alternative, or was handed back
in one removal that either succeeded or failed.
-/

set_option autoImplicit false
set_option linter.unusedSectionVars false

namespace LinearChoice.ChoiceSystem

variable {σ α : Type} [ExtendedScalar α] [Numeral α] [BackendOver σ α]

section Kept

variable {K : Custody σ} {s : ChoiceSystem σ α}

def Emptied (s : ChoiceSystem σ α) : Prop := s.discarded = true → s.kept = []

theorem emptied_after (h : Guards K s) (emptied : Emptied s) (call : Call α) :
    Emptied (s.after call) := by
  cases call with
  | newVariable name =>
    rcases s.newVariable_cases name with same | ⟨registry, -, moved⟩
    · rwa [ChoiceSystem.after, same]
    · rw [ChoiceSystem.after, moved]
      exact emptied
  | registerVariable name v =>
    rcases s.registerVariable_cases name v with same | ⟨registry, -, moved⟩
    · rwa [ChoiceSystem.after, same]
    · rw [ChoiceSystem.after, moved]
      exact emptied
  | addConjunctive c =>
    have grown := grown h c
    rw [ChoiceSystem.after]
    generalize (s.addConjunctive c).2 = s' at grown ⊢
    cases grown with
    | refused => exact emptied
    | blocked usable guards =>
      exact fun gone => absurd (usable.symm.trans gone) Bool.false_ne_true
    | taken usable checked owned => exact fun _ => rfl
    | failed owned => exact fun _ => rfl
  | addDisjunction label alternatives =>
    rcases s.addDisjunction_cases label alternatives with same | ⟨d, -, -, moved⟩
    · rwa [ChoiceSystem.after, same]
    · rw [ChoiceSystem.after, moved]
      exact emptied
  | setConfig config => exact emptied
  | solve =>
    have solved := solved h
    rw [ChoiceSystem.after]
    generalize s.solve = answer at solved ⊢
    cases solved with
    | discarded => exact emptied
    | blocked usable stuck guards =>
      exact fun gone => absurd (usable.symm.trans gone) Bool.false_ne_true
    | nothing unsolved owned => exact fun _ => rfl
    | found usable carried owned last =>
      exact fun gone => absurd (usable.symm.trans gone) Bool.false_ne_true

theorem emptied_afterAll (b : σ) (start : K.owns 0 b) (config : Config) (calls : List (Call α)) :
    Emptied ((ofBackend b config).afterAll calls) :=
  (afterAll_invariant (P := fun s => Guards K s ∧ Emptied s)
    ⟨guards_of_kept_nil (s := ofBackend b config) rfl start, fun _ => rfl⟩
    (fun _ call h => ⟨h.1.after call, emptied_after h.1 h.2 call⟩) calls).2

end Kept

theorem failed_of_retractAll {layers kept : List Commit}
    {state state' : Search.State (Recorded σ) α}
    {e : SolverError} (run : retractAll layers state = (.error e, kept, state')) :
    state'.backend.failed ≠ [] := by
  induction layers generalizing state with
  | nil => cases run
  | cons c layers ih =>
    simp only [retractAll, Search.State.retract] at run
    cases one : Backend.removeAll c.constraints state.backend with
    | mk outcome b =>
      rw [one] at run
      cases outcome with
      | error e =>
        cases run
        exact Recorded.failed_of_error one
      | ok _ => exact ih run

theorem failed_of_retractKept {s s' : ChoiceSystem (Recorded σ) α} {e : SystemError}
    (run : s.retractKept = (.error e, s')) : s'.backend.failed ≠ [] := by
  unfold retractKept at run
  cases all : retractAll s.kept ⟨s.backend, s.pruner, Journal.empty⟩ with
  | mk outcome rest =>
    rw [all] at run
    cases outcome with
    | error e =>
      cases run
      exact failed_of_retractAll all
    | ok _ => cases run

variable {I : Issuing σ} {pre : Multiset (Entry α)} {s : ChoiceSystem (Recorded σ) α}

def keptIds (s : ChoiceSystem (Recorded σ) α) : List ConstraintId :=
  s.kept.flatMap Commit.constraints

def baselineIds (s : ChoiceSystem (Recorded σ) α) : List ConstraintId :=
  s.baseline.held.map Prod.snd

structure Balanced (I : Issuing σ) (pre : Multiset (Entry α)) (s : ChoiceSystem (Recorded σ) α) :
    Prop where
  somewhere : ∀ id ∈ s.backend.issued,
    s.baselineIds.count id + s.keptIds.count id + s.backend.removed.count id +
      s.backend.failed.count id = 1
  nothing_else : ∀ id ∉ s.backend.issued,
    s.baselineIds.count id + s.keptIds.count id + s.backend.removed.count id +
      s.backend.failed.count id = 0
  held : ∃ kept lost : Multiset (Entry α), kept.map Prod.fst = s.keptIds ∧
    lost.map Prod.fst = s.backend.failed ∧
    I.held s.backend.inner = pre + s.baselineEntries + kept + lost
  gone : ∀ id ∈ s.backend.removed, id ∉ (I.held s.backend.inner).map Prod.fst

omit [BackendOver σ α] in
theorem ids_baselineEntries :
    (s.baselineEntries : Multiset (Entry α)).map Prod.fst = s.baselineIds := by
  simp [baselineEntries, baselineIds, Function.comp_def]

theorem Guards.balanced (h : Guards (Recorded.ledger I pre) s) : Balanced I pre s := by
  obtain ⟨Qs, ids, owned⟩ := h
  have kept : (Qs.flatten : Multiset (Entry α)).map Prod.fst = s.keptIds := by
    rw [keptIds, List.flatMap_def, ids, ← List.map_flatten, Multiset.map_coe]
  have count (id : ConstraintId) := congrArg (Multiset.count id) owned.partition
  simp only [Multiset.map_add, kept, ids_baselineEntries, Multiset.count_add, Multiset.coe_count]
    at count
  have somewhere (id : ConstraintId) (hid : id ∈ s.backend.issued) :
      s.baselineIds.count id + s.keptIds.count id + s.backend.removed.count id +
        s.backend.failed.count id = 1 := by
    have once := List.count_eq_one_of_mem owned.once hid
    have here := count id
    omega
  obtain ⟨lost, failed, held⟩ := owned.held
  refine ⟨somewhere, fun id hid => ?_, ⟨Qs.flatten, lost, kept, failed, ?_⟩, fun id hid => ?_⟩
  · have none := List.count_eq_zero_of_not_mem hid
    have here := count id
    omega
  · rw [held, add_comm (Qs.flatten : Multiset (Entry α)), ← add_assoc pre]
  · have taken := List.count_pos_iff.mpr hid
    have issued : id ∈ s.backend.issued := by
      rw [← List.count_pos_iff, count id]
      omega
    have here := somewhere id issued
    have before := Multiset.count_eq_zero_of_notMem (owned.apart id issued)
    rw [held, ← Multiset.count_eq_zero]
    simp only [Multiset.map_add, kept, ids_baselineEntries, failed, Multiset.count_add,
      Multiset.coe_count, before]
    omega

theorem held_of_ledger {P : Multiset (Entry α)} {r : Recorded σ}
    (h : (Recorded.ledger I pre).owns P r)
    (none : r.failed = []) : I.held r.inner = pre + P := by
  obtain ⟨lost, failed, held⟩ := h.held
  rw [none, Multiset.coe_nil, Multiset.map_eq_zero] at failed
  rw [held, failed, add_zero]

structure Accounted (I : Issuing σ) (pre : Multiset (Entry α)) (s : ChoiceSystem (Recorded σ) α) :
    Prop
    extends Balanced I pre s where
  satisfied : ∀ solution, s.solve.1 = .ok (.satisfied solution) → s.solve.2.backend.failed = [] →
    s.Selects solution.choices ∧
      ∃ layers : Multiset (Entry α), layers.map Prod.fst = s.solve.2.keptIds ∧
        layers.map Prod.snd = s.chosen solution.choices ∧
        I.held s.solve.2.backend.inner = pre + s.baselineEntries + layers
  unsatisfied : (∀ solution, s.solve.1 ≠ .ok (.satisfied solution)) →
    s.solve.2.backend.failed = [] → I.held s.solve.2.backend.inner = pre + s.baselineEntries

theorem Guards.accounted (h : Guards (Recorded.ledger I pre) s) (emptied : Emptied s) :
    Accounted I pre s := by
  have solved := solved h
  refine ⟨h.balanced, fun solution answer none => ?_, fun unsatisfied none => ?_⟩
  · generalize s.solve = result at *
    cases solved with
    | discarded gone => cases answer
    | blocked usable stuck guards => cases answer
    | nothing unsolved owned => exact absurd answer (unsolved solution)
    | @found commits Qs backend pruner stats usable carried owned last =>
      cases answer
      have picks := carried.picks
      rw [← s.inOrder_choices carried.decided] at picks
      obtain ⟨selects, texts⟩ := (s.picks_inOrder (length_choices _ _) _).mp picks
      refine ⟨selects, Qs.flatten, ?_, texts, ?_⟩
      · change _ = (commits.reverse.flatMap Commit.constraints : Multiset ConstraintId)
        rw [Multiset.map_coe, List.map_flatten, ← carried.ids, ← List.flatMap_def]
        exact Multiset.coe_eq_coe.mpr ((List.reverse_perm commits).symm.flatMap_right _)
      · have held := held_of_ledger owned none
        rw [add_assoc, add_comm (s.baselineEntries : Multiset (Entry α))]
        exact held
  · generalize s.solve = result at *
    cases solved with
    | discarded gone => exact held_of_ledger (h.owns_baseline (emptied gone)) none
    | blocked usable stuck guards => exact absurd none (failed_of_retractKept stuck)
    | nothing unsolved owned => exact held_of_ledger owned none
    | found usable carried owned last => exact absurd rfl (unsatisfied _)

/-- Between any two calls the account is complete, whatever calls came before and whichever of the
backend's answers were errors; and the run on record is the run that there is without it. -/
theorem accounted_afterAll (I : Issuing σ) (b : σ) (config : Config) (calls : List (Call α)) :
    ((ofBackend (Recorded.ofBackend b) config).afterAll calls).map Recorded.inner =
        (ofBackend b config).afterAll calls ∧
      Accounted I (I.held b) ((ofBackend (Recorded.ofBackend b) config).afterAll calls) := by
  have start : (Recorded.ledger I (I.held b)).owns 0 (Recorded.ofBackend b) :=
    Recorded.ledger_ofBackend I b
  exact ⟨(afterAll_map Recorded.follows _ calls).symm,
    (guards_afterAll (Recorded.ofBackend b) start config calls).accounted
      (emptied_afterAll (Recorded.ofBackend b) start config calls)⟩

def stuck : ChoiceSystem (Recorded (Disrupted (Shelf 1))) :=
  let c : Constraint Float := ⟨⟨0, Table.empty⟩, .atMost, ⟨0⟩⟩
  (ofBackend (.ofBackend (.ofBackend (Shelf.empty 1) [⟨.remove, 0, false, .unknownConstraint⟩]))
    ⟨.off, .registration, none⟩).afterAll
    [.addDisjunction none [[c]], .solve, .addConjunctive c, .solve]

/-- On a shelf whose first removal fails, a constraint that was kept stays behind. -/
theorem accounted_stuck : stuck.backend.failed = [⟨0⟩] ∧
    Accounted (Disrupted.issuing (Shelf.issuing 1)) 0 stuck :=
  ⟨by decide +kernel, (accounted_afterAll (Disrupted.issuing (Shelf.issuing 1))
    (.ofBackend (Shelf.empty 1) [⟨.remove, 0, false, .unknownConstraint⟩]) _ _).2⟩

end LinearChoice.ChoiceSystem
