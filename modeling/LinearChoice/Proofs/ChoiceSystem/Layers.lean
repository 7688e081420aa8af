import LinearChoice.Proofs.ChoiceSystem.Runs
import LinearChoice.Proofs.Search.First

/-!
# Systems on a backend that decides

Between two calls such a backend holds what was in it at first, the baseline
and the layers kept from the last solve, and the pruner knows exactly these.
-/

set_option autoImplicit false
set_option linter.unusedSectionVars false

namespace LinearChoice.ChoiceSystem

open Search (Ready Layered)

variable {σ α : Type} [ExtendedScalar α] [Numeral α] [BackendOver σ α] {D : Deciding σ}
  {pre : Multiset (Entry α)} {s : ChoiceSystem σ α}

def state (s : ChoiceSystem σ α) : Search.State σ α := ⟨s.backend, s.pruner, Journal.empty⟩

def Settles (D : Deciding σ) (pre : Multiset (Entry α)) (s : ChoiceSystem σ α) : Prop :=
  ∃ H cs, Layered (α := α) (s.baselineEntries + pre) s.baseline.constraints s.kept H cs ∧
    Ready D s.config.prune (pre.map Prod.snd) s.state H cs

theorem settles_ofBackend (b : σ) (feasible : D.feasible (D.constraints b)) (config : Config) :
    Settles D (D.held b) (ofBackend b config) := by
  refine ⟨_, _, .base, ?_, ?_, ?_, rfl⟩
  · simp [state, ofBackend, baselineEntries, Baseline.empty]
  · simp [ofBackend, baselineEntries, Baseline.empty, Baseline.constraints]
  · simpa [ofBackend, Baseline.empty, Baseline.constraints, Contract.constraints] using feasible

/-- The layers come off one by one, and nothing stands in the way. -/
theorem retractAll_layered {mode : PruneMode} {texts : Multiset (Constraint α)}
    {H₀ H : Multiset (Entry α)} {cs₀ cs : List (Constraint α)} {layers : List Commit}
    (layered : Layered H₀ cs₀ layers H cs) {state : Search.State σ α}
    (ready : Ready D mode texts state H cs) :
    ∃ state', retractAll layers state = (.ok (), [], state') ∧
      Ready D mode texts state' H₀ cs₀ := by
  induction layered generalizing state with
  | base => exact ⟨state, rfl, ready⟩
  | commit below Q alternative ids known mark ih =>
    obtain ⟨state₁, run, ready₁⟩ := ready.retract ids known mark
    obtain ⟨state₂, runs, ready₂⟩ := ih ready₁
    exact ⟨state₂, by simp only [retractAll, run, runs], ready₂⟩

theorem Settles.retractKept (h : Settles D pre s) :
    ∃ state, s.retractKept =
        (.ok (), { s with kept := [], backend := state.backend, pruner := state.pruner }) ∧
      Ready D s.config.prune (pre.map Prod.snd) state (s.baselineEntries + pre)
        s.baseline.constraints := by
  obtain ⟨H, cs, layered, ready⟩ := h
  obtain ⟨state, run, ready'⟩ := retractAll_layered layered ready
  refine ⟨state, ?_, ready'⟩
  have run : retractAll s.kept ⟨s.backend, s.pruner, Journal.empty⟩ = (.ok (), [], state) := run
  simp only [ChoiceSystem.retractKept, run, Except.mapError]

def Bare (D : Deciding σ) (pre : Multiset (Entry α)) (s : ChoiceSystem σ α) : Prop :=
  s.kept = [] ∧ Ready D s.config.prune (pre.map Prod.snd) s.state (s.baselineEntries + pre)
    s.baseline.constraints

theorem Bare.settles (h : Bare D pre s) : Settles D pre s := ⟨_, _, h.1.symm ▸ .base, h.2⟩

theorem Bare.extend (h : Bare D pre s) (c : Constraint α) : Bare D pre (s.extend c) := by
  obtain ⟨none, ready⟩ := h
  have same : D.constraints s.backend = _ := ready.constraints
  unfold ChoiceSystem.extend
  rcases D.add_cases s.backend c with ⟨id, b, taken, held, feasible⟩ | ⟨b, refused, held, -⟩
  · rw [taken]
    rw [show D.held s.backend = _ from ready.held] at held
    have constraints := Baseline.constraints_append s.baseline.held c id
    refine ⟨none, ?_, ?_, ?_, ?_⟩
    · have entries : List.map Prod.swap (s.baseline.held ++ [(c, id)]) =
          s.baselineEntries ++ [(id, c)] := by simp [baselineEntries]
      change D.held b = (List.map Prod.swap (s.baseline.held ++ [(c, id)]) : List (Entry α)) + pre
      rw [entries, held, ← Multiset.coe_add, Multiset.coe_singleton, add_assoc, add_left_comm,
        Multiset.singleton_add]
    · rw [Multiset.map_add, Multiset.map_coe, texts_baselineEntries]
    · rw [same] at feasible
      change D.feasible ((Baseline.constraints ⟨s.baseline.held ++ [(c, id)]⟩ : List _) + _)
      rw [constraints, Search.committed_eq, Multiset.coe_singleton, Multiset.singleton_add]
      exact feasible
    · change s.pruner.commit [c] = (Pruner.empty s.config.prune).commit
        (Baseline.constraints ⟨s.baseline.held ++ [(c, id)]⟩)
      rw [constraints, Pruner.commit_append, ← show s.pruner = _ from ready.pruner]
  · rw [refused]
    exact ⟨none, held.trans ready.held, ready.texts, ready.feasible, ready.pruner⟩

theorem Settles.bare (h : Settles D pre s) :
    ∃ s', s.retractKept = (.ok (), s') ∧ Bare D pre s'.clearValues ∧
      s'.disjunctions = s.disjunctions ∧ s'.config = s.config ∧ s'.baseline = s.baseline := by
  obtain ⟨state, run, ready⟩ := h.retractKept
  exact ⟨_, run, ⟨rfl, ready.held, ready.texts, ready.feasible, ready.pruner⟩, rfl, rfl, rfl⟩

/-- How the search of a system without kept layers comes out. -/
theorem Bare.search (h : Bare D pre s) :
    Search.Settled D ⟨s.config.stepLimit, s.registry.displayName⟩ s.config.prune
      (pre.map Prod.snd) (s.baselineEntries + pre) s.baseline.constraints
      (Search.Viable D (s.baseline.constraints + pre.map Prod.snd)
        (s.disjunctions.decisions s.config.order))
      ((s.disjunctions.decisions s.config.order).map Prod.fst) [] (s.baselineEntries + pre)
      s.baseline.constraints s.search :=
  Search.settled_explore _ 0 h.2 .base

theorem Bare.conclude (h : Bare D pre s) : Settles D pre (s.conclude s.search).2 := by
  have settled := h.search
  generalize s.search = answer at settled ⊢
  cases settled with
  | found ready layered decided first =>
    rw [List.append_nil] at layered
    exact ⟨_, _, layered, ready.held, ready.texts, ready.feasible, ready.pruner⟩
  | exhausted ready nothing =>
    exact Bare.settles ⟨h.1, ready.held, ready.texts, ready.feasible, ready.pruner⟩
  | aborted ready limited =>
    exact Bare.settles ⟨h.1, ready.held, ready.texts, ready.feasible, ready.pruner⟩

theorem Settles.addConjunctive (h : Settles D pre s) (c : Constraint α) :
    Settles D pre (s.addConjunctive c).2 := by
  obtain ⟨s', run, bare, -⟩ := h.bare
  rcases s.addConjunctive_cases c with same | ⟨-, -, ⟨e, s₁, run', -⟩ | ⟨s₁, run', result⟩⟩
  · rwa [same]
  · rw [run] at run'
    cases run'
  · rw [run] at run'
    cases run'
    rw [result]
    exact (bare.extend c).settles

theorem Settles.solve (h : Settles D pre s) : Settles D pre s.solve.2 := by
  obtain ⟨s', run, bare, -⟩ := h.bare
  rcases s.solve_cases with ⟨-, result⟩ | ⟨-, e, s₁, run', -⟩ | ⟨-, s₁, run', result⟩
  · rwa [result]
  · rw [run] at run'
    cases run'
  · rw [run] at run'
    cases run'
    rw [result]
    exact bare.conclude

theorem Settles.after (h : Settles D pre s) (call : Call α) : Settles D pre (s.after call) := by
  cases call with
  | newVariable name =>
    rcases s.newVariable_cases name with same | ⟨registry, -, moved⟩
    · rwa [ChoiceSystem.after, same]
    · obtain ⟨H, cs, layered, ready⟩ := h
      rw [ChoiceSystem.after, moved]
      exact ⟨H, cs, layered, (D.newVariable _).trans ready.held, ready.texts, ready.feasible,
        ready.pruner⟩
  | registerVariable name v =>
    rcases s.registerVariable_cases name v with same | ⟨registry, -, moved⟩
    · rwa [ChoiceSystem.after, same]
    · rw [ChoiceSystem.after, moved]
      exact h
  | addConjunctive c => exact h.addConjunctive c
  | addDisjunction label alternatives =>
    rcases s.addDisjunction_cases label alternatives with same | ⟨d, -, -, moved⟩
    · rwa [ChoiceSystem.after, same]
    · rw [ChoiceSystem.after, moved]
      exact h
  | setConfig config =>
    obtain ⟨H, cs, layered, ready⟩ := h
    refine ⟨H, cs, layered, ready.held, ready.texts, ready.feasible, ?_⟩
    change s.pruner.setMode config.prune = _
    rw [show s.pruner = _ from ready.pruner, Pruner.setMode_commit]
    rfl
  | solve => exact h.solve

theorem settles_afterAll (b : σ) (feasible : D.feasible (D.constraints b)) (config : Config)
    (calls : List (Call α)) : Settles D (D.held b) ((ofBackend b config).afterAll calls) :=
  afterAll_invariant (settles_ofBackend b feasible config) (fun _ call h => h.after call) calls

end LinearChoice.ChoiceSystem
