import LinearChoice.Proofs.Backend.Shelf
import LinearChoice.Proofs.ChoiceSystem.Cleared
import LinearChoice.Proofs.ChoiceSystem.Limit
import LinearChoice.Proofs.Search.Modes

/-!
# Solving under two modes

How hard the pruner works makes no difference to the outline of a solve, on a
backend that decides and as long as the pruner rejects nothing feasible.
-/

set_option autoImplicit false

namespace LinearChoice.ChoiceSystem

open Search (Aligned Tied Cautious)

variable {σ α : Type} [ExtendedScalar α] [Numeral α] [BackendOver σ α] {D : Deciding σ}
  {pre : Multiset (Entry α)} {s : ChoiceSystem σ α}

structure Grounded (D : Deciding σ) (pre : Multiset (Entry α)) (s : ChoiceSystem σ α) : Prop where
  upheld : Upheld D.reliable pre s
  stable : s.baseline.constraints = [] ∨
    D.feasible (s.baseline.constraints + pre.map Prod.snd)

theorem Grounded.addConjunctive (h : Grounded D pre s) (c : Constraint α) :
    Grounded D pre (s.addConjunctive c).2 := by
  have upheld := h.upheld.after (.addConjunctive c)
  rw [ChoiceSystem.after] at upheld
  rcases h.upheld.addConjunctive_cases c with
    same | ⟨b, p, held, -, ⟨id, a, add, result⟩ | ⟨e, a, discarded, -, result⟩⟩
  · rwa [same]
  · rw [result] at upheld ⊢
    refine ⟨upheld, Or.inr ?_⟩
    change D.feasible ((Baseline.constraints ⟨s.baseline.held ++ [(c, id)]⟩ : List _) + _)
    rw [Baseline.constraints_append, Search.committed_eq, Multiset.coe_singleton,
      Multiset.singleton_add]
    rcases D.add_cases b c with ⟨_, _, _, -, fits⟩ | ⟨_, refused, -, -⟩
    · exact (show D.constraints b = _ from held) ▸ fits
    · rw [add] at refused
      cases refused
  · rw [result] at upheld ⊢
    exact ⟨upheld, h.stable⟩

theorem Grounded.after (h : Grounded D pre s) (call : Call α) : Grounded D pre (s.after call) := by
  have upheld := h.upheld.after call
  cases call with
  | newVariable name =>
    rw [ChoiceSystem.after] at upheld ⊢
    rcases s.newVariable_cases name with same | ⟨registry, -, moved⟩
    · rwa [same]
    · rw [moved] at upheld ⊢
      exact ⟨upheld, h.stable⟩
  | registerVariable name v =>
    rw [ChoiceSystem.after] at upheld ⊢
    rcases s.registerVariable_cases name v with same | ⟨registry, -, moved⟩
    · rwa [same]
    · rw [moved] at upheld ⊢
      exact ⟨upheld, h.stable⟩
  | addConjunctive c => exact h.addConjunctive c
  | addDisjunction label alternatives =>
    rw [ChoiceSystem.after] at upheld ⊢
    rcases s.addDisjunction_cases label alternatives with same | ⟨d, -, -, moved⟩
    · rwa [same]
    · rw [moved] at upheld ⊢
      exact ⟨upheld, h.stable⟩
  | setConfig config => exact ⟨upheld, h.stable⟩
  | solve =>
    refine ⟨upheld, ?_⟩
    change s.solve.2.baseline.constraints = [] ∨
      D.feasible (s.solve.2.baseline.constraints + pre.map Prod.snd)
    rw [s.framed_solve.baseline]
    exact h.stable

theorem grounded_afterAll (D : Deciding σ) (b : σ) (config : Config) (calls : List (Call α)) :
    Grounded D (D.held b) ((ofBackend b config).afterAll calls) :=
  afterAll_invariant ⟨upheld_ofBackend D.reliable b config, Or.inl rfl⟩
    (fun _ call h => h.after call) calls

structure Matched (D : Deciding σ) (s t : ChoiceSystem σ α) : Prop where
  answer : s.solve.1.map SolveResult.outline = t.solve.1.map SolveResult.outline
  journal : s.journal.Alike t.journal
  held : D.constraints s.solve.2.backend = D.constraints t.solve.2.backend

def Cautions (D : Deciding σ) (pre : Multiset (Constraint α)) (s : ChoiceSystem σ α)
    (mode : PruneMode) (order : DecisionOrder) : Prop :=
  Cautious D mode pre (s.disjunctions.decisions order) s.baseline.constraints

variable {mode mode' : PruneMode} {order : DecisionOrder}

/-- Whatever the mode, once the kept alternatives are off the searches come out alike. -/
theorem Grounded.agree (h : Grounded D pre s) (limit : Option Nat)
    (cautious : s.Cautions D (pre.map Prod.snd) mode order)
    (cautious' : s.Cautions D (pre.map Prod.snd) mode' order) :
    ∃ u w i, (s.setConfig ⟨mode, order, limit⟩).retractKept = (.ok (), u) ∧
      (s.setConfig ⟨mode', order, limit⟩).retractKept = (.ok (), w) ∧
      u.disjunctions = s.disjunctions ∧ w.disjunctions = s.disjunctions ∧
      u.config.order = order ∧ w.config.order = order ∧
      Search.Agree (Aligned D mode mode' (pre.map Prod.snd)
        (s.disjunctions.decisions order)) (Tied D) i u.clearValues.search
        w.clearValues.search := by
  obtain ⟨b, p, run, cleared⟩ := (h.upheld.after (.setConfig ⟨mode, order, limit⟩)).retractKept
  obtain ⟨b', p', run', cleared'⟩ := (h.upheld.after (.setConfig ⟨mode', order, limit⟩)).retractKept
  have texts : (pre + s.baselineEntries).map Prod.snd =
      s.baseline.constraints + pre.map Prod.snd := by
    rw [Multiset.map_add, Multiset.map_coe, texts_baselineEntries, add_comm]
  have aligned : Aligned D mode mode' (pre.map Prod.snd) (s.disjunctions.decisions order)
      (pre + s.baselineEntries, pre + s.baselineEntries, s.baseline.constraints)
      ⟨b, p, Journal.empty⟩ ⟨b', p', Journal.empty⟩ :=
    ⟨cleared.poised, cleared'.poised, texts, texts, h.stable, cautious, cautious', .refl _⟩
  exact ⟨_, _, _, run, run', rfl, rfl, rfl, rfl,
    (Search.inStep_aligned D mode mode' (pre.map Prod.snd)
      ⟨limit, s.registry.clearValues.displayName⟩).explore _ 0 aligned⟩

theorem matched_conclude {u w : ChoiceSystem σ α}
    {i : Multiset (Entry α) × Multiset (Entry α) × List (Constraint α)}
    {ds : List (DisjunctionId × Disjunction α)} {x y : Search.Outcome × Search.State σ α}
    (agree : Search.Agree (Aligned D mode mode' (pre.map Prod.snd) ds) (Tied D) i x y)
    (disjunctions : u.disjunctions = w.disjunctions) (order : u.config.order = w.config.order) :
    (u.conclude x).1.map SolveResult.outline = (w.conclude y).1.map SolveResult.outline ∧
      x.2.journal.Alike y.2.journal ∧
      D.constraints (u.conclude x).2.backend = D.constraints (w.conclude y).2.backend := by
  rw [backend_conclude, backend_conclude]
  cases agree with
  | found same final =>
    refine ⟨?_, final.journal, final.held⟩
    simp only [conclude, keep, Except.map, SolveResult.outline, choices_eq, same, disjunctions,
      final.journal.counts]
  | exhausted related =>
    refine ⟨?_, related.journal, related.tied.held⟩
    simp only [conclude, Except.map, SolveResult.outline, disjunctions, order,
      related.journal.traces, related.journal.counts]
  | aborted related => exact ⟨rfl, related.journal, related.tied.held⟩

theorem Grounded.matched (h : Grounded D pre s) (limit : Option Nat)
    (cautious : s.Cautions D (pre.map Prod.snd) mode order)
    (cautious' : s.Cautions D (pre.map Prod.snd) mode' order) :
    Matched D (s.setConfig ⟨mode, order, limit⟩) (s.setConfig ⟨mode', order, limit⟩) := by
  have configured (m : PruneMode) : (s.setConfig ⟨m, order, limit⟩).discarded = s.discarded := rfl
  cases gone : s.discarded with
  | true =>
    have nothing (m : PruneMode) : (s.setConfig ⟨m, order, limit⟩).solve =
        (.error .discarded, s.setConfig ⟨m, order, limit⟩) := by
      rw [solve, configured, if_pos gone]
    have blank (m : PruneMode) : (s.setConfig ⟨m, order, limit⟩).journal = Journal.empty := by
      simp [journal, configured, gone]
    constructor
    · rw [nothing, nothing]
    · rw [blank, blank]
      exact .refl _
    · rw [nothing, nothing]
      rfl
  | false =>
    have usable (m : PruneMode) : (s.setConfig ⟨m, order, limit⟩).discarded = false := gone
    obtain ⟨u, w, i, run, run', offers, offers', ordered, ordered', agree⟩ :=
      h.agree limit cautious cautious'
    obtain ⟨answer, journal, held⟩ := matched_conclude (u := u.clearValues) (w := w.clearValues)
      agree (offers.trans offers'.symm) (ordered.trans ordered'.symm)
    constructor
    · rwa [solve_of_retracted _ (usable mode) run, solve_of_retracted _ (usable mode') run']
    · rwa [journal_of_retracted (usable mode) run, journal_of_retracted (usable mode') run']
    · rwa [solve_of_retracted _ (usable mode) run, solve_of_retracted _ (usable mode') run']

/-- Whatever has happened to the system, it does not matter for the outline of its next solve which
of two modes is set, if neither makes the pruner reject anything feasible. -/
theorem matched_afterAll (D : Deciding σ) (b : σ) (config : Config) (calls : List (Call α))
    (order : DecisionOrder) (limit : Option Nat) (mode mode' : PruneMode)
    (cautious : ((ofBackend b config).afterAll calls).Cautions D (D.constraints b) mode order)
    (cautious' : ((ofBackend b config).afterAll calls).Cautions D (D.constraints b) mode' order) :
    Matched D (((ofBackend b config).afterAll calls).setConfig ⟨mode, order, limit⟩)
      (((ofBackend b config).afterAll calls).setConfig ⟨mode', order, limit⟩) :=
  (grounded_afterAll D b config calls).matched limit cautious cautious'

def cramped : ChoiceSystem (Shelf 1) :=
  (ofBackend (Shelf.empty 1) ⟨.off, .registration, none⟩).afterAll
    [.newVariable "x", .addConjunctive (.relate (.ofVariable ⟨0⟩) .atMost (-1)),
      .addDisjunction none [[.relate (.ofVariable ⟨0⟩) .atLeast 1], []],
      .addDisjunction none [[.relate (.ofVariable ⟨0⟩) .atMost (-2)]]]

/-- One constraint has room. What the pruner rejects in the first disjunction does not fit either,
and nothing fits the second. -/
theorem matched_cramped :
    (cramped.setConfig ⟨.off, .registration, none⟩).journal.stats = ⟨3, 0, 2, 1, 1⟩ ∧
    (cramped.setConfig ⟨.propagate, .registration, none⟩).journal.stats = ⟨3, 1, 1, 1, 1⟩ ∧
    cramped.Cautions (Shelf.deciding 1) ((Shelf.deciding 1).constraints (Shelf.empty 1)) .off
      .registration ∧
    cramped.Cautions (Shelf.deciding 1) ((Shelf.deciding 1).constraints (Shelf.empty 1)) .propagate
      .registration ∧
    Matched (Shelf.deciding 1) (cramped.setConfig ⟨.off, .registration, none⟩)
      (cramped.setConfig ⟨.propagate, .registration, none⟩) := by
  have off : cramped.Cautions (Shelf.deciding 1) ((Shelf.deciding 1).constraints (Shelf.empty 1))
      .off .registration := Search.cautious_off _ _
  have propagate : cramped.Cautions (Shelf.deciding 1)
      ((Shelf.deciding 1).constraints (Shelf.empty 1)) .propagate .registration := by
    have decisions : cramped.disjunctions.decisions .registration =
        [(⟨0⟩, ⟨none, [[.relate (.ofVariable ⟨0⟩) .atLeast 1], []], by simp⟩),
          (⟨1⟩, ⟨none, [[.relate (.ofVariable ⟨0⟩) .atMost (-2)]], by simp⟩)] := rfl
    have baseline : cramped.baseline.constraints = [.relate (.ofVariable ⟨0⟩) .atMost (-1)] := rfl
    have full (c c' : Constraint Float) (cs : List (Constraint Float))
        (M : Multiset (Constraint Float)) :
        ¬(Shelf.deciding 1).feasible ([c] + ((c' :: cs : List (Constraint Float)) + M)) := by
      intro fits
      simp [Shelf.deciding] at fits
    rw [Cautions, decisions, baseline]
    intro alternative offered
    rcases List.mem_cons.mp offered with rfl | offered
    · refine ⟨fun _ _ => full _ _ _ _, fun alternative offered => ?_⟩
      obtain rfl := List.mem_singleton.mp offered
      exact ⟨fun _ _ => full _ _ _ _, trivial⟩
    · obtain rfl := List.mem_singleton.mp offered
      refine ⟨fun conflict rejected => ?_, fun alternative offered => ?_⟩
      · have passes : (((Pruner.empty .propagate).commit
            [.relate (.ofVariable ⟨0⟩) .atMost (-1)]).check ([] : List (Constraint Float))).isOk =
            true := by decide +kernel
        rw [rejected] at passes
        contradiction
      · obtain rfl := List.mem_singleton.mp offered
        exact ⟨fun _ _ => full _ _ _ _, trivial⟩
  exact ⟨by decide +kernel, by decide +kernel, off, propagate,
    matched_afterAll (Shelf.deciding 1) (Shelf.empty 1) _ _ _ _ _ _ off propagate⟩

end LinearChoice.ChoiceSystem
