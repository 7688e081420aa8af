import LinearChoice.Backend.Simplex
import LinearChoice.Proofs.Backend.Exact
import LinearChoice.Proofs.ChoiceSystem.Replay
import LinearChoice.Proofs.Expression.Vanishing
import LinearChoice.Proofs.Pruner.Soundness
import LinearChoice.Proofs.Search.Fixings

/-!
# Systems on the simplex solver

In exact arithmetic a solve finds a solution exactly if some choice can be met,
which is exactly if fresh solvers accept one, and pruning changes nothing about
its choices. In floating point this is so of equations that give values to
variables, but not in general: refused constraints may leave something behind,
and the pruner's tolerance is not the solver's.
-/

set_option autoImplicit false

namespace LinearChoice
open scoped Exact

open Backend (Traceless withVariables)
open Constraint (Consistent Fixing FixingAmong Proper Usable)
open Search (Acceptable Harmless taken)

/-- Expressions that are sums of terms have no zero coefficients. -/
theorem Constraint.proper_sum (terms : List (Variable × Extended)) (k rhs : Extended)
    (relation : Relation)
    (fin : (relate ((Expression.sum terms).offset k) relation rhs).isFinite = true) :
    (relate ((Expression.sum terms).offset k) relation rhs).Proper := by
  refine ⟨fin, fun t ht zero => ?_⟩
  have kept : ∀ v, ¬(Expression.sum terms).Vanishes v := fun v vanishes =>
    Expression.not_vanishes_ofConstant _ ((Expression.vanishes_addTerms terms).mp vanishes).1
  have large := Expression.kept_iff.mpr kept t ht
  rw [zero] at large
  contradiction

/-- What the pruner rejects no values satisfy, so that no exact solver would have taken it. -/
theorem Solver.harmless (mode : PruneMode) :
    Harmless (fun c => c.Proper ∧ c.Usable) (empty : Solver ℚ) mode := by
  intro cs alternative conflict known known' rejected
  rw [Bool.eq_false_iff]
  intro took
  have all := List.forall_mem_append.mpr ⟨known, known'⟩
  obtain ⟨v, met⟩ := (takes_iff fun c hc => (all c hc).2).mp took
  have admits (c : Constraint Extended) (hc : c ∈ cs ++ alternative) :
      c.Proper ∧ (c.isRequired = true → c.Admits v) := ⟨(all c hc).1, met c hc⟩
  have committed := (Pruner.admits_empty mode).commit cs fun c hc =>
    admits c (List.mem_append_left _ hc)
  have passed := committed.check fun c hc => admits c (List.mem_append_right _ hc)
  rw [rejected] at passed
  contradiction

namespace ChoiceSystem

def FindsConsistent (s : ChoiceSystem (Solver ℚ) Extended) : Prop :=
  (∃ solution, s.solve.1 = .ok (.satisfied solution)) ↔ s.discarded = false ∧
    ∃ js chosen, taken (s.disjunctions.decisions s.config.order) js = some chosen ∧
      Consistent ((s.baseline.constraints ++ chosen : List (Constraint Extended)) :
        Multiset (Constraint Extended))

theorem Arises.findsConsistent {s : ChoiceSystem (Solver ℚ) Extended}
    (h : Arises Usable Solver.empty s) (off : s.config.prune = .off)
    (unlimited : s.config.stepLimit = none) : s.FindsConsistent := by
  have replays := h.replays Solver.judged.traceless
  refine (h.findsAccepted Solver.judged.traceless off unlimited 0).trans
    (and_congr_right fun _ => exists_congr fun js => exists_congr fun chosen =>
      and_congr_right fun took => Solver.accepts_iff ?_)
  exact List.forall_mem_append.mpr
    ⟨replays.known, Search.known_of_taken (replays.offers.decisions _) took⟩

/-- In exact arithmetic a solve without pruning finds a solution exactly if there is a choice that
fresh solvers accept, which is one that can be met. In floating point it does so where variables are
given values. -/
theorem satisfied_iff_acceptable (order : DecisionOrder) :
    (∀ s : ChoiceSystem (Solver ℚ) Extended, Arises Usable Solver.empty s →
      s.config = ⟨.off, order, none⟩ → s.FindsAccepted Solver.empty ∧ s.FindsConsistent) ∧
    ∀ s : ChoiceSystem (Solver Float), Arises Fixing Solver.empty s →
      s.config = ⟨.off, order, none⟩ → s.FindsAccepted Solver.empty := by
  constructor
  · intro s h config
    have off : s.config.prune = .off := by rw [config]
    have unlimited : s.config.stepLimit = none := by rw [config]
    exact ⟨h.findsAccepted Solver.judged.traceless off unlimited, h.findsConsistent off unlimited⟩
  · intro s h config
    exact h.findsAccepted Solver.traceless_fixings (by rw [config]) (by rw [config])

def sharing : ChoiceSystem (Solver ℚ) Extended :=
  let total (terms : List (Variable × Extended)) : Expression Extended :=
    (Expression.sum terms).offset 0
  (ofBackend Solver.empty ⟨.off, .registration, none⟩).afterAll
    [.newVariable "x", .newVariable "y",
      .addConjunctive (.relate (total [(⟨0⟩, 1), (⟨1⟩, 1)]) .atMost (.finite 4)),
      .addDisjunction none
        [[.relate (total [(⟨0⟩, 1)]) .atLeast (.finite 3),
            .relate (total [(⟨1⟩, 1)]) .atLeast (.finite 2)],
          [.relate (total [(⟨0⟩, 1)]) .atLeast 1]],
      .solve,
      .addDisjunction none [[.relate (total [(⟨1⟩, 1)]) .atLeast (.finite 4)],
        [.relate (total [(⟨0⟩, .finite 2), (⟨1⟩, -1)]) .equal 1]]]

theorem arises_sharing : Arises (fun c => c.Proper ∧ c.isRequired = true) Solver.empty sharing := by
  have summed (terms : List (Variable × Extended)) (relation : Relation) (rhs : Extended)
      (fin : (Constraint.relate ((Expression.sum terms).offset 0) relation rhs).isFinite = true) :
      (Constraint.relate ((Expression.sum terms).offset 0) relation rhs).Proper ∧
        (Constraint.relate ((Expression.sum terms).offset 0) relation rhs).isRequired = true :=
    ⟨Constraint.proper_sum terms 0 rhs relation fin, rfl⟩
  have baseline := summed [(⟨0⟩, 1), (⟨1⟩, 1)] .atMost (.finite 4) (by decide +kernel)
  have three := summed [(⟨0⟩, 1)] .atLeast (.finite 3) (by decide +kernel)
  have two := summed [(⟨1⟩, 1)] .atLeast (.finite 2) (by decide +kernel)
  have one := summed [(⟨0⟩, 1)] .atLeast 1 (by decide +kernel)
  have four := summed [(⟨1⟩, 1)] .atLeast (.finite 4) (by decide +kernel)
  have slanted := summed [(⟨0⟩, .finite 2), (⟨1⟩, -1)] .equal 1 (by decide +kernel)
  refine ⟨_, _, ?_, rfl⟩
  simp only [List.forall_mem_cons, Call.Within, List.not_mem_nil, false_implies, implies_true,
    and_true, true_and]
  exact ⟨baseline, ⟨⟨three, two⟩, one⟩, four, slanted⟩

def settling : ChoiceSystem (Solver Float) :=
  let x : Expression Float := .ofVariable ⟨0⟩
  let y : Expression Float := .ofVariable ⟨1⟩
  (ofBackend Solver.empty ⟨.off, .registration, none⟩).afterAll
    [.newVariable "x", .newVariable "y", .addConjunctive (.relate x .equal 0.1),
      .addDisjunction none [[.relate y .equal 2, .relate x .equal 0.3], [.relate y .equal (-0.7)]],
      .solve,
      .addDisjunction none [[.relate y .equal 2], [.relate x .equal 0.1, .relate y .equal (-0.7)]]]

theorem arises_settling : Arises Constraint.Fixing Solver.empty settling := by
  have fixing (v : Variable) (k : Float)
      (fin : (Constraint.relate (.ofVariable v) .equal k).isFinite = true) :
      Constraint.Fixing (.relate (.ofVariable v) .equal k) := ⟨fin, v, k, rfl⟩
  have baseline := fixing ⟨0⟩ 0.1 (by decide +kernel)
  have two := fixing ⟨1⟩ 2 (by decide +kernel)
  have other := fixing ⟨0⟩ 0.3 (by decide +kernel)
  have chosen := fixing ⟨1⟩ (-0.7) (by decide +kernel)
  exact ⟨_, _, by simp [Call.Within, baseline, two, other, chosen], rfl⟩

/-- Either way the first alternatives have to be taken back. In the one system they ask for more
than there is to share, in the other one they are at odds with a value or with each other. -/
theorem satisfied_iff_settling :
    (sharing.config = ⟨.off, .registration, none⟩ ∧
      Arises Usable Solver.empty sharing ∧ sharing.FindsAccepted Solver.empty ∧
      sharing.FindsConsistent ∧
      sharing.solve.1.toOption.map SolveResult.choices? = some (some [1, 1])) ∧
    settling.config = ⟨.off, .registration, none⟩ ∧
    Arises Fixing Solver.empty settling ∧ settling.FindsAccepted Solver.empty ∧
    ∃ solution, settling.solve.1 = .ok (.satisfied solution) := by
  have exact : sharing.config = ⟨.off, .registration, none⟩ := by decide +kernel
  have usable : Arises Usable Solver.empty sharing :=
    arises_sharing.mono fun _ known => Constraint.usable_of_required known.1.1 known.2
  obtain ⟨accepted, consistent⟩ := (satisfied_iff_acceptable .registration).1 sharing usable exact
  have config : settling.config = ⟨.off, .registration, none⟩ := by decide +kernel
  have complete := (satisfied_iff_acceptable .registration).2 settling arises_settling config
  have choice : Acceptable (withVariables (Solver.empty : Solver Float) 2)
      (settling.disjunctions.decisions settling.config.order) settling.baseline.constraints
      [1, 1] := by
    decide +kernel
  exact ⟨⟨exact, usable, accepted, consistent, by decide +kernel⟩, config, arises_settling,
    complete, (complete 2).mpr ⟨by decide +kernel, _, choice⟩⟩

def strained : ChoiceSystem (Solver Float) :=
  (ofBackend Solver.empty ⟨.off, .registration, none⟩).afterAll
    [.newVariable "x", .addConjunctive (.relate (.ofVariable ⟨0⟩) .atMost (-7)),
      .addDisjunction none [[.relate (.ofTerm ⟨0⟩ 3) .equal (-7000000000)],
        [.relate (.ofVariable ⟨0⟩) .equal (-20)]]]

/-- In general the solver is not as good as new. The first alternative is refused by fresh solvers
too, for its constants are out of scale, but a row of it stays behind, and the second one is refused
where a fresh solver accepts it. -/
theorem unsatisfied_strained :
    strained.config = ⟨.off, .registration, none⟩ ∧ strained.discarded = false ∧
    strained.baseline.size = 1 ∧ strained.ordinary = true ∧
    strained.solve.1.toOption.map SolveResult.choices? = some none ∧
    Acceptable (withVariables (Solver.empty : Solver Float) 1)
      (strained.disjunctions.decisions .registration) strained.baseline.constraints [1] := by
  decide +kernel

/-- In exact arithmetic pruning changes nothing about the choices that a solve comes to, whatever
the mode and the order. In floating point it changes nothing where variables are given values that
are told apart. -/
theorem choices_pruned (mode : PruneMode) (order : DecisionOrder) :
    (∀ s : ChoiceSystem (Solver ℚ) Extended,
      Arises (fun c => c.Proper ∧ c.Usable) Solver.empty s → s.PrunedAlike mode order) ∧
    ∀ ks : List Float, Legible ks → ∀ s : ChoiceSystem (Solver Float),
      Arises (FixingAmong ks) Solver.empty s → s.PrunedAlike mode order := by
  constructor
  · intro s h
    have traceless : Traceless (fun c => c.Proper ∧ c.Usable) (Solver.empty : Solver ℚ) :=
      (Solver.judged.mono fun _ known => known.2).traceless
    exact h.prunedAlike traceless mode (Solver.harmless mode) order
  · intro ks legible s h
    exact h.prunedAlike legible.traceless mode (legible.harmless mode) order

def digits : List Float := [0, 1, 2, 3, 4, 5, 6, 7, 8, 9]

theorem legible_digits : Legible digits where
  finite := by decide +kernel
  apart := by decide +kernel
  kept := by decide +kernel
  occupied := by decide +kernel

def puzzle : ChoiceSystem (Solver Float) :=
  let x : Expression Float := .ofVariable ⟨0⟩
  let y : Expression Float := .ofVariable ⟨1⟩
  let z : Expression Float := .ofVariable ⟨2⟩
  (ofBackend Solver.empty ⟨.off, .registration, none⟩).afterAll
    [.newVariable "x", .newVariable "y", .newVariable "z", .addConjunctive (.relate x .equal 7),
      .addDisjunction none [[.relate y .equal 1, .relate x .equal 4], [.relate y .equal 9]],
      .addDisjunction none [[.relate z .equal 3, .relate y .equal 0],
        [.relate y .equal 9, .relate z .equal 5]]]

theorem arises_puzzle : Arises (Constraint.FixingAmong digits) Solver.empty puzzle := by
  have known (v : Variable) : ∀ k ∈ digits,
      Constraint.FixingAmong digits (.relate (.ofVariable v) .equal k) :=
    fun k mem => ⟨v, k, mem, rfl⟩
  simp only [digits, List.forall_mem_cons] at known
  exact ⟨_, _, by simp [Call.Within, digits, known], rfl⟩

/-- One of three digits is known, and there are two ways to go on for each of the others. What is
pruned is what the solver refuses otherwise. -/
theorem choices_puzzle :
    (Arises (fun c => c.Proper ∧ c.Usable) Solver.empty sharing ∧
      sharing.PrunedAlike .propagate .registration ∧
      (sharing.setConfig ⟨.propagate, .registration, none⟩).solve.1.toOption.map
        SolveResult.choices? = some (some [1, 1])) ∧
    Legible digits ∧ Arises (FixingAmong digits) Solver.empty puzzle ∧
    puzzle.PrunedAlike .propagate .registration ∧
    (puzzle.setConfig ⟨.propagate, .registration, none⟩).solve.1.toOption.map
      SolveResult.choices? = some (some [1, 1]) := by
  have usable : Arises (fun c => c.Proper ∧ c.Usable) Solver.empty sharing :=
    arises_sharing.mono fun _ known =>
      ⟨known.1, Constraint.usable_of_required known.1.1 known.2⟩
  obtain ⟨exact, float⟩ := choices_pruned .propagate .registration
  exact ⟨⟨usable, exact sharing usable, by decide +kernel⟩, legible_digits, arises_puzzle,
    float digits legible_digits puzzle arises_puzzle, by decide +kernel⟩

def scaled : ChoiceSystem (Solver Float) :=
  (ofBackend Solver.empty ⟨.off, .registration, none⟩).afterAll
    [.newVariable "x", .addConjunctive (.relate (.ofTerm ⟨0⟩ 0.001) .equal 0),
      .addDisjunction none [[.relate (.ofTerm ⟨0⟩ 0.001) .equal 5e-9]]]

def scaledUnder (mode : PruneMode) : Option (Option (List Nat)) :=
  (scaled.setConfig ⟨mode, .registration, none⟩).solve.1.toOption.map SolveResult.choices?

/-- The pruner measures the values of a variable, the solver the two sides of an equation. Where a
small coefficient sets them apart, an alternative is pruned that the solver accepts. -/
theorem pruned_scaled :
    scaled.discarded = false ∧ scaled.baseline.size = 1 ∧ scaled.ordinary = true ∧
    scaledUnder .off = some (some [0]) ∧
    scaledUnder .bounds = some none ∧ scaledUnder .propagate = some none := by
  decide +kernel

end ChoiceSystem

end LinearChoice
