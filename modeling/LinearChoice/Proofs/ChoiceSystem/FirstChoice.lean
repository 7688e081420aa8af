import LinearChoice.Proofs.Backend.Shelf
import LinearChoice.Proofs.ChoiceSystem.Layers

/-!
# What a solve finds

On a backend that decides, a solve without a step limit reports a solution
exactly if there is one, and the choices that it reports come first among all
that are viable, compared in the order in which the disjunctions are decided.
-/

set_option autoImplicit false

namespace LinearChoice

namespace ChoiceSystem

variable {σ α : Type} [ExtendedScalar α] [Numeral α] (s : ChoiceSystem σ α)

section Viable

variable [BackendOver σ α] (D : Deciding σ) (pre : Multiset (Constraint α))

structure Viable (choices : List Nat) : Prop extends Selects s choices where
  feasible : D.feasible (s.chosen choices + (s.baseline.constraints + pre))
  final : D.final (s.chosen choices + (s.baseline.constraints + pre))

end Viable

omit [ExtendedScalar α] [Numeral α] in
theorem viable_iff [BackendOver σ α] {D : Deciding σ} {pre : Multiset (Constraint α)}
    {choices : List Nat} (count : choices.length = s.disjunctions.size) :
    Search.Viable D (s.baseline.constraints + pre) (s.disjunctions.decisions s.config.order)
      (s.inOrder choices) ↔ s.Viable D pre choices := by
  constructor
  · rintro ⟨A, picks, feasible, final⟩
    obtain ⟨selects, rfl⟩ := (s.picks_inOrder count A).mp picks
    exact ⟨selects, feasible, final⟩
  · rintro ⟨selects, feasible, final⟩
    exact ⟨s.chosen choices, (s.picks_inOrder count _).mpr ⟨selects, rfl⟩, feasible, final⟩

section Solve

variable [BackendOver σ α] {D : Deciding σ} {pre : Multiset (Entry α)} {s}

structure FindsFirst (D : Deciding σ) (pre : Multiset (Constraint α)) (s : ChoiceSystem σ α) :
    Prop where
  satisfied_iff : (∃ solution, s.solve.1 = .ok (.satisfied solution)) ↔
    s.discarded = false ∧ ∃ choices, s.Viable D pre choices
  first : ∀ solution, s.solve.1 = .ok (.satisfied solution) →
    s.Viable D pre solution.choices ∧
      ∀ choices, s.Viable D pre choices → ¬s.inOrder choices < s.inOrder solution.choices
  answered : s.discarded = false → ∃ result, s.solve.1 = .ok result
  registration : s.config.order = .registration →
    s.disjunctions.decisions s.config.order = s.disjunctions.entries
  fewest : s.config.order = .fewestAlternatives →
    (s.disjunctions.decisions s.config.order).Perm s.disjunctions.entries ∧
    (s.disjunctions.decisions s.config.order).Pairwise fun a b =>
      a.2.size < b.2.size ∨ (a.2.size = b.2.size ∧ a.1.index < b.1.index)

omit [ExtendedScalar α] [Numeral α] in
theorem viable_congr {s' : ChoiceSystem σ α} (disjunctions : s'.disjunctions = s.disjunctions)
    (baseline : s'.baseline = s.baseline) {texts : Multiset (Constraint α)}
    (choices : List Nat) : s'.Viable D texts choices ↔ s.Viable D texts choices := by
  constructor
  all_goals
    rintro ⟨⟨count, inRange⟩, feasible, final⟩
    refine ⟨⟨?_, ?_⟩, ?_, ?_⟩
    all_goals
      simp only [chosen, disjunctions, baseline] at *
      assumption

/-- The search of a system without kept layers, read in the order of registration. -/
theorem Bare.first (h : Bare D pre s) (unlimited : s.config.stepLimit = none)
    (prudent : Search.Prudent D s.config.prune (pre.map Prod.snd)) :
    (∃ solution, (s.conclude s.search).1 = .ok (.satisfied solution) ∧
      s.Viable D (pre.map Prod.snd) solution.choices ∧
      ∀ choices, s.Viable D (pre.map Prod.snd) choices →
        ¬s.inOrder choices < s.inOrder solution.choices) ∨
    (∃ conflict, (s.conclude s.search).1 = .ok (.unsatisfied conflict) ∧
      ∀ choices, ¬s.Viable D (pre.map Prod.snd) choices) := by
  have thorough : Search.Thorough D ⟨s.config.stepLimit, s.registry.displayName⟩ s.config.prune
      (pre.map Prod.snd) := ⟨unlimited, prudent⟩
  have settled := h.search
  generalize s.search = answer at settled ⊢
  cases settled with
  | found ready layered decided first =>
    obtain ⟨viable, least⟩ := first thorough
    rw [← s.inOrder_choices decided] at viable least
    refine Or.inl ⟨_, rfl, (s.viable_iff (length_choices _ _)).mp viable, fun choices other => ?_⟩
    exact least _ ((s.viable_iff other.count).mpr other)
  | exhausted ready nothing =>
    refine Or.inr ⟨_, rfl, fun choices viable => ?_⟩
    exact nothing thorough _ ((s.viable_iff viable.count).mpr viable)
  | aborted ready limited => exact absurd thorough limited

theorem Settles.findsFirst (h : Settles D pre s) (unlimited : s.config.stepLimit = none)
    (prudent : Search.Prudent D s.config.prune (pre.map Prod.snd)) :
    s.FindsFirst D (pre.map Prod.snd) := by
  obtain ⟨s', run, bare, disjunctions, config, baseline⟩ := h.bare
  have found := bare.first (config ▸ unlimited) (config ▸ prudent)
  have registered : s'.clearValues.disjunctions = s.disjunctions := disjunctions
  have same (choices : List Nat) : s'.clearValues.Viable D (pre.map Prod.snd) choices ↔
      s.Viable D (pre.map Prod.snd) choices := viable_congr registered baseline choices
  have order (choices : List Nat) : s'.clearValues.inOrder choices = s.inOrder choices := by
    simp only [inOrder, clearValues, disjunctions, config]
  simp only [same, order] at found
  have registration (h : s.config.order = .registration) :
      s.disjunctions.decisions s.config.order = s.disjunctions.entries := by
    rw [h]
    rfl
  have fewest (h : s.config.order = .fewestAlternatives) :
      (s.disjunctions.decisions s.config.order).Perm s.disjunctions.entries ∧
      (s.disjunctions.decisions s.config.order).Pairwise fun a b =>
        a.2.size < b.2.size ∨ (a.2.size = b.2.size ∧ a.1.index < b.1.index) := by
    refine ⟨s.disjunctions.decisions_perm _, ?_⟩
    rw [h]
    exact s.disjunctions.pairwise_fewest
  rcases s.solve_cases with ⟨discarded, result⟩ | ⟨-, e, s₁, run', -⟩ | ⟨usable, s₁, run', result⟩
  · refine ⟨?_, ?_, ?_, registration, fewest⟩
    · simp [result, discarded]
    · simp [result]
    · simp [discarded]
  · rw [run] at run'
    cases run'
  · rw [run] at run'
    cases run'
    rw [← result] at found
    rcases found with ⟨solution, answer, viable, least⟩ | ⟨conflict, answer, none⟩
    · refine ⟨?_, ?_, ?_, registration, fewest⟩
      · exact ⟨fun _ => ⟨usable, _, viable⟩, fun _ => ⟨_, answer⟩⟩
      · intro other answer'
        rw [answer] at answer'
        cases answer'
        exact ⟨viable, least⟩
      · exact fun _ => ⟨_, answer⟩
    · refine ⟨?_, ?_, ?_, registration, fewest⟩
      · simp [answer, none]
      · simp [answer]
      · exact fun _ => ⟨_, answer⟩

/-- Whatever calls came before: without a step limit, and with pruning that rejects nothing
feasible, a solve finds the first viable choice if there is any. -/
theorem findsFirst_afterAll (D : Deciding σ) (b : σ) (feasible : D.feasible (D.constraints b))
    (config : Config) (calls : List (Call α))
    (unlimited : ((ofBackend b config).afterAll calls).config.stepLimit = none)
    (prudent : Search.Prudent D ((ofBackend b config).afterAll calls).config.prune
      (D.constraints b)) :
    ((ofBackend b config).afterAll calls).FindsFirst D (D.constraints b) :=
  (settles_afterAll b feasible config calls).findsFirst unlimited prudent

end Solve

def crowded : ChoiceSystem (Shelf 2) :=
  let c : Constraint Float := ⟨⟨0, Table.empty⟩, .atMost, ⟨0⟩⟩
  (ofBackend (Shelf.empty 2) ⟨.off, .registration, none⟩).afterAll
    [.addDisjunction none [[c, c, c], []], .solve, .addDisjunction none [[], [c]]]

theorem prudent_off {σ α : Type} [ExtendedScalar α] [BackendOver σ α] (D : Deciding σ)
    (pre : Multiset (Constraint α)) :
    Search.Prudent D .off pre := by
  intro cs alternative conflict rejected
  have mode : ((Pruner.empty .off).commit cs).mode = .off :=
    (Pruner.extends_commit (Pruner.empty .off) cs).mode
  rw [Pruner.check, mode] at rejected
  contradiction

/-- On a shelf with room for two constraints the first alternative does not fit. -/
theorem findsFirst_crowded :
    (Shelf.deciding 2).feasible ((Shelf.deciding 2).constraints (Shelf.empty 2)) ∧
    crowded.config.stepLimit = none ∧
    Search.Prudent (Shelf.deciding 2) crowded.config.prune
      ((Shelf.deciding 2).constraints (Shelf.empty 2)) ∧
    crowded.FindsFirst (Shelf.deciding 2) ((Shelf.deciding 2).constraints (Shelf.empty 2)) := by
  have feasible : (Shelf.deciding 2).feasible
      ((Shelf.deciding 2).constraints (Shelf.empty 2)) := Nat.zero_le 2
  exact ⟨feasible, rfl, prudent_off _ _,
    findsFirst_afterAll (Shelf.deciding 2) (Shelf.empty 2) feasible _ _ rfl (prudent_off _ _)⟩

end ChoiceSystem

end LinearChoice
