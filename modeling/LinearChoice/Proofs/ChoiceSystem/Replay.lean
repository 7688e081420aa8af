import LinearChoice.Proofs.ChoiceSystem.Layers
import LinearChoice.Proofs.Search.Replay

/-!
# What fresh backends say of a system

Where the backend answers by what it holds and nothing else, a solve finds what
is found by giving every choice to a fresh backend, and pruning changes nothing
about it unless it rejects what the backend would have taken.
-/

set_option autoImplicit false
set_option linter.unusedSectionVars false

namespace LinearChoice

variable {α : Type}

open Backend (accepts texts Served Traceless withVariables)
open Search (Acceptable Harmless Piled Replayed Stacked Unhindered firstAccepted taken)

def SolveResult.choices? : SolveResult α → Option (List Nat)
  | .satisfied solution => some solution.choices
  | .unsatisfied _ => none

namespace ChoiceSystem

def Call.Within (C : Constraint α → Prop) : Call α → Prop
  | .addConjunctive c => C c
  | .addDisjunction _ alternatives => ∀ alternative ∈ alternatives, ∀ c ∈ alternative, C c
  | .newVariable _ | .registerVariable _ _ | .setConfig _ | .solve => True

variable {σ : Type} [ExtendedScalar α] [Numeral α] [BackendOver σ α]
  {C : Constraint α → Prop} {fresh : σ} {s : ChoiceSystem σ α}

def Offers (C : Constraint α → Prop) (ds : Disjunctions α) : Prop :=
  ∀ d ∈ ds.registered, ∀ alternative ∈ d.alternatives, ∀ c ∈ alternative, C c

theorem Offers.add {ds : Disjunctions α} (h : Offers C ds) {d : Disjunction α}
    (known : ∀ alternative ∈ d.alternatives, ∀ c ∈ alternative, C c) : Offers C (ds.add d).2 := by
  intro d' hd
  rcases List.mem_append.mp hd with old | new
  · exact h d' old
  · rw [List.mem_singleton.mp new]
    exact known

theorem Offers.decisions {ds : Disjunctions α} (h : Offers C ds) (order : DecisionOrder) :
    ∀ d ∈ ds.decisions order, ∀ alternative ∈ d.2.alternatives, ∀ c ∈ alternative, C c := by
  intro d hd
  exact h d.2 (List.mem_of_getElem? ((ds.mem_decisions order d).mp hd))

structure Replays (C : Constraint α → Prop) (fresh : σ) (s : ChoiceSystem σ α) : Prop where
  offers : Offers C s.disjunctions
  stacked : ∃ H, Piled s.baselineEntries.reverse s.kept H ∧
    Stacked C fresh s.config.prune s.state H

structure Blank (C : Constraint α → Prop) (fresh : σ) (s : ChoiceSystem σ α) : Prop where
  offers : Offers C s.disjunctions
  bare : s.kept = []
  stacked : Stacked C fresh s.config.prune s.state s.baselineEntries.reverse

omit [BackendOver σ α] in
theorem texts_baseline (s : ChoiceSystem σ α) :
    texts s.baselineEntries.reverse = s.baseline.constraints := by
  rw [texts, List.map_reverse, List.reverse_reverse, texts_baselineEntries]

theorem Blank.replays (h : Blank C fresh s) : Replays C fresh s :=
  ⟨h.offers, _, h.bare.symm ▸ .base, h.stacked⟩

theorem replays_ofBackend (C : Constraint α → Prop) (fresh : σ) (config : Config) :
    Replays C fresh (ofBackend fresh config) := ⟨nofun, [], .base, .start, rfl⟩

section Traceless

variable (T : Traceless C fresh)

include T

theorem retractAll_piled {mode : PruneMode} {H₀ H : List (Entry α)} {layers : List Commit}
    (piled : Piled H₀ layers H) {state : Search.State σ α}
    (stacked : Stacked C fresh mode state H) :
    ∃ state', retractAll layers state = (.ok (), [], state') ∧ Stacked C fresh mode state' H₀ := by
  induction piled generalizing state with
  | base => exact ⟨state, rfl, stacked⟩
  | commit below Q ids mark ih =>
    obtain ⟨state₁, run, stacked₁⟩ := stacked.retract T ids mark
    obtain ⟨state₂, runs, stacked₂⟩ := ih stacked₁
    exact ⟨state₂, by simp only [retractAll, run, runs], stacked₂⟩

theorem Replays.blank (h : Replays C fresh s) :
    ∃ s', s.retractKept = (.ok (), s') ∧ Blank C fresh s'.clearValues ∧
      s'.disjunctions = s.disjunctions ∧ s'.config = s.config ∧ s'.baseline = s.baseline := by
  obtain ⟨H, piled, stacked⟩ := h.stacked
  obtain ⟨state, run, stacked'⟩ := retractAll_piled T piled stacked
  refine ⟨{ s with kept := [], backend := state.backend, pruner := state.pruner }, ?_,
    ⟨h.offers, rfl, stacked'.served, stacked'.pruner⟩, rfl, rfl, rfl⟩
  have run : retractAll s.kept ⟨s.backend, s.pruner, Journal.empty⟩ = (.ok (), [], state) := run
  simp only [ChoiceSystem.retractKept, run, Except.mapError]

theorem Blank.extend (h : Blank C fresh s) {c : Constraint α} (known : C c) :
    Blank C fresh (s.extend c) := by
  unfold ChoiceSystem.extend
  have served : Served C fresh s.baselineEntries.reverse s.backend := h.stacked.served
  rcases T.add_cases served known with ⟨-, id, b, run, served'⟩ | ⟨-, b, run, served'⟩
  · rw [run]
    have entries : (List.map Prod.swap (s.baseline.held ++ [(c, id)])).reverse =
        (id, c) :: s.baselineEntries.reverse := by simp [baselineEntries]
    refine ⟨h.offers, h.bare, ?_, ?_⟩
    · change Served C fresh (List.map Prod.swap (s.baseline.held ++ [(c, id)])).reverse b
      rw [entries]
      exact served'
    · change s.pruner.commit [c] = (Pruner.empty s.config.prune).commit
        (texts (List.map Prod.swap (s.baseline.held ++ [(c, id)])).reverse)
      rw [entries, Backend.texts_cons, Pruner.commit_append, ← show s.pruner = _ from
        h.stacked.pruner]
  · rw [run]
    exact ⟨h.offers, h.bare, served', h.stacked.pruner⟩

theorem Blank.search (h : Blank C fresh s) :
    Replayed C fresh ⟨s.config.stepLimit, s.registry.displayName⟩ s.config.prune
      s.baselineEntries.reverse
      (firstAccepted fresh (s.disjunctions.decisions s.config.order) s.baseline.constraints)
      ((s.disjunctions.decisions s.config.order).map Prod.fst) [] s.baselineEntries.reverse
      s.search := by
  rw [← texts_baseline]
  exact Search.replayed_explore T _ (h.offers.decisions _) 0 h.stacked .base

theorem Blank.conclude (h : Blank C fresh s) : Replays C fresh (s.conclude s.search).2 := by
  have replayed := h.search T
  generalize s.search = answer at replayed ⊢
  cases replayed with
  | found stacked piled decided same =>
    rw [List.append_nil] at piled
    exact ⟨h.offers, _, piled, stacked.served, stacked.pruner⟩
  | exhausted stacked same =>
    exact Blank.replays ⟨h.offers, h.bare, stacked.served, stacked.pruner⟩
  | aborted stacked hindered =>
    exact Blank.replays ⟨h.offers, h.bare, stacked.served, stacked.pruner⟩

theorem Replays.addConjunctive (h : Replays C fresh s) {c : Constraint α} (known : C c) :
    Replays C fresh (s.addConjunctive c).2 := by
  obtain ⟨s', run, blank, -⟩ := h.blank T
  rcases s.addConjunctive_cases c with same | ⟨-, -, ⟨e, s₁, run', -⟩ | ⟨s₁, run', result⟩⟩
  · rwa [same]
  · rw [run] at run'
    cases run'
  · rw [run] at run'
    cases run'
    rw [result]
    exact (blank.extend T known).replays

theorem Replays.solve (h : Replays C fresh s) : Replays C fresh s.solve.2 := by
  obtain ⟨s', run, blank, -⟩ := h.blank T
  rcases s.solve_cases with ⟨-, result⟩ | ⟨-, e, s₁, run', -⟩ | ⟨-, s₁, run', result⟩
  · rwa [result]
  · rw [run] at run'
    cases run'
  · rw [run] at run'
    cases run'
    rw [result]
    exact blank.conclude T

omit T in
theorem Replays.setConfig (h : Replays C fresh s) (config : Config) :
    Replays C fresh (s.setConfig config) := by
  obtain ⟨H, piled, stacked⟩ := h.stacked
  refine ⟨h.offers, H, piled, stacked.served, ?_⟩
  change s.pruner.setMode config.prune = _
  rw [show s.pruner = _ from stacked.pruner, Pruner.setMode_commit]
  rfl

theorem Replays.after (h : Replays C fresh s) (call : Call α) (within : call.Within C) :
    Replays C fresh (s.after call) := by
  cases call with
  | newVariable name =>
    rcases s.newVariable_cases name with same | ⟨registry, -, moved⟩
    · rwa [ChoiceSystem.after, same]
    · obtain ⟨H, piled, stacked⟩ := h.stacked
      rw [ChoiceSystem.after, moved]
      exact ⟨h.offers, H, piled, .widened stacked.served, stacked.pruner⟩
  | registerVariable name v =>
    rcases s.registerVariable_cases name v with same | ⟨registry, -, moved⟩
    · rwa [ChoiceSystem.after, same]
    · rw [ChoiceSystem.after, moved]
      exact ⟨h.offers, h.stacked⟩
  | addConjunctive c => exact h.addConjunctive T within
  | addDisjunction label alternatives =>
    rcases s.addDisjunction_cases label alternatives with same | ⟨d, rfl, -, moved⟩
    · rwa [ChoiceSystem.after, same]
    · rw [ChoiceSystem.after, moved]
      exact ⟨h.offers.add within, h.stacked⟩
  | setConfig config => exact h.setConfig config
  | solve => exact h.solve T

theorem Blank.answer (h : Blank C fresh s) (unlimited : s.config.stepLimit = none)
    (harmless : Harmless C fresh s.config.prune) :
    ∃ result, (s.conclude s.search).1 = .ok result ∧
      (∀ choices, result.choices? = some choices → choices.length = s.disjunctions.size) ∧
      result.choices?.map s.inOrder =
        firstAccepted fresh (s.disjunctions.decisions s.config.order) s.baseline.constraints := by
  have free : Unhindered C fresh ⟨s.config.stepLimit, s.registry.displayName⟩ s.config.prune :=
    ⟨unlimited, harmless⟩
  have replayed := h.search T
  generalize s.search = answer at replayed ⊢
  cases replayed with
  | found stacked piled decided same =>
    refine ⟨_, rfl, ?_, ?_⟩
    · rintro choices ⟨⟩
      exact length_choices _ _
    · rw [same free, ← s.inOrder_choices decided]
      rfl
  | exhausted stacked same =>
    refine ⟨_, rfl, nofun, ?_⟩
    rw [same free]
    rfl
  | aborted stacked hindered => exact absurd free hindered

/-- A solve reports the first choice that fresh backends accept. -/
theorem Replays.answer (h : Replays C fresh s) (usable : s.discarded = false)
    (unlimited : s.config.stepLimit = none) (harmless : Harmless C fresh s.config.prune) :
    ∃ result, s.solve.1 = .ok result ∧
      (∀ choices, result.choices? = some choices → choices.length = s.disjunctions.size) ∧
      result.choices?.map s.inOrder =
        firstAccepted fresh (s.disjunctions.decisions s.config.order) s.baseline.constraints := by
  obtain ⟨s', run, blank, disjunctions, config, baseline⟩ := h.blank T
  obtain ⟨result, answer, count, first⟩ := blank.answer T (config ▸ unlimited) (config ▸ harmless)
  have order : s'.clearValues.inOrder = s.inOrder := by
    funext choices
    simp only [inOrder, clearValues, disjunctions, config]
  have registered : s'.clearValues.disjunctions = s.disjunctions := disjunctions
  have configured : s'.clearValues.config = s.config := config
  have given : s'.clearValues.baseline = s.baseline := baseline
  rw [order, registered, configured, given] at first
  rw [registered] at count
  exact ⟨result, by rw [s.solve_of_retracted usable run, answer], count, first⟩

end Traceless

theorem solve_of_discarded (gone : s.discarded = true) : s.solve = (.error .discarded, s) := by
  rw [solve, if_pos gone]

theorem harmless_off (C : Constraint α → Prop) (fresh : σ) : Harmless C fresh .off := by
  intro cs alternative conflict _ _ rejected
  have mode : ((Pruner.empty .off).commit cs).mode = .off :=
    (Pruner.extends_commit (Pruner.empty .off) cs).mode
  rw [Pruner.check, mode] at rejected
  contradiction

def Arises (C : Constraint α → Prop) (fresh : σ) (s : ChoiceSystem σ α) : Prop :=
  ∃ (config : Config) (calls : List (Call α)), (∀ call ∈ calls, call.Within C) ∧
    s = (ofBackend fresh config).afterAll calls

theorem Arises.mono {C' : Constraint α → Prop} (sub : ∀ c, C c → C' c) (h : Arises C fresh s) :
    Arises C' fresh s := by
  obtain ⟨config, calls, within, rfl⟩ := h
  refine ⟨config, calls, fun call hc => ?_, rfl⟩
  have own := within call hc
  cases call with
  | addConjunctive c => exact sub c own
  | addDisjunction label alternatives =>
    exact fun alternative ha c hc => sub c (own alternative ha c hc)
  | newVariable _ | registerVariable _ _ | setConfig _ | solve => trivial

theorem Arises.replays (T : Traceless C fresh) (h : Arises C fresh s) : Replays C fresh s := by
  obtain ⟨config, calls, within, rfl⟩ := h
  exact afterAll_invariant_of (replays_ofBackend C fresh config)
    (fun _ call own h => h.after T call own) calls within

def ordinary (s : ChoiceSystem σ α) : Bool :=
  (s.baseline.constraints ++ s.disjunctions.registered.flatMap Disjunction.constraints).all
    fun c => c.isFinite && c.isRequired

theorem Replays.known (h : Replays C fresh s) : ∀ c ∈ s.baseline.constraints, C c := by
  obtain ⟨H, piled, stacked⟩ := h.stacked
  intro c hc
  rw [← texts_baseline] at hc
  exact stacked.served.known c (piled.texts_prefix.subset hc)

/-- A fresh backend accepts the same whatever variables it has. -/
theorem Replays.acceptable_iff (T : Traceless C fresh) (h : Replays C fresh s) (n : Nat)
    (js : List Nat) :
    Acceptable (withVariables fresh n) (s.disjunctions.decisions s.config.order)
        s.baseline.constraints js ↔
      Acceptable fresh (s.disjunctions.decisions s.config.order) s.baseline.constraints js := by
  have same (chosen : List (Constraint α))
      (took : taken (s.disjunctions.decisions s.config.order) js = some chosen) :
      accepts (withVariables fresh n) (s.baseline.constraints ++ chosen) =
        accepts fresh (s.baseline.constraints ++ chosen) := by
    have known : ∀ c ∈ s.baseline.constraints ++ chosen, C c :=
      List.forall_mem_append.mpr ⟨h.known, Search.known_of_taken (h.offers.decisions _) took⟩
    exact T.accepts_eq _ known (Backend.served_withVariables C fresh n)
  constructor
  all_goals
    rintro ⟨chosen, took, accepted⟩
    refine ⟨chosen, took, ?_⟩
    rw [same chosen took] at *
    exact accepted

/-- A solve finds a solution exactly if there is a choice that a fresh backend, with however many
variables, accepts one constraint after another. -/
def FindsAccepted (fresh : σ) (s : ChoiceSystem σ α) : Prop :=
  ∀ n, (∃ solution, s.solve.1 = .ok (.satisfied solution)) ↔ s.discarded = false ∧
    ∃ js, Acceptable (withVariables fresh n) (s.disjunctions.decisions s.config.order)
      s.baseline.constraints js

theorem Arises.findsAccepted (T : Traceless C fresh) (h : Arises C fresh s)
    (off : s.config.prune = .off) (unlimited : s.config.stepLimit = none) :
    s.FindsAccepted fresh := by
  intro n
  have replays := h.replays T
  cases gone : s.discarded with
  | true => simp [solve_of_discarded gone]
  | false =>
    obtain ⟨result, answer, -, first⟩ :=
      replays.answer T gone unlimited (off ▸ harmless_off C fresh)
    simp only [answer, true_and, replays.acceptable_iff T n]
    constructor
    · rintro ⟨solution, same⟩
      obtain rfl := Except.ok.inj same
      exact ⟨_, Search.acceptable_of_first first.symm⟩
    · rintro ⟨js, acceptable⟩
      obtain ⟨js', found, -⟩ := Search.first_of_acceptable acceptable
      rw [found] at first
      cases result with
      | satisfied solution => exact ⟨solution, rfl⟩
      | unsatisfied conflict => contradiction

def PrunedAlike (s : ChoiceSystem σ α) (mode : PruneMode) (order : DecisionOrder) : Prop :=
  (s.setConfig ⟨mode, order, none⟩).solve.1.map SolveResult.choices? =
    (s.setConfig ⟨.off, order, none⟩).solve.1.map SolveResult.choices?

/-- Pruning changes nothing about the choices if it rejects only what a fresh backend would not
take. -/
theorem Arises.prunedAlike (T : Traceless C fresh) (h : Arises C fresh s) (mode : PruneMode)
    (harmless : Harmless C fresh mode) (order : DecisionOrder) : s.PrunedAlike mode order := by
  unfold PrunedAlike
  have replays := h.replays T
  cases gone : s.discarded with
  | true =>
    rw [solve_of_discarded (s := s.setConfig ⟨mode, order, none⟩) gone,
      solve_of_discarded (s := s.setConfig ⟨.off, order, none⟩) gone]
  | false =>
    obtain ⟨pruned, answer, count, first⟩ :=
      (replays.setConfig ⟨mode, order, none⟩).answer T gone rfl harmless
    obtain ⟨plain, answer', count', first'⟩ :=
      (replays.setConfig ⟨.off, order, none⟩).answer T gone rfl (harmless_off C fresh)
    have same : pruned.choices?.map (s.setConfig ⟨mode, order, none⟩).inOrder =
        plain.choices?.map (s.setConfig ⟨mode, order, none⟩).inOrder := first.trans first'.symm
    rw [answer, answer', Except.map, Except.map]
    cases found : pruned.choices? with
    | none =>
      rw [found, Option.map_none] at same
      rw [Option.map_eq_none_iff.mp same.symm]
    | some choices =>
      rw [found, Option.map_some] at same
      obtain ⟨choices', found', alike⟩ := Option.map_eq_some_iff.mp same.symm
      rw [found', inOrder_injective _ (count choices found) (count' choices' found') alike.symm]

end ChoiceSystem

end LinearChoice
