import LinearChoice.Proofs.ChoiceSystem.Limit
import LinearChoice.Proofs.ChoiceSystem.Mirror
import LinearChoice.Proofs.ChoiceSystem.Values
import LinearChoice.Proofs.Search.Standing

/-!
# What the pruner has committed

Between two calls it is the baseline and after it the alternatives kept from the
last solve that found a solution; at every check of a solve it is the baseline
and after it what stands committed then. That is so on any backend, also where
removals fail.
-/

set_option autoImplicit false
set_option linter.unusedSectionVars false

namespace LinearChoice

variable {α : Type}

def Disjunctions.alternative? (ds : Disjunctions α) (choice : DisjunctionId × Nat) :
    Option (Alternative α) :=
  (ds.get? choice.1).bind fun d => d.alternative? choice.2

namespace ChoiceSystem

open Search (Marked Watched standing)

variable {σ : Type} [ExtendedScalar α] (s : ChoiceSystem σ α)

def Knows (path : List (DisjunctionId × Nat)) (p : Pruner α) : Prop :=
  ∃ alternatives : List (Alternative α),
    path.map s.disjunctions.alternative? = alternatives.map some ∧
    p = (Pruner.empty s.config.prune).commit (s.baseline.constraints ++ alternatives.flatten)

def path (solution : Solution α) : List (DisjunctionId × Nat) :=
  ((s.disjunctions.decisions s.config.order).map Prod.fst).zip (s.inOrder solution.choices)

variable {s}

theorem alternative?_of_mem {d : DisjunctionId × Disjunction α} (hd : d ∈ s.disjunctions.entries)
    {c : Commit} (own : c.disjunction = d.1) :
    s.disjunctions.alternative? c.choice = d.2.alternatives[c.alternative]? := by
  obtain ⟨i, hi⟩ := List.mem_iff_getElem?.mp hd
  rw [Disjunctions.getElem?_entries] at hi
  obtain ⟨d', found, rfl⟩ := Option.map_eq_some_iff.mp hi
  have registered : s.disjunctions.get? c.disjunction = some d' := by
    rw [own, Disjunctions.get?, found]
  rw [Commit.choice, Disjunctions.alternative?, registered]
  rfl

theorem knows_of_marked {layers : List Commit} {cs : List (Constraint α)}
    (marked : Marked s.disjunctions.entries s.baseline.constraints layers cs) :
    s.Knows (layers.map Commit.choice).reverse ((Pruner.empty s.config.prune).commit cs) := by
  obtain ⟨alternatives, found, all⟩ : ∃ alternatives : List (Alternative α),
      (layers.map Commit.choice).reverse.map s.disjunctions.alternative? =
        alternatives.map some ∧ cs = s.baseline.constraints ++ alternatives.flatten := by
    induction marked with
    | base => exact ⟨[], rfl, (List.append_nil _).symm⟩
    | @commit layers cs c d alternative below offered own taken mark ih =>
      obtain ⟨alternatives, found, all⟩ := ih
      refine ⟨alternatives ++ [alternative], ?_, ?_⟩
      · rw [List.map_cons, List.reverse_cons, List.map_append, found, List.map_append,
          List.map_singleton, alternative?_of_mem offered own, taken, List.map_singleton]
      · rw [all, List.flatten_append, List.flatten_singleton, List.append_assoc]
  exact ⟨alternatives, found, by rw [all]⟩

variable [Numeral α] [BackendOver σ α]

def ChecksKnowing (s : ChoiceSystem σ α) : Prop :=
  ∀ id index seen before, .attempted id index seen :: before <:+ s.journal.events →
    s.Knows (standing before).reverse seen ∧
    ∃ later, (s.disjunctions.decisions s.config.order).map Prod.fst =
      (standing before).reverse.map Prod.fst ++ id :: later

theorem Mirrors.checks (h : Mirrors s) : s.ChecksKnowing := by
  intro id index seen before checked
  cases gone : s.discarded with
  | true =>
    simp only [journal, gone, Journal.empty, List.suffix_nil, reduceCtorEq] at checked
  | false =>
    cases run : s.retractKept with
    | mk outcome s' =>
      cases outcome with
      | error e =>
        simp only [journal, gone, run, Journal.empty, List.suffix_nil, reduceCtorEq] at checked
      | ok _ =>
        rw [journal_of_retracted gone run] at checked
        obtain ⟨mirrors, none⟩ := h.retractKept
        have same : s' = s.retractKept.2 := by rw [run]
        have empty : s'.kept = [] := same ▸ none (by rw [run])
        have framed : s'.disjunctions = s.disjunctions ∧ s'.baseline = s.baseline ∧
            s'.config = s.config := same ▸ ⟨rfl, rfl, rfl⟩
        have pruner : s'.pruner = (Pruner.empty s'.config.prune).commit s'.baseline.constraints :=
          (same ▸ mirrors : Mirrors s').pruner empty
        obtain ⟨offers, baseline, config⟩ := framed
        rw [baseline, config] at pruner
        have watched : Watched s.config.prune (s.disjunctions.decisions s.config.order)
            s.baseline.constraints [] s'.clearValues.search := by
          have decisions : s'.clearValues.disjunctions.decisions s'.clearValues.config.order =
            s.disjunctions.decisions s.config.order := by
            change s'.disjunctions.decisions s'.config.order = _
            rw [offers, config]
          rw [search, decisions]
          exact Search.watched_explore _ _ 0 (List.Subset.refl _) rfl
            ⟨pruner, .base, rfl, Search.overseen_nil⟩
        obtain ⟨⟨layers, cs, marked, stand, rfl⟩, later, next⟩ :=
          watched.overseen id index seen before checked
        rw [← stand] at next ⊢
        refine ⟨knows_of_marked (marked.mono (s.disjunctions.decisions_subset _)), later, ?_⟩
        rw [List.map_reverse]
        exact next

section Keeping

theorem kept_retractAll (layers : List Commit) (state : Search.State σ α) :
    (retractAll layers state).2.1 <:+ layers := by
  induction layers generalizing state with
  | nil => exact List.suffix_rfl
  | cons c layers ih =>
    unfold retractAll
    split
    · exact List.suffix_cons _ _
    · exact (ih _).trans (List.suffix_cons _ _)

theorem kept_retractKept (s : ChoiceSystem σ α) : s.retractKept.2.kept <:+ s.kept :=
  kept_retractAll s.kept _

theorem kept_extend (s : ChoiceSystem σ α) (c : Constraint α) :
    (s.extend c).kept = s.kept := by
  unfold extend
  split <;> rfl

theorem kept_addConjunctive (s : ChoiceSystem σ α) (c : Constraint α) :
    (s.addConjunctive c).2.kept <:+ s.kept := by
  have kept := s.kept_retractKept
  rcases s.addConjunctive_cases c with
    same | ⟨-, -, ⟨e, s', run, result⟩ | ⟨s', run, result⟩⟩
  · rw [same]
  all_goals
    rw [run] at kept
    rw [result]
  · exact kept
  · rw [kept_extend]
    exact kept

/-- A solve that finds a solution keeps its choices; any other one keeps no more than there was. -/
theorem kept_solve (s : ChoiceSystem σ α) :
    (∃ solution, s.solve.1 = .ok (.satisfied solution) ∧
      (s.solve.2.kept.map Commit.choice).reverse = s.path solution) ∨
    ((∀ solution, s.solve.1 ≠ .ok (.satisfied solution)) ∧ s.solve.2.kept <:+ s.kept) := by
  have kept := s.kept_retractKept
  rcases s.solve_cases with ⟨-, result⟩ | ⟨-, e, s', run, result⟩ | ⟨-, s', run, result⟩
  · rw [result]
    exact Or.inr ⟨nofun, List.suffix_rfl⟩
  · rw [run] at kept
    rw [result]
    exact Or.inr ⟨nofun, kept⟩
  · have same : s' = s.retractKept.2 := by rw [run]
    have framed : s'.disjunctions = s.disjunctions ∧ s'.config = s.config := same ▸ ⟨rfl, rfl⟩
    have decided (commits : List Commit)
        (found : s'.clearValues.search.1 = .ok (some commits)) :
        commits.map Commit.disjunction =
          (s'.disjunctions.decisions s'.config.order).map Prod.fst :=
      Search.decided_explore _ _ 0 _ found
    rw [run] at kept
    rw [result]
    generalize s'.clearValues.search = answer at decided
    obtain ⟨outcome, state⟩ := answer
    cases outcome with
    | error e => exact Or.inr ⟨nofun, kept⟩
    | ok found =>
      cases found with
      | none => exact Or.inr ⟨nofun, kept⟩
      | some commits =>
        refine Or.inl ⟨_, rfl, ?_⟩
        have decided := decided commits rfl
        rw [framed.1, framed.2] at decided
        change (commits.reverse.map Commit.choice).reverse =
          ((s.disjunctions.decisions s.config.order).map Prod.fst).zip
            (s.inOrder (choices s'.disjunctions.size commits))
        rw [framed.1, s.inOrder_choices decided, ← decided, List.map_reverse, List.reverse_reverse,
          List.zip_map']
        rfl

def Call.Keeping : Call α → Prop
  | .solve | .addConjunctive _ => False
  | .newVariable _ | .registerVariable _ _ | .addDisjunction _ _ | .setConfig _ => True

theorem kept_keeping (s : ChoiceSystem σ α) {call : Call α} (keeping : call.Keeping) :
    (s.after call).kept = s.kept := by
  cases call with
  | solve => exact keeping.elim
  | addConjunctive c => exact keeping.elim
  | setConfig config => rfl
  | newVariable name =>
    rcases s.newVariable_cases name with same | ⟨registry, -, moved⟩
    · rw [after, same]
    · rw [after, moved]
  | registerVariable name v =>
    rcases s.registerVariable_cases name v with same | ⟨registry, -, moved⟩
    · rw [after, same]
    · rw [after, moved]
  | addDisjunction label alternatives =>
    rcases s.addDisjunction_cases label alternatives with same | ⟨d, -, -, moved⟩
    · rw [after, same]
    · rw [after, moved]
      rfl

theorem kept_after (s : ChoiceSystem σ α) (call : Call α) (none : s.solution? call = none) :
    (s.after call).kept <:+ s.kept := by
  by_cases keeping : call.Keeping
  · rw [s.kept_keeping keeping]
  · cases call with
    | addConjunctive c => exact s.kept_addConjunctive c
    | solve =>
      rcases s.kept_solve with ⟨solution, found, -⟩ | ⟨-, kept⟩
      · rw [solution?, found] at none
        cases none
      · exact kept
    | newVariable | registerVariable | addDisjunction | setConfig => exact absurd trivial keeping

structure KeepsLast (s : ChoiceSystem σ α) (before later : List (Call α)) (solution : Solution α) :
    Prop where
  found : (s.afterAll before).solve.1 = .ok (.satisfied solution)
  last : (s.afterAll (before ++ [.solve])).lastSolution? later = none
  kept : ((s.afterAll (before ++ .solve :: later)).kept.map Commit.choice).reverse <+:
    (s.afterAll before).path solution
  all : (∀ call ∈ later, call.Keeping) →
    ((s.afterAll (before ++ .solve :: later)).kept.map Commit.choice).reverse =
      (s.afterAll before).path solution

theorem solution?_eq_some {call : Call α} {solution : Solution α}
    (h : s.solution? call = some solution) :
    call = .solve ∧ s.solve.1 = .ok (.satisfied solution) := by
  cases call with
  | solve =>
    simp only [solution?] at h
    split at h
    · next found =>
      rw [Option.some.injEq] at h
      exact ⟨rfl, h ▸ found⟩
    · contradiction
  | newVariable | registerVariable | addConjunctive | addDisjunction | setConfig => cases h

theorem lastSolution?_concat (s : ChoiceSystem σ α) (calls : List (Call α)) (call : Call α) :
    s.lastSolution? (calls ++ [call]) =
      ((s.afterAll calls).solution? call).or (s.lastSolution? calls) := by
  induction calls generalizing s with
  | nil =>
    change (none : Option (Solution α)).or (s.solution? call) = (s.solution? call).or none
    rw [Option.none_or, Option.or_none]
  | cons first calls ih =>
    change ((s.after first).lastSolution? (calls ++ [call])).or (s.solution? first) = _
    rw [ih, Option.or_assoc]
    rfl

theorem KeepsLast.after {before later : List (Call α)} {solution : Solution α}
    (h : s.KeepsLast before later solution) {call : Call α}
    (none : (s.afterAll (before ++ .solve :: later)).solution? call = none) :
    s.KeepsLast before (later ++ [call]) solution := by
  have moved : s.afterAll (before ++ .solve :: (later ++ [call])) =
      (s.afterAll (before ++ .solve :: later)).after call := by
    rw [← List.cons_append, ← List.append_assoc, afterAll_append]
    rfl
  have since : (s.afterAll (before ++ [.solve])).afterAll later =
      s.afterAll (before ++ .solve :: later) := by
    rw [← afterAll_append, List.append_assoc, List.singleton_append]
  have kept := (((s.afterAll _).kept_after call none).map Commit.choice).reverse
  refine ⟨h.found, ?_, ?_, fun keeping => ?_⟩
  · rw [lastSolution?_concat, since, none, h.last]
    rfl
  · rw [moved]
    exact kept.trans h.kept
  · rw [moved, kept_keeping _ (keeping call (List.mem_append_right _ (List.mem_singleton_self _)))]
    exact h.all fun call member => keeping call (List.mem_append_left _ member)

theorem keepsLast_afterAll (none : s.kept = []) (calls : List (Call α)) :
    (s.afterAll calls).kept = [] ∨
      ∃ before later solution, calls = before ++ .solve :: later ∧
        s.KeepsLast before later solution := by
  induction calls using List.reverseRecOn with
  | nil => exact Or.inl none
  | append_singleton calls call ih =>
    have moved : s.afterAll (calls ++ [call]) = (s.afterAll calls).after call :=
      s.afterAll_append calls [call]
    cases answer : (s.afterAll calls).solution? call with
    | some solution =>
      obtain ⟨rfl, found⟩ := solution?_eq_some answer
      rcases (s.afterAll calls).kept_solve with ⟨solution', found', kept⟩ | ⟨nothing, -⟩
      · rw [found, Except.ok.injEq, SolveResult.satisfied.injEq] at found'
        subst found'
        have path : ((s.afterAll (calls ++ [.solve])).kept.map Commit.choice).reverse =
            (s.afterAll calls).path solution := by
          rw [moved]
          exact kept
        exact Or.inr ⟨calls, [], solution, rfl, found, rfl, path ▸ List.prefix_rfl, fun _ => path⟩
      · exact absurd found (nothing solution)
    | none =>
      rcases ih with empty | ⟨before, later, solution, rfl, keeps⟩
      · have kept := (s.afterAll calls).kept_after call answer
        rw [empty, List.suffix_nil] at kept
        exact Or.inl (moved ▸ kept)
      · exact Or.inr ⟨before, later ++ [call], solution, by simp, keeps.after answer⟩

structure MirrorsPath (s : ChoiceSystem σ α) (calls : List (Call α)) : Prop where
  between : (s.afterAll calls).Knows ((s.afterAll calls).kept.map Commit.choice).reverse
    (s.afterAll calls).pruner
  checks : (s.afterAll calls).ChecksKnowing
  kept : (s.afterAll calls).kept = [] ∨
    ∃ before later solution, calls = before ++ .solve :: later ∧ s.KeepsLast before later solution

/-- On any backend, whatever it answers, and with whatever changes of the configuration: the pruner
is at every moment the one that commits, from nothing, the baseline and the path on top of it. -/
theorem mirrorsPath_afterAll (b : σ) (config : Config) (calls : List (Call α)) :
    MirrorsPath (ofBackend b config) calls := by
  have mirrors := mirrors_afterAll b config calls
  refine ⟨?_, mirrors.checks, keepsLast_afterAll rfl calls⟩
  obtain ⟨cs, marked, pruner⟩ := mirrors
  rw [pruner]
  exact knows_of_marked marked

end Keeping

end ChoiceSystem

end LinearChoice
