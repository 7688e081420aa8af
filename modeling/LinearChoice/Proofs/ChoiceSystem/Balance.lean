import LinearChoice.Proofs.ChoiceSystem.Conflicts
import LinearChoice.Proofs.ChoiceSystem.Mirror
import LinearChoice.Proofs.Search.Balance
import LinearChoice.Proofs.Search.Effort
import LinearChoice.Proofs.Search.Standing

/-!
# The balance of a solve

The counts that come with an answer agree with each other, with the traces and
with what is kept, whatever the backend answers.
-/

set_option autoImplicit false

namespace LinearChoice

variable {α : Type}

def Trace.total (t : Trace α) : Nat := (t.rejected.entries.map fun e => e.2.count).sum

theorem Trace.total_of_even {t : Trace α} {visits : Nat}
    (even : ∀ i r, t.rejected.get? i = some r → r.count = visits) :
    t.total = visits * t.rejected.keys.length := by
  have counts : (t.rejected.entries.map fun e => e.2.count) =
      List.replicate t.rejected.keys.length visits := by
    rw [List.eq_replicate_iff]
    refine ⟨by rw [List.length_map, Table.keys, List.length_map], ?_⟩
    intro count found
    obtain ⟨e, member, rfl⟩ := List.mem_map.mp found
    exact even e.1 e.2 ((t.rejected.get?_eq_some_iff e.1 e.2).mpr member)
  rw [total, counts, List.sum_replicate_nat, Nat.mul_comm]

/-- The traces add up to the attempts. -/
theorem Itemised.total {j : Journal α} {decisions : List (DisjunctionId × Disjunction α)}
    {c : Conflict α} (h : Itemised j decisions c) :
    (c.traces.map Trace.total).sum = c.stats.attempts := by
  have totals : c.traces.map Trace.total =
      (decisions.take (c.stats.maxDepth + 1)).zipIdx.map fun e => j.visits e.2 * e.1.2.size := by
    apply List.ext_getElem?
    intro k
    have traced := congrArg (fun l => l[k]?) h.traced
    simp only [List.getElem?_map, List.getElem?_take] at traced
    simp only [List.getElem?_map, List.getElem?_zipIdx, List.getElem?_take]
    cases ht : c.traces[k]? with
    | none =>
      rw [ht] at traced
      rw [Option.map_eq_none_iff.mp traced.symm]
      rfl
    | some t =>
      rw [ht] at traced
      obtain ⟨d, found, -⟩ := Option.map_eq_some_iff.mp traced.symm
      rw [found]
      have hd : decisions[k]? = some d := by
        split at found
        · exact found
        · cases found
      have even := Trace.total_of_even fun i r known => (h.rejected k d t hd ht i r known).1
      rw [h.listed k d t hd ht, List.length_range] at even
      simp [even]
  rw [totals, h.attempts]

theorem Disjunctions.length_decisions (ds : Disjunctions α) (order : DecisionOrder) :
    (ds.decisions order).length = ds.size := by
  rw [(ds.decisions_perm order).length_eq, Disjunctions.entries, List.length_map,
    List.length_zipIdx]
  rfl

structure Conserved (n : Nat) (mode : PruneMode) (j : Journal α) (kept : List Commit)
    (result : SolveResult α) : Prop where
  satisfied : ∀ solution, result = .satisfied solution →
    solution.stats.attempts = solution.stats.pruned + solution.stats.refused +
      solution.stats.backtracks + n ∧
    solution.stats.maxDepth = n
  unsatisfied : ∀ conflict, result = .unsatisfied conflict →
    conflict.stats.attempts = conflict.stats.pruned + conflict.stats.refused +
      conflict.stats.backtracks ∧
    (conflict.traces.map Trace.total).sum = conflict.stats.attempts
  commits : j.commits = result.stats.backtracks + kept.length
  off : mode = .off → result.stats.pruned = 0

namespace ChoiceSystem

/-- What balances over a whole search is the counts at its end. -/
theorem counts_of_balanced {left : Nat} {j : Journal α}
    (h : Journal.Balanced left Journal.empty j) :
    j.stats.attempts = j.stats.pruned + j.stats.refused + j.stats.backtracks + left ∧
      j.commits = j.stats.backtracks + left := by
  obtain ⟨attempts, commits, -⟩ := h
  have before : (Journal.empty : Journal α).commits = 0 := rfl
  have start : (Journal.empty : Journal α).stats = Stats.zero := rfl
  simp only [Stats.rejections, before, start, Stats.zero] at attempts commits
  omega

variable {σ : Type} [ExtendedScalar α] [Numeral α] [BackendOver σ α] {s : ChoiceSystem σ α}
  {result : SolveResult α}

omit [Numeral α] in
theorem conserved_conclude (s : ChoiceSystem σ α) (none : s.kept = [])
    (mode : s.pruner.mode = s.config.prune) (answered : (s.conclude s.search).1 = .ok result) :
    Conserved s.disjunctions.size s.config.prune s.search.2.journal (s.conclude s.search).2.kept
      result := by
  have length := s.disjunctions.length_decisions s.config.order
  have shallow :
      s.search.2.journal.stats.maxDepth ≤ (s.disjunctions.decisions s.config.order).length :=
    Search.maxDepth_run_le _ _ _ _
  have squared : Search.Squared 0 (s.disjunctions.decisions s.config.order).length
      ⟨s.backend, s.pruner, Journal.empty⟩ s.search := Search.squared_explore _ _ _ _
  have decided (commits : List Commit) (found : s.search.1 = .ok (some commits)) :
      commits.length = s.disjunctions.size := by
    have all := congrArg List.length (Search.decided_explore _ _ _ _ found)
    rwa [List.length_map, List.length_map, length] at all
  have spent (state : Search.State σ α) (run : s.search = (.ok Option.none, state)) :=
    Search.spent_explore _ _ 0 (s.disjunctions.nodup_decisions s.config.order) run
  rw [length] at shallow squared
  generalize s.search = answer at *
  cases squared with
  | aborted => cases answered
  | @found commits t balanced lenient deep =>
    cases answered
    obtain ⟨attempts, placed⟩ := counts_of_balanced balanced
    rw [decided commits rfl] at attempts placed
    have reached := deep (Nat.zero_le _)
    rw [Nat.zero_add] at reached
    refine ⟨?_, nofun, ?_, fun off => (lenient (mode.trans off)).2⟩
    · rintro solution ⟨⟩
      exact ⟨attempts, Nat.le_antisymm shallow reached⟩
    · rw [placed]
      change _ = _ + commits.reverse.length
      rw [List.length_reverse, decided commits rfl]
      rfl
  | @exhausted t balanced lenient =>
    cases answered
    obtain ⟨attempts, placed⟩ := counts_of_balanced balanced
    obtain ⟨log, written, spent⟩ := spent t rfl
    refine ⟨nofun, ?_, ?_, fun off => (lenient (mode.trans off)).2⟩
    · rintro conflict ⟨⟩
      exact ⟨attempts, (itemised written spent).total⟩
    · rw [placed]
      change _ = _ + s.kept.length
      rw [none]
      rfl

/-- What the answers of a solve count is conserved, whatever the backend answers. -/
theorem conserved_solve (b : σ) (config : Config) (calls : List (Call α))
    (answered : ((ofBackend b config).afterAll calls).solve.1 = .ok result) :
    Conserved ((ofBackend b config).afterAll calls).disjunctions.size
      ((ofBackend b config).afterAll calls).config.prune
      ((ofBackend b config).afterAll calls).journal
      ((ofBackend b config).afterAll calls).solve.2.kept result := by
  have mirrors := mirrors_afterAll b config calls
  generalize (ofBackend b config).afterAll calls = s at *
  obtain ⟨mirrored, none⟩ := mirrors.retractKept
  rcases s.solve_cases with ⟨-, answer⟩ | ⟨-, e, s', -, answer⟩ | ⟨usable, s', run, answer⟩
  · rw [answer] at answered
    cases answered
  · rw [answer] at answered
    cases answered
  · have same : s.retractKept.2 = s' := by rw [run]
    rw [run] at mirrored none
    rw [answer] at answered ⊢
    have mode : s'.clearValues.pruner.mode = s'.clearValues.config.prune :=
      (congrArg Pruner.mode (mirrored.pruner (none rfl))).trans (Pruner.extends_commit _ _).mode
    have conserved := s'.clearValues.conserved_conclude (none rfl) mode answered
    rw [← journal_of_retracted usable run] at conserved
    rw [← same] at conserved ⊢
    exact conserved

def relieved : ChoiceSystem (Shelf 1) :=
  (ofBackend (Shelf.empty 1) ⟨.off, .registration, none⟩).afterAll
    [.newVariable "x",
      .addDisjunction none [[.relate (.ofVariable ⟨0⟩) .atMost 1], []],
      .addDisjunction none [[.relate (.ofVariable ⟨0⟩) .atMost 2]]]

/-- The room for one constraint goes to the second decision once the first has backed out of its
first alternative. -/
theorem conserved_relieved : ∃ solution, relieved.solve.1 = .ok (.satisfied solution) ∧
    solution.stats = ⟨4, 0, 1, 1, 2⟩ ∧ relieved.journal.commits = 3 ∧
    Conserved 2 .off relieved.journal relieved.solve.2.kept (.satisfied solution) := by
  have counted : (relieved.solve.1.toOption.map fun result => (result.isSatisfied, result.stats)) =
      some (true, ⟨4, 0, 1, 1, 2⟩) := by decide +kernel
  have thrice : relieved.journal.commits = 3 := by decide +kernel
  rcases answer : relieved.solve.1 with e | (solution | conflict)
  · rw [answer] at counted
    cases counted
  · rw [answer] at counted
    have stats : solution.stats = ⟨4, 0, 1, 1, 2⟩ := congrArg Prod.snd (Option.some.inj counted)
    exact ⟨solution, rfl, stats, thrice, conserved_solve _ _ _ answer⟩
  · rw [answer] at counted
    cases counted

end ChoiceSystem

end LinearChoice
