import LinearChoice.Proofs.Choices
import LinearChoice.Proofs.ChoiceSystem.Limit
import LinearChoice.Proofs.Search.Rounds

/-!
# Conflicts

What a solve reports that finds nothing. Every decision that was come to has a
trace, which lists all its alternatives, each rejected once for every time that
the search came there.
-/

set_option autoImplicit false

namespace LinearChoice

open Search (Rounds)

variable {α : Type}

def Journal.visits (j : Journal α) : Nat → Nat
  | 0 => 1
  | k + 1 => commitsAt k j.events

theorem Journal.visits_eq (j : Journal α) (k : Nat) : j.visits k = visitsAt j.events.reverse k := by
  cases k with
  | zero => rfl
  | succ k => exact (List.countP_reverse).symm

/-- What is dropped after a point is dropped altogether. -/
theorem filterMap_eq_take {α β : Type} {f : α → Option β} {g : α → β} (l : List α) (m : Nat)
    (inside : ∀ k a, l[k]? = some a → k < m → f a = some (g a))
    (beyond : ∀ k a, l[k]? = some a → m ≤ k → f a = none) :
    l.filterMap f = (l.take m).map g := by
  induction l generalizing m with
  | nil => rw [List.take_nil]; rfl
  | cons a l ih =>
    cases m with
    | zero =>
      have later := ih 0 (fun k a _ less => absurd less (Nat.not_lt_zero k))
        fun k a found _ => beyond (k + 1) a found (Nat.zero_le _)
      rw [List.filterMap_cons_none (beyond 0 a rfl (Nat.le_refl 0)), later, List.take_zero,
        List.take_zero]
    | succ m =>
      have later := ih m (fun k a found less => inside (k + 1) a found (Nat.succ_lt_succ less))
        fun k a found most => beyond (k + 1) a found (Nat.succ_le_succ most)
      rw [List.filterMap_cons_some (inside 0 a rfl (Nat.succ_pos m)), later]
      rfl

theorem sum_zipIdx_take {α : Type} (size : α → Nat) {visits : Nat → Nat} (l : List α)
    (start m : Nat) (none : ∀ k, start + m ≤ k → visits k = 0) :
    (((l.take m).zipIdx start).map fun e => visits e.2 * size e.1).sum =
      ((l.zipIdx start).map fun e => visits e.2 * size e.1).sum := by
  induction l generalizing start m with
  | nil => rw [List.take_nil]
  | cons a l ih =>
    cases m with
    | zero =>
      symm
      rw [List.take_zero]
      apply List.sum_eq_zero
      intro x hx
      obtain ⟨e, he, rfl⟩ := List.mem_map.mp hx
      rw [none e.2 (List.le_snd_of_mem_zipIdx he), Nat.zero_mul]
    | succ m =>
      rw [List.take_succ_cons, List.zipIdx_cons, List.zipIdx_cons, List.map_cons, List.map_cons,
        List.sum_cons, List.sum_cons, ih (start + 1) m fun k beyond => none k (by omega)]

namespace Disjunctions

theorem nodup_decisions (ds : Disjunctions α) (order : DecisionOrder) :
    ((ds.decisions order).map Prod.fst).Nodup := by
  have indices : ((ds.decisions order).map Prod.fst).map DisjunctionId.index |>.Nodup := by
    rw [List.map_map]
    have perm := (ds.decisions_perm order).map fun d => d.1.index
    rw [entries_index] at perm
    exact perm.nodup_iff.mpr List.nodup_range
  exact List.Nodup.of_map _ indices

def label? (ds : Disjunctions α) (id : DisjunctionId) : Option String :=
  (ds.get? id).bind Disjunction.label

theorem label?_decisions (ds : Disjunctions α) (order : DecisionOrder) :
    ∀ d ∈ ds.decisions order, ds.label? d.1 = d.2.label := by
  intro d hd
  rw [label?, (ds.mem_decisions order d).mp hd, Option.bind_some]

end Disjunctions

theorem Disjunction.size_pos (d : Disjunction α) : 0 < d.size :=
  List.length_pos_iff.mpr d.nonempty

structure Itemised (j : Journal α) (decisions : List (DisjunctionId × Disjunction α))
    (c : Conflict α) : Prop where
  stats : c.stats = j.stats
  traced : c.traces.map (fun t => (t.disjunction, t.label)) =
    (decisions.take (c.stats.maxDepth + 1)).map fun d => (d.1, d.2.label)
  reached : ∀ k, 0 < j.visits k ↔ k ≤ c.stats.maxDepth
  listed : ∀ (k : Nat) (d : DisjunctionId × Disjunction α) (t : Trace α), decisions[k]? = some d →
    c.traces[k]? = some t → t.rejected.keys = List.range d.2.size
  rejected : ∀ (k : Nat) (d : DisjunctionId × Disjunction α) (t : Trace α), decisions[k]? = some d →
    c.traces[k]? = some t → ∀ i r, t.rejected.get? i = some r →
      r.count = j.visits k ∧ ((j.rejections d.1).find? (·.1 = i)).map Prod.snd = some r.reason
  attempts : ((decisions.take (c.stats.maxDepth + 1)).zipIdx.map fun e =>
    j.visits e.2 * e.1.2.size).sum = c.stats.attempts

section Rounds

variable {j : Journal α} {decisions : List (DisjunctionId × Disjunction α)}
  {log : List (SearchEvent α)}
  {k : Nat} {d : DisjunctionId × Disjunction α}
  (written : j = Journal.empty.recordAll log) (spent : Search.Spent 0 decisions log)
include written

theorem reverse_events : j.events.reverse = log := by
  rw [written, Journal.events_recordAll]
  simp [Journal.empty]

include spent

theorem visited_iff : 0 < j.visits k ↔ k ≤ j.stats.maxDepth := by
  have stats : j.stats = log.foldl Stats.after Stats.zero := by
    rw [written, Journal.stats_recordAll]
    rfl
  rw [Journal.visits_eq, reverse_events written, stats]
  exact spent.rounds.visited_iff

theorem keys_rejections (hd : decisions[k]? = some d) :
    (j.rejections d.1).map Prod.fst =
      (List.replicate (j.visits k) (List.range d.2.size)).flatten := by
  have start : Rounds (visitsAt log 0) 0 decisions log := spent.rounds
  have keys := start.keys hd
  rw [Nat.zero_add] at keys
  rw [Journal.rejections_eq, Journal.visits_eq, reverse_events written]
  exact keys

/-- A decision has no rejections if and only if the search did not come to it. -/
theorem rejections_eq_nil_iff (hd : decisions[k]? = some d) :
    j.rejections d.1 = [] ↔ j.visits k = 0 := by
  rw [← List.map_eq_nil_iff, keys_rejections written spent hd, ← List.length_eq_zero_iff]
  simp only [List.length_flatten, List.map_replicate, List.sum_replicate_nat, List.length_range,
    Nat.mul_eq_zero, d.2.size_pos.ne', or_false]

theorem traces_eq : j.traces decisions = (decisions.take (j.stats.maxDepth + 1)).map fun d =>
    Trace.rejectAll ⟨d.1, d.2.label, Table.empty⟩ (j.rejections d.1) := by
  refine filterMap_eq_take decisions _ (fun k d hd inside => ?_) fun k d hd beyond => ?_
  · have reached := (visited_iff written spent).mpr (Nat.le_of_lt_succ inside)
    rw [Journal.trace?_eq, Trace.gather, if_neg]
    rw [rejections_eq_nil_iff written spent hd]
    exact reached.ne'
  · have missed : ¬0 < j.visits k := fun reached =>
      Nat.not_lt_of_le ((visited_iff written spent).mp reached) beyond
    rw [Journal.trace?_eq, Trace.gather, if_pos]
    rw [rejections_eq_nil_iff written spent hd]
    exact Nat.eq_zero_of_not_pos missed

theorem attempts_eq : j.stats.attempts =
    (decisions.zipIdx.map fun e => j.visits e.2 * e.1.2.size).sum := by
  have grows : Journal.empty.Grows j := written ▸ Journal.grows_recordAll _ _
  have counted : j.attempts = Search.load log (visitsAt log 0) 0 decisions := by
    rw [Journal.attempts, ← List.countP_reverse, reverse_events written]
    exact spent.attempts
  rw [grows.attempts_eq, counted, Search.load_visits]
  simp only [Journal.visits_eq, reverse_events written]

theorem itemised : Itemised j decisions ⟨j.traces decisions, j.stats⟩ := by
  have traces := traces_eq written spent
  have trace {k : Nat} {d : DisjunctionId × Disjunction α} {t : Trace α}
      (hd : decisions[k]? = some d) (ht : (j.traces decisions)[k]? = some t) :
      0 < j.visits k ∧ t = Trace.rejectAll ⟨d.1, d.2.label, Table.empty⟩ (j.rejections d.1) := by
    rw [traces, List.getElem?_map] at ht
    obtain ⟨d', found, rfl⟩ := Option.map_eq_some_iff.mp ht
    rw [List.getElem?_take] at found
    split at found
    · next inside =>
      rw [hd, Option.some.injEq] at found
      subst found
      exact ⟨(visited_iff written spent).mpr (Nat.le_of_lt_succ inside), rfl⟩
    · cases found
  refine ⟨rfl, ?_, fun k => visited_iff written spent, fun k d t hd ht => ?_,
    fun k d t hd ht i r found => ?_, ?_⟩
  · simp [traces, Function.comp_def]
  · obtain ⟨reached, rfl⟩ := trace hd ht
    exact Trace.keys_rejectAll_rounds _ List.nodup_range (keys_rejections written spent hd) rfl
      reached
  · obtain ⟨-, rfl⟩ := trace hd ht
    have keys := keys_rejections written spent hd
    rw [Trace.get?_rejectAll, Table.get?_empty] at found
    obtain ⟨first, earliest, rfl⟩ := Option.map_eq_some_iff.mp found
    have member : i ∈ List.range d.2.size := by
      have listed : i ∈ (j.rejections d.1).map Prod.fst := by
        have named := List.find?_some earliest
        rw [decide_eq_true_eq] at named
        exact named ▸ List.mem_map_of_mem (List.mem_of_find?_eq_some earliest)
      rw [keys] at listed
      obtain ⟨round, repeated, inside⟩ := List.mem_flatten.mp listed
      rwa [List.eq_of_mem_replicate repeated] at inside
    exact ⟨Trace.count_rounds i List.nodup_range keys member, by rw [earliest]; rfl⟩
  · rw [attempts_eq written spent]
    refine sum_zipIdx_take (fun d => d.2.size) decisions 0 _ fun k beyond => ?_
    rw [Nat.zero_add] at beyond
    exact Nat.eq_zero_of_not_pos fun reached =>
      Nat.not_lt_of_le ((visited_iff written spent).mp reached) beyond

end Rounds

namespace ChoiceSystem

variable {σ : Type} [ExtendedScalar α] [Numeral α] [BackendOver σ α]

/-- A solve that reports a conflict went through all the decisions for nothing. -/
theorem spent_of_unsatisfied (s : ChoiceSystem σ α) {conflict : Conflict α}
    (unsatisfied : s.solve.1 = .ok (.unsatisfied conflict)) :
    ∃ log, s.journal = Journal.empty.recordAll log ∧
      Search.Spent 0 (s.disjunctions.decisions s.config.order) log ∧
      conflict = ⟨s.journal.traces (s.disjunctions.decisions s.config.order), s.journal.stats⟩ := by
  rcases s.solve_cases with ⟨-, answer⟩ | ⟨-, e, s', -, answer⟩ | ⟨usable, s', run, answer⟩
  · rw [answer] at unsatisfied
    cases unsatisfied
  · rw [answer] at unsatisfied
    cases unsatisfied
  · have same : s' = s.retractKept.2 := by rw [run]
    have decisions : s.disjunctions.decisions s.config.order =
        s'.clearValues.disjunctions.decisions s'.clearValues.config.order := by
      rw [same]
      rfl
    rw [answer] at unsatisfied
    rw [journal_of_retracted usable run, decisions]
    cases searched : s'.clearValues.search with
    | mk outcome state =>
      rw [searched] at unsatisfied
      cases outcome with
      | error e => cases unsatisfied
      | ok found =>
        cases found with
        | some commits => cases unsatisfied
        | none =>
          cases unsatisfied
          obtain ⟨log, written, spent⟩ := Search.spent_explore _ _ 0
            (s'.clearValues.disjunctions.nodup_decisions _) searched
          exact ⟨log, written, spent, rfl⟩

/-- Whatever the backend answers: a solve that reports a conflict itemises it. -/
theorem itemised_solve (s : ChoiceSystem σ α) {conflict : Conflict α}
    (unsatisfied : s.solve.1 = .ok (.unsatisfied conflict)) :
    Itemised s.journal (s.disjunctions.decisions s.config.order) conflict := by
  obtain ⟨log, written, spent, rfl⟩ := s.spent_of_unsatisfied unsatisfied
  exact itemised written spent

/-- The traces of a conflict are those that were filed in the course of the search, put in the order
of the decisions at the end. -/
theorem filed_solve (s : ChoiceSystem σ α) {conflict : Conflict α}
    (unsatisfied : s.solve.1 = .ok (.unsatisfied conflict)) :
    conflict.traces = Trace.sort ((s.disjunctions.decisions s.config.order).map Prod.fst)
      (Trace.filed s.disjunctions.label? s.journal.events.reverse) := by
  obtain ⟨log, written, spent, rfl⟩ := s.spent_of_unsatisfied unsatisfied
  refine Journal.traces_eq_sort (s.disjunctions.label?_decisions _) (fun id other => ?_)
    (s.disjunctions.nodup_decisions _)
  rw [Journal.rejections_eq, reverse_events written]
  exact spent.others id other

def congested : ChoiceSystem (Shelf 1) :=
  (ofBackend (Shelf.empty 1) ⟨.off, .registration, none⟩).afterAll
    [.newVariable "x",
      .addDisjunction none [[.relate (.ofVariable ⟨0⟩) .atLeast 1],
        [.relate (.ofVariable ⟨0⟩) .atLeast 2]],
      .addDisjunction (some "late") [[.relate (.ofVariable ⟨0⟩) .atLeast 3],
        [.relate (.ofVariable ⟨0⟩) .atLeast 4], [.relate (.ofVariable ⟨0⟩) .atLeast 5]],
      .addDisjunction (some "unseen") [[]]]

/-- With room for one constraint no two decisions are taken together, so the search comes twice to
the second one and never to the third. -/
theorem itemised_congested : ∃ conflict, congested.solve.1 = .ok (.unsatisfied conflict) ∧
    conflict.stats = ⟨8, 0, 6, 2, 1⟩ ∧ congested.journal.visits 1 = 2 ∧
    Itemised congested.journal (congested.disjunctions.decisions congested.config.order) conflict := by
  have counted : (congested.solve.1.toOption.map fun result => (result.isSatisfied, result.stats)) =
      some (false, ⟨8, 0, 6, 2, 1⟩) := by decide +kernel
  have twice : congested.journal.visits 1 = 2 := by decide +kernel
  rcases answer : congested.solve.1 with e | (solution | conflict)
  · rw [answer] at counted
    cases counted
  · rw [answer] at counted
    cases counted
  · rw [answer] at counted
    have stats : conflict.stats = ⟨8, 0, 6, 2, 1⟩ := congrArg Prod.snd (Option.some.inj counted)
    exact ⟨conflict, rfl, stats, twice, congested.itemised_solve answer⟩

end ChoiceSystem

end LinearChoice
