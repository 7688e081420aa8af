import Mathlib.Algebra.GroupWithZero.Nat
import LinearChoice.Proofs.Search.Limit
import LinearChoice.Proofs.Traces

/-!
# Searches that find nothing

A search that goes through everything and finds nothing comes to the decision
below each commitment once, and each time rejects all its alternatives in their
order. So the events of such a search can be told from how often something was
committed at each level.
-/

set_option autoImplicit false

namespace LinearChoice

variable {α : Type}

def commitsAt (level : Nat) (log : List (SearchEvent α)) : Nat :=
  log.countP fun
    | .committed _ _ depth => depth = level
    | _ => false

theorem commitsAt_append (level : Nat) (log later : List (SearchEvent α)) :
    commitsAt level (log ++ later) = commitsAt level log + commitsAt level later :=
  List.countP_append

def visitsAt (log : List (SearchEvent α)) : Nat → Nat
  | 0 => 1
  | k + 1 => commitsAt k log

namespace Journal

def recordAll (j : Journal α) (log : List (SearchEvent α)) : Journal α := log.foldl record j

theorem recordAll_append (j : Journal α) (log later : List (SearchEvent α)) :
    j.recordAll (log ++ later) = (j.recordAll log).recordAll later := List.foldl_append

theorem events_recordAll (j : Journal α) (log : List (SearchEvent α)) :
    (j.recordAll log).events = log.reverse ++ j.events := by
  induction log generalizing j with
  | nil => rfl
  | cons e log ih =>
    change ((j.record e).recordAll log).events = _
    rw [ih, List.reverse_cons, List.append_assoc]
    rfl

theorem stats_recordAll (j : Journal α) (log : List (SearchEvent α)) :
    (j.recordAll log).stats = log.foldl Stats.after j.stats := by
  induction log generalizing j with
  | nil => rfl
  | cons e log ih => exact ih (j.record e)

theorem grows_recordAll (j : Journal α) (log : List (SearchEvent α)) :
    j.Grows (j.recordAll log) := by
  induction log generalizing j with
  | nil => exact .refl j
  | cons e log ih => exact (grows_record j e).trans (ih (j.record e))

end Journal

namespace Search

/-- The decisions `ds`, on top of `depth` others, were gone through `visits` times among the events,
one time after the other. -/
def Rounds : Nat → Nat → List (DisjunctionId × Disjunction α) → List (SearchEvent α) → Prop
  | _, depth, [], log => ∀ level, depth ≤ level → commitsAt level log = 0
  | visits, depth, d :: ds, log =>
    (rejectionsOf d.1 log).map Prod.fst = (List.replicate visits (List.range d.2.size)).flatten ∧
    (visits = 0 → commitsAt depth log = 0) ∧
    Rounds (commitsAt depth log) (depth + 1) ds log

def load (log : List (SearchEvent α)) : Nat → Nat → List (DisjunctionId × Disjunction α) → Nat
  | _, _, [] => 0
  | visits, depth, d :: ds => visits * d.2.size + load log (commitsAt depth log) (depth + 1) ds

variable {ds : List (DisjunctionId × Disjunction α)} {log later : List (SearchEvent α)}
  {depth visits more : Nat}

theorem Rounds.append (h : Rounds visits depth ds log) (h' : Rounds more depth ds later) :
    Rounds (visits + more) depth ds (log ++ later) := by
  induction ds generalizing visits more depth with
  | nil =>
    intro level inside
    rw [commitsAt_append, h level inside, h' level inside]
  | cons d ds ih =>
    obtain ⟨keys, reached, below⟩ := h
    obtain ⟨keys', reached', below'⟩ := h'
    refine ⟨?_, fun none => ?_, ?_⟩
    · rw [rejectionsOf_append, List.map_append, keys, keys', ← List.flatten_append,
        List.replicate_append_replicate]
    · obtain ⟨rfl, rfl⟩ := Nat.add_eq_zero_iff.mp none
      rw [commitsAt_append, reached rfl, reached' rfl]
    · rw [commitsAt_append]
      exact ih below below'

theorem load_append (visits more depth : Nat) (ds : List (DisjunctionId × Disjunction α)) :
    load (log ++ later) (visits + more) depth ds =
      load log visits depth ds + load later more depth ds := by
  induction ds generalizing visits more depth with
  | nil => rfl
  | cons d ds ih =>
    rw [load, load, load, commitsAt_append, ih, Nat.add_mul]
    omega

structure Silent (depth : Nat) (ds : List (DisjunctionId × Disjunction α))
    (log : List (SearchEvent α)) : Prop where
  rejections : ∀ d ∈ ds, rejectionsOf d.1 log = []
  commits : ∀ level, depth ≤ level → commitsAt level log = 0

theorem silent_nil : Silent depth ds [] := ⟨fun _ _ => rfl, fun _ _ => rfl⟩

theorem Silent.inner {d : DisjunctionId × Disjunction α} (h : Silent depth (d :: ds) log) :
    Silent (depth + 1) ds log :=
  ⟨fun d hd => h.rejections d (List.mem_cons_of_mem _ hd),
    fun level inside => h.commits level (Nat.le_of_succ_le inside)⟩

theorem Silent.rounds (h : Silent depth ds log) : Rounds 0 depth ds log := by
  induction ds generalizing depth with
  | nil => exact h.commits
  | cons d ds ih =>
    have none := h.commits depth (Nat.le_refl depth)
    refine ⟨?_, fun _ => none, ?_⟩
    · rw [h.rejections d List.mem_cons_self]
      rfl
    · rw [none]
      exact ih h.inner

theorem Silent.load (h : Silent depth ds log) : load log 0 depth ds = 0 := by
  induction ds generalizing depth with
  | nil => rfl
  | cons d ds ih =>
    rw [Search.load, h.commits depth (Nat.le_refl depth), ih h.inner, Nat.zero_mul]

structure Spent (depth : Nat) (ds : List (DisjunctionId × Disjunction α))
    (log : List (SearchEvent α)) : Prop where
  rounds : Rounds 1 depth ds log
  others : ∀ id, id ∉ ds.map Prod.fst → rejectionsOf id log = []
  shallow : ∀ level, level < depth → commitsAt level log = 0
  attempts : log.countP SearchEvent.isAttempt = load log 1 depth ds

structure Dealt (depth : Nat) (d : DisjunctionId × Disjunction α)
    (ds : List (DisjunctionId × Disjunction α)) (alternatives : List Nat)
    (log : List (SearchEvent α)) : Prop where
  keys : (rejectionsOf d.1 log).map Prod.fst = alternatives
  rounds : Rounds (commitsAt depth log) (depth + 1) ds log
  others : ∀ id, id ∉ (d :: ds).map Prod.fst → rejectionsOf id log = []
  shallow : ∀ level, level < depth → commitsAt level log = 0
  attempts : log.countP SearchEvent.isAttempt =
    alternatives.length + load log (commitsAt depth log) (depth + 1) ds

section Dealt

variable {d : DisjunctionId × Disjunction α} {alternatives next : List Nat} {index : Nat}

theorem dealt_nil : Dealt depth d ds [] [] :=
  ⟨rfl, silent_nil.rounds, fun _ _ => rfl, fun _ _ => rfl,
    ((Nat.zero_add _).trans silent_nil.load).symm⟩

theorem Dealt.append (h : Dealt depth d ds alternatives log)
    (h' : Dealt depth d ds next later) :
    Dealt depth d ds (alternatives ++ next) (log ++ later) := by
  refine ⟨?_, ?_, fun id other => ?_, fun level above => ?_, ?_⟩
  · rw [rejectionsOf_append, List.map_append, h.keys, h'.keys]
  · rw [commitsAt_append]
    exact h.rounds.append h'.rounds
  · rw [rejectionsOf_append, h.others id other, h'.others id other, List.append_nil]
  · rw [commitsAt_append, h.shallow level above, h'.shallow level above]
  · rw [List.countP_append, h.attempts, h'.attempts, List.length_append, commitsAt_append,
      load_append]
    omega

/-- An alternative that did not fit. -/
theorem dealt_unfit (apart : d.1 ∉ ds.map Prod.fst) (seen : Pruner α)
    (reason : RejectReason α) :
    Dealt depth d ds [index] [.attempted d.1 index seen, .rejected d.1 index reason] := by
  have silent : Silent (depth + 1) ds
      [.attempted d.1 index seen, .rejected d.1 index reason] := by
    refine ⟨fun e he => ?_, fun level inside => rfl⟩
    have other : d.1 ≠ e.1 := fun same => apart (same ▸ List.mem_map_of_mem he)
    simp [rejectionsOf, other]
  refine ⟨?_, silent.rounds, fun id other => ?_, fun level above => rfl, ?_⟩
  · simp [rejectionsOf]
  · have apart : d.1 ≠ id := fun same => other (same ▸ List.mem_cons_self)
    simp [rejectionsOf, apart]
  · exact congrArg (1 + ·) silent.load.symm

/-- An alternative that was committed, until nothing worked below it. -/
theorem Spent.dealt (h : Spent (depth + 1) ds log) (apart : d.1 ∉ ds.map Prod.fst)
    (seen : Pruner α) :
    Dealt depth d ds [index]
      ([.attempted d.1 index seen, .committed d.1 index depth] ++ log ++
        [.rejected d.1 index .noCompletion]) := by
  have entry : Silent (depth + 1) ds
      [.attempted d.1 index seen, .committed d.1 index depth] := by
    refine ⟨fun e he => rfl, fun level inside => ?_⟩
    have other : depth ≠ level := by omega
    simp [commitsAt, other]
  have exit : Silent (depth + 1) ds [.rejected d.1 index .noCompletion] := by
    refine ⟨fun e he => ?_, fun level inside => rfl⟩
    have other : d.1 ≠ e.1 := fun same => apart (same ▸ List.mem_map_of_mem he)
    simp [rejectionsOf, other]
  have once : commitsAt depth ([.attempted d.1 index seen, .committed d.1 index depth] ++ log ++
      [.rejected d.1 index .noCompletion]) = 0 + 1 + 0 := by
    rw [commitsAt_append, commitsAt_append, h.shallow depth (Nat.lt_succ_self depth)]
    simp [commitsAt]
  refine ⟨?_, ?_, fun id other => ?_, fun level above => ?_, ?_⟩
  · rw [rejectionsOf_append, rejectionsOf_append, h.others d.1 apart]
    simp [rejectionsOf]
  · rw [once]
    exact (entry.rounds.append h.rounds).append exit.rounds
  · rw [List.map_cons, List.mem_cons, not_or] at other
    rw [rejectionsOf_append, rejectionsOf_append, h.others id other.2]
    simp [rejectionsOf, Ne.symm other.1]
  · have other : depth ≠ level := by omega
    rw [commitsAt_append, commitsAt_append, h.shallow level (Nat.lt_succ_of_lt above)]
    simp [commitsAt, other]
  · rw [once, load_append, load_append, entry.load, exit.load, List.countP_append,
      List.countP_append, h.attempts]
    simp [List.countP_cons, SearchEvent.isAttempt]

/-- With all alternatives tried, the search through the decision is over. -/
theorem Dealt.spent (h : Dealt depth d ds (List.range d.2.size) log) :
    Spent depth (d :: ds) log := by
  refine ⟨⟨?_, nofun, h.rounds⟩, h.others, h.shallow, ?_⟩
  · rw [h.keys]
    simp
  · rw [h.attempts, List.length_range, load, Nat.one_mul]

end Dealt

section Visits

variable {k : Nat}

theorem Rounds.keys (h : Rounds (visitsAt log depth) depth ds log)
    {d : DisjunctionId × Disjunction α} (hd : ds[k]? = some d) :
    (rejectionsOf d.1 log).map Prod.fst =
      (List.replicate (visitsAt log (depth + k)) (List.range d.2.size)).flatten := by
  induction ds generalizing depth k with
  | nil => cases hd
  | cons d' ds ih =>
    obtain ⟨keys, -, below⟩ := h
    cases k with
    | zero =>
      cases hd
      exact keys
    | succ k =>
      have found : ds[k]? = some d := hd
      rw [Nat.add_comm k 1, ← Nat.add_assoc]
      exact ih below found

theorem load_visits (log : List (SearchEvent α)) (depth : Nat)
    (ds : List (DisjunctionId × Disjunction α)) :
    load log (visitsAt log depth) depth ds =
      ((ds.zipIdx depth).map fun e => visitsAt log e.2 * e.1.2.size).sum := by
  induction ds generalizing depth with
  | nil => rfl
  | cons d ds ih =>
    rw [load, List.zipIdx_cons, List.map_cons, List.sum_cons, ← ih (depth + 1)]
    rfl

/-- Below a decision that was not come to there is none. -/
theorem Rounds.visits_succ (h : Rounds (visitsAt log depth) depth ds log) (inside : depth ≤ k)
    (none : visitsAt log k = 0) : visitsAt log (k + 1) = 0 := by
  induction ds generalizing depth with
  | nil => exact h k inside
  | cons d ds ih =>
    obtain ⟨-, reached, below⟩ := h
    rcases Nat.eq_or_lt_of_le inside with rfl | deeper
    · exact reached none
    · have below : Rounds (visitsAt log (depth + 1)) (depth + 1) ds log := below
      exact ih below deeper

theorem Rounds.visits_zero (h : Rounds 1 0 ds log) {j : Nat} (deeper : k ≤ j)
    (none : visitsAt log k = 0) : visitsAt log j = 0 := by
  have start : Rounds (visitsAt log 0) 0 ds log := h
  induction j, deeper using Nat.le_induction with
  | base => exact none
  | succ j _ ih => exact start.visits_succ (Nat.zero_le j) ih

theorem lt_maxDepth_iff (log : List (SearchEvent α)) (stats : Stats) :
    k < (log.foldl Stats.after stats).maxDepth ↔
      k < stats.maxDepth ∨ ∃ level, k ≤ level ∧ 0 < commitsAt level log := by
  induction log generalizing stats with
  | nil => simp [commitsAt]
  | cons e log ih =>
    have split (level : Nat) : commitsAt level (e :: log) = commitsAt level
      [e] + commitsAt level log :=
      commitsAt_append level [e] log
    have one : k < (stats.after e).maxDepth ↔
        k < stats.maxDepth ∨ ∃ level, k ≤ level ∧ 0 < commitsAt level [e] := by
      cases e with
      | attempted => simp [Stats.after, commitsAt]
      | rejected d i reason => cases reason <;> simp [Stats.after, commitsAt]
      | committed d i depth =>
        have here (level : Nat) :
            0 < commitsAt level [(.committed d i depth : SearchEvent α)] ↔ depth = level := by
          simp only [commitsAt, List.countP_singleton, decide_eq_true_eq]
          split <;> simp_all
        simp only [Stats.after, here, exists_eq_right']
        omega
    rw [List.foldl_cons, ih, one, or_assoc, ← exists_or]
    simp only [split, Nat.add_pos_iff_pos_or_pos, and_or_left]

/-- The greatest depth tells which decisions a search came to. -/
theorem Rounds.visited_iff (h : Rounds 1 0 ds log) :
    0 < visitsAt log k ↔ k ≤ (log.foldl Stats.after Stats.zero).maxDepth := by
  cases k with
  | zero => exact ⟨fun _ => Nat.zero_le _, fun _ => Nat.one_pos⟩
  | succ k =>
    rw [Nat.succ_le_iff, lt_maxDepth_iff]
    constructor
    · exact fun visited => Or.inr ⟨k, Nat.le_refl k, visited⟩
    · rintro (none | ⟨level, deeper, visited⟩)
      · exact absurd none (Nat.not_lt_zero k)
      · refine Nat.pos_of_ne_zero fun none => ?_
        have below := h.visits_zero (Nat.succ_le_succ deeper) none
        exact visited.ne' below

end Visits

section Searching

variable {σ : Type} [ExtendedScalar α] [BackendOver σ α] {setting : Setting}
  {d : DisjunctionId × Disjunction α}
  {below : State σ α → Outcome × State σ α} {s s' : State σ α}

/-- What a search wrote down that found nothing. -/
theorem dealt_tryEach (apart : d.1 ∉ ds.map Prod.fst)
    (deep : ∀ s s' : State σ α, below s = (.ok none, s') →
      ∃ log, s'.journal = s.journal.recordAll log ∧ Spent (depth + 1) ds log)
    (alternatives : List (Alternative α)) (index : Nat)
    (left : d.2.alternatives.drop index = alternatives)
    (run : tryEach setting d.1 depth below index alternatives s = (.ok none, s')) :
    ∃ log, s'.journal = s.journal.recordAll log ∧
      Dealt depth d ds ((List.range d.2.size).drop index) log := by
  induction alternatives generalizing index s with
  | nil =>
    cases run
    have done : (List.range d.2.size).drop index = [] := by
      rw [List.drop_eq_nil_iff] at left ⊢
      rwa [List.length_range]
    exact ⟨[], rfl, done ▸ dealt_nil⟩
  | cons alternative rest ih =>
    obtain ⟨here, later⟩ := drop_succ left
    have inside : index < (List.range d.2.size).length := by
      rw [List.length_range]
      exact (List.getElem?_eq_some_iff.mp here).1
    rw [List.drop_eq_getElem_cons inside, List.getElem_range, ← List.singleton_append]
    have journal := journal_attempt (s.record (.attempted d.1 index s.pruner)) d.1 index alternative
    have turn := turn setting d.1 depth below index alternative rest s
    generalize tryEach setting d.1 depth below index (alternative :: rest) s = result at turn run
    cases turn with
    | limited | failed | completed | unwound | stuck => cases run
    | @unfit s₁ verdict trial no =>
      rw [trial] at journal
      obtain ⟨log, written, dealt⟩ := ih (index + 1) later run
      refine ⟨_, ?_, (dealt_unfit apart s.pruner (setting.reason verdict)).append dealt⟩
      rw [written, Journal.recordAll_append]
      change (s₁.journal.record _).recordAll log = _
      rw [journal]
      rfl
    | @reentered s₁ s₂ s₃ commit trial explored back =>
      rw [trial] at journal
      obtain ⟨inner, written, spent⟩ := deep _ _ explored
      obtain ⟨log, written', dealt⟩ := ih (index + 1) later run
      refine ⟨_, ?_, (spent.dealt apart s.pruner).append dealt⟩
      rw [written', Journal.recordAll_append, Journal.recordAll_append, Journal.recordAll_append]
      change (s₃.journal.record _).recordAll log = _
      rw [journal_of_retract back, written]
      change ((s₁.journal.record _ |>.recordAll inner).record _).recordAll log = _
      rw [journal]
      rfl

theorem spent_explore (setting : Setting) (ds : List (DisjunctionId × Disjunction α)) (depth : Nat)
    (nodup : (ds.map Prod.fst).Nodup) (run : explore setting depth ds s = (.ok none, s')) :
    ∃ log, s'.journal = s.journal.recordAll log ∧ Spent depth ds log := by
  induction ds generalizing depth s s' with
  | nil =>
    change s.leaf = _ at run
    have journal : s.leaf.2.journal = s.journal := by
      unfold State.leaf
      split <;> rfl
    rw [run] at journal
    exact ⟨[], journal, fun _ _ => rfl, fun _ _ => rfl, fun _ _ => rfl, rfl⟩
  | cons d ds ih =>
    obtain ⟨apart, others⟩ := List.nodup_cons.mp nodup
    obtain ⟨log, written, dealt⟩ := dealt_tryEach apart (fun s s' run => ih (depth + 1) others run)
      d.2.alternatives 0 rfl run
    exact ⟨log, written, dealt.spent⟩

end Searching

end Search

end LinearChoice
