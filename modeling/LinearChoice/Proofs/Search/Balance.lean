import LinearChoice.Proofs.Pruner.Undo
import LinearChoice.Proofs.Search.Tried

/-!
# The balance of a search

Every attempt is accounted for: the alternative is rejected, or it is committed,
and what is committed is taken back or left in place. The counts are kept at
different moments, and they balance when a search is over.
-/

set_option autoImplicit false

namespace LinearChoice

variable {α : Type}

def SearchEvent.isCommit : SearchEvent α → Bool
  | .committed _ _ _ => true
  | .attempted _ _ _ | .rejected _ _ _ => false

def Stats.rejections (s : Stats) : Nat := s.pruned + s.refused + s.backtracks

namespace Journal

def commits (j : Journal α) : Nat := j.events.countP SearchEvent.isCommit

structure Balanced (left : Nat) (j k : Journal α) : Prop where
  attempts : k.stats.attempts + j.stats.rejections =
    j.stats.attempts + k.stats.rejections + left
  commits : k.commits + j.stats.backtracks = j.commits + k.stats.backtracks + left
  depth : j.stats.maxDepth ≤ k.stats.maxDepth

variable {j k l : Journal α} {left more : Nat}

theorem balanced_refl (j : Journal α) : Balanced 0 j j := ⟨rfl, rfl, Nat.le_refl _⟩

theorem Balanced.trans (first : Balanced left j k) (second : Balanced more k l) :
    Balanced (left + more) j l := by
  obtain ⟨attempts, commits, depth⟩ := first
  obtain ⟨attempts', commits', depth'⟩ := second
  constructor <;> omega

theorem balanced_unfit (j : Journal α) (id : DisjunctionId) (index : Nat) (seen : Pruner α)
    (setting : Search.Setting) {verdict : Search.Attempt α} (no : verdict.Unfit) :
    Balanced 0 j ((j.record (.attempted id index seen)).record
      (.rejected id index (setting.reason verdict))) := by
  cases verdict with
  | feasible commit => exact no.elim
  | pruned c | infeasible i =>
    refine ⟨?_, rfl, Nat.le_refl _⟩
    simp only [record, Stats.after, Stats.rejections, Search.Setting.reason]
    omega

theorem balanced_committed (j : Journal α) (id : DisjunctionId) (index depth : Nat)
    (seen : Pruner α) :
    Balanced 1 j ((j.record (.attempted id index seen)).record (.committed id index depth)) := by
  refine ⟨?_, ?_, Nat.le_max_left _ _⟩
  · simp only [record, Stats.after, Stats.rejections]
    omega
  · have once : ((j.record (.attempted id index seen)).record
        (.committed id index depth)).commits = j.commits + 1 := List.countP_cons_of_pos rfl
    rw [once]
    simp only [record, Stats.after]
    omega

theorem Balanced.takeBack (h : Balanced (left + 1) j k) (id : DisjunctionId) (index : Nat) :
    Balanced left j (k.record (.rejected id index .noCompletion)) := by
  obtain ⟨attempts, commits, depth⟩ := h
  refine ⟨?_, ?_, depth⟩
  · simp only [record, Stats.after, Stats.rejections] at attempts ⊢
    omega
  · have same : (k.record (.rejected id index .noCompletion)).commits = k.commits := rfl
    rw [same]
    simp only [record, Stats.after] at commits ⊢
    omega

end Journal

namespace Search

open Journal (Balanced)

variable {σ : Type} {s t u : State σ α}

def Lenient (s t : State σ α) : Prop :=
  s.pruner.mode = .off →
    t.pruner.mode = .off ∧ t.journal.stats.pruned = s.journal.stats.pruned

theorem lenient_refl (s : State σ α) : Lenient s s := fun off => ⟨off, rfl⟩

theorem Lenient.trans (first : Lenient s t) (second : Lenient t u) : Lenient s u := by
  intro off
  obtain ⟨stays, same⟩ := first off
  obtain ⟨stays', same'⟩ := second stays
  exact ⟨stays', same'.trans same⟩

inductive Squared (depth n : Nat) (s : State σ α) : Outcome × State σ α → Prop
  | found {commits : List Commit} {t : State σ α}
      (balanced : Balanced commits.length s.journal t.journal) (lenient : Lenient s t)
      (deep : depth ≤ s.journal.stats.maxDepth → depth + n ≤ t.journal.stats.maxDepth) :
      Squared depth n s (.ok (some commits), t)
  | exhausted {t : State σ α} (balanced : Balanced 0 s.journal t.journal) (lenient : Lenient s t) :
      Squared depth n s (.ok none, t)
  | aborted {e : SystemError} {t : State σ α} : Squared depth n s (.error e, t)

/-- What went before counts in. -/
theorem Squared.after {depth n : Nat} {answer : Outcome × State σ α} (h : Squared depth n t answer)
    (balanced : Balanced 0 s.journal t.journal) (lenient : Lenient s t) :
    Squared depth n s answer := by
  cases h with
  | found balanced' lenient' deep =>
    have whole := balanced.trans balanced'
    rw [Nat.zero_add] at whole
    exact .found whole (lenient.trans lenient') fun inside =>
      deep (Nat.le_trans inside balanced.depth)
  | exhausted balanced' lenient' =>
    exact .exhausted (balanced.trans balanced') (lenient.trans lenient')
  | aborted => exact .aborted

variable [ExtendedScalar α] [BackendOver σ α] {setting : Setting} {id : DisjunctionId}
  {depth index n : Nat}
  {below : State σ α → Outcome × State σ α} {alternative : Alternative α} {verdict : Attempt α}
  {commit : Commit}

omit [ExtendedScalar α] in
theorem lenient_retract (s : State σ α) (c : Commit) : Lenient s (s.retract c).2 :=
  fun off => ⟨off, rfl⟩

theorem journal_trial {outcome : Except SystemError (Attempt α)}
    (trial : (s.record (.attempted id index s.pruner)).attempt id index alternative =
      (outcome, t)) : t.journal = s.journal.record (.attempted id index s.pruner) := by
  have journal := journal_attempt (s.record (.attempted id index s.pruner)) id index alternative
  rwa [trial] at journal

theorem lenient_trial {outcome : Except SystemError (Attempt α)}
    (trial : (s.record (.attempted id index s.pruner)).attempt id index alternative =
      (outcome, t)) : Lenient s t := by
  intro off
  refine ⟨?_, congrArg (fun j => j.stats.pruned) (journal_trial trial)⟩
  have attempted := attempted (s.record (.attempted id index s.pruner)) id index alternative
  rw [trial] at attempted
  cases attempted with
  | pruned | refused | failed | stuck => exact off
  | committed => exact (Pruner.extends_commit s.pruner alternative).mode.trans off

theorem lenient_unfit
    (trial : (s.record (.attempted id index s.pruner)).attempt id index alternative =
      (.ok verdict, t)) (no : verdict.Unfit) :
    Lenient s (t.record (.rejected id index (setting.reason verdict))) := by
  intro off
  obtain ⟨stays, same⟩ := lenient_trial trial off
  refine ⟨stays, ?_⟩
  cases verdict with
  | feasible commit => exact no.elim
  | infeasible i => exact same
  | pruned c =>
    -- A pruner that is off lets everything pass.
    have attempted := attempted (s.record (.attempted id index s.pruner)) id index alternative
    rw [trial] at attempted
    cases attempted with
    | pruned rejected =>
      have check : s.pruner.check alternative = .ok () := by rw [Pruner.check, off]
      exact nomatch check.symm.trans rejected

theorem squared_tryEach (deep : ∀ s, Squared (depth + 1) n s (below s))
    (alternatives : List (Alternative α)) (index : Nat) (s : State σ α) :
    Squared depth (n + 1) s (tryEach setting id depth below index alternatives s) := by
  induction alternatives generalizing index s with
  | nil => exact .exhausted (Journal.balanced_refl _) (lenient_refl s)
  | cons alternative rest ih =>
    have turn := turn setting id depth below index alternative rest s
    generalize tryEach setting id depth below index (alternative :: rest) s = result at turn ⊢
    -- What is below a commitment starts one attempt and one commitment later.
    have entered {s₁ : State σ α} {commit : Commit}
        (trial : (s.record (.attempted id index s.pruner)).attempt id index alternative =
          (.ok (.feasible commit), s₁)) :
        Balanced 1 s.journal (s₁.record (.committed id index depth)).journal := by
      have written := Journal.balanced_committed s.journal id index depth s.pruner
      rwa [← journal_trial trial] at written
    cases turn with
    | limited | failed | unwound | stuck => exact .aborted
    | @unfit s₁ verdict trial no =>
      have balanced := Journal.balanced_unfit s.journal id index s.pruner setting no
      rw [← journal_trial trial] at balanced
      exact (ih _ _).after balanced (lenient_unfit trial no)
    | @completed s₁ s₂ commit commits trial run =>
      have inner := deep (s₁.record (.committed id index depth))
      rw [run] at inner
      cases inner with
      | found balanced lenient inside =>
        refine .found ?_ ((lenient_trial trial).trans lenient) fun _ => ?_
        · rw [List.length_cons, Nat.add_comm]
          exact (entered trial).trans balanced
        · have reached := inside (Nat.le_max_right _ _)
          omega
    | @reentered s₁ s₂ s₃ commit trial run back =>
      have inner := deep (s₁.record (.committed id index depth))
      rw [run] at inner
      cases inner with
      | exhausted balanced lenient =>
        have taken := lenient_retract s₂ commit
        rw [back] at taken
        have round := ((entered trial).trans balanced).takeBack id index
        rw [← journal_of_retract back] at round
        exact (ih _ _).after round (((lenient_trial trial).trans lenient).trans taken)

theorem squared_explore (setting : Setting) (ds : List (DisjunctionId × Disjunction α))
    (depth : Nat) (s : State σ α) : Squared depth ds.length s (explore setting depth ds s) := by
  induction ds generalizing depth s with
  | nil =>
    change Squared depth 0 s s.leaf
    unfold State.leaf
    split
    · exact .found (Journal.balanced_refl _) (fun off => ⟨off, rfl⟩) id
    · exact .exhausted (Journal.balanced_refl _) fun off => ⟨off, rfl⟩
    · exact .aborted
  | cons d ds ih => exact squared_tryEach (fun s => ih (depth + 1) s) d.2.alternatives 0 s

end Search

end LinearChoice
