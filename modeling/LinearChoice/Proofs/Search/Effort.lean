import Mathlib.Algebra.BigOperators.Ring.List
import Mathlib.Algebra.Ring.Nat
import Mathlib.Data.List.Infix
import LinearChoice.Proofs.Backend.Overheard
import LinearChoice.Proofs.Search.Custody
import LinearChoice.Proofs.Search.Loop

/-!
# The effort of a search

A search ends, whatever its backend answers. It attempts no more than there are
ways to decide the first few disjunctions, asks for a resolve no more often
than there are combinations, and asks for the removal only of what it added.
-/

set_option autoImplicit false
set_option linter.unusedSectionVars false

namespace LinearChoice.Search

def choices (sizes : List Nat) : Nat := (sizes.inits.tail.map List.prod).sum

theorem choices_cons (size : Nat) (sizes : List Nat) :
    choices (size :: sizes) = size * (1 + choices sizes) := by
  have rest : (sizes.inits.map List.prod).sum = 1 + choices sizes := by
    cases sizes <;> simp [choices]
  have first : List.prod ∘ List.cons size = fun t => size * List.prod t :=
    funext fun _ => List.prod_cons
  rw [choices, List.inits_cons, List.tail_cons, List.map_map, first, List.sum_map_mul_left, rest]

theorem passesFor_le (sizes : List Nat) : passesFor sizes ≤ 2 * choices sizes + 1 := by
  induction sizes with
  | nil => exact Nat.zero_le _
  | cons size sizes ih =>
    rw [passesFor, choices_cons]
    have level : size * (1 + passesFor sizes) ≤ size * (2 * (1 + choices sizes)) :=
      Nat.mul_le_mul_left _ (by omega)
    rw [Nat.mul_left_comm] at level
    omega

variable {σ α : Type} [ExtendedScalar α] [BackendOver σ α]

structure Within (attempts updates deepest : Nat) (s t : State (Overheard σ α) α) : Prop where
  attempts : t.journal.stats.attempts ≤ s.journal.stats.attempts + attempts
  updates : Exchange.updates t.backend.exchanges ≤ Exchange.updates s.backend.exchanges + updates
  depth : t.journal.stats.maxDepth ≤ max s.journal.stats.maxDepth deepest
  refusals : Exchange.refusals t.backend.exchanges + s.journal.stats.attempts ≤
    Exchange.refusals s.backend.exchanges + t.journal.stats.attempts

namespace Within

variable {a a' u u' deepest : Nat} {s t v : State (Overheard σ α) α}

omit [BackendOver σ α] in
theorem trans (first : Within a u deepest s t) (second : Within a' u' deepest t v) :
    Within (a + a') (u + u') deepest s v := by
  obtain ⟨attempts, updates, depth, refusals⟩ := first
  obtain ⟨attempts', updates', depth', refusals'⟩ := second
  constructor <;> omega

omit [BackendOver σ α] in
theorem mono (h : Within a u deepest s t) (attempts : a ≤ a') (updates : u ≤ u') :
    Within a' u' deepest s t := by
  obtain ⟨attempts', updates', depth, refusals⟩ := h
  constructor <;> omega

end Within

variable {s s₁ s₂ : State (Overheard σ α) α} {id : DisjunctionId} {depth index deepest : Nat}
  {alternative : Alternative α}

omit [BackendOver σ α] in
theorem within_refl (deepest : Nat) (s : State (Overheard σ α) α) : Within 0 0 deepest s s := by
  constructor <;> omega

omit [BackendOver σ α] in
theorem within_rejected (deepest : Nat) (s : State (Overheard σ α) α) (id : DisjunctionId)
    (index : Nat)
    (reason : RejectReason α) : Within 0 0 deepest s (s.record (.rejected id index reason)) := by
  obtain ⟨attempts, updates, depth, refusals⟩ := within_refl deepest s
  cases reason <;> exact ⟨attempts, updates, depth, refusals⟩

omit [BackendOver σ α] in
theorem within_committed (s : State (Overheard σ α) α) (id : DisjunctionId) (index : Nat)
    (deep : depth < deepest) : Within 0 0 deepest s (s.record (.committed id index depth)) where
  attempts := Nat.le_refl _
  updates := Nat.le_refl _
  depth := by
    change max s.journal.stats.maxDepth (depth + 1) ≤ _
    omega
  refusals := Nat.le_refl _

theorem within_retract (deepest : Nat) (s : State (Overheard σ α) α) (c : Commit) :
    Within 0 0 deepest s (s.retract c).2 where
  attempts := Nat.le_refl _
  updates := Nat.le_of_eq (Overheard.countP_removeAll (fun _ _ => rfl) c.constraints s.backend)
  depth := Nat.le_max_left _ _
  refusals := Nat.add_le_add_right
    (Nat.le_of_eq (Overheard.countP_removeAll (fun _ _ => rfl) c.constraints s.backend)) _

theorem leaf_state (s : State (Overheard σ α) α) :
    s.leaf.2 = { s with backend := (Backend.updateVariables s.backend).2 } := by
  unfold State.leaf
  split
  all_goals
    next run => rw [run]

theorem updates_leaf (s : State (Overheard σ α) α) :
    Exchange.updates s.leaf.2.backend.exchanges = Exchange.updates s.backend.exchanges + 1 := by
  rw [leaf_state]
  exact List.countP_cons_of_pos rfl

theorem within_leaf (deepest : Nat) (s : State (Overheard σ α) α) :
    Within 0 1 deepest s s.leaf.2 := by
  have updates := updates_leaf s
  rw [leaf_state] at updates ⊢
  refine ⟨Nat.le_refl _, updates.le, Nat.le_max_left _ _, Nat.add_le_add_right ?_ _⟩
  exact Nat.le_of_eq (List.countP_cons_of_neg Bool.false_ne_true)

/-- An attempt asks for removals and additions, and of the additions only the last one may be
refused. -/
theorem countP_attempt {p : Exchange α → Bool} {n : Nat}
    (removed : ∀ id answer, p (.remove id answer) = false)
    (accepted : ∀ c id, p (.add c (.ok id)) = false)
    (refused : ∀ c e, [Exchange.add c (.error e)].countP p ≤ n) (s : State (Overheard σ α) α)
    (id : DisjunctionId) (index : Nat) (alternative : Alternative α) :
    (s.attempt id index alternative).2.backend.exchanges.countP p ≤
      s.backend.exchanges.countP p + n := by
  have added := Overheard.countP_addAll accepted refused [] alternative s.backend
  have back (ids : List ConstraintId) (b : Overheard σ α) :=
    Overheard.countP_removeAll removed ids b
  have attempted := attempted s id index alternative
  generalize s.attempt id index alternative = answer at attempted ⊢
  cases attempted with
  | pruned => exact Nat.le_add_right _ _
  | committed passed run =>
    rw [run] at added
    exact added
  | @refused ids b _ passed run removal | @failed _ ids b _ passed run removal
  | @stuck _ _ ids b _ passed run removal =>
    have undone := back ids b
    rw [run] at added
    rw [removal] at undone
    exact undone.trans_le added

theorem within_trial {verdict : Except SystemError (Attempt α)} (deepest : Nat)
    (trial : (s.record (.attempted id index s.pruner)).attempt id index alternative =
      (verdict, s₁)) : Within 1 0 deepest s s₁ := by
  have journal := journal_attempt (s.record (.attempted id index s.pruner)) id index alternative
  have counted {p : Exchange α → Bool} {n : Nat}
      (removed : ∀ id answer, p (.remove id answer) = false)
      (accepted : ∀ c id, p (.add c (.ok id)) = false)
      (refused : ∀ c e, [Exchange.add c (.error e)].countP p ≤ n) :
      s₁.backend.exchanges.countP p ≤ s.backend.exchanges.countP p + n := by
    have counted := countP_attempt removed accepted refused
      (s.record (.attempted id index s.pruner)) id index alternative
    rwa [trial] at counted
  rw [trial] at journal
  have once : s₁.journal.stats.attempts = s.journal.stats.attempts + 1 := by
    rw [journal]
    rfl
  have refusals : Exchange.refusals s₁.backend.exchanges ≤
      Exchange.refusals s.backend.exchanges + 1 :=
    counted (fun _ _ => rfl) (fun _ _ => rfl) (fun _ _ => Nat.le_refl _)
  refine ⟨once.le, ?_, ?_, by omega⟩
  · exact counted (fun _ _ => rfl) (fun _ _ => rfl) (fun _ _ => Nat.le_refl _)
  · rw [journal]
    exact Nat.le_max_left _ _

section Level

variable {setting : Setting} {below : State (Overheard σ α) α → Outcome × State (Overheard σ α) α}
  {a u : Nat} {commit : Commit} {outcome : Outcome}

theorem within_below (deep : ∀ s, Within a u deepest s (below s).2) (here : depth < deepest)
    (trial : (s.record (.attempted id index s.pruner)).attempt id index alternative =
      (.ok (.feasible commit), s₁))
    (run : below (s₁.record (.committed id index depth)) = (outcome, s₂)) :
    Within (1 + a) u deepest s s₂ := by
  have inner := deep (s₁.record (.committed id index depth))
  rw [run] at inner
  have entered := (within_trial deepest trial).trans (within_committed s₁ id index here)
  exact (entered.trans inner).mono (Nat.le_refl _) (by omega)

/-- Each alternative is attempted once, and the search below it is run once at most. -/
theorem within_tryEach (deep : ∀ s, Within a u deepest s (below s).2) (here : depth < deepest)
    (alternatives : List (Alternative α)) (index : Nat) (s : State (Overheard σ α) α) :
    Within (alternatives.length * (1 + a)) (alternatives.length * u) deepest s
      (tryEach setting id depth below index alternatives s).2 := by
  induction alternatives generalizing index s with
  | nil => exact (within_refl deepest s).mono (Nat.zero_le _) (Nat.zero_le _)
  | cons alternative rest ih =>
    have turn := turn setting id depth below index alternative rest s
    generalize tryEach setting id depth below index (alternative :: rest) s = result at turn ⊢
    rw [List.length_cons, Nat.succ_mul, Nat.succ_mul]
    cases turn with
    | limited reached => exact (within_refl deepest s).mono (Nat.zero_le _) (Nat.zero_le _)
    | failed trial => exact (within_trial deepest trial).mono (by omega) (Nat.zero_le _)
    | unfit trial no =>
      exact (((within_trial deepest trial).trans (within_rejected deepest _ _ _ _)).trans
        (ih _ _)).mono (by omega) (by omega)
    | completed trial run =>
      exact (within_below deep here trial run).mono (by omega) (by omega)
    | @unwound _ s₂ commit _ trial run =>
      exact ((within_below deep here trial run).trans (within_retract deepest s₂ commit)).mono
        (by omega) (by omega)
    | @stuck _ s₂ _ commit _ trial run back =>
      have taken := within_retract deepest s₂ commit
      rw [back] at taken
      exact ((within_below deep here trial run).trans taken).mono (by omega) (by omega)
    | @reentered _ s₂ _ commit trial run back =>
      have taken := within_retract deepest s₂ commit
      rw [back] at taken
      have round := (within_below deep here trial run).trans
        (taken.trans (within_rejected deepest _ id index .noCompletion))
      exact (round.trans (ih _ _)).mono (by omega) (by omega)

end Level

theorem within_explore (setting : Setting) (ds : List (DisjunctionId × Disjunction α)) (depth : Nat)
    (s : State (Overheard σ α) α) :
    Within (choices (ds.map fun d => d.2.size)) (ds.map fun d => d.2.size).prod
      (depth + ds.length) s (explore setting depth ds s).2 := by
  induction ds generalizing depth s with
  | nil => exact within_leaf depth s
  | cons d ds ih =>
    rw [List.map_cons, choices_cons, List.prod_cons, List.length_cons]
    refine within_tryEach (fun s => ?_) (by omega) d.2.alternatives 0 s
    rw [← Nat.add_assoc, Nat.add_right_comm]
    exact ih (depth + 1) s

def exchanges (setting : Setting) (ds : List (DisjunctionId × Disjunction α)) (b : σ)
    (p : Pruner α) : List (Exchange α) :=
  (run setting ds (Overheard.ofBackend b) p).2.backend.exchanges

structure Economical (setting : Setting) (ds : List (DisjunctionId × Disjunction α)) (b : σ)
    (p : Pruner α) : Prop where
  ends : ∀ n, 2 * choices (ds.map fun d => d.2.size) + 1 ≤ n →
    loop setting ds n b p = some (run setting ds b p)
  attempts : (run setting ds b p).2.journal.stats.attempts ≤ choices (ds.map fun d => d.2.size)
  depth : (run setting ds b p).2.journal.stats.maxDepth ≤ ds.length
  updates : Exchange.updates (exchanges setting ds b p) ≤ (ds.map fun d => d.2.size).prod
  once : ds = [] → Exchange.updates (exchanges setting ds b p) = 1
  refusals : Exchange.refusals (exchanges setting ds b p) ≤
    (run setting ds b p).2.journal.stats.attempts
  apiece : ∀ (s : State (Overheard σ α) α) (id : DisjunctionId) (index : Nat)
    (alternative : Alternative α),
    Exchange.refusals (s.attempt id index alternative).2.backend.exchanges ≤
      Exchange.refusals s.backend.exchanges + 1
  removals : Exchange.removals (exchanges setting ds b p) ≤
    Exchange.accepted (exchanges setting ds b p)

theorem removals_le_of_returned {P : Multiset (Entry α)} {ds : List (DisjunctionId × Disjunction α)}
    {result : Outcome × State (Overheard σ α) α}
    (h : Returned Overheard.custody P ds result) :
    Exchange.removals result.2.backend.exchanges ≤
      Exchange.accepted result.2.backend.exchanges := by
  cases h with
  | found carried owned last => exact owned.ge.trans' (Multiset.le_add_left _ _)
  | exhausted owned => exact owned.ge.trans' (Multiset.le_add_left _ _)
  | aborted owned => exact owned.ge.trans' (Multiset.le_add_left _ _)

theorem journal_overheard (setting : Setting) (ds : List (DisjunctionId × Disjunction α)) (b : σ)
    (p : Pruner α) :
    (run setting ds (Overheard.ofBackend (α := α) b) p).2.journal =
      (run setting ds b p).2.journal :=
  (congrArg (fun answer => answer.2.journal)
    (explore_map Overheard.follows ⟨Overheard.ofBackend b, p, Journal.empty⟩ setting 0 ds)).symm

theorem within_run (setting : Setting) (ds : List (DisjunctionId × Disjunction α)) (b : σ)
    (p : Pruner α) :
    Within (choices (ds.map fun d => d.2.size)) (ds.map fun d => d.2.size).prod ds.length
      ⟨Overheard.ofBackend b, p, Journal.empty⟩ (run setting ds (Overheard.ofBackend b) p).2 := by
  have within := within_explore setting ds 0 ⟨Overheard.ofBackend b, p, Journal.empty⟩
  rwa [Nat.zero_add] at within

theorem maxDepth_run_le (setting : Setting) (ds : List (DisjunctionId × Disjunction α)) (b : σ)
    (p : Pruner α) : (run setting ds b p).2.journal.stats.maxDepth ≤ ds.length := by
  rw [← journal_overheard]
  exact (within_run setting ds b p).depth.trans_eq (Nat.zero_max _)

theorem economical_run (setting : Setting) (ds : List (DisjunctionId × Disjunction α)) (b : σ)
    (p : Pruner α) : Economical setting ds b p := by
  let start : State (Overheard σ α) α := ⟨Overheard.ofBackend b, p, Journal.empty⟩
  obtain ⟨attempts, updates, -, refusals⟩ := within_run setting ds b p
  rw [journal_overheard] at attempts refusals
  have owned : Overheard.custody.owns 0 start.backend := rfl
  exact {
    ends := fun n enough => loop_eq_run setting ds b p ((passesFor_le _).trans enough)
    attempts := attempts.trans_eq (Nat.zero_add _)
    depth := maxDepth_run_le setting ds b p
    updates := updates.trans_eq (Nat.zero_add _)
    once := by
      rintro rfl
      exact updates_leaf start
    refusals := refusals.trans_eq (Nat.zero_add _)
    apiece := countP_attempt (fun _ _ => rfl) (fun _ _ => rfl) (fun _ _ => Nat.le_refl _)
    removals := removals_le_of_returned (returned_explore setting start ds 0 owned) }

end LinearChoice.Search
