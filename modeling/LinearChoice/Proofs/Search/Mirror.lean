import LinearChoice.Proofs.Pruner.Undo
import LinearChoice.Proofs.Search.Tried

/-!
# What the pruner knows

On any backend, failing or not, the pruner knows exactly what is committed: a
search commits to it what it adds, and every way back takes the mark from
before.
-/

set_option autoImplicit false

namespace LinearChoice.Search

variable {α : Type} [ExtendedScalar α]

inductive Marked (ds : List (DisjunctionId × Disjunction α)) (cs₀ : List (Constraint α)) :
    List Commit → List (Constraint α) → Prop
  | base : Marked ds cs₀ [] cs₀
  | commit {layers : List Commit} {cs : List (Constraint α)} {c : Commit}
      {d : DisjunctionId × Disjunction α} {alternative : Alternative α}
      (below : Marked ds cs₀ layers cs) (offered : d ∈ ds) (own : c.disjunction = d.1)
      (found : d.2.alternatives[c.alternative]? = some alternative)
      (mark : c.restore = ((Pruner.empty .off).commit cs).mark) :
      Marked ds cs₀ (c :: layers) (cs ++ alternative)

theorem Marked.mono {ds ds' : List (DisjunctionId × Disjunction α)} {cs₀ cs : List (Constraint α)}
    {layers : List Commit} (h : Marked ds cs₀ layers cs) (more : ds ⊆ ds') :
    Marked ds' cs₀ layers cs := by
  induction h with
  | base => exact .base
  | commit below offered own found mark ih => exact .commit ih (more offered) own found mark

variable {σ : Type} [BackendOver σ α] {mode : PruneMode} {s s' : State σ α}
  {cs cs₀ : List (Constraint α)}

/-- Going back to the mark from before an alternative. -/
theorem undo_alternative (mode : PruneMode) (cs : List (Constraint α))
    (alternative : Alternative α) :
    ((Pruner.empty mode).commit (cs ++ alternative)).undo ((Pruner.empty .off).commit cs).mark =
      (Pruner.empty mode).commit cs := by
  rw [← Pruner.mark_commit mode, Pruner.commit_append, Pruner.undo_commit]

theorem pruner_retract (c : Commit) {alternative : Alternative α}
    (h : s.pruner = (Pruner.empty mode).commit (cs ++ alternative))
    (mark : c.restore = ((Pruner.empty .off).commit cs).mark) :
    (s.retract c).2.pruner = (Pruner.empty mode).commit cs := by
  change s.pruner.undo c.restore = _
  rw [h, mark, undo_alternative]

inductive Mirrored (mode : PruneMode) (ds : List (DisjunctionId × Disjunction α))
    (cs₀ : List (Constraint α)) (layers : List Commit) (cs : List (Constraint α)) :
    Outcome × State σ α → Prop
  | found {commits : List Commit} {s : State σ α} {cs' : List (Constraint α)}
      (pruner : s.pruner = (Pruner.empty mode).commit cs')
      (marked : Marked ds cs₀ (commits.reverse ++ layers) cs') :
      Mirrored mode ds cs₀ layers cs (.ok (some commits), s)
  | exhausted {s : State σ α} (pruner : s.pruner = (Pruner.empty mode).commit cs) :
      Mirrored mode ds cs₀ layers cs (.ok none, s)
  | aborted {e : SystemError} {s : State σ α} (pruner : s.pruner = (Pruner.empty mode).commit cs) :
      Mirrored mode ds cs₀ layers cs (.error e, s)

variable {ds all : List (DisjunctionId × Disjunction α)} {d : DisjunctionId × Disjunction α}
  {setting : Setting} {depth index : Nat} {below : State σ α → Outcome × State σ α}
  {layers : List Commit} {result : Outcome × State σ α} {alternative : Alternative α}

/-- An attempt that does not commit leaves the pruner alone. -/
theorem pruner_attempt {verdict : Except SystemError (Attempt α)} {id : DisjunctionId}
    (run : s.attempt id index alternative = (verdict, s'))
    (no : ∀ c, verdict ≠ .ok (.feasible c)) : s'.pruner = s.pruner := by
  have attempted := attempted s id index alternative
  rw [run] at attempted
  cases attempted with
  | committed => exact absurd rfl (no _)
  | pruned | refused | failed | stuck => rfl

theorem mirrored_below
    (deep : ∀ (s : State σ α) (layers : List Commit) (cs : List (Constraint α)),
      s.pruner = (Pruner.empty mode).commit cs → Marked all cs₀ layers cs →
      Mirrored mode all cs₀ layers cs (below s))
    (offered : d ∈ all) (found : d.2.alternatives[index]? = some alternative)
    (pruner : s.pruner = (Pruner.empty mode).commit cs) (marked : Marked all cs₀ layers cs)
    {commit : Commit}
    (trial : (s.record (.attempted d.1 index s.pruner)).attempt d.1 index alternative =
      (.ok (.feasible commit), s')) :
    commit.restore = ((Pruner.empty .off).commit cs).mark ∧
      Mirrored mode all cs₀ (commit :: layers) (cs ++ alternative)
        (below (s'.record (.committed d.1 index depth))) := by
  obtain ⟨own, chosen, mark, committed⟩ := commit_of_attempt trial
  have mark : commit.restore = ((Pruner.empty .off).commit cs).mark := by
    rw [mark, show (s.record _).pruner = s.pruner from rfl, pruner, Pruner.mark_commit]
  refine ⟨mark, deep _ _ _ ?_ (.commit marked offered own (chosen ▸ found) mark)⟩
  rw [show (s'.record _).pruner = s'.pruner from rfl, committed, Pruner.commit_append, ← pruner]
  rfl

theorem mirrored_tried
    (deep : ∀ (s : State σ α) (layers : List Commit) (cs : List (Constraint α)),
      s.pruner = (Pruner.empty mode).commit cs → Marked all cs₀ layers cs →
      Mirrored mode all cs₀ layers cs (below s))
    {alternatives : List (Alternative α)} (offered : d ∈ all)
    (h : Tried setting d.1 depth below index alternatives s result)
    (left : d.2.alternatives.drop index = alternatives)
    (pruner : s.pruner = (Pruner.empty mode).commit cs) (marked : Marked all cs₀ layers cs) :
    Mirrored mode all cs₀ layers cs result := by
  induction h with
  | exhausted index s => exact .exhausted pruner
  | limited index alternative rest s limit reached => exact .aborted pruner
  | failed trial => exact .aborted ((pruner_attempt trial nofun).trans pruner)
  | @unfit index alternative rest s s₁ verdict event result trial no later ih =>
    refine ih (drop_succ left).2 ((pruner_attempt trial fun c same => ?_).trans pruner)
    cases same
    exact no
  | completed trial run =>
    obtain ⟨mark, mirrored⟩ := mirrored_below deep offered (drop_succ left).1 pruner marked trial
    rw [run] at mirrored
    cases mirrored with
    | found pruner' marked' => exact .found pruner' (by simpa using marked')
  | unwound trial run =>
    obtain ⟨mark, mirrored⟩ := mirrored_below deep offered (drop_succ left).1 pruner marked trial
    rw [run] at mirrored
    cases mirrored with
    | aborted pruner' => exact .aborted (pruner_retract _ pruner' mark)
  | @stuck index alternative rest s s₁ s₂ s₃ commit e trial run back =>
    obtain ⟨mark, mirrored⟩ := mirrored_below deep offered (drop_succ left).1 pruner marked trial
    rw [run] at mirrored
    cases mirrored with
    | exhausted pruner' =>
      have restored := pruner_retract commit pruner' mark
      rw [back] at restored
      exact .aborted restored
  | @reentered index alternative rest s s₁ s₂ s₃ commit event result trial run back later ih =>
    obtain ⟨mark, mirrored⟩ := mirrored_below deep offered (drop_succ left).1 pruner marked trial
    rw [run] at mirrored
    cases mirrored with
    | exhausted pruner' =>
      have restored := pruner_retract commit pruner' mark
      rw [back] at restored
      exact ih (drop_succ left).2 restored

theorem mirrored_explore (setting : Setting) (ds : List (DisjunctionId × Disjunction α))
    (depth : Nat) (offered : ds ⊆ all) (pruner : s.pruner = (Pruner.empty mode).commit cs)
    (marked : Marked all cs₀ layers cs) :
    Mirrored mode all cs₀ layers cs (explore setting depth ds s) := by
  induction ds generalizing depth s layers cs with
  | nil =>
    change Mirrored mode all cs₀ layers cs s.leaf
    unfold State.leaf
    split
    · exact .found pruner marked
    · exact .exhausted pruner
    · exact .aborted pruner
  | cons d ds ih =>
    have trial := tried setting d.1 depth (explore setting (depth + 1) ds) d.2.alternatives 0 s
    exact mirrored_tried
      (fun s layers cs pruner marked => ih (depth + 1) (List.subset_of_cons_subset offered) pruner
        marked)
      (offered List.mem_cons_self) trial rfl pruner marked

end LinearChoice.Search
