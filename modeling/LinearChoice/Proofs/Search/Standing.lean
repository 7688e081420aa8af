import LinearChoice.Proofs.Choices
import LinearChoice.Proofs.Search.Mirror

/-!
# The pruner at each check

The journal tells which alternatives are committed at any moment of a search.
Whenever another one is checked, the pruner has committed exactly what it was
given and after it these alternatives, the first decision first, whatever the
backend did in between.
-/

set_option autoImplicit false

namespace LinearChoice.Search

variable {α : Type}

/-- The choices that stand after the events, the latest first on either side. A commitment is over
once its alternative is rejected for what is below it. -/
def standing : List (SearchEvent α) → List (DisjunctionId × Nat)
  | [] => []
  | .attempted _ _ _ :: before => standing before
  | .committed id index _ :: before => (id, index) :: standing before
  | .rejected _ _ reason :: before =>
    match reason with
    | .pruned _ _ _ | .infeasible _ => standing before
    | .noCompletion => (standing before).tail

theorem standing_unfit (setting : Setting) {verdict : Attempt α} (no : verdict.Unfit)
    (id : DisjunctionId) (index : Nat) (before : List (SearchEvent α)) :
    standing (.rejected id index (setting.reason verdict) :: before) = standing before := by
  cases verdict with
  | feasible commit => exact no.elim
  | pruned c => rfl
  | infeasible i => rfl

structure Informed [ExtendedScalar α] (mode : PruneMode)
    (all : List (DisjunctionId × Disjunction α))
    (cs₀ : List (Constraint α)) (before : List (SearchEvent α)) (id : DisjunctionId)
    (seen : Pruner α) : Prop where
  knows : ∃ layers cs, Marked all cs₀ layers cs ∧ layers.map Commit.choice = standing before ∧
    seen = (Pruner.empty mode).commit cs
  next : ∃ later, all.map Prod.fst = ((standing before).map Prod.fst).reverse ++ id :: later

def Overseen [ExtendedScalar α] (mode : PruneMode) (all : List (DisjunctionId × Disjunction α))
    (cs₀ : List (Constraint α)) (events : List (SearchEvent α)) : Prop :=
  ∀ id index seen before, .attempted id index seen :: before <:+ events →
    Informed mode all cs₀ before id seen

variable [ExtendedScalar α] {mode : PruneMode} {all : List (DisjunctionId × Disjunction α)}
  {cs₀ cs : List (Constraint α)} {events : List (SearchEvent α)}

theorem overseen_nil : Overseen mode all cs₀ [] := fun _ _ _ _ h => by
  cases List.suffix_nil.mp h

theorem Overseen.attempted {id : DisjunctionId} {seen : Pruner α}
    (h : Overseen mode all cs₀ events) (informed : Informed mode all cs₀ events id seen)
    (index : Nat) : Overseen mode all cs₀ (.attempted id index seen :: events) := by
  intro id' index' seen' before found
  rcases List.suffix_cons_iff.mp found with same | earlier
  · cases same
    exact informed
  · exact h id' index' seen' before earlier

theorem Overseen.rejected (h : Overseen mode all cs₀ events) (id : DisjunctionId) (index : Nat)
    (reason : RejectReason α) : Overseen mode all cs₀ (.rejected id index reason :: events) := by
  intro id' index' seen before found
  rcases List.suffix_cons_iff.mp found with same | earlier
  · cases same
  · exact h id' index' seen before earlier

theorem Overseen.committed (h : Overseen mode all cs₀ events) (id : DisjunctionId)
    (index depth : Nat) : Overseen mode all cs₀ (.committed id index depth :: events) := by
  intro id' index' seen before found
  rcases List.suffix_cons_iff.mp found with same | earlier
  · cases same
  · exact h id' index' seen before earlier

variable {σ : Type} {s s' : State σ α} {layers : List Commit}

structure Node (mode : PruneMode) (all : List (DisjunctionId × Disjunction α))
    (cs₀ : List (Constraint α)) (layers : List Commit) (cs : List (Constraint α))
    (s : State σ α) : Prop where
  pruner : s.pruner = (Pruner.empty mode).commit cs
  marked : Marked all cs₀ layers cs
  stand : standing s.journal.events = layers.map Commit.choice
  overseen : Overseen mode all cs₀ s.journal.events

inductive Watched (mode : PruneMode) (all : List (DisjunctionId × Disjunction α))
    (cs₀ : List (Constraint α)) (layers : List Commit) : Outcome × State σ α → Prop
  | exhausted {s : State σ α} (stand : standing s.journal.events = layers.map Commit.choice)
      (overseen : Overseen mode all cs₀ s.journal.events) :
      Watched mode all cs₀ layers (.ok none, s)
  | ended {outcome : Outcome} {s : State σ α} (differs : outcome ≠ .ok none)
      (overseen : Overseen mode all cs₀ s.journal.events) :
      Watched mode all cs₀ layers (outcome, s)

theorem Watched.overseen {answer : Outcome × State σ α} (h : Watched mode all cs₀ layers answer) :
    Overseen mode all cs₀ answer.2.journal.events := by
  cases h with
  | exhausted _ overseen => exact overseen
  | ended _ overseen => exact overseen

/-- A node is well informed when the next alternative is checked. -/
theorem Node.attempted (node : Node mode all cs₀ layers cs s) {id : DisjunctionId}
    {ids : List DisjunctionId}
    (path : all.map Prod.fst = (layers.map Commit.disjunction).reverse ++ id :: ids)
    (index : Nat) : Overseen mode all cs₀ (.attempted id index s.pruner :: s.journal.events) := by
  refine node.overseen.attempted ⟨⟨layers, cs, node.marked, node.stand.symm, node.pruner⟩, ids, ?_⟩
    index
  rw [node.stand, List.map_map]
  exact path

variable [BackendOver σ α] {setting : Setting} {d : DisjunctionId × Disjunction α}
  {depth index : Nat}
  {below : State σ α → Outcome × State σ α} {ids : List DisjunctionId} {commit : Commit}
  {alternative : Alternative α} {verdict : Attempt α}

/-- An alternative that does not fit leaves the node as it was. -/
theorem Node.unfit (node : Node mode all cs₀ layers cs s)
    (overseen : Overseen mode all cs₀ (.attempted d.1 index s.pruner :: s.journal.events))
    (trial : (s.record (.attempted d.1 index s.pruner)).attempt d.1 index alternative =
      (.ok verdict, s')) (no : verdict.Unfit) :
    Node mode all cs₀ layers cs (s'.record (.rejected d.1 index (setting.reason verdict))) := by
  have journal := journal_attempt (s.record (.attempted d.1 index s.pruner)) d.1 index alternative
  have pruner := pruner_attempt trial fun c same => by
    cases same
    exact no
  rw [trial] at journal
  dsimp only at journal
  refine ⟨pruner.trans node.pruner, node.marked, ?_, ?_⟩
  · change standing (_ :: s'.journal.events) = _
    rw [standing_unfit setting no, journal]
    exact node.stand
  · refine Overseen.rejected ?_ _ _ _
    rw [journal]
    exact overseen

/-- A commitment leads to the node below it. -/
theorem Node.enter (depth : Nat) (node : Node mode all cs₀ layers cs s)
    (overseen : Overseen mode all cs₀ (.attempted d.1 index s.pruner :: s.journal.events))
    (offered : d ∈ all) (found : d.2.alternatives[index]? = some alternative)
    (trial : (s.record (.attempted d.1 index s.pruner)).attempt d.1 index alternative =
      (.ok (.feasible commit), s')) :
    Node mode all cs₀ (commit :: layers) (cs ++ alternative)
      (s'.record (.committed d.1 index depth)) := by
  have journal := journal_attempt (s.record (.attempted d.1 index s.pruner)) d.1 index alternative
  rw [trial] at journal
  dsimp only at journal
  obtain ⟨own, chosen, mark, committed⟩ := commit_of_attempt trial
  have before : (s.record (.attempted d.1 index s.pruner)).pruner =
    (Pruner.empty mode).commit cs := node.pruner
  refine ⟨?_, .commit node.marked offered own (chosen ▸ found) ?_, ?_, ?_⟩
  · change s'.pruner = _
    rw [committed, before, Pruner.commit_append]
  · rw [mark, before, Pruner.mark_commit]
  · change (d.1, index) :: standing s'.journal.events = commit.choice :: layers.map Commit.choice
    rw [journal, ← node.stand, Commit.choice, own, chosen]
    rfl
  · refine Overseen.committed ?_ _ _ _
    rw [journal]
    exact overseen

/-- Once nothing worked below a commitment and it is taken back, the search is where it was. -/
theorem Node.leave (id : DisjunctionId) (index : Nat) (before : Marked all cs₀ layers cs)
    (mark : commit.restore = ((Pruner.empty .off).commit cs).mark)
    (pruner : s.pruner = (Pruner.empty mode).commit (cs ++ alternative))
    (stand : standing s.journal.events = (commit :: layers).map Commit.choice)
    (overseen : Overseen mode all cs₀ s.journal.events) :
    Node mode all cs₀ layers cs
      ((s.retract commit).2.record (.rejected id index .noCompletion)) := by
  refine ⟨pruner_retract commit pruner mark, before, ?_, overseen.rejected _ _ _⟩
  change (standing s.journal.events).tail = _
  rw [stand]
  rfl

theorem watched_tryEach
    (deep : ∀ (s : State σ α) (layers : List Commit) (cs : List (Constraint α)),
      all.map Prod.fst = (layers.map Commit.disjunction).reverse ++ ids →
      Node mode all cs₀ layers cs s → Watched mode all cs₀ layers (below s))
    (mirrored : ∀ (s : State σ α) (layers : List Commit) (cs : List (Constraint α)),
      s.pruner = (Pruner.empty mode).commit cs → Marked all cs₀ layers cs →
      Mirrored mode all cs₀ layers cs (below s))
    (offered : d ∈ all)
    (path : all.map Prod.fst = (layers.map Commit.disjunction).reverse ++ d.1 :: ids)
    (alternatives : List (Alternative α)) (left : d.2.alternatives.drop index = alternatives)
    (node : Node mode all cs₀ layers cs s) :
    Watched mode all cs₀ layers (tryEach setting d.1 depth below index alternatives s) := by
  induction alternatives generalizing index s with
  | nil => exact .exhausted node.stand node.overseen
  | cons alternative rest ih =>
    obtain ⟨here, later⟩ := drop_succ left
    have overseen := node.attempted path index
    have journal := journal_attempt (s.record (.attempted d.1 index s.pruner)) d.1 index alternative
    have turn := turn setting d.1 depth below index alternative rest s
    generalize tryEach setting d.1 depth below index (alternative :: rest) s = result at turn ⊢
    have inner {commit : Commit} {s₁ : State σ α} {answer : Outcome × State σ α}
        (trial : (s.record (.attempted d.1 index s.pruner)).attempt d.1 index alternative =
          (.ok (.feasible commit), s₁))
        (run : below (s₁.record (.committed d.1 index depth)) = answer) :
        Watched mode all cs₀ (commit :: layers) answer := by
      obtain ⟨own, -⟩ := commit_of_attempt trial
      rw [← run]
      exact deep _ _ _ (by rw [path]; simp [own]) (node.enter depth overseen offered here trial)
    cases turn with
    | limited reached => exact .ended (by simp) node.overseen
    | failed trial =>
      rw [trial] at journal
      exact .ended (by simp) (journal ▸ overseen)
    | unfit trial no => exact ih later (node.unfit overseen trial no)
    | completed trial run => exact .ended (by simp) (inner trial run).overseen
    | unwound trial run => exact .ended (by simp) (inner trial run).overseen
    | stuck trial run back =>
      exact .ended (by simp) (journal_of_retract back ▸ (inner trial run).overseen)
    | reentered trial run back =>
      obtain ⟨mark, mirror⟩ := mirrored_below mirrored offered here node.pruner node.marked trial
      rw [run] at mirror
      cases inner trial run with
      | ended differs _ => exact absurd rfl differs
      | exhausted stand overseen =>
        cases mirror with
        | exhausted pruner =>
          -- The pruner is back at the node and so is what stands, one alternative further on.
          have outer := Node.leave d.1 index node.marked mark pruner stand overseen
          rw [back] at outer
          exact ih later outer

theorem watched_explore (setting : Setting) (ds : List (DisjunctionId × Disjunction α))
    (depth : Nat) (offered : ds ⊆ all)
    (path : all.map Prod.fst = (layers.map Commit.disjunction).reverse ++ ds.map Prod.fst)
    (node : Node mode all cs₀ layers cs s) :
    Watched mode all cs₀ layers (explore setting depth ds s) := by
  induction ds generalizing depth s layers cs with
  | nil =>
    change Watched mode all cs₀ layers s.leaf
    unfold State.leaf
    split
    · exact .ended (by simp) node.overseen
    · exact .exhausted node.stand node.overseen
    · exact .ended (by simp) node.overseen
  | cons d ds ih =>
    have others : ds ⊆ all := List.subset_of_cons_subset offered
    exact watched_tryEach (fun s layers cs path node => ih (depth + 1) others path node)
      (fun s layers cs pruner marked => mirrored_explore setting ds (depth + 1) others pruner marked)
      (offered List.mem_cons_self) path d.2.alternatives rfl node

theorem decided_tried {alternatives : List (Alternative α)} {result : Outcome × State σ α}
    (deep : ∀ s s' commits, below s = (.ok (some commits), s') →
      commits.map Commit.disjunction = ids)
    (h : Tried setting d.1 depth below index alternatives s result) {commits : List Commit}
    (found : result.1 = .ok (some commits)) :
    commits.map Commit.disjunction = d.1 :: ids := by
  induction h with
  | exhausted | limited | failed | unwound | stuck => cases found
  | unfit _ _ _ ih | reentered _ _ _ _ ih => exact ih found
  | completed trial run =>
    cases found
    obtain ⟨own, -⟩ := commit_of_attempt trial
    rw [List.map_cons, own, deep _ _ _ run]

/-- What is found decides every disjunction, in the order of the search. -/
theorem decided_explore (setting : Setting) (ds : List (DisjunctionId × Disjunction α))
    (depth : Nat)
    (s : State σ α) {commits : List Commit}
    (found : (explore setting depth ds s).1 = .ok (some commits)) :
    commits.map Commit.disjunction = ds.map Prod.fst := by
  induction ds generalizing depth s commits with
  | nil =>
    change s.leaf.1 = _ at found
    unfold State.leaf at found
    split at found
    · cases found
      rfl
    · cases found
    · cases found
  | cons d ds ih =>
    refine decided_tried (fun s s' commits run => ih (depth + 1) s ?_)
      (tried setting d.1 depth (explore setting (depth + 1) ds) d.2.alternatives 0 s) found
    rw [run]

end LinearChoice.Search
