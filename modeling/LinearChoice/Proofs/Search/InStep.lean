import LinearChoice.Proofs.Choices
import LinearChoice.Proofs.Search.Tried

/-!
# Searches in step

Two searches through the same decisions, each on a backend of its own. If they
answer alike attempt by attempt and decision by decision, they come out alike.
What is related at a node of the search tree has to be so again once everything
below the node was taken back.
-/

set_option autoImplicit false

namespace LinearChoice.Search

variable {α : Type}

theorem exceeded_congr (setting : Setting) {stats stats' : Stats}
    (same : stats.attempts = stats'.attempts) :
    setting.exceeded? stats = setting.exceeded? stats' := by
  rw [Setting.exceeded?, Setting.exceeded?, same]

variable {σ τ ι : Type} [ExtendedScalar α] [BackendOver σ α] [BackendOver τ α]

inductive Paired (setting : Setting)
    (R : List (DisjunctionId × Disjunction α) → ι → State σ α → State τ α → Prop)
    (d : DisjunctionId × Disjunction α) (ds : List (DisjunctionId × Disjunction α)) (i : ι)
    (index : Nat) : Except SystemError (Attempt α) × State σ α →
      Except SystemError (Attempt α) × State τ α → Prop
  | failed {e : SystemError} {s : State σ α} {t : State τ α} (related : R (d :: ds) i s t) :
      Paired setting R d ds i index (.error e, s) (.error e, t)
  | unfit {v w : Attempt α} {s : State σ α} {t : State τ α} (no : v.Unfit) (no' : w.Unfit)
      (related : R (d :: ds) i (s.record (.rejected d.1 index (setting.reason v)))
        (t.record (.rejected d.1 index (setting.reason w)))) :
      Paired setting R d ds i index (.ok v, s) (.ok w, t)
  | feasible {c c' : Commit} {s : State σ α} {t : State τ α} (same : c.choice = c'.choice) (j : ι)
      (enter : ∀ depth, R ds j (s.record (.committed d.1 index depth))
        (t.record (.committed d.1 index depth)))
      (leave : ∀ s t, R ds j s t → ∃ s' t', s.retract c = (.ok (), s') ∧
        t.retract c' = (.ok (), t') ∧ R (d :: ds) i s' t' ∧
        R (d :: ds) i (s'.record (.rejected d.1 index .noCompletion))
          (t'.record (.rejected d.1 index .noCompletion))) :
      Paired setting R d ds i index (.ok (.feasible c), s) (.ok (.feasible c'), t)

inductive Agree (R : ι → State σ α → State τ α → Prop) (V : State σ α → State τ α → Prop) (i : ι) :
    Outcome × State σ α → Outcome × State τ α → Prop
  | found {commits commits' : List Commit} {s : State σ α} {t : State τ α}
      (same : commits.map Commit.choice = commits'.map Commit.choice) (final : V s t) :
      Agree R V i (.ok (some commits), s) (.ok (some commits'), t)
  | exhausted {s : State σ α} {t : State τ α} (related : R i s t) :
      Agree R V i (.ok none, s) (.ok none, t)
  | aborted {e : SystemError} {s : State σ α} {t : State τ α} (related : R i s t) :
      Agree R V i (.error e, s) (.error e, t)

structure InStep (setting : Setting)
    (R : List (DisjunctionId × Disjunction α) → ι → State σ α → State τ α → Prop)
    (V : State σ α → State τ α → Prop) : Prop where
  attempts : ∀ ds i s t, R ds i s t → s.journal.stats.attempts = t.journal.stats.attempts
  trial : ∀ d ds i s t index alternative, R (d :: ds) i s t →
    d.2.alternatives[index]? = some alternative →
    Paired setting R d ds i index
      ((s.record (.attempted d.1 index s.pruner)).attempt d.1 index alternative)
      ((t.record (.attempted d.1 index t.pruner)).attempt d.1 index alternative)
  leaf : ∀ i s t, R [] i s t → Agree (R []) V i s.leaf t.leaf

variable {setting : Setting}
  {R : List (DisjunctionId × Disjunction α) → ι → State σ α → State τ α → Prop}
  {V : State σ α → State τ α → Prop}

theorem InStep.tryEach (h : InStep setting R V) {d : DisjunctionId × Disjunction α}
    {ds : List (DisjunctionId × Disjunction α)} {depth : Nat}
    {below : State σ α → Outcome × State σ α} {below' : State τ α → Outcome × State τ α}
    (deep : ∀ i s t, R ds i s t → Agree (R ds) V i (below s) (below' t))
    (alternatives : List (Alternative α)) {index : Nat} {i : ι} {s : State σ α} {t : State τ α}
    (left : d.2.alternatives.drop index = alternatives) (related : R (d :: ds) i s t) :
    Agree (R (d :: ds)) V i (tryEach setting d.1 depth below index alternatives s)
      (tryEach setting d.1 depth below' index alternatives t) := by
  induction alternatives generalizing index s t with
  | nil => exact .exhausted related
  | cons alternative rest ih =>
    obtain ⟨here, later⟩ := drop_succ left
    have steps := exceeded_congr setting (h.attempts _ _ _ _ related)
    cases free : setting.exceeded? s.journal.stats with
    | some limit =>
      rw [free] at steps
      rw [Search.tryEach, Search.tryEach, free, ← steps]
      exact .aborted related
    | none =>
      rw [free] at steps
      have paired := h.trial d ds i s t index alternative related here
      generalize trial : (s.record (.attempted d.1 index s.pruner)).attempt d.1 index alternative =
        answer at paired
      generalize trial' : (t.record (.attempted d.1 index t.pruner)).attempt d.1 index
        alternative = answer' at paired
      cases paired with
      | failed related =>
        rw [tryEach_of_failed _ _ _ _ _ free trial, tryEach_of_failed _ _ _ _ _ steps.symm trial']
        exact .aborted related
      | unfit no no' related =>
        rw [tryEach_of_unfit _ _ _ _ _ free trial no,
          tryEach_of_unfit _ _ _ _ _ steps.symm trial' no']
        exact ih later related
      | @feasible c c' s₁ t₁ same j enter leave =>
        rw [tryEach_of_feasible _ _ _ _ _ free trial,
          tryEach_of_feasible _ _ _ _ _ steps.symm trial']
        have agree := deep j _ _ (enter depth)
        generalize below (s₁.record (.committed d.1 index depth)) = found at agree
        generalize below' (t₁.record (.committed d.1 index depth)) = found' at agree
        cases agree with
        | found alike final => exact .found (by simp [same, alike]) final
        | exhausted related' =>
          obtain ⟨s₃, t₃, back, back', -, onward⟩ := leave _ _ related'
          simp only [resume, back, back']
          exact ih later onward
        | aborted related' =>
          obtain ⟨s₃, t₃, back, back', restored, -⟩ := leave _ _ related'
          simp only [resume, back, back']
          exact .aborted restored

/-- Searches that start in step come out alike. -/
theorem InStep.explore (h : InStep setting R V) (ds : List (DisjunctionId × Disjunction α))
    (depth : Nat) {i : ι} {s : State σ α} {t : State τ α} (related : R ds i s t) :
    Agree (R ds) V i (explore setting depth ds s) (explore setting depth ds t) := by
  induction ds generalizing depth i s t with
  | nil => exact h.leaf i s t related
  | cons d ds ih =>
    exact h.tryEach (fun i s t related => ih (depth + 1) related) d.2.alternatives rfl related

end LinearChoice.Search
