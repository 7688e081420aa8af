import LinearChoice.Proofs.Backend.Custody
import LinearChoice.Proofs.ChoiceSystem.Follows

/-!
# Overheard backends

A backend of which every exchange about a constraint is kept: what was asked
and what it answered. Its answers are those of the backend inside. So it can be
told which answer an error goes back to and how much was asked.
-/

set_option autoImplicit false

namespace LinearChoice

inductive Exchange (α : Type := Float) where
  | add (c : Constraint α) (answer : Except SolverError ConstraintId)
  | remove (id : ConstraintId) (answer : Except SolverError Unit)
  | update (answer : Except SolverError Unit)

namespace Exchange

variable {α : Type}

def accepted? : Exchange α → Option ConstraintId
  | .add _ (.ok id) => some id
  | .add _ (.error _) | .remove _ _ | .update _ => none

def removed? : Exchange α → Option ConstraintId
  | .remove id _ => some id
  | .add _ _ | .update _ => none

def accepted (xs : List (Exchange α)) : Multiset ConstraintId := xs.filterMap accepted?

def removals (xs : List (Exchange α)) : Multiset ConstraintId := xs.filterMap removed?

def isRefusal : Exchange α → Bool
  | .add _ (.error _) => true
  | .add _ (.ok _) | .remove _ _ | .update _ => false

def isUpdate : Exchange α → Bool
  | .update _ => true
  | .add _ _ | .remove _ _ => false

def refusals (xs : List (Exchange α)) : Nat := xs.countP isRefusal

def updates (xs : List (Exchange α)) : Nat := xs.countP isUpdate

inductive Upsets (e : SolverError) : Exchange α → Prop
  | add (c : Constraint α) (other : e ≠ .unsatisfiable) : Upsets e (.add c (.error e))
  | remove (id : ConstraintId) : Upsets e (.remove id (.error e))
  | update (other : e ≠ .unsatisfiable) : Upsets e (.update (.error e))

end Exchange

structure Overheard (σ : Type) (α : Type := Float) where
  inner : σ
  /-- The latest exchange comes first. -/
  exchanges : List (Exchange α)

namespace Overheard

variable {σ α : Type} [BackendOver σ α]

def ofBackend (b : σ) : Overheard σ α := ⟨b, []⟩

instance : BackendOver (Overheard σ α) α where
  newVariable r :=
    ((Backend.newVariable r.inner).1, { r with inner := (Backend.newVariable r.inner).2 })
  addConstraint r c :=
    ((Backend.addConstraint r.inner c).1,
      ⟨(Backend.addConstraint r.inner c).2,
        .add c (Backend.addConstraint r.inner c).1 :: r.exchanges⟩)
  removeConstraint r id :=
    ((Backend.removeConstraint r.inner id).1,
      ⟨(Backend.removeConstraint r.inner id).2,
        .remove id (Backend.removeConstraint r.inner id).1 :: r.exchanges⟩)
  updateVariables r :=
    ((Backend.updateVariables r.inner).1,
      ⟨(Backend.updateVariables r.inner).2,
        .update (Backend.updateVariables r.inner).1 :: r.exchanges⟩)
  value r := Backend.value r.inner
  constraintCount r := Backend.constraintCount r.inner

theorem follows : Backend.Follows (Overheard.inner : Overheard σ α → σ) where
  newVariable _ := rfl
  addConstraint _ _ := rfl
  removeConstraint _ _ := rfl
  updateVariables _ := rfl
  value _ := rfl

theorem exchanges_of_add {r r' : Overheard σ α} {c : Constraint α}
    {answer : Except SolverError ConstraintId}
    (run : Backend.addConstraint r c = (answer, r')) :
    r'.exchanges = .add c answer :: r.exchanges := by
  cases run
  rfl

theorem exchanges_of_remove {r r' : Overheard σ α} {id : ConstraintId}
    {answer : Except SolverError Unit} (run : Backend.removeConstraint r id = (answer, r')) :
    r'.exchanges = .remove id answer :: r.exchanges := by
  cases run
  rfl

theorem exchanges_of_update {r r' : Overheard σ α} {answer : Except SolverError Unit}
    (run : Backend.updateVariables r = (answer, r')) :
    r'.exchanges = .update answer :: r.exchanges := by
  cases run
  rfl

theorem removeAll_cons (id : ConstraintId) (ids : List ConstraintId) (r : Overheard σ α) :
    (Backend.removeAll (id :: ids) r).2 =
      (Backend.removeAll ids (Backend.removeConstraint r id).2).2 := by
  simp only [Backend.removeAll]
  split <;> rfl

/-- What was said before is not forgotten. -/
theorem subset_removeAll (ids : List ConstraintId) (r : Overheard σ α) :
    r.exchanges ⊆ (Backend.removeAll ids r).2.exchanges := by
  induction ids generalizing r with
  | nil => exact List.Subset.refl _
  | cons id ids ih =>
    rw [removeAll_cons]
    exact List.Subset.trans (List.subset_cons_self _ _) (ih (Backend.removeConstraint r id).2)

/-- The error of several removals is the answer to one of them. -/
theorem removed_of_error {ids : List ConstraintId} {r r' : Overheard σ α} {e : SolverError}
    (run : Backend.removeAll ids r = (.error e, r')) :
    ∃ id, .remove id (.error e) ∈ r'.exchanges := by
  induction ids generalizing r with
  | nil => cases run
  | cons id ids ih =>
    cases first : Backend.removeConstraint r id with
    | mk answer r₁ =>
      have kept := subset_removeAll ids r₁
      have later := ih (r := r₁)
      simp only [Backend.removeAll, first] at run
      generalize Backend.removeAll ids r₁ = rest at run kept later
      obtain ⟨others, r₂⟩ := rest
      cases answer with
      | error e₁ =>
        cases run
        exact ⟨id, kept (exchanges_of_remove first ▸ List.mem_cons_self)⟩
      | ok _ =>
        cases run
        exact later rfl

/-- The error that ends a series of additions is the answer to one of them. -/
theorem refused_of_error {added ids : List ConstraintId} {cs : List (Constraint α)}
    {r r' : Overheard σ α} {e : SolverError}
    (run : Backend.addAll added cs r = ((some e, ids), r')) :
    ∃ c, .add c (.error e) ∈ r'.exchanges := by
  induction cs generalizing added r with
  | nil => cases run
  | cons c cs ih =>
    simp only [Backend.addAll] at run
    split at run
    · exact ih run
    · next asked =>
      cases run
      exact ⟨c, exchanges_of_add asked ▸ List.mem_cons_self⟩

section Counts

variable {p : Exchange α → Bool} {n : Nat}

theorem countP_removeAll (removed : ∀ id answer, p (.remove id answer) = false)
    (ids : List ConstraintId) (r : Overheard σ α) :
    (Backend.removeAll ids r).2.exchanges.countP p = r.exchanges.countP p := by
  induction ids generalizing r with
  | nil => rfl
  | cons id ids ih =>
    rw [removeAll_cons, ih]
    exact List.countP_cons_of_neg (by simp [removed])

/-- A series of additions ends with the first one that is refused. -/
theorem countP_addAll (accepted : ∀ c id, p (.add c (.ok id)) = false)
    (refused : ∀ c e, [Exchange.add c (.error e)].countP p ≤ n) (added : List ConstraintId)
    (cs : List (Constraint α)) (r : Overheard σ α) :
    (Backend.addAll added cs r).2.exchanges.countP p ≤ r.exchanges.countP p + n := by
  induction cs generalizing added r with
  | nil => exact Nat.le_add_right _ _
  | cons c cs ih =>
    simp only [Backend.addAll]
    split
    · next id r₁ asked =>
      have later := ih (id :: added) r₁
      rwa [exchanges_of_add asked, List.countP_cons_of_neg (by simp [accepted])] at later
    · next e r₁ asked =>
      rw [exchanges_of_add asked, List.countP_cons, Nat.add_le_add_iff_left,
        ← List.countP_singleton]
      exact refused c e

end Counts

def custody : Custody (Overheard σ α) where
  owns P r := Exchange.accepted r.exchanges = P.map Prod.fst + Exchange.removals r.exchanges
  newVariable P r h := h
  add_ok P r c id r' h run := by
    rw [exchanges_of_add run, Multiset.map_cons, Multiset.cons_add]
    exact congrArg (Multiset.cons id) h
  add_error P r c e r' h run := by
    rw [exchanges_of_add run]
    exact h
  remove P r id c h := by
    rw [exchanges_of_remove (Prod.eta _).symm]
    rw [Multiset.map_cons, Multiset.cons_add, ← Multiset.add_cons] at h
    exact h
  update P r h := h

end Overheard

end LinearChoice
