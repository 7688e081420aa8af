import Mathlib.Algebra.Order.Group.Multiset
import LinearChoice.Backend.Basic

/-!
# The contract of a backend

What a backend holds, and what each call does to it. A failed call changes
nothing that is held; a successful removal takes out exactly one entry.
-/

set_option autoImplicit false

namespace LinearChoice

abbrev Entry (α : Type := Float) := ConstraintId × Constraint α

structure Contract {α : Type} (σ : Type) [BackendOver σ α] where
  held : σ → Multiset (Entry α)
  nodup : ∀ b, ((held b).map Prod.fst).Nodup
  newVariable : ∀ b, held (Backend.newVariable b).2 = held b
  add_ok : ∀ b c id b', Backend.addConstraint b c = (.ok id, b') → held b' = (id, c) ::ₘ held b
  add_error : ∀ b c e b', Backend.addConstraint b c = (.error e, b') → held b' = held b
  remove_ok : ∀ b id b', Backend.removeConstraint b id = (.ok (), b') →
    ∃ c, held b = (id, c) ::ₘ held b'
  remove_error : ∀ b id e b', Backend.removeConstraint b id = (.error e, b') → held b' = held b
  update : ∀ b, held (Backend.updateVariables b).2 = held b

namespace Contract

variable {σ α : Type} [BackendOver σ α] (K : Contract σ)

def constraints (b : σ) : Multiset (Constraint α) := (K.held b).map Prod.snd

/-- Numbers are not held twice, so a removal takes out the entry that is there. -/
theorem held_remove {b b' : σ} {id : ConstraintId} {c : Constraint α} {rest : Multiset (Entry α)}
    (h : K.held b = (id, c) ::ₘ rest) (run : Backend.removeConstraint b id = (.ok (), b')) :
    K.held b' = rest := by
  obtain ⟨d, hd⟩ := K.remove_ok b id b' run
  have same : (id, d) = (id, c) :=
    Multiset.inj_on_of_nodup_map (K.nodup b) _ (hd ▸ Multiset.mem_cons_self _ _) _
      (h ▸ Multiset.mem_cons_self _ _) rfl
  rw [h, same] at hd
  exact ((Multiset.cons_inj_right _).mp hd).symm

end Contract

structure Issuing {α : Type} (σ : Type) [BackendOver σ α] extends Contract σ where
  used : σ → Set ConstraintId
  add_new : ∀ b c id b', Backend.addConstraint b c = (.ok id, b') → id ∉ used b ∧ id ∈ used b'
  newVariable_used : ∀ b, used b ⊆ used (Backend.newVariable b).2
  add_used : ∀ b c, used b ⊆ used (Backend.addConstraint b c).2
  remove_used : ∀ b id, used b ⊆ used (Backend.removeConstraint b id).2
  update_used : ∀ b, used b ⊆ used (Backend.updateVariables b).2

structure Sound {α : Type} (σ : Type) [Scalar α] [BackendOver σ α] extends Contract σ where
  tolerance : α
  update_sound : ∀ b b', Backend.updateVariables b = (.ok (), b') → ∀ e ∈ held b',
    e.2.isRequired = true → e.2.holds (Backend.value b') tolerance = true

structure Reliable {α : Type} (σ : Type) [BackendOver σ α] extends Contract σ where
  remove_held : ∀ b e, e ∈ held b → (Backend.removeConstraint b e.1).1 = .ok ()

namespace Reliable

variable {σ α : Type} [BackendOver σ α] (K : Reliable σ)

theorem remove_run {b : σ} {id : ConstraintId} {c : Constraint α} {rest : Multiset (Entry α)}
    (h : K.held b = (id, c) ::ₘ rest) :
    ∃ b', Backend.removeConstraint b id = (.ok (), b') ∧ K.held b' = rest := by
  have run : Backend.removeConstraint b id = (.ok (), (Backend.removeConstraint b id).2) :=
    Prod.ext (K.remove_held b (id, c) (h ▸ Multiset.mem_cons_self _ _)) rfl
  exact ⟨_, run, K.held_remove h run⟩

theorem removeAll_run (Q : List (Entry α)) {b : σ} {rest : Multiset (Entry α)}
    (h : K.held b = Q + rest) :
    ∃ b', Backend.removeAll (Q.map Prod.fst) b = (.ok (), b') ∧ K.held b' = rest := by
  induction Q generalizing b with
  | nil => exact ⟨b, rfl, by simpa using h⟩
  | cons e Q ih =>
    rw [← Multiset.cons_coe, Multiset.cons_add] at h
    obtain ⟨b₁, run, h₁⟩ := K.remove_run h
    obtain ⟨b₂, runs, h₂⟩ := ih h₁
    exact ⟨b₂, by simp only [List.map_cons, Backend.removeAll, run, runs], h₂⟩

end Reliable

/-- A backend that takes constraints as long as what it holds stays feasible, and whose last word
depends on nothing but what it holds. -/
structure Deciding {α : Type} (σ : Type) [BackendOver σ α] extends Contract σ where
  feasible : Multiset (Constraint α) → Prop
  final : Multiset (Constraint α) → Prop
  feasible_mono : ∀ M N, M ≤ N → feasible N → feasible M
  add_taken : ∀ b c, feasible (c ::ₘ toContract.constraints b) →
    ∃ id, (Backend.addConstraint b c).1 = .ok id
  add_refused : ∀ b c, ¬feasible (c ::ₘ toContract.constraints b) →
    (Backend.addConstraint b c).1 = .error .unsatisfiable
  update_taken : ∀ b, final (toContract.constraints b) → (Backend.updateVariables b).1 = .ok ()
  update_refused : ∀ b, ¬final (toContract.constraints b) →
    (Backend.updateVariables b).1 = .error .unsatisfiable
  remove_held : ∀ b e, e ∈ held b → (Backend.removeConstraint b e.1).1 = .ok ()

namespace Deciding

variable {σ α : Type} [BackendOver σ α] (D : Deciding σ)

theorem add_cases (b : σ) (c : Constraint α) :
    (∃ id b', Backend.addConstraint b c = (.ok id, b') ∧ D.held b' = (id, c) ::ₘ D.held b ∧
      D.feasible (c ::ₘ D.constraints b)) ∨
    (∃ b', Backend.addConstraint b c = (.error .unsatisfiable, b') ∧ D.held b' = D.held b ∧
      ¬D.feasible (c ::ₘ D.constraints b)) := by
  by_cases h : D.feasible (c ::ₘ D.constraints b)
  · obtain ⟨id, taken⟩ := D.add_taken b c h
    have run : Backend.addConstraint b c = (.ok id, (Backend.addConstraint b c).2) := by
      rw [← taken]
    exact Or.inl ⟨id, _, run, D.add_ok b c id _ run, h⟩
  · have run : Backend.addConstraint b c =
        (.error .unsatisfiable, (Backend.addConstraint b c).2) := by
      rw [← D.add_refused b c h]
    exact Or.inr ⟨_, run, D.add_error b c _ _ run, h⟩

theorem update_cases (b : σ) :
    (∃ b', Backend.updateVariables b = (.ok (), b') ∧ D.held b' = D.held b ∧
      D.final (D.constraints b)) ∨
    (∃ b', Backend.updateVariables b = (.error .unsatisfiable, b') ∧ D.held b' = D.held b ∧
      ¬D.final (D.constraints b)) := by
  by_cases h : D.final (D.constraints b)
  · exact Or.inl ⟨_, Prod.ext (D.update_taken b h) rfl, D.update b, h⟩
  · exact Or.inr ⟨_, Prod.ext (D.update_refused b h) rfl, D.update b, h⟩

def reliable : Reliable σ := { D.toContract with remove_held := D.remove_held }

theorem removeAll_run (Q : List (Entry α)) {b : σ} {rest : Multiset (Entry α)}
    (h : D.held b = Q + rest) :
    ∃ b', Backend.removeAll (Q.map Prod.fst) b = (.ok (), b') ∧ D.held b' = rest :=
  D.reliable.removeAll_run Q h

/-- All of the constraints are taken, which says nothing if there are none, or one of them is refused
and all together are infeasible. -/
theorem addAll_cases (cs : List (Constraint α)) {b : σ} (Q : List (Entry α)) :
    (∃ Q' b', Backend.addAll (Q.map Prod.fst) cs b = ((none, (Q' ++ Q).map Prod.fst), b') ∧
      Q'.map Prod.snd = cs.reverse ∧ D.held b' = Q' + D.held b ∧
      (cs = [] ∨ D.feasible (cs + D.constraints b))) ∨
    (∃ Q' b', Backend.addAll (Q.map Prod.fst) cs b =
        ((some .unsatisfiable, (Q' ++ Q).map Prod.fst), b') ∧
      D.held b' = Q' + D.held b ∧ ¬D.feasible (cs + D.constraints b)) := by
  induction cs generalizing b Q with
  | nil => exact Or.inl ⟨[], b, rfl, rfl, by simp, Or.inl rfl⟩
  | cons c cs ih =>
    rcases D.add_cases b c with ⟨id, b₁, run, h₁, one⟩ | ⟨b₁, run, h₁, one⟩
    · have now : D.constraints b₁ = c ::ₘ D.constraints b := by
        rw [Contract.constraints, h₁, Multiset.map_cons, Contract.constraints]
      have together : (c :: cs : List (Constraint α)) + D.constraints b =
          cs + D.constraints b₁ := by
        rw [now, ← Multiset.cons_coe, Multiset.cons_add, Multiset.add_cons]
      have moved (Q' : List (Entry α)) : (Q' + D.held b₁ : Multiset (Entry α)) =
          (Q' ++ [(id, c)] : List (Entry α)) + D.held b := by
        rw [h₁, ← Multiset.coe_add, add_assoc, Multiset.coe_singleton, Multiset.singleton_add]
      have step : Backend.addAll (Q.map Prod.fst) (c :: cs) b =
          Backend.addAll (((id, c) :: Q).map Prod.fst) cs b₁ := by
        simp only [Backend.addAll, run, List.map_cons]
      rw [step, together]
      rcases ih (b := b₁) ((id, c) :: Q) with
        ⟨Q', b', runs, texts, h', all⟩ | ⟨Q', b', runs, h', all⟩
      · refine Or.inl ⟨Q' ++ [(id, c)], b', by simpa using runs, by simp [texts], ?_, ?_⟩
        · rw [h', moved]
        · right
          rcases all with rfl | all
          · simpa [now] using one
          · exact all
      · refine Or.inr ⟨Q' ++ [(id, c)], b', by simpa using runs, ?_, all⟩
        rw [h', moved]
    · refine Or.inr ⟨[], b₁, by simp only [Backend.addAll, run, List.nil_append], ?_, ?_⟩
      · rw [h₁, Multiset.coe_nil, zero_add]
      · intro all
        refine one (D.feasible_mono _ _ ?_ all)
        rw [← Multiset.cons_coe, Multiset.cons_add]
        exact (Multiset.cons_le_cons_iff c).mpr (Multiset.le_add_left _ _)

theorem feasible_of_taken {cs : List (Constraint α)} {M : Multiset (Constraint α)}
    (all : cs = [] ∨ D.feasible (cs + M)) (feasible : D.feasible M) : D.feasible (cs + M) := by
  rcases all with rfl | all
  · simpa using feasible
  · exact all

end Deciding

end LinearChoice
