import LinearChoice.Proofs.Backend.Contract

/-!
# Custody

A client of a backend is in charge of the entries that it had added and has not
handed back. What may be said of them is a predicate that every call passes on,
whether it succeeds or fails; a removal passes it on without the entry handed
back.
-/

set_option autoImplicit false

namespace LinearChoice

structure Custody {α : Type} (σ : Type) [BackendOver σ α] where
  owns : Multiset (Entry α) → σ → Prop
  newVariable : ∀ P b, owns P b → owns P (Backend.newVariable b).2
  add_ok : ∀ P b c id b', owns P b → Backend.addConstraint b c = (.ok id, b') →
    owns ((id, c) ::ₘ P) b'
  add_error : ∀ P b c e b', owns P b → Backend.addConstraint b c = (.error e, b') → owns P b'
  remove : ∀ P b id c, owns ((id, c) ::ₘ P) b → owns P (Backend.removeConstraint b id).2
  update : ∀ P b, owns P b → owns P (Backend.updateVariables b).2

namespace Custody

variable {σ α : Type} [BackendOver σ α] (K : Custody σ) {P : Multiset (Entry α)} {b : σ}

theorem removeAll (Q : List (Entry α)) (h : K.owns (Q + P) b) :
    K.owns P (Backend.removeAll (Q.map Prod.fst) b).2 := by
  induction Q generalizing b with
  | nil =>
    rw [Multiset.coe_nil, zero_add] at h
    exact h
  | cons e Q ih =>
    rw [← Multiset.cons_coe, Multiset.cons_add] at h
    have rest := ih (K.remove _ b e.1 e.2 h)
    simp only [List.map_cons, Backend.removeAll]
    split <;> exact rest

/-- What was added is in custody, and it is the whole list unless there was an error. -/
theorem addAll (cs : List (Constraint α)) (Q : List (Entry α)) (h : K.owns (Q + P) b) :
    ∃ Q' : List (Entry α), (Backend.addAll (Q.map Prod.fst) cs b).1.2 = (Q' ++ Q).map Prod.fst ∧
      K.owns ((Q' ++ Q : List (Entry α)) + P) (Backend.addAll (Q.map Prod.fst) cs b).2 ∧
      ((Backend.addAll (Q.map Prod.fst) cs b).1.1 = none → Q'.map Prod.snd = cs.reverse) := by
  induction cs generalizing b Q with
  | nil => exact ⟨[], rfl, h, fun _ => rfl⟩
  | cons c cs ih =>
    cases run : Backend.addConstraint b c with
    | mk outcome b₁ =>
      cases outcome with
      | ok id =>
        have owned := K.add_ok _ b c id b₁ h run
        rw [← Multiset.cons_add, Multiset.cons_coe] at owned
        obtain ⟨Q', ids, held, all⟩ := ih ((id, c) :: Q) owned
        have step : Backend.addAll (Q.map Prod.fst) (c :: cs) b =
            Backend.addAll (((id, c) :: Q).map Prod.fst) cs b₁ := by
          simp only [Backend.addAll, run, List.map_cons]
        rw [step]
        refine ⟨Q' ++ [(id, c)], by simpa using ids, by simpa using held, fun done => ?_⟩
        rw [List.map_append, all done, List.reverse_cons]
        rfl
      | error e =>
        have step : Backend.addAll (Q.map Prod.fst) (c :: cs) b =
            ((some e, Q.map Prod.fst), b₁) := by
          simp only [Backend.addAll, run]
        rw [step]
        exact ⟨[], rfl, K.add_error _ b c e b₁ h run, by simp⟩

end Custody

def Contract.custody {σ α : Type} [BackendOver σ α] (K : Contract σ) : Custody σ where
  owns P b := P ≤ K.held b
  newVariable P b h := by rwa [K.newVariable]
  add_ok P b c id b' h run := by
    rw [K.add_ok b c id b' run]
    exact (Multiset.cons_le_cons_iff _).mpr h
  add_error P b c e b' h run := by rwa [K.add_error b c e b' run]
  remove P b id c h := by
    cases run : Backend.removeConstraint b id with
    | mk outcome b' =>
      cases outcome with
      | error e =>
        rw [K.remove_error b id e b' run]
        exact (Multiset.le_cons_self _ _).trans h
      | ok _ =>
        obtain ⟨rest, held⟩ := Multiset.le_iff_exists_add.mp h
        rw [Multiset.cons_add] at held
        rw [K.held_remove held run]
        exact Multiset.le_add_right _ _
  update P b h := by rwa [K.update]

def Reliable.custody {σ α : Type} [BackendOver σ α] (K : Reliable σ) (pre : Multiset (Entry α)) :
    Custody σ where
  owns P b := K.held b = pre + P
  newVariable P b h := by rwa [K.newVariable]
  add_ok P b c id b' h run := by rw [K.add_ok b c id b' run, h, Multiset.add_cons]
  add_error P b c e b' h run := by rwa [K.add_error b c e b' run]
  remove P b id c h := by
    rw [Multiset.add_cons] at h
    obtain ⟨b', run, held⟩ := K.remove_run h
    rw [run]
    exact held
  update P b h := by rwa [K.update]

end LinearChoice
