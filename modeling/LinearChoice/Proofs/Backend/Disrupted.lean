import LinearChoice.Backend.Disrupted
import LinearChoice.Proofs.Backend.Contract

/-!
# Disruptions and the contract

A backend that fails on schedule keeps whatever contract the solver inside
keeps: a call that is due to fail reaches nothing.
-/

set_option autoImplicit false

namespace LinearChoice.Disrupted

variable {σ α : Type} [BackendOver σ α]

theorem add_cases (b : Disrupted σ) (c : Constraint α) :
    (∃ e, Backend.addConstraint b c = (.error e, { b with adds := b.adds + 1 })) ∨
    Backend.addConstraint b c = ((Backend.addConstraint b.inner c).1,
      { b with adds := b.adds + 1, inner := (Backend.addConstraint b.inner c).2 }) := by
  simp only [Backend.addConstraint]
  split
  · next e _ => exact Or.inl ⟨e, rfl⟩
  · exact Or.inr rfl

theorem remove_cases (b : Disrupted σ) (id : ConstraintId) :
    (∃ e, Backend.removeConstraint b id = (.error e, { b with removes := b.removes + 1 })) ∨
    Backend.removeConstraint b id = ((Backend.removeConstraint b.inner id).1,
      { b with removes := b.removes + 1, inner := (Backend.removeConstraint b.inner id).2 }) := by
  simp only [Backend.removeConstraint]
  split
  · next e _ => exact Or.inl ⟨e, rfl⟩
  · exact Or.inr rfl

theorem update_cases (b : Disrupted σ) :
    (∃ e, Backend.updateVariables b = (.error e, { b with updates := b.updates + 1 })) ∨
    Backend.updateVariables b = ((Backend.updateVariables b.inner).1,
      { b with updates := b.updates + 1, inner := (Backend.updateVariables b.inner).2 }) := by
  simp only [Backend.updateVariables]
  split
  · next e _ => exact Or.inl ⟨e, rfl⟩
  · exact Or.inr rfl

def contract (K : Contract σ) : Contract (Disrupted σ) where
  held b := K.held b.inner
  nodup b := K.nodup b.inner
  newVariable b := K.newVariable b.inner
  add_ok b c id b' run := by
    rcases b.add_cases c with ⟨e, due⟩ | through
    · rw [due] at run
      cases run
    · rw [through, Prod.mk.injEq] at run
      obtain ⟨answer, rfl⟩ := run
      exact K.add_ok b.inner c id _ (Prod.ext answer rfl)
  add_error b c e b' run := by
    rcases b.add_cases c with ⟨e', due⟩ | through
    · rw [due] at run
      cases run
      rfl
    · rw [through, Prod.mk.injEq] at run
      obtain ⟨answer, rfl⟩ := run
      exact K.add_error b.inner c e _ (Prod.ext answer rfl)
  remove_ok b id b' run := by
    rcases b.remove_cases id with ⟨e, due⟩ | through
    · rw [due] at run
      cases run
    · rw [through, Prod.mk.injEq] at run
      obtain ⟨answer, rfl⟩ := run
      exact K.remove_ok b.inner id _ (Prod.ext answer rfl)
  remove_error b id e b' run := by
    rcases b.remove_cases id with ⟨e', due⟩ | through
    · rw [due] at run
      cases run
      rfl
    · rw [through, Prod.mk.injEq] at run
      obtain ⟨answer, rfl⟩ := run
      exact K.remove_error b.inner id e _ (Prod.ext answer rfl)
  update b := by
    rcases b.update_cases with ⟨e, due⟩ | through
    · rw [due]
    · rw [through]
      exact K.update b.inner

def issuing (I : Issuing σ) : Issuing (Disrupted σ) where
  toContract := contract I.toContract
  used b := I.used b.inner
  add_new b c id b' run := by
    rcases b.add_cases c with ⟨e, due⟩ | through
    · rw [due] at run
      cases run
    · rw [through, Prod.mk.injEq] at run
      obtain ⟨answer, rfl⟩ := run
      exact I.add_new b.inner c id _ (Prod.ext answer rfl)
  newVariable_used b := I.newVariable_used b.inner
  add_used b c := by
    rcases b.add_cases c with ⟨e, due⟩ | through
    · rw [due]
    · rw [through]
      exact I.add_used b.inner c
  remove_used b id := by
    rcases b.remove_cases id with ⟨e, due⟩ | through
    · rw [due]
    · rw [through]
      exact I.remove_used b.inner id
  update_used b := by
    rcases b.update_cases with ⟨e, due⟩ | through
    · rw [due]
    · rw [through]
      exact I.update_used b.inner

end LinearChoice.Disrupted
