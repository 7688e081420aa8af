import LinearChoice.Proofs.Backend.Custody

/-!
# Recorded backends

A backend that writes down which numbers it handed out, which of them were
removed and for which the removal failed. Its answers are those of the backend
inside. The ledger says where every number is that was ever handed out.
-/

set_option autoImplicit false

namespace LinearChoice

structure Recorded (σ : Type) where
  inner : σ
  issued : List ConstraintId
  removed : List ConstraintId
  failed : List ConstraintId

namespace Recorded

variable {σ α : Type} [BackendOver σ α]

omit [BackendOver σ α] in
def ofBackend (b : σ) : Recorded σ := ⟨b, [], [], []⟩

instance : BackendOver (Recorded σ) α where
  newVariable r :=
    ((Backend.newVariable r.inner).1, { r with inner := (Backend.newVariable r.inner).2 })
  addConstraint r c :=
    match Backend.addConstraint r.inner c with
    | (.ok id, b) => (.ok id, { r with inner := b, issued := id :: r.issued })
    | (.error e, b) => (.error e, { r with inner := b })
  removeConstraint r id :=
    match Backend.removeConstraint r.inner id with
    | (.ok (), b) => (.ok (), { r with inner := b, removed := id :: r.removed })
    | (.error e, b) => (.error e, { r with inner := b, failed := id :: r.failed })
  updateVariables r :=
    ((Backend.updateVariables r.inner).1, { r with inner := (Backend.updateVariables r.inner).2 })
  value r := Backend.value r.inner
  constraintCount r := Backend.constraintCount r.inner

theorem failed_remove (r : Recorded σ) (id : ConstraintId) :
    r.failed <:+ (Backend.removeConstraint r id).2.failed := by
  simp only [Backend.removeConstraint]
  split
  · exact List.suffix_rfl
  · exact List.suffix_cons _ _

theorem failed_removeAll (ids : List ConstraintId) (r : Recorded σ) :
    r.failed <:+ (Backend.removeAll ids r).2.failed := by
  induction ids generalizing r with
  | nil => exact List.suffix_rfl
  | cons id ids ih =>
    have grown := (failed_remove r id).trans (ih (Backend.removeConstraint r id).2)
    simp only [Backend.removeAll]
    split <;> exact grown

/-- Removals that end with an error leave a number behind that could not be removed. -/
theorem failed_of_error {ids : List ConstraintId} {r r' : Recorded σ} {e : SolverError}
    (run : Backend.removeAll ids r = (.error e, r')) : r'.failed ≠ [] := by
  induction ids generalizing r with
  | nil => cases run
  | cons id ids ih =>
    simp only [Backend.removeAll] at run
    have later := failed_removeAll ids (Backend.removeConstraint r id).2
    have last := ih (r := (Backend.removeConstraint r id).2)
    generalize Backend.removeAll ids (Backend.removeConstraint r id).2 = rest at run later last
    obtain ⟨others, r₂⟩ := rest
    cases one : (Backend.removeConstraint r id).1 with
    | error e₁ =>
      rw [one] at run
      cases run
      have struck : (Backend.removeConstraint r id).2.failed ≠ [] := by
        simp only [Backend.removeConstraint] at one ⊢
        split at one
        · cases one
        · simp
      intro none
      rw [none] at later
      exact struck (List.suffix_nil.mp later)
    | ok _ =>
      rw [one] at run
      cases run
      exact last rfl

structure Ledger (I : Issuing σ) (pre P : Multiset (Entry α)) (r : Recorded σ) : Prop where
  partition : (r.issued : Multiset ConstraintId) = P.map Prod.fst + r.removed + r.failed
  once : r.issued.Nodup
  used : ∀ id ∈ r.issued, id ∈ I.used r.inner
  apart : ∀ id ∈ r.issued, id ∉ pre.map Prod.fst
  held : ∃ lost : Multiset (Entry α), lost.map Prod.fst = r.failed ∧
    I.held r.inner = pre + P + lost

variable {I : Issuing σ} {pre P : Multiset (Entry α)} {r : Recorded σ}

theorem ledger_ofBackend (I : Issuing σ) (b : σ) : Ledger I (I.held b) 0 (ofBackend b) :=
  ⟨rfl, List.nodup_nil, nofun, nofun, 0, rfl, by simp [ofBackend]⟩

/-- A call that neither adds nor removes. -/
theorem Ledger.moved (h : Ledger I pre P r) {b : σ} (held : I.held b = I.held r.inner)
    (used : I.used r.inner ⊆ I.used b) : Ledger I pre P { r with inner := b } :=
  ⟨h.partition, h.once, fun id hid => used (h.used id hid), h.apart, held ▸ h.held⟩

theorem Ledger.add_ok (h : Ledger I pre P r) {c : Constraint α} {id : ConstraintId} {b : σ}
    (run : Backend.addConstraint r.inner c = (.ok id, b)) :
    Ledger I pre ((id, c) ::ₘ P) { r with inner := b, issued := id :: r.issued } := by
  obtain ⟨lost, ids, held⟩ := h.held
  have grown := I.add_used r.inner c
  rw [run] at grown
  constructor
  · rw [← Multiset.cons_coe, h.partition, Multiset.map_cons, Multiset.cons_add, Multiset.cons_add]
  · exact List.nodup_cons.mpr ⟨fun old => (I.add_new _ _ _ _ run).1 (h.used id old), h.once⟩
  · rw [List.forall_mem_cons]
    exact ⟨(I.add_new _ _ _ _ run).2, fun x hx => grown (h.used x hx)⟩
  · rw [List.forall_mem_cons]
    refine ⟨fun old => ?_, h.apart⟩
    have nodup := I.nodup b
    rw [I.add_ok _ _ _ _ run, Multiset.map_cons, Multiset.nodup_cons, held, Multiset.map_add,
      Multiset.map_add, add_assoc, Multiset.mem_add] at nodup
    exact nodup.1 (Or.inl old)
  · refine ⟨lost, ids, ?_⟩
    rw [I.add_ok _ _ _ _ run, held, Multiset.add_cons, Multiset.cons_add]

theorem Ledger.remove_ok {id : ConstraintId} {c : Constraint α}
    (h : Ledger I pre ((id, c) ::ₘ P) r) {b : σ}
    (run : Backend.removeConstraint r.inner id = (.ok (), b)) :
    Ledger I pre P { r with inner := b, removed := id :: r.removed } := by
  obtain ⟨lost, ids, held⟩ := h.held
  have grown := I.remove_used r.inner id
  rw [run] at grown
  rw [Multiset.add_cons, Multiset.cons_add] at held
  constructor
  · rw [h.partition, ← Multiset.cons_coe, Multiset.map_cons, Multiset.cons_add, Multiset.cons_add,
      Multiset.add_cons, Multiset.cons_add]
  · exact h.once
  · exact fun x hx => grown (h.used x hx)
  · exact h.apart
  · exact ⟨lost, ids, I.held_remove held run⟩

theorem Ledger.remove_error {id : ConstraintId} {c : Constraint α}
    (h : Ledger I pre ((id, c) ::ₘ P) r) {e : SolverError} {b : σ}
    (run : Backend.removeConstraint r.inner id = (.error e, b)) :
    Ledger I pre P { r with inner := b, failed := id :: r.failed } := by
  obtain ⟨lost, ids, held⟩ := h.held
  have grown := I.remove_used r.inner id
  rw [run] at grown
  constructor
  · rw [h.partition, ← Multiset.cons_coe, Multiset.map_cons, Multiset.cons_add, Multiset.cons_add,
      Multiset.add_cons]
  · exact h.once
  · exact fun x hx => grown (h.used x hx)
  · exact h.apart
  · refine ⟨(id, c) ::ₘ lost, by rw [Multiset.map_cons, ids, Multiset.cons_coe], ?_⟩
    rw [I.remove_error _ _ _ _ run, held, Multiset.add_cons, Multiset.add_cons, Multiset.cons_add]

def ledger (I : Issuing σ) (pre : Multiset (Entry α)) : Custody (Recorded σ) where
  owns P r := Ledger I pre P r
  newVariable P r h := h.moved (I.newVariable r.inner) (I.newVariable_used r.inner)
  add_ok P r c id r' h run := by
    simp only [Backend.addConstraint] at run
    split at run
    · next run' =>
      cases run
      exact h.add_ok run'
    · cases run
  add_error P r c e r' h run := by
    have grown := I.add_used r.inner c
    simp only [Backend.addConstraint] at run
    split at run
    · cases run
    · next run' =>
      cases run
      rw [run'] at grown
      exact h.moved (I.add_error _ _ _ _ run') grown
  remove P r id c h := by
    simp only [Backend.removeConstraint]
    split
    · next run => exact h.remove_ok run
    · next run => exact h.remove_error run
  update P r h := h.moved (I.update r.inner) (I.update_used r.inner)

end Recorded

end LinearChoice
