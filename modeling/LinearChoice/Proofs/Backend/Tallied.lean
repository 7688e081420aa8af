import LinearChoice.Backend.Simplex
import LinearChoice.Proofs.Backend.Custody
import LinearChoice.Proofs.Simplex.Numbering
import LinearChoice.Proofs.Simplex.Removal

/-!
# Tallied backends

An addition may fail although its constraint was recorded, and then nobody is
told its number. A tallied backend counts these orphans. On the simplex solver
the count comes out even: what was there at first, what is in custody, and the
orphans.
-/

set_option autoImplicit false

namespace LinearChoice

structure Tallied (σ : Type) where
  inner : σ
  orphans : Nat

namespace Tallied

variable {σ α : Type} [BackendOver σ α]

instance : BackendOver (Tallied σ) α where
  newVariable r :=
    ((Backend.newVariable r.inner).1, { r with inner := (Backend.newVariable r.inner).2 })
  addConstraint r c :=
    match Backend.addConstraint r.inner c with
    | (.ok id, b) => (.ok id, { r with inner := b })
    | (.error e, b) =>
      (.error e,
        ⟨b, r.orphans + (Backend.constraintCount b - Backend.constraintCount r.inner)⟩)
  removeConstraint r id :=
    ((Backend.removeConstraint r.inner id).1,
      { r with inner := (Backend.removeConstraint r.inner id).2 })
  updateVariables r :=
    ((Backend.updateVariables r.inner).1, { r with inner := (Backend.updateVariables r.inner).2 })
  value r := Backend.value r.inner
  constraintCount r := Backend.constraintCount r.inner

end Tallied

namespace Solver

variable {α : Type} [Scalar α] {s s' : Solver α} {c : Constraint α}

theorem constraints_of_added {id : ConstraintId} (run : s.addConstraint c = (.ok id, s')) :
    id = ⟨s.nextConstraint⟩ ∧ ∃ held, s'.constraints = s.constraints.insert id held := by
  have inserted := inserted s c
  unfold addConstraint at run
  generalize s.insert c = answer at inserted run
  cases inserted with
  | accepted posed =>
    cases run
    exact ⟨rfl, _, rfl⟩
  | nonFinite | refused | endless | orphaned => cases run

/-- A failed addition records nothing, unless an optimisation did not come to its end. -/
theorem constraints_of_failed {e : SolverError} (run : s.addConstraint c = (.error e, s')) :
    s'.constraints = s.constraints ∨
      (c.isRequired = true → ¬s.tableau.Unpriced) ∧
        ∃ held, s'.constraints = s.constraints.insert ⟨s.nextConstraint⟩ held := by
  have inserted := inserted s c
  unfold addConstraint at run
  generalize s.insert c = answer at inserted run
  cases inserted with
  | nonFinite | refused | endless =>
    cases run
    exact Or.inl rfl
  | accepted => cases run
  | orphaned _ _ priced =>
    cases run
    exact Or.inr ⟨priced, _, rfl⟩

theorem constraints_of_removed (id : ConstraintId) (held : s.hasConstraint id = true) :
    (s.removeConstraint id).2.constraints = s.constraints.eraseSwap id := by
  obtain ⟨record, found⟩ := Option.isSome_iff_exists.mp held
  exact (removes found).record

end Solver

namespace Tallied

structure Tally (n : Nat) (P : Multiset Entry) (r : Tallied (Solver Float)) : Prop where
  numbered : r.inner.Numbered
  distinct : (P.map Prod.fst).Nodup
  held : ∀ e ∈ P, r.inner.hasConstraint e.1 = true
  count : r.inner.constraintCount = n + P.card + r.orphans

variable {n : Nat} {P : Multiset Entry} {r : Tallied (Solver Float)}

/-- A call that leaves the records alone. -/
theorem Tally.moved (h : Tally n P r) {b : Solver Float} (numbered : b.Numbered)
    (same : b.constraints = r.inner.constraints) : Tally n P { r with inner := b } := by
  refine ⟨numbered, h.distinct, fun e he => ?_, ?_⟩
  · exact (congrArg (Table.contains · e.1) same).trans (h.held e he)
  · exact (congrArg Table.size same).trans h.count

theorem Tally.add_ok (h : Tally n P r) {c : Constraint Float} {id : ConstraintId}
    {b : Solver Float} (run : r.inner.addConstraint c = (.ok id, b)) :
    Tally n ((id, c) ::ₘ P) { r with inner := b } := by
  obtain ⟨rfl, record, grown⟩ := Solver.constraints_of_added run
  have numbered : (r.inner.addConstraint c).2.Numbered := h.numbered.insert c
  rw [run] at numbered
  have new := h.numbered.new
  have absent (e : Entry) (he : e ∈ P) : (⟨r.inner.nextConstraint⟩ : ConstraintId) ≠ e.1 := by
    intro same
    have := h.held e he
    simp [Solver.hasConstraint, Table.contains, ← same, new] at this
  refine ⟨numbered, ?_, fun e he => ?_, ?_⟩
  · rw [Multiset.map_cons, Multiset.nodup_cons]
    refine ⟨fun mem => ?_, h.distinct⟩
    obtain ⟨e, he, same⟩ := Multiset.mem_map.mp mem
    exact absent e he same.symm
  · have contained : (r.inner.constraints.insert ⟨r.inner.nextConstraint⟩ record).contains e.1
        = true := by
      rw [Table.contains, Table.get?_insert]
      rcases Multiset.mem_cons.mp he with rfl | he
      · rw [if_pos rfl]
        rfl
      · rw [if_neg (absent e he)]
        exact h.held e he
    exact (congrArg (Table.contains · e.1) grown).trans contained
  · have size := Table.size_insert_new r.inner.constraints _ record new
    have count : r.inner.constraints.size = n + P.card + r.orphans := h.count
    change b.constraints.size = n + _ + r.orphans
    rw [grown, size, count, Multiset.card_cons]
    omega

theorem Tally.add_error (h : Tally n P r) {c : Constraint Float} {e : SolverError}
    {b : Solver Float} (run : r.inner.addConstraint c = (.error e, b)) :
    Tally n P ⟨b, r.orphans + (b.constraintCount - r.inner.constraintCount)⟩ := by
  have numbered : (r.inner.addConstraint c).2.Numbered := h.numbered.insert c
  rw [run] at numbered
  have count : r.inner.constraints.size = n + P.card + r.orphans := h.count
  rcases Solver.constraints_of_failed run with same | ⟨-, record, grown⟩
  · refine ⟨numbered, h.distinct, fun e he => ?_, ?_⟩
    · exact (congrArg (Table.contains · e.1) same).trans (h.held e he)
    · change b.constraints.size = n + P.card + (r.orphans + (b.constraints.size - _))
      rw [same, Solver.constraintCount, count]
      omega
  · have size := Table.size_insert_new r.inner.constraints _ record h.numbered.new
    refine ⟨numbered, h.distinct, fun e he => ?_, ?_⟩
    · have old : (r.inner.constraints.get? e.1).isSome = true := h.held e he
      change (b.constraints.get? e.1).isSome = true
      rw [grown, Table.get?_insert]
      split
      · rfl
      · exact old
    · change b.constraints.size = n + P.card + (r.orphans + (b.constraints.size - _))
      rw [grown, size, Solver.constraintCount, count]
      omega

theorem Tally.remove {id : ConstraintId} {c : Constraint Float} (h : Tally n ((id, c) ::ₘ P) r) :
    Tally n P { r with inner := (r.inner.removeConstraint id).2 } := by
  have held : r.inner.hasConstraint id = true := h.held (id, c) (Multiset.mem_cons_self _ _)
  have erased := Solver.constraints_of_removed id held
  have distinct := h.distinct
  rw [Multiset.map_cons, Multiset.nodup_cons] at distinct
  refine ⟨h.numbered.removeConstraint id, distinct.2, fun e he => ?_, ?_⟩
  · have other : id ≠ e.1 := fun same =>
      distinct.1 (Multiset.mem_map.mpr ⟨e, he, same.symm⟩)
    have old : (r.inner.constraints.get? e.1).isSome = true :=
      h.held e (Multiset.mem_cons_of_mem he)
    change ((r.inner.removeConstraint id).2.constraints.get? e.1).isSome = true
    rw [erased, Table.get?_eraseSwap, if_neg other]
    exact old
  · have size := Table.size_eraseSwap r.inner.constraints id held
    have count : r.inner.constraints.size = n + _ + r.orphans := h.count
    change (r.inner.removeConstraint id).2.constraints.size = n + P.card + r.orphans
    rw [Multiset.card_cons] at count
    rw [erased]
    omega

theorem constraints_updateVariables (b : Solver Float) :
    b.updateVariables.2.constraints = b.constraints := by
  unfold Solver.updateVariables
  split <;> rfl

def tally (n : Nat) : Custody (Tallied (Solver Float)) where
  owns P r := Tally n P r
  newVariable P r h :=
    h.moved ⟨h.numbered.tableau, h.numbered.tags, h.numbered.issued, h.numbered.edits⟩ rfl
  add_ok P r c id r' h run := by
    simp only [Backend.addConstraint] at run
    split at run
    · next run' =>
      cases run
      exact h.add_ok run'
    · cases run
  add_error P r c e r' h run := by
    simp only [Backend.addConstraint] at run
    split at run
    · cases run
    · next run' =>
      cases run
      exact h.add_error run'
  remove P r id c h := h.remove
  update P r h := h.moved h.numbered.updateVariables (constraints_updateVariables r.inner)

theorem tally_start {b : Solver Float} (numbered : b.Numbered) :
    (tally b.constraintCount).owns 0 ⟨b, 0⟩ :=
  ⟨numbered, Multiset.nodup_zero, nofun, rfl⟩

end Tallied

end LinearChoice
