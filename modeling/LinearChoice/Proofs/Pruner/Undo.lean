import LinearChoice.Pruner.Basic
import LinearChoice.Table.Lemmas

/-!
# Taking back commitments

The trail of the pruner holds what each change of the bounds replaced. Going
back to a mark restores the pruner as it was then, with its table of bounds in
the same order.
-/

set_option autoImplicit false

namespace LinearChoice.Pruner

variable {α : Type} {p q r : Pruner α}

structure Extends (p q : Pruner α) : Prop where
  mode : q.mode = p.mode
  trail : ∃ newer, q.trail = newer ++ p.trail ∧ newer.foldl revert q.bounds = p.bounds
  linear : p.linear <+: q.linear

theorem Extends.refl (p : Pruner α) : Extends p p := ⟨rfl, ⟨[], rfl, rfl⟩, List.prefix_rfl⟩

theorem Extends.trans (h : Extends p q) (h' : Extends q r) : Extends p r := by
  obtain ⟨newer, trail, bounds⟩ := h.trail
  obtain ⟨newer', trail', bounds'⟩ := h'.trail
  refine ⟨h'.mode.trans h.mode, ⟨newer' ++ newer, ?_, ?_⟩, h.linear.trans h'.linear⟩
  · rw [trail', trail, List.append_assoc]
  · rw [List.foldl_append, bounds', bounds]

theorem Extends.undo (h : Extends p q) : q.undo p.mark = p := by
  obtain ⟨newer, trail, bounds⟩ := h.trail
  obtain ⟨later, linear⟩ := h.linear
  have count : q.trail.length - p.trail.length = newer.length := by
    rw [trail, List.length_append, Nat.add_sub_cancel]
  unfold Pruner.undo mark
  simp only [count]
  rw [trail, ← linear, List.take_left, List.drop_left, List.take_left, bounds, h.mode]

theorem Extends.setMode (h : Extends p q) (mode : PruneMode) :
    Extends (p.setMode mode) (q.setMode mode) := ⟨rfl, h.trail, h.linear⟩

structure Spares (m : PruneMark) (p : Pruner α) : Prop where
  trail : p.trail.length ≤ m.trail
  linear : p.linear.length ≤ m.linear

theorem Extends.spares (h : Extends p q) : Spares q.mark p := by
  obtain ⟨newer, trail, -⟩ := h.trail
  refine ⟨?_, h.linear.length_le⟩
  simp [mark, trail]

/-- However old the mark is and whatever became of the branch on which it was taken. -/
theorem Extends.undo_spared (h : Extends p q) {m : PruneMark} (spared : Spares m p) :
    Extends p (q.undo m) := by
  obtain ⟨newer, trail, bounds⟩ := h.trail
  let n := q.trail.length - m.trail
  -- What is taken back was written on top of `p`, so the rest of it still leads back to `p`.
  have few : n ≤ newer.length := by
    have total : q.trail.length = newer.length + p.trail.length := by simp [trail]
    have kept := spared.trail
    omega
  refine ⟨h.mode, ⟨newer.drop n, ?_, ?_⟩, List.prefix_take_iff.mpr ⟨h.linear, spared.linear⟩⟩
  · change q.trail.drop n = _
    rw [trail, List.drop_append_of_le_length few]
  · change (newer.drop n).foldl revert ((q.trail.take n).foldl revert q.bounds) = _
    rw [trail, List.take_append_of_le_length few, ← List.foldl_append, List.take_append_drop,
      bounds]

variable [ExtendedScalar α]

theorem extends_commitBound (p : Pruner α) (v : Variable) (interval : Interval α) :
    Extends p (p.commitBound v interval) := by
  unfold commitBound
  dsimp only
  split
  · exact Extends.refl p
  · refine ⟨rfl, ⟨[(v, p.bounds.get? v)], rfl, ?_⟩, List.prefix_rfl⟩
    rw [List.foldl_cons, List.foldl_nil, revert]
    cases old : p.bounds.get? v with
    | none => exact Table.eraseShift_insert p.bounds v _ old
    | some i => exact Table.insert_insert p.bounds v _ i old

theorem extends_commitOne (p : Pruner α) (c : Constraint α) : Extends p (p.commitOne c) := by
  unfold commitOne
  split
  · exact extends_commitBound p _ _
  · split
    · exact ⟨rfl, ⟨[], rfl, rfl⟩, List.prefix_append _ _⟩
    · exact Extends.refl p

theorem extends_commit (p : Pruner α) (cs : List (Constraint α)) : Extends p (p.commit cs) := by
  induction cs generalizing p with
  | nil => exact Extends.refl p
  | cons c cs ih => exact (extends_commitOne p c).trans (ih (p.commitOne c))

theorem undo_commit (p : Pruner α) (cs : List (Constraint α)) : (p.commit cs).undo p.mark = p :=
  (extends_commit p cs).undo

theorem commit_append (p : Pruner α) (cs ds : List (Constraint α)) :
    p.commit (cs ++ ds) = (p.commit cs).commit ds := List.foldl_append

/-- The mode decides how candidates are checked, not what is committed. -/
theorem setMode_commit (p : Pruner α) (mode : PruneMode) (cs : List (Constraint α)) :
    (p.commit cs).setMode mode = (p.setMode mode).commit cs := by
  induction cs generalizing p with
  | nil => rfl
  | cons c cs ih =>
    have one : (p.commitOne c).setMode mode = (p.setMode mode).commitOne c := by
      unfold commitOne commitBound setMode
      dsimp only
      split
      · split <;> rfl
      · split <;> rfl
    exact (ih (p.commitOne c)).trans (congrArg (fun q => Pruner.commit q cs) one)

omit [ExtendedScalar α] in
theorem mark_setMode (p : Pruner α) (mode : PruneMode) : (p.setMode mode).mark = p.mark := rfl

/-- The mark is the same under every mode. -/
theorem mark_commit (mode : PruneMode) (cs : List (Constraint α)) :
    ((Pruner.empty mode).commit cs).mark = ((Pruner.empty .off).commit cs).mark := by
  have same := setMode_commit (Pruner.empty .off) mode cs
  rw [← mark_setMode ((Pruner.empty .off).commit cs) mode, same]
  rfl

end LinearChoice.Pruner
