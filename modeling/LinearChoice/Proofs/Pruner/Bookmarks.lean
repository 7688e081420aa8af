import LinearChoice.Proofs.Pruner.Undo

/-!
# Stale marks

A mark is two lengths, and nothing tells whether the branch on which it was
taken is still there. So a pruner may be taken back to a mark whose branch is
gone, or to the same mark again and again. None of this reaches below the marks
that were taken: going back to the first of them restores the pruner as it was
then, in any arithmetic.
-/

set_option autoImplicit false

namespace LinearChoice.Pruner

inductive Operation (α : Type) where
  | commit (cs : List (Constraint α))
  | mark
  | setMode (mode : PruneMode)
  /-- Goes back to the mark of this number, in the order in which the marks were taken. -/
  | undo (number : Nat)

structure Bookmarked (α : Type) where
  pruner : Pruner α
  marks : List PruneMark

namespace Bookmarked

variable {α : Type}

def ofPruner (p : Pruner α) : Bookmarked α := ⟨p, [p.mark]⟩

variable [ExtendedScalar α]

def after (b : Bookmarked α) : Operation α → Bookmarked α
  | .commit cs => { b with pruner := b.pruner.commit cs }
  | .mark => { b with marks := b.marks ++ [b.pruner.mark] }
  | .setMode mode => { b with pruner := b.pruner.setMode mode }
  | .undo number =>
    match b.marks[number]? with
    | some m => { b with pruner := b.pruner.undo m }
    | none => b

def afterAll (b : Bookmarked α) (operations : List (Operation α)) : Bookmarked α :=
  operations.foldl after b

end Bookmarked

variable {α : Type} {p : Pruner α} {b : Bookmarked α}

structure Rests (b : Bookmarked α) (p : Pruner α) : Prop where
  pruner : Extends (p.setMode b.pruner.mode) b.pruner
  marks : ∀ m ∈ b.marks, Spares m p

theorem rests_ofPruner (p : Pruner α) : Rests (.ofPruner p) p := by
  refine ⟨Extends.refl p, ?_⟩
  intro m hm
  rw [List.mem_singleton.mp hm]
  exact (Extends.refl p).spares

variable [ExtendedScalar α]

theorem Rests.after (h : Rests b p) (operation : Operation α) : Rests (b.after operation) p := by
  cases operation with
  | commit cs =>
    have grown := extends_commit b.pruner cs
    have same : (b.pruner.commit cs).mode = b.pruner.mode := grown.mode
    refine ⟨?_, h.marks⟩
    change Extends (p.setMode (b.pruner.commit cs).mode) (b.pruner.commit cs)
    rw [same]
    exact h.pruner.trans grown
  | mark =>
    refine ⟨h.pruner, ?_⟩
    intro m hm
    rcases List.mem_append.mp hm with old | new
    · exact h.marks m old
    · rw [List.mem_singleton.mp new]
      exact ⟨h.pruner.spares.trail, h.pruner.spares.linear⟩
  | setMode mode => exact ⟨h.pruner.setMode mode, h.marks⟩
  | undo number =>
    unfold Bookmarked.after
    dsimp only
    split
    · next m found =>
      -- The lengths of the mark are all that counts, so its branch may be gone.
      have spared := h.marks m (List.mem_of_getElem? found)
      exact ⟨h.pruner.undo_spared ⟨spared.trail, spared.linear⟩, h.marks⟩
    · exact h

theorem Rests.afterAll (h : Rests b p) (operations : List (Operation α)) :
    Rests (b.afterAll operations) p := by
  induction operations generalizing b with
  | nil => exact h
  | cons operation operations ih => exact ih (h.after operation)

structure Restored (q p : Pruner α) : Prop where
  bounds : q.bounds = p.bounds
  trail : q.trail = p.trail
  linear : q.linear = p.linear
  mark : q.mark = p.mark

/-- Whatever was committed, marked and undone since, going back to a mark restores what the pruner
held when it was taken. -/
theorem restored_afterAll (p : Pruner α) (operations : List (Operation α)) :
    Restored (((Bookmarked.ofPruner p).afterAll operations).pruner.undo p.mark) p := by
  have rests := (rests_ofPruner p).afterAll operations
  rw [← mark_setMode p ((Bookmarked.ofPruner p).afterAll operations).pruner.mode,
    rests.pruner.undo]
  exact ⟨rfl, rfl, rfl, rfl⟩

end LinearChoice.Pruner
