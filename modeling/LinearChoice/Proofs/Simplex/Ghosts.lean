import LinearChoice.Proofs.Simplex.Editing

/-!
# Every symbol is some constraint's

A symbol that the equations of the book do not mention is free in the solutions
of the tableau, and what is free occurs nowhere. So no symbol outlives its
constraint, and none is left over from a refusal. The marker of a constraint in
turn is not free, and hence in some row.
-/

set_option autoImplicit false

namespace LinearChoice
open scoped Exact

namespace Tableau

def Occurs (t : Tableau ℚ) (s : Symbol) : Prop :=
  ∃ x row, t.rows.get? x = some row ∧ (s = x ∨ s ∈ row.cells.keys)

variable {t : Tableau ℚ} {book : Book} {base : ConstraintId → ℕ} {s : Symbol}

theorem Standard.occurs_iff (h : t.Standard) : t.Occurs s ↔ ¬t.Absent s := by
  constructor
  · rintro ⟨x, row, hx, rfl | mem⟩ absent
    · rw [absent.1] at hx
      contradiction
    · exact ((h.reduced x row hx).mem_keys_iff s).mp mem (absent.2 x row hx)
  · intro bound
    by_contra nowhere
    refine bound ⟨?_, fun x row hx => ?_⟩
    · by_contra basic
      obtain ⟨row, hs⟩ := Option.ne_none_iff_exists'.mp basic
      exact nowhere ⟨s, row, hs, Or.inl rfl⟩
    · by_contra mentioned
      exact nowhere ⟨x, row, hx, Or.inr (((h.reduced x row hx).mem_keys_iff s).mpr mentioned)⟩

/-- The objective has no symbols that are foreign to the book either. -/
theorem Describes.over (h : t.Describes book base) :
    t.Over fun s => s.isExternal = true ∨ ¬book.Foreign base s := by
  have absent (s : Symbol) (hs : ¬(s.isExternal = true ∨ ¬book.Foreign base s)) : t.Absent s := by
    rw [not_or, not_not] at hs
    exact h.absent (by simpa using hs.1) hs.2
  constructor
  · intro s row hs
    by_contra foreign
    exact h.standard.occurs_iff.mp ⟨s, row, hs, Or.inl rfl⟩ (absent s foreign)
  · intro x row hx s hs
    by_contra foreign
    exact h.standard.occurs_iff.mp ⟨x, row, hx, Or.inr hs⟩ (absent s foreign)
  · intro s hs
    by_contra foreign
    apply (h.prices.reduced.mem_keys_iff s).mp hs
    apply h.prices.absent h.standard (absent s foreign)
    rintro e he rfl
    obtain ⟨id, c, held, priced⟩ := Book.mem_costs he
    rw [not_or, not_not] at foreign
    exact foreign.2 id c held (Markers.costs_tagged c (base id) e priced)

end Tableau

namespace Solver

structure GhostFree (s : Solver ℚ) : Prop where
  owned : s.tableau.Over fun x =>
    x.isExternal = true ∨ ∃ id held, s.constraints.get? id = some held ∧ x ∈ held.tag.symbols
  marked : ∀ id held, s.constraints.get? id = some held → s.tableau.Occurs held.tag.marker

variable {s : Solver ℚ} {book : Book} {base : ConstraintId → ℕ}

theorem Keeps.ghostFree (h : s.Keeps book base) : s.GhostFree := by
  constructor
  · apply h.describes.over.imp
    intro x occurs
    apply occurs.imp_right
    intro known
    simp only [Book.Foreign, not_forall, not_not] at known
    obtain ⟨id, c, held, tagged⟩ := known
    exact ⟨id, _, by rw [h.records, held, Option.map_some], tagged⟩
  · intro id held found
    rw [h.records] at found
    obtain ⟨c, hc, rfl⟩ := Option.map_eq_some_iff.mp found
    exact h.describes.standard.occurs_iff.mpr (h.describes.marker_bound hc)

theorem Orderly.ghostFree (h : s.Orderly) : s.GhostFree := by
  obtain ⟨k, book, base, keeps⟩ := h
  have found := keeps.ghostFree
  exact ⟨⟨found.owned.basic, found.owned.rows, found.owned.objective⟩, found.marked⟩

/-- After any calls whose suggestions come to their end, additions that are refused and edits of
removed constraints among them. -/
theorem ghostFree_afterAll {calls : List (Call ℚ)} (weights : ∀ call ∈ calls, call.Weighted)
    (fin : empty.concludesAll calls = true) : ((empty : Solver ℚ).afterAll calls).GhostFree :=
  (orderly_afterAll weights fin).ghostFree

def pulled : List (Call ℚ) :=
  let x : Expression ℚ := .ofVariable ⟨0⟩
  let y : Expression ℚ := .ofVariable ⟨1⟩
  [.newVariable, .newVariable, .add (.relate x .atLeast 1), .add (.relate x .atMost 0),
    .addEdit ⟨0⟩ .strong, .suggest ⟨0⟩ 5, .suggest ⟨0⟩ (-3),
    .add (.relate (y.addScaled x (-1)) .equal 2), .addEdit ⟨1⟩ .weak, .suggest ⟨1⟩ 9, .remove ⟨1⟩,
    .suggest ⟨0⟩ 7]

/-- One constraint is refused. Of the two variables under edit the first has lost its constraint when
the last suggestion is made for it. -/
theorem ghostFree_pulled : (∀ call ∈ pulled, call.Weighted) ∧ empty.concludesAll pulled = true ∧
    ((empty : Solver ℚ).afterAll pulled).GhostFree := by
  have weights : ∀ call ∈ pulled, call.Weighted := by decide +kernel
  have fin : empty.concludesAll pulled = true := by decide +kernel
  exact ⟨weights, fin, ghostFree_afterAll weights fin⟩

end Solver

end LinearChoice
