import LinearChoice.Proofs.Simplex.Keeping
import LinearChoice.Proofs.Simplex.Restore
import LinearChoice.Proofs.Simplex.Surcharge

/-!
# Moving the target of a constraint

The constants of the tableau are shifted as if one of the constraint's errors
were displaced. What comes out has the solutions of a book in which the target
has moved, and prices them as before but for a constant. No row changes in
anything but its sign.
-/

set_option autoImplicit false

namespace LinearChoice
open scoped Exact

namespace Constraint

def offset (c : Constraint ℚ) (x : ℚ) : Constraint ℚ :=
  { c with expression := c.expression.offset x }

variable (c : Constraint ℚ) (n : ℕ)

theorem offset_offset (x y : ℚ) : (c.offset x).offset y = c.offset (x + y) := by
  simp only [offset, Expression.offset, add_assoc]

/-- Markers do not depend on the target. -/
theorem markers_offset (x : ℚ) : Markers.ofConstraint (c.offset x) n = Markers.ofConstraint c n :=
  rfl

/-- To displace a marker is to move the target the other way. -/
theorem meets_displaced {s : Symbol} (hs : s.isExternal = false) (σ : Valuation) (x : ℚ) :
    c.Meets n (Function.update σ s (σ s + x)) ↔
      (c.offset (Markers.share c n s * x)).Meets n σ := by
  rw [Meets, Meets, Valuation.outer_update hs, Markers.weigh_update_marker, markers_offset]
  simp only [offset, Expression.offset, Expression.evaluate_eq]
  constructor
  all_goals
    intro zero
    linarith

end Constraint

namespace Book

variable {book : Book} {base : ConstraintId → ℕ} {n : ℕ} {id : ConstraintId} {c : Constraint ℚ}

/-- An entry of the book after one of its targets has moved. -/
theorem get?_offset (x : ℚ) {y : ConstraintId} {d : Constraint ℚ}
    (hy : (book.insert id (c.offset x)).get? y = some d) :
    (id = y ∧ d = c.offset x) ∨ (id ≠ y ∧ book.get? y = some d) := by
  rw [Table.get?_insert] at hy
  split at hy
  · next heq => exact Or.inl ⟨heq, (Option.some.inj hy).symm⟩
  · next hne => exact Or.inr ⟨hne, hy⟩

theorem Numbered.offset (h : book.Numbered base n) (held : book.get? id = some c) (x : ℚ) :
    Numbered (book.insert id (c.offset x)) base n := by
  have before {y : ConstraintId} {d : Constraint ℚ}
      (hy : (book.insert id (c.offset x)).get? y = some d) :
      ∃ d', book.get? y = some d' ∧ Markers.ofConstraint d (base y) =
        Markers.ofConstraint d' (base y) := by
    rcases get?_offset x hy with ⟨rfl, rfl⟩ | ⟨-, hy⟩
    · exact ⟨c, held, c.markers_offset _ x⟩
    · exact ⟨d, hy, rfl⟩
  constructor
  · intro y d hy
    obtain ⟨d', hy, same⟩ := before hy
    exact same ▸ h.below y d' hy
  · intro y z d e hy hz hne
    obtain ⟨d', hy, same⟩ := before hy
    obtain ⟨e', hz, same'⟩ := before hz
    exact same ▸ same' ▸ h.apart y z d' e' hy hz hne

theorem costs_offset (held : book.get? id = some c) (x : ℚ) :
    costs (book.insert id (c.offset x)) base = costs book base :=
  Table.flatMap_place (fun e => (Markers.ofConstraint e.2 (base e.1)).costs) id (c.offset x) c
    book.entries held rfl

end Book

namespace Tableau

structure Displaced (t : Tableau ℚ) (s : Symbol) (x : ℚ) (t' : Tableau ℚ) : Prop where
  rows : ∀ y, t'.rows.get? y =
    (t.rows.get? y).map fun r => r.shift (r.coefficient s * x - if y = s then x else 0)
  objective : t'.objective = t.objective

variable {t t' : Tableau ℚ} {s : Symbol} {x : ℚ} {row goal : Row ℚ} {costs : List (Symbol × ℚ)}

namespace Displaced

theorem earlier (h : t.Displaced s x t') {y : Symbol} {r : Row ℚ} (hy : t'.rows.get? y = some r) :
    ∃ r', t.rows.get? y = some r' ∧
      r = r'.shift (r'.coefficient s * x - if y = s then x else 0) := by
  rw [h.rows] at hy
  obtain ⟨r', found, same⟩ := Option.map_eq_some_iff.mp hy
  exact ⟨r', found, same.symm⟩

theorem solves (h : t.Displaced s x t') (σ : Valuation) :
    t'.Solves σ ↔ t.Solves (Function.update σ s (σ s + x)) := by
  have equation (y : Symbol) (r : Row ℚ) :
      σ y = (r.shift (r.coefficient s * x - if y = s then x else 0)).eval σ ↔
        Function.update σ s (σ s + x) y = r.eval (Function.update σ s (σ s + x)) := by
    rw [Row.eval_shift, Row.eval_step]
    by_cases heq : y = s
    · rw [if_pos heq, heq, Function.update_self]
      constructor
      all_goals
        intro value
        linarith
    · rw [if_neg heq, Function.update_of_ne heq]
      constructor
      all_goals
        intro value
        linarith
  constructor
  · intro hσ y r hy
    exact (equation y r).mp (hσ y _ (by rw [h.rows, hy]; rfl))
  · intro hσ y r hy
    obtain ⟨r', found, rfl⟩ := h.earlier hy
    exact (equation y r').mpr (hσ y r' found)

theorem parametric (h : t.Displaced s x t') {r : Row ℚ} (hr : t.Parametric r) : t'.Parametric r := by
  intro y hy
  apply hr y
  intro absent
  exact hy (by rw [h.rows, absent]; rfl)

/-- The rows of dummies stay at zero. -/
theorem regular (h : t.Displaced s x t') (ht : t.Standard) (hs : s.isDummy = false) :
    t'.Regular := by
  constructor
  · intro y r hy
    obtain ⟨r', found, rfl⟩ := h.earlier hy
    exact h.parametric (ht.parametric y r' found)
  · intro y r hy
    obtain ⟨r', found, rfl⟩ := h.earlier hy
    exact ht.reduced y r' found
  · intro y r hy
    obtain ⟨r', found, rfl⟩ := h.earlier hy
    have fit := ht.admits y r' found
    cases y with
    | external v => trivial
    | slack i | error i => exact fit.1
    | dummy i =>
      have hne : Symbol.dummy i ≠ s := by
        rintro rfl
        contradiction
      refine ⟨fit.1, ?_⟩
      rw [fit.1 s hs, if_neg hne]
      simp [Row.shift, fit.2]

/-- The prices are the same, but for what the displaced symbol made of them. -/
theorem prices (h : t.Displaced s x t') (hg : t.Prices costs goal) :
    ∃ k, t'.Prices costs (goal.shift k) := by
  refine ⟨goal.coefficient s * x - weigh (Pi.single s 1) costs * x, h.parametric hg.parametric,
    hg.reduced, fun σ hσ => ?_⟩
  have value := hg.value _ ((h.solves σ).mp hσ)
  rw [Row.eval_step, weigh_step] at value
  rw [Row.eval_shift]
  linarith

end Displaced

/-- A basic symbol is displaced in its own row alone. -/
theorem displaced_shiftRow (h : t.Standard) (hs : t.rows.get? s = some row) (x : ℚ) :
    t.Displaced s x (t.shiftRow s row (-x)).2 := by
  have basic : t.rows.get? s ≠ none := by simp [hs]
  refine ⟨fun y => ?_, rfl⟩
  rw [shiftRow, get?_attach]
  split
  · next heq =>
    subst heq
    rw [hs, Option.map_some, h.parametric s row hs s basic, if_pos rfl, zero_mul, zero_sub]
  · next hne =>
    cases hy : t.rows.get? y with
    | none => rfl
    | some r =>
      rw [Option.map_some, h.parametric y r hy s basic, if_neg (Ne.symm hne)]
      simp [Row.shift]

theorem pending_shiftRow (h : t.Standard) (hs : s.isExternal = false) (row : Row ℚ) (x : ℚ) :
    (t.shiftRow s row x).2.Pending (t.shiftRow s row x).1 := by
  unfold shiftRow
  dsimp only
  constructor
  · intro y hy
    split at hy
    · exact List.mem_singleton.mp hy ▸ hs
    · exact absurd hy List.not_mem_nil
  · intro y r hy hi neg
    rw [get?_attach] at hy
    split at hy
    · next heq =>
      rw [← Option.some.inj hy] at neg
      rw [if_pos neg, heq]
      exact List.mem_singleton_self y
    · exact absurd ((h.admits y r hy).nonneg hi) (not_le.mpr neg)

/-- A parametric symbol is displaced in the rows that mention it. -/
theorem displaced_shiftRows (hs : t.rows.get? s = none) (x : ℚ) :
    t.Displaced s x (t.shiftRows s x).2 := by
  refine ⟨fun y => ?_, rfl⟩
  unfold shiftRows
  rw [Table.get?_mapValues]
  cases hy : t.rows.get? y with
  | none => rfl
  | some r =>
    have hne : y ≠ s := fun heq => by simp [heq, hs] at hy
    simp only [Option.map_some, if_neg hne, sub_zero, mul_comm x]
    by_cases untouched : r.coefficient s = 0
    · simp [untouched, Row.shift]
    · simp [untouched]

theorem pending_shiftRows (h : t.Standard) (s : Symbol) (x : ℚ) :
    (t.shiftRows s x).2.Pending (t.shiftRows s x).1 := by
  unfold shiftRows
  dsimp only
  constructor
  · intro y hy
    obtain ⟨e, he, rfl⟩ := List.mem_map.mp (List.mem_reverse.mp hy)
    have kept := (List.mem_filter.mp he).2
    simp only [Bool.and_eq_true, Bool.not_eq_true'] at kept
    exact kept.2
  · intro y r hy hi neg
    rw [Table.get?_mapValues] at hy
    obtain ⟨r', found, rfl⟩ := Option.map_eq_some_iff.mp hy
    rw [List.mem_reverse]
    refine List.mem_map.mpr ⟨(y, r'), List.mem_filter.mpr
      ⟨(t.rows.get?_eq_some_iff y r').mp found, ?_⟩, rfl⟩
    by_cases touched : (!(r'.coefficient s == 0)) = true
    · simp only [touched, if_true] at neg
      simp [touched, neg, hi]
    · simp only [touched, Bool.false_eq_true, if_false] at neg
      exact absurd ((h.admits y r' found).nonneg hi) (not_le.mpr neg)

/-- Whichever of the errors is basic, one of them is displaced. -/
theorem shiftTarget_spec (h : t.Standard) {tag : Tag}
    (inside : ∀ s ∈ tag.symbols, s.isExternal = false) (x : ℚ) :
    (t.shiftTarget tag x).2.Pending (t.shiftTarget tag x).1 ∧
      ∃ s ∈ tag.symbols, ∃ z, t.Displaced s z (t.shiftTarget tag x).2 ∧
        ((s = tag.marker ∧ z = x) ∨ (tag.other = some s ∧ z = -x)) := by
  have marker : tag.marker ∈ tag.symbols := List.mem_cons_self
  unfold shiftTarget
  cases basic : t.rows.get? tag.marker with
  | some row =>
    exact ⟨pending_shiftRow h (inside _ marker) row _,
      tag.marker, marker, x, displaced_shiftRow h basic x, Or.inl ⟨rfl, rfl⟩⟩
  | none =>
    cases found : tag.other.bind fun other => (t.rows.get? other).map fun row => (other, row) with
    | none =>
      exact ⟨pending_shiftRows h _ x,
        tag.marker, marker, x, displaced_shiftRows basic x, Or.inl ⟨rfl, rfl⟩⟩
    | some pair =>
      obtain ⟨other, named, found⟩ := Option.bind_eq_some_iff.mp found
      obtain ⟨row, basic, rfl⟩ := Option.map_eq_some_iff.mp found
      have member : other ∈ tag.symbols := List.mem_cons_of_mem _ (by simp [named])
      have displaced := displaced_shiftRow h basic (-x)
      rw [neg_neg] at displaced
      exact ⟨pending_shiftRow h (inside other member) row x,
        other, member, -x, displaced, Or.inr ⟨named, rfl⟩⟩

section Describes

variable {book book' : Book} {base : ConstraintId → ℕ} {n : ℕ} {id : ConstraintId} {c : Constraint ℚ}

/-- To displace a symbol of a held constraint is to move the target of that constraint. -/
theorem Describes.displaced (h : t.Describes book base) (hn : book.Numbered base n)
    (held : book.get? id = some c) (hs : s ∈ (Markers.ofConstraint c (base id)).tag.symbols)
    (hd : t.Displaced s x t') (σ : Valuation) :
    t'.Solves σ ↔ ∀ y d,
      (book.insert id (c.offset (Markers.share c (base id) s * x))).get? y = some d →
        d.Meets (base y) σ := by
  have inside := (Markers.symbols_numbered c (base id) s hs).1
  rw [hd.solves, h.solves]
  constructor
  · intro all y d hy
    rcases Book.get?_offset _ hy with ⟨rfl, rfl⟩ | ⟨hne, hy⟩
    · exact (c.meets_displaced _ inside σ x).mp (all id c held)
    · exact (d.meets_update _ inside (hn.unshared held hy hne hs) σ _).mp (all y d hy)
  · intro all y d hy
    by_cases heq : id = y
    · subst heq
      rw [held] at hy
      cases hy
      exact (c.meets_displaced _ inside σ x).mpr (all id _ (by rw [Table.get?_insert, if_pos rfl]))
    · exact (d.meets_update _ inside (hn.unshared held hy heq hs) σ _).mpr
        (all y d (by rw [Table.get?_insert, if_neg heq, hy]))

/-- Once the stack is worked off the tableau describes the book with the target moved, but for a
constant in its objective. -/
theorem Describes.restore (h : t.Describes book base) (hd : t.Displaced s x t')
    (hs : s.isDummy = false) {stack : List Symbol} (pending : t'.Pending stack)
    (solves : ∀ σ, t'.Solves σ ↔ ∀ y d, book'.get? y = some d → d.Meets (base y) σ)
    (costs : book'.costs base = book.costs base)
    (feasible : ∃ σ : Valuation, σ.Admissible ∧ t'.Solves σ) (n : ℕ) :
    ((Tableau.restore n stack t').1 = .ok () ∧
      ∃ k, ((Tableau.restore n stack t').2.surcharge k).Describes book' base) ∨
    (Tableau.restore n stack t').1 = .error (.internal .stalled) := by
  have regular := hd.regular h.standard hs
  obtain ⟨k, prices⟩ := hd.prices h.prices
  rw [← hd.objective, ← costs] at prices
  obtain ⟨outcome, t'', run, result⟩ := restore_spec (t := t'.surcharge k)
    ⟨regular.parametric, regular.reduced, regular.suits⟩ ⟨pending.inside, pending.complete⟩ feasible n
  rw [restore_surcharge, Prod.mk.injEq] at run
  obtain ⟨answer, same⟩ := run
  rcases result with ⟨ok, rebased⟩ | stalled
  · refine Or.inl ⟨answer.trans ok, k, ?_⟩
    rw [same]
    exact ⟨rebased.standard, fun σ => (rebased.solves σ).trans (solves σ),
      rebased.prices ⟨prices.parametric, prices.reduced, prices.value⟩⟩
  · exact Or.inr (answer.trans stalled)

end Describes

end Tableau

end LinearChoice
