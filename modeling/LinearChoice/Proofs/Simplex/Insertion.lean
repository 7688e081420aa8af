import LinearChoice.Proofs.Simplex.Equation
import LinearChoice.Proofs.Simplex.Introduction
import LinearChoice.Simplex.Solver

/-!
# The row of a new constraint

Written over the parametric symbols, a constraint and its markers make a row
that is zero exactly where the constraint's equation holds. When the row has a
subject it joins the tableau at once; an optional constraint always has one.
-/

set_option autoImplicit false

namespace LinearChoice
open scoped Exact

namespace Tableau

variable {t : Tableau ℚ}

structure Expresses (t : Tableau ℚ) (row : Row ℚ) (value : Valuation → ℚ) : Prop where
  reduced : row.Reduced
  parametric : t.Parametric row
  eval : ∀ σ, t.Solves σ → row.eval σ = value σ
  absent : ∀ s, s.isExternal = false → t.Absent s → row.coefficient s = 0

def withTerm (t : Tableau ℚ) (row : Row ℚ) (term : Variable × ℚ) : Row ℚ :=
  match t.rows.get? (.external term.1) with
  | some basic => row.addScaled basic term.2
  | none => row.addCell (.external term.1) term.2

theorem express_eq (t : Tableau ℚ) (e : Expression ℚ) :
    t.express e = e.terms.entries.foldl t.withTerm (Row.ofConstant e.constant) := by
  unfold express
  congr 1
  funext row term
  unfold withTerm
  cases t.rows.get? (.external term.1) <;> rfl

theorem expresses_foldl (h : t.Standard) (l : List (Variable × ℚ)) {row : Row ℚ}
    {value : Valuation → ℚ} (hrow : t.Expresses row value) :
    t.Expresses (l.foldl t.withTerm row) fun σ => value σ + weigh σ.outer l := by
  induction l generalizing row value with
  | nil => simpa using hrow
  | cons e l ih =>
    rw [List.foldl_cons]
    simp only [weigh_cons, ← add_assoc]
    apply ih
    unfold withTerm
    cases hb : t.rows.get? (.external e.1) with
    | some basic =>
      constructor
      · exact hrow.reduced.addScaled _ _
      · intro s hs
        rw [Row.coefficient_addScaled, hrow.parametric s hs, h.parametric _ _ hb s hs]
        ring
      · intro σ hσ
        have value := hσ _ _ hb
        rw [Row.eval_addScaled, hrow.eval σ hσ, ← value]
        rfl
      · intro s hs ha
        rw [Row.coefficient_addScaled, hrow.absent s hs ha, ha.2 _ _ hb]
        ring
    | none =>
      constructor
      · exact hrow.reduced.addCell _ _
      · intro s hs
        have hne : s ≠ .external e.1 := fun heq => hs (heq ▸ hb)
        rw [Row.coefficient_addCell, hrow.parametric s hs, if_neg hne, add_zero]
      · intro σ hσ
        rw [Row.eval_addCell, hrow.eval σ hσ]
        rfl
      · intro s hs ha
        have hne : s ≠ .external e.1 := fun heq => by simp [heq, Symbol.isExternal] at hs
        rw [Row.coefficient_addCell, hrow.absent s hs ha, if_neg hne, add_zero]

theorem expresses (h : t.Standard) (e : Expression ℚ) :
    t.Expresses (t.express e) fun σ => e.evaluate σ.outer := by
  have base : t.Expresses (Row.ofConstant e.constant) fun _ => e.constant := by
    constructor
    · exact Row.reduced_ofConstant _
    · exact fun _ _ => rfl
    · exact fun σ _ => Row.eval_ofConstant _ σ
    · exact fun _ _ _ => rfl
  simp only [Expression.evaluate_eq, express_eq]
  exact expresses_foldl h e.terms.entries base

def FreshFrom (t : Tableau ℚ) (n : ℕ) : Prop :=
  ∀ s, s.isExternal = false → n ≤ s.id → t.Absent s

structure RowFor (t : Tableau ℚ) (c : Constraint ℚ) (n : ℕ) (row : Row ℚ) : Prop where
  reduced : row.Reduced
  parametric : t.Parametric row
  nonneg : 0 ≤ row.constant
  zero_iff : ∀ σ, t.Solves σ → (row.eval σ = 0 ↔ c.Meets n σ)
  share : ∃ k : ℚ, (k = 1 ∨ k = -1) ∧
    ∀ s, s.isExternal = false → n ≤ s.id → row.coefficient s = k * Markers.share c n s

end Tableau

variable {t : Tableau ℚ} {c : Constraint ℚ} {n : ℕ} {row : Row ℚ}

theorem Solver.rowOf_spec {s : Solver ℚ} (h : s.tableau.Standard)
    (fresh : s.tableau.FreshFrom n) :
    s.tableau.RowFor c n (s.rowOf c (Markers.ofConstraint c n)) := by
  have ex := Tableau.expresses h c.expression
  obtain ⟨k, hk, oriented⟩ := Row.eval_oriented
    ((s.tableau.express c.expression).addCells (Markers.ofConstraint c n).cells)
  have nonzero : k ≠ 0 := by
    rcases hk with rfl | rfl <;> norm_num
  have coefficient (x : Symbol) : (s.rowOf c (Markers.ofConstraint c n)).coefficient x =
      k * ((s.tableau.express c.expression).coefficient x + Markers.share c n x) := by
    rw [Row.coefficient_eq, Solver.rowOf, oriented, oriented, ← mul_sub, ← Row.coefficient_eq,
      Row.coefficient_addCells, Markers.share]
  constructor
  · exact (ex.reduced.addCells _).oriented
  · intro x hx
    have own : Markers.share c n x = 0 := by
      apply Markers.share_foreign
      by_contra apart
      simp only [not_or, not_lt, not_le, Bool.not_eq_true] at apart
      exact hx (fresh x apart.1 apart.2.1).1
    rw [coefficient, ex.parametric x hx, own]
    ring
  · exact Row.oriented_constant_nonneg _
  · intro σ hσ
    rw [Solver.rowOf, oriented, mul_eq_zero, or_iff_right nonzero, Row.eval_addCells, ex.eval σ hσ]
    rfl
  · refine ⟨k, hk, fun x hx hn => ?_⟩
    rw [coefficient, ex.absent x hx (fresh x hx hn), zero_add]

theorem Row.subject_eq_some {tag : Tag} {x : Symbol} (hr : row.Reduced)
    (h : row.subject? tag = some x) :
    (x.isExternal = true ∧ row.coefficient x ≠ 0) ∨
      (row.Internal ∧ x ∈ tag.symbols ∧ x.isPivotable = true ∧ row.coefficient x < 0) := by
  unfold Row.subject? at h
  split at h
  · next found =>
    cases h
    exact Or.inl ⟨List.find?_some found, (hr.mem_keys_iff x).mp (List.mem_of_find?_eq_some found)⟩
  · next absent =>
    right
    refine ⟨fun v => ?_, List.mem_of_find?_eq_some h, by simpa using List.find?_some h⟩
    by_contra hc
    exact List.find?_eq_none.mp absent _ ((hr.mem_keys_iff _).mpr hc) rfl

theorem Row.subject_eq_none {tag : Tag} (hr : row.Reduced) (h : row.subject? tag = none) :
    row.Internal ∧ ∀ x ∈ tag.symbols, x.isPivotable = true → 0 ≤ row.coefficient x := by
  unfold Row.subject? at h
  split at h
  · contradiction
  · next absent =>
    constructor
    · intro v
      by_contra hc
      exact List.find?_eq_none.mp absent _ ((hr.mem_keys_iff _).mpr hc) rfl
    · intro x hx hp
      simpa [hp] using List.find?_eq_none.mp h x hx

namespace Tableau

variable {costs : List (Symbol × ℚ)}

/-- Only an optional constraint brings a marker of either sign, hence always a subject. -/
theorem RowFor.isRequired_of_no_subject (hr : t.RowFor c n row)
    (h : row.subject? (Markers.ofConstraint c n).tag = none) : c.isRequired = true := by
  obtain ⟨k, hk, share⟩ := hr.share
  by_contra optional
  obtain ⟨x, hx, hp, neg⟩ := Markers.share_optional c n (by simpa using optional) hk
  have nonneg := (Row.subject_eq_none hr.reduced h).2 x hx hp
  have numbered : n ≤ x.id := (Markers.symbols_numbered c n x hx).2.1
  rw [share x (Symbol.not_external_of_pivotable hp) numbered] at nonneg
  linarith

theorem RowFor.join_subject (hr : t.RowFor c n row) (h : t.Standard) (fresh : t.FreshFrom n)
    (ho : t.Prices costs t.objective) {x : Symbol}
    (hx : row.subject? (Markers.ofConstraint c n).tag = some x) :
    Joined costs t row (t.enter x (row.solveFor x)) := by
  rcases Row.subject_eq_some hr.reduced hx with ⟨external, hc⟩ | ⟨internal, mem, hp, neg⟩
  · apply joined_enter h ho (parametric_of_coefficient hr.parametric hc) hr.parametric hr.reduced hc
    · exact Symbol.admits_external external
    · intro y r hy hm
      by_cases hx : y.isExternal = true
      · exact Symbol.admits_external hx
      · have inside := (h.admits y r hy).internal (by simpa using hx)
        cases x with
        | external v => exact absurd (inside v) hm
        | slack i => simp [Symbol.isExternal] at external
        | error i => simp [Symbol.isExternal] at external
        | dummy i => simp [Symbol.isExternal] at external
  · have hc : row.coefficient x ≠ 0 := ne_of_lt neg
    have inside := Symbol.not_external_of_pivotable hp
    have absent := fresh x inside (Markers.symbols_numbered c n x mem).2.1
    apply joined_enter h ho absent.1 hr.parametric hr.reduced hc
    · refine (Symbol.admits_pivotable hp).mpr ⟨fun v => ?_, ?_⟩
      · have hv : Symbol.external v ≠ x := fun heq => by simp [← heq, Symbol.isExternal] at inside
        rw [Row.coefficient_solveFor _ hc, internal v, if_neg hv]
        ring
      · rw [Row.constant_solveFor hc]
        exact div_nonneg_of_nonpos (neg_nonpos.mpr hr.nonneg) (le_of_lt neg)
    · exact fun y r hy hm => absurd (absent.2 y r hy) hm

/-- A row of dummies alone that is zero repeats equalities that are there already. -/
theorem RowFor.join_dummy (hr : t.RowFor c n row) (h : t.Standard) (fresh : t.FreshFrom n)
    (ho : t.Prices costs t.objective) (only : row.OnlyDummies) (hz : row.constant = 0) :
    Joined costs t row (t.enter (Markers.ofConstraint c n).tag.marker
      (row.solveFor (Markers.ofConstraint c n).tag.marker)) := by
  obtain ⟨inside, numbered, -⟩ := Markers.marker_numbered c n
  obtain ⟨k, hk, share⟩ := hr.share
  have hc : row.coefficient (Markers.ofConstraint c n).tag.marker ≠ 0 := by
    rw [share _ inside numbered]
    rcases hk with rfl | rfl <;> rcases Markers.share_marker c n with hs | hs <;>
      rw [hs] <;> norm_num
  have absent := fresh _ inside numbered
  apply joined_enter h ho absent.1 hr.parametric hr.reduced hc
  · have hd : (Markers.ofConstraint c n).tag.marker.isDummy = true := by
      by_contra hd
      exact hc (only _ (by simpa using hd))
    refine (Symbol.admits_dummy hd).mpr ⟨fun y hy => ?_, ?_⟩
    · have hne : y ≠ (Markers.ofConstraint c n).tag.marker := fun heq => by simp [heq, hd] at hy
      rw [Row.coefficient_solveFor _ hc, only y hy, if_neg hne]
      ring
    · rw [Row.constant_solveFor hc, hz, neg_zero, zero_div]
  · exact fun y r hy hm => absurd (absent.2 y r hy) hm

theorem RowFor.introducible (hr : t.RowFor c n row) (fresh : t.FreshFrom n)
    (none : row.subject? (Markers.ofConstraint c n).tag = none)
    (proper : ¬row.cells.keys.all Symbol.isDummy = true) :
    t.Introducible (.slack (n + (Markers.ofConstraint c n).count)) row := by
  obtain ⟨k, hk, share⟩ := hr.share
  constructor
  · rfl
  · exact fresh _ rfl (Nat.le_add_right _ _)
  · rw [share _ rfl (Nat.le_add_right _ _),
      Markers.share_foreign c n (Or.inr (Or.inr (le_refl _))), mul_zero]
  · exact hr.parametric
  · exact hr.reduced
  · exact (Row.subject_eq_none hr.reduced none).1
  · exact hr.nonneg
  · simp only [List.all_eq_true, not_forall, Bool.not_eq_true] at proper
    obtain ⟨x, hx, hd⟩ := proper
    exact ⟨x, hd, (hr.reduced.mem_keys_iff x).mp hx⟩

end Tableau

end LinearChoice
