import LinearChoice.Proofs.Simplex.Standard
import LinearChoice.Proofs.Simplex.Markers

/-!
# Constraints as equations

With its markers a constraint is an equation over external and marker symbols.
Admissible solutions of the equation of a required constraint satisfy it, and
whatever satisfies the constraint extends to an admissible solution. Numbers
keep the markers of different constraints apart.
-/

set_option autoImplicit false

namespace LinearChoice
open scoped Exact

theorem Expression.evaluate_eq (e : Expression ℚ) (v : Variable → ℚ) :
    e.evaluate v = e.constant + weigh v e.terms.entries := by
  have shifted (l : List (Variable × ℚ)) (x : ℚ) :
      l.foldl (fun total t => total + t.2 * v t.1) x = x + weigh v l := by
    induction l generalizing x with
    | nil => simp
    | cons t l ih =>
      rw [List.foldl_cons, ih, weigh_cons]
      ring
  exact shifted _ _

def Valuation.outer (σ : Valuation) : Variable → ℚ := fun v => σ (.external v)

def Valuation.ofOuter (v : Variable → ℚ) : Valuation
  | .external x => v x
  | _ => 0

theorem Valuation.admissible_ofOuter (v : Variable → ℚ) : (Valuation.ofOuter v).Admissible := by
  constructor
  · intro s hs
    cases s <;> simp_all [Symbol.isPivotable, Valuation.ofOuter]
  · intro s hs
    cases s <;> simp_all [Symbol.isDummy, Valuation.ofOuter]

theorem Valuation.outer_update {σ : Valuation} {s : Symbol} (hs : s.isExternal = false) (x : ℚ) :
    Valuation.outer (Function.update σ s x) = σ.outer := by
  funext v
  have hne : Symbol.external v ≠ s := by
    rintro rfl
    simp [Symbol.isExternal] at hs
  exact Function.update_of_ne hne x σ

theorem Valuation.Admissible.congr_update {σ : Valuation} (hσ : σ.Admissible) {s : Symbol}
    (hs : s.isPivotable = true) {x : ℚ} (hx : 0 ≤ x) :
    Valuation.Admissible (Function.update σ s x) :=
  hσ.update (Symbol.not_dummy_of_pivotable hs) hx

namespace Markers

/-- The markers by relation and by whether the constraint is required. -/
theorem ofConstraint_eq (c : Constraint ℚ) (n : ℕ) :
    ofConstraint c n =
      match c.relation, c.isRequired with
      | .atMost, true => ⟨⟨.slack n, none⟩, [(.slack n, 1)], [], 1⟩
      | .atMost, false => ⟨⟨.slack n, some (.error (n + 1))⟩,
          [(.slack n, 1), (.error (n + 1), -1)], [(.error (n + 1), c.strength.weight)], 2⟩
      | .equal, true => ⟨⟨.dummy n, none⟩, [(.dummy n, 1)], [], 1⟩
      | .equal, false => ⟨⟨.error n, some (.error (n + 1))⟩,
          [(.error n, -1), (.error (n + 1), 1)],
          [(.error n, c.strength.weight), (.error (n + 1), c.strength.weight)], 2⟩
      | .atLeast, true => ⟨⟨.slack n, none⟩, [(.slack n, -1)], [], 1⟩
      | .atLeast, false => ⟨⟨.slack n, some (.error (n + 1))⟩,
          [(.slack n, -1), (.error (n + 1), 1)], [(.error (n + 1), c.strength.weight)], 2⟩ := by
  unfold ofConstraint inequality equality Constraint.isRequired
  cases c.relation <;> cases c.strength.isRequired <;> simp

variable (c : Constraint ℚ) (n : ℕ)

def share (s : Symbol) : ℚ := weigh (Pi.single s 1) (ofConstraint c n).cells

theorem share_marker : share c n (ofConstraint c n).tag.marker = 1 ∨
    share c n (ofConstraint c n).tag.marker = -1 := by
  unfold share
  rw [ofConstraint_eq]
  cases c.relation <;> cases c.isRequired <;> simp

theorem share_untagged {s : Symbol} (hs : s ∉ (ofConstraint c n).tag.symbols) :
    share c n s = 0 := by
  have apart : ∀ e ∈ (ofConstraint c n).cells, (Pi.single s 1 : Valuation) e.1 = 0 := by
    intro e he
    apply Pi.single_eq_of_ne
    rintro rfl
    exact hs (cells_tagged c n e he)
  rw [share, weigh_congr (τ := 0) _ fun e he _ => apart e he]
  simp [weigh]

theorem share_foreign {s : Symbol}
    (hs : s.isExternal = true ∨ s.id < n ∨ n + (ofConstraint c n).count ≤ s.id) :
    share c n s = 0 := by
  apply share_untagged
  rcases hs with outer | apart
  · intro tagged
    rw [(symbols_numbered c n s tagged).1] at outer
    contradiction
  · exact not_tagged c n apart

/-- An optional constraint has a marker of either sign. -/
theorem share_optional (h : c.isRequired = false) {k : ℚ} (hk : k = 1 ∨ k = -1) :
    ∃ s ∈ (ofConstraint c n).tag.symbols, s.isPivotable = true ∧ k * share c n s < 0 := by
  unfold share
  rw [ofConstraint_eq, h]
  cases c.relation
  all_goals
    rcases hk with rfl | rfl
    all_goals simp [Tag.symbols, Symbol.isPivotable]

theorem weigh_update_marker (σ : Valuation) (s : Symbol) (x : ℚ) :
    weigh (Function.update σ s x) (ofConstraint c n).cells =
      weigh σ (ofConstraint c n).cells + share c n s * (x - σ s) := by
  unfold share
  exact weigh_step σ s x _

end Markers

namespace Constraint

variable (c : Constraint ℚ) (n : ℕ)

def Meets (σ : Valuation) : Prop :=
  c.expression.evaluate σ.outer + weigh σ (Markers.ofConstraint c n).cells = 0

theorem meets_update {s : Symbol} (hs : s.isExternal = false)
    (untagged : s ∉ (Markers.ofConstraint c n).tag.symbols) (σ : Valuation) (x : ℚ) :
    c.Meets n (Function.update σ s x) ↔ c.Meets n σ := by
  rw [Meets, Meets, Valuation.outer_update hs, Markers.weigh_update_marker,
    Markers.share_untagged c n untagged, zero_mul, add_zero]

/-- The marker takes exactly one value that solves the equation. -/
theorem meets_update_marker (σ : Valuation) :
    ∃! x, c.Meets n (Function.update σ (Markers.ofConstraint c n).tag.marker x) := by
  have value (x : ℚ) :
      c.Meets n (Function.update σ (Markers.ofConstraint c n).tag.marker x) ↔
        c.expression.evaluate σ.outer + weigh σ (Markers.ofConstraint c n).cells +
          Markers.share c n (Markers.ofConstraint c n).tag.marker *
            (x - σ (Markers.ofConstraint c n).tag.marker) = 0 := by
    rw [Meets, Valuation.outer_update (Markers.marker_numbered c n).1, Markers.weigh_update_marker,
      add_assoc]
  simp only [value]
  rcases Markers.share_marker c n with h | h <;> rw [h]
  · refine ⟨σ (Markers.ofConstraint c n).tag.marker -
      (c.expression.evaluate σ.outer + weigh σ (Markers.ofConstraint c n).cells), by ring, ?_⟩
    intro y hy
    linarith
  · refine ⟨σ (Markers.ofConstraint c n).tag.marker +
      (c.expression.evaluate σ.outer + weigh σ (Markers.ofConstraint c n).cells), by ring, ?_⟩
    intro y hy
    linarith

theorem holds_of_meets (hr : c.isRequired = true) {σ : Valuation} (hσ : σ.Admissible)
    (hm : c.Meets n σ) : c.holds σ.outer 0 = true := by
  rw [Meets, Markers.ofConstraint_eq, hr] at hm
  rw [holds_exact]
  cases hrel : c.relation
  all_goals simp only [hrel, weigh_cons, weigh_nil, Relation.Allows] at hm ⊢
  · have := hσ.nonneg (.slack n) rfl
    linarith
  · have := hσ.zero (.dummy n) rfl
    linarith
  · have := hσ.nonneg (.slack n) rfl
    linarith

def fill (v : Variable → ℚ) (σ : Valuation) : Valuation :=
  let x := c.expression.evaluate v
  match c.relation, c.isRequired with
  | .atMost, true => Function.update σ (.slack n) (max (-x) 0)
  | .atMost, false =>
    Function.update (Function.update σ (.slack n) (max (-x) 0)) (.error (n + 1)) (max x 0)
  | .equal, true => σ
  | .equal, false =>
    Function.update (Function.update σ (.error n) (max x 0)) (.error (n + 1)) (max (-x) 0)
  | .atLeast, true => Function.update σ (.slack n) (max x 0)
  | .atLeast, false =>
    Function.update (Function.update σ (.slack n) (max x 0)) (.error (n + 1)) (max (-x) 0)

variable {c n} {v : Variable → ℚ} {σ : Valuation}

theorem fill_admissible (hσ : σ.Admissible) : (c.fill n v σ).Admissible := by
  have nonneg (x : ℚ) : 0 ≤ max x 0 := le_max_right x 0
  unfold fill
  cases c.relation <;> cases c.isRequired
  · exact (hσ.congr_update rfl (nonneg _)).congr_update rfl (nonneg _)
  · exact hσ.congr_update rfl (nonneg _)
  · exact (hσ.congr_update rfl (nonneg _)).congr_update rfl (nonneg _)
  · exact hσ
  · exact (hσ.congr_update rfl (nonneg _)).congr_update rfl (nonneg _)
  · exact hσ.congr_update rfl (nonneg _)

theorem fill_outer : (c.fill n v σ).outer = σ.outer := by
  funext x
  unfold fill
  cases c.relation <;> cases c.isRequired <;> simp [Valuation.outer]

theorem fill_apart {s : Symbol}
    (apart : s.id < n ∨ n + (Markers.ofConstraint c n).count ≤ s.id) :
    c.fill n v σ s = σ s := by
  have slack (i : ℕ) (h : s.id ≠ i) : s ≠ .slack i := by
    rintro rfl
    exact h rfl
  have error (i : ℕ) (h : s.id ≠ i) : s ≠ .error i := by
    rintro rfl
    exact h rfl
  rw [Markers.ofConstraint_eq] at apart
  unfold fill
  cases hr : c.relation <;> cases hq : c.isRequired
  all_goals
    simp only [hr, hq] at apart
    dsimp only
  · rw [Function.update_of_ne (error (n + 1) (by omega)),
      Function.update_of_ne (slack n (by omega))]
  · rw [Function.update_of_ne (slack n (by omega))]
  · rw [Function.update_of_ne (error (n + 1) (by omega)),
      Function.update_of_ne (error n (by omega))]
  · rw [Function.update_of_ne (error (n + 1) (by omega)),
      Function.update_of_ne (slack n (by omega))]
  · rw [Function.update_of_ne (slack n (by omega))]

theorem fill_meets (hσ : σ.Admissible) (hv : c.isRequired = true → c.holds σ.outer 0 = true) :
    c.Meets n (c.fill n σ.outer σ) := by
  have parts := max_zero_sub_max_neg_zero_eq_self (c.expression.evaluate σ.outer)
  have apart (x : ℚ) (τ : Valuation) :
      Function.update τ (.error (n + 1)) x (.slack n) = τ (.slack n) :=
    Function.update_of_ne (by nofun) x τ
  rw [Meets, fill_outer, Markers.ofConstraint_eq]
  rw [holds_exact] at hv
  unfold fill
  cases hr : c.relation <;> cases hq : c.isRequired
  all_goals
    simp only [hr, hq, true_implies, Relation.Allows] at hv
    simp only [weigh_cons, weigh_nil, Function.update_self, apart]
  · linarith
  · rw [max_eq_left (neg_nonneg.mpr hv)]
    ring
  · rw [Function.update_of_ne (by simp), Function.update_self]
    linarith
  · rw [hv, hσ.zero _ rfl]
    ring
  · linarith
  · rw [max_eq_left hv]
    ring

end Constraint

end LinearChoice
