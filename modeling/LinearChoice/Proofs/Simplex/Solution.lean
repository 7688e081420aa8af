import LinearChoice.Proofs.Simplex.RowValue
import LinearChoice.Proofs.Simplex.Lookup

/-!
# The solutions of a tableau

A valuation solves a tableau when every basic symbol has the value of its row.
Pivots keep the solutions. Basic symbols that no row mentions make the
parametric symbols free: any choice for these extends to one solution.
-/

set_option autoImplicit false

namespace LinearChoice
open scoped Exact

namespace Tableau

variable (t : Tableau ℚ)

def Solves (σ : Valuation) : Prop := ∀ s row, t.rows.get? s = some row → σ s = row.eval σ

def Parametric (r : Row ℚ) : Prop := ∀ s, t.rows.get? s ≠ none → r.coefficient s = 0

def point (π : Valuation) : Valuation := fun s =>
  match t.rows.get? s with
  | some row => row.eval π
  | none => π s

variable {t} {s : Symbol} {row : Row ℚ}

theorem eval_point {r : Row ℚ} (h : t.Parametric r) (π : Valuation) :
    r.eval (t.point π) = r.eval π := by
  apply Row.eval_congr
  intro s hs
  have parametric : t.rows.get? s = none := by_contra fun basic => hs (h s basic)
  simp [point, parametric]

theorem point_basic (h : t.rows.get? s = some row) (π : Valuation) :
    t.point π s = row.eval π := by
  simp [point, h]

theorem point_parametric (h : t.rows.get? s = none) (π : Valuation) : t.point π s = π s := by
  simp [point, h]

theorem solves_point (h : ∀ s row, t.rows.get? s = some row → t.Parametric row) (π : Valuation) :
    t.Solves (t.point π) := by
  intro s row hs
  rw [point_basic hs, eval_point (h s row hs)]

theorem solves_attach (h : t.rows.get? s = none) (σ : Valuation) :
    (t.attach s row).Solves σ ↔ t.Solves σ ∧ σ s = row.eval σ := by
  constructor
  · intro hσ
    constructor
    · intro x r hx
      have hne : s ≠ x := fun heq => by simp [← heq, h] at hx
      exact hσ x r (by rw [get?_attach, if_neg hne, hx])
    · exact hσ s row (by rw [get?_attach, if_pos rfl])
  · rintro ⟨hσ, hs⟩ x r hx
    rw [get?_attach] at hx
    split at hx
    · next heq =>
      cases hx
      exact heq ▸ hs
    · exact hσ x r hx

theorem solves_detach (h : t.rows.get? s = some row) (σ : Valuation) :
    t.Solves σ ↔ (t.detach s).Solves σ ∧ σ s = row.eval σ := by
  constructor
  · intro hσ
    refine ⟨?_, hσ s row h⟩
    intro x r hx
    rw [get?_detach] at hx
    split at hx
    · contradiction
    · exact hσ x r hx
  · rintro ⟨hσ, hs⟩ x r hx
    by_cases heq : s = x
    · subst heq
      rw [h] at hx
      cases hx
      exact hs
    · exact hσ x r (by rw [get?_detach, if_neg heq, hx])

theorem solves_substitute {σ : Valuation} (h : σ s = row.eval σ) :
    (t.substitute s row).Solves σ ↔ t.Solves σ := by
  have same (r : Row ℚ) : (r.substitute s row).eval σ = r.eval σ := by
    rw [Row.eval_substitute, ← h]
    ring
  constructor
  · intro hσ x r hx
    rw [← same r]
    exact hσ x _ (by rw [get?_substitute, hx]; rfl)
  · intro hσ x r hx
    rw [get?_substitute] at hx
    obtain ⟨r', hr', rfl⟩ := Option.map_eq_some_iff.mp hx
    rw [same]
    exact hσ x r' hr'

theorem solves_enter (h : t.rows.get? s = none) (σ : Valuation) :
    (t.enter s row).Solves σ ↔ t.Solves σ ∧ σ s = row.eval σ := by
  have absent : (t.substitute s row).rows.get? s = none := by rw [get?_substitute, h]; rfl
  rw [enter, solves_attach absent]
  constructor
  · rintro ⟨hσ, hs⟩
    exact ⟨(solves_substitute hs).mp hσ, hs⟩
  · rintro ⟨hσ, hs⟩
    exact ⟨(solves_substitute hs).mpr hσ, hs⟩

theorem ne_of_basic_of_parametric {leaving entering : Symbol}
    (hl : t.rows.get? leaving = some row) (he : t.rows.get? entering = none) :
    entering ≠ leaving := by
  rintro rfl
  rw [hl] at he
  contradiction

/-- The exchanged row is the same equation, solved for the other symbol. -/
theorem exchange_iff {leaving entering : Symbol} (hne : entering ≠ leaving)
    (hc : row.coefficient entering ≠ 0) (σ : Valuation) :
    σ entering = (row.exchange leaving entering).eval σ ↔ σ leaving = row.eval σ := by
  rw [Row.eval_exchange row hne hc, eq_comm, sub_eq_self, div_eq_zero_iff, or_iff_left hc,
    sub_eq_zero, eq_comm]

theorem solves_pivot {leaving entering : Symbol} (hl : t.rows.get? leaving = some row)
    (he : t.rows.get? entering = none) (hc : row.coefficient entering ≠ 0) (σ : Valuation) :
    (t.pivot leaving row entering).Solves σ ↔ t.Solves σ := by
  have hne := ne_of_basic_of_parametric hl he
  have absent : (t.detach leaving).rows.get? entering = none := by
    rw [get?_detach, he, ite_self]
  rw [pivot, solves_enter absent, exchange_iff hne hc, ← solves_detach hl]

theorem solves_drop (h : t.rows.get? s = none) (σ : Valuation) :
    (t.drop s).Solves σ ↔ t.Solves (Function.update σ s 0) := by
  have same (r : Row ℚ) : (r.erase s).eval σ = r.eval (Function.update σ s 0) := by
    have absent : (r.erase s).coefficient s = 0 := by rw [Row.coefficient_erase, if_pos rfl]
    rw [← Row.eval_update absent σ 0, Row.eval_erase]
    simp
  constructor
  · intro hσ x r hx
    have hne : x ≠ s := fun heq => by simp [heq, h] at hx
    rw [Function.update_of_ne hne, ← same]
    exact hσ x _ (by rw [get?_drop, hx]; rfl)
  · intro hσ x r hx
    rw [get?_drop] at hx
    obtain ⟨r', hr', rfl⟩ := Option.map_eq_some_iff.mp hx
    have hne : x ≠ s := fun heq => by simp [heq, h] at hr'
    rw [same, ← hσ x r' hr', Function.update_of_ne hne]

/-- A basic symbol outside all rows takes whatever value its row asks for. -/
theorem solves_detach_iff (parametric : ∀ x r, t.rows.get? x = some r → t.Parametric r)
    (h : t.rows.get? s = some row) (σ : Valuation) :
    (t.detach s).Solves σ ↔ t.Solves (Function.update σ s (row.eval σ)) := by
  have basic : t.rows.get? s ≠ none := by simp [h]
  have free (x : Symbol) (r : Row ℚ) (hx : t.rows.get? x = some r) (y : ℚ) :
      r.eval (Function.update σ s y) = r.eval σ :=
    Row.eval_update (parametric x r hx s basic) σ y
  rw [solves_detach h, Function.update_self, free s row h, and_iff_left rfl]
  constructor
  all_goals
    intro hσ x r hx
    have hx' := hx
    rw [get?_detach] at hx'
    split at hx'
    · contradiction
    · next hne =>
      have hv := hσ x r hx
      rw [Function.update_of_ne (Ne.symm hne), free x r hx'] at *
      exact hv

end Tableau

end LinearChoice
