import LinearChoice.Proofs.Simplex.RatioTest

/-!
# Minimising keeps a tableau in standard form

A pivot through the row with the least ratio leads to another basis of the
same tableau, again in standard form. A priced goal cannot fall without end,
so a minimisation ends at an optimum unless its budget runs out.
-/

set_option autoImplicit false

namespace LinearChoice.Tableau
open scoped Exact

structure Rebased (main : List (Symbol × ℚ)) (t t' : Tableau ℚ) : Prop where
  standard : t'.Standard
  solves : ∀ σ, t'.Solves σ ↔ t.Solves σ
  prices : t.Prices main t.objective → t'.Prices main t'.objective

def Optimal (goal : Row ℚ) : Prop := ∀ s, s.isDummy = false → 0 ≤ goal.coefficient s

variable {t t' : Tableau ℚ} {row goal : Row ℚ} {costs main : List (Symbol × ℚ)}

theorem Rebased.refl (h : t.Standard) : Rebased main t t := ⟨h, fun _ => Iff.rfl, id⟩

theorem Rebased.trans {t'' : Tableau ℚ} (h : Rebased main t t') (h' : Rebased main t' t'') :
    Rebased main t t'' :=
  ⟨h'.standard, fun σ => (h'.solves σ).trans (h.solves σ), h'.prices ∘ h.prices⟩

theorem parametric_of_coefficient {r : Row ℚ} (hr : t.Parametric r) {s : Symbol}
    (hs : r.coefficient s ≠ 0) : t.rows.get? s = none :=
  by_contra fun basic => hs (hr s basic)

theorem internal_exchange {leaving entering : Symbol} (hne : entering ≠ leaving)
    (hc : row.coefficient entering ≠ 0) (hrow : row.Internal) (hi : leaving.isExternal = false) :
    (row.exchange leaving entering).Internal := by
  intro v
  have hv : Symbol.external v ≠ entering := fun heq => hc (heq ▸ hrow v)
  have hv' : Symbol.external v ≠ leaving := fun heq => by
    simp [← heq, Symbol.isExternal] at hi
  rw [Row.coefficient_exchange _ hne hc, hrow v, if_neg hv, if_neg hv']
  ring

/-- Through a restricted row that falls, a symbol enters at a value that is not negative. -/
theorem exchange_falling (h : t.Standard) {leaving entering : Symbol}
    (hl : t.rows.get? leaving = some row) (falls : Falls entering (leaving, row)) :
    (row.exchange leaving entering).Internal ∧ 0 ≤ (row.exchange leaving entering).constant := by
  have hc : row.coefficient entering ≠ 0 := ne_of_lt falls.2
  have he := parametric_of_coefficient (h.parametric _ _ hl) hc
  have hne := ne_of_basic_of_parametric hl he
  have fit := h.admits leaving row hl
  refine ⟨internal_exchange hne hc (fit.internal falls.1) falls.1, ?_⟩
  rw [Row.constant_exchange hne hc]
  exact div_nonneg_of_nonpos (neg_nonpos.mpr (fit.nonneg falls.1)) (le_of_lt falls.2)

/-- The row with the least ratio is down to zero first, so no other row falls below zero. -/
theorem substitute_least (h : t.Standard) {leaving entering x : Symbol} {r : Row ℚ}
    (hl : t.rows.get? leaving = some row) (falls : Falls entering (leaving, row))
    (least : ∀ x r, t.rows.get? x = some r → Falls entering (x, r) →
      fallRatio entering (leaving, row) ≤ fallRatio entering (x, r))
    (hx : t.rows.get? x = some r) (hi : x.isExternal = false) :
    0 ≤ (r.substitute entering (row.exchange leaving entering)).constant := by
  have hc : row.coefficient entering ≠ 0 := ne_of_lt falls.2
  have he := parametric_of_coefficient (h.parametric _ _ hl) hc
  have hne := ne_of_basic_of_parametric hl he
  have new := (exchange_falling h hl falls).2
  have old := (h.admits x r hx).nonneg hi
  rw [Row.constant_substitute]
  rcases lt_or_ge (r.coefficient entering) 0 with hr | hr
  · have bound := mul_le_mul_of_nonpos_left (least x r hx ⟨hi, hr⟩) (le_of_lt hr)
    have whole : r.coefficient entering * fallRatio entering (x, r) = -r.constant := by
      simp only [fallRatio]
      exact mul_div_cancel₀ _ (ne_of_lt hr)
    have part : (row.exchange leaving entering).constant = fallRatio entering (leaving, row) :=
      Row.constant_exchange hne hc
    rw [part]
    linarith
  · exact add_nonneg old (mul_nonneg hr new)

theorem internal_substitute {r : Row ℚ} (hr : r.Internal) (hrow : row.Internal) {s : Symbol}
    (hs : s.isExternal = false) : (r.substitute s row).Internal := by
  intro v
  have hv : Symbol.external v ≠ s := by
    rintro rfl
    simp [Symbol.isExternal] at hs
  rw [Row.coefficient_substitute, hr v, hrow v, if_neg hv]
  ring

/-- A row of a basic dummy is over dummies, so it does not mention a symbol that may enter. -/
theorem Standard.not_dummy_of_mentions (h : t.Standard) {s x : Symbol} {r : Row ℚ}
    (hx : t.rows.get? x = some r) (hs : s.isDummy = false) (hc : r.coefficient s ≠ 0) :
    x.isDummy = false := by
  by_contra hd
  have fit := (Symbol.admits_dummy (by simpa using hd)).mp (h.admits x r hx)
  exact hc (fit.1 s hs)

theorem Symbol.Admits.of_nonneg {x : Symbol} {r : Row ℚ} (hd : x.isDummy = false)
    (fit : x.isExternal = false → r.Internal ∧ 0 ≤ r.constant) : x.Admits r := by
  by_cases hx : x.isExternal = true
  · cases x <;> simp_all [Symbol.isExternal, Symbol.Admits]
  · have hi : x.isExternal = false := by simpa using hx
    exact (Symbol.admits_pivotable (Symbol.isPivotable_of_internal hi hd)).mpr (fit hi)

theorem rebased_pivot (h : t.Standard) {entering : Symbol} {c : Candidate ℚ}
    (hc : t.leaving? entering = some c) (hd : entering.isDummy = false)
    (hi : entering.isExternal = false) : Rebased main t (t.pivot c.symbol c.row entering) := by
  obtain ⟨hl, falls, least⟩ := leaving_eq_some hc
  have hne : c.row.coefficient entering ≠ 0 := ne_of_lt falls.2
  have he := parametric_of_coefficient (h.parametric _ _ hl) hne
  have new := exchange_falling h hl falls
  refine ⟨?_, solves_pivot hl he hne, fun hp => hp.pivot h hl he hne⟩
  apply h.pivot hl he hne (Symbol.Admits.of_nonneg hd fun _ => new)
  intro x r hxl hx hm
  apply Symbol.Admits.of_nonneg (h.not_dummy_of_mentions hx hd hm)
  intro hxi
  exact ⟨internal_substitute ((h.admits x r hx).internal hxi) new.1 hi,
    substitute_least h hl falls least hx hxi⟩

/-- Along a symbol that no restricted row bounds a goal could be lowered for ever. -/
theorem bounded (h : t.Standard) (hp : Priced costs) (hg : t.Prices costs goal) {s : Symbol}
    (hd : s.isDummy = false) (hs : goal.coefficient s < 0) : t.leaving? s ≠ none := by
  intro none
  let x : ℚ := (goal.constant + 1) / -goal.coefficient s
  have hx : 0 ≤ x := by
    have := hg.constant_nonneg h hp
    exact div_nonneg (by linarith) (by linarith)
  let π : Valuation := Pi.single s x
  have admissible : (t.point π).Admissible := by
    apply h.admissible_point (Valuation.admissible_zero.update hd hx)
    intro y row hy hpy
    have inside := Symbol.not_external_of_pivotable hpy
    have nonneg := (h.admits y row hy).nonneg inside
    have rising := mul_nonneg (leaving_eq_none none hy inside) hx
    exact (row.eval_single s x).symm ▸ add_nonneg nonneg rising
  have value := hg.value _ (h.solves_point π)
  rw [eval_point hg.parametric, Row.eval_single] at value
  have lower := hp.nonneg admissible
  have gain : goal.coefficient s * x = -(goal.constant + 1) := by
    have : goal.coefficient s ≠ 0 := ne_of_lt hs
    simp only [x]
    field_simp
  linarith

theorem not_external_of_internal (hg : goal.Internal) {s : Symbol} (hs : goal.coefficient s ≠ 0) :
    s.isExternal = false := by
  cases s with
  | external v => exact absurd (hg v) hs
  | slack i => rfl
  | error i => rfl
  | dummy i => rfl

/-- No admissible solution takes the goal below what an optimal basis shows. -/
theorem constant_le_eval (hg : goal.Internal) (optimal : Optimal goal) {σ : Valuation}
    (hσ : σ.Admissible) : goal.constant ≤ goal.eval σ := by
  have gain : 0 ≤ weigh σ goal.cells.entries := by
    apply weigh_nonneg
    intro e he
    rw [← Row.coefficient_of_mem he]
    by_cases hd : e.1.isDummy = true
    · rw [hσ.zero e.1 hd, mul_zero]
    · by_cases hc : goal.coefficient e.1 = 0
      · rw [hc, zero_mul]
      · have hd : e.1.isDummy = false := by simpa using hd
        have inside := not_external_of_internal hg hc
        exact mul_nonneg (optimal e.1 hd) (hσ.nonneg e.1 (Symbol.isPivotable_of_internal inside hd))
  exact le_add_of_nonneg_right gain

/-- One step: an optimum, or another basis. -/
theorem advance_cases (main : List (Symbol × ℚ)) (h : t.Standard) (hp : Priced costs)
    (hg : t.Prices costs goal) :
    (t.advance goal = .optimal ∧ Optimal goal) ∨
    ∃ t' goal', t.advance goal = .moved t' goal' ∧ Rebased main t t' ∧ t'.Prices costs goal' := by
  cases he : entering? goal with
  | none => exact Or.inl ⟨by rw [advance, he], entering_eq_none he⟩
  | some s =>
    obtain ⟨hd, hs⟩ := entering_eq_some he
    have hi := not_external_of_internal (hg.internal h hp) (ne_of_lt hs)
    cases hl : t.leaving? s with
    | none => exact absurd hl (bounded h hp hg hd hs)
    | some c =>
      right
      obtain ⟨hrow, falls, -⟩ := leaving_eq_some hl
      have hc : c.row.coefficient s ≠ 0 := ne_of_lt falls.2
      have parametric := parametric_of_coefficient (h.parametric _ _ hrow) hc
      exact ⟨_, _, by rw [advance, he]; simp only [hl], rebased_pivot h hl hd hi,
        hg.pivot h hrow parametric hc⟩

theorem minimise_spec (main : List (Symbol × ℚ)) (n : ℕ) (h : t.Standard) (hp : Priced costs)
    (hg : t.Prices costs goal) :
    ∃ outcome t' goal', minimise n t goal = (outcome, t', goal') ∧ Rebased main t t' ∧
      t'.Prices costs goal' ∧
      ((outcome = .ok () ∧ Optimal goal') ∨ outcome = .error (.internal .stalled)) := by
  induction n generalizing t goal with
  | zero => exact ⟨_, t, goal, rfl, Rebased.refl h, hg, Or.inr rfl⟩
  | succ n ih =>
    rcases advance_cases main h hp hg with ⟨step, optimal⟩ | ⟨t₁, goal₁, step, moved, hg₁⟩
    · exact ⟨.ok (), t, goal, by simp only [minimise, step], Rebased.refl h, hg,
        Or.inl ⟨rfl, optimal⟩⟩
    · obtain ⟨outcome, t', goal', run, rebased, hg', result⟩ := ih moved.standard hg₁
      exact ⟨outcome, t', goal', by simp only [minimise, step, run], moved.trans rebased, hg',
        result⟩

theorem optimise_spec (h : t.Standard) (hp : Priced costs) (ho : t.Prices costs t.objective) :
    ∃ outcome t', t.optimise = (outcome, t') ∧ Rebased costs t t' ∧
      (outcome = .ok () ∨ outcome = .error (.internal .stalled)) := by
  obtain ⟨outcome, t', goal', run, rebased, -, result⟩ := minimise_spec costs t.budget h hp ho
  refine ⟨outcome, t', by rw [optimise, run], rebased, ?_⟩
  rcases result with ⟨ok, -⟩ | stalled
  · exact Or.inl ok
  · exact Or.inr stalled

end LinearChoice.Tableau
