import LinearChoice.Proofs.Simplex.Solution

/-!
# Tableaux in standard form

The rows of a tableau in standard form are over its parametric symbols and
show a solution at once: the parametric symbols stand at zero, restricted
symbols are not negative and dummies vanish. A goal is priced by restricted
symbols, which keeps external symbols out of it.
-/

set_option autoImplicit false

namespace LinearChoice
open scoped Exact

def Row.Internal (r : Row ℚ) : Prop := ∀ v, r.coefficient (.external v) = 0

def Row.OnlyDummies (r : Row ℚ) : Prop := ∀ s, s.isDummy = false → r.coefficient s = 0

def Symbol.Admits : Symbol → Row ℚ → Prop
  | .external _, _ => True
  | .slack _, r | .error _, r => r.Internal ∧ 0 ≤ r.constant
  | .dummy _, r => r.OnlyDummies ∧ r.constant = 0

structure Valuation.Admissible (σ : Valuation) : Prop where
  nonneg : ∀ s, s.isPivotable = true → 0 ≤ σ s
  zero : ∀ s, s.isDummy = true → σ s = 0

theorem Valuation.admissible_zero : (0 : Valuation).Admissible :=
  ⟨fun _ _ => le_refl 0, fun _ _ => rfl⟩

theorem Valuation.Admissible.update {σ : Valuation} (hσ : σ.Admissible) {s : Symbol}
    (hs : s.isDummy = false) {x : ℚ} (hx : 0 ≤ x) :
    Valuation.Admissible (Function.update σ s x) := by
  constructor
  · intro y hy
    by_cases heq : y = s
    · rw [heq, Function.update_self]
      exact hx
    · rw [Function.update_of_ne heq]
      exact hσ.nonneg y hy
  · intro y hy
    have hne : y ≠ s := fun heq => by simp [heq, hs] at hy
    rw [Function.update_of_ne hne]
    exact hσ.zero y hy

theorem Row.OnlyDummies.eval_eq {r : Row ℚ} (h : r.OnlyDummies) {σ : Valuation}
    (hσ : ∀ s, s.isDummy = true → σ s = 0) : r.eval σ = r.constant := by
  rw [← Row.eval_zero]
  apply Row.eval_congr
  intro x hx
  exact hσ x (by_contra fun hd => hx (h x (by simpa using hd)))

theorem Row.OnlyDummies.internal {r : Row ℚ} (h : r.OnlyDummies) : r.Internal := fun _ => h _ rfl

namespace Symbol

variable {s : Symbol} {r : Row ℚ}

theorem admits_pivotable (hs : s.isPivotable = true) :
    s.Admits r ↔ r.Internal ∧ 0 ≤ r.constant := by
  cases s <;> simp_all [isPivotable, Admits]

theorem admits_external (hs : s.isExternal = true) : s.Admits r := by
  cases s <;> simp_all [isExternal, Admits]

theorem admits_dummy (hs : s.isDummy = true) : s.Admits r ↔ r.OnlyDummies ∧ r.constant = 0 := by
  cases s <;> simp_all [isDummy, Admits]

theorem Admits.internal (h : s.Admits r) (hs : s.isExternal = false) : r.Internal := by
  cases s with
  | external v => simp [isExternal] at hs
  | slack i => exact h.1
  | error i => exact h.1
  | dummy i => exact h.1.internal

theorem Admits.nonneg (h : s.Admits r) (hs : s.isExternal = false) : 0 ≤ r.constant := by
  cases s with
  | external v => simp [isExternal] at hs
  | slack i => exact h.2
  | error i => exact h.2
  | dummy i => exact h.2.ge

theorem isPivotable_of_internal (he : s.isExternal = false) (hd : s.isDummy = false) :
    s.isPivotable = true := by
  cases s <;> simp_all [isExternal, isDummy, isPivotable]

theorem not_external_of_pivotable (hs : s.isPivotable = true) : s.isExternal = false := by
  cases s <;> simp_all [isExternal, isPivotable]

theorem not_dummy_of_pivotable (hs : s.isPivotable = true) : s.isDummy = false := by
  cases s <;> simp_all [isDummy, isPivotable]

end Symbol

namespace Tableau

structure Standard (t : Tableau ℚ) : Prop where
  parametric : ∀ s row, t.rows.get? s = some row → t.Parametric row
  reduced : ∀ s row, t.rows.get? s = some row → row.Reduced
  admits : ∀ s row, t.rows.get? s = some row → s.Admits row

def Absent (t : Tableau ℚ) (s : Symbol) : Prop :=
  t.rows.get? s = none ∧ ∀ x row, t.rows.get? x = some row → row.coefficient s = 0

structure Prices (t : Tableau ℚ) (costs : List (Symbol × ℚ)) (goal : Row ℚ) : Prop where
  parametric : t.Parametric goal
  reduced : goal.Reduced
  value : ∀ σ, t.Solves σ → goal.eval σ = weigh σ costs

def Priced (costs : List (Symbol × ℚ)) : Prop := ∀ e ∈ costs, e.1.isPivotable = true ∧ 0 ≤ e.2

variable {t : Tableau ℚ} {s : Symbol} {row goal : Row ℚ} {costs : List (Symbol × ℚ)}

theorem Priced.nonneg (h : Priced costs) {σ : Valuation} (hσ : σ.Admissible) :
    0 ≤ weigh σ costs :=
  weigh_nonneg σ costs fun e he => mul_nonneg (h e he).2 (hσ.nonneg e.1 (h e he).1)

theorem weigh_update (h : ∀ e ∈ costs, e.1 ≠ s) (σ : Valuation) (x : ℚ) :
    weigh (Function.update σ s x) costs = weigh σ costs :=
  weigh_congr costs fun e he _ => Function.update_of_ne (h e he) x σ

section Parametric

theorem Parametric.substitute {r : Row ℚ} (h : t.Parametric r) (x : Symbol) (other : Row ℚ) :
    (t.substitute x other).Parametric r :=
  fun y hy => h y fun absent => hy (by rw [get?_substitute, absent]; rfl)

theorem parametric_substitute (hs : t.rows.get? s = none) (hrow : t.Parametric row) {r : Row ℚ}
    (hr : t.Parametric r) : (t.substitute s row).Parametric (r.substitute s row) := by
  intro x hx
  have basic : t.rows.get? x ≠ none := fun absent =>
    hx (by rw [get?_substitute, absent]; rfl)
  have hne : x ≠ s := fun heq => basic (heq ▸ hs)
  rw [Row.coefficient_substitute, hr x basic, hrow x basic, if_neg hne]
  ring

theorem Parametric.attach (h : t.Parametric row) (hs : row.coefficient s = 0) (other : Row ℚ) :
    (t.attach s other).Parametric row := by
  intro x hx
  rw [get?_attach] at hx
  split at hx
  · next heq => exact heq ▸ hs
  · exact h x hx

theorem parametric_enter (hs : t.rows.get? s = none) (hrow : t.Parametric row)
    (hself : row.coefficient s = 0) {r : Row ℚ} (hr : t.Parametric r) :
    (t.enter s row).Parametric (r.substitute s row) := by
  apply (parametric_substitute hs hrow hr).attach
  rw [Row.coefficient_substitute, hself, if_pos rfl]
  ring

theorem Parametric.detach (h : t.Parametric row) (x : Symbol) :
    (t.detach x).Parametric row := by
  intro y hy
  rw [get?_detach] at hy
  split at hy
  · contradiction
  · exact h y hy

/-- Once a symbol is out of the basis its former row may be solved for another one. -/
theorem parametric_exchange {leaving entering : Symbol} (hl : t.rows.get? leaving = some row)
    (he : t.rows.get? entering = none) (hc : row.coefficient entering ≠ 0)
    (hrow : t.Parametric row) :
    (t.detach leaving).Parametric (row.exchange leaving entering) := by
  have hne := ne_of_basic_of_parametric hl he
  intro x hx
  rw [get?_detach] at hx
  split at hx
  · contradiction
  · next hxl =>
    have hxe : x ≠ entering := fun heq => hx (heq ▸ he)
    rw [Row.coefficient_exchange x hne hc, if_neg hxe, if_neg (Ne.symm hxl), hrow x hx]
    ring

theorem coefficient_exchange_self {leaving entering : Symbol} (hne : entering ≠ leaving)
    (hc : row.coefficient entering ≠ 0) :
    (row.exchange leaving entering).coefficient entering = 0 := by
  rw [Row.coefficient_exchange entering hne hc, if_pos rfl, if_neg hne, sub_zero, div_self hc,
    sub_self]

theorem rows_parametric_pivot {leaving entering : Symbol} (hl : t.rows.get? leaving = some row)
    (he : t.rows.get? entering = none) (hc : row.coefficient entering ≠ 0)
    (parametric : ∀ x r, t.rows.get? x = some r → t.Parametric r) {x : Symbol} {r : Row ℚ}
    (hx : (t.pivot leaving row entering).rows.get? x = some r) :
    (t.pivot leaving row entering).Parametric r := by
  have exchanged := parametric_exchange hl he hc (parametric _ _ hl)
  have self := coefficient_exchange_self (ne_of_basic_of_parametric hl he) hc
  have absent : (t.detach leaving).rows.get? entering = none := by
    rw [get?_detach, he, ite_self]
  rw [pivot, get?_enter] at hx
  split at hx
  · cases hx
    exact (exchanged.substitute _ _).attach self _
  · obtain ⟨r', hr', rfl⟩ := Option.map_eq_some_iff.mp hx
    rw [get?_detach] at hr'
    split at hr'
    · contradiction
    · exact parametric_enter absent exchanged self ((parametric x r' hr').detach leaving)

theorem parametric_pivot {leaving entering : Symbol} (hl : t.rows.get? leaving = some row)
    (he : t.rows.get? entering = none) (hc : row.coefficient entering ≠ 0)
    (hrow : t.Parametric row) {r : Row ℚ} (hr : t.Parametric r) :
    (t.pivot leaving row entering).Parametric
      (r.substitute entering (row.exchange leaving entering)) := by
  have absent : (t.detach leaving).rows.get? entering = none := by
    rw [get?_detach, he, ite_self]
  exact parametric_enter absent (parametric_exchange hl he hc hrow)
    (coefficient_exchange_self (ne_of_basic_of_parametric hl he) hc) (hr.detach leaving)

end Parametric

theorem Standard.detach (h : t.Standard) (s : Symbol) : (t.detach s).Standard := by
  have kept (x : Symbol) (r : Row ℚ) (hx : (t.detach s).rows.get? x = some r) :
      t.rows.get? x = some r := by
    rw [get?_detach] at hx
    split at hx
    · contradiction
    · exact hx
  exact ⟨fun x r hx => (h.parametric x r (kept x r hx)).detach s,
    fun x r hx => h.reduced x r (kept x r hx), fun x r hx => h.admits x r (kept x r hx)⟩

theorem Standard.attach (h : t.Standard) (hs : ∀ x r, t.rows.get? x = some r → r.coefficient s = 0)
    (hrow : t.Parametric row) (hself : row.coefficient s = 0) (hred : row.Reduced)
    (hfit : s.Admits row) : (t.attach s row).Standard := by
  have split_row (x : Symbol) (r : Row ℚ) (hx : (t.attach s row).rows.get? x = some r) :
      (s = x ∧ row = r) ∨ t.rows.get? x = some r := by
    rw [get?_attach] at hx
    split at hx
    · next heq => exact Or.inl ⟨heq, Option.some.inj hx⟩
    · exact Or.inr hx
  constructor
  · intro x r hx
    rcases split_row x r hx with ⟨rfl, rfl⟩ | hx
    · exact hrow.attach hself _
    · exact (h.parametric x r hx).attach (hs x r hx) _
  · intro x r hx
    rcases split_row x r hx with ⟨rfl, rfl⟩ | hx
    · exact hred
    · exact h.reduced x r hx
  · intro x r hx
    rcases split_row x r hx with ⟨rfl, rfl⟩ | hx
    · exact hfit
    · exact h.admits x r hx

/-- A symbol may be replaced by its row when the rows that mention it stay fit. -/
theorem Standard.substitute (h : t.Standard) (hs : t.rows.get? s = none) (hrow : t.Parametric row)
    (fits : ∀ x r, t.rows.get? x = some r → r.coefficient s ≠ 0 → x.Admits (r.substitute s row)) :
    (t.substitute s row).Standard := by
  have split_row (x : Symbol) (r : Row ℚ) (hx : (t.substitute s row).rows.get? x = some r) :
      ∃ r', t.rows.get? x = some r' ∧ r = r'.substitute s row := by
    rw [get?_substitute] at hx
    obtain ⟨r', hr', rfl⟩ := Option.map_eq_some_iff.mp hx
    exact ⟨r', hr', rfl⟩
  constructor
  · intro x r hx
    obtain ⟨r', hr', rfl⟩ := split_row x r hx
    exact parametric_substitute hs hrow (h.parametric x r' hr')
  · intro x r hx
    obtain ⟨r', hr', rfl⟩ := split_row x r hx
    exact (h.reduced x r' hr').substitute s row
  · intro x r hx
    obtain ⟨r', hr', rfl⟩ := split_row x r hx
    by_cases hc : r'.coefficient s = 0
    · rw [Row.substitute_absent (h.reduced x r' hr') hc]
      exact h.admits x r' hr'
    · exact fits x r' hr' hc

theorem Standard.enter (h : t.Standard) (hs : t.rows.get? s = none) (hrow : t.Parametric row)
    (hself : row.coefficient s = 0) (hred : row.Reduced) (hfit : s.Admits row)
    (fits : ∀ x r, t.rows.get? x = some r → r.coefficient s ≠ 0 → x.Admits (r.substitute s row)) :
    (t.enter s row).Standard := by
  apply (h.substitute hs hrow fits).attach
  · intro x r hx
    rw [get?_substitute] at hx
    obtain ⟨r', -, rfl⟩ := Option.map_eq_some_iff.mp hx
    rw [Row.coefficient_substitute, hself, if_pos rfl]
    ring
  · exact hrow.substitute _ _
  · exact hself
  · exact hred
  · exact hfit

theorem Standard.pivot (h : t.Standard) {leaving entering : Symbol}
    (hl : t.rows.get? leaving = some row) (he : t.rows.get? entering = none)
    (hc : row.coefficient entering ≠ 0)
    (hfit : entering.Admits (row.exchange leaving entering))
    (fits : ∀ x r, x ≠ leaving → t.rows.get? x = some r → r.coefficient entering ≠ 0 →
      x.Admits (r.substitute entering (row.exchange leaving entering))) :
    (t.pivot leaving row entering).Standard := by
  have hne := ne_of_basic_of_parametric hl he
  have absent : (t.detach leaving).rows.get? entering = none := by
    rw [get?_detach, he, ite_self]
  apply (h.detach leaving).enter absent (parametric_exchange hl he hc (h.parametric _ _ hl))
    (coefficient_exchange_self hne hc) ((h.reduced _ _ hl).exchange leaving entering) hfit
  intro x r hx
  rw [get?_detach] at hx
  split at hx
  · contradiction
  · next hxl => exact fits x r (Ne.symm hxl) hx

theorem Standard.drop (h : t.Standard) (s : Symbol) : (t.drop s).Standard := by
  have split_row (x : Symbol) (r : Row ℚ) (hx : (t.drop s).rows.get? x = some r) :
      ∃ r', t.rows.get? x = some r' ∧ r = r'.erase s := by
    rw [get?_drop] at hx
    obtain ⟨r', hr', rfl⟩ := Option.map_eq_some_iff.mp hx
    exact ⟨r', hr', rfl⟩
  have less (r : Row ℚ) (x : Symbol) (hx : r.coefficient x = 0) :
      (r.erase s).coefficient x = 0 := by
    rw [Row.coefficient_erase, hx, ite_self]
  constructor
  · intro x r hx y hy
    obtain ⟨r', hr', rfl⟩ := split_row x r hx
    apply less
    apply h.parametric x r' hr' y
    intro absent
    exact hy (by rw [get?_drop, absent]; rfl)
  · intro x r hx
    obtain ⟨r', hr', rfl⟩ := split_row x r hx
    exact (h.reduced x r' hr').erase s
  · intro x r hx
    obtain ⟨r', hr', rfl⟩ := split_row x r hx
    have fit := h.admits x r' hr'
    cases x with
    | external v => trivial
    | slack i => exact ⟨fun v => less r' _ (fit.1 v), fit.2⟩
    | error i => exact ⟨fun v => less r' _ (fit.1 v), fit.2⟩
    | dummy i => exact ⟨fun y hy => less r' y (fit.1 y hy), fit.2⟩

section Points

theorem Standard.point_dummy (h : t.Standard) {π : Valuation}
    (hπ : ∀ s, s.isDummy = true → π s = 0) (hs : s.isDummy = true) : t.point π s = 0 := by
  cases hr : t.rows.get? s with
  | none => exact (point_parametric hr π).trans (hπ s hs)
  | some row =>
    have fit := (Symbol.admits_dummy hs).mp (h.admits s row hr)
    rw [point_basic hr, fit.1.eval_eq hπ, fit.2]

/-- A choice of the parametric symbols is admissible as soon as it keeps the slack and error rows
from falling below zero. -/
theorem Standard.admissible_point (h : t.Standard) {π : Valuation} (hπ : π.Admissible)
    (rows : ∀ s row, t.rows.get? s = some row → s.isPivotable = true → 0 ≤ row.eval π) :
    (t.point π).Admissible := by
  refine ⟨?_, fun s hs => h.point_dummy hπ.zero hs⟩
  intro s hs
  cases hr : t.rows.get? s with
  | none => exact (point_parametric hr π).symm ▸ hπ.nonneg s hs
  | some row => exact (point_basic hr π).symm ▸ rows s row hr hs

theorem point_single_eq {x : Symbol} (hne : s ≠ x)
    (hrow : ∀ row, t.rows.get? x = some row → row.coefficient s = 0) :
    t.point (Pi.single s 1) x = t.point 0 x := by
  cases hr : t.rows.get? x with
  | none => simp [point_parametric hr, hne.symm]
  | some row =>
    have still := Row.coefficient_eq row s
    rw [hrow row hr] at still
    rw [point_basic hr, point_basic hr]
    linarith

theorem Standard.admissible_point_zero (h : t.Standard) : (t.point 0).Admissible := by
  apply h.admissible_point Valuation.admissible_zero
  intro s row hr hs
  rw [Row.eval_zero]
  exact (h.admits s row hr).nonneg (Symbol.not_external_of_pivotable hs)

theorem Standard.solves_point (h : t.Standard) (π : Valuation) : t.Solves (t.point π) :=
  Tableau.solves_point h.parametric π

/-- A symbol that the solutions leave free occurs nowhere in the rows. -/
theorem Standard.absent_of_free (h : t.Standard)
    (free : ∀ σ x, t.Solves σ → t.Solves (Function.update σ s x)) : t.Absent s := by
  have absent : t.rows.get? s = none := by
    by_contra basic
    obtain ⟨row, hrow⟩ := Option.ne_none_iff_exists'.mp basic
    have own : row.coefficient s = 0 := h.parametric s row hrow s basic
    have before := (h.solves_point 0) s row hrow
    have after := free _ (t.point 0 s + 1) (h.solves_point 0) s row hrow
    rw [Row.eval_update own, Function.update_self, ← before] at after
    linarith
  refine ⟨absent, ?_⟩
  intro x r hr
  have hne : x ≠ s := fun heq => by simp [heq, absent] at hr
  have before := (h.solves_point 0) x r hr
  have after := free _ 1 (h.solves_point 0) x r hr
  rw [Function.update_of_ne hne, before] at after
  have single : r.eval (Function.update (t.point 0) s 1) = r.eval (Pi.single s 1) := by
    apply Row.eval_congr
    intro y hy
    have parametric : t.rows.get? y = none := by_contra fun hb => hy (h.parametric x r hr y hb)
    by_cases hys : y = s
    · simp [hys]
    · simp [hys, point_parametric parametric]
  rw [Row.coefficient_eq, ← single, ← after, eval_point (h.parametric x r hr), sub_self]

theorem Absent.solves_update (h : t.Absent s) (σ : Valuation) (x : ℚ) :
    t.Solves (Function.update σ s x) ↔ t.Solves σ := by
  constructor
  all_goals
    intro hσ y r hy
    have hne : y ≠ s := fun heq => by simp [heq, h.1] at hy
    have solved := hσ y r hy
    rw [Function.update_of_ne hne, Row.eval_update (h.2 y r hy)] at *
    exact solved

end Points

namespace Prices

variable (h : t.Standard) (hg : t.Prices costs goal)

include h hg

theorem constant : goal.constant = weigh (t.point 0) costs := by
  rw [← hg.value _ (h.solves_point 0), eval_point hg.parametric, Row.eval_zero]

theorem constant_nonneg (hp : Priced costs) : 0 ≤ goal.constant :=
  hg.constant h ▸ hp.nonneg h.admissible_point_zero

/-- A parametric symbol that moves none of the priced ones is not in the goal. -/
theorem coefficient_eq_zero
    (unmoved : ∀ e ∈ costs, t.point (Pi.single s 1) e.1 = t.point 0 e.1) :
    goal.coefficient s = 0 := by
  rw [Row.coefficient_eq, ← eval_point hg.parametric, ← eval_point hg.parametric 0,
    hg.value _ (h.solves_point _), hg.value _ (h.solves_point 0),
    weigh_congr costs fun e he _ => unmoved e he, sub_self]

theorem internal (hp : Priced costs) : goal.Internal := by
  intro v
  apply hg.coefficient_eq_zero h
  intro e he
  have inside := Symbol.not_external_of_pivotable (hp e he).1
  apply point_single_eq
  · rintro heq
    simp [← heq, Symbol.isExternal] at inside
  · intro row hr
    exact (h.admits e.1 row hr).internal inside v

theorem absent (ha : t.Absent s) (apart : ∀ e ∈ costs, e.1 ≠ s) : goal.coefficient s = 0 := by
  apply hg.coefficient_eq_zero h
  intro e he
  exact point_single_eq (apart e he).symm fun row hr => ha.2 e.1 row hr

end Prices

theorem Prices.of_solves {t' : Tableau ℚ} (hg : t.Prices costs goal)
    (hs : ∀ σ, t'.Solves σ → t.Solves σ) {goal' : Row ℚ} (hpar : t'.Parametric goal')
    (hred : goal'.Reduced) (same : ∀ σ, t'.Solves σ → goal'.eval σ = goal.eval σ) :
    t'.Prices costs goal' :=
  ⟨hpar, hred, fun σ hσ => (same σ hσ).trans (hg.value σ (hs σ hσ))⟩

theorem Prices.enter (hg : t.Prices costs goal) (hs : t.rows.get? s = none)
    (hrow : t.Parametric row) (hself : row.coefficient s = 0) :
    (t.enter s row).Prices costs (goal.substitute s row) := by
  apply hg.of_solves (fun σ hσ => ((solves_enter hs σ).mp hσ).1)
    (parametric_enter hs hrow hself hg.parametric) (hg.reduced.substitute s row)
  intro σ hσ
  rw [Row.eval_substitute, ((solves_enter hs σ).mp hσ).2]
  ring

/-- Rows that do not mention a basic symbol keep their value when its row is dropped. -/
theorem Prices.detach (parametric : ∀ x r, t.rows.get? x = some r → t.Parametric r)
    (hg : t.Prices costs goal) (hs : t.rows.get? s = some row)
    (apart : ∀ e ∈ costs, e.1 ≠ s) : (t.detach s).Prices costs goal := by
  refine ⟨hg.parametric.detach s, hg.reduced, ?_⟩
  intro σ hσ
  rw [solves_detach_iff parametric hs] at hσ
  have basic : t.rows.get? s ≠ none := by simp [hs]
  rw [← Row.eval_update (hg.parametric s basic) σ (row.eval σ), hg.value _ hσ,
    weigh_update apart]

theorem Prices.pivot_of_parametric (hg : t.Prices costs goal) {leaving entering : Symbol}
    (hl : t.rows.get? leaving = some row) (hrow : t.Parametric row)
    (he : t.rows.get? entering = none) (hc : row.coefficient entering ≠ 0) :
    (t.pivot leaving row entering).Prices costs
      (goal.substitute entering (row.exchange leaving entering)) := by
  have hne := ne_of_basic_of_parametric hl he
  apply hg.of_solves fun σ hσ => (solves_pivot hl he hc σ).mp hσ
  · exact parametric_pivot hl he hc hrow hg.parametric
  · exact hg.reduced.substitute _ _
  · intro σ hσ
    have solved := (solves_pivot hl he hc σ).mp hσ leaving row hl
    rw [Row.eval_substitute, (exchange_iff hne hc σ).mpr solved]
    ring

theorem Prices.pivot (hg : t.Prices costs goal) (h : t.Standard) {leaving entering : Symbol}
    (hl : t.rows.get? leaving = some row) (he : t.rows.get? entering = none)
    (hc : row.coefficient entering ≠ 0) :
    (t.pivot leaving row entering).Prices costs
      (goal.substitute entering (row.exchange leaving entering)) :=
  hg.pivot_of_parametric hl (h.parametric _ _ hl) he hc

theorem Prices.drop (hg : t.Prices costs goal) (hs : t.rows.get? s = none)
    (apart : ∀ e ∈ costs, e.1 ≠ s) : (t.drop s).Prices costs (goal.erase s) := by
  refine ⟨?_, hg.reduced.erase s, ?_⟩
  · intro x hx
    rw [Row.coefficient_erase]
    split
    · rfl
    · apply hg.parametric x
      intro absent
      exact hx (by rw [get?_drop, absent]; rfl)
  · intro σ hσ
    have hu := hg.value _ ((solves_drop hs σ).mp hσ)
    have absent : (goal.erase s).coefficient s = 0 := by rw [Row.coefficient_erase, if_pos rfl]
    rw [← Row.eval_update absent σ 0, Row.eval_erase, hu, weigh_update apart, Function.update_self]
    ring

end Tableau

end LinearChoice
