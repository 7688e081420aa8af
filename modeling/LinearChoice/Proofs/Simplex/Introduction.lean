import LinearChoice.Proofs.Simplex.Minimise

/-!
# Introducing a row

A row joins a tableau when afterwards the tableau has those of its solutions
on which the row is zero. It joins through a subject or through an artificial
symbol. If the artificial symbol stays above zero, no admissible solution has
the row at zero, and dropping the symbol gives the old tableau back.
-/

set_option autoImplicit false

namespace LinearChoice.Tableau
open scoped Exact

structure Joined (costs : List (Symbol × ℚ)) (t : Tableau ℚ) (row : Row ℚ) (t' : Tableau ℚ) :
    Prop where
  standard : t'.Standard
  solves : ∀ σ, t'.Solves σ ↔ t.Solves σ ∧ row.eval σ = 0
  prices : t'.Prices costs t'.objective

variable {t t₁ t₂ : Tableau ℚ} {row last goal : Row ℚ} {costs : List (Symbol × ℚ)}
variable {subject artificial : Symbol}

theorem joined_enter (h : t.Standard) (ho : t.Prices costs t.objective)
    (hs : t.rows.get? subject = none) (hrow : t.Parametric row) (hred : row.Reduced)
    (hc : row.coefficient subject ≠ 0) (hfit : subject.Admits (row.solveFor subject))
    (fits : ∀ x r, t.rows.get? x = some r → r.coefficient subject ≠ 0 →
      x.Admits (r.substitute subject (row.solveFor subject))) :
    Joined costs t row (t.enter subject (row.solveFor subject)) := by
  have self : (row.solveFor subject).coefficient subject = 0 := by
    rw [Row.coefficient_solveFor _ hc, if_pos rfl, div_self hc, sub_self]
  have parametric : t.Parametric (row.solveFor subject) := by
    intro x hx
    have hne : x ≠ subject := fun heq => hx (heq ▸ hs)
    rw [Row.coefficient_solveFor _ hc, if_neg hne, hrow x hx]
    ring
  refine ⟨h.enter hs parametric self (hred.solveFor subject) hfit fits, ?_,
    ho.enter hs parametric self⟩
  intro σ
  rw [solves_enter hs, Row.eval_solveFor _ _ hc, eq_comm (a := σ subject), sub_eq_self,
    div_eq_zero_iff, or_iff_left hc]

structure Introducible (t : Tableau ℚ) (artificial : Symbol) (row : Row ℚ) : Prop where
  restricted : artificial.isPivotable = true
  absent : t.Absent artificial
  unmentioned : row.coefficient artificial = 0
  parametric : t.Parametric row
  reduced : row.Reduced
  internal : row.Internal
  nonneg : 0 ≤ row.constant
  proper : ∃ s, s.isDummy = false ∧ row.coefficient s ≠ 0

variable (h : t.Standard) (hi : t.Introducible artificial row)

include h hi

theorem standard_start : (t.attach artificial row).Standard :=
  h.attach hi.absent.2 hi.parametric hi.unmentioned hi.reduced
    ((Symbol.admits_pivotable hi.restricted).mpr ⟨hi.internal, hi.nonneg⟩)

omit h in
theorem solves_start (σ : Valuation) :
    (t.attach artificial row).Solves σ ↔ t.Solves σ ∧ σ artificial = row.eval σ :=
  solves_attach hi.absent.1 σ

omit h in
/-- The artificial symbol measures how far the row is from zero. -/
theorem solves_start_update (σ : Valuation) (x : ℚ) :
    (t.attach artificial row).Solves (Function.update σ artificial x) ↔
      t.Solves σ ∧ x = row.eval σ := by
  rw [solves_start hi, hi.absent.solves_update, Function.update_self,
    Row.eval_update hi.unmentioned]

theorem prices_start (hg : t.Prices costs goal) (apart : ∀ e ∈ costs, e.1 ≠ artificial) :
    (t.attach artificial row).Prices costs goal :=
  ⟨hg.parametric.attach (hg.absent h hi.absent apart) _, hg.reduced,
    fun σ hσ => hg.value σ ((solves_start hi σ).mp hσ).1⟩

omit h in
theorem prices_artificial : (t.attach artificial row).Prices [(artificial, 1)] row := by
  refine ⟨hi.parametric.attach hi.unmentioned _, hi.reduced, fun σ hσ => ?_⟩
  simpa using ((solves_start hi σ).mp hσ).2.symm

omit h in
theorem priced_artificial : Priced [(artificial, (1 : ℚ))] := by
  simpa [Priced] using hi.restricted

omit h in
theorem joined_of_solves (hs : t₂.Standard) (rebased : Rebased costs (t.attach artificial row) t₁)
    (fixed : ∀ σ, t₂.Solves σ ↔ t₁.Solves (Function.update σ artificial 0))
    (prices : t₂.Prices costs t₂.objective) : Joined costs t row t₂ := by
  refine ⟨hs, fun σ => ?_, prices⟩
  rw [fixed, rebased.solves, solves_start_update hi, eq_comm]

/-- Dropping the row of a basic artificial symbol takes back the introduction. -/
theorem rebased_detach (rebased : Rebased costs (t.attach artificial row) t₁)
    (hl : t₁.rows.get? artificial = some last)
    (apart : ∀ e ∈ costs, e.1 ≠ artificial) : Rebased costs t (t₁.detach artificial) := by
  have basic : t₁.rows.get? artificial ≠ none := by simp [hl]
  refine ⟨rebased.standard.detach artificial, ?_, ?_⟩
  · intro σ
    rw [solves_detach_iff rebased.standard.parametric hl, rebased.solves, solves_start_update hi]
    refine ⟨fun hσ => hσ.1, fun hσ => ⟨hσ, ?_⟩⟩
    have extended := (rebased.solves _).mpr ((solves_start_update hi σ _).mpr ⟨hσ, rfl⟩)
    have value := extended artificial last hl
    rw [Function.update_self,
      Row.eval_update (rebased.standard.parametric _ _ hl _ basic)] at value
    exact value.symm
  · intro hp
    exact (rebased.prices (prices_start h hi hp apart)).detach rebased.standard.parametric hl apart

omit h in
/-- At an optimum above zero the row is zero on no admissible solution. -/
theorem ne_zero_of_optimal (rebased : Rebased costs (t.attach artificial row) t₁)
    (hg : t₁.Prices [(artificial, 1)] goal) (optimal : Optimal goal) (hc : goal.constant ≠ 0)
    {σ : Valuation} (hσ : σ.Admissible) (solved : t.Solves σ) : row.eval σ ≠ 0 := by
  intro zero
  have value := hg.value _ ((rebased.solves _).mpr
    ((solves_start_update hi σ 0).mpr ⟨solved, zero.symm⟩))
  have admissible := hσ.update (Symbol.not_dummy_of_pivotable hi.restricted) (le_refl 0)
  have priced := priced_artificial hi
  have least := constant_le_eval (hg.internal rebased.standard priced) optimal admissible
  have positive := lt_of_le_of_ne (hg.constant_nonneg rebased.standard priced) hc.symm
  simp at value
  linarith

/-- The row depends on a symbol that is no dummy, hence so does the artificial symbol in every
basis. -/
theorem not_onlyDummies (rebased : Rebased costs (t.attach artificial row) t₁)
    (hl : t₁.rows.get? artificial = some last) : ¬last.OnlyDummies := by
  intro dummies
  obtain ⟨s, hs, hc⟩ := hi.proper
  have still (π : Valuation) (hπ : ∀ x, x.isDummy = true → π x = 0) :
      row.eval π = last.constant := by
    have extended := (rebased.solves _).mpr
      ((solves_start_update hi _ _).mpr ⟨h.solves_point π, rfl⟩)
    have value := extended artificial last hl
    rw [Function.update_self, eval_point hi.parametric] at value
    rw [value]
    apply dummies.eval_eq
    intro x hx
    have hne : x ≠ artificial := fun heq => by
      simp [heq, Symbol.not_dummy_of_pivotable hi.restricted] at hx
    rw [Function.update_of_ne hne, h.point_dummy hπ hx]
  apply hc
  rw [Row.coefficient_eq, still 0 fun _ _ => rfl, still (Pi.single s 1), sub_self]
  intro x hx
  have hne : x ≠ s := fun heq => by simp [heq, hs] at hx
  exact Pi.single_eq_of_ne hne 1

omit h in
/-- An artificial symbol that is basic at zero leaves through any restricted symbol of its row. -/
theorem rebased_expel (rebased : Rebased costs (t.attach artificial row) t₁)
    (hl : t₁.rows.get? artificial = some last) (hz : last.constant = 0) {entering : Symbol}
    (he : entering.isPivotable = true) (hc : last.coefficient entering ≠ 0) :
    Rebased costs t₁ (t₁.pivot artificial last entering) := by
  have standard := rebased.standard
  have parametric := parametric_of_coefficient (standard.parametric _ _ hl) hc
  have hne := ne_of_basic_of_parametric hl parametric
  have inside := Symbol.not_external_of_pivotable hi.restricted
  have constant : (last.exchange artificial entering).constant = 0 := by
    rw [Row.constant_exchange hne hc, hz]
    simp
  have internal :=
    internal_exchange hne hc ((standard.admits _ _ hl).internal inside) inside
  refine ⟨?_, solves_pivot hl parametric hc, fun hp => hp.pivot standard hl parametric hc⟩
  apply standard.pivot hl parametric hc
  · exact (Symbol.admits_pivotable he).mpr ⟨internal, constant.ge⟩
  · intro x r _ hx hm
    apply Symbol.Admits.of_nonneg
      (standard.not_dummy_of_mentions hx (Symbol.not_dummy_of_pivotable he) hm)
    intro hxi
    have fit := standard.admits x r hx
    have inside := Symbol.not_external_of_pivotable he
    refine ⟨internal_substitute (fit.internal hxi) internal inside, ?_⟩
    rw [Row.constant_substitute, constant, mul_zero, add_zero]
    exact fit.nonneg hxi

inductive Introduced (t : Tableau ℚ) (row : Row ℚ) (costs : List (Symbol × ℚ)) :
    Except SolverError Bool × Tableau ℚ → Prop
  | stalled (t' : Tableau ℚ) : Introduced t row costs (.error (.internal .stalled), t')
  | joined (t' : Tableau ℚ) (joined : Joined costs t row t') :
      Introduced t row costs (.ok true, t')
  | refused (t' : Tableau ℚ) (rebased : Rebased costs t t')
      (never : ∀ σ : Valuation, σ.Admissible → t.Solves σ → row.eval σ ≠ 0) :
      Introduced t row costs (.ok false, t')

/-- The artificial symbol is down to zero and still basic. -/
theorem introduced_basic (rebased : Rebased costs (t.attach artificial row) t₁)
    (hl : t₁.rows.get? artificial = some last) (hz : last.constant = 0)
    (prices : t₁.Prices costs t₁.objective) (apart : ∀ e ∈ costs, e.1 ≠ artificial) :
    t.Introduced row costs
      (if last.cells.isEmpty then (.ok true, t₁.detach artificial)
      else
        match last.cells.keys.find? Symbol.isPivotable with
        | none => (.ok false, t₁.detach artificial)
        | some entering => (.ok true, (t₁.pivot artificial last entering).drop artificial)) := by
  have standard := rebased.standard
  have reduced := standard.reduced _ _ hl
  have proper := not_onlyDummies h hi rebased hl
  split
  · next empty =>
    refine absurd (fun s _ => ?_) proper
    by_contra hs
    have mem := (reduced.mem_keys_iff s).mpr hs
    rw [Table.isEmpty, List.isEmpty_iff] at empty
    simp [Table.keys, empty] at mem
  · split
    · next none =>
      refine absurd (fun s hs => ?_) proper
      by_contra hc
      have inside := Symbol.not_external_of_pivotable hi.restricted
      have internal := (standard.admits _ _ hl).internal inside
      have pivotable := Symbol.isPivotable_of_internal (not_external_of_internal internal hc) hs
      exact List.find?_eq_none.mp none s ((reduced.mem_keys_iff s).mpr hc) pivotable
    · next entering found =>
      have he := List.find?_some found
      have hc := (reduced.mem_keys_iff entering).mp (List.mem_of_find?_eq_some found)
      have expelled := rebased_expel hi rebased hl hz he hc
      have parametric := parametric_of_coefficient (standard.parametric _ _ hl) hc
      have hne := ne_of_basic_of_parametric hl parametric
      have gone : (t₁.pivot artificial last entering).rows.get? artificial = none := by
        rw [get?_pivot, if_neg hne, if_pos rfl]
      apply Introduced.joined
      apply joined_of_solves hi (expelled.standard.drop artificial) rebased
      · intro σ
        rw [solves_drop gone, expelled.solves]
      · exact (expelled.prices prices).drop gone apart

theorem introduce_spec (ho : t.Prices costs t.objective) (apart : ∀ e ∈ costs, e.1 ≠ artificial) :
    t.Introduced row costs (t.introduce artificial row) := by
  obtain ⟨outcome, t₁, goal, run, rebased, hg, result⟩ :=
    minimise_spec costs (t.attach artificial row).budget (standard_start h hi)
      (priced_artificial hi) (prices_artificial hi)
  have prices := rebased.prices (prices_start h hi ho apart)
  have shown := hg.constant rebased.standard
  rcases result with ⟨rfl, optimal⟩ | rfl
  · simp only [introduce, run]
    cases hl : t₁.rows.get? artificial with
    | none =>
      have success : Scalar.nearZero goal.constant = true := by
        rw [Scalar.nearZero_iff, shown]
        simp [point_parametric hl]
      simp only [success]
      exact Introduced.joined _
        (joined_of_solves hi (rebased.standard.drop artificial) rebased (solves_drop hl)
          (prices.drop hl apart))
    | some last =>
      have level : goal.constant = last.constant := by
        rw [shown]
        simp [point_basic hl]
      by_cases hz : goal.constant = 0
      · have success : Scalar.nearZero goal.constant = true := (Scalar.nearZero_iff _).mpr hz
        simp only [success, Bool.not_true, Bool.false_or]
        exact introduced_basic h hi rebased hl (level ▸ hz) prices apart
      · have failure : Scalar.nearZero goal.constant = false := by
          rw [← Bool.not_eq_true, Scalar.nearZero_iff]
          exact hz
        simp only [failure, Bool.not_false, Bool.true_or, if_true]
        exact Introduced.refused _ (rebased_detach h hi rebased hl apart) fun σ hσ solved =>
          ne_zero_of_optimal hi rebased hg optimal hz hσ solved
  · simp only [introduce, run]
    exact Introduced.stalled _

end LinearChoice.Tableau
