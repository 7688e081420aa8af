import LinearChoice.Proofs.Simplex.Minimise

/-!
# Restoring the standard form

After a change of constants the rows are as they were but for their signs. The
dual pivots take the rows on the stack above zero, one after the other, and the
stack always has all that are below. As long as the tableau has an admissible
solution, a row below zero has a symbol to be raised by.
-/

set_option autoImplicit false

namespace LinearChoice
open scoped Exact

def Symbol.Suits : Symbol → Row ℚ → Prop
  | .external _, _ => True
  | .slack _, r | .error _, r => r.Internal
  | .dummy _, r => r.OnlyDummies ∧ r.constant = 0

namespace Symbol

variable {s : Symbol} {r : Row ℚ}

theorem Suits.admits (h : s.Suits r) (nonneg : s.isExternal = false → 0 ≤ r.constant) :
    s.Admits r := by
  cases s with
  | external v => trivial
  | slack i | error i => exact ⟨h, nonneg rfl⟩
  | dummy i => exact h

theorem Suits.internal (h : s.Suits r) (hs : s.isExternal = false) : r.Internal := by
  cases s with
  | external v => contradiction
  | slack i | error i => exact h
  | dummy i => exact h.1.internal

/-- A row below zero is not that of a dummy. -/
theorem Suits.isPivotable (h : s.Suits r) (hs : s.isExternal = false) (neg : r.constant < 0) :
    s.isPivotable = true := by
  cases s with
  | external v => contradiction
  | slack i | error i => rfl
  | dummy i => exact absurd h.2 (ne_of_lt neg)

end Symbol

namespace Tableau

structure Regular (t : Tableau ℚ) : Prop where
  parametric : ∀ s row, t.rows.get? s = some row → t.Parametric row
  reduced : ∀ s row, t.rows.get? s = some row → row.Reduced
  suits : ∀ s row, t.rows.get? s = some row → s.Suits row

structure Pending (t : Tableau ℚ) (stack : List Symbol) : Prop where
  inside : ∀ s ∈ stack, s.isExternal = false
  complete : ∀ s row, t.rows.get? s = some row → s.isExternal = false → row.constant < 0 → s ∈ stack

variable {t : Tableau ℚ} {s : Symbol} {row : Row ℚ} {stack : List Symbol}
variable {costs : List (Symbol × ℚ)}

theorem Regular.standard (h : t.Regular) (pending : t.Pending []) : t.Standard := by
  refine ⟨h.parametric, h.reduced, fun s row hs => (h.suits s row hs).admits fun hi => ?_⟩
  by_contra neg
  exact List.not_mem_nil (pending.complete s row hs hi (not_le.mp neg))

theorem Regular.pivot (h : t.Regular) {leaving entering : Symbol}
    (hl : t.rows.get? leaving = some row) (hi : leaving.isExternal = false)
    (he : entering.isPivotable = true) (hc : row.coefficient entering ≠ 0) :
    (t.pivot leaving row entering).Regular := by
  have parametric := parametric_of_coefficient (h.parametric _ _ hl) hc
  have hne := ne_of_basic_of_parametric hl parametric
  have exchanged := internal_exchange hne hc ((h.suits _ _ hl).internal hi) hi
  constructor
  · exact fun x r hx => rows_parametric_pivot hl parametric hc h.parametric hx
  · intro x r hx
    rw [get?_pivot] at hx
    split at hx
    · exact Option.some.inj hx ▸ (h.reduced _ _ hl).exchange leaving entering
    · split at hx
      · contradiction
      · obtain ⟨r', hr', rfl⟩ := Option.map_eq_some_iff.mp hx
        exact (h.reduced x r' hr').substitute _ _
  · intro x r hx
    rw [get?_pivot] at hx
    split at hx
    · next heq =>
      rw [← heq, ← Option.some.inj hx]
      cases entering with
      | external v => contradiction
      | slack i | error i => exact exchanged
      | dummy i => contradiction
    · split at hx
      · contradiction
      · obtain ⟨r', hr', rfl⟩ := Option.map_eq_some_iff.mp hx
        have suits := h.suits x r' hr'
        cases x with
        | external v => trivial
        | slack i | error i =>
          exact internal_substitute suits exchanged (Symbol.not_external_of_pivotable he)
        | dummy i =>
          rw [Row.substitute_absent (h.reduced _ r' hr')
            (suits.1 entering (Symbol.not_dummy_of_pivotable he))]
          exact suits

def Raises (seen : List (Symbol × ℚ)) : Option (ℚ × Symbol) → Prop
  | none => ∀ e ∈ seen, e.1.isDummy = false → e.2 ≤ 0
  | some b => ∃ c, (b.2, c) ∈ seen ∧ b.2.isDummy = false ∧ 0 < c

theorem raises_cheaper (objective : Row ℚ) {seen : List (Symbol × ℚ)} {best : Option (ℚ × Symbol)}
    (h : Raises seen best) (e : Symbol × ℚ) :
    Raises (seen ++ [e]) (cheaper objective best e) := by
  have keep {b : ℚ × Symbol} (h : Raises seen (some b)) : Raises (seen ++ [e]) (some b) := by
    obtain ⟨c, mem, kept⟩ := h
    exact ⟨c, List.mem_append_left _ mem, kept⟩
  unfold cheaper
  dsimp only
  split
  · next eligible =>
    have he : 0 < e.2 ∧ e.1.isDummy = false := by simpa using eligible
    have own (ratio : ℚ) : Raises (seen ++ [e]) (some (ratio, e.1)) :=
      ⟨e.2, List.mem_append_right _ (List.mem_singleton_self e), he.2, he.1⟩
    cases best with
    | none => exact own _
    | some b =>
      dsimp only
      split
      · exact own _
      · exact keep h
  · next idle =>
    cases best with
    | none =>
      intro x hx hd
      rcases List.mem_append.mp hx with hx | hx
      · exact h x hx hd
      · rw [List.mem_singleton.mp hx] at hd ⊢
        simpa [hd] using idle
    | some b => exact keep h

theorem dualEntering_cases (objective row : Row ℚ) :
    (dualEntering? objective row = none ∧
      ∀ e ∈ row.cells.entries, e.1.isDummy = false → e.2 ≤ 0) ∨
    ∃ s, dualEntering? objective row = some s ∧ s.isDummy = false ∧ 0 < row.coefficient s := by
  have start : Raises [] none := List.forall_mem_nil _
  have seen : Raises row.cells.entries (row.cells.entries.foldl (cheaper objective) none) :=
    foldl_seen (P := Raises) (fun _ _ e h => raises_cheaper objective h e) row.cells.entries none
      start
  unfold dualEntering?
  cases best : row.cells.entries.foldl (cheaper objective) none with
  | none =>
    rw [best] at seen
    exact Or.inl ⟨rfl, seen⟩
  | some b =>
    rw [best] at seen
    obtain ⟨c, mem, hd, pos⟩ := seen
    exact Or.inr ⟨b.2, rfl, hd, by rwa [Row.coefficient_of_mem mem]⟩

/-- Without a symbol that raises it a row below zero would be below zero in every solution. -/
theorem Regular.entering (h : t.Regular) (hs : t.rows.get? s = some row)
    (hi : s.isExternal = false) (neg : row.constant < 0) {σ : Valuation} (hσ : σ.Admissible)
    (solved : t.Solves σ) :
    ∃ x, dualEntering? t.objective row = some x ∧ x.isPivotable = true ∧ 0 < row.coefficient x := by
  have suits := h.suits s row hs
  have internal := suits.internal hi
  rcases dualEntering_cases t.objective row with ⟨-, falling⟩ | ⟨x, found, hd, pos⟩
  · have loss : 0 ≤ -weigh σ row.cells.entries := by
      rw [← neg_one_mul, ← weigh_scaled]
      apply weigh_nonneg
      intro e he
      obtain ⟨e', he', rfl⟩ := List.mem_map.mp he
      by_cases hd : e'.1.isDummy = true
      · rw [hσ.zero e'.1 hd, mul_zero]
      · have hd : e'.1.isDummy = false := by simpa using hd
        by_cases hx : e'.1.isExternal = true
        · have zero := Row.coefficient_of_mem he'
          cases hv : e'.1 with
          | external v =>
            rw [hv, internal v] at zero
            simp [← zero]
          | slack i | error i | dummy i => simp [hv, Symbol.isExternal] at hx
        · have hx : e'.1.isExternal = false := by simpa using hx
          have nonneg := hσ.nonneg e'.1 (Symbol.isPivotable_of_internal hx hd)
          have nonpos := falling e' he' hd
          simpa using mul_nonneg (neg_nonneg.mpr nonpos) nonneg
    have value : σ s = row.constant + weigh σ row.cells.entries := solved s row hs
    have above := hσ.nonneg s (suits.isPivotable hi neg)
    linarith
  · exact ⟨x, found, Symbol.isPivotable_of_internal
      (not_external_of_internal internal (ne_of_gt pos)) hd, pos⟩

/-- Of the rows that a dual pivot leaves behind, those below zero are put on the stack. -/
theorem pending_pivot {entering : Symbol} (hl : t.rows.get? s = some row)
    (neg : row.constant < 0) (he : t.rows.get? entering = none) (pos : 0 < row.coefficient entering)
    (inside : ∀ x ∈ stack, x.isExternal = false) :
    (t.pivot s row entering).Pending
      (((t.detach s).substitute entering (row.exchange s entering)).negatives.reverse ++ stack) := by
  have hne := ne_of_basic_of_parametric hl he
  constructor
  · intro x hx
    rcases List.mem_append.mp hx with hx | hx
    · obtain ⟨e, he, rfl⟩ := List.mem_map.mp (List.mem_reverse.mp hx)
      have negative := (List.mem_filter.mp he).2
      simp only [Bool.and_eq_true, Bool.not_eq_true', decide_eq_true_eq] at negative
      exact negative.1
    · exact inside x hx
  · intro x r hx hi below
    rw [pivot, enter, get?_attach] at hx
    split at hx
    · cases hx
      rw [Row.constant_exchange hne (ne_of_gt pos)] at below
      have := div_pos (neg_pos.mpr neg) pos
      linarith
    · apply List.mem_append_left
      rw [List.mem_reverse]
      refine List.mem_map.mpr ⟨(x, r), List.mem_filter.mpr ⟨?_, by simp [hi, below]⟩, rfl⟩
      exact (Table.get?_eq_some_iff _ x r).mp hx

/-- Working off the stack leads to another basis in standard form. -/
theorem restore_spec (h : t.Regular) (pending : t.Pending stack)
    (feasible : ∃ σ : Valuation, σ.Admissible ∧ t.Solves σ) (n : ℕ) :
    ∃ outcome t', restore n stack t = (outcome, t') ∧
      ((outcome = .ok () ∧ Rebased costs t t') ∨ outcome = .error (.internal .stalled)) := by
  induction n generalizing t stack with
  | zero =>
    cases stack with
    | nil => exact ⟨_, t, rfl, Or.inl ⟨rfl, .refl (h.standard pending)⟩⟩
    | cons s stack => exact ⟨_, t, rfl, Or.inr rfl⟩
  | succ n ih =>
    cases stack with
    | nil => exact ⟨_, t, rfl, Or.inl ⟨rfl, .refl (h.standard pending)⟩⟩
    | cons s stack =>
      obtain ⟨hi, inside⟩ := List.forall_mem_cons.mp pending.inside
      -- A symbol that does not stand below zero is passed over.
      have passed (level : ∀ row, t.rows.get? s = some row → ¬row.constant < 0) :
          t.Pending stack := by
        refine ⟨inside, fun x row hx hi below => ?_⟩
        rcases List.mem_cons.mp (pending.complete x row hx hi below) with rfl | waits
        · exact absurd below (level row hx)
        · exact waits
      unfold restore
      cases basic : t.rows.get? s with
      | none => exact ih h (passed fun row hs => by simp [basic] at hs) feasible
      | some row =>
        dsimp only
        split
        · next neg =>
          obtain ⟨σ, hσ, solved⟩ := feasible
          obtain ⟨x, found, restricted, pos⟩ := h.entering basic hi neg hσ solved
          have hc := ne_of_gt pos
          have parametric := parametric_of_coefficient (h.parametric s row basic) hc
          have same := solves_pivot basic parametric hc
          obtain ⟨outcome, t', run, result⟩ := ih (h.pivot basic hi restricted hc)
            (pending_pivot basic neg parametric pos inside) ⟨σ, hσ, (same σ).mpr solved⟩
          rw [found]
          refine ⟨outcome, t', run, ?_⟩
          rcases result with ⟨ok, rebased⟩ | stalled
          · refine Or.inl ⟨ok, rebased.standard, fun τ => (rebased.solves τ).trans (same τ), ?_⟩
            intro prices
            exact rebased.prices
              (prices.pivot_of_parametric basic (h.parametric s row basic) parametric hc)
          · exact Or.inr stalled
        · next level =>
          refine ih h (passed fun row' hs => ?_) feasible
          rw [basic] at hs
          exact Option.some.inj hs ▸ level

end Tableau

end LinearChoice
