import LinearChoice.Proofs.Simplex.Target

/-!
# Dual pivots keep the optimum

The symbol that enters by a dual pivot is the one with the least ratio of cost
to coefficient. So no cost falls below zero by it, and once the stack is worked
off the objective is at an optimum as it was before.
-/

set_option autoImplicit false

namespace LinearChoice
open scoped Exact

namespace Tableau

def Lifts (e : Symbol × ℚ) : Prop := e.1.isDummy = false ∧ 0 < e.2

def Cheapest (objective : Row ℚ) (seen : List (Symbol × ℚ)) : Option (ℚ × Symbol) → Prop
  | none => ∀ e ∈ seen, ¬Lifts e
  | some b => ∃ c, (b.2, c) ∈ seen ∧ Lifts (b.2, c) ∧ b.1 = objective.coefficient b.2 / c ∧
      ∀ e ∈ seen, Lifts e → b.1 ≤ objective.coefficient e.1 / e.2

section Cheapest

variable {objective : Row ℚ} {seen : List (Symbol × ℚ)} {best : Option (ℚ × Symbol)}
  {e : Symbol × ℚ}

theorem Cheapest.skip (h : Cheapest objective seen best) (idle : ¬Lifts e) :
    Cheapest objective (seen ++ [e]) best := by
  have others {P : Symbol × ℚ → Prop} (old : ∀ x ∈ seen, Lifts x → P x) :
      ∀ x ∈ seen ++ [e], Lifts x → P x := by
    intro x hx lifts
    rcases List.mem_append.mp hx with hx | hx
    · exact old x hx lifts
    · exact absurd lifts (List.mem_singleton.mp hx ▸ idle)
  cases best with
  | none => exact fun x hx lifts => others (fun x hx lifts => h x hx lifts) x hx lifts
  | some b =>
    obtain ⟨c, mem, lifts, ratio, least⟩ := h
    exact ⟨c, List.mem_append_left _ mem, lifts, ratio, others least⟩

theorem Cheapest.keep {b : ℚ × Symbol} (h : Cheapest objective seen (some b))
    (dearer : b.1 ≤ objective.coefficient e.1 / e.2) :
    Cheapest objective (seen ++ [e]) (some b) := by
  obtain ⟨c, mem, lifts, ratio, least⟩ := h
  refine ⟨c, List.mem_append_left _ mem, lifts, ratio, fun x hx lifts => ?_⟩
  rcases List.mem_append.mp hx with hx | hx
  · exact least x hx lifts
  · exact List.mem_singleton.mp hx ▸ dearer

theorem Cheapest.take (h : Cheapest objective seen best) (lifts : Lifts e)
    (cheaper : ∀ b, best = some b → objective.coefficient e.1 / e.2 ≤ b.1) :
    Cheapest objective (seen ++ [e]) (some (objective.coefficient e.1 / e.2, e.1)) := by
  refine ⟨e.2, List.mem_append_right _ (List.mem_singleton_self e), lifts, rfl, fun x hx lifts => ?_⟩
  rcases List.mem_append.mp hx with hx | hx
  · cases best with
    | none => exact absurd lifts (h x hx)
    | some b =>
      obtain ⟨-, -, -, -, least⟩ := h
      exact (cheaper b rfl).trans (least x hx lifts)
  · rw [List.mem_singleton.mp hx]

theorem cheapest_cheaper (h : Cheapest objective seen best) (e : Symbol × ℚ) :
    Cheapest objective (seen ++ [e]) (cheaper objective best e) := by
  unfold cheaper
  dsimp only
  split
  · next eligible =>
    have lifts : Lifts e := by
      simp only [Bool.and_eq_true, decide_eq_true_eq, Bool.not_eq_true'] at eligible
      exact ⟨eligible.2, eligible.1⟩
    cases best with
    | none =>
      rw [if_pos (Scalar.belowLargest_exact _)]
      exact h.take lifts nofun
    | some b =>
      dsimp only
      split
      · next less =>
        refine h.take lifts ?_
        rintro b' ⟨⟩
        exact le_of_lt less
      · next more => exact h.keep (not_lt.mp more)
  · next idle =>
    refine h.skip fun lifts => idle ?_
    simp [lifts.1, lifts.2]

end Cheapest

/-- What enters by a dual pivot lifts the row at the least cost. -/
theorem dualEntering_least {objective row : Row ℚ} {s : Symbol}
    (found : dualEntering? objective row = some s) :
    s.isDummy = false ∧ 0 < row.coefficient s ∧
      ∀ x, x.isDummy = false → 0 < row.coefficient x →
        objective.coefficient s / row.coefficient s ≤
          objective.coefficient x / row.coefficient x := by
  have start : Cheapest objective [] none := List.forall_mem_nil _
  have cheapest : Cheapest objective row.cells.entries
      (row.cells.entries.foldl (cheaper objective) none) :=
    foldl_seen (P := Cheapest objective) (fun _ _ e h => cheapest_cheaper h e)
      row.cells.entries none start
  unfold dualEntering? at found
  obtain ⟨b, best, rfl⟩ := Option.map_eq_some_iff.mp found
  rw [best] at cheapest
  obtain ⟨c, mem, lifts, ratio, least⟩ := cheapest
  have own : row.coefficient b.2 = c := Row.coefficient_of_mem mem
  refine ⟨lifts.1, own ▸ lifts.2, fun x hd pos => ?_⟩
  obtain ⟨k, mentioned⟩ : ∃ k, row.cells.get? x = some k := by
    rw [← Option.ne_none_iff_exists']
    intro absent
    simp [Row.coefficient, absent] at pos
  have member := (row.cells.get?_eq_some_iff x k).mp mentioned
  have same : row.coefficient x = k := Row.coefficient_of_mem member
  have less := least (x, k) member ⟨hd, same ▸ pos⟩
  rwa [ratio, ← own, ← same] at less

variable {t : Tableau ℚ} {s x : Symbol} {row : Row ℚ}

/-- A symbol whose cost goes up by a dual pivot had room for it, for it was not the cheapest. -/
theorem Optimal.dual_pivot (optimal : Optimal t.objective) (basic : t.rows.get? s = some row)
    (parametric : t.Parametric row) (found : dualEntering? t.objective row = some x) :
    Optimal (t.pivot s row x).objective := by
  obtain ⟨hx, pos, least⟩ := dualEntering_least found
  have own : row.coefficient s = 0 := parametric s (by simp [basic])
  have hne : x ≠ s := by
    rintro rfl
    exact absurd own (ne_of_gt pos)
  have cost : 0 ≤ t.objective.coefficient x / row.coefficient x :=
    div_nonneg (optimal x hx) (le_of_lt pos)
  intro y hy
  have value : (t.pivot s row x).objective.coefficient y = t.objective.coefficient y -
      t.objective.coefficient x / row.coefficient x *
        (row.coefficient y - if y = s then 1 else 0) := by
    change (t.objective.substitute x (row.exchange s x)).coefficient y = _
    rw [Row.coefficient_substitute, Row.coefficient_exchange y hne (ne_of_gt pos)]
    ring
  have old := optimal y hy
  rw [value]
  by_cases leaves : y = s
  · rw [if_pos leaves, leaves, own]
    rw [leaves] at old
    linarith
  · rw [if_neg leaves, sub_zero]
    rcases le_or_gt (row.coefficient y) 0 with falls | lifts
    · have gain := mul_nonneg cost (neg_nonneg.mpr falls)
      linarith
    · have bound := (le_div_iff₀ lifts).mp (least y hy lifts)
      linarith

/-- Working off the stack keeps the objective at an optimum. -/
theorem Regular.optimal_restore (h : t.Regular) {stack : List Symbol}
    (inside : ∀ s ∈ stack, s.isExternal = false) (optimal : Optimal t.objective) (n : ℕ) :
    Optimal (restore n stack t).2.objective := by
  induction n generalizing t stack with
  | zero => cases stack <;> exact optimal
  | succ n ih =>
    cases stack with
    | nil => exact optimal
    | cons s stack =>
      obtain ⟨hi, others⟩ := List.forall_mem_cons.mp inside
      unfold restore
      cases basic : t.rows.get? s with
      | none => exact ih h others optimal
      | some row =>
        dsimp only
        split
        · next neg =>
          cases found : dualEntering? t.objective row with
          | none => exact optimal
          | some x =>
            obtain ⟨hd, pos, -⟩ := dualEntering_least found
            have hc := ne_of_gt pos
            have own := h.parametric s row basic
            have internal := (h.suits s row basic).internal hi
            have restricted :=
              Symbol.isPivotable_of_internal (not_external_of_internal internal hc) hd
            have pending := pending_pivot basic neg (parametric_of_coefficient own hc) pos others
            exact ih (h.pivot basic hi restricted hc) pending.inside
              (optimal.dual_pivot basic own found)
        · exact ih h others optimal

/-- Nor does it matter to the costs where a target is moved. -/
theorem Standard.optimal_retarget (h : t.Standard) (optimal : Optimal t.objective) {tag : Tag}
    (restricted : ∀ s ∈ tag.symbols, s.isPivotable = true) (y : ℚ) (n : ℕ) :
    Optimal (restore n (t.shiftTarget tag y).1 (t.shiftTarget tag y).2).2.objective := by
  obtain ⟨pending, s, own, z, displaced, -⟩ := shiftTarget_spec h
    (fun s hs => Symbol.not_external_of_pivotable (restricted s hs)) y
  have regular := displaced.regular h (Symbol.not_dummy_of_pivotable (restricted s own))
  exact regular.optimal_restore pending.inside (displaced.objective ▸ optimal) n

end Tableau

end LinearChoice
