import LinearChoice.Proofs.Simplex.Standard
import LinearChoice.Proofs.Simplex.Selection

/-!
# Ratio tests

Both ratio tests, of pivots and of withdrawals, pass once over the rows and
keep the best candidate seen. What they find is a row with the least ratio
among the rows that count, and they find none only when no row counts.
-/

set_option autoImplicit false

namespace LinearChoice
open scoped Exact

def Candidate.Least (eligible : Symbol × Row ℚ → Prop) (ratio : Symbol × Row ℚ → ℚ)
    (seen : List (Symbol × Row ℚ)) : Option (Candidate ℚ) → Prop
  | none => ∀ e ∈ seen, ¬eligible e
  | some c => (c.symbol, c.row) ∈ seen ∧ eligible (c.symbol, c.row) ∧
      c.ratio = ratio (c.symbol, c.row) ∧ ∀ e ∈ seen, eligible e → c.ratio ≤ ratio e

section Least

variable {eligible : Symbol × Row ℚ → Prop} {ratio : Symbol × Row ℚ → ℚ}
variable {seen : List (Symbol × Row ℚ)} {best : Option (Candidate ℚ)} {e : Symbol × Row ℚ}

theorem Candidate.Least.skip (h : Least eligible ratio seen best) (he : ¬eligible e) :
    Least eligible ratio (seen ++ [e]) best := by
  cases best with
  | none =>
    intro x hx
    rcases List.mem_append.mp hx with hx | hx
    · exact h x hx
    · exact List.mem_singleton.mp hx ▸ he
  | some c =>
    refine ⟨List.mem_append_left _ h.1, h.2.1, h.2.2.1, ?_⟩
    intro x hx hel
    rcases List.mem_append.mp hx with hx | hx
    · exact h.2.2.2 x hx hel
    · exact absurd hel (List.mem_singleton.mp hx ▸ he)

theorem Candidate.Least.keep {c : Candidate ℚ} (h : Least eligible ratio seen (some c))
    (he : c.ratio ≤ ratio e) : Least eligible ratio (seen ++ [e]) (some c) := by
  refine ⟨List.mem_append_left _ h.1, h.2.1, h.2.2.1, ?_⟩
  intro x hx hel
  rcases List.mem_append.mp hx with hx | hx
  · exact h.2.2.2 x hx hel
  · exact List.mem_singleton.mp hx ▸ he

theorem Candidate.Least.take (h : Least eligible ratio seen best) (he : eligible e)
    (better : ∀ c, best = some c → ratio e ≤ c.ratio) :
    Least eligible ratio (seen ++ [e]) (some ⟨ratio e, e.1, e.2⟩) := by
  refine ⟨List.mem_append_right _ (List.mem_singleton_self e), he, rfl, ?_⟩
  intro x hx hel
  rcases List.mem_append.mp hx with hx | hx
  · cases best with
    | none => exact absurd hel (h x hx)
    | some c => exact (better c rfl).trans (h.2.2.2 x hx hel)
  · exact (List.mem_singleton.mp hx ▸ le_refl _)

end Least

def Falls (s : Symbol) (e : Symbol × Row ℚ) : Prop :=
  e.1.isExternal = false ∧ e.2.coefficient s < 0

def fallRatio (s : Symbol) (e : Symbol × Row ℚ) : ℚ := -e.2.constant / e.2.coefficient s

namespace Tableau

theorem better_iff (c best : Candidate ℚ) :
    better c best = true ↔
      c.ratio < best.ratio ∨ (c.ratio = best.ratio ∧ c.symbol < best.symbol) := by
  simp [better, Scalar.magnitude_eq_abs, sub_eq_zero]

theorem tighten_least (s : Symbol) (seen : List (Symbol × Row ℚ)) (best : Option (Candidate ℚ))
    (e : Symbol × Row ℚ) (h : Candidate.Least (Falls s) (fallRatio s) seen best) :
    Candidate.Least (Falls s) (fallRatio s) (seen ++ [e]) (tighten s best e) := by
  unfold tighten
  simp only
  split
  · next hx => exact h.skip fun hf => by simp [hf.1] at hx
  · next hx =>
    split
    · next hc =>
      have eligible : Falls s e := ⟨by simpa using hx, hc⟩
      cases best with
      | none => exact h.take eligible fun c hc => by contradiction
      | some b =>
        simp only
        split
        · next hb =>
          apply h.take eligible
          rintro c ⟨⟩
          rcases (better_iff _ _).mp hb with hlt | ⟨heq, -⟩
          · exact le_of_lt hlt
          · exact le_of_eq heq
        · next hb =>
          apply h.keep
          by_contra hlt
          exact hb ((better_iff _ _).mpr (Or.inl (not_le.mp hlt)))
    · next hc => exact h.skip fun hf => hc hf.2

theorem leaving_least (t : Tableau ℚ) (s : Symbol) :
    Candidate.Least (Falls s) (fallRatio s) t.rows.entries (t.leaving? s) :=
  foldl_seen (tighten_least s) t.rows.entries none (by intro e he; simp at he)

theorem leaving_eq_none {t : Tableau ℚ} {s x : Symbol} {row : Row ℚ} (h : t.leaving? s = none)
    (hx : t.rows.get? x = some row) (hi : x.isExternal = false) : 0 ≤ row.coefficient s := by
  have least := t.leaving_least s
  rw [h] at least
  by_contra hc
  exact least (x, row) ((t.rows.get?_eq_some_iff x row).mp hx) ⟨hi, not_le.mp hc⟩

theorem leaving_eq_some {t : Tableau ℚ} {s : Symbol} {c : Candidate ℚ}
    (h : t.leaving? s = some c) :
    t.rows.get? c.symbol = some c.row ∧ Falls s (c.symbol, c.row) ∧
      ∀ x r, t.rows.get? x = some r → Falls s (x, r) →
        fallRatio s (c.symbol, c.row) ≤ fallRatio s (x, r) := by
  have least := t.leaving_least s
  rw [h] at least
  obtain ⟨mem, falls, ratio, least⟩ := least
  refine ⟨(t.rows.get?_eq_some_iff _ _).mpr mem, falls, ?_⟩
  intro x r hx hf
  exact ratio ▸ least (x, r) ((t.rows.get?_eq_some_iff x r).mp hx) hf

variable {goal : Row ℚ}

/-- The symbols among which the entering one is chosen. -/
theorem mem_lowering {s : Symbol} (hs : s.isDummy = false) (hc : goal.coefficient s < 0) :
    s ∈ (goal.cells.entries.filter fun e => !e.1.isDummy && decide (e.2 < 0)).map Prod.fst := by
  have present : goal.cells.get? s ≠ none := by
    intro absent
    simp [Row.coefficient, absent] at hc
  obtain ⟨k, hk⟩ := Option.ne_none_iff_exists'.mp present
  have mem := (goal.cells.get?_eq_some_iff s k).mp hk
  rw [Row.coefficient_of_mem mem] at hc
  exact List.mem_map.mpr ⟨(s, k), List.mem_filter.mpr ⟨mem, by simp [hs, hc]⟩, rfl⟩

theorem entering_eq_none (h : entering? goal = none) (s : Symbol) (hs : s.isDummy = false) :
    0 ≤ goal.coefficient s := by
  have found := Symbol.least_mem
    ((goal.cells.entries.filter fun e => !e.1.isDummy && decide (e.2 < 0)).map Prod.fst)
  unfold entering? at h
  rw [h] at found
  by_contra hc
  have mem := mem_lowering hs (not_le.mp hc)
  simp [found] at mem

theorem entering_eq_some {s : Symbol} (h : entering? goal = some s) :
    s.isDummy = false ∧ goal.coefficient s < 0 := by
  have found := Symbol.least_mem
    ((goal.cells.entries.filter fun e => !e.1.isDummy && decide (e.2 < 0)).map Prod.fst)
  unfold entering? at h
  rw [h] at found
  obtain ⟨e, he, rfl⟩ := List.mem_map.mp found
  rw [List.mem_filter] at he
  rw [Row.coefficient_of_mem he.1]
  simpa using he.2

end Tableau

end LinearChoice
