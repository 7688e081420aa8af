import LinearChoice.Simplex.Row

/-!
# The order of symbols

Ties are broken by an order on all symbols, by kind and then by number.
-/

set_option autoImplicit false

namespace LinearChoice.Symbol

variable {a b c : Symbol}

theorem lt_def : a < b ↔ a.rank < b.rank ∨ (a.rank = b.rank ∧ a.id < b.id) := Iff.rfl

theorem lt_irrefl (a : Symbol) : ¬a < a := by
  rw [lt_def]
  omega

theorem lt_trans (ab : a < b) (bc : b < c) : a < c := by
  rw [lt_def] at *
  omega

theorem eq_of_not_lt (below : ¬a < b) (above : ¬b < a) : a = b := by
  rw [lt_def] at below above
  have kind : a.rank = b.rank := by omega
  have number : a.id = b.id := by omega
  cases a <;> cases b <;> simp_all [rank, id]
  next v w =>
    cases v
    cases w
    simp_all

/-- Among finitely many symbols one is the greatest. -/
theorem exists_greatest {l : List Symbol} (some : l ≠ []) :
    ∃ s ∈ l, ∀ x ∈ l, ¬s < x := by
  induction l with
  | nil => exact absurd rfl some
  | cons a l ih =>
    by_cases none : l = []
    · subst none
      exact ⟨a, List.mem_cons_self, fun x hx => List.mem_singleton.mp hx ▸ lt_irrefl a⟩
    · obtain ⟨s, hs, greatest⟩ := ih none
      by_cases above : s < a
      · refine ⟨a, List.mem_cons_self, fun x hx more => ?_⟩
        rcases List.mem_cons.mp hx with rfl | hx
        · exact lt_irrefl x more
        · exact greatest x hx (lt_trans above more)
      · refine ⟨s, List.mem_cons_of_mem _ hs, fun x hx => ?_⟩
        rcases List.mem_cons.mp hx with rfl | hx
        · exact above
        · exact greatest x hx

end LinearChoice.Symbol
