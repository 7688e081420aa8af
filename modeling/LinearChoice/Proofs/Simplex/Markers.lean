import LinearChoice.Simplex.Markers

/-!
# The markers of a constraint

Markers are numbered from the next free number on. Those of a required
constraint are no errors and cost nothing.
-/

set_option autoImplicit false

namespace LinearChoice.Markers

variable {α : Type} [Scalar α] (c : Constraint α) (n : Nat)

theorem cells_numbered : ∀ e ∈ (ofConstraint c n).cells,
    e.1.isExternal = false ∧ n ≤ e.1.id ∧ e.1.id < n + (ofConstraint c n).count := by
  unfold ofConstraint inequality equality
  cases c.relation <;> cases c.strength.isRequired <;> simp [Symbol.isExternal, Symbol.id]

theorem cells_tagged : ∀ e ∈ (ofConstraint c n).cells, e.1 ∈ (ofConstraint c n).tag.symbols := by
  unfold ofConstraint inequality equality
  cases c.relation <;> cases c.strength.isRequired <;> simp [Tag.symbols]

theorem costs_numbered : ∀ e ∈ (ofConstraint c n).costs,
    e.1.isPivotable = true ∧ e.2 = c.strength.weight ∧
      n ≤ e.1.id ∧ e.1.id < n + (ofConstraint c n).count := by
  unfold ofConstraint inequality equality
  cases c.relation <;> cases c.strength.isRequired <;> simp [Symbol.isPivotable, Symbol.id]

theorem costs_eq : (ofConstraint c n).costs =
    ((ofConstraint c n).tag.symbols.filter Symbol.isError).map fun s => (s, c.strength.weight) := by
  unfold ofConstraint inequality equality
  cases c.relation <;> cases c.strength.isRequired <;> rfl

theorem errors_required (h : c.isRequired = true) :
    (ofConstraint c n).tag.symbols.filter Symbol.isError = [] := by
  unfold Constraint.isRequired at h
  unfold ofConstraint inequality equality
  simp only [h, if_true]
  cases c.relation <;> rfl

theorem costs_required (h : c.isRequired = true) : (ofConstraint c n).costs = [] := by
  rw [costs_eq, errors_required c n h, List.map_nil]

theorem symbols_numbered : ∀ s ∈ (ofConstraint c n).tag.symbols,
    s.isExternal = false ∧ n ≤ s.id ∧ s.id < n + (ofConstraint c n).count := by
  unfold ofConstraint inequality equality
  cases c.relation <;> cases c.strength.isRequired <;>
    simp [Tag.symbols, Symbol.isExternal, Symbol.id]

theorem costs_tagged : ∀ e ∈ (ofConstraint c n).costs, e.1 ∈ (ofConstraint c n).tag.symbols := by
  rw [costs_eq]
  intro e he
  obtain ⟨s, hs, rfl⟩ := List.mem_map.mp he
  exact (List.mem_filter.mp hs).1

theorem not_tagged {s : Symbol} (apart : s.id < n ∨ n + (ofConstraint c n).count ≤ s.id) :
    s ∉ (ofConstraint c n).tag.symbols := by
  intro tagged
  obtain ⟨-, lower, upper⟩ := symbols_numbered c n s tagged
  rcases apart with below | above
  · exact absurd lower (Nat.not_le.mpr below)
  · exact absurd upper (Nat.not_lt.mpr above)

theorem marker_numbered : (ofConstraint c n).tag.marker.isExternal = false ∧
    n ≤ (ofConstraint c n).tag.marker.id ∧
      (ofConstraint c n).tag.marker.id < n + (ofConstraint c n).count :=
  symbols_numbered c n _ List.mem_cons_self

end LinearChoice.Markers
