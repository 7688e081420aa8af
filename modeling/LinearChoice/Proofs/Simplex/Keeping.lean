import LinearChoice.Proofs.Simplex.Insertion
import LinearChoice.Proofs.Simplex.Withdrawal

/-!
# The tableau of a book

A book tells which constraints are held. A tableau describes it when it has
exactly the solutions of the equations of these constraints and its objective
is the total price of their errors.
-/

set_option autoImplicit false

namespace LinearChoice
open scoped Exact

abbrev Book := Table ConstraintId (Constraint ℚ)

namespace Book

variable (book : Book) (base : ConstraintId → ℕ)

def costs : List (Symbol × ℚ) :=
  book.entries.flatMap fun e => (Markers.ofConstraint e.2 (base e.1)).costs

structure Numbered (n : ℕ) : Prop where
  below : ∀ id c, book.get? id = some c → base id + (Markers.ofConstraint c (base id)).count ≤ n
  apart : ∀ id id' c c', book.get? id = some c → book.get? id' = some c' → id ≠ id' →
    base id + (Markers.ofConstraint c (base id)).count ≤ base id' ∨
      base id' + (Markers.ofConstraint c' (base id')).count ≤ base id

variable {book base} {n : ℕ}

def Foreign (book : Book) (base : ConstraintId → ℕ) (s : Symbol) : Prop :=
  ∀ id c, book.get? id = some c → s ∉ (Markers.ofConstraint c (base id)).tag.symbols

theorem Numbered.foreign (h : Numbered book base n) {s : Symbol} (hs : n ≤ s.id) :
    Foreign book base s :=
  fun id c hc => Markers.not_tagged c (base id) (Or.inr ((h.below id c hc).trans hs))

/-- No two constraints have a symbol in common. -/
theorem Numbered.unshared (h : Numbered book base n) {id id' : ConstraintId} {c c' : Constraint ℚ}
    (held : book.get? id = some c) (held' : book.get? id' = some c') (hne : id ≠ id') {s : Symbol}
    (hs : s ∈ (Markers.ofConstraint c (base id)).tag.symbols) :
    s ∉ (Markers.ofConstraint c' (base id')).tag.symbols := by
  obtain ⟨-, lower, upper⟩ := Markers.symbols_numbered c (base id) s hs
  apply Markers.not_tagged
  rcases h.apart id id' c c' held held' hne with below | above
  · exact Or.inl (upper.trans_le below)
  · exact Or.inr (above.trans lower)

theorem Numbered.mono (h : Numbered book base n) {m : ℕ} (hm : n ≤ m) : Numbered book base m :=
  ⟨fun id c hc => (h.below id c hc).trans hm, h.apart⟩

theorem Numbered.insert (h : Numbered book base n) {id : ConstraintId} (c : Constraint ℚ)
    (new : book.get? id = none) :
    Numbered (book.insert id c) (Function.update base id n)
      (n + (Markers.ofConstraint c n).count) := by
  have entry (x : ConstraintId) (d : Constraint ℚ) (hx : (book.insert id c).get? x = some d) :
      (x = id ∧ d = c) ∨ (x ≠ id ∧ book.get? x = some d) := by
    rw [Table.get?_insert] at hx
    split at hx
    · next heq => exact Or.inl ⟨heq.symm, (Option.some.inj hx).symm⟩
    · next hne => exact Or.inr ⟨Ne.symm hne, hx⟩
  constructor
  · intro x d hx
    rcases entry x d hx with ⟨rfl, rfl⟩ | ⟨hne, hx⟩
    · rw [Function.update_self]
    · rw [Function.update_of_ne hne]
      exact (h.below x d hx).trans (Nat.le_add_right _ _)
  · intro x y d d' hx hy hxy
    rcases entry x d hx with ⟨hxi, -⟩ | ⟨hxi, hx⟩
    · rcases entry y d' hy with ⟨hyi, -⟩ | ⟨hyi, hy⟩
      · exact absurd (hxi.trans hyi.symm) hxy
      · right
        rw [hxi, Function.update_self, Function.update_of_ne hyi]
        exact h.below y d' hy
    · rcases entry y d' hy with ⟨hyi, -⟩ | ⟨hyi, hy⟩
      · left
        rw [hyi, Function.update_self, Function.update_of_ne hxi]
        exact h.below x d hx
      · rw [Function.update_of_ne hxi, Function.update_of_ne hyi]
        exact h.apart x y d d' hx hy hxy

theorem get?_erased {id x : ConstraintId} {d : Constraint ℚ}
    (hx : (book.eraseSwap id).get? x = some d) : id ≠ x ∧ book.get? x = some d := by
  rw [Table.get?_eraseSwap] at hx
  split at hx
  · contradiction
  · next hne => exact ⟨hne, hx⟩

theorem Numbered.erase (h : Numbered book base n) (id : ConstraintId) :
    Numbered (book.eraseSwap id) base n := by
  constructor
  · exact fun x d hx => h.below x d (get?_erased hx).2
  · exact fun x y d d' hx hy => h.apart x y d d' (get?_erased hx).2 (get?_erased hy).2

theorem mem_costs {e : Symbol × ℚ} (he : e ∈ costs book base) :
    ∃ id c, book.get? id = some c ∧ e ∈ (Markers.ofConstraint c (base id)).costs := by
  obtain ⟨x, hx, he⟩ := List.mem_flatMap.mp he
  exact ⟨x.1, x.2, (book.get?_eq_some_iff x.1 x.2).mpr hx, he⟩

theorem costs_insert {id : ConstraintId} (c : Constraint ℚ) (new : book.get? id = none) :
    costs (book.insert id c) (Function.update base id n) =
      costs book base ++ (Markers.ofConstraint c n).costs := by
  rw [costs, costs, Table.entries_insert_new _ _ _ new, List.flatMap_append]
  congr 1
  · apply List.flatMap_congr
    intro e he
    have hne : e.1 ≠ id := by
      rintro rfl
      rw [(book.get?_eq_some_iff e.1 e.2).mpr he] at new
      contradiction
    rw [Function.update_of_ne hne]
  · simp

theorem costs_erase {id : ConstraintId} {c : Constraint ℚ} (held : book.get? id = some c)
    (σ : Valuation) :
    weigh σ (costs book base) =
      weigh σ ((Markers.ofConstraint c (base id)).costs ++ costs (book.eraseSwap id) base) :=
  weigh_perm σ ((book.entries_perm_eraseSwap id c held).flatMap_right _)

end Book

namespace Tableau

/-- The tableau of the constraints in a book. -/
structure Describes (t : Tableau ℚ) (book : Book) (base : ConstraintId → ℕ) : Prop where
  standard : t.Standard
  solves : ∀ σ, t.Solves σ ↔ ∀ id c, book.get? id = some c → c.Meets (base id) σ
  prices : t.Prices (book.costs base) t.objective

variable {t t' : Tableau ℚ} {book : Book} {base : ConstraintId → ℕ} {n : ℕ}

/-- Whatever is said of the rows does not depend on the objective. -/
theorem standard_congr (h : t.Standard) (rows : t'.rows = t.rows) : t'.Standard := by
  cases t
  cases t'
  cases rows
  exact ⟨h.parametric, h.reduced, h.admits⟩

theorem solves_congr (rows : t'.rows = t.rows) (σ : Valuation) : t'.Solves σ ↔ t.Solves σ := by
  rw [Solves, Solves, rows]

theorem absent_congr (rows : t'.rows = t.rows) (s : Symbol) : t'.Absent s ↔ t.Absent s := by
  rw [Absent, Absent, rows]

theorem Prices.congr {goal : Row ℚ} {costs costs' : List (Symbol × ℚ)} (hg : t.Prices costs goal)
    (same : ∀ σ, weigh σ costs = weigh σ costs') : t.Prices costs' goal :=
  ⟨hg.parametric, hg.reduced, fun σ hσ => (hg.value σ hσ).trans (same σ)⟩

theorem Describes.rebased (h : t.Describes book base) (hr : Rebased (book.costs base) t t') :
    t'.Describes book base :=
  ⟨hr.standard, fun σ => (hr.solves σ).trans (h.solves σ), hr.prices h.prices⟩

theorem Describes.absent (h : t.Describes book base) {s : Symbol} (hs : s.isExternal = false)
    (foreign : book.Foreign base s) : t.Absent s := by
  apply h.standard.absent_of_free
  intro σ x hσ
  rw [h.solves] at hσ ⊢
  intro id c hc
  exact (c.meets_update (base id) hs (foreign id c hc) σ x).mpr (hσ id c hc)

theorem Describes.fresh (h : t.Describes book base) (hn : book.Numbered base n) :
    t.FreshFrom n :=
  fun _ hs hi => h.absent hs (hn.foreign hi)

theorem Describes.insert (h : t.Describes book base) {row : Row ℚ} {c : Constraint ℚ}
    {id : ConstraintId} (new : book.get? id = none) (hr : t.RowFor c n row)
    (hj : Joined (book.costs base ++ (Markers.ofConstraint c n).costs) t row t') :
    t'.Describes (book.insert id c) (Function.update base id n) := by
  refine ⟨hj.standard, fun σ => ?_, by rw [Book.costs_insert c new]; exact hj.prices⟩
  rw [hj.solves]
  constructor
  · rintro ⟨hσ, zero⟩ x d hx
    rw [Table.get?_insert] at hx
    split at hx
    · next heq =>
      cases hx
      rw [← heq, Function.update_self]
      exact (hr.zero_iff σ hσ).mp zero
    · next hne =>
      rw [Function.update_of_ne (Ne.symm hne)]
      exact (h.solves σ).mp hσ x d hx
  · intro all
    have old : t.Solves σ := by
      rw [h.solves]
      intro x d hx
      have hne : id ≠ x := fun heq => by simp [← heq, new] at hx
      have meets := all x d (by rw [Table.get?_insert, if_neg hne, hx])
      rwa [Function.update_of_ne (Ne.symm hne)] at meets
    have meets := all id c (by rw [Table.get?_insert, if_pos rfl])
    rw [Function.update_self] at meets
    exact ⟨old, (hr.zero_iff σ old).mpr meets⟩

theorem Describes.prices_addCosts (h : t.Describes book base) (hn : book.Numbered base n)
    (c : Constraint ℚ) :
    (t.addCosts (Markers.ofConstraint c n).costs).Prices
      (book.costs base ++ (Markers.ofConstraint c n).costs)
      (t.addCosts (Markers.ofConstraint c n).costs).objective := by
  refine ⟨fun s hs => ?_, h.prices.reduced.addCells _, fun σ hσ => ?_⟩
  · have apart : ∀ e ∈ (Markers.ofConstraint c n).costs, (Pi.single s 1 : Valuation) e.1 = 0 := by
      intro e he
      obtain ⟨hp, -, numbered, -⟩ := Markers.costs_numbered c n e he
      apply Pi.single_eq_of_ne
      rintro rfl
      exact hs (h.fresh hn _ (Symbol.not_external_of_pivotable hp) numbered).1
    change (t.objective.addCells _).coefficient s = 0
    rw [Row.coefficient_addCells, h.prices.parametric s hs,
      weigh_congr (τ := 0) _ fun e he _ => apart e he]
    simp [weigh]
  · change (t.objective.addCells _).eval σ = _
    rw [Row.eval_addCells, h.prices.value σ hσ, weigh_append]

/-- A marker appears in no equation but its own, which it solves for any values of the rest. -/
theorem Describes.erase (h : t.Describes book base) (hn : book.Numbered base n)
    {id : ConstraintId} {c : Constraint ℚ} (held : book.get? id = some c)
    (hw : Withdrawn t (Markers.ofConstraint c (base id)).tag.marker
      (Book.costs (book.eraseSwap id) base) t') :
    t'.Describes (book.eraseSwap id) base := by
  refine ⟨hw.standard, fun σ => ?_, hw.prices⟩
  have inside := (Markers.marker_numbered c (base id)).1
  have others (x : ConstraintId) (d : Constraint ℚ) (hx : book.get? x = some d) (hne : id ≠ x)
      (y : ℚ) : d.Meets (base x)
        (Function.update σ (Markers.ofConstraint c (base id)).tag.marker y) ↔
      d.Meets (base x) σ :=
    d.meets_update (base x) inside (hn.unshared held hx hne List.mem_cons_self) σ y
  rw [hw.solves]
  constructor
  · rintro ⟨y, hy⟩ x d hx
    obtain ⟨hne, hx⟩ := Book.get?_erased hx
    exact (others x d hx hne y).mp ((h.solves _).mp hy x d hx)
  · intro all
    obtain ⟨y, hy, -⟩ := c.meets_update_marker (base id) σ
    refine ⟨y, (h.solves _).mpr fun x d hx => ?_⟩
    by_cases heq : id = x
    · subst heq
      rw [held] at hx
      cases hx
      exact hy
    · exact (others x d hx heq y).mpr (all x d (by rw [Table.get?_eraseSwap, if_neg heq, hx]))

/-- The equation of a held constraint ties its marker down. -/
theorem Describes.marker_bound (h : t.Describes book base) {id : ConstraintId} {c : Constraint ℚ}
    (held : book.get? id = some c) : ¬t.Absent (Markers.ofConstraint c (base id)).tag.marker := by
  intro absent
  obtain ⟨x, -, unique⟩ := c.meets_update_marker (base id) (t.point 0)
  have any (y : ℚ) : y = x := by
    apply unique
    exact (h.solves _).mp ((absent.solves_update _ y).mpr (h.standard.solves_point 0)) id c held
  have := (any 0).trans (any 1).symm
  norm_num at this

def unprice (price : ℚ) (t : Tableau ℚ) (s : Symbol) : Tableau ℚ :=
  { t with
    objective :=
      match t.rows.get? s with
      | some row => t.objective.addScaled row (-price)
      | none => t.objective.addCell s (-price) }

theorem removeCosts_eq (t : Tableau ℚ) (tag : Tag) (price : ℚ) :
    t.removeCosts tag price = (tag.symbols.filter Symbol.isError).foldl (unprice price) t := by
  unfold removeCosts
  congr 1
  funext t s
  unfold unprice
  cases t.rows.get? s <;> rfl

theorem prices_unprice (h : t.Standard) {costs : List (Symbol × ℚ)}
    (ho : t.Prices costs t.objective) (price : ℚ) (s : Symbol) :
    (unprice price t s).Prices (costs ++ [(s, -price)]) (unprice price t s).objective := by
  have value (σ : Valuation) : weigh σ (costs ++ [(s, -price)]) = weigh σ costs - price * σ s := by
    rw [weigh_append, weigh_cons, weigh_nil]
    ring
  unfold unprice
  cases hb : t.rows.get? s with
  | some row =>
    refine ⟨fun x hx => ?_, ho.reduced.addScaled _ _, fun σ hσ => ?_⟩
    · change (t.objective.addScaled row (-price)).coefficient x = 0
      rw [Row.coefficient_addScaled, ho.parametric x hx, h.parametric s row hb x hx]
      ring
    · have shown : σ s = row.eval σ := hσ s row hb
      rw [Row.eval_addScaled, ho.value σ hσ, value, shown]
      ring
  | none =>
    refine ⟨fun x hx => ?_, ho.reduced.addCell _ _, fun σ hσ => ?_⟩
    · have hne : x ≠ s := fun heq => hx (heq ▸ hb)
      change (t.objective.addCell s (-price)).coefficient x = 0
      rw [Row.coefficient_addCell, ho.parametric x hx, if_neg hne, add_zero]
    · rw [Row.eval_addCell, ho.value σ hσ, value]
      ring

/-- Prices are taken out one by one. The rows are not touched. -/
theorem prices_unprice_foldl (l : List Symbol) (h : t.Standard) {costs : List (Symbol × ℚ)}
    (ho : t.Prices costs t.objective) (price : ℚ) :
    (l.foldl (unprice price) t).rows = t.rows ∧
      (l.foldl (unprice price) t).Prices (costs ++ l.map fun s => (s, -price))
        (l.foldl (unprice price) t).objective := by
  induction l generalizing t costs with
  | nil => exact ⟨rfl, by simpa using ho⟩
  | cons s l ih =>
    have standard : (unprice price t s).Standard := ⟨h.parametric, h.reduced, h.admits⟩
    obtain ⟨rows, prices⟩ := ih standard (prices_unprice h ho price s)
    refine ⟨rows, ?_⟩
    rwa [List.append_assoc, List.singleton_append] at prices

theorem weigh_negated (σ : Valuation) (l : List Symbol) (price : ℚ) :
    weigh σ (l.map fun s => (s, -price)) = -weigh σ (l.map fun s => (s, price)) := by
  have scaled := weigh_scaled σ (l.map fun s => (s, price)) (-1)
  simpa [List.map_map, Function.comp_def] using scaled

/-- What is left of the prices is those of the other constraints. -/
theorem Describes.prices_removeCosts (h : t.Describes book base) {id : ConstraintId}
    {c : Constraint ℚ} (held : book.get? id = some c) :
    (t.removeCosts (Markers.ofConstraint c (base id)).tag c.strength.weight).rows = t.rows ∧
      (t.removeCosts (Markers.ofConstraint c (base id)).tag c.strength.weight).Prices
        (Book.costs (book.eraseSwap id) base)
        (t.removeCosts (Markers.ofConstraint c (base id)).tag c.strength.weight).objective := by
  rw [removeCosts_eq]
  obtain ⟨rows, prices⟩ := prices_unprice_foldl
    ((Markers.ofConstraint c (base id)).tag.symbols.filter Symbol.isError) h.standard h.prices
    c.strength.weight
  refine ⟨rows, prices.congr fun σ => ?_⟩
  rw [weigh_append, Book.costs_erase held, weigh_append, Markers.costs_eq, weigh_negated]
  ring

theorem Describes.withdraw (h : t.Describes book base) (hn : book.Numbered base n)
    {id : ConstraintId} {c : Constraint ℚ} (held : book.get? id = some c) :
    ∃ t', (t.removeCosts (Markers.ofConstraint c (base id)).tag c.strength.weight).withdraw
        (Markers.ofConstraint c (base id)).tag.marker = (.ok (), t') ∧
      t'.Describes (book.eraseSwap id) base := by
  obtain ⟨rows, prices⟩ := h.prices_removeCosts held
  have apart : ∀ e ∈ Book.costs (book.eraseSwap id) base,
      e.1 ≠ (Markers.ofConstraint c (base id)).tag.marker := by
    intro e he heq
    obtain ⟨x, d, hx, he⟩ := Book.mem_costs he
    obtain ⟨hne, hx⟩ := Book.get?_erased hx
    exact hn.unshared held hx hne List.mem_cons_self
      (heq ▸ Markers.costs_tagged d (base x) e he)
  have bound := h.marker_bound held
  rw [← absent_congr rows] at bound
  obtain ⟨t', run, withdrawn⟩ := withdraw_spec (standard_congr h.standard rows) prices apart bound
  refine ⟨t', run, h.erase hn held ⟨withdrawn.standard, fun σ => ?_, withdrawn.prices⟩⟩
  simp only [withdrawn.solves, solves_congr rows]

end Tableau

end LinearChoice
