import LinearChoice.Proofs.Simplex.Insertion
import LinearChoice.Proofs.Simplex.Keeping

/-!
# The calls of a solver

A solver keeps a book of what it holds. Every call that comes to an end keeps
the book: an accepted constraint is entered, a removed one is struck out, and a
refusal leaves the book as it was.
-/

set_option autoImplicit false

namespace LinearChoice.Solver
open scoped Exact

structure Keeps (s : Solver ℚ) (book : Book) (base : ConstraintId → ℕ) : Prop where
  records : ∀ id, s.constraints.get? id =
    (book.get? id).map fun c => ⟨(Markers.ofConstraint c (base id)).tag, c.strength⟩
  issued : ∀ id c, book.get? id = some c → id.index < s.nextConstraint
  weights : ∀ id c, book.get? id = some c → 0 ≤ c.strength.weight
  numbered : book.Numbered base s.nextSymbol
  describes : s.tableau.Describes book base

variable {s s' : Solver ℚ} {book : Book} {base : ConstraintId → ℕ} {c : Constraint ℚ}

theorem keeps_empty (base : ConstraintId → ℕ) : (empty : Solver ℚ).Keeps Table.empty base := by
  constructor
  · exact fun _ => rfl
  · nofun
  · nofun
  · exact ⟨nofun, nofun⟩
  · constructor
    · exact ⟨nofun, nofun, nofun⟩
    · exact fun σ => ⟨fun _ => nofun, fun _ => nofun⟩
    · exact ⟨fun _ _ => rfl, Row.reduced_ofConstant 0, fun σ _ => Row.eval_ofConstant 0 σ⟩

namespace Keeps

theorem new (h : s.Keeps book base) : book.get? ⟨s.nextConstraint⟩ = none := by
  cases held : book.get? ⟨s.nextConstraint⟩ with
  | none => rfl
  | some c => exact absurd (h.issued _ c held) (lt_irrefl _)

theorem priced (h : s.Keeps book base) : Tableau.Priced (book.costs base) := by
  intro e he
  obtain ⟨id, c, held, he⟩ := Book.mem_costs he
  obtain ⟨pivotable, weight, -⟩ := Markers.costs_numbered c (base id) e he
  exact ⟨pivotable, weight ▸ h.weights id c held⟩

/-- The tableau may be rewritten and numbers may be passed over. -/
theorem rebased (h : s.Keeps book base) {t : Tableau ℚ} {n : ℕ} (hn : s.nextSymbol ≤ n)
    (hr : Tableau.Rebased (book.costs base) s.tableau t) :
    Keeps { s with tableau := t, nextSymbol := n } book base :=
  ⟨h.records, h.issued, h.weights, h.numbered.mono hn, h.describes.rebased hr⟩

theorem optimise (h : s.Keeps book base) :
    ∃ outcome s', s.optimise = (outcome, s') ∧ s'.Keeps book base ∧
      (outcome = .ok () ∨ outcome = .error (.internal .stalled)) := by
  obtain ⟨outcome, t, run, rebased, result⟩ :=
    Tableau.optimise_spec h.describes.standard h.priced h.describes.prices
  exact ⟨outcome, _, by rw [Solver.optimise, run], h.rebased (le_refl _) rebased, result⟩

/-- Nothing with a number that is yet to be given out has a price. -/
theorem costs_apart (h : s.Keeps book base) {x : Symbol} (hx : s.nextSymbol ≤ x.id) :
    ∀ e ∈ book.costs base, e.1 ≠ x := by
  rintro e he rfl
  obtain ⟨id, d, held, he⟩ := Book.mem_costs he
  obtain ⟨-, -, -, upper⟩ := Markers.costs_numbered d (base id) e he
  exact absurd (upper.trans_le (h.numbered.below id d held)) (not_lt.mpr hx)

theorem row (h : s.Keeps book base) (c : Constraint ℚ) :
    s.tableau.RowFor c s.nextSymbol (s.rowOf c (Markers.ofConstraint c s.nextSymbol)) :=
  rowOf_spec h.describes.standard (h.describes.fresh h.numbered)

theorem join_subject (h : s.Keeps book base) {x : Symbol}
    (found : (s.rowOf c (Markers.ofConstraint c s.nextSymbol)).subject?
      (Markers.ofConstraint c s.nextSymbol).tag = some x) :
    Tableau.Joined (book.costs base ++ (Markers.ofConstraint c s.nextSymbol).costs) s.tableau
      (s.rowOf c (Markers.ofConstraint c s.nextSymbol))
      ((s.tableau.addCosts (Markers.ofConstraint c s.nextSymbol).costs).enter x
        ((s.rowOf c (Markers.ofConstraint c s.nextSymbol)).solveFor x)) := by
  have hr := h.row c
  have joined := Tableau.RowFor.join_subject
    (t := s.tableau.addCosts (Markers.ofConstraint c s.nextSymbol).costs)
    ⟨hr.reduced, hr.parametric, hr.nonneg, hr.zero_iff, hr.share⟩
    (Tableau.standard_congr h.describes.standard rfl) (h.describes.fresh h.numbered)
    (h.describes.prices_addCosts h.numbered c) found
  exact ⟨joined.standard, joined.solves, joined.prices⟩

theorem onlyDummies (h : s.Keeps book base)
    (dummies : (s.rowOf c (Markers.ofConstraint c s.nextSymbol)).cells.keys.all
      Symbol.isDummy = true) :
    (s.rowOf c (Markers.ofConstraint c s.nextSymbol)).OnlyDummies := by
  intro x hx
  by_contra mentioned
  have dummy := List.all_eq_true.mp dummies x (((h.row c).reduced.mem_keys_iff x).mpr mentioned)
  simp [hx] at dummy

theorem join_dummy (h : s.Keeps book base)
    (dummies : (s.rowOf c (Markers.ofConstraint c s.nextSymbol)).cells.keys.all
      Symbol.isDummy = true)
    (zero : Scalar.nearZero (s.rowOf c (Markers.ofConstraint c s.nextSymbol)).constant = true) :
    Tableau.Joined (book.costs base) s.tableau
      (s.rowOf c (Markers.ofConstraint c s.nextSymbol))
      (s.tableau.enter (Markers.ofConstraint c s.nextSymbol).tag.marker
        ((s.rowOf c (Markers.ofConstraint c s.nextSymbol)).solveFor
          (Markers.ofConstraint c s.nextSymbol).tag.marker)) :=
  (h.row c).join_dummy h.describes.standard (h.describes.fresh h.numbered) h.describes.prices
    (h.onlyDummies dummies) ((Scalar.nearZero_iff _).mp zero)

/-- The solver and its book once the row of a constraint is in the tableau. -/
theorem recorded (h : s.Keeps book base) (weight : 0 ≤ c.strength.weight) {row : Row ℚ}
    (hr : s.tableau.RowFor c s.nextSymbol row) {t : Tableau ℚ} {n : ℕ}
    (hn : s.nextSymbol + (Markers.ofConstraint c s.nextSymbol).count ≤ n)
    (hj : Tableau.Joined (book.costs base ++ (Markers.ofConstraint c s.nextSymbol).costs)
      s.tableau row t) :
    Keeps
      { s with
        tableau := t
        nextSymbol := n
        nextConstraint := s.nextConstraint + 1
        constraints := s.constraints.insert ⟨s.nextConstraint⟩
          ⟨(Markers.ofConstraint c s.nextSymbol).tag, c.strength⟩ }
      (book.insert ⟨s.nextConstraint⟩ c)
      (Function.update base ⟨s.nextConstraint⟩ s.nextSymbol) := by
  constructor
  · intro id
    rw [Table.get?_insert, Table.get?_insert]
    split
    · next heq => rw [← heq, Option.map_some, Function.update_self]
    · next hne => rw [Function.update_of_ne (Ne.symm hne), h.records]
  · intro id d hd
    rw [Table.get?_insert] at hd
    split at hd
    · next heq => exact heq ▸ Nat.lt_succ_self _
    · exact Nat.lt_succ_of_lt (h.issued id d hd)
  · intro id d hd
    rw [Table.get?_insert] at hd
    split at hd
    · exact Option.some.inj hd ▸ weight
    · exact h.weights id d hd
  · exact (h.numbered.insert c h.new).mono hn
  · exact h.describes.insert h.new hr hj

/-- The solver and its book once a constraint is out of the tableau. -/
theorem struck (h : s.Keeps book base) {id : ConstraintId} (held : book.get? id = some c) :
    ∃ t, (s.tableau.removeCosts (Markers.ofConstraint c (base id)).tag c.strength.weight).withdraw
        (Markers.ofConstraint c (base id)).tag.marker = (.ok (), t) ∧
      Keeps { s with constraints := s.constraints.eraseSwap id, tableau := t }
        (book.eraseSwap id) base := by
  obtain ⟨t, withdrawn, describes⟩ := h.describes.withdraw h.numbered held
  refine ⟨t, withdrawn, ?_⟩
  constructor
  · intro x
    rw [Table.get?_eraseSwap, Table.get?_eraseSwap, h.records]
    split <;> rfl
  · exact fun x d hx => h.issued x d (Book.get?_erased hx).2
  · exact fun x d hx => h.weights x d (Book.get?_erased hx).2
  · exact h.numbered.erase id
  · exact describes

end Keeps

inductive Added (s : Solver ℚ) (book : Book) (base : ConstraintId → ℕ) (c : Constraint ℚ) :
    Except SolverError (ConstraintId × Tag) × Solver ℚ → Prop
  | stalled (s' : Solver ℚ) : Added s book base c (.error (.internal .stalled), s')
  | accepted (tag : Tag) (s' : Solver ℚ)
      (keeps : s'.Keeps (book.insert ⟨s.nextConstraint⟩ c)
        (Function.update base ⟨s.nextConstraint⟩ s.nextSymbol)) :
      Added s book base c (.ok (⟨s.nextConstraint⟩, tag), s')
  | refused (s' : Solver ℚ) (keeps : s'.Keeps book base) (required : c.isRequired = true)
      (never : ∀ σ : Valuation, σ.Admissible → s.tableau.Solves σ → ¬c.Meets s.nextSymbol σ) :
      Added s book base c (.error .unsatisfiable, s')

/-- The row of the constraint is in the tableau; it remains to record it and to optimise. -/
theorem added_accept (h : s.Keeps book base) (weight : 0 ≤ c.strength.weight) {row : Row ℚ}
    (hr : s.tableau.RowFor c s.nextSymbol row) {t : Tableau ℚ} {n : ℕ}
    (hn : s.nextSymbol + (Markers.ofConstraint c s.nextSymbol).count ≤ n)
    (hj : Tableau.Joined (book.costs base ++ (Markers.ofConstraint c s.nextSymbol).costs)
      s.tableau row t) :
    Added s book base c (accept { s with tableau := t, nextSymbol := n }
      (Markers.ofConstraint c s.nextSymbol).tag c.strength) := by
  obtain ⟨outcome, s', run, keeps, result⟩ := (h.recorded weight hr hn hj).optimise
  unfold accept
  rcases result with rfl | rfl
  · simp only [run]
    exact .accepted _ s' keeps
  · simp only [run]
    exact .stalled s'

theorem added_refuse (h : s.Keeps book base) (required : c.isRequired = true)
    {t : Tableau ℚ} {n : ℕ} (hn : s.nextSymbol ≤ n)
    (hr : Tableau.Rebased (book.costs base) s.tableau t)
    (never : ∀ σ : Valuation, σ.Admissible → s.tableau.Solves σ → ¬c.Meets s.nextSymbol σ) :
    Added s book base c (refuse { s with tableau := t, nextSymbol := n }) := by
  obtain ⟨outcome, s', run, keeps, result⟩ := (h.rebased hn hr).optimise
  unfold refuse
  rcases result with rfl | rfl
  · simp only [run]
    exact .refused s' keeps required never
  · simp only [run]
    exact .stalled s'

theorem added_artificial (h : s.Keeps book base) (weight : 0 ≤ c.strength.weight) {row : Row ℚ}
    (hr : s.tableau.RowFor c s.nextSymbol row) (required : c.isRequired = true)
    (hi : s.tableau.Introducible
      (.slack (s.nextSymbol + (Markers.ofConstraint c s.nextSymbol).count)) row) :
    Added s book base c (acceptWithArtificial
      { s with nextSymbol := s.nextSymbol + (Markers.ofConstraint c s.nextSymbol).count }
      row (Markers.ofConstraint c s.nextSymbol).tag c.strength) := by
  have introduced := Tableau.introduce_spec h.describes.standard hi h.describes.prices
    (h.costs_apart (Nat.le_add_right _ _))
  unfold acceptWithArtificial
  dsimp only
  generalize s.tableau.introduce _ row = answer at introduced ⊢
  cases introduced with
  | stalled t => exact .stalled _
  | joined t joined =>
    apply added_accept h weight hr (Nat.le_succ _)
    rwa [Markers.costs_required c _ required, List.append_nil]
  | refused t rebased never =>
    apply added_refuse h required (Nat.le_succ_of_le (Nat.le_add_right _ _)) rebased
    intro σ hσ solved meets
    exact never σ hσ solved ((hr.zero_iff σ solved).mpr meets)

theorem added_insert (h : s.Keeps book base) (weight : 0 ≤ c.strength.weight) :
    Added s book base c (s.insert c) := by
  have hr := h.row c
  have finite : c.isFinite = true := by simp [Constraint.isFinite, Scalar.isFinite]
  unfold insert
  rw [if_pos finite]
  dsimp only
  split
  · next subject found => exact added_accept h weight hr (le_refl _) (h.join_subject found)
  · next none =>
    have required := hr.isRequired_of_no_subject none
    rw [Markers.costs_required c _ required]
    split
    · next dummies =>
      split
      · next zero =>
        apply added_accept h weight hr (le_refl _)
        rw [Markers.costs_required c _ required, List.append_nil]
        exact h.join_dummy dummies zero
      · next nonzero =>
        have rebased : Tableau.Rebased (book.costs base) s.tableau s.tableau :=
          .refl h.describes.standard
        refine .refused _ (h.rebased (Nat.le_add_right _ _) rebased) required ?_
        intro σ hσ solved meets
        rw [← hr.zero_iff σ solved, (h.onlyDummies dummies).eval_eq hσ.zero] at meets
        exact nonzero ((Scalar.nearZero_iff _).mpr meets)
    · next proper =>
      have fresh := h.describes.fresh h.numbered
      exact added_artificial h weight hr required (hr.introducible fresh none proper)

theorem removeConstraint_spec (h : s.Keeps book base) {id : ConstraintId}
    (held : book.get? id = some c) :
    ∃ outcome s', s.removeConstraint id = (outcome, s') ∧
      s'.Keeps (book.eraseSwap id) base ∧
      (outcome = .ok () ∨ outcome = .error (.internal .stalled)) := by
  obtain ⟨t, withdrawn, struck⟩ := h.struck held
  unfold removeConstraint
  simp only [h.records, held, Option.map_some, withdrawn]
  exact struck.optimise

end LinearChoice.Solver
