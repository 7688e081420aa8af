import LinearChoice.Proofs.Simplex.Session
import LinearChoice.Proofs.Simplex.Target

/-!
# Edit variables and their constraints

The constraint of an edit variable is a constraint like others, which the client
may remove by its number. While it is held it asks for the value suggested last.
Once it is gone its symbols are out of use.
-/

set_option autoImplicit false

namespace LinearChoice
open scoped Exact

namespace Constraint

def suggesting (v : Variable) (strength : Strength ℚ) (x : ℚ) : Constraint ℚ :=
  offset ⟨Expression.ofVariable v, .equal, strength⟩ (-x)

variable (v : Variable) (strength : Strength ℚ) (x : ℚ)

theorem suggesting_zero :
    suggesting v strength 0 = ⟨Expression.ofVariable v, .equal, strength⟩ := by
  simp [suggesting, offset, Expression.offset]

theorem suggesting_offset (y : ℚ) :
    (suggesting v strength x).offset (-(y - x)) = suggesting v strength y := by
  rw [suggesting, offset_offset, suggesting]
  congr 1
  ring

theorem support_suggesting : (suggesting v strength x).support = [v] := by
  have one : Scalar.nearZero (1 : ℚ) = false := by
    rw [← Bool.not_eq_true, Scalar.nearZero_iff]
    exact one_ne_zero
  have total : (Expression.ofConstant (0 : ℚ)).coefficient v + 1 = 1 := by
    simp [Expression.coefficient, Expression.ofConstant, Table.get?, Table.empty, Table.lookup]
  change (Expression.ofVariable v : Expression ℚ).support = [v]
  unfold Expression.ofVariable Expression.ofTerm Expression.addTerm
  simp only [one, total]
  rfl

/-- A variable's own edit constraint is no other variable's. -/
theorem eq_of_suggesting {v v' : Variable} {strength strength' : Strength ℚ} {x x' : ℚ}
    (same : suggesting v strength x = suggesting v' strength' x') : v = v' := by
  have support := congrArg support same
  rw [support_suggesting, support_suggesting] at support
  exact List.head_eq_of_cons_eq support

end Constraint

theorem Symbol.isPivotable_of_isError {s : Symbol} (h : s.isError = true) :
    s.isPivotable = true := by
  cases s with
  | error i => rfl
  | external v | slack i | dummy i => contradiction

namespace Markers

variable {c : Constraint ℚ} {n : ℕ}

/-- The symbols of an optional equality are errors, one for each side of the target. -/
theorem share_errors (equality : c.relation = .equal) (optional : c.isRequired = false) :
    (∀ s ∈ (ofConstraint c n).tag.symbols, s.isError = true) ∧
      share c n (ofConstraint c n).tag.marker = -1 ∧
      ∀ s, (ofConstraint c n).tag.other = some s → share c n s = 1 := by
  unfold share
  rw [ofConstraint_eq, equality, optional]
  simp [Tag.symbols, Symbol.isError]

end Markers

namespace Book

variable {book : Book} {base : ConstraintId → ℕ} {n : ℕ} {id : ConstraintId} {c : Constraint ℚ}
variable {s : Symbol}

theorem satisfied_offset (optional : c.isRequired = false) (x : ℚ)
    {v : Variable → ℚ} (hv : book.Satisfied v) : Satisfied (book.insert id (c.offset x)) v := by
  intro y d hy required
  rcases get?_offset x hy with ⟨rfl, rfl⟩ | ⟨-, hy⟩
  · rw [show (c.offset x).isRequired = c.isRequired from rfl, optional] at required
    contradiction
  · exact hv y d hy required

theorem Foreign.insert (h : book.Foreign base s) (id : ConstraintId) (c : Constraint ℚ)
    (hs : s.id < n) : Foreign (book.insert id c) (Function.update base id n) s := by
  intro y d hy
  rw [Table.get?_insert] at hy
  split at hy
  · next heq =>
    rw [← heq, Function.update_self]
    exact Markers.not_tagged d n (Or.inl hs)
  · next hne =>
    rw [Function.update_of_ne (Ne.symm hne)]
    exact h y d hy

theorem Foreign.erase (h : book.Foreign base s) (id : ConstraintId) :
    Foreign (book.eraseSwap id) base s :=
  fun y d hy => h y d (get?_erased hy).2

theorem Foreign.offset (h : book.Foreign base s) (held : book.get? id = some c) (x : ℚ) :
    Foreign (book.insert id (c.offset x)) base s := by
  intro y d hy
  rcases get?_offset x hy with ⟨rfl, rfl⟩ | ⟨-, hy⟩
  · exact h id c held
  · exact h y d hy

end Book

namespace Edit

structure Stands (book : Book) (base : ConstraintId → ℕ) (v : Variable) (edit : Edit ℚ) : Prop where
  held : ∃ strength, book.get? edit.constraint = some (.suggesting v strength edit.suggested) ∧
    Strength.isRequired strength = false ∧
    edit.tag = (Markers.ofConstraint (.suggesting v strength edit.suggested)
      (base edit.constraint)).tag

structure Orphaned (nextConstraint nextSymbol : ℕ) (book : Book) (base : ConstraintId → ℕ)
    (edit : Edit ℚ) : Prop where
  gone : book.get? edit.constraint = none
  issued : edit.constraint.index < nextConstraint
  errors : ∀ x ∈ edit.tag.symbols, x.isError = true
  passed : ∀ x ∈ edit.tag.symbols, x.id < nextSymbol
  unused : ∀ x ∈ edit.tag.symbols, book.Foreign base x

variable {m n m' n' : ℕ} {book : Book} {base : ConstraintId → ℕ} {id : ConstraintId}
variable {c : Constraint ℚ} {v : Variable} {edit : Edit ℚ}

theorem Stands.insert (h : edit.Stands book base v) (new : book.get? id = none) (c : Constraint ℚ)
    (n : ℕ) : edit.Stands (book.insert id c) (Function.update base id n) v := by
  obtain ⟨strength, held, optional, tag⟩ := h.held
  have hne : id ≠ edit.constraint := by
    rintro rfl
    rw [new] at held
    contradiction
  refine ⟨strength, ?_, optional, ?_⟩
  · rw [Table.get?_insert, if_neg hne, held]
  · rw [Function.update_of_ne (Ne.symm hne), tag]

theorem Stands.erase (h : edit.Stands book base v) (hne : id ≠ edit.constraint) :
    edit.Stands (book.eraseSwap id) base v := by
  obtain ⟨strength, held, rest⟩ := h.held
  exact ⟨strength, by rw [Table.get?_eraseSwap, if_neg hne, held], rest⟩

/-- A suggestion for one variable leaves the constraints of the others as they are. -/
theorem Stands.offset (h : edit.Stands book base v) (hne : id ≠ edit.constraint) (x : ℚ) :
    edit.Stands (book.insert id (c.offset x)) base v := by
  obtain ⟨strength, held, rest⟩ := h.held
  exact ⟨strength, by rw [Table.get?_insert, if_neg hne, held], rest⟩

theorem Stands.orphaned (h : edit.Stands book base v) {s : Solver ℚ} (keeps : s.Keeps book base) :
    edit.Orphaned s.nextConstraint s.nextSymbol (book.eraseSwap edit.constraint) base := by
  obtain ⟨strength, held, optional, tag⟩ := h.held
  obtain ⟨errors, -⟩ := Markers.share_errors (n := base edit.constraint)
    (c := .suggesting v strength edit.suggested) rfl optional
  rw [← tag] at errors
  constructor
  · rw [Table.get?_eraseSwap, if_pos rfl]
  · exact keeps.issued _ _ held
  · exact errors
  · intro x hx
    rw [tag] at hx
    exact (Markers.symbols_numbered _ _ x hx).2.2.trans_le (keeps.numbered.below _ _ held)
  · intro x hx id c hc
    rw [tag] at hx
    obtain ⟨hne, hc⟩ := Book.get?_erased hc
    exact keeps.numbered.unshared held hc hne hx

/-- What is out of use stays so while the numbers go on and no constraint takes them up. -/
theorem Orphaned.moved (h : edit.Orphaned m n book base) {book' : Book}
    {base' : ConstraintId → ℕ} (gone : book'.get? edit.constraint = none) (issued : m ≤ m')
    (passed : n ≤ n') (unused : ∀ x, x.id < n → book.Foreign base x → book'.Foreign base' x) :
    edit.Orphaned m' n' book' base' :=
  ⟨gone, h.issued.trans_le issued, h.errors, fun x hx => (h.passed x hx).trans_le passed,
    fun x hx => unused x (h.passed x hx) (h.unused x hx)⟩

theorem Orphaned.insert (h : edit.Orphaned m n book base) (c : Constraint ℚ) (passed : n ≤ n') :
    edit.Orphaned (m + 1) n' (book.insert ⟨m⟩ c) (Function.update base ⟨m⟩ n) := by
  refine h.moved ?_ (Nat.le_succ _) passed fun x hx foreign => foreign.insert _ c hx
  have hne : (⟨m⟩ : ConstraintId) ≠ edit.constraint := by
    intro same
    have issued := h.issued
    rw [← same] at issued
    exact absurd issued (lt_irrefl _)
  rw [Table.get?_insert, if_neg hne, h.gone]

theorem Orphaned.erase (h : edit.Orphaned m n book base) (id : ConstraintId) :
    edit.Orphaned m n (book.eraseSwap id) base := by
  refine h.moved ?_ (le_refl _) (le_refl _) fun x _ foreign => foreign.erase id
  rw [Table.get?_eraseSwap, h.gone, ite_self]

theorem Orphaned.offset (h : edit.Orphaned m n book base) (held : book.get? id = some c) (x : ℚ) :
    edit.Orphaned m n (book.insert id (c.offset x)) base := by
  refine h.moved ?_ (le_refl _) (le_refl _) fun y _ foreign => foreign.offset held x
  have hne : id ≠ edit.constraint := by
    rintro rfl
    rw [h.gone] at held
    contradiction
  rw [Table.get?_insert, if_neg hne, h.gone]

end Edit

end LinearChoice
