import LinearChoice.Simplex.Primal
import LinearChoice.Table.Lemmas

/-!
# Looking up in tableaux

What every operation on a tableau does to the row of a symbol.
-/

set_option autoImplicit false

namespace LinearChoice.Tableau

variable {α : Type} [Scalar α] (t : Tableau α) (s x : Symbol) (row : Row α)

omit [Scalar α] in
theorem get?_attach : (t.attach s row).rows.get? x = if s = x then some row else t.rows.get? x :=
  t.rows.get?_insert s x row

omit [Scalar α] in
theorem get?_detach : (t.detach s).rows.get? x = if s = x then none else t.rows.get? x :=
  t.rows.get?_eraseSwap s x

variable {t s row} in
omit [Scalar α] in
theorem detach_attach (new : t.rows.get? s = none) : (t.attach s row).detach s = t :=
  congrArg (Tableau.mk · t.objective) (t.rows.eraseSwap_insert s row new)

theorem get?_substitute :
    (t.substitute s row).rows.get? x = (t.rows.get? x).map fun r => r.substitute s row :=
  t.rows.get?_mapValues _ x

omit [Scalar α] in
theorem get?_drop : (t.drop s).rows.get? x = (t.rows.get? x).map fun r => r.erase s :=
  t.rows.get?_mapValues _ x

theorem get?_enter :
    (t.enter s row).rows.get? x =
      if s = x then some row else (t.rows.get? x).map fun r => r.substitute s row := by
  rw [enter, get?_attach, get?_substitute]

theorem get?_pivot (leaving entering : Symbol) :
    (t.pivot leaving row entering).rows.get? x =
      if entering = x then some (row.exchange leaving entering)
      else if leaving = x then none
      else (t.rows.get? x).map fun r => r.substitute entering (row.exchange leaving entering) := by
  rw [pivot, get?_enter, get?_detach]
  split
  · rfl
  · split <;> rfl

end LinearChoice.Tableau
