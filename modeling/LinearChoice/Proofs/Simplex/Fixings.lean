import LinearChoice.Proofs.Simplex.Outcomes
import LinearChoice.Proofs.Simplex.Raised

/-!
# Giving values to variables

The required equation of a variable and a number, added in floating point. The
first one for a variable makes it basic, and a further one is judged by how far it
is from the first. Either way a row is added and no other row is written, so that
what is rounded is the new constant alone.
-/

set_option autoImplicit false

namespace LinearChoice

theorem Table.eraseSwap_first {κ ν : Type} [DecidableEq κ] {k k' : κ} (apart : k ≠ k') (x y : ν) :
    ((empty.insert k x).insert k' y).eraseSwap k = empty.insert k' y :=
  Table.ext (by simp [insert, empty, eraseSwap, place, swapOut, lastToFront, apart])

namespace Constraint

def fixing (v : Variable) (a : Float) : Constraint Float :=
  ⟨⟨a, Table.empty.insert v 1⟩, .equal, Strength.required⟩

theorem relate_ofVariable (v : Variable) (k : Float) :
    relate (.ofVariable v) .equal k = fixing v (0 - k) := by
  have apart : Scalar.nearZero (1 : Float) = false := by decide
  have one : (0 : Float) + 1 = 1 := by decide
  simp [relate, fixing, Expression.ofVariable, Expression.ofTerm, Expression.addTerm,
    Expression.ofConstant, Expression.coefficient, one, apart]

theorem isRequired_fixing (v : Variable) (a : Float) : (fixing v a).isRequired = true := by
  change Strength.isRequired (Strength.required : Strength Float) = true
  decide +kernel

def Fixing (c : Constraint Float) : Prop :=
  c.isFinite = true ∧ ∃ v k, c = .relate (.ofVariable v) .equal k

end Constraint

open Constraint (fixing Fixing)

theorem Markers.ofConstraint_fixing (v : Variable) (a : Float) (n : Nat) :
    ofConstraint (fixing v a) n = ⟨⟨.dummy n, none⟩, [(.dummy n, 1)], [], 1⟩ :=
  if_pos (Constraint.isRequired_fixing v a)

namespace Row

def single (x : Symbol) (p a : Float) : Row Float := ⟨a, Table.empty.insert x p⟩

def pair (x y : Symbol) (p q a : Float) : Row Float := ⟨a, (Table.empty.insert x p).insert y q⟩

theorem addCell_new {r : Row Float} {s : Symbol} (new : r.cells.get? s = none) {c : Float}
    (exact : 0 + c = c) (apart : Scalar.nearZero c = false) :
    r.addCell s c = { r with cells := r.cells.insert s c } := by
  rw [addCell, coefficient, new, Option.getD_none, exact, apart]
  rfl

section Pair

variable {x y : Symbol} (apart : x ≠ y) (p q a : Float)

theorem oriented_pair :
    (pair x y p q a).oriented = if a < 0 then pair x y (-p) (-q) (-a) else pair x y p q a := by
  have negate : (pair x y p q a).negate = pair x y (-p) (-q) (-a) := by
    apply congrArg (Row.mk (-a))
    change ((Table.empty.insert x p).insert y q).mapValues _ = _
    rw [Table.mapValues_insert]
    rfl
  rw [oriented, negate]
  rfl

theorem constant_oriented (r : Row Float) : r.oriented.constant = Scalar.magnitude r.constant := by
  unfold oriented Scalar.magnitude
  split <;> rfl

include apart

theorem solveFor_first :
    (pair x y p q a).solveFor x = single y (q * (-1 / p)) (a * (-1 / p)) := by
  have cell : (pair x y p q a).cells.get? x = some p := by
    rw [pair, Table.get?_insert, if_neg apart.symm, Table.get?_insert, if_pos rfl]
  have left : (pair x y p q a).cells.eraseSwap x = Table.empty.insert y q :=
    Table.eraseSwap_first apart p q
  rw [solveFor, cell]
  dsimp only
  rw [left]
  rfl

theorem solveFor_second :
    (pair x y p q a).solveFor y = single x (p * (-1 / q)) (a * (-1 / q)) := by
  have cell : (pair x y p q a).cells.get? y = some q := by
    rw [pair, Table.get?_insert, if_pos rfl]
  have left : (pair x y p q a).cells.eraseSwap y = Table.empty.insert x p := by
    apply Table.eraseSwap_insert
    rw [Table.get?_insert, if_neg apart, Table.get?_empty]
  rw [solveFor, cell]
  dsimp only
  rw [left]
  rfl

theorem keys_oriented : (pair x y p q a).oriented.cells.keys = [x, y] := by
  have keys (p q a : Float) : (pair x y p q a).cells.keys = [x, y] := by
    have other : y ∉ (Table.empty.insert x p).keys := by
      change y ∉ [x]
      simpa using apart.symm
    rw [pair, Table.keys_insert, if_neg other]
    rfl
  rw [oriented_pair]
  split
  · exact keys _ _ _
  · exact keys _ _ _

end Pair

def solution (a : Float) : Float := if a < 0 then -a * (-1 / -1) else a * (-1 / 1)

theorem solve_free (v : Variable) (n : Nat) (a : Float) :
    (pair (.external v) (.dummy n) 1 1 a).oriented.solveFor (.external v) =
      single (.dummy n) (-1) (solution a) := by
  have up : (1 : Float) * (-1 / 1) = -1 := by decide
  have down : (-1 : Float) * (-1 / -1) = -1 := by decide
  have other : Symbol.external v ≠ .dummy n := nofun
  rw [oriented_pair, solution]
  split
  · rw [solveFor_first other, down]
  · rw [solveFor_first other, up]

theorem solve_given {m n : Nat} (apart : m ≠ n) (a : Float) :
    (pair (.dummy m) (.dummy n) (-1) 1 a).oriented.solveFor (.dummy n) =
      single (.dummy m) 1 (solution a) := by
  have up : (-1 : Float) * (-1 / 1) = 1 := by decide
  have down : -(-1 : Float) * (-1 / -1) = 1 := by decide
  have other : Symbol.dummy m ≠ .dummy n := fun same => apart (Symbol.dummy.inj same)
  rw [oriented_pair, solution]
  split
  · rw [solveFor_second other, down]
  · rw [solveFor_second other, up]

end Row

open Row (single pair solution)

namespace Tableau

variable {α : Type} [Scalar α]

section Absent

variable {t : Tableau α} {x : Symbol} (row : Row α) (unpriced : t.Unpriced)
  (absent : ∀ y r, t.rows.get? y = some r → r.cells.get? x = none)

include unpriced absent

theorem substitute_absent : t.substitute x row = t := by
  have rows : (t.rows.mapValues fun _ r => r.substitute x row) = t.rows := by
    apply Table.mapValues_eq_self
    intro y r hy
    rw [Row.substitute, absent y r hy]
  have objective : t.objective.substitute x row = t.objective := by
    rw [Row.substitute, unpriced, Table.get?_empty]
  rw [substitute, rows, objective]

/-- A symbol that no row mentions enters with a row of its own. -/
theorem enter_absent : t.enter x row = t.attach x row := by
  rw [enter, substitute_absent row unpriced absent]

end Absent

theorem express_free {t : Tableau Float} {v : Variable} (free : t.rows.get? (.external v) = none)
    (a : Float) : t.express (fixing v a).expression = single (.external v) 1 a := by
  unfold express
  change List.foldl _ (Row.ofConstant a) [(v, 1)] = _
  rw [List.foldl_cons, List.foldl_nil, free]
  change (Row.ofConstant a).addCell (.external v) 1 = _
  exact Row.addCell_new rfl (by decide) (by decide)

theorem express_given {t : Tableau Float} {v : Variable} {m : Nat} {x : Float}
    (own : t.rows.get? (.external v) = some (single (.dummy m) (-1) x)) (a : Float) :
    t.express (fixing v a).expression = single (.dummy m) (-1) (a + x * 1) := by
  have product : (-1 : Float) * 1 = -1 := by decide
  unfold express
  change List.foldl _ (Row.ofConstant a) [(v, 1)] = _
  rw [List.foldl_cons, List.foldl_nil, own]
  change ((Row.ofConstant a).shift (x * 1)).addCell (.dummy m) (-1 * 1) = _
  rw [product]
  exact Row.addCell_new rfl (by decide) (by decide)

end Tableau

namespace Solver

section Insert

variable {α : Type} [Scalar α] {s : Solver α} {c : Constraint α}

theorem accept_unpriced (unpriced : s.tableau.Unpriced) (tag : Tag) (strength : Strength α) :
    s.accept tag strength = (.ok (⟨s.nextConstraint⟩, tag), { s with
      nextConstraint := s.nextConstraint + 1
      constraints := s.constraints.insert ⟨s.nextConstraint⟩ ⟨tag, strength⟩ }) := by
  unfold accept optimise
  dsimp only
  rw [unpriced.optimise]

variable (fin : c.isFinite = true) (required : c.isRequired = true)
  (unpriced : s.tableau.Unpriced)

include fin required unpriced

/-- Where nothing has a price an addition makes no pivot unless it needs an artificial symbol. -/
theorem insert_subject {x : Symbol}
    (subject : (s.rowOf c (Markers.ofConstraint c s.nextSymbol)).subject?
      (Markers.ofConstraint c s.nextSymbol).tag = some x) :
    s.insert c = (.ok (⟨s.nextConstraint⟩, (Markers.ofConstraint c s.nextSymbol).tag),
      s.record c
        (s.tableau.enter x ((s.rowOf c (Markers.ofConstraint c s.nextSymbol)).solveFor x))
        (s.nextSymbol + (Markers.ofConstraint c s.nextSymbol).count)) := by
  unfold insert
  rw [if_pos fin]
  dsimp only
  rw [subject, Markers.costs_required c _ required]
  exact accept_unpriced (unpriced.enter x _) _ _

theorem insert_sight
    (none : (s.rowOf c (Markers.ofConstraint c s.nextSymbol)).subject?
      (Markers.ofConstraint c s.nextSymbol).tag = none)
    (sight : s.AtSight c) :
    s.insert c =
      if Scalar.nearZero (s.rowOf c (Markers.ofConstraint c s.nextSymbol)).constant then
        (.ok (⟨s.nextConstraint⟩, (Markers.ofConstraint c s.nextSymbol).tag),
          s.record c
            (s.tableau.enter (Markers.ofConstraint c s.nextSymbol).tag.marker
              ((s.rowOf c (Markers.ofConstraint c s.nextSymbol)).solveFor
                (Markers.ofConstraint c s.nextSymbol).tag.marker))
            (s.nextSymbol + (Markers.ofConstraint c s.nextSymbol).count))
      else (.error .unsatisfiable,
        { s with nextSymbol := s.nextSymbol + (Markers.ofConstraint c s.nextSymbol).count }) := by
  unfold AtSight at sight
  unfold insert
  rw [if_pos fin]
  dsimp only
  rw [none]
  dsimp only
  rw [if_pos sight, Markers.costs_required c _ required]
  split
  · exact accept_unpriced (unpriced.enter _ _) _ _
  · rfl

end Insert

variable {s : Solver Float} {v : Variable} {a : Float}

theorem rowOf_of_express {x : Symbol} {p b : Float} (apart : x ≠ .dummy s.nextSymbol)
    (express : s.tableau.express (fixing v a).expression = single x p b) :
    s.rowOf (fixing v a) (Markers.ofConstraint (fixing v a) s.nextSymbol) =
      (pair x (.dummy s.nextSymbol) p 1 b).oriented := by
  have new : (single x p b).cells.get? (.dummy s.nextSymbol) = none := by
    rw [single, Table.get?_insert, if_neg apart, Table.get?_empty]
  rw [rowOf, express, Markers.ofConstraint_fixing]
  change ((single x p b).addCell (.dummy s.nextSymbol) 1).oriented = _
  rw [Row.addCell_new new (by decide) (by decide)]
  rfl

section Unpriced

variable (fin : (fixing v a).isFinite = true) (unpriced : s.tableau.Unpriced)

include fin unpriced

/-- The first equation for a variable makes it basic. -/
theorem insert_free (free : s.tableau.rows.get? (.external v) = none)
    (absent : ∀ y r, s.tableau.rows.get? y = some r → r.cells.get? (.external v) = none) :
    s.insert (fixing v a) = (.ok (⟨s.nextConstraint⟩, ⟨.dummy s.nextSymbol, none⟩),
      s.record (fixing v a) (s.tableau.attach (.external v)
        (single (.dummy s.nextSymbol) (-1) (solution a))) (s.nextSymbol + 1)) := by
  have other : Symbol.external v ≠ .dummy s.nextSymbol := nofun
  have row := rowOf_of_express other (Tableau.express_free free a)
  have subject : (s.rowOf (fixing v a) (Markers.ofConstraint (fixing v a) s.nextSymbol)).subject?
      (Markers.ofConstraint (fixing v a) s.nextSymbol).tag = some (.external v) := by
    rw [row, Row.subject?, Row.keys_oriented other]
    rfl
  rw [insert_subject fin (Constraint.isRequired_fixing v a) unpriced subject, row, Row.solve_free,
    Tableau.enter_absent _ unpriced absent, Markers.ofConstraint_fixing]

/-- A further one is judged by its distance from the first. -/
theorem insert_given {m : Nat} {x : Float}
    (own : s.tableau.rows.get? (.external v) = some (single (.dummy m) (-1) x))
    (old : m ≠ s.nextSymbol)
    (absent : ∀ y r, s.tableau.rows.get? y = some r → r.cells.get? (.dummy s.nextSymbol) = none) :
    s.insert (fixing v a) =
      if Scalar.nearZero (Scalar.magnitude (a + x * 1)) then
        (.ok (⟨s.nextConstraint⟩, ⟨.dummy s.nextSymbol, none⟩),
          s.record (fixing v a) (s.tableau.attach (.dummy s.nextSymbol)
            (single (.dummy m) 1 (solution (a + x * 1)))) (s.nextSymbol + 1))
      else (.error .unsatisfiable, { s with nextSymbol := s.nextSymbol + 1 }) := by
  have other : Symbol.dummy m ≠ .dummy s.nextSymbol := fun same => old (Symbol.dummy.inj same)
  have row := rowOf_of_express other (Tableau.express_given own a)
  have keys := Row.keys_oriented other (-1) 1 (a + x * 1)
  have none : (s.rowOf (fixing v a) (Markers.ofConstraint (fixing v a) s.nextSymbol)).subject?
      (Markers.ofConstraint (fixing v a) s.nextSymbol).tag = none := by
    rw [row, Row.subject?, keys, Markers.ofConstraint_fixing]
    rfl
  have sight : s.AtSight (fixing v a) := by
    rw [AtSight, row, keys]
    rfl
  rw [insert_sight fin (Constraint.isRequired_fixing v a) unpriced none sight, row,
    Row.constant_oriented, Markers.ofConstraint_fixing]
  dsimp only
  rw [Row.solve_given old, Tableau.enter_absent _ unpriced absent]
  rfl

end Unpriced

end Solver

end LinearChoice
