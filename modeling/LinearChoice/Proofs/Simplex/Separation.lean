import LinearChoice.Proofs.Simplex.Numbering

/-!
# Basic symbols occur in no row

A symbol is basic or may be written in rows, never both. A pivot solves the row
that it takes out for the entering symbol, which leaves that symbol in no cell of
it, and then replaces the symbol wherever it is written; the leaving symbol has
no row by then. No step of this looks at a coefficient, so it holds in any
arithmetic, of pivots that make no sense too.
-/

set_option autoImplicit false

namespace LinearChoice

variable {α : Type} {P Q : Symbol → Prop} {s : Symbol}

theorem Symbol.Below.lt {n : Nat} {x : Symbol} (below : x.Below n)
    (restricted : x.isExternal = false) : x.id < n :=
  below.resolve_left fun external => Bool.false_ne_true (restricted.symm.trans external)

theorem Symbol.Below.ne_slack {n : Nat} {x : Symbol} (below : x.Below n) : x ≠ .slack n := by
  rintro rfl
  exact Nat.lt_irrefl n (Symbol.Below.lt below rfl)

namespace Row

variable {r other : Row α}

theorem Over.erase_self (h : r.Over fun x => x = s ∨ P x) : (r.erase s).Over P := by
  intro x hx
  obtain ⟨e, he, rfl⟩ := List.mem_map.mp hx
  obtain ⟨mem, other⟩ := (r.cells.mem_entries_eraseSwap s e).mp he
  exact (h e.1 (List.mem_map_of_mem mem)).resolve_left other

theorem Over.excluding (h : r.Over P) (s : Symbol) : r.Over fun x => x = s ∨ P x ∧ x ≠ s := by
  refine h.imp fun x free => ?_
  by_cases same : x = s
  · exact Or.inl same
  · exact Or.inr ⟨free, same⟩

variable [Scalar α]

theorem Over.substitute_self (h : r.Over fun x => x = s ∨ P x) (ho : other.Over P) :
    (r.substitute s other).Over P := by
  unfold Row.substitute
  cases written : r.cells.get? s with
  | none =>
    have absent := (r.cells.get?_eq_none_iff s).mp written
    exact fun x hx => (h x hx).resolve_left fun same => absent (same ▸ hx)
  | some c => exact h.erase_self.addScaled ho c

theorem Over.solveFor_self (h : r.Over fun x => x = s ∨ P x) : (r.solveFor s).Over P := by
  intro x hx
  rw [Row.solveFor, Table.keys_mapValues] at hx
  exact h.erase_self x hx

end Row

namespace Tableau

structure Written (P : Symbol → Prop) (t : Tableau α) : Prop where
  rows : ∀ s row, t.rows.get? s = some row → row.Over P
  objective : t.objective.Over P

def NonBasic (t : Tableau α) (s : Symbol) : Prop := t.rows.get? s = none

def Separate (t : Tableau α) : Prop := t.Written t.NonBasic

variable {t : Tableau α} {row : Row α}

inductive Mentions (t : Tableau α) (s : Symbol) : Prop where
  | basic (row : Row α) (own : t.rows.get? s = some row)
  | row (x : Symbol) (row : Row α) (other : t.rows.get? x = some row) (cell : s ∈ row.cells.keys)
  | objective (cell : s ∈ t.objective.cells.keys)

theorem Over.of_mentions (h : t.Over P) (mentions : t.Mentions s) : P s := by
  cases mentions with
  | basic row own => exact h.basic s row own
  | row x row other cell => exact h.rows x row other s cell
  | objective cell => exact h.objective s cell

theorem Over.written (h : t.Over P) : t.Written P := ⟨h.rows, h.objective⟩

theorem Written.imp (h : t.Written P) (imp : ∀ x, P x → Q x) : t.Written Q :=
  ⟨fun s row hs => (h.rows s row hs).imp imp, h.objective.imp imp⟩

/-- A basic symbol is written nowhere. -/
theorem Separate.unwritten (h : t.Separate) (basic : t.rows.get? s = some row) :
    t.Written fun x => x ≠ s := by
  refine Written.imp h fun x free => ?_
  rintro rfl
  rw [NonBasic, basic] at free
  contradiction

theorem Written.and (hp : t.Written P) (hq : t.Written Q) : t.Written fun x => P x ∧ Q x :=
  ⟨fun s row hs x hx => ⟨hp.rows s row hs x hx, hq.rows s row hs x hx⟩,
    fun x hx => ⟨hp.objective x hx, hq.objective x hx⟩⟩

theorem Written.attach (h : t.Written P) (hr : row.Over P) (s : Symbol) :
    (t.attach s row).Written P := by
  refine ⟨fun x r hx => ?_, h.objective⟩
  rw [get?_attach] at hx
  split at hx
  · exact Option.some.inj hx ▸ hr
  · exact h.rows x r hx

theorem Written.detach (h : t.Written P) (s : Symbol) : (t.detach s).Written P := by
  refine ⟨fun x r hx => ?_, h.objective⟩
  rw [get?_detach] at hx
  split at hx
  · contradiction
  · exact h.rows x r hx

theorem Written.drop (h : t.Written P) (s : Symbol) : (t.drop s).Written P := by
  refine ⟨fun x r hx => ?_, h.objective.erase s⟩
  rw [get?_drop] at hx
  obtain ⟨r', hr', rfl⟩ := Option.map_eq_some_iff.mp hx
  exact (h.rows x r' hr').erase s

theorem nonBasic_attach {x : Symbol} : (t.attach s row).NonBasic x ↔ t.NonBasic x ∧ x ≠ s := by
  rw [NonBasic, get?_attach, ne_comm]
  by_cases h : s = x <;> simp [NonBasic, h]

theorem nonBasic_detach {x : Symbol} : (t.detach s).NonBasic x ↔ t.NonBasic x ∨ x = s := by
  rw [NonBasic, get?_detach, eq_comm (a := x)]
  by_cases h : s = x <;> simp [NonBasic, h]

theorem nonBasic_drop {x : Symbol} : (t.drop s).NonBasic x ↔ t.NonBasic x := by
  rw [NonBasic, get?_drop, Option.map_eq_none_iff, NonBasic]

/-- A symbol that is written nowhere may be given a row. -/
theorem Separate.attach (h : t.Separate) (new : t.Written fun x => x ≠ s)
    (hr : row.Over fun x => t.NonBasic x ∧ x ≠ s) : (t.attach s row).Separate :=
  ((Written.and h new).attach hr s).imp fun _ => nonBasic_attach.mpr

theorem Separate.detach (h : t.Separate) (s : Symbol) : (t.detach s).Separate :=
  (Written.detach h s).imp fun _ free => nonBasic_detach.mpr (Or.inl free)

theorem Separate.drop (h : t.Separate) (s : Symbol) : (t.drop s).Separate :=
  (Written.drop h s).imp fun _ => nonBasic_drop.mpr

variable [Scalar α]

theorem separate_empty : (empty : Tableau α).Separate := ⟨nofun, Row.over_ofConstant 0⟩

theorem Written.substitute_self (h : t.Written fun x => x = s ∨ P x) (hr : row.Over P) :
    (t.substitute s row).Written P := by
  refine ⟨fun x r hx => ?_, h.objective.substitute_self hr⟩
  rw [get?_substitute] at hx
  obtain ⟨r', hr', rfl⟩ := Option.map_eq_some_iff.mp hx
  exact (h.rows x r' hr').substitute_self hr

theorem nonBasic_substitute {x : Symbol} : (t.substitute s row).NonBasic x ↔ t.NonBasic x := by
  rw [NonBasic, get?_substitute, Option.map_eq_none_iff, NonBasic]

theorem Separate.substituted (h : t.Separate) (hr : row.Over fun x => t.NonBasic x ∧ x ≠ s) :
    (t.substitute s row).Written fun x => t.NonBasic x ∧ x ≠ s :=
  Written.substitute_self
    ⟨fun x r hx => (h.rows x r hx).excluding s, h.objective.excluding s⟩ hr

theorem Separate.substitute (h : t.Separate) (hr : row.Over fun x => t.NonBasic x ∧ x ≠ s) :
    (t.substitute s row).Separate :=
  (h.substituted hr).imp fun _ free => nonBasic_substitute.mpr free.1

theorem Separate.enter (h : t.Separate) (hr : row.Over fun x => t.NonBasic x ∧ x ≠ s) :
    (t.enter s row).Separate :=
  ((h.substituted hr).attach hr s).imp fun _ free =>
    nonBasic_attach.mpr ⟨nonBasic_substitute.mpr free.1, free.2⟩

/-- The row that leaves, solved for any symbol. -/
theorem Separate.exchanged (h : t.Separate) {leaving : Symbol}
    (basic : t.rows.get? leaving = some row) (s : Symbol) :
    (row.exchange leaving s).Over fun x => (t.detach leaving).NonBasic x ∧ x ≠ s := by
  have own : row.Over (t.detach leaving).NonBasic :=
    (h.rows leaving row basic).imp fun _ free => nonBasic_detach.mpr (Or.inl free)
  have taken := own.addCell (nonBasic_detach.mpr (Or.inr rfl)) (-1)
  exact (taken.excluding s).solveFor_self

theorem Separate.pivot (h : t.Separate) {leaving : Symbol}
    (basic : t.rows.get? leaving = some row) (entering : Symbol) :
    (t.pivot leaving row entering).Separate :=
  (h.detach leaving).enter (h.exchanged basic entering)

/-- The goal is written over by the pivots, but it does not matter what it is. -/
theorem Separate.minimise (h : t.Separate) (n : Nat) (goal : Row α) :
    (minimise n t goal).2.1.Separate := by
  induction n generalizing t goal with
  | zero => exact h
  | succ n ih =>
    unfold Tableau.minimise advance
    cases entering? goal with
    | none => exact h
    | some entering =>
      dsimp only
      cases leaves : t.leaving? entering with
      | none => exact h
      | some c => exact ih (h.pivot (row_of_leaving leaves) entering) _

theorem Separate.optimise (h : t.Separate) : t.optimise.2.Separate :=
  h.minimise t.budget t.objective

theorem Separate.introduce (h : t.Separate) (new : t.Written fun x => x ≠ s)
    (hr : row.Over fun x => t.NonBasic x ∧ x ≠ s) : (t.introduce s row).2.Separate := by
  have run := (h.attach new hr).minimise (t.attach s row).budget row
  unfold Tableau.introduce
  dsimp only
  generalize Tableau.minimise (t.attach s row).budget (t.attach s row) row = answer at run ⊢
  obtain ⟨outcome, t', goal⟩ := answer
  have moved : t'.Separate := run
  cases outcome with
  | error e => exact moved.detach s
  | ok _ =>
    cases basic : t'.rows.get? s with
    | none => exact moved.drop s
    | some last =>
      dsimp only
      split
      · exact moved.detach s
      · split
        · exact moved.detach s
        · next entering _ => exact ((moved.detach s).enter (moved.exchanged basic entering)).drop s

theorem Separate.express (h : t.Separate) (e : Expression α) : (t.express e).Over t.NonBasic := by
  unfold Tableau.express
  refine List.foldlRecOn (motive := Row.Over t.NonBasic) e.terms.entries _
    (Row.over_ofConstant e.constant) ?_
  intro row hr term _
  cases found : t.rows.get? (.external term.1) with
  | some basic => exact hr.addScaled (h.rows _ basic found) _
  | none => exact hr.addCell found _

theorem Separate.addCosts (h : t.Separate) {costs : List (Symbol × α)}
    (hc : ∀ e ∈ costs, t.NonBasic e.1) : (t.addCosts costs).Separate :=
  ⟨h.rows, h.objective.addCells hc⟩

theorem Separate.removeCosts (h : t.Separate) (tag : Tag) (price : α) :
    (t.removeCosts tag price).Separate := by
  unfold Tableau.removeCosts
  refine List.foldlRecOn (motive := Tableau.Separate) (tag.symbols.filter Symbol.isError) _ h ?_
  intro t ht s _
  refine ⟨ht.rows, ?_⟩
  change Row.Over t.NonBasic _
  cases found : t.rows.get? s with
  | some row => exact ht.objective.addScaled (ht.rows s row found) _
  | none => exact ht.objective.addCell found _

theorem Separate.withdraw (h : t.Separate) (marker : Symbol) : (t.withdraw marker).2.Separate := by
  unfold Tableau.withdraw
  split
  · exact h.detach marker
  · split
    · exact h
    · next c leaves => exact (h.detach c.symbol).substitute (h.exchanged (row_of_exit leaves) marker)

theorem Separate.restore (h : t.Separate) (n : Nat) (stack : List Symbol) :
    (restore n stack t).2.Separate := by
  induction n generalizing stack t with
  | zero => cases stack <;> exact h
  | succ n ih =>
    cases stack with
    | nil => exact h
    | cons s stack =>
      unfold Tableau.restore
      split
      · exact ih h stack
      · next row basic =>
        split
        · split
          · exact h.detach s
          · next entering _ =>
            have entered := (h.detach s).enter (h.exchanged basic entering)
            exact ih entered _
        · exact ih h stack

theorem Separate.shiftTarget (h : t.Separate) (tag : Tag) (x : α) :
    (t.shiftTarget tag x).2.Separate := by
  have shifted (s : Symbol) (row : Row α) (basic : t.rows.get? s = some row) (x : α) :
      (t.shiftRow s row x).2.Separate := by
    have own : t.Written fun y => (t.attach s (row.shift x)).NonBasic y :=
      (Written.and h (h.unwritten basic)).imp fun _ => nonBasic_attach.mpr
    have same : (row.shift x).Over (t.attach s (row.shift x)).NonBasic := own.rows s row basic
    exact own.attach same s
  unfold Tableau.shiftTarget
  split
  · next row basic => exact shifted _ row basic _
  · split
    · next other row found =>
      obtain ⟨other', -, found⟩ := Option.bind_eq_some_iff.mp found
      obtain ⟨row', basic, same⟩ := Option.map_eq_some_iff.mp found
      cases same
      exact shifted _ row basic _
    · have free (y : Symbol) (hy : t.NonBasic y) : (t.shiftRows tag.marker x).2.NonBasic y := by
        rw [NonBasic, shiftRows, Table.get?_mapValues, Option.map_eq_none_iff]
        exact hy
      refine ⟨fun s row hs => ?_, h.objective.imp free⟩
      rw [shiftRows, Table.get?_mapValues] at hs
      obtain ⟨row', basic, rfl⟩ := Option.map_eq_some_iff.mp hs
      have own := (h.rows s row' basic).imp free
      dsimp only
      split <;> exact own

end Tableau

namespace Solver

variable [Scalar α] {s : Solver α} {c : Constraint α}

theorem tableau_accept_eq (s : Solver α) (tag : Tag) (strength : Strength α) :
    (s.accept tag strength).2.tableau = s.tableau.optimise.2 := by
  unfold accept Solver.optimise
  dsimp only
  cases s.tableau.optimise.1 <;> rfl

theorem tableau_refuse_eq (s : Solver α) : s.refuse.2.tableau = s.tableau.optimise.2 := by
  unfold refuse Solver.optimise
  dsimp only
  cases s.tableau.optimise.1 <;> rfl

omit [Scalar α] in
/-- A restricted symbol that is yet to be given out is not basic. -/
theorem Numbered.nonBasic (h : s.Numbered) {x : Symbol} (restricted : x.isExternal = false)
    (passed : s.nextSymbol ≤ x.id) : s.tableau.NonBasic x := by
  by_contra basic
  obtain ⟨row, hx⟩ := Option.ne_none_iff_exists'.mp basic
  exact absurd (Symbol.Below.lt (h.tableau.basic x row hx) restricted) (Nat.not_lt.mpr passed)

theorem Numbered.nonBasic_marker (h : s.Numbered) {x : Symbol}
    (tagged : x ∈ (Markers.ofConstraint c s.nextSymbol).tag.symbols) : s.tableau.NonBasic x := by
  obtain ⟨restricted, passed, -⟩ := Markers.symbols_numbered c s.nextSymbol x tagged
  exact h.nonBasic restricted passed

section Insert

variable (h : s.Numbered) (separate : s.tableau.Separate)
include h separate

theorem Numbered.separate_costs :
    (s.tableau.addCosts (Markers.ofConstraint c s.nextSymbol).costs).Separate :=
  separate.addCosts fun e he =>
    h.nonBasic_marker (Markers.costs_tagged c s.nextSymbol e he)

theorem Numbered.nonBasic_row :
    (s.rowOf c (Markers.ofConstraint c s.nextSymbol)).Over s.tableau.NonBasic := by
  have expressed := (separate.express c.expression).addCells fun e he =>
    h.nonBasic_marker (Markers.cells_tagged c s.nextSymbol e he)
  exact expressed.oriented

theorem Numbered.separate_subject (x : Symbol) :
    ((s.tableau.addCosts (Markers.ofConstraint c s.nextSymbol).costs).enter x
      ((s.rowOf c (Markers.ofConstraint c s.nextSymbol)).solveFor x)).Separate := by
  have own := (h.nonBasic_row (c := c) separate).excluding x
  exact (h.separate_costs separate).enter own.solveFor_self

theorem Numbered.separate_introduce :
    ((s.tableau.addCosts (Markers.ofConstraint c s.nextSymbol).costs).introduce
      (.slack (s.nextSymbol + (Markers.ofConstraint c s.nextSymbol).count))
      (s.rowOf c (Markers.ofConstraint c s.nextSymbol))).2.Separate := by
  have below := ((posed_costs s c).numbered h.tableau).written
  have row := below_row s c h.tableau
  refine (h.separate_costs separate).introduce (below.imp fun x hx => Symbol.Below.ne_slack hx) fun x hx => ?_
  exact ⟨h.nonBasic_row separate x hx, Symbol.Below.ne_slack (row x hx)⟩

theorem Numbered.separate_insert (c : Constraint α) : (s.insert c).2.tableau.Separate := by
  have introduced := h.separate_introduce (c := c) separate
  unfold Solver.insert
  split
  · dsimp only
    split
    · next x _ =>
      rw [acceptWithSubject, tableau_accept_eq]
      exact (h.separate_subject separate x).optimise
    · split
      · split
        · rw [acceptWithSubject, tableau_accept_eq]
          exact (h.separate_subject separate _).optimise
        · exact h.separate_costs separate
      · unfold acceptWithArtificial
        dsimp only
        generalize (s.tableau.addCosts _).introduce _ _ = answer at introduced
        obtain ⟨verdict, t⟩ := answer
        cases verdict with
        | error e => exact introduced
        | ok success =>
          cases success with
          | true =>
            rw [tableau_accept_eq]
            exact introduced.optimise
          | false =>
            rw [tableau_refuse_eq]
            exact introduced.optimise
  · exact separate

end Insert

theorem separate_removeConstraint (separate : s.tableau.Separate) (id : ConstraintId) :
    (s.removeConstraint id).2.tableau.Separate := by
  unfold removeConstraint
  split
  · exact separate
  · next held _ =>
    have withdrawn :=
      (separate.removeCosts held.tag held.strength.weight).withdraw held.tag.marker
    dsimp only
    generalize (s.tableau.removeCosts held.tag held.strength.weight).withdraw held.tag.marker = answer
      at withdrawn
    obtain ⟨outcome, t⟩ := answer
    cases outcome with
    | error e => exact withdrawn
    | ok _ => exact withdrawn.optimise

theorem Numbered.separate_addEdit (h : s.Numbered) (separate : s.tableau.Separate) (v : Variable)
    (strength : Strength α) : (s.addEdit v strength).2.tableau.Separate := by
  have inserted := h.separate_insert separate
    ⟨Expression.ofVariable v, .equal, Strength.clipped strength.weight⟩
  unfold Solver.addEdit
  split
  · exact separate
  · dsimp only
    split
    · exact separate
    · generalize s.insert _ = answer at inserted
      obtain ⟨outcome, s'⟩ := answer
      cases outcome <;> exact inserted

theorem separate_suggest (separate : s.tableau.Separate) (v : Variable) (x : α) :
    (s.suggest v x).2.tableau.Separate := by
  unfold suggest
  split
  · exact separate
  · next edit _ => exact (separate.shiftTarget edit.tag (x - edit.suggested)).restore _ _

theorem Numbered.separate_after (h : s.Numbered) (separate : s.tableau.Separate) (call : Call α) :
    (s.after call).tableau.Separate := by
  cases call with
  | newVariable => exact separate
  | add c => exact h.separate_insert separate c
  | remove id => exact separate_removeConstraint separate id
  | update =>
    change s.updateVariables.2.tableau.Separate
    unfold Solver.updateVariables
    split <;> exact separate
  | addEdit v strength => exact h.separate_addEdit separate v strength
  | removeEdit v =>
    change (s.removeEdit v).2.tableau.Separate
    unfold Solver.removeEdit
    split
    · exact separate
    · next edit _ =>
      exact separate_removeConstraint (s := { s with edits := s.edits.eraseSwap v }) separate _
  | suggest v x => exact separate_suggest separate v x

theorem separate_afterAll (calls : List (Call α)) :
    ((empty : Solver α).afterAll calls).tableau.Separate := by
  have both : ((empty : Solver α).afterAll calls).Numbered ∧
      ((empty : Solver α).afterAll calls).tableau.Separate :=
    afterAll_invariant (P := fun s => s.Numbered ∧ s.tableau.Separate)
      ⟨numbered_empty, Tableau.separate_empty⟩
      (fun s call h => ⟨h.1.after call, h.1.separate_after h.2 call⟩) calls
  exact both.2

end Solver

end LinearChoice
