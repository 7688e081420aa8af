import LinearChoice.Proofs.Simplex.Markers
import LinearChoice.Proofs.Simplex.Symbols

/-!
# What may become of a call

Every addition and every removal is inverted once: which answers there are, and
what each of them leaves of the records and of the tableau. Nothing is assumed
of the arithmetic, so an addition may fail after its constraint was recorded.
-/

set_option autoImplicit false

namespace LinearChoice

variable {α : Type}

def SolverError.Endless (e : SolverError) : Prop := e = .unbounded ∨ e = .internal .stalled

theorem SolverError.Endless.ne_unsatisfiable {e : SolverError} (h : e.Endless) :
    e ≠ .unsatisfiable := by
  rintro rfl
  cases h <;> contradiction

namespace Tableau

def Unpriced (t : Tableau α) : Prop := t.objective.cells = Table.empty

theorem Unpriced.attach {t : Tableau α} (h : t.Unpriced) (s : Symbol) (row : Row α) :
    (t.attach s row).Unpriced := h

theorem Unpriced.detach {t : Tableau α} (h : t.Unpriced) (s : Symbol) : (t.detach s).Unpriced := h

theorem Unpriced.drop {t : Tableau α} (h : t.Unpriced) (s : Symbol) : (t.drop s).Unpriced := by
  change t.objective.cells.eraseSwap s = Table.empty
  rw [h]
  rfl

variable [Scalar α] {t : Tableau α}

theorem Unpriced.substitute (h : t.Unpriced) (s : Symbol) (row : Row α) :
    (t.substitute s row).Unpriced := by
  change (t.objective.substitute s row).cells = Table.empty
  have absent : t.objective.cells.get? s = none := by
    rw [h]
    rfl
  rw [Row.substitute, absent]
  exact h

theorem Unpriced.enter (h : t.Unpriced) (s : Symbol) (row : Row α) : (t.enter s row).Unpriced :=
  h.substitute s row

theorem Unpriced.pivot (h : t.Unpriced) (leaving : Symbol) (row : Row α) (entering : Symbol) :
    (t.pivot leaving row entering).Unpriced :=
  (h.detach leaving).enter entering _

theorem Unpriced.minimise (h : t.Unpriced) (n : Nat) (goal : Row α) :
    (minimise n t goal).2.1.Unpriced := by
  induction n generalizing t goal with
  | zero => exact h
  | succ n ih =>
    unfold Tableau.minimise advance
    cases entering? goal with
    | none => exact h
    | some entering =>
      dsimp only
      cases t.leaving? entering with
      | none => exact h
      | some c => exact ih (h.pivot c.symbol c.row entering) _

theorem Unpriced.introduce (h : t.Unpriced) (s : Symbol) (row : Row α) :
    (t.introduce s row).2.Unpriced := by
  have run := (h.attach s row).minimise (t.attach s row).budget row
  unfold Tableau.introduce
  dsimp only
  generalize Tableau.minimise (t.attach s row).budget (t.attach s row) row = answer at run ⊢
  obtain ⟨outcome, t', goal⟩ := answer
  have moved : t'.Unpriced := run
  cases outcome with
  | error e => exact moved.detach s
  | ok _ =>
    cases t'.rows.get? s with
    | none => exact moved.drop s
    | some last =>
      dsimp only
      split
      · exact moved.detach s
      · split
        · exact moved.detach s
        · exact ((moved.detach s).enter _ _).drop s

theorem Unpriced.withdraw (h : t.Unpriced) (marker : Symbol) : (t.withdraw marker).2.Unpriced := by
  unfold Tableau.withdraw
  split
  · exact h.detach marker
  · split
    · exact h
    · next c _ => exact (h.detach c.symbol).substitute marker _

theorem removeCosts_of_no_errors {tag : Tag} (none : tag.symbols.filter Symbol.isError = [])
    (price : α) : t.removeCosts tag price = t := by
  rw [removeCosts, none, List.foldl_nil]

theorem rows_removeCosts (t : Tableau α) (tag : Tag) (price : α) :
    (t.removeCosts tag price).rows = t.rows :=
  List.foldlRecOn (motive := fun t' : Tableau α => t'.rows = t.rows)
    (tag.symbols.filter Symbol.isError) _ rfl fun _ same _ _ => same

def AtRest (t : Tableau α) : Prop := entering? t.objective = none

instance : Decidable t.AtRest := inferInstanceAs (Decidable (_ = none))

theorem AtRest.optimise (h : t.AtRest) : t.optimise = (.ok (), t) := by
  have optimal : t.advance t.objective = .optimal := by
    unfold AtRest at h
    rw [advance, h]
  have budget : 0 < t.budget := Nat.pow_pos Nat.two_pos
  unfold Tableau.optimise
  cases n : t.budget with
  | zero => omega
  | succ n => rw [Tableau.minimise, optimal]

/-- Where nothing has a price every tableau is an optimum. -/
theorem Unpriced.atRest (h : t.Unpriced) : t.AtRest := by
  rw [AtRest, entering?, h]
  rfl

theorem Unpriced.optimise (h : t.Unpriced) : t.optimise = (.ok (), t) := h.atRest.optimise

theorem endless_of_minimise (n : Nat) (t : Tableau α) (goal : Row α) :
    ∀ e, (minimise n t goal).1 = .error e → e.Endless := by
  induction n generalizing t goal with
  | zero =>
    rintro e ⟨⟩
    exact Or.inr rfl
  | succ n ih =>
    unfold minimise
    cases t.advance goal with
    | optimal =>
      rintro e ⟨⟩
    | unbounded =>
      rintro e ⟨⟩
      exact Or.inl rfl
    | moved t' goal' => exact ih t' goal'

theorem endless_of_optimise (t : Tableau α) : ∀ e, t.optimise.1 = .error e → e.Endless :=
  endless_of_minimise t.budget t t.objective

theorem endless_of_introduce (t : Tableau α) (s : Symbol) (row : Row α) :
    ∀ e, (t.introduce s row).1 = .error e → e.Endless := by
  have minimised := endless_of_minimise (t.attach s row).budget (t.attach s row) row
  unfold introduce
  dsimp only
  generalize minimise (t.attach s row).budget (t.attach s row) row = answer at minimised ⊢
  obtain ⟨outcome, t', goal⟩ := answer
  cases outcome with
  | error e =>
    rintro e ⟨⟩
    exact minimised e rfl
  | ok _ =>
    dsimp only
    repeat' split
    all_goals exact nofun

end Tableau

namespace Solver

variable [Scalar α] {s : Solver α} {c : Constraint α}

structure Posed (s : Solver α) (c : Constraint α) (t : Tableau α) (n : Nat) : Prop where
  passed : s.nextSymbol + (Markers.ofConstraint c s.nextSymbol).count ≤ n
  numbered : s.tableau.Over (Symbol.Below s.nextSymbol) → t.Over (Symbol.Below n)
  unpriced : c.isRequired = true → s.tableau.Unpriced → t.Unpriced

theorem Posed.optimise {t : Tableau α} {n : Nat} (h : Posed s c t n) :
    Posed s c t.optimise.2 n :=
  ⟨h.passed, fun numbered => (h.numbered numbered).optimise, fun required unpriced => by
    rw [(h.unpriced required unpriced).optimise]
    exact h.unpriced required unpriced⟩

def record (s : Solver α) (c : Constraint α) (t : Tableau α) (n : Nat) : Solver α :=
  { s with
    tableau := t
    nextSymbol := n
    nextConstraint := s.nextConstraint + 1
    constraints := s.constraints.insert ⟨s.nextConstraint⟩
      ⟨(Markers.ofConstraint c s.nextSymbol).tag, c.strength⟩ }

inductive Inserted (s : Solver α) (c : Constraint α) :
    Except SolverError (ConstraintId × Tag) × Solver α → Prop
  | nonFinite (not : c.isFinite = false) : Inserted s c (.error (.internal .nonFinite), s)
  | refused {t : Tableau α} {n : Nat} (posed : Posed s c t n) :
      Inserted s c (.error .unsatisfiable, { s with tableau := t, nextSymbol := n })
  | endless {e : SolverError} {t : Tableau α} {n : Nat} (he : e.Endless) (posed : Posed s c t n) :
      Inserted s c (.error e, { s with tableau := t, nextSymbol := n })
  | accepted {t : Tableau α} {n : Nat} (posed : Posed s c t n) :
      Inserted s c (.ok (⟨s.nextConstraint⟩, (Markers.ofConstraint c s.nextSymbol).tag),
        s.record c t n)
  | orphaned {e : SolverError} {t : Tableau α} {n : Nat} (he : e.Endless) (posed : Posed s c t n)
      (priced : c.isRequired = true → ¬s.tableau.Unpriced) :
      Inserted s c (.error e, s.record c t n)

theorem inserted_accept {t : Tableau α} {n : Nat} (posed : Posed s c t n) :
    Inserted s c (accept { s with tableau := t, nextSymbol := n }
      (Markers.ofConstraint c s.nextSymbol).tag c.strength) := by
  have run := t.endless_of_optimise
  have after := posed.optimise
  have free (required : c.isRequired = true) (unpriced : s.tableau.Unpriced) :
      t.optimise.1 = .ok () := by
    rw [(posed.unpriced required unpriced).optimise]
  unfold accept optimise
  dsimp only
  generalize t.optimise = answer at run after free
  obtain ⟨outcome, t'⟩ := answer
  cases outcome with
  | ok _ => exact .accepted after
  | error e =>
    exact .orphaned (run e rfl) after fun required unpriced => nomatch free required unpriced

theorem inserted_refuse {t : Tableau α} {n : Nat} (posed : Posed s c t n) :
    Inserted s c (refuse { s with tableau := t, nextSymbol := n }) := by
  have run := t.endless_of_optimise
  have after := posed.optimise
  unfold refuse optimise
  dsimp only
  generalize t.optimise = answer at run after
  obtain ⟨outcome, t'⟩ := answer
  cases outcome with
  | ok _ => exact .refused after
  | error e => exact .endless (run e rfl) after

def AtSight (s : Solver α) (c : Constraint α) : Prop :=
  (s.rowOf c (Markers.ofConstraint c s.nextSymbol)).cells.keys.all Symbol.isDummy = true

instance : Decidable (s.AtSight c) := inferInstanceAs (Decidable (_ = true))

theorem over_rowOf {P : Symbol → Prop} (h : s.tableau.Over P) (external : ∀ v, P (.external v))
    {m : Markers α} (cells : ∀ e ∈ m.cells, P e.1) : (s.rowOf c m).Over P :=
  ((h.express external c.expression).addCells cells).oriented

section Posed

variable (s : Solver α) (c : Constraint α)

theorem below_row (h : s.tableau.Over (Symbol.Below s.nextSymbol)) :
    (s.rowOf c (Markers.ofConstraint c s.nextSymbol)).Over
      (Symbol.Below (s.nextSymbol + (Markers.ofConstraint c s.nextSymbol).count)) :=
  over_rowOf (h.imp (Symbol.Below.mono (Nat.le_add_right _ _))) (fun _ => Or.inl rfl)
    fun e he => Or.inr (Markers.cells_numbered c s.nextSymbol e he).2.2

theorem posed_costs :
    Posed s c (s.tableau.addCosts (Markers.ofConstraint c s.nextSymbol).costs)
      (s.nextSymbol + (Markers.ofConstraint c s.nextSymbol).count) := by
  refine ⟨Nat.le_refl _, fun numbered => ?_, fun required unpriced => ?_⟩
  · apply (numbered.imp (Symbol.Below.mono (Nat.le_add_right _ _))).addCosts
    exact fun e he => Or.inr (Markers.costs_numbered c s.nextSymbol e he).2.2.2
  · rw [Markers.costs_required c _ required]
    exact unpriced

theorem posed_enter {x : Symbol}
    (subject : (s.rowOf c (Markers.ofConstraint c s.nextSymbol)).subject?
        (Markers.ofConstraint c s.nextSymbol).tag = some x ∨
      x = (Markers.ofConstraint c s.nextSymbol).tag.marker) :
    Posed s c
      ((s.tableau.addCosts (Markers.ofConstraint c s.nextSymbol).costs).enter x
        ((s.rowOf c (Markers.ofConstraint c s.nextSymbol)).solveFor x))
      (s.nextSymbol + (Markers.ofConstraint c s.nextSymbol).count) := by
  have costs := posed_costs s c
  refine ⟨Nat.le_refl _, fun numbered => ?_, fun required unpriced => ?_⟩
  · have row := below_row s c numbered
    have marked (x : Symbol) (mem : x ∈ (Markers.ofConstraint c s.nextSymbol).tag.symbols) :
        x.Below (s.nextSymbol + (Markers.ofConstraint c s.nextSymbol).count) :=
      Or.inr (Markers.symbols_numbered c s.nextSymbol x mem).2.2
    apply (costs.numbered numbered).enter _ (row.solveFor x)
    rcases subject with found | rfl
    · unfold Row.subject? at found
      split at found
      · next found' =>
        cases found
        exact row _ (List.mem_of_find?_eq_some found')
      · exact marked x (List.mem_of_find?_eq_some found)
    · exact marked _ List.mem_cons_self
  · exact (costs.unpriced required unpriced).enter _ _

theorem posed_introduce :
    Posed s c
      ((s.tableau.addCosts (Markers.ofConstraint c s.nextSymbol).costs).introduce
        (.slack (s.nextSymbol + (Markers.ofConstraint c s.nextSymbol).count))
        (s.rowOf c (Markers.ofConstraint c s.nextSymbol))).2
      (s.nextSymbol + (Markers.ofConstraint c s.nextSymbol).count + 1) := by
  have costs := posed_costs s c
  refine ⟨Nat.le_succ _, fun numbered => ?_, fun required unpriced => ?_⟩
  · exact ((costs.numbered numbered).imp (Symbol.Below.mono (Nat.le_succ _))).introduce
      (Or.inr (Nat.lt_succ_self _))
      ((below_row s c numbered).imp (Symbol.Below.mono (Nat.le_succ _)))
  · exact (costs.unpriced required unpriced).introduce _ _

theorem inserted : Inserted s c (s.insert c) := by
  have posed := posed_introduce s c
  have run := (s.tableau.addCosts (Markers.ofConstraint c s.nextSymbol).costs).endless_of_introduce
    (.slack (s.nextSymbol + (Markers.ofConstraint c s.nextSymbol).count))
    (s.rowOf c (Markers.ofConstraint c s.nextSymbol))
  unfold insert
  split
  · dsimp only
    split
    · next x found => exact inserted_accept (posed_enter s c (Or.inl found))
    · split
      · split
        · exact inserted_accept (posed_enter s c (Or.inr rfl))
        · exact .refused (posed_costs s c)
      · unfold acceptWithArtificial
        dsimp only
        generalize (s.tableau.addCosts _).introduce _ _ = answer at posed run
        obtain ⟨verdict, t⟩ := answer
        cases verdict with
        | error e => exact .endless (run e rfl) posed
        | ok success =>
          cases success with
          | true => exact inserted_accept posed
          | false => exact inserted_refuse posed
  · next not => exact .nonFinite (by simpa using not)

end Posed

theorem addConstraint_error {e : SolverError} :
    (s.addConstraint c).1 = .error e ↔ (s.insert c).1 = .error e := by
  unfold addConstraint
  generalize s.insert c = answer
  obtain ⟨outcome, s'⟩ := answer
  cases outcome <;> simp [Except.map]

structure Left (s : Solver α) (held : Held α) (t : Tableau α) : Prop where
  numbered : ∀ n, (∀ x ∈ held.tag.symbols, x.Below n) → s.tableau.Over (Symbol.Below n) →
    t.Over (Symbol.Below n)
  unpriced : held.tag.symbols.filter Symbol.isError = [] → s.tableau.Unpriced → t.Unpriced

theorem left_withdraw (s : Solver α) (held : Held α) :
    Left s held ((s.tableau.removeCosts held.tag held.strength.weight).withdraw
      held.tag.marker).2 := by
  refine ⟨fun n tagged numbered => (numbered.removeCosts tagged _).withdraw _,
    fun noErrors unpriced => ?_⟩
  rw [Tableau.removeCosts_of_no_errors noErrors]
  exact unpriced.withdraw _

theorem Left.optimise {held : Held α} {t : Tableau α} (h : Left s held t) :
    Left s held t.optimise.2 :=
  ⟨fun n tagged numbered => (h.numbered n tagged numbered).optimise, fun noErrors unpriced => by
    rw [(h.unpriced noErrors unpriced).optimise]
    exact h.unpriced noErrors unpriced⟩

inductive Removed (s : Solver α) (id : ConstraintId) (held : Held α) :
    Except SolverError Unit × Solver α → Prop
  | done {t : Tableau α} (reached : s.tableau.Reaches held.tag.marker) (left : Left s held t) :
      Removed s id held
        (.ok (), { s with constraints := s.constraints.eraseSwap id, tableau := t })
  | stuck {t : Tableau α} (vanished : ¬s.tableau.Reaches held.tag.marker) (left : Left s held t) :
      Removed s id held (.error (.internal .noLeavingRow),
        { s with constraints := s.constraints.eraseSwap id, tableau := t })
  | endless {e : SolverError} {t : Tableau α} (he : e.Endless)
      (reached : s.tableau.Reaches held.tag.marker) (left : Left s held t)
      (priced : held.tag.symbols.filter Symbol.isError = [] → ¬s.tableau.Unpriced) :
      Removed s id held
        (.error e, { s with constraints := s.constraints.eraseSwap id, tableau := t })

theorem removed {id : ConstraintId} {held : Held α} (found : s.constraints.get? id = some held) :
    Removed s id held (s.removeConstraint id) := by
  have left := left_withdraw s held
  have reach := Tableau.withdraw_cases (s.tableau.removeCosts held.tag held.strength.weight)
    held.tag.marker
  rw [Tableau.Reaches, Tableau.rows_removeCosts] at reach
  unfold removeConstraint
  rw [found]
  dsimp only
  generalize (s.tableau.removeCosts held.tag held.strength.weight).withdraw held.tag.marker = answer
    at left reach
  obtain ⟨outcome, t⟩ := answer
  rcases reach with ⟨reached, rfl⟩ | ⟨vanished, rfl⟩
  · have run := t.endless_of_optimise
    have after := left.optimise
    have free (noErrors : held.tag.symbols.filter Symbol.isError = [])
        (unpriced : s.tableau.Unpriced) : t.optimise.1 = .ok () := by
      rw [(left.unpriced noErrors unpriced).optimise]
    unfold Solver.optimise
    dsimp only
    generalize t.optimise = answer at run after free
    obtain ⟨outcome, t'⟩ := answer
    cases outcome with
    | ok _ => exact .done reached after
    | error e =>
      exact .endless (run e rfl) reached after fun noErrors unpriced =>
        nomatch free noErrors unpriced
  · exact .stuck vanished left

end Solver

end LinearChoice
