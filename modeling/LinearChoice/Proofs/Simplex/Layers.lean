import LinearChoice.Backend.Simplex
import LinearChoice.Proofs.Backend.Replay
import LinearChoice.Proofs.Simplex.Fixings
import LinearChoice.Proofs.Simplex.Numbering

/-!
# Row upon row

Equations that give values to variables leave a tableau with one row for each, the
latest last. No row changes when another one is added, and the latest goes as it
came. So in floating point too the answers depend on the equations that are held,
and on nothing else that the solver has been through.
-/

set_option autoImplicit false

namespace LinearChoice

open Row (single solution)

namespace Constraint

def given (cs : List (Constraint Float)) (v : Variable) : Option Float :=
  (cs.find? fun c => c.expression.contains v).map fun c => solution c.expression.constant

def gap (cs : List (Constraint Float)) (c : Constraint Float) : Option Float :=
  c.support.head?.bind fun v => (given cs v).map fun x => c.expression.constant + x * 1

def fits (cs : List (Constraint Float)) (c : Constraint Float) : Bool :=
  (gap cs c).all fun r => Scalar.nearZero (Scalar.magnitude r)

def upright (cs : List (Constraint Float)) (c : Constraint Float) : Bool :=
  (gap cs c).all fun r => !decide (solution r < -Scalar.tolerance)

def stands (before : List (Constraint Float)) : List (Constraint Float) → Bool
  | [] => true
  | c :: cs => upright before c && stands (before ++ [c]) cs

theorem stands_snoc (before cs : List (Constraint Float)) (c : Constraint Float) :
    stands before (cs ++ [c]) = (stands before cs && upright (before ++ cs) c) := by
  induction cs generalizing before with
  | nil => simp [stands]
  | cons d cs ih =>
    rw [List.cons_append, stands, stands, ih, List.append_assoc, List.singleton_append,
      Bool.and_assoc]

theorem gap_fixing (cs : List (Constraint Float)) (v : Variable) (a : Float) :
    gap cs (fixing v a) = (given cs v).map fun x => a + x * 1 := rfl

theorem contains_fixing (v w : Variable) (a : Float) :
    (fixing v a).expression.contains w = decide (v = w) := by
  change ((Table.empty.insert v (1 : Float)).get? w).isSome = _
  rw [Table.get?_insert]
  by_cases same : v = w <;> simp [same]

theorem given_snoc (cs : List (Constraint Float)) (v w : Variable) (a : Float) :
    given (cs ++ [fixing v a]) w =
      (given cs w).or (if v = w then some (solution a) else none) := by
  unfold given
  rw [List.find?_append]
  cases cs.find? fun c => c.expression.contains w with
  | some c => rfl
  | none =>
    rw [List.find?_singleton, contains_fixing]
    by_cases same : v = w <;> simp [same, fixing]

end Constraint

open Backend (texts Served)
open Constraint (fixing Fixing given gap fits upright stands)

namespace Tableau

inductive Fixes (t : Tableau Float) (n : Nat) : Constraint Float → Symbol → Row Float → Prop
  | first {v : Variable} {a : Float} (free : t.rows.get? (.external v) = none) :
      Fixes t n (fixing v a) (.external v) (single (.dummy n) (-1) (solution a))
  | again {v : Variable} {a : Float} {m : Nat} {x : Float}
      (own : t.rows.get? (.external v) = some (single (.dummy m) (-1) x)) :
      Fixes t n (fixing v a) (.dummy n) (single (.dummy m) 1 (solution (a + x * 1)))

inductive Layered (constraints : Table ConstraintId (Held Float)) :
    List Entry → Tableau Float → Prop
  | base : Layered constraints [] empty
  | layer {H : List Entry} {t : Tableau Float} (below : Layered constraints H t)
      {id : ConstraintId} {c : Constraint Float} {n : Nat} {x : Symbol} {row : Row Float}
      (new : ∀ e ∈ H, e.1 ≠ id)
      (held : constraints.get? id = some ⟨⟨.dummy n, none⟩, Strength.required⟩)
      (fresh : t.Over (Symbol.Below n)) (fixes : t.Fixes n c x row) :
      Layered constraints ((id, c) :: H) (t.attach x row)

variable {constraints constraints' : Table ConstraintId (Held Float)} {H : List Entry}
  {t : Tableau Float}

theorem isFeasible_attach {x : Symbol} (row : Row Float) (new : t.rows.get? x = none) :
    (t.attach x row).isFeasible =
      (t.isFeasible && (x.isExternal || !decide (row.constant < -Scalar.tolerance))) := by
  have entries := t.rows.entries_insert_new x row new
  unfold Tableau.isFeasible
  change (t.rows.insert x row).entries.all _ = _
  rw [entries, List.all_append, List.all_cons, List.all_nil, Bool.and_true]

theorem Over.absent {n : Nat} (h : t.Over (Symbol.Below n)) (y : Symbol) (r : Row Float)
    (hy : t.rows.get? y = some r) : r.cells.get? (.dummy n) = none := by
  rw [Table.get?_eq_none_iff]
  intro mentioned
  rcases h.rows y r hy _ mentioned with external | below
  · contradiction
  · exact Nat.lt_irrefl n below

theorem Over.not_basic {n : Nat} (h : t.Over (Symbol.Below n)) : t.rows.get? (.dummy n) = none := by
  cases basic : t.rows.get? (.dummy n) with
  | none => rfl
  | some row =>
    rcases h.basic _ row basic with external | below
    · contradiction
    · exact absurd below (Nat.lt_irrefl n)

theorem Fixes.new {n : Nat} {c : Constraint Float} {x : Symbol} {row : Row Float}
    (h : t.Fixes n c x row) (fresh : t.Over (Symbol.Below n)) : t.rows.get? x = none := by
  cases h with
  | first free => exact free
  | again own => exact fresh.not_basic

namespace Layered

theorem congr (h : t.Layered constraints H)
    (same : ∀ e ∈ H, constraints'.get? e.1 = constraints.get? e.1) : t.Layered constraints' H := by
  induction h with
  | base => exact .base
  | layer _ new held fresh fixes ih =>
    rw [List.forall_mem_cons] at same
    exact .layer (ih same.2) new (same.1.trans held) fresh fixes

theorem held (h : t.Layered constraints H) : ∀ e ∈ H, (constraints.get? e.1).isSome = true := by
  induction h with
  | base => exact nofun
  | layer _ _ held _ _ ih =>
    rw [List.forall_mem_cons]
    exact ⟨by rw [held]; rfl, ih⟩

theorem unpriced (h : t.Layered constraints H) : t.Unpriced := by
  induction h with
  | base => rfl
  | layer _ _ _ _ _ ih => exact ih

/-- Variables do not depend on each other. -/
theorem dummies (h : t.Layered constraints H) (x : Symbol) (row : Row Float)
    (hx : t.rows.get? x = some row) : ∀ y ∈ row.cells.keys, y.isDummy = true := by
  have alone (m : Nat) (p a : Float) :
      ∀ y ∈ (single (.dummy m) p a).cells.keys, y.isDummy = true := by
    intro y hy
    rw [List.mem_singleton.mp hy]
    rfl
  induction h with
  | base => contradiction
  | layer _ _ _ _ fixes ih =>
    rw [get?_attach] at hx
    split at hx
    · cases hx
      cases fixes with
      | first => exact alone _ _ _
      | again => exact alone _ _ _
    · exact ih hx

theorem absent (h : t.Layered constraints H) (v : Variable) (y : Symbol) (r : Row Float)
    (hy : t.rows.get? y = some r) : r.cells.get? (.external v) = none := by
  rw [Table.get?_eq_none_iff]
  intro mentioned
  have dummy := h.dummies y r hy _ mentioned
  contradiction

/-- The tableau shows each variable at the value that it was given first. -/
theorem reads (h : t.Layered constraints H) (v : Variable) :
    (t.rows.get? (.external v) = none ∧ given (texts H) v = none) ∨
      ∃ m a, t.rows.get? (.external v) = some (single (.dummy m) (-1) a) ∧
        given (texts H) v = some a := by
  induction h with
  | base => exact Or.inl ⟨rfl, rfl⟩
  | @layer H t below id c n x row new held fresh fixes ih =>
    rw [Backend.texts_cons, get?_attach]
    cases fixes with
    | @first w a free =>
      rw [Constraint.given_snoc]
      rcases ih with ⟨none, missing⟩ | ⟨m, b, own, first⟩
      · by_cases same : w = v
        · subst same
          exact Or.inr ⟨n, solution a, by rw [if_pos rfl], by rw [missing, if_pos rfl]; rfl⟩
        · have other : ¬Symbol.external w = .external v := fun h => same (Symbol.external.inj h)
          exact Or.inl ⟨by rw [if_neg other, none], by rw [missing, if_neg same]; rfl⟩
      · have other : ¬Symbol.external w = .external v := by
          intro h
          rw [h, own] at free
          contradiction
        exact Or.inr ⟨m, b, by rw [if_neg other, own], by rw [first]; rfl⟩
    | @again w a m' b' own' =>
      rw [Constraint.given_snoc, if_neg nofun]
      rcases ih with ⟨none, missing⟩ | ⟨m, b, own, first⟩
      · have other : ¬w = v := by
          rintro rfl
          rw [own'] at none
          contradiction
        exact Or.inl ⟨none, by rw [missing, if_neg other]; rfl⟩
      · exact Or.inr ⟨m, b, own, by rw [first]; rfl⟩

theorem gap_eq (h : t.Layered constraints H) {v : Variable} (a : Float) :
    gap (texts H) (fixing v a) =
      (t.rows.get? (.external v)).map fun row => a + row.constant * 1 := by
  rw [Constraint.gap_fixing]
  rcases h.reads v with ⟨none, missing⟩ | ⟨m, b, own, first⟩
  · rw [none, missing]
    rfl
  · rw [own, first]
    rfl

theorem isFeasible (h : t.Layered constraints H) :
    t.isFeasible = stands [] (texts H) := by
  induction h with
  | base => rfl
  | @layer H t below id c n x row new held fresh fixes ih =>
    rw [isFeasible_attach row (fixes.new fresh), ih, Backend.texts_cons, Constraint.stands_snoc, List.nil_append]
    congr 1
    cases fixes with
    | first free =>
      rw [upright, below.gap_eq, free]
      rfl
    | again own =>
      rw [upright, below.gap_eq, own]
      rfl

end Layered

/-- A marker that only the last row mentions, that of a variable, leaves through this row. -/
theorem exit?_last {v : Variable} {n : Nat} (a : Float) (free : t.rows.get? (.external v) = none)
    (fresh : t.Over (Symbol.Below n)) :
    exit? (t.attach (.external v) (single (.dummy n) (-1) a)) (.dummy n) =
      some ⟨0, .external v, single (.dummy n) (-1) a⟩ := by
  have zero : ((0 : Float) == 0) = true := by decide
  have minus : ((-1 : Float) == 0) = false := by decide
  have entries : (t.attach (.external v) (single (.dummy n) (-1) a)).rows.entries =
      t.rows.entries ++ [(.external v, single (.dummy n) (-1) a)] :=
    t.rows.entries_insert_new _ _ free
  have silent : ∀ e ∈ t.rows.entries, (e.2.coefficient (.dummy n) == 0) = true := by
    intro e he
    rw [Row.coefficient, fresh.absent e.1 e.2 ((t.rows.get?_eq_some_iff e.1 e.2).mpr he)]
    exact zero
  have own : (single (.dummy n) (-1) a).coefficient (.dummy n) = -1 := by
    rw [Row.coefficient, single, Table.get?_insert, if_pos rfl]
    rfl
  have redundant : (t.rows.entries ++ [(Symbol.external v, single (.dummy n) (-1) a)]).find?
      (fun e => e.1.isDummy && !(e.2.coefficient (.dummy n) == 0)) = none := by
    rw [List.find?_eq_none]
    intro e he
    rcases List.mem_append.mp he with old | last
    · simp [silent e old]
    · simp [List.mem_singleton.mp last, Symbol.isDummy]
  have skipped : t.rows.entries.foldl (considerExit (.dummy n)) ⟨none, none, none⟩ =
      ⟨none, none, none⟩ :=
    List.foldlRecOn (motive := fun exits : Exits Float => exits = ⟨none, none, none⟩)
      t.rows.entries _ rfl fun exits same e he => by
        rw [considerExit, if_pos (silent e he), same]
  unfold exit?
  rw [entries, redundant, List.foldl_append, skipped, List.foldl_cons, List.foldl_nil]
  dsimp only
  rw [considerExit, own, minus]
  rfl

theorem withdraw_last (unpriced : t.Unpriced) {v : Variable} {n : Nat} (a : Float)
    (free : t.rows.get? (.external v) = none) (fresh : t.Over (Symbol.Below n)) :
    (t.attach (.external v) (single (.dummy n) (-1) a)).withdraw (.dummy n) = (.ok (), t) := by
  have parametric : ¬(t.attach (.external v) (single (.dummy n) (-1) a)).rows.contains
      (.dummy n) = true := by
    rw [Table.contains, get?_attach, if_neg Symbol.noConfusion, fresh.not_basic]
    exact Bool.false_ne_true
  rw [withdraw, if_neg parametric, exit?_last a free fresh]
  dsimp only
  rw [detach_attach free, substitute_absent _ unpriced fresh.absent]

theorem withdraw_basic {x : Symbol} (row : Row Float) (new : t.rows.get? x = none) :
    (t.attach x row).withdraw x = (.ok (), t) := by
  have basic : (t.attach x row).rows.contains x = true := by
    rw [Table.contains, get?_attach, if_pos rfl]
    rfl
  rw [withdraw, if_pos basic, detach_attach new]

/-- Withdrawing the latest equation leaves the tableau that it was added to. -/
theorem Layered.withdraw {e : Entry} (h : t.Layered constraints (e :: H)) :
    ∃ n t', constraints.get? e.1 = some ⟨⟨.dummy n, none⟩, Strength.required⟩ ∧
      t.withdraw (.dummy n) = (.ok (), t') ∧ t'.Layered constraints H ∧ ∀ d ∈ H, d.1 ≠ e.1 := by
  cases h with
  | @layer _ t' below id c n x row new held fresh fixes =>
    refine ⟨n, t', held, ?_, below, new⟩
    cases fixes with
    | first free => exact withdraw_last below.unpriced _ free fresh
    | again own => exact withdraw_basic _ fresh.not_basic

end Tableau

namespace Solver

structure Fixed (s : Solver Float) (H : List Entry) : Prop where
  layered : s.tableau.Layered s.constraints H
  numbered : s.Numbered

variable {s : Solver Float} {H : List Entry}

theorem fixed_empty : (empty : Solver Float).Fixed [] := ⟨.base, numbered_empty⟩

theorem Fixed.newVariable (h : s.Fixed H) : s.newVariable.2.Fixed H :=
  ⟨h.layered, ⟨h.numbered.tableau, h.numbered.tags, h.numbered.issued, h.numbered.edits⟩⟩

theorem Fixed.update (h : s.Fixed H) :
    s.updateVariables.1 =
      (if stands [] (texts H) then .ok () else .error .unsatisfiable) ∧
    s.updateVariables.2.Fixed H := by
  have numbered := h.numbered.updateVariables
  have feasible := h.layered.isFeasible
  unfold updateVariables at numbered ⊢
  rw [← feasible]
  split
  · next yes =>
    rw [if_pos yes] at numbered
    exact ⟨rfl, h.layered, numbered⟩
  · exact ⟨rfl, h⟩

theorem Fixed.remove {e : Entry} (h : s.Fixed (e :: H)) :
    (s.removeConstraint e.1).1 = .ok () ∧ (s.removeConstraint e.1).2.Fixed H := by
  obtain ⟨n, t, held, withdrawn, layered, apart⟩ := h.layered.withdraw
  have run : s.removeConstraint e.1 =
      (.ok (), { s with constraints := s.constraints.eraseSwap e.1, tableau := t }) := by
    unfold removeConstraint
    rw [held]
    dsimp only
    rw [Tableau.removeCosts_of_no_errors rfl, withdrawn]
    dsimp only [optimise]
    rw [layered.unpriced.optimise]
  have numbered := h.numbered.removeConstraint e.1
  rw [run] at numbered ⊢
  refine ⟨rfl, layered.congr fun d hd => ?_, numbered⟩
  rw [Table.get?_eraseSwap, if_neg (apart d hd).symm]

theorem Fixed.record (h : s.Fixed H) {v : Variable} {a : Float} {x : Symbol} {row : Row Float}
    (fixes : s.tableau.Fixes s.nextSymbol (fixing v a) x row)
    (run : s.insert (fixing v a) = (.ok (⟨s.nextConstraint⟩, ⟨.dummy s.nextSymbol, none⟩),
      s.record (fixing v a) (s.tableau.attach x row) (s.nextSymbol + 1))) :
    (s.addConstraint (fixing v a)).1 = .ok ⟨s.nextConstraint⟩ ∧
      (s.addConstraint (fixing v a)).2.Fixed ((⟨s.nextConstraint⟩, fixing v a) :: H) := by
  have numbered := h.numbered.insert (fixing v a)
  have apart : ∀ e ∈ H, e.1 ≠ ⟨s.nextConstraint⟩ := by
    rintro e he same
    have held := h.layered.held e he
    rw [same, h.numbered.new] at held
    contradiction
  rw [run] at numbered
  rw [addConstraint, run]
  refine ⟨rfl, ?_, numbered⟩
  refine .layer (h.layered.congr fun e he => ?_) apart ?_ h.numbered.tableau fixes
  · exact (Table.get?_insert _ _ _ _).trans (if_neg (apart e he).symm)
  · refine (Table.get?_insert _ _ _ _).trans ((if_pos rfl).trans ?_)
    rw [Markers.ofConstraint_fixing]
    rfl

theorem Fixed.add (h : s.Fixed H) {c : Constraint Float} (known : Fixing c) :
    (fits (texts H) c = true ∧ ∃ id, (s.addConstraint c).1 = .ok id ∧
      (s.addConstraint c).2.Fixed ((id, c) :: H)) ∨
    (fits (texts H) c = false ∧ (s.addConstraint c).1 = .error .unsatisfiable ∧
      (s.addConstraint c).2.Fixed H) := by
  obtain ⟨fin, v, k, rfl⟩ := known
  rw [Constraint.relate_ofVariable] at fin ⊢
  have unpriced := h.layered.unpriced
  have gap := h.layered.gap_eq (v := v) (0 - k)
  rcases h.layered.reads v with ⟨free, -⟩ | ⟨m, x, own, -⟩
  · rw [free] at gap
    obtain ⟨ok, fixed⟩ := h.record (.first free) (insert_free fin unpriced free (h.layered.absent v))
    exact Or.inl ⟨by rw [fits, gap]; rfl, _, ok, fixed⟩
  · rw [own] at gap
    have old : m ≠ s.nextSymbol := by
      rintro rfl
      have absent := h.numbered.tableau.absent _ _ own
      rw [single, Table.get?_insert, if_pos rfl] at absent
      contradiction
    have run := insert_given fin unpriced own old h.numbered.tableau.absent
    split at run
    · next near =>
      obtain ⟨ok, fixed⟩ := h.record (.again own) run
      exact Or.inl ⟨by rw [fits, gap]; exact near, _, ok, fixed⟩
    · next far =>
      have numbered := h.numbered.insert (fixing v (0 - k))
      rw [run] at numbered
      rw [addConstraint, run]
      refine Or.inr ⟨?_, rfl, h.layered, numbered⟩
      rw [fits, gap]
      exact eq_false_of_ne_true far

theorem fixed_served {b : Solver Float} (h : Served Fixing Solver.empty H b) : b.Fixed H := by
  induction h with
  | start => exact fixed_empty
  | widened _ ih => exact ih.newVariable
  | @taken H b b' c id _ known run ih =>
    change b.addConstraint c = _ at run
    rcases ih.add known with ⟨-, id', ok, fixed⟩ | ⟨-, error, -⟩
    · rw [run] at ok fixed
      cases ok
      exact fixed
    · rw [run] at error
      contradiction
  | @refused H b b' c e _ known run ih =>
    change b.addConstraint c = _ at run
    rcases ih.add known with ⟨-, id', ok, -⟩ | ⟨-, -, fixed⟩
    · rw [run] at ok
      contradiction
    · rwa [run] at fixed
  | removed _ run ih =>
    have left := ih.remove.2
    change Solver.removeConstraint _ _ = _ at run
    rwa [run] at left
  | updated _ ih => exact ih.update.2

theorem judged_fixings :
    Backend.Judged Fixing (Solver.empty : Solver Float) fits (stands []) where
  taken H b c h known fit := by
    rcases (fixed_served h).add known with ⟨-, id, ok, -⟩ | ⟨unfit, -⟩
    · exact ⟨id, ok⟩
    · rw [fit] at unfit
      contradiction
  refused H b c h known unfit := by
    rcases (fixed_served h).add known with ⟨fit, -⟩ | ⟨-, error, -⟩
    · rw [fit] at unfit
      contradiction
    · exact error
  updated H b h := (fixed_served h).update.1
  removed H e b h := (fixed_served h).remove.1

/-- Given nothing but values of variables, the solver leaves no trace of what it no longer holds. -/
theorem traceless_fixings : Backend.Traceless Fixing (Solver.empty : Solver Float) :=
  judged_fixings.traceless

end Solver

end LinearChoice
