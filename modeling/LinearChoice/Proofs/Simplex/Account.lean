import LinearChoice.Proofs.Backend.Contract
import LinearChoice.Proofs.Pruner.Containment
import LinearChoice.Proofs.Simplex.Termination

/-!
# Accounts

Intervals have infinite ends, and the exact solver computes with rationals. An
account is a solver that is given the finite numbers of a constraint for the
rationals that they are, with a book of the constraints as the client has them.
It takes a constraint exactly if some values meet everything that is required
then, whatever was held or refused before.
-/

set_option autoImplicit false

namespace LinearChoice
open scoped Exact

def Expression.rational (e : Expression Extended) : Expression ℚ :=
  ⟨e.constant.toRat, e.terms.mapValues fun _ k => k.toRat⟩

def Strength.rational (s : Strength Extended) : Strength ℚ :=
  if s.isRequired then .required else ⟨s.weight.toRat⟩

namespace Strength

variable {s : Strength Extended}

theorem isRequired_iff : s.isRequired = true ↔ .finite 1001001000 ≤ s.weight := decide_eq_true_iff

theorem isRequired_rational (s : Strength Extended) : s.rational.isRequired = s.isRequired := by
  unfold rational
  split
  · next required => exact required.symm ▸ (by decide +kernel)
  · next optional =>
    have light : ¬(1001001000 : ℚ) ≤ s.weight.toRat := by
      rw [isRequired_iff] at optional
      cases weight : s.weight with
      | finite q => rwa [weight, Extended.finite_le_finite] at optional
      | negInf | posInf => exact not_le.mpr (by norm_num [Extended.toRat])
    rw [Bool.eq_false_iff.mpr optional]
    exact decide_eq_false light

theorem weight_rational (h : 0 ≤ s.weight) : 0 ≤ s.rational.weight := by
  unfold rational
  split
  · exact Session.weight_of_required (c := ⟨default, .equal, .required⟩) (by decide +kernel)
  · change 0 ≤ s.weight.toRat
    cases weight : s.weight with
    | finite q => exact Extended.finite_le_finite.mp (weight ▸ h)
    | negInf | posInf => exact le_rfl

end Strength

namespace Constraint

def rational (c : Constraint Extended) : Constraint ℚ :=
  ⟨c.expression.rational, c.relation, c.strength.rational⟩

def Usable (c : Constraint Extended) : Prop := c.isFinite = true ∧ 0 ≤ c.strength.weight

instance : DecidablePred Usable :=
  fun c => inferInstanceAs (Decidable (c.isFinite = true ∧ 0 ≤ c.strength.weight))

variable {c : Constraint Extended}

theorem isRequired_rational (c : Constraint Extended) : c.rational.isRequired = c.isRequired :=
  c.strength.isRequired_rational

theorem holds_rational (h : c.isFinite = true) (v : Variable → ℚ) :
    c.rational.holds v 0 = true ↔ c.Admits v := by
  rw [holds_exact, admits_iff_of_finite h, Expression.evaluate_eq]
  rfl

theorem Usable.weight (h : c.Usable) : 0 ≤ c.rational.strength.weight :=
  Strength.weight_rational h.2

theorem usable_of_required (fin : c.isFinite = true) (required : c.isRequired = true) :
    c.Usable :=
  ⟨fin, le_trans (Extended.finite_le_finite.mpr (by norm_num))
    (Strength.isRequired_iff.mp required)⟩

def Consistent (M : Multiset (Constraint Extended)) : Prop :=
  ∃ v, ∀ c ∈ M, c.isRequired = true → c.Admits v

end Constraint

open Constraint (Usable Consistent)

structure Account where
  solver : Solver ℚ
  held : Table ConstraintId (Constraint Extended)

namespace Account

def empty : Account := ⟨Solver.empty, Table.empty⟩

def constraints (a : Account) : Multiset (Constraint Extended) :=
  (a.held.entries : Multiset (Entry Extended)).map Prod.snd

def session (a : Account) : Session := ⟨a.solver, a.held.mapValues fun _ c => c.rational⟩

def newVariable (a : Account) : Variable × Account :=
  (a.solver.newVariable.1, ⟨a.solver.newVariable.2, a.held⟩)

def add (a : Account) (c : Constraint Extended) : Except SolverError ConstraintId × Account :=
  match a.solver.addConstraint c.rational with
  | (.ok id, s) => (.ok id, ⟨s, a.held.insert id c⟩)
  | (.error e, s) => (.error e, ⟨s, a.held⟩)

def remove (a : Account) (id : ConstraintId) : Except SolverError Unit × Account :=
  match a.solver.removeConstraint id with
  | (.ok (), s) => (.ok (), ⟨s, a.held.eraseSwap id⟩)
  | (.error e, s) => (.error e, ⟨s, a.held⟩)

def update (a : Account) : Except SolverError Unit × Account :=
  (a.solver.updateVariables.1, ⟨a.solver.updateVariables.2, a.held⟩)

structure Kept (a : Account) : Prop where
  keeps : ∃ base, a.session.solver.Keeps a.session.held base
  usable : ∀ c ∈ a.constraints, c.Usable

theorem kept_empty : empty.Kept :=
  ⟨⟨_, Solver.keeps_empty fun _ => 0⟩, by simp [constraints, empty, Table.empty]⟩

variable {a b : Account} {c : Constraint Extended} {id : ConstraintId}

/-- What satisfies the solver's book is what meets the required constraints of the client's. -/
theorem satisfied_iff (usable : ∀ c ∈ a.constraints, c.Usable) (v : Variable → ℚ) :
    a.session.held.Satisfied v ↔ ∀ c ∈ a.constraints, c.isRequired = true → c.Admits v := by
  have entry (id : ConstraintId) (d : Constraint ℚ) : a.session.held.get? id = some d ↔
      ∃ c, a.held.get? id = some c ∧ c.rational = d := by
    rw [session, Table.get?_mapValues, Option.map_eq_some_iff]
  have member (c : Constraint Extended) : c ∈ a.constraints ↔ ∃ id, a.held.get? id = some c := by
    simp [constraints, Table.get?_eq_some_iff]
  constructor
  · intro satisfied c hc required
    obtain ⟨id, found⟩ := (member c).mp hc
    exact (Constraint.holds_rational (usable c hc).1 v).mp
      (satisfied id c.rational ((entry id _).mpr ⟨c, found, rfl⟩)
        (c.isRequired_rational.trans required))
  · rintro met id d found required
    obtain ⟨c, held, rfl⟩ := (entry id d).mp found
    have hc := (member c).mpr ⟨id, held⟩
    exact (Constraint.holds_rational (usable c hc).1 v).mpr
      (met c hc (c.isRequired_rational.symm.trans required))

namespace Kept

theorem consistent (h : a.Kept) : Consistent a.constraints := by
  obtain ⟨base, keeps⟩ := h.keeps
  exact ⟨_, (satisfied_iff h.usable _).mp keeps.shown⟩

theorem add_cases (h : a.Kept) (usable : c.Usable) :
    (∃ id b, a.add c = (.ok id, b) ∧ b.Kept ∧
      (b.held.entries : Multiset (Entry Extended)) = (id, c) ::ₘ a.held.entries ∧
      Consistent (c ::ₘ a.constraints)) ∨
    (∃ b, a.add c = (.error .unsatisfiable, b) ∧ b.Kept ∧ b.held = a.held ∧
      ¬Consistent (c ::ₘ a.constraints)) := by
  obtain ⟨base, keeps⟩ := h.keeps
  have answers := Session.add_cases keeps usable.weight
    ((Session.ended_next keeps).1 c.rational usable.weight)
  unfold Session.add at answers
  unfold add
  cases run : a.solver.addConstraint c.rational with
  | mk outcome s =>
    rw [show a.session.solver = a.solver from rfl, run] at answers
    cases outcome with
    | ok id =>
      obtain ⟨id', base', ok, new, -, keeps'⟩ | ⟨refused, -⟩ := answers
      · cases ok
        have fresh : a.held.get? id = none := by
          rwa [session, Table.get?_mapValues, Option.map_eq_none_iff] at new
        have entries : ((a.held.insert id c).entries : Multiset (Entry Extended)) =
            (id, c) ::ₘ a.held.entries := by
          rw [Table.entries_insert_new _ _ _ fresh, ← Multiset.coe_add, Multiset.coe_singleton,
            add_comm, Multiset.singleton_add]
        have constraints : (⟨s, a.held.insert id c⟩ : Account).constraints =
            c ::ₘ a.constraints := by
          rw [Account.constraints, entries, Multiset.map_cons, Account.constraints]
        have kept : (⟨s, a.held.insert id c⟩ : Account).Kept := by
          refine ⟨⟨base', ?_⟩, ?_⟩
          · rw [session, Table.mapValues_insert]
            exact keeps'
          · rw [constraints]
            exact Multiset.forall_mem_cons.mpr ⟨usable, h.usable⟩
        exact Or.inl ⟨id, _, rfl, kept, entries, constraints ▸ kept.consistent⟩
      · cases refused
    | error e =>
      obtain ⟨id', base', ok, -⟩ | ⟨refused, -, keeps', required, never⟩ := answers
      · cases ok
      · cases refused
        refine Or.inr ⟨_, rfl, ⟨⟨base, keeps'⟩, h.usable⟩, rfl, ?_⟩
        rintro ⟨v, met⟩
        obtain ⟨own, others⟩ := Multiset.forall_mem_cons.mp met
        rw [c.isRequired_rational] at required
        exact never ⟨v, (satisfied_iff h.usable v).mpr others,
          (Constraint.holds_rational usable.1 v).mpr (own required)⟩

theorem remove_cases (h : a.Kept) (id : ConstraintId) :
    (∃ c b, a.remove id = (.ok (), b) ∧ b.Kept ∧
      (a.held.entries : Multiset (Entry Extended)) = (id, c) ::ₘ b.held.entries) ∨
    (∃ e, a.remove id = (.error e, a) ∧ ∀ c, (id, c) ∉ a.held.entries) := by
  obtain ⟨base, keeps⟩ := h.keeps
  have read : a.session.held.get? id = (a.held.get? id).map Constraint.rational := by
    rw [session, Table.get?_mapValues]
  cases held : a.held.get? id with
  | none =>
    have unknown : a.solver.constraints.get? id = none := by
      have record := keeps.records id
      rwa [read, held] at record
    refine Or.inr ⟨.unknownConstraint, by simp [remove, Solver.removeConstraint, unknown], ?_⟩
    intro c hc
    rw [(a.held.get?_eq_some_iff id c).mpr hc] at held
    cases held
  | some c =>
    rw [held] at read
    have found : a.session.held.contains id = true := Option.isSome_iff_exists.mpr ⟨_, read⟩
    rcases Session.remove_cases keeps id ((Session.ended_next keeps).2 id) with
      ⟨-, ok, keeps'⟩ | ⟨missing, -⟩
    · unfold Session.remove at ok keeps'
      unfold remove
      cases run : a.solver.removeConstraint id with
      | mk outcome s =>
        rw [show a.session.solver = a.solver from rfl, run] at ok keeps'
        cases outcome with
        | error e => cases ok
        | ok =>
          have erased := Multiset.coe_eq_coe.mpr (a.held.entries_perm_eraseSwap id c held)
          refine Or.inl ⟨c, _, rfl, ⟨⟨base, ?_⟩, fun d hd => h.usable d ?_⟩, erased⟩
          · rw [session, Table.mapValues_eraseSwap]
            exact keeps'
          · rw [constraints, erased, ← Multiset.cons_coe, Multiset.map_cons]
            exact Multiset.mem_cons_of_mem hd
    · rw [missing] at found
      contradiction

theorem update_cases (h : a.Kept) :
    ∃ b, a.update = (.ok (), b) ∧ b.Kept ∧ b.held = a.held ∧
      ∀ c ∈ b.constraints, c.isRequired = true → c.Admits b.solver.value := by
  obtain ⟨base, keeps⟩ := h.keeps
  obtain ⟨s, run, keeps', value⟩ := keeps.update
  have answer : a.update = (.ok (), ⟨s, a.held⟩) := by
    rw [Account.update, show a.solver.updateVariables = _ from run]
  refine ⟨_, answer, ⟨⟨base, keeps'⟩, h.usable⟩, rfl, ?_⟩
  rw [value]
  exact (satisfied_iff h.usable _).mp keeps.shown

theorem add (h : a.Kept) (usable : c.Usable) : (a.add c).2.Kept := by
  rcases h.add_cases usable with ⟨id, b, run, kept, -⟩ | ⟨b, run, kept, -⟩
  · exact run ▸ kept
  · exact run ▸ kept

theorem remove (h : a.Kept) (id : ConstraintId) : (a.remove id).2.Kept := by
  rcases h.remove_cases id with ⟨c, b, run, kept, -⟩ | ⟨e, run, -⟩
  · exact run ▸ kept
  · exact run ▸ h

theorem update (h : a.Kept) : a.update.2.Kept := by
  obtain ⟨b, run, kept, -⟩ := h.update_cases
  exact run ▸ kept

theorem newVariable (h : a.Kept) : a.newVariable.2.Kept := by
  obtain ⟨base, keeps⟩ := h.keeps
  exact ⟨⟨base, keeps.records, keeps.issued, keeps.weights, keeps.numbered, keeps.describes⟩,
    h.usable⟩

end Kept

theorem solver_add (a : Account) (c : Constraint Extended) :
    a.solver.addConstraint c.rational = ((a.add c).1, (a.add c).2.solver) := by
  unfold add
  rcases a.solver.addConstraint c.rational with ⟨_ | _, s⟩ <;> rfl

theorem solver_remove (a : Account) (id : ConstraintId) :
    a.solver.removeConstraint id = ((a.remove id).1, (a.remove id).2.solver) := by
  unfold remove
  rcases a.solver.removeConstraint id with ⟨_ | _, s⟩ <;> rfl

end Account

end LinearChoice
