import LinearChoice.Proofs.Backend.Replay
import LinearChoice.Proofs.Simplex.Account

/-!
# The simplex solver in exact arithmetic

An exact solver with the proof that its account is kept decides: it keeps the
contract of a backend, and whether a constraint is taken depends on nothing but
what is held. The solver by itself answers the same on usable constraints, so it
leaves no trace of what it refused or gave back.
-/

set_option autoImplicit false

namespace LinearChoice
open scoped Exact
open Constraint (Usable Consistent)

structure Desk extends Account where
  kept : toAccount.Kept

namespace Desk

def empty : Desk := ⟨Account.empty, Account.kept_empty⟩

def add (d : Desk) (c : Constraint Extended) : Except SolverError ConstraintId × Desk :=
  if usable : c.Usable then ((d.toAccount.add c).1, ⟨_, d.kept.add usable⟩)
  else (.error .unsatisfiable, d)

def remove (d : Desk) (id : ConstraintId) : Except SolverError Unit × Desk :=
  ((d.toAccount.remove id).1, ⟨_, d.kept.remove id⟩)

instance : BackendOver Desk Extended where
  newVariable d := (d.toAccount.newVariable.1, ⟨_, d.kept.newVariable⟩)
  addConstraint := add
  removeConstraint := remove
  updateVariables d := (d.toAccount.update.1, ⟨_, d.kept.update⟩)
  value d v := .finite (d.solver.value v)
  constraintCount d := d.solver.constraintCount

def Feasible (M : Multiset (Constraint Extended)) : Prop :=
  (∀ c ∈ M, c.Usable) ∧ Consistent M

variable {d : Desk}

theorem add_usable {c : Constraint Extended} (usable : c.Usable) :
    (d.add c).1 = (d.toAccount.add c).1 ∧
      (d.add c).2.toAccount = (d.toAccount.add c).2 := by
  unfold add
  rw [dif_pos usable]
  exact ⟨rfl, rfl⟩

theorem add_cases (d : Desk) (c : Constraint Extended) :
    (∃ id, (d.add c).1 = .ok id ∧
      ((d.add c).2.held.entries : Multiset (Entry Extended)) = (id, c) ::ₘ d.held.entries ∧
      Feasible (c ::ₘ d.constraints)) ∨
    ((d.add c).1 = .error .unsatisfiable ∧ (d.add c).2.held = d.held ∧
      ¬Feasible (c ::ₘ d.constraints)) := by
  by_cases usable : c.Usable
  · obtain ⟨answer, account⟩ := d.add_usable usable
    rw [answer, account]
    rcases d.kept.add_cases usable with ⟨id, b, run, -, entries, fit⟩ | ⟨b, run, -, same, full⟩
    · rw [run]
      exact Or.inl ⟨id, rfl, entries, Multiset.forall_mem_cons.mpr ⟨usable, d.kept.usable⟩, fit⟩
    · rw [run]
      exact Or.inr ⟨rfl, same, fun fit => full fit.2⟩
  · unfold add
    rw [dif_neg usable]
    exact Or.inr ⟨rfl, rfl, fun fit => usable (fit.1 c (Multiset.mem_cons_self _ _))⟩

theorem remove_cases (d : Desk) (id : ConstraintId) :
    (∃ c, (d.remove id).1 = .ok () ∧
      (d.held.entries : Multiset (Entry Extended)) = (id, c) ::ₘ (d.remove id).2.held.entries) ∨
    (∃ e, (d.remove id).1 = .error e ∧ (d.remove id).2.held = d.held ∧
      ∀ c, (id, c) ∉ d.held.entries) := by
  have account : (d.remove id).2.held = (d.toAccount.remove id).2.held := rfl
  rw [account]
  rcases d.kept.remove_cases id with ⟨c, b, run, -, entries⟩ | ⟨e, run, missing⟩
  · rw [run]
    exact Or.inl ⟨c, congrArg Prod.fst run, entries⟩
  · rw [run]
    exact Or.inr ⟨e, congrArg Prod.fst run, rfl, missing⟩

def contract : Contract Desk where
  held d := d.held.entries
  nodup d := d.held.nodup_keys
  newVariable _ := rfl
  add_ok d c id d' run := by
    change d.add c = _ at run
    rcases d.add_cases c with ⟨id', ok, entries, -⟩ | ⟨refused, -⟩
    · rw [run] at ok entries
      cases ok
      exact entries
    · rw [run] at refused
      cases refused
  add_error d c e d' run := by
    change d.add c = _ at run
    rcases d.add_cases c with ⟨id', ok, -⟩ | ⟨-, same, -⟩
    · rw [run] at ok
      cases ok
    · rw [run] at same
      rw [same]
  remove_ok d id d' run := by
    change d.remove id = _ at run
    rcases d.remove_cases id with ⟨c, -, entries⟩ | ⟨e, refused, -⟩
    · rw [run] at entries
      exact ⟨c, entries⟩
    · rw [run] at refused
      cases refused
  remove_error d id e d' run := by
    change d.remove id = _ at run
    rcases d.remove_cases id with ⟨c, ok, -⟩ | ⟨e', -, same, -⟩
    · rw [run] at ok
      cases ok
    · rw [run] at same
      rw [same]
  update _ := rfl

def deciding : Deciding Desk where
  toContract := contract
  feasible := Feasible
  final _ := True
  feasible_mono M N le fit := by
    obtain ⟨usable, v, met⟩ := fit
    exact ⟨fun c hc => usable c (Multiset.mem_of_le le hc),
      v, fun c hc => met c (Multiset.mem_of_le le hc)⟩
  add_taken d c fit := by
    rcases d.add_cases c with ⟨id, ok, -⟩ | ⟨-, -, full⟩
    · exact ⟨id, ok⟩
    · exact absurd fit full
  add_refused d c full := by
    rcases d.add_cases c with ⟨-, -, -, fit⟩ | ⟨refused, -⟩
    · exact absurd fit full
    · exact refused
  update_taken d _ := by
    obtain ⟨b, run, -⟩ := d.kept.update_cases
    exact congrArg Prod.fst run
  update_refused _ never := absurd trivial never
  remove_held d e he := by
    rcases d.remove_cases e.1 with ⟨c, ok, -⟩ | ⟨error, -, -, missing⟩
    · exact ok
    · exact absurd he (missing e.2)

def sound : Sound Desk where
  toContract := contract
  tolerance := 0
  update_sound d d' run e he required := by
    obtain ⟨-, rfl⟩ := Prod.mk.inj run
    obtain ⟨b, updated, -, -, met⟩ := d.kept.update_cases
    rw [← show d.toAccount.update.2 = b from congrArg Prod.snd updated] at met
    exact met e.2 (Multiset.mem_map_of_mem Prod.snd he) required

end Desk

namespace Exact

scoped instance solver : BackendOver (Solver ℚ) Extended where
  newVariable := Solver.newVariable
  addConstraint s c :=
    if c.isFinite then s.addConstraint c.rational else (.error (.internal .nonFinite), s)
  removeConstraint := Solver.removeConstraint
  updateVariables := Solver.updateVariables
  value s v := .finite (s.value v)
  constraintCount := Solver.constraintCount

end Exact

namespace Solver

open Backend (Judged Served accepts takes texts)

variable {s : Solver ℚ} {c : Constraint Extended} {H : List (Entry Extended)}

/-- On usable constraints a solver answers as the desk that it is at. -/
theorem add_desk (d : Desk) (usable : c.Usable) :
    Backend.addConstraint d.solver c =
      (Backend.addConstraint d c).map id (fun d => d.solver) := by
  obtain ⟨answer, account⟩ := d.add_usable usable
  change _ = ((d.add c).1, (d.add c).2.solver)
  rw [answer, account, ← d.solver_add]
  exact if_pos usable.1

theorem remove_desk (d : Desk) (id' : ConstraintId) :
    Backend.removeConstraint d.solver id' =
      (Backend.removeConstraint d id').map id (fun d => d.solver) := d.solver_remove id'

/-- To a solver in use belongs a desk in the same use. -/
theorem desk_of_served (h : Served Usable (empty : Solver ℚ) H s) :
    ∃ d : Desk, d.solver = s ∧ Served Usable Desk.empty H d := by
  induction h with
  | start => exact ⟨Desk.empty, rfl, .start⟩
  | widened _ ih =>
    obtain ⟨d, rfl, served⟩ := ih
    exact ⟨_, rfl, .widened served⟩
  | @taken H s s' c id _ usable run ih =>
    obtain ⟨d, rfl, served⟩ := ih
    rw [add_desk d usable] at run
    cases added : Backend.addConstraint d c with
    | mk outcome d' =>
      rw [added] at run
      cases run
      exact ⟨d', rfl, .taken served usable added⟩
  | @refused H s s' c e _ usable run ih =>
    obtain ⟨d, rfl, served⟩ := ih
    rw [add_desk d usable] at run
    cases failed : Backend.addConstraint d c with
    | mk outcome d' =>
      rw [failed] at run
      cases run
      exact ⟨d', rfl, .refused served usable failed⟩
  | @removed H e s s' _ run ih =>
    obtain ⟨d, rfl, served⟩ := ih
    rw [remove_desk] at run
    cases removed : Backend.removeConstraint d e.1 with
    | mk outcome d' =>
      rw [removed] at run
      cases run
      exact ⟨d', rfl, .removed served removed⟩
  | updated _ ih =>
    obtain ⟨d, rfl, served⟩ := ih
    exact ⟨_, rfl, .updated served⟩

open Classical in
/-- Some values meeting all that is required is what decides whether a constraint is taken. -/
theorem judged : Judged Usable (empty : Solver ℚ)
    (fun cs c => decide (Desk.deciding.feasible (c ::ₘ cs)))
    fun cs => decide (Desk.deciding.final cs) where
  taken H s c h usable fit := by
    obtain ⟨d, rfl, served⟩ := desk_of_served h
    rw [add_desk d usable]
    exact (Desk.deciding.judged rfl).taken H d c served usable fit
  refused H s c h usable full := by
    obtain ⟨d, rfl, served⟩ := desk_of_served h
    rw [add_desk d usable]
    exact (Desk.deciding.judged rfl).refused H d c served usable full
  updated H s h := by
    obtain ⟨d, rfl, served⟩ := desk_of_served h
    exact (Desk.deciding.judged rfl).updated H d served
  removed H e s h := by
    obtain ⟨d, rfl, served⟩ := desk_of_served h
    rw [remove_desk]
    exact (Desk.deciding.judged rfl).removed H e d served

/-- A fresh solver takes constraints one after another exactly if some values meet all that is
required. -/
theorem takes_iff {cs : List (Constraint Extended)} (usable : ∀ c ∈ cs, c.Usable) :
    takes (empty : Solver ℚ) cs = true ↔ Consistent (cs : Multiset (Constraint Extended)) := by
  induction cs using List.reverseRecOn with
  | nil => exact iff_of_true rfl ⟨fun _ => 0, by simp⟩
  | append_singleton cs c ih =>
    rw [List.forall_mem_append, List.forall_mem_singleton] at usable
    have together : ((cs ++ [c] : List (Constraint Extended)) : Multiset (Constraint Extended)) =
        c ::ₘ cs := by
      rw [← Multiset.coe_add, Multiset.coe_singleton, add_comm, Multiset.singleton_add]
    have known : ∀ d ∈ c ::ₘ (cs : Multiset (Constraint Extended)), d.Usable :=
      Multiset.forall_mem_cons.mpr ⟨usable.2, usable.1⟩
    rw [judged.takes_snoc usable.1 usable.2, Bool.and_eq_true, ih usable.1, together,
      @decide_eq_true_iff _ (Classical.propDecidable _)]
    constructor
    · exact fun all => all.2.2
    · exact fun all => ⟨(Desk.deciding.feasible_mono _ _ (Multiset.le_cons_self _ _)
        ⟨known, all⟩).2, known, all⟩

theorem accepts_iff {cs : List (Constraint Extended)} (usable : ∀ c ∈ cs, c.Usable) :
    accepts (empty : Solver ℚ) cs = true ↔ Consistent (cs : Multiset (Constraint Extended)) := by
  rw [← takes_iff usable]
  refine ⟨Backend.takes_of_accepts, fun took => ?_⟩
  obtain ⟨s, run⟩ := Option.isSome_iff_exists.mp took
  obtain ⟨Q, rfl, served⟩ := Served.start.replay usable run
  rw [List.append_nil] at served
  rw [judged.accepts_served served]
  exact @decide_eq_true _ (Classical.propDecidable _) trivial

end Solver

end LinearChoice
