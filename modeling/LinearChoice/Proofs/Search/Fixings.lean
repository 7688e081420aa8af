import LinearChoice.Proofs.Search.Replay
import LinearChoice.Proofs.Simplex.Layers

/-!
# Values that are told apart

The solver measures the two sides of an equation and the pruner the values of a
variable. On equations that give variables values from a list on which the two
measures agree, the pruner rejects nothing that a fresh solver would take.
-/

set_option autoImplicit false

namespace LinearChoice

open Backend (Served Judged Traceless takes)
open Constraint (Fixing fits gap given fixing)
open Row (solution)

instance : DecidableEq (Interval Float) := fun i j =>
  decidable_of_iff (i.lower = j.lower ∧ i.upper = j.upper) (by cases i; cases j; simp)

def Constraint.FixingAmong (ks : List Float) (c : Constraint Float) : Prop :=
  ∃ v, ∃ k ∈ ks, c = .relate (.ofVariable v) .equal k

open Constraint (FixingAmong)

def reading (k : Float) : Float := -(0 - k) / 1

/-- Nowhere do the solver and the pruner disagree on whether two values of the list are the same. -/
structure Legible (ks : List Float) : Prop where
  finite : ∀ k ∈ ks, Scalar.isFinite (0 - k) = true
  apart : ∀ k ∈ ks, ∀ j ∈ ks,
    Scalar.nearZero (Scalar.magnitude (0 - k + solution (0 - j) * 1)) = true → k = j
  kept : ∀ k ∈ ks, ∀ i ∈ [Interval.unbounded, .point (reading k)],
    i.intersect (.point (reading k)) = .point (reading k)
  occupied : ∀ k ∈ ks, (Interval.point (reading k)).isEmpty = false

theorem Constraint.unitBound?_fixing (v : Variable) (k : Float) :
    (relate (.ofVariable v) .equal k).unitBound? = some (v, .point (reading k)) := by
  rw [relate_ofVariable, unitBound?, if_pos (isRequired_fixing v _)]
  rfl

theorem Constraint.isLinear_fixing (v : Variable) (k : Float) :
    (relate (.ofVariable v) .equal k).isLinear = false := by
  rw [relate_ofVariable, isLinear, Bool.and_eq_false_iff]
  exact Or.inr rfl

variable {ks : List Float}

namespace Legible

variable (L : Legible ks)

include L

theorem fixing {c : Constraint Float} (h : FixingAmong ks c) : Fixing c := by
  obtain ⟨v, k, mem, rfl⟩ := h
  refine ⟨?_, v, k, rfl⟩
  have one : Scalar.isFinite (1 : Float) = true := by decide
  rw [Constraint.relate_ofVariable]
  change (Scalar.isFinite (0 - k) && (Scalar.isFinite (1 : Float) && true)) = true
  rw [L.finite k mem, one]
  rfl

theorem traceless : Traceless (FixingAmong ks) (Solver.empty : Solver Float) :=
  (Solver.judged_fixings.mono fun _ => L.fixing).traceless

end Legible

def Valued (ks : List Float) (w : Variable → Float) (cs : List (Constraint Float)) : Prop :=
  ∀ c ∈ cs, ∃ v, w v ∈ ks ∧ c = .relate (.ofVariable v) .equal (w v)

namespace Valued

variable {w : Variable → Float} {cs : List (Constraint Float)} {v : Variable}

theorem snoc (h : Valued ks w cs) (mem : w v ∈ ks) :
    Valued ks w (cs ++ [.relate (.ofVariable v) .equal (w v)]) := by
  unfold Valued
  rw [List.forall_mem_append, List.forall_mem_singleton]
  exact ⟨h, v, mem, rfl⟩

/-- Where no equation is for a variable, any value will do for it. -/
theorem update (h : Valued ks w cs) (k : Float)
    (unnamed : (cs.find? fun c => c.expression.contains v) = none) :
    Valued ks (Function.update w v k) cs := by
  intro c hc
  obtain ⟨u, mem, rfl⟩ := h c hc
  have other : u ≠ v := by
    rintro rfl
    have missed := List.find?_eq_none.mp unnamed _ hc
    rw [Constraint.relate_ofVariable, Constraint.contains_fixing] at missed
    simp at missed
  exact ⟨u, by rwa [Function.update_of_ne other], by rw [Function.update_of_ne other]⟩

end Valued

theorem Legible.valued_of_takes (L : Legible ks) {cs : List (Constraint Float)}
    (known : ∀ c ∈ cs, FixingAmong ks c) (took : takes (Solver.empty : Solver Float) cs = true) :
    ∃ w, Valued ks w cs := by
  have judged := Solver.judged_fixings.mono fun _ => L.fixing
  induction cs using List.reverseRecOn with
  | nil => exact ⟨fun _ => 0, nofun⟩
  | append_singleton cs c ih =>
    rw [List.forall_mem_append, List.forall_mem_singleton] at known
    rw [judged.takes_snoc known.1 known.2, Bool.and_eq_true] at took
    obtain ⟨w, valued⟩ := ih known.1 took.1
    obtain ⟨v, k, mem, rfl⟩ := known.2
    have fit := took.2
    rw [fits, Constraint.relate_ofVariable, Constraint.gap_fixing] at fit
    cases first : cs.find? fun c => c.expression.contains v with
    | none =>
      have added := (valued.update k first).snoc (v := v) (by rwa [Function.update_self])
      rw [Function.update_self] at added
      exact ⟨_, added⟩
    | some c =>
      obtain ⟨u, mem', rfl⟩ := valued c (List.mem_of_find?_eq_some first)
      have named := List.find?_some first
      rw [Constraint.relate_ofVariable, Constraint.contains_fixing] at named
      obtain rfl := of_decide_eq_true named
      rw [given, first, Option.map_some, Option.map_some, Option.all_some,
        Constraint.relate_ofVariable] at fit
      obtain rfl := L.apart k mem _ mem' fit
      exact ⟨w, valued.snoc mem⟩

def Bounds.Pinned (ks : List Float) (w : Variable → Float) (b : Bounds Float) : Prop :=
  ∀ v, b.of v = Interval.unbounded ∨ w v ∈ ks ∧ b.of v = .point (reading (w v))

namespace Bounds.Pinned

variable {w : Variable → Float} {b : Bounds Float}

theorem intersect (L : Legible ks) (h : b.Pinned ks w) {v : Variable} (mem : w v ∈ ks) :
    (b.of v).intersect (.point (reading (w v))) = .point (reading (w v)) := by
  rcases h v with free | ⟨-, own⟩
  · rw [free]
    exact L.kept _ mem _ List.mem_cons_self
  · rw [own]
    exact L.kept _ mem _ (List.mem_cons_of_mem _ List.mem_cons_self)

theorem insert (h : b.Pinned ks w) {v : Variable} (mem : w v ∈ ks) :
    Bounds.Pinned ks w (b.insert v (.point (reading (w v)))) := by
  intro u
  have reads : Bounds.of (b.insert v (.point (reading (w v)))) u =
      if v = u then .point (reading (w v)) else b.of u := by
    unfold Bounds.of
    rw [Table.get?_insert]
    split <;> rfl
  rw [reads]
  split
  · next same =>
    subst same
    exact Or.inr ⟨mem, rfl⟩
  · exact h u

theorem tighten (L : Legible ks) (h : b.Pinned ks w) {v : Variable} (mem : w v ∈ ks) :
    ∃ narrowed b', b.tighten v (.point (reading (w v))) = .ok (narrowed, b') ∧
      b'.Pinned ks w := by
  unfold Bounds.tighten
  dsimp only
  rw [h.intersect L mem, L.occupied _ mem]
  split
  · contradiction
  · split
    · exact ⟨true, _, rfl, h.insert mem⟩
    · exact ⟨false, b, rfl, h⟩

end Bounds.Pinned

namespace Pruner

variable {w : Variable → Float} {p : Pruner Float} {cs : List (Constraint Float)}

structure Pinned (ks : List Float) (w : Variable → Float) (p : Pruner Float) : Prop where
  bounds : p.bounds.Pinned ks w
  linear : p.linear = []

theorem pinned_empty (ks : List Float) (w : Variable → Float) (mode : PruneMode) :
    (empty mode).Pinned ks w := ⟨fun _ => Or.inl rfl, rfl⟩

theorem Pinned.commit (L : Legible ks) (h : p.Pinned ks w) (valued : Valued ks w cs) :
    (p.commit cs).Pinned ks w := by
  induction cs generalizing p with
  | nil => exact h
  | cons c cs ih =>
    obtain ⟨own, others⟩ := List.forall_mem_cons.mp valued
    obtain ⟨v, mem, rfl⟩ := own
    refine ih (p := p.commitOne _) ?_ others
    rw [commitOne, Constraint.unitBound?_fixing]
    dsimp only [commitBound]
    rw [show (p.bounds.get? v).getD Interval.unbounded = p.bounds.of v from rfl,
      h.bounds.intersect L mem]
    split
    · exact h
    · exact ⟨h.bounds.insert mem, h.linear⟩

theorem Pinned.narrow (L : Legible ks) (h : p.Pinned ks w) (valued : Valued ks w cs) :
    ∃ b, p.narrow cs = .ok b := by
  have pinned := h.bounds
  unfold Pruner.narrow
  generalize p.bounds = b at pinned ⊢
  induction cs generalizing b with
  | nil => exact ⟨b, rfl⟩
  | cons c cs ih =>
    obtain ⟨own, others⟩ := List.forall_mem_cons.mp valued
    obtain ⟨v, mem, rfl⟩ := own
    obtain ⟨narrowed, b', run, pinned'⟩ := pinned.tighten L mem
    obtain ⟨b'', runs⟩ := ih others b' pinned'
    refine ⟨b'', ?_⟩
    rw [List.filterMap_cons_some (Constraint.unitBound?_fixing v (w v)), List.foldlM_cons, run]
    exact runs

/-- No value is rejected that was committed, or that nothing was committed of. -/
theorem Pinned.check (L : Legible ks) (h : p.Pinned ks w) (valued : Valued ks w cs) :
    p.check cs = .ok () := by
  obtain ⟨b, run⟩ := h.narrow L valued
  have linear : p.linear ++ cs.filter Constraint.isLinear = [] := by
    rw [h.linear, List.nil_append, List.filter_eq_nil_iff]
    intro c hc
    obtain ⟨v, -, rfl⟩ := valued c hc
    rw [Constraint.isLinear_fixing]
    exact Bool.false_ne_true
  unfold Pruner.check
  cases p.mode with
  | off => rfl
  | bounds =>
    rw [run]
    rfl
  | propagate =>
    rw [run, linear]
    rfl

end Pruner

/-- Whatever the pruner rejects, the solver would not have taken either. -/
theorem Legible.harmless (L : Legible ks) (mode : PruneMode) :
    Search.Harmless (FixingAmong ks) (Solver.empty : Solver Float) mode := by
  intro cs alternative conflict known known' rejected
  rw [Bool.eq_false_iff]
  intro took
  obtain ⟨w, valued⟩ := L.valued_of_takes (List.forall_mem_append.mpr ⟨known, known'⟩) took
  obtain ⟨own, others⟩ := List.forall_mem_append.mp valued
  have passed := ((Pruner.pinned_empty ks w mode).commit L own).check L others
  rw [rejected] at passed
  contradiction

end LinearChoice
