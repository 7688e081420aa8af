import LinearChoice.Proofs.Pruner.Containment
import LinearChoice.Proofs.Pruner.Undo

/-!
# The tightest bounds

The bounds of a variable are exactly those that the committed required
constraints on this variable alone put on it. Each end is the closest of the
ends of their intervals, so it does not matter in which order and how often
they were committed, and other constraints have no part in it.
-/

set_option autoImplicit false

namespace LinearChoice
open scoped Exact

namespace Constraint

variable {α : Type} [ExtendedScalar α] {c : Constraint α} {v : Variable}

def Binds (c : Constraint α) (v : Variable) : Prop := c.isRequired = true ∧ c.support = [v]

theorem binds_iff : c.Binds v ↔ ∃ i, c.unitBound? = some (v, i) := by
  unfold Binds unitBound? support Expression.support Table.keys
  split
  · next required =>
    split
    · next w k single =>
      rw [single]
      cases c.relation <;> simp [required]
    · next several =>
      simp only [required, true_and, reduceCtorEq, exists_false, iff_false]
      intro alone
      obtain ⟨t, single, -⟩ := List.map_eq_singleton_iff.mp alone
      exact several t.1 t.2 single
  · next optional => simp [optional]

end Constraint

namespace Interval

variable {i j : Interval Extended} {a b : Extended}

theorem spans_unbounded : (unbounded : Interval Extended).Spans a b :=
  ⟨Extended.negInf_le, Extended.le_posInf⟩

/-- An interval is known by what it spans, inverted ones included. -/
theorem eq_of_spans (same : ∀ a b, i.Spans a b ↔ j.Spans a b) : i = j := by
  have lower : i.lower = j.lower := eq_of_forall_ge_iff fun a => by
    simpa [Spans] using same a .negInf
  have upper : i.upper = j.upper := eq_of_forall_le_iff fun b => by
    simpa [Spans] using same .posInf b
  cases i
  cases j
  simp_all

theorem eq_of_beq (same : (i == j) = true) : i = j := by
  obtain ⟨lower, upper⟩ := Bool.and_eq_true_iff.mp same
  have lower : i.lower = j.lower := of_decide_eq_true lower
  have upper : i.upper = j.upper := of_decide_eq_true upper
  cases i
  cases j
  simp_all

end Interval

namespace Pruner

variable {p : Pruner Extended} {v : Variable} {a b : Extended}

/-- A bound that changes nothing is not written down, and need not be. -/
theorem of_commitBound (p : Pruner Extended) (v w : Variable) (i : Interval Extended) :
    (p.commitBound v i).bounds.of w =
      if v = w then (p.bounds.of v).intersect i else p.bounds.of w := by
  unfold commitBound
  dsimp only
  split
  · next same =>
    split
    · next here =>
      subst here
      -- The test compares with a stored interval only, so an absent one is never left out.
      cases old : p.bounds.get? v with
      | none =>
        rw [old] at same
        cases same
      | some j =>
        rw [old] at same
        have next : j = j.intersect i := Interval.eq_of_beq same
        rw [Bounds.of, old]
        exact next
    · rfl
  · unfold Bounds.of
    rw [Table.get?_insert]
    split <;> rfl

theorem spans_commitOne (c : Constraint Extended) :
    ((p.commitOne c).bounds.of v).Spans a b ↔
      (p.bounds.of v).Spans a b ∧ ∀ i, c.unitBound? = some (v, i) → i.Spans a b := by
  unfold commitOne
  cases bound : c.unitBound? with
  | some target =>
    obtain ⟨w, i⟩ := target
    dsimp only
    rw [of_commitBound]
    by_cases here : w = v
    · subst here
      simp [Interval.spans_intersect]
    · simp [here]
  | none =>
    dsimp only
    split <;> simp

theorem spans_commit (cs : List (Constraint Extended)) :
    ((p.commit cs).bounds.of v).Spans a b ↔
      (p.bounds.of v).Spans a b ∧ ∀ c ∈ cs, ∀ i, c.unitBound? = some (v, i) → i.Spans a b := by
  induction cs generalizing p with
  | nil => simp [commit]
  | cons c cs ih =>
    change (((p.commitOne c).commit cs).bounds.of v).Spans a b ↔ _
    rw [ih, spans_commitOne, List.forall_mem_cons, and_assoc]

theorem spans_committed (mode : PruneMode) (cs : List (Constraint Extended)) :
    (((empty mode).commit cs).bounds.of v).Spans a b ↔
      ∀ c ∈ cs, ∀ i, c.unitBound? = some (v, i) → i.Spans a b := by
  rw [spans_commit]
  exact and_iff_right Interval.spans_unbounded

/-- The bounds depend on nothing but the set of the constraints that bind the variable. -/
theorem bounds_congr (mode mode' : PruneMode) {cs ds : List (Constraint Extended)}
    (same : ∀ c, c.Binds v → (c ∈ cs ↔ c ∈ ds)) :
    ((empty mode).commit cs).bounds.of v = ((empty mode').commit ds).bounds.of v := by
  apply Interval.eq_of_spans
  intro a b
  rw [spans_committed, spans_committed]
  have member (c : Constraint Extended) {i : Interval Extended}
      (bound : c.unitBound? = some (v, i)) : c ∈ cs ↔ c ∈ ds :=
    same c (Constraint.binds_iff.mpr ⟨i, bound⟩)
  constructor
  · intro h c hc i bound
    exact h c ((member c bound).mpr hc) i bound
  · intro h c hc i bound
    exact h c ((member c bound).mp hc) i bound

structure Tightest (mode : PruneMode) (committed : List (Constraint Extended)) : Prop where
  contains : ∀ v (values : Variable → ℚ),
    (((empty mode).commit committed).bounds.of v).Contains (values v) ↔
      ∀ c ∈ committed, c.Binds v → c.Admits values
  unordered : ∀ v (others : List (Constraint Extended)),
    (∀ c, c.Binds v → (c ∈ others ↔ c ∈ committed)) →
    ((empty mode).commit others).bounds.of v = ((empty mode).commit committed).bounds.of v
  unmoved : ∀ v (c : Constraint Extended), ¬c.Binds v →
    (((empty mode).commit committed).commit [c]).bounds.of v =
      ((empty mode).commit committed).bounds.of v

theorem tightest_commit (mode : PruneMode) (committed : List (Constraint Extended))
    (proper : ∀ c ∈ committed, c.Proper) : Tightest mode committed := by
  refine ⟨?_, fun v others same => bounds_congr mode mode same, ?_⟩
  · intro v values
    refine (spans_committed mode committed).trans ?_
    constructor
    · intro h c hc binds
      obtain ⟨i, bound⟩ := Constraint.binds_iff.mp binds
      exact ((proper c hc).contains_unitBound bound values).mp (h c hc i bound)
    · intro h c hc i bound
      have binds := Constraint.binds_iff.mpr ⟨i, bound⟩
      exact ((proper c hc).contains_unitBound bound values).mpr (h c hc binds)
  · intro v c free
    rw [← commit_append]
    apply bounds_congr
    intro d binds
    have other : d ≠ c := fun same => free (same ▸ binds)
    simp [other]

def mixed : List (Constraint Extended) :=
  [.relate (.ofTerm ⟨0⟩ (.finite (-2))) .atMost (.finite (-20)),
    { Constraint.relate (.ofVariable ⟨0⟩) .atMost (.finite 3) with strength := .weak },
    .relate (.sum [(⟨0⟩, 1), (⟨1⟩, 1)]) .equal 3,
    .relate (.ofVariable ⟨0⟩) .atLeast (.finite 12)]

/-- Two bounds from below on the same variable, the second one turned around by its sign, an
optional bound from above that they contradict, and a sum. -/
theorem tightest_mixed : (∀ c ∈ mixed, c.Proper) ∧ Tightest .bounds mixed ∧
    ((empty .bounds).commit mixed).bounds.of ⟨0⟩ = ⟨.finite 12, .posInf⟩ := by
  have proper : ∀ c ∈ mixed, c.Proper := by decide +kernel
  exact ⟨proper, tightest_commit .bounds mixed proper, by cbv⟩

end Pruner

end LinearChoice
