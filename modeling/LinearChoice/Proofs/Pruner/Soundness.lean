import LinearChoice.Proofs.Pruner.Projection
import LinearChoice.Proofs.Pruner.Tightest

/-!
# The pruner rejects nothing that can be met

Fix values that satisfy every required constraint in sight. The committed
bounds contain them, and go on containing them however often they are narrowed,
so no interval comes out empty. Optional constraints are not looked at.
-/

set_option autoImplicit false

namespace LinearChoice

/-- A fold whose steps all succeed succeeds, and keeps what each step keeps. -/
theorem foldlM_succeeds {ε σ ι : Type} {f : σ → ι → Except ε σ} {P : σ → Prop} (l : List ι)
    (step : ∀ s, ∀ i ∈ l, P s → ∃ s', f s i = .ok s' ∧ P s') {s : σ} (h : P s) :
    ∃ s', l.foldlM f s = .ok s' ∧ P s' := by
  induction l generalizing s with
  | nil => exact ⟨s, rfl, h⟩
  | cons i l ih =>
    obtain ⟨s', first, h'⟩ := step s i List.mem_cons_self h
    rw [List.foldlM_cons, first]
    exact ih (fun s j hj => step s j (List.mem_cons_of_mem i hj)) h'

open scoped Exact

namespace Bounds

variable {b : Bounds Extended} {v : Variable → ℚ} {c : Constraint Extended}

def Contains (b : Bounds Extended) (v : Variable → ℚ) : Prop := ∀ x, (b.of x).Contains (v x)

theorem Contains.insert (hb : b.Contains v) {x : Variable} {i : Interval Extended}
    (hi : i.Contains (v x)) : Bounds.Contains (b.insert x i) v := by
  intro y
  unfold Bounds.of
  rw [Table.get?_insert]
  by_cases h : x = y
  · rw [if_pos h, ← h]
    exact hi
  · rw [if_neg h]
    exact hb y

/-- What satisfies a constraint is in every interval that is derived from it. -/
theorem Contains.derive (hb : b.Contains v) (h : c.Proper) (hv : c.Admits v)
    {t : Variable × Extended} (ht : t ∈ c.expression.terms.entries) :
    (b.derive c t.1 t.2).Contains (v t.1) := by
  have occupied (u : Variable × Extended) (_ : u ∈ c.others t.1) : (b.of u.1).Occupied :=
    Interval.occupied_iff.mpr ⟨v u.1, hb u.1⟩
  rw [h.admits_iff, c.residual_eq ht] at hv
  exact (h.contains_derive ht occupied).mpr ⟨v, fun u _ => hb u.1, hv⟩

theorem Contains.tighten (hb : b.Contains v) {x : Variable} {i : Interval Extended}
    (hi : i.Contains (v x)) : ∃ answer, b.tighten x i = .ok answer ∧ answer.2.Contains v := by
  have inside : ((b.of x).intersect i).Contains (v x) :=
    Interval.contains_intersect.mpr ⟨hb x, hi⟩
  unfold Bounds.tighten
  dsimp only
  rw [Interval.not_isEmpty inside, if_neg Bool.false_ne_true]
  split
  · exact ⟨_, rfl, hb.insert inside⟩
  · exact ⟨_, rfl, hb⟩

variable {linear : List (Constraint Extended)}

theorem Contains.sweep (hb : b.Contains v) (hl : ∀ c ∈ linear, c.Proper ∧ c.Admits v) :
    ∃ answer, b.sweep linear = .ok answer ∧ answer.2.Contains v := by
  unfold Bounds.sweep
  refine foldlM_succeeds (P := fun state : Bool × Bounds Extended => state.2.Contains v) _ ?_ hb
  intro state target mem hs
  obtain ⟨c, hc, place⟩ := List.mem_flatMap.mp mem
  obtain ⟨t, ht, rfl⟩ := List.mem_map.mp place
  obtain ⟨answer, run, narrowed⟩ := hs.tighten (hs.derive (hl c hc).1 (hl c hc).2 ht)
  dsimp only
  rw [run]
  exact ⟨_, rfl, narrowed⟩

/-- Each sweep starts from bounds that contain the values, however many there are. -/
theorem Contains.propagate (hb : b.Contains v) (hl : ∀ c ∈ linear, c.Proper ∧ c.Admits v) (n : ℕ) :
    ∃ b', b.propagate linear n = .ok b' ∧ b'.Contains v := by
  induction n generalizing b with
  | zero => exact ⟨b, rfl, hb⟩
  | succ n ih =>
    obtain ⟨⟨changed, b'⟩, run, hb'⟩ := hb.sweep hl
    unfold Bounds.propagate
    rw [run]
    cases changed with
    | false => exact ⟨b', rfl, hb'⟩
    | true => exact ih hb'

end Bounds

namespace Pruner

section Optional

variable {α : Type} [ExtendedScalar α] {c : Constraint α}

theorem unitBound_optional (h : ¬c.isRequired = true) : c.unitBound? = none := if_neg h

theorem isLinear_optional (h : ¬c.isRequired = true) : c.isLinear = false := by
  rw [Constraint.isLinear, Bool.eq_false_iff.mpr h, Bool.false_and]

theorem commit_required (p : Pruner α) (cs : List (Constraint α)) :
    p.commit (cs.filter Constraint.isRequired) = p.commit cs := by
  induction cs generalizing p with
  | nil => rfl
  | cons c cs ih =>
    by_cases h : c.isRequired = true
    · rw [List.filter_cons_of_pos h]
      exact ih (p.commitOne c)
    · have kept : p.commitOne c = p := by
        unfold commitOne
        rw [unitBound_optional h, isLinear_optional h]
        rfl
      rw [List.filter_cons_of_neg h, ih]
      exact congrArg (fun q => q.commit cs) kept.symm

theorem narrow_required (p : Pruner α) (cs : List (Constraint α)) :
    p.narrow (cs.filter Constraint.isRequired) = p.narrow cs := by
  have same : (cs.filter Constraint.isRequired).filterMap Constraint.unitBound? =
      cs.filterMap Constraint.unitBound? := by
    rw [List.filterMap_filter]
    congr 1
    funext c
    by_cases h : c.isRequired = true
    · rw [if_pos h]
    · rw [if_neg h, unitBound_optional h]
  unfold narrow
  rw [same]

theorem check_required (p : Pruner α) (cs : List (Constraint α)) :
    p.check (cs.filter Constraint.isRequired) = p.check cs := by
  have same : (cs.filter Constraint.isRequired).filter Constraint.isLinear =
      cs.filter Constraint.isLinear := by
    rw [List.filter_filter]
    congr 1
    funext c
    unfold Constraint.isLinear
    cases c.isRequired <;> simp
  unfold check
  rw [narrow_required, same]

end Optional

variable {p : Pruner Extended} {v : Variable → ℚ} {c : Constraint Extended}

structure Admits (p : Pruner Extended) (v : Variable → ℚ) : Prop where
  bounds : p.bounds.Contains v
  linear : ∀ c ∈ p.linear, c.Proper ∧ c.Admits v

theorem admits_empty (mode : PruneMode) : (empty mode : Pruner Extended).Admits v :=
  ⟨fun _ => Interval.contains_unbounded, nofun⟩

theorem linear_commitBound (p : Pruner Extended) (v : Variable) (i : Interval Extended) :
    (p.commitBound v i).linear = p.linear := by
  unfold commitBound
  dsimp only
  split <;> rfl

/-- Only a required constraint joins those on several variables. -/
theorem mem_linear_commitOne {d : Constraint Extended} (hd : d ∈ (p.commitOne c).linear) :
    d ∈ p.linear ∨ d = c ∧ c.isRequired = true := by
  unfold Pruner.commitOne at hd
  split at hd
  · rw [linear_commitBound] at hd
    exact Or.inl hd
  · split at hd
    · next several =>
      rcases List.mem_append.mp hd with old | new
      · exact Or.inl old
      · exact Or.inr ⟨List.mem_singleton.mp new, (Bool.and_eq_true_iff.mp several).1⟩
    · exact Or.inl hd

theorem Admits.commitOne (h : p.Admits v) (proper : c.Proper)
    (hv : c.isRequired = true → c.Admits v) : (p.commitOne c).Admits v := by
  refine ⟨fun x => (spans_commitOne c).mpr ⟨h.bounds x, ?_⟩, ?_⟩
  · intro i bound
    exact (proper.contains_unitBound bound v).mpr (hv (proper.unitBound bound).1)
  · intro d hd
    rcases mem_linear_commitOne hd with old | ⟨rfl, required⟩
    · exact h.linear d old
    · exact ⟨proper, hv required⟩

theorem Admits.commit (h : p.Admits v) (cs : List (Constraint Extended))
    (hv : ∀ c ∈ cs, c.Proper ∧ (c.isRequired = true → c.Admits v)) : (p.commit cs).Admits v := by
  induction cs generalizing p with
  | nil => exact h
  | cons c cs ih =>
    obtain ⟨hc, hcs⟩ := List.forall_mem_cons.mp hv
    exact ih (h.commitOne hc.1 hc.2) hcs

theorem Admits.narrow (h : p.Admits v) {candidate : List (Constraint Extended)}
    (hv : ∀ c ∈ candidate, c.Proper ∧ (c.isRequired = true → c.Admits v)) :
    ∃ b, p.narrow candidate = .ok b ∧ b.Contains v := by
  unfold Pruner.narrow
  refine foldlM_succeeds (P := fun b : Bounds Extended => b.Contains v) _ ?_ h.bounds
  intro b bound mem hb
  obtain ⟨c, hc, found⟩ := List.mem_filterMap.mp mem
  obtain ⟨proper, admits⟩ := hv c hc
  have inside := (proper.contains_unitBound found v).mpr (admits (proper.unitBound found).1)
  obtain ⟨answer, run, narrowed⟩ := hb.tighten inside
  rw [run]
  exact ⟨answer.2, rfl, narrowed⟩

/-- In no mode does the pruner reject what the values satisfy. -/
theorem Admits.check (h : p.Admits v) {candidate : List (Constraint Extended)}
    (hv : ∀ c ∈ candidate, c.Proper ∧ (c.isRequired = true → c.Admits v)) :
    p.check candidate = .ok () := by
  obtain ⟨b, run, hb⟩ := h.narrow hv
  unfold Pruner.check
  rw [run]
  cases p.mode with
  | off => rfl
  | bounds => rfl
  | propagate =>
    have linear : ∀ c ∈ p.linear ++ candidate.filter Constraint.isLinear,
        c.Proper ∧ c.Admits v := by
      intro c hc
      rcases List.mem_append.mp hc with hc | hc
      · exact h.linear c hc
      · obtain ⟨hc, several⟩ := List.mem_filter.mp hc
        rw [Constraint.isLinear, Bool.and_eq_true] at several
        exact ⟨(hv c hc).1, (hv c hc).2 several.1⟩
    obtain ⟨b', swept, -⟩ := hb.propagate linear sweeps
    change (b.propagate _ sweeps >>= fun _ => pure ()) = _
    rw [swept]
    rfl

/-- A candidate that is rejected cannot be met together with what was committed, and optional
constraints have no say in the verdict. -/
theorem check_sound (mode : PruneMode) (committed candidate : List (Constraint Extended))
    (proper : ∀ c ∈ committed ++ candidate, c.Proper) :
    (∀ conflict, ((empty mode).commit committed).check candidate = .error conflict →
      ¬∃ v, ∀ c ∈ committed ++ candidate, c.isRequired = true → c.Admits v) ∧
    ((empty mode).commit committed).check candidate =
      ((empty mode).commit (committed.filter Constraint.isRequired)).check
        (candidate.filter Constraint.isRequired) := by
  constructor
  · rintro conflict rejected ⟨v, hv⟩
    have known := (admits_empty mode).commit committed fun c hc =>
      ⟨proper c (List.mem_append_left _ hc), hv c (List.mem_append_left _ hc)⟩
    have passed : _ = Except.ok () := known.check fun c hc =>
      ⟨proper c (List.mem_append_right committed hc), hv c (List.mem_append_right _ hc)⟩
    rw [passed] at rejected
    cases rejected
  · rw [commit_required, check_required]

def divided : List (Constraint Extended) :=
  [.relate (.sum [(⟨0⟩, 1), (⟨1⟩, 1)]) .atMost 1, .relate (.ofVariable ⟨0⟩) .atLeast 0]

def excessive : List (Constraint Extended) := [.relate (.ofVariable ⟨1⟩) .atLeast 2]

/-- The other one by itself is beyond their sum. -/
theorem check_sound_excessive :
    (∀ c ∈ divided ++ excessive, c.Proper) ∧
      ((empty .propagate).commit divided).check excessive = .error ⟨⟨0⟩, 0, .finite (-1)⟩ ∧
      ¬∃ v, ∀ c ∈ divided ++ excessive, c.isRequired = true → c.Admits v := by
  have proper : ∀ c ∈ divided ++ excessive, c.Proper := by decide +kernel
  have rejected : ((empty .propagate).commit divided).check excessive =
      .error ⟨⟨0⟩, 0, .finite (-1)⟩ := by cbv
  exact ⟨proper, rejected, (check_sound .propagate divided excessive proper).1 _ rejected⟩

end Pruner

end LinearChoice
