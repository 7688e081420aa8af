import LinearChoice.Proofs.Pruner.Tightest

/-!
# An empty interval stays empty

The ends of an empty interval are apart by more than its slack, which grows with
the ends. When an end moves inwards they come apart by all of the move, and the
slack grows by a millionth of it. An infinite end is out of reach of any slack.
-/

set_option autoImplicit false

namespace LinearChoice
open scoped Exact

namespace Interval

variable {i j : Interval Extended} {a b : Extended}

theorem isEmpty_iff : i.isEmpty = true ↔
    i.upper + .finite (1 / 1000000 * (1 + |i.lower.toRat| ⊔ |i.upper.toRat|)) < i.lower := by
  unfold isEmpty
  rw [tolerance_eq, decide_eq_true_eq]

/-- Where the ends move apart the slack grows by less than they do. -/
theorem slack_narrowed {l u l' u' : ℚ} (lower : l ≤ l') (upper : u' ≤ u)
    (apart : u + 1 / 1000000 * (1 + |l| ⊔ |u|) < l) :
    u' + 1 / 1000000 * (1 + |l'| ⊔ |u'|) < l' := by
  have left : |l'| ≤ |l| ⊔ |u| + (l' - l) := by
    have moved := abs_sub_abs_le_abs_sub l' l
    rw [abs_of_nonneg (sub_nonneg.mpr lower)] at moved
    linarith [le_max_left |l| |u|]
  have right : |u'| ≤ |l| ⊔ |u| + (u - u') := by
    have moved := abs_sub_abs_le_abs_sub u' u
    rw [abs_sub_comm, abs_of_nonneg (sub_nonneg.mpr upper)] at moved
    linarith [le_max_right |l| |u|]
  have scale : |l'| ⊔ |u'| ≤ |l| ⊔ |u| + (l' - l) + (u - u') :=
    max_le (by linarith) (by linarith)
  linarith

theorem isEmpty_narrowed (narrower : i.Spans j.lower j.upper) (empty : i.isEmpty = true) :
    j.isEmpty = true := by
  rw [isEmpty_iff] at empty ⊢
  obtain ⟨lower, upper⟩ := i
  obtain ⟨lower', upper'⟩ := j
  obtain ⟨below, above⟩ := narrower
  dsimp only at *
  -- Finite ends on both sides come last: any other pair is apart without regard to the slack.
  cases upper with
  | posInf => exact absurd empty Extended.not_posInf_lt
  | negInf =>
    obtain rfl : upper' = .negInf := le_antisymm above Extended.negInf_le
    exact empty.trans_le below
  | finite u =>
    cases upper' with
    | posInf => exact absurd above Extended.not_posInf_le_finite
    | negInf => exact (Extended.negInf_lt_finite.trans empty).trans_le below
    | finite u' =>
      cases lower' with
      | posInf => exact Extended.finite_lt_posInf
      | negInf =>
        obtain rfl : lower = .negInf := le_antisymm below Extended.negInf_le
        exact absurd empty Extended.not_lt_negInf
      | finite l' =>
        cases lower with
        | negInf => exact absurd empty Extended.not_lt_negInf
        | posInf => exact absurd below Extended.not_posInf_le_finite
        | finite l =>
          exact slack_narrowed (Extended.finite_le_finite.mp below)
            (Extended.finite_le_finite.mp above) empty

theorem isEmpty_intersect (empty : i.isEmpty = true) (j : Interval Extended) :
    (i.intersect j).isEmpty = true :=
  isEmpty_narrowed (spans_intersect.mp ⟨le_refl _, le_refl _⟩).1 empty

def intersection (l : List (Interval Extended)) : Interval Extended := l.foldl intersect unbounded

theorem spans_foldl (l : List (Interval Extended)) :
    (l.foldl intersect i).Spans a b ↔ i.Spans a b ∧ ∀ j ∈ l, j.Spans a b := by
  induction l generalizing i with
  | nil => simp
  | cons j l ih => rw [List.foldl_cons, ih, spans_intersect, List.forall_mem_cons, and_assoc]

theorem spans_intersection (l : List (Interval Extended)) :
    (intersection l).Spans a b ↔ ∀ i ∈ l, i.Spans a b :=
  (spans_foldl l).trans (and_iff_right spans_unbounded)

/-- An interval that counts as empty does so however it is narrowed further, and so does the common
part of a list of intervals, whichever others are added to the list and wherever. -/
theorem isEmpty_lasting :
    (∀ i j : Interval Extended, i.isEmpty = true → (i.intersect j).isEmpty = true) ∧
      ∀ l m : List (Interval Extended), l ⊆ m → (intersection l).isEmpty = true →
        (intersection m).isEmpty = true := by
  refine ⟨fun i j empty => isEmpty_intersect empty j, fun l m more empty => ?_⟩
  have own := (spans_intersection m).mp ⟨le_refl _, le_refl _⟩
  exact isEmpty_narrowed ((spans_intersection l).mpr fun i hi => own i (more hi)) empty

def opposed : List (Interval Extended) :=
  [.atLeast (.finite 10), .atMost (.finite (9 + 99998 / 100000))]

/-- Two bounds from opposite sides are at odds by more than the slack of their ends. Half the distance
is within the slack. A further bound moves one end a long way, to where the slack is greater. -/
theorem isEmpty_lasting_opposed :
    (⟨.finite 10, .finite (9 + 99999 / 100000)⟩ : Interval Extended).isEmpty = false ∧
    (intersection opposed).isEmpty = true ∧
    ((intersection opposed).intersect (.atMost (.finite (-1000000)))).isEmpty = true ∧
    (intersection (.atLeast (.finite 1000000) :: opposed.reverse)).isEmpty = true := by
  have empty : (intersection opposed).isEmpty = true := by decide +kernel
  have more : opposed ⊆ .atLeast (.finite 1000000) :: opposed.reverse := by
    intro i hi
    exact List.mem_cons_of_mem _ (List.mem_reverse.mpr hi)
  exact ⟨by decide +kernel, empty, isEmpty_lasting.1 _ _ empty, isEmpty_lasting.2 _ _ more empty⟩

end Interval

end LinearChoice
