import LinearChoice.Proofs.Simplex.Session
import LinearChoice.Proofs.Simplex.Still

/-!
# How feasible a tableau stays

Only a pivot can take a row below zero. Ratios within the width of the zero test
count as equal, whatever the coefficients by which they were divided, so a pivot
from a feasible tableau may do so by the width times the greatest coefficient for
each row, but by no more. With exact ties no row falls below zero.
-/

set_option autoImplicit false

namespace LinearChoice

section Constants

variable {α : Type} [Scalar α]

namespace Row

theorem get?_addCell_of_ne (r : Row α) {s x : Symbol} (h : s ≠ x) (c : α) :
    (r.addCell s c).cells.get? x = r.cells.get? x := by
  unfold addCell
  dsimp only
  split
  · exact (r.cells.get?_eraseSwap s x).trans (if_neg h)
  · exact (r.cells.get?_insert s x _).trans (if_neg h)

theorem constant_addCell (r : Row α) (s : Symbol) (c : α) :
    (r.addCell s c).constant = r.constant := by
  unfold addCell
  dsimp only
  split <;> rfl

theorem constant_addCells (r : Row α) (cells : List (Symbol × α)) :
    (r.addCells cells).constant = r.constant :=
  List.foldlRecOn (motive := fun r' : Row α => r'.constant = r.constant) cells _ rfl
    fun r' h e _ => (r'.constant_addCell e.1 e.2).trans h

/-- What close cells are dropped makes no difference to the constant. -/
theorem substitute_constant (r : Row α) (s : Symbol) (row : Row α) :
    (r.substitute s row).constant =
      match r.cells.get? s with
      | none => r.constant
      | some c => r.constant + row.constant * c := by
  unfold substitute
  cases r.cells.get? s with
  | none => rfl
  | some c => exact constant_addCells _ _

theorem exchange_constant (row : Row α) {basic s : Symbol} (hne : s ≠ basic) {c : α}
    (hc : row.cells.get? s = some c) :
    (row.exchange basic s).constant = row.constant * (-1 / c) := by
  unfold exchange solveFor
  rw [get?_addCell_of_ne row (Ne.symm hne), hc, constant_addCell]

end Row

end Constants

open scoped Exact

def Candidate.Near (s : Symbol) (w : ℚ) (seen : List (Symbol × Row ℚ)) :
    Option (Candidate ℚ) → Prop
  | none => ∀ e ∈ seen, ¬Falls s e
  | some c => (c.symbol, c.row) ∈ seen ∧ Falls s (c.symbol, c.row) ∧
      c.ratio = fallRatio s (c.symbol, c.row) ∧ ∀ e ∈ seen, Falls s e → c.ratio ≤ fallRatio s e + w

section Near

variable {s : Symbol} {w ε : ℚ} {seen : List (Symbol × Row ℚ)} {best : Option (Candidate ℚ)}
variable {e : Symbol × Row ℚ}

namespace Candidate.Near

theorem skip (h : Near s w seen best) (hε : 0 ≤ ε) (he : ¬Falls s e) :
    Near s (w + ε) (seen ++ [e]) best := by
  cases best with
  | none =>
    intro x hx
    rcases List.mem_append.mp hx with hx | hx
    · exact h x hx
    · exact List.mem_singleton.mp hx ▸ he
  | some c =>
    obtain ⟨mem, falls, ratio, near⟩ := h
    refine ⟨List.mem_append_left _ mem, falls, ratio, fun x hx hf => ?_⟩
    rcases List.mem_append.mp hx with hx | hx
    · have := near x hx hf
      linarith
    · exact absurd hf (List.mem_singleton.mp hx ▸ he)

theorem keep {c : Candidate ℚ} (h : Near s w seen (some c)) (hw : 0 ≤ w) (hε : 0 ≤ ε)
    (close : c.ratio ≤ fallRatio s e + ε) : Near s (w + ε) (seen ++ [e]) (some c) := by
  obtain ⟨mem, falls, ratio, near⟩ := h
  refine ⟨List.mem_append_left _ mem, falls, ratio, fun x hx hf => ?_⟩
  rcases List.mem_append.mp hx with hx | hx
  · have := near x hx hf
    linarith
  · rw [List.mem_singleton.mp hx]
    linarith

theorem take (h : Near s w seen best) (hw : 0 ≤ w) (hε : 0 ≤ ε) (he : Falls s e)
    (close : ∀ c, best = some c → fallRatio s e ≤ c.ratio + ε) :
    Near s (w + ε) (seen ++ [e]) (some ⟨fallRatio s e, e.1, e.2⟩) := by
  refine ⟨List.mem_append_right _ (List.mem_singleton_self e), he, rfl, fun x hx hf => ?_⟩
  rcases List.mem_append.mp hx with hx | hx
  · cases best with
    | none => exact absurd hf (h x hx)
    | some c =>
      have := close c rfl
      have := h.2.2.2 x hx hf
      dsimp only
      linarith
  · rw [List.mem_singleton.mp hx]
    dsimp only
    linarith

end Candidate.Near

namespace Tableau

theorem better_near (hε : 0 ≤ ε) {c b : Candidate ℚ}
    (h : @better ℚ (Scalar.rational ε) c b = true) : c.ratio ≤ b.ratio + ε := by
  unfold better at h
  rw [Bool.or_eq_true, Bool.and_eq_true] at h
  rcases h with less | ⟨tie, -⟩
  · have less : c.ratio < b.ratio - ε := of_decide_eq_true less
    linarith
  · have tie : |c.ratio - b.ratio| ≤ ε :=
      Scalar.magnitude_eq_abs (c.ratio - b.ratio) ▸ of_decide_eq_true tie
    have := le_of_abs_le tie
    linarith

theorem near_of_not_better {c b : Candidate ℚ}
    (h : ¬@better ℚ (Scalar.rational ε) c b = true) : b.ratio ≤ c.ratio + ε := by
  unfold better at h
  rw [Bool.or_eq_true, not_or] at h
  have least : ¬c.ratio < b.ratio - ε := fun less => h.1 (decide_eq_true less)
  linarith [not_lt.mp least]

theorem tighten_near (hε : 0 ≤ ε) (h : Candidate.Near s (seen.length * ε) seen best) :
    Candidate.Near s ((seen ++ [e]).length * ε) (seen ++ [e])
      (@tighten ℚ (Scalar.rational ε) s best e) := by
  have longer : ((seen ++ [e]).length : ℚ) * ε = seen.length * ε + ε := by
    rw [List.length_append, List.length_singleton]
    push_cast
    ring
  have hw : 0 ≤ seen.length * ε := mul_nonneg (Nat.cast_nonneg _) hε
  rw [longer]
  unfold tighten
  dsimp only
  split
  · next outer => exact h.skip hε fun hf => by simp [hf.1] at outer
  · next inner =>
    split
    · next falls =>
      have he : Falls s e := ⟨by simpa using inner, falls⟩
      cases best with
      | none => exact h.take hw hε he nofun
      | some b =>
        dsimp only
        split
        · next accepted =>
          apply h.take hw hε he
          rintro c ⟨⟩
          exact better_near hε accepted
        · next declined => exact h.keep hw hε (near_of_not_better declined)
    · next rises => exact h.skip hε fun hf => rises hf.2

theorem leaving_near (hε : 0 ≤ ε) (t : Tableau ℚ) (s : Symbol) :
    Candidate.Near s (t.rows.size * ε) t.rows.entries (@leaving? ℚ (Scalar.rational ε) t s) :=
  foldl_seen (P := fun seen => Candidate.Near s (seen.length * ε) seen)
    (fun _ _ _ h => tighten_near hε h) t.rows.entries none (by intro e he; simp at he)

end Tableau

end Near

namespace Tableau

def AtLeast (t : Tableau ℚ) (b : ℚ) : Prop :=
  ∀ s row, t.rows.get? s = some row → s.isExternal = false → b ≤ row.constant

def Bounded (t : Tableau ℚ) (M : ℚ) : Prop :=
  ∀ s row, t.rows.get? s = some row → ∀ x, |row.coefficient x| ≤ M

def Solved (t : Tableau ℚ) : Prop :=
  ∀ s row, t.rows.get? s = some row → row.coefficient s = 0

/-- A row falls below zero by no more than its own ratio was missed by, times the coefficient. -/
theorem substitute_atLeast {w M ε : ℚ} {x s : Symbol} {r other : Row ℚ} (hw : 0 ≤ w)
    (old : 0 ≤ r.constant) (rises : 0 ≤ other.constant) (size : |r.coefficient s| ≤ M)
    (close : r.coefficient s < 0 → other.constant ≤ fallRatio s (x, r) + w) :
    -(w * M) ≤ (@Row.substitute ℚ (Scalar.rational ε) r s other).constant := by
  have M_nonneg : 0 ≤ M := le_trans (abs_nonneg _) size
  rw [@Row.substitute_constant ℚ (Scalar.rational ε)]
  cases cell : r.cells.get? s with
  | none => exact le_trans (neg_nonpos.mpr (mul_nonneg hw M_nonneg)) old
  | some k =>
    have coefficient : r.coefficient s = k := by simp [Row.coefficient, cell]
    rw [coefficient] at size close
    change -(w * M) ≤ r.constant + other.constant * k
    rcases lt_or_ge k 0 with neg | nonneg
    · have whole : fallRatio s (x, r) * k = -r.constant := by
        rw [fallRatio, coefficient]
        exact div_mul_cancel₀ _ (ne_of_lt neg)
      rw [abs_of_neg neg] at size
      have := mul_le_mul_of_nonpos_right (close neg) (le_of_lt neg)
      have := mul_le_mul_of_nonneg_left size hw
      linarith
    · have := mul_nonneg rises nonneg
      have := mul_nonneg hw M_nonneg
      linarith

/-- The symbol that enters takes the value of the ratio. -/
theorem exchange_ratio {ε : ℚ} {x s : Symbol} {r : Row ℚ} (falls : Falls s (x, r))
    (solved : r.coefficient x = 0) :
    (@Row.exchange ℚ (Scalar.rational ε) r x s).constant = fallRatio s (x, r) := by
  have hne : s ≠ x := fun heq => absurd falls.2 (by simp [heq, solved])
  obtain ⟨a, ha⟩ : ∃ a, r.cells.get? s = some a :=
    Option.ne_none_iff_exists'.mp fun none => by simp [Falls, Row.coefficient, none] at falls
  rw [@Row.exchange_constant ℚ (Scalar.rational ε) r _ _ hne a ha]
  simp [fallRatio, Row.coefficient, ha]
  ring

/-- One pivot through a row whose ratio is within `w` of the least one. -/
theorem pivot_atLeast {t : Tableau ℚ} {w M ε : ℚ} {s : Symbol} {c : Candidate ℚ}
    (feasible : t.AtLeast 0) (solved : t.Solved) (bounded : t.Bounded M) (hw : 0 ≤ w)
    (near : Candidate.Near s w t.rows.entries (some c)) :
    (@pivot ℚ (Scalar.rational ε) t c.symbol c.row s).AtLeast (-(w * M)) := by
  obtain ⟨mem, falls, ratio, near⟩ := near
  rw [ratio] at near
  have basic := (t.rows.get?_eq_some_iff c.symbol c.row).mpr mem
  have M_nonneg : 0 ≤ M := le_trans (abs_nonneg _) (bounded _ _ basic s)
  have value := exchange_ratio (ε := ε) falls (solved _ _ basic)
  have rises : 0 ≤ fallRatio s (c.symbol, c.row) :=
    div_nonneg_of_nonpos (neg_nonpos.mpr (feasible _ _ basic falls.1)) (le_of_lt falls.2)
  intro x r hx restricted
  rw [@get?_pivot ℚ (Scalar.rational ε)] at hx
  split at hx
  · cases hx
    rw [value]
    exact le_trans (neg_nonpos.mpr (mul_nonneg hw M_nonneg)) rises
  · split at hx
    · contradiction
    · obtain ⟨r', hr', rfl⟩ := Option.map_eq_some_iff.mp hx
      refine substitute_atLeast (x := x) hw (feasible x r' hr' restricted) (value ▸ rises)
        (bounded x r' hr' s) fun neg => ?_
      rw [value]
      exact near (x, r') ((t.rows.get?_eq_some_iff x r').mp hr') ⟨restricted, neg⟩

theorem advance_atLeast {ε M : ℚ} (hε : 0 ≤ ε) {t t' : Tableau ℚ} {goal goal' : Row ℚ}
    (feasible : t.AtLeast 0) (solved : t.Solved) (bounded : t.Bounded M)
    (step : @advance ℚ (Scalar.rational ε) t goal = .moved t' goal') :
    t'.AtLeast (-(t.rows.size * ε * M)) := by
  unfold advance at step
  split at step
  · contradiction
  · next s _ =>
    have near := leaving_near hε t s
    split at step
    · contradiction
    · next c leaves =>
      cases step
      rw [leaves] at near
      exact pivot_atLeast feasible solved bounded (mul_nonneg (Nat.cast_nonneg _) hε) near

end Tableau

theorem Session.Reached.atLeast {x : Session} (h : x.Reached) : x.solver.tableau.AtLeast 0 := by
  obtain ⟨base, keeps⟩ := h.keeps
  exact fun s row hs restricted => (keeps.describes.standard.admits s row hs).nonneg restricted

/-- In floating point updates succeed as long as no call makes a pivot, where a refusal makes none if
the equation is one of dummies alone. In rationals whose ratios tie within some width, one pivot
takes a feasible tableau below zero by no more than that width, times the greatest coefficient, for
each row; how floating point rounds is not part of it. With exact ties the tableau is feasible after
any calls, so that every update succeeds. -/
theorem Tableau.feasible_within_ties {ε : ℚ} (hε : 0 ≤ ε) :
    (∀ before calls : List (Solver.Call Float),
      ((Solver.empty : Solver Float).afterAll before).tableau.Upright →
      ((Solver.empty : Solver Float).afterAll before).StillThrough calls →
      (((Solver.empty : Solver Float).afterAll before).afterAll calls).updateVariables.1 = .ok ()) ∧
    (∀ (M : ℚ) (t t' : Tableau ℚ) (goal goal' : Row ℚ), t.AtLeast 0 → t.Solved → t.Bounded M →
      @advance ℚ (Scalar.rational ε) t goal = .moved t' goal' →
      t'.AtLeast (-(t.rows.size * ε * M))) ∧
    ∀ x : Session, x.Reached →
      x.solver.tableau.AtLeast 0 ∧ x.update.1 = .ok () ∧ x.update.2.solver.tableau.AtLeast 0 :=
  ⟨Solver.update_of_still Scalar.signed_float,
    fun _ _ _ _ _ feasible solved bounded step => advance_atLeast hε feasible solved bounded step,
    fun _ h => ⟨h.atLeast, h.update_satisfies.1, h.update.atLeast⟩⟩

def Progress.moved? {α : Type} : Progress α → Option (Tableau α)
  | .moved t _ => some t
  | .optimal | .unbounded => none

namespace Tableau

def tied : Tableau ℚ :=
  ⟨Table.ofList [(.slack 1, ⟨100, Table.ofList [(.slack 2, -201 / 2)]⟩),
    (.slack 0, ⟨1, Table.ofList [(.slack 2, -1)]⟩)], ⟨0, Table.ofList [(.slack 2, -1)]⟩⟩

theorem rows_tied {s : Symbol} {row : Row ℚ} (h : tied.rows.get? s = some row) :
    (s = .slack 1 ∧ row = ⟨100, Table.ofList [(.slack 2, -201 / 2)]⟩) ∨
      (s = .slack 0 ∧ row = ⟨1, Table.ofList [(.slack 2, -1)]⟩) := by
  have mem := (tied.rows.get?_eq_some_iff s row).mp h
  simpa [tied, Table.ofList, Table.insert, Table.place, Table.empty] using mem

theorem not_atLeast_of_negative {t : Tableau ℚ} {s : Symbol} (h : s ∈ t.negatives) :
    ¬t.AtLeast 0 := by
  intro feasible
  obtain ⟨e, he, rfl⟩ := List.mem_map.mp h
  obtain ⟨mem, below⟩ := List.mem_filter.mp he
  rw [Bool.and_eq_true, Bool.not_eq_true', decide_eq_true_iff] at below
  have found := (t.rows.get?_eq_some_iff e.1 e.2).mpr mem
  exact absurd (feasible e.1 e.2 found below.1) (not_le.mpr below.2)

def settled : List (Solver.Call Float) :=
  [.newVariable, .add (.relate (.ofVariable ⟨0⟩) .atMost 1),
    .add (.relate (.ofVariable ⟨0⟩) .atLeast 0), .remove ⟨1⟩]

/-- Where nothing is pivoted an update succeeds. Of two rows with ratios 1 and 200/201 a tie lets the
wider one leave, and the other one ends up below zero. -/
theorem feasible_within_tied :
    ((Solver.empty : Solver Float).afterAll settled).updateVariables.1 = .ok () ∧
    ∃ t' goal', @advance ℚ (Scalar.rational (1 / 100)) tied tied.objective = .moved t' goal' ∧
      t'.AtLeast (-(2 * (1 / 100) * (201 / 2))) ∧ ¬t'.AtLeast 0 ∧
      Session.contradicted.update.1 = .ok () := by
  have feasible : tied.AtLeast 0 := by
    intro s row h _
    rcases rows_tied h with ⟨-, rfl⟩ | ⟨-, rfl⟩ <;> norm_num
  have solved : tied.Solved := by
    intro s row h
    rcases rows_tied h with ⟨rfl, rfl⟩ | ⟨rfl, rfl⟩ <;> rfl
  have bounded : tied.Bounded (201 / 2) := by
    intro s row h x
    by_cases hx : .slack 2 = x
    · subst hx
      rcases rows_tied h with ⟨-, rfl⟩ | ⟨-, rfl⟩ <;> decide +kernel
    · rcases rows_tied h with ⟨-, rfl⟩ | ⟨-, rfl⟩ <;>
        simp [Row.coefficient, Table.get?, Table.ofList, Table.insert, Table.place, Table.empty,
          Table.lookup, hx] <;> norm_num
  have moves : (@advance ℚ (Scalar.rational (1 / 100)) tied tied.objective).moved?.any
      (fun t' => decide (.slack 1 ∈ t'.negatives)) = true := by decide +kernel
  cases step : @advance ℚ (Scalar.rational (1 / 100)) tied tied.objective with
  | moved t' goal' =>
    rw [step] at moves
    have within := feasible_within_ties (ε := 1 / 100) (by norm_num)
    exact ⟨within.1 [] settled upright_empty (by decide +kernel), t', goal', rfl,
      within.2.1 (201 / 2) tied t' _ goal' feasible solved bounded step,
      not_atLeast_of_negative (of_decide_eq_true moves),
      (within.2.2 _ Session.reached_contradicted).2.1⟩
  | optimal | unbounded =>
    rw [step] at moves
    contradiction

end Tableau

/-- In floating point the ties are enough to fail an update: the last constraint is optional and
can always be held, yet the row of the third one ends up below zero. -/
theorem Solver.infeasible_after_tie :
    let x : Variable := ⟨0⟩
    let cs : List (Constraint Float) :=
      [.relate (.ofVariable x) .atMost 1, .relate (.ofTerm x 1000) .atLeast 0,
        .relate (.ofTerm x 1000) .atLeast 5e-6,
        { Constraint.relate (.ofVariable x) .atMost (-1) with strength := Strength.weak }]
    let s := (empty : Solver Float).afterAll (.newVariable :: cs.map .add)
    (∀ c ∈ cs, c.isFinite = true ∧ 0 ≤ c.strength.weight ∧
      c.strength.weight ≤ (Strength.required : Strength Float).weight) ∧
    s.constraintCount = 4 ∧ s.updateVariables.1 = .error .unsatisfiable := by
  decide +kernel

end LinearChoice
