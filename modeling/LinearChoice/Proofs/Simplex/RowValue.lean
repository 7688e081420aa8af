import LinearChoice.Proofs.Exact
import LinearChoice.Simplex.Row
import LinearChoice.Table.Lemmas

/-!
# The value of a row

Under a valuation of its symbols a row has a value. Each operation on rows is
an equation between values, and constants and coefficients are read off values
too, so nothing below depends on the order of the cells.
-/

set_option autoImplicit false

namespace LinearChoice
open scoped Exact

abbrev Valuation := Symbol → ℚ

def weigh {κ : Type} (σ : κ → ℚ) (l : List (κ × ℚ)) : ℚ := (l.map fun e => e.2 * σ e.1).sum

section Weigh

variable {κ : Type} (σ : κ → ℚ)

@[simp] theorem weigh_nil : weigh σ [] = 0 := rfl

@[simp] theorem weigh_cons (e : κ × ℚ) (l : List (κ × ℚ)) :
    weigh σ (e :: l) = e.2 * σ e.1 + weigh σ l := rfl

@[simp] theorem weigh_append (l m : List (κ × ℚ)) :
    weigh σ (l ++ m) = weigh σ l + weigh σ m := by
  simp [weigh]

theorem weigh_perm {l m : List (κ × ℚ)} (h : l.Perm m) : weigh σ l = weigh σ m :=
  (h.map _).sum_eq

theorem weigh_scaled (l : List (κ × ℚ)) (k : ℚ) :
    weigh σ (l.map fun e => (e.1, e.2 * k)) = k * weigh σ l := by
  induction l with
  | nil => simp
  | cons e l ih =>
    simp only [List.map_cons, weigh_cons, ih]
    ring

theorem weigh_congr {σ τ : κ → ℚ} (l : List (κ × ℚ)) (h : ∀ e ∈ l, e.2 ≠ 0 → σ e.1 = τ e.1) :
    weigh σ l = weigh τ l := by
  induction l with
  | nil => rfl
  | cons e l ih =>
    rw [weigh_cons, weigh_cons, ih fun x hx => h x (List.mem_cons_of_mem e hx)]
    by_cases he : e.2 = 0
    · simp [he]
    · rw [h e List.mem_cons_self he]

theorem weigh_nonneg (l : List (κ × ℚ)) (h : ∀ e ∈ l, 0 ≤ e.2 * σ e.1) : 0 ≤ weigh σ l := by
  apply List.sum_nonneg
  intro x hx
  obtain ⟨e, he, rfl⟩ := List.mem_map.mp hx
  exact h e he

variable [DecidableEq κ]

theorem weigh_place (k : κ) (v : ℚ) (l : List (κ × ℚ)) :
    weigh σ (Table.place k v l) = weigh σ l + (v - (Table.lookup k l).getD 0) * σ k := by
  induction l with
  | nil => simp [Table.place, Table.lookup]
  | cons e l ih =>
    by_cases h : e.1 = k
    · simp only [Table.place, Table.lookup, h, if_true, weigh_cons, Option.getD_some]
      ring
    · simp only [Table.place, Table.lookup, h, if_false, weigh_cons, ih]
      ring

theorem weigh_swapOut (k : κ) (l : List (κ × ℚ)) :
    weigh σ (Table.swapOut k l) = weigh σ l - (Table.lookup k l).getD 0 * σ k := by
  rw [weigh_perm σ (Table.swapOut_perm k l)]
  induction l with
  | nil => simp [Table.lookup]
  | cons e l ih =>
    by_cases h : e.1 = k
    · simp [Table.lookup, h]
    · simp only [h, decide_false, Bool.false_eq_true, not_false_eq_true,
        List.eraseP_cons_of_neg, weigh_cons, ih, Table.lookup, if_false]
      ring

/-- The valuation that singles out one key reads off its weight. -/
theorem weigh_single (k : κ) (x : ℚ) (l : List (κ × ℚ)) (nodup : (l.map Prod.fst).Nodup) :
    weigh (Pi.single k x) l = (Table.lookup k l).getD 0 * x := by
  induction l with
  | nil => simp [Table.lookup]
  | cons e l ih =>
    rw [List.map_cons, List.nodup_cons] at nodup
    rw [weigh_cons, ih nodup.2]
    by_cases h : e.1 = k
    · have absent : Table.lookup k l = none := (Table.lookup_eq_none_iff k l).mpr (h ▸ nodup.1)
      simp [Table.lookup, h, absent]
    · simp [Table.lookup, h]

theorem weigh_step (k : κ) (x : ℚ) (l : List (κ × ℚ)) :
    weigh (Function.update σ k x) l = weigh σ l + weigh (Pi.single k 1) l * (x - σ k) := by
  induction l with
  | nil => simp
  | cons e l ih =>
    rw [weigh_cons, weigh_cons, weigh_cons, ih]
    by_cases he : e.1 = k
    · rw [he, Function.update_self, Pi.single_eq_same]
      ring
    · rw [Function.update_of_ne he, Pi.single_eq_of_ne he]
      ring

end Weigh

namespace Row

def eval (r : Row ℚ) (σ : Valuation) : ℚ := r.constant + weigh σ r.cells.entries

def Reduced (r : Row ℚ) : Prop := ∀ e ∈ r.cells.entries, e.2 ≠ 0

@[simp] theorem eval_zero (r : Row ℚ) : r.eval 0 = r.constant := by
  have h : weigh (0 : Valuation) r.cells.entries = 0 := by simp [weigh]
  rw [eval, h, add_zero]

theorem eval_single (r : Row ℚ) (s : Symbol) (x : ℚ) :
    r.eval (Pi.single s x) = r.constant + r.coefficient s * x := by
  rw [eval, weigh_single s x r.cells.entries r.cells.nodup_keys]
  rfl

theorem coefficient_eq (r : Row ℚ) (s : Symbol) :
    r.coefficient s = r.eval (Pi.single s 1) - r.eval 0 := by
  rw [eval_zero, eval_single]
  ring

theorem coefficient_of_mem {r : Row ℚ} {e : Symbol × ℚ} (h : e ∈ r.cells.entries) :
    r.coefficient e.1 = e.2 := by
  have found : r.cells.get? e.1 = some e.2 := (r.cells.get?_eq_some_iff e.1 e.2).mpr h
  simp [coefficient, found]

theorem eval_congr {r : Row ℚ} {σ τ : Valuation}
    (h : ∀ s, r.coefficient s ≠ 0 → σ s = τ s) : r.eval σ = r.eval τ := by
  rw [eval, eval, weigh_congr r.cells.entries fun e he hne =>
    h e.1 (by rwa [coefficient_of_mem he])]

theorem eval_update {r : Row ℚ} {s : Symbol} (h : r.coefficient s = 0) (σ : Valuation) (x : ℚ) :
    r.eval (Function.update σ s x) = r.eval σ := by
  apply eval_congr
  intro s' hs'
  have hne : s' ≠ s := fun heq => hs' (heq ▸ h)
  exact Function.update_of_ne hne x σ

theorem eval_step (r : Row ℚ) (σ : Valuation) (s : Symbol) (x : ℚ) :
    r.eval (Function.update σ s x) = r.eval σ + r.coefficient s * (x - σ s) := by
  have single : weigh (Pi.single s 1) r.cells.entries = r.coefficient s := by
    rw [weigh_single s 1 r.cells.entries r.cells.nodup_keys, mul_one]
    rfl
  rw [eval, eval, weigh_step, single]
  ring

@[simp] theorem eval_ofConstant (x : ℚ) (σ : Valuation) : (ofConstant x).eval σ = x := by
  simp [eval, ofConstant, Table.empty]

theorem eval_shift (r : Row ℚ) (x : ℚ) (σ : Valuation) : (r.shift x).eval σ = r.eval σ + x := by
  simp only [eval, shift]
  ring

theorem eval_addCell (r : Row ℚ) (s : Symbol) (c : ℚ) (σ : Valuation) :
    (r.addCell s c).eval σ = r.eval σ + c * σ s := by
  unfold addCell
  simp only
  split
  · next h =>
    have hz : r.coefficient s + c = 0 := (Scalar.nearZero_iff _).mp h
    simp only [eval, Table.eraseSwap, weigh_swapOut]
    change _ + (_ - r.coefficient s * σ s) = _
    linear_combination (-σ s) * hz
  · simp only [eval, Table.insert, weigh_place]
    change _ + (_ + (r.coefficient s + c - r.coefficient s) * σ s) = _
    ring

theorem eval_addCells (r : Row ℚ) (cells : List (Symbol × ℚ)) (σ : Valuation) :
    (r.addCells cells).eval σ = r.eval σ + weigh σ cells := by
  induction cells generalizing r with
  | nil => simp [addCells]
  | cons e cells ih =>
    change ((r.addCell e.1 e.2).addCells cells).eval σ = _
    rw [ih, eval_addCell, weigh_cons]
    ring

theorem eval_addScaled (r other : Row ℚ) (k : ℚ) (σ : Valuation) :
    (r.addScaled other k).eval σ = r.eval σ + k * other.eval σ := by
  rw [addScaled, eval_addCells, eval_shift, weigh_scaled, eval]
  simp only [eval]
  ring

theorem eval_erase (r : Row ℚ) (s : Symbol) (σ : Valuation) :
    (r.erase s).eval σ = r.eval σ - r.coefficient s * σ s := by
  simp only [eval, erase, Table.eraseSwap, weigh_swapOut]
  change _ + (_ - r.coefficient s * σ s) = _
  ring

theorem eval_negate (r : Row ℚ) (σ : Valuation) : r.negate.eval σ = -r.eval σ := by
  have h := weigh_scaled σ r.cells.entries (-1)
  simp only [mul_neg, mul_one] at h
  simp only [eval, negate, Table.mapValues, h]
  ring

/-- Oriented or not, a row is the same equation with zero. -/
theorem eval_oriented (r : Row ℚ) :
    ∃ k : ℚ, (k = 1 ∨ k = -1) ∧ ∀ σ, r.oriented.eval σ = k * r.eval σ := by
  unfold oriented
  split
  · exact ⟨-1, Or.inr rfl, fun σ => by rw [eval_negate, neg_one_mul]⟩
  · exact ⟨1, Or.inl rfl, fun σ => (one_mul _).symm⟩

theorem oriented_constant_nonneg (r : Row ℚ) : 0 ≤ r.oriented.constant := by
  unfold oriented
  split
  · next h => exact neg_nonneg.mpr (le_of_lt h)
  · next h => exact not_lt.mp h

theorem eval_substitute (r : Row ℚ) (s : Symbol) (row : Row ℚ) (σ : Valuation) :
    (r.substitute s row).eval σ = r.eval σ + r.coefficient s * (row.eval σ - σ s) := by
  unfold substitute
  split
  · next h => simp [coefficient, h]
  · next c h =>
    have hc : r.coefficient s = c := by simp [coefficient, h]
    rw [eval_addScaled, eval_erase, hc]
    ring

theorem eval_solveFor (r : Row ℚ) (s : Symbol) (h : r.coefficient s ≠ 0) (σ : Valuation) :
    (r.solveFor s).eval σ = σ s - r.eval σ / r.coefficient s := by
  obtain ⟨c, hc⟩ : ∃ c, r.cells.get? s = some c := by
    cases hg : r.cells.get? s with
    | none => simp [coefficient, hg] at h
    | some c => exact ⟨c, rfl⟩
  have hcoeff : r.coefficient s = c := by simp [coefficient, hc]
  have hl : (Table.lookup s r.cells.entries).getD 0 = c := hcoeff
  simp only [solveFor, hc, eval, Table.mapValues, Table.eraseSwap, weigh_scaled, weigh_swapOut, hl,
    hcoeff]
  rw [hcoeff] at h
  field_simp
  ring

theorem single_one (x s : Symbol) : (Pi.single x 1 : Valuation) s = if x = s then 1 else 0 := by
  simp [Pi.single_apply, eq_comm]

theorem coefficient_addCell (r : Row ℚ) (s : Symbol) (c : ℚ) (x : Symbol) :
    (r.addCell s c).coefficient x = r.coefficient x + if x = s then c else 0 := by
  rw [coefficient_eq, coefficient_eq, eval_addCell, eval_addCell]
  rw [single_one, Pi.zero_apply]
  by_cases h : x = s
  · simp [h]
    ring
  · simp [h]

theorem eval_exchange (r : Row ℚ) {basic s : Symbol} (hs : s ≠ basic) (h : r.coefficient s ≠ 0)
    (σ : Valuation) :
    (r.exchange basic s).eval σ = σ s - (r.eval σ - σ basic) / r.coefficient s := by
  have hc : (r.addCell basic (-1)).coefficient s = r.coefficient s := by
    simp [coefficient_addCell, hs]
  rw [exchange, eval_solveFor _ _ (by rwa [hc]), hc, eval_addCell]
  ring

section Reduced

variable {r row : Row ℚ}

theorem Reduced.mem_keys_iff (h : r.Reduced) (s : Symbol) :
    s ∈ r.cells.keys ↔ r.coefficient s ≠ 0 := by
  constructor
  · intro hs
    obtain ⟨e, he, rfl⟩ := List.mem_map.mp hs
    rw [coefficient_of_mem he]
    exact h e he
  · intro hs
    by_contra absent
    rw [← r.cells.get?_eq_none_iff] at absent
    simp [coefficient, absent] at hs

theorem reduced_ofConstant (x : ℚ) : (ofConstant x).Reduced := by
  intro e he
  simp [ofConstant, Table.empty] at he

theorem Reduced.erase (h : r.Reduced) (s : Symbol) : (r.erase s).Reduced :=
  fun e he => h e ((r.cells.mem_entries_eraseSwap s e).mp he).1

theorem Reduced.addCell (h : r.Reduced) (s : Symbol) (c : ℚ) : (r.addCell s c).Reduced := by
  unfold Row.addCell
  simp only
  split
  · exact h.erase s
  · next hz =>
    intro e he
    have found := (Table.get?_eq_some_iff _ e.1 e.2).mpr he
    rw [Table.get?_insert] at found
    split at found
    · rw [Scalar.nearZero_iff] at hz
      exact Option.some.inj found ▸ hz
    · exact h e ((Table.get?_eq_some_iff _ e.1 e.2).mp found)

theorem Reduced.addCells (h : r.Reduced) (cells : List (Symbol × ℚ)) :
    (r.addCells cells).Reduced := by
  induction cells generalizing r with
  | nil => exact h
  | cons e cells ih => exact ih (h.addCell e.1 e.2)

theorem Reduced.addScaled (h : r.Reduced) (other : Row ℚ) (k : ℚ) :
    (r.addScaled other k).Reduced :=
  Reduced.addCells (r := r.shift (other.constant * k)) h _

theorem Reduced.substitute (h : r.Reduced) (s : Symbol) (other : Row ℚ) :
    (r.substitute s other).Reduced := by
  unfold Row.substitute
  split
  · exact h
  · exact (h.erase s).addScaled _ _

theorem Reduced.scaled (h : r.Reduced) {k : ℚ} (hk : k ≠ 0) (x : ℚ) :
    (⟨x, r.cells.mapValues fun _ c => c * k⟩ : Row ℚ).Reduced := by
  intro e he
  obtain ⟨e', he', rfl⟩ := List.mem_map.mp he
  exact mul_ne_zero (h e' he') hk

theorem Reduced.negate (h : r.Reduced) : r.negate.Reduced := by
  intro e he
  obtain ⟨e', he', rfl⟩ := List.mem_map.mp he
  exact neg_ne_zero.mpr (h e' he')

theorem Reduced.oriented (h : r.Reduced) : r.oriented.Reduced := by
  unfold Row.oriented
  split
  · exact h.negate
  · exact h

theorem Reduced.solveFor (h : r.Reduced) (s : Symbol) : (r.solveFor s).Reduced := by
  unfold Row.solveFor
  apply (h.erase s).scaled
  split
  · norm_num
  · next c hc =>
    have hne : c ≠ 0 := h (s, c) ((Table.get?_eq_some_iff _ s c).mp hc)
    exact div_ne_zero (by norm_num) hne

theorem Reduced.exchange (h : r.Reduced) (basic s : Symbol) : (r.exchange basic s).Reduced :=
  (h.addCell basic (-1)).solveFor s

theorem substitute_absent (h : r.Reduced) {s : Symbol} (hs : r.coefficient s = 0) (other : Row ℚ) :
    r.substitute s other = r := by
  have absent : r.cells.get? s = none := by
    rw [Table.get?_eq_none_iff, h.mem_keys_iff, not_not]
    exact hs
  simp [Row.substitute, absent]

end Reduced

section Coefficients

variable (r row : Row ℚ) (s x : Symbol)

theorem coefficient_substitute :
    (r.substitute s row).coefficient x =
      r.coefficient x + r.coefficient s * (row.coefficient x - if x = s then 1 else 0) := by
  rw [coefficient_eq, coefficient_eq r x, coefficient_eq row x, eval_substitute, eval_substitute,
    single_one, Pi.zero_apply]
  ring

theorem constant_substitute :
    (r.substitute s row).constant = r.constant + r.coefficient s * row.constant := by
  rw [← eval_zero, eval_substitute]
  simp

theorem coefficient_addScaled (k : ℚ) :
    (r.addScaled row k).coefficient x = r.coefficient x + k * row.coefficient x := by
  rw [coefficient_eq, coefficient_eq r x, coefficient_eq row x, eval_addScaled, eval_addScaled]
  ring

theorem coefficient_addCells (cells : List (Symbol × ℚ)) :
    (r.addCells cells).coefficient x = r.coefficient x + weigh (Pi.single x 1) cells := by
  have none : weigh (0 : Valuation) cells = 0 := by simp [weigh]
  rw [coefficient_eq, coefficient_eq r x, eval_addCells, eval_addCells, none]
  ring

theorem coefficient_erase :
    (r.erase s).coefficient x = if x = s then 0 else r.coefficient x := by
  rw [coefficient_eq, eval_erase, eval_erase, single_one]
  split
  · next h =>
    subst h
    rw [coefficient_eq r x]
    simp
  · rw [coefficient_eq r x]
    simp

variable {row s}

theorem coefficient_solveFor (h : row.coefficient s ≠ 0) :
    (row.solveFor s).coefficient x =
      (if x = s then 1 else 0) - row.coefficient x / row.coefficient s := by
  rw [coefficient_eq, eval_solveFor row s h, eval_solveFor row s h, single_one, coefficient_eq row x,
    Pi.zero_apply]
  ring

theorem constant_solveFor (h : row.coefficient s ≠ 0) :
    (row.solveFor s).constant = -row.constant / row.coefficient s := by
  rw [← eval_zero, eval_solveFor row s h, eval_zero, Pi.zero_apply]
  ring

variable {basic : Symbol}

theorem coefficient_exchange (hs : s ≠ basic) (h : row.coefficient s ≠ 0) :
    (row.exchange basic s).coefficient x =
      (if x = s then 1 else 0) -
        (row.coefficient x - if x = basic then 1 else 0) / row.coefficient s := by
  have hc : (row.addCell basic (-1)).coefficient s = row.coefficient s := by
    simp [coefficient_addCell, hs]
  rw [exchange, coefficient_solveFor x (by rwa [hc]), hc, coefficient_addCell]
  by_cases hx : x = basic <;> simp [hx, sub_eq_add_neg]

theorem constant_exchange (hs : s ≠ basic) (h : row.coefficient s ≠ 0) :
    (row.exchange basic s).constant = -row.constant / row.coefficient s := by
  rw [← eval_zero, eval_exchange row hs h, eval_zero, Pi.zero_apply, Pi.zero_apply]
  ring

end Coefficients

end Row

end LinearChoice
