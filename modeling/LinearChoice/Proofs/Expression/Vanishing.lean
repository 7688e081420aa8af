import Mathlib.Data.Set.Card
import LinearChoice.Expression.Basic
import LinearChoice.Table.Lemmas

/-!
# Vanishing coefficients

Terms are dropped when their coefficients come close to zero, but only where
terms are added. A factor may leave a coefficient that counts as zero, and this
is the only way to one. As long as no such coefficient is left, the terms of an
expression are those of the variables on which it depends.
-/

set_option autoImplicit false

namespace LinearChoice

namespace Expression

section

variable {α : Type} [Scalar α] {e : Expression α} {v : Variable}

def Vanishes (e : Expression α) (v : Variable) : Prop :=
  ∃ c, e.terms.get? v = some c ∧ Scalar.nearZero c = true

theorem not_vanishes_ofConstant (x : α) : ¬(ofConstant x).Vanishes v := by
  rintro ⟨c, found, -⟩
  cases found

/-- Adding to a coefficient settles whether it stays, whatever it was before. -/
theorem vanishes_addTerm (w : Variable) (c : α) :
    (e.addTerm w c).Vanishes v ↔ e.Vanishes v ∧ (w = v → Scalar.nearZero c = true) := by
  unfold addTerm
  cases small : Scalar.nearZero c with
  | true => simp
  | false =>
    by_cases here : w = v
    · subst here
      -- Either the total is near zero and leaves, or it is stored and is not.
      cases gone : Scalar.nearZero (e.coefficient w + c) with
      | true => simp [Vanishes, gone, Table.get?_eraseShift]
      | false => simp [Vanishes, gone, Table.get?_insert]
    · cases gone : Scalar.nearZero (e.coefficient w + c) with
      | true => simp [Vanishes, gone, Table.get?_eraseShift, here]
      | false => simp [Vanishes, gone, Table.get?_insert, here]

theorem vanishes_addTerms (terms : List (Variable × α)) :
    (e.addTerms terms).Vanishes v ↔
      e.Vanishes v ∧ ∀ t ∈ terms, t.1 = v → Scalar.nearZero t.2 = true := by
  induction terms generalizing e with
  | nil => simp [addTerms]
  | cons t terms ih =>
    change ((e.addTerm t.1 t.2).addTerms terms).Vanishes v ↔ _
    rw [ih, vanishes_addTerm, List.forall_mem_cons, and_assoc]

theorem vanishes_scale (k : α) :
    (e.scale k).Vanishes v ↔ ∃ c, e.terms.get? v = some c ∧ Scalar.nearZero (c * k) = true := by
  simp [Vanishes, scale, Table.get?_mapValues]

theorem vanishes_addScaled (other : Expression α) (k : α) :
    (e.addScaled other k).Vanishes v ↔
      e.Vanishes v ∧ ∀ c, other.terms.get? v = some c → Scalar.nearZero (c * k) = true := by
  unfold addScaled
  rw [vanishes_addTerms]
  refine and_congr Iff.rfl ?_
  simp only [Table.get?_eq_some_iff, List.forall_mem_map]
  constructor
  · exact fun h c hc => h (v, c) hc rfl
  · rintro h t ht rfl
    exact h t.2 ht

theorem kept_iff :
    (∀ t ∈ e.terms.entries, Scalar.nearZero t.2 = false) ↔ ∀ v, ¬e.Vanishes v := by
  simp only [Vanishes, Table.get?_eq_some_iff, not_exists, not_and, Bool.not_eq_true]
  exact ⟨fun h v c stored => h (v, c) stored, fun h t stored => h t.1 t.2 stored⟩

end

variable {e : Expression Float}

structure Tidy (e : Expression Float) : Prop where
  kept : ∀ t ∈ e.terms.entries, Scalar.nearZero t.2 = false
  size : e.size = {v | (e.coefficient v == 0) = false}.ncard
  contains : ∀ v, e.contains v = true ↔ (e.coefficient v == 0) = false
  isEmpty : e.isEmpty = true ↔ ∀ v, (e.coefficient v == 0) = true

theorem contains_iff_coefficient (kept : ∀ v, ¬e.Vanishes v) (v : Variable) :
    e.contains v = true ↔ (e.coefficient v == 0) = false := by
  unfold coefficient contains Table.contains
  cases stored : e.terms.get? v with
  | none =>
    have zero : ((0 : Float) == 0) = true := by decide +kernel
    simp [zero]
  | some c =>
    have large : Scalar.nearZero c = false :=
      Bool.eq_false_iff.mpr fun small => kept v ⟨c, stored, small⟩
    have nonzero := (Bool.or_eq_false_iff.mp large).1
    simp [nonzero]

theorem tidy_iff : e.Tidy ↔ ∀ v, ¬e.Vanishes v := by
  constructor
  · exact fun tidy => kept_iff.mp tidy.kept
  · intro kept
    have contains := contains_iff_coefficient kept
    refine ⟨kept_iff.mpr kept, ?_, contains, ?_⟩
    · have support : {v | (e.coefficient v == 0) = false} = (e.support.toFinset : Set Variable) := by
        ext v
        rw [Set.mem_ofPred_eq, ← contains v, List.coe_toFinset]
        exact e.terms.contains_iff v
      have distinct : e.support.Nodup := e.terms.nodup_keys
      rw [support, Set.ncard_coe_finset, List.toFinset_card_of_nodup distinct]
      exact (List.length_map Prod.fst).symm
    · refine e.terms.isEmpty_iff.trans (forall_congr' fun v => ?_)
      have here : e.terms.contains v = true ↔ (e.coefficient v == 0) = false := contains v
      rw [← Bool.not_eq_true, here, Bool.not_eq_false]

end Expression

inductive Construction (α : Type) where
  | ofConstant (x : α)
  | ofVariable (v : Variable)
  | ofTerm (v : Variable) (c : α)
  | sum (terms : List (Variable × α))
  | addTerm (a : Construction α) (v : Variable) (c : α)
  | offset (a : Construction α) (x : α)
  | scale (a : Construction α) (k : α)
  | addScaled (a b : Construction α) (k : α)

namespace Construction

variable {α : Type} [Scalar α]

def build : Construction α → Expression α
  | .ofConstant x => .ofConstant x
  | .ofVariable v => .ofVariable v
  | .ofTerm v c => .ofTerm v c
  | .sum terms => .sum terms
  | .addTerm a v c => a.build.addTerm v c
  | .offset a x => a.build.offset x
  | .scale a k => a.build.scale k
  | .addScaled a b k => a.build.addScaled b.build k

def Faded : Construction α → Variable → Prop
  | .ofConstant _, _ | .ofVariable _, _ | .ofTerm _ _, _ | .sum _, _ => False
  | .addTerm a w c, v => a.Faded v ∧ (w = v → Scalar.nearZero c = true)
  | .offset a _, v => a.Faded v
  | .scale a k, v => ∃ c, a.build.terms.get? v = some c ∧ Scalar.nearZero (c * k) = true
  | .addScaled a b k, v =>
    a.Faded v ∧ ∀ c, b.build.terms.get? v = some c → Scalar.nearZero (c * k) = true

/-- In any arithmetic the coefficients that vanish are those that faded. -/
theorem vanishes_build (a : Construction α) (v : Variable) : a.build.Vanishes v ↔ a.Faded v := by
  induction a with
  | ofConstant x => exact iff_of_false (Expression.not_vanishes_ofConstant x) id
  | ofVariable w =>
    refine iff_of_false ?_ id
    intro vanishes
    exact Expression.not_vanishes_ofConstant 0 ((Expression.vanishes_addTerm w 1).mp vanishes).1
  | ofTerm w c =>
    refine iff_of_false ?_ id
    intro vanishes
    exact Expression.not_vanishes_ofConstant 0 ((Expression.vanishes_addTerm w c).mp vanishes).1
  | sum terms =>
    refine iff_of_false ?_ id
    intro vanishes
    exact Expression.not_vanishes_ofConstant 0 ((Expression.vanishes_addTerms terms).mp vanishes).1
  | addTerm a w c ih => exact (Expression.vanishes_addTerm w c).trans (and_congr_left' ih)
  | offset a x ih => exact ih
  | scale a k _ => exact Expression.vanishes_scale k
  | addScaled a b k ih _ =>
    exact (Expression.vanishes_addScaled b.build k).trans (and_congr_left' ih)

/-- An expression is tidy if and only if none of its coefficients faded. -/
theorem tidy_build (a : Construction Float) : a.build.Tidy ↔ ∀ v, ¬a.Faded v := by
  rw [Expression.tidy_iff]
  exact forall_congr' fun v => not_congr (a.vanishes_build v)

/-- A variable times zero. -/
theorem faded_scaled :
    let a : Construction Float := .scale (.ofVariable ⟨0⟩) 0
    a.build.size = 1 ∧ a.build.contains ⟨0⟩ = true ∧ a.build.isEmpty = false ∧
      (a.build.coefficient ⟨0⟩ == 0) = true ∧ ¬a.build.Tidy := by
  have contains : (scale (.ofVariable ⟨0⟩) 0 : Construction Float).build.contains ⟨0⟩ = true := by
    decide +kernel
  have zero : ((scale (.ofVariable ⟨0⟩) 0 : Construction Float).build.coefficient ⟨0⟩ == 0) =
      true := by decide +kernel
  refine ⟨by decide +kernel, contains, by decide +kernel, zero, ?_⟩
  intro tidy
  have nonzero := (tidy.contains ⟨0⟩).mp contains
  rw [zero] at nonzero
  cases nonzero

end Construction

end LinearChoice
