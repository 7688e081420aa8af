import LinearChoice.Proofs.Simplex.Editing

/-!
# The client's account of its edits

The client of a solver with edit variables knows the constraints that it added
and, of every variable under edit, how strongly it is pulled and where to. The
solver has both in one book, in which each edit has a constraint of its own.
The two accounts charge the same for any values, whatever is entered or struck
out.
-/

set_option autoImplicit false

namespace LinearChoice
open scoped Exact

namespace Table

variable {κ ν : Type} [DecidableEq κ] {t : Table κ ν} {k : κ} {v w : ν}

def total (t : Table κ ν) (f : κ → ν → ℚ) : ℚ := (t.entries.map fun e => f e.1 e.2).sum

variable (f : κ → ν → ℚ)

theorem total_insert (new : t.get? k = none) : (t.insert k v).total f = t.total f + f k v := by
  rw [total, entries_insert_new t k v new, List.map_append, List.sum_append, List.map_singleton,
    List.sum_singleton, total]

theorem total_eraseSwap (found : t.get? k = some v) :
    t.total f = f k v + (t.eraseSwap k).total f := by
  have same := ((t.entries_perm_eraseSwap k v found).map fun e => f e.1 e.2).sum_eq
  rwa [List.map_cons, List.sum_cons] at same

theorem sum_place (l : List (κ × ν)) (found : lookup k l = some w) :
    ((place k v l).map fun e => f e.1 e.2).sum + f k w = (l.map fun e => f e.1 e.2).sum + f k v := by
  induction l with
  | nil => cases found
  | cons e l ih =>
    by_cases hk : e.1 = k
    · simp only [lookup, hk, if_true, Option.some.injEq] at found
      simp only [place, hk, found, if_true, List.map_cons, List.sum_cons]
      ring
    · simp only [lookup, hk, if_false] at found
      simp only [place, hk, if_false, List.map_cons, List.sum_cons, add_assoc, ih found]

/-- To write over an entry is to add the new one and take the old one off. -/
theorem total_replace (found : t.get? k = some w) :
    (t.insert k v).total f + f k w = t.total f + f k v := sum_place f t.entries found

end Table

structure Pull where
  strength : Strength ℚ
  target : ℚ

def Pull.constraint (p : Pull) (v : Variable) : Constraint ℚ := .suggesting v p.strength p.target

def Pull.penalty (w : Variable → ℚ) (v : Variable) (p : Pull) : ℚ := (p.constraint v).penalty w

structure Edit.Serves (edit : Edit ℚ) (book : Book) (base : ConstraintId → ℕ) (v : Variable)
    (p : Pull) : Prop where
  held : book.get? edit.constraint = some (p.constraint v)
  target : edit.suggested = p.target
  optional : p.strength.isRequired = false
  tag : edit.tag = (Markers.ofConstraint (p.constraint v) (base edit.constraint)).tag

namespace Edit.Serves

variable {edit : Edit ℚ} {book book' : Book} {base base' : ConstraintId → ℕ} {v : Variable} {p : Pull}

theorem stands (h : edit.Serves book base v p) : edit.Stands book base v := by
  refine ⟨p.strength, ?_, h.optional, ?_⟩
  · rw [h.target]
    exact h.held
  · rw [h.target]
    exact h.tag

theorem frame (h : edit.Serves book base v p)
    (held : book'.get? edit.constraint = book.get? edit.constraint)
    (numbers : base' edit.constraint = base edit.constraint) : edit.Serves book' base' v p :=
  ⟨held.trans h.held, h.target, h.optional, numbers ▸ h.tag⟩

end Edit.Serves

structure Accounts (edits : Table Variable (Edit ℚ)) (held : Book) (pulls : Table Variable Pull)
    (book : Book) (base : ConstraintId → ℕ) : Prop where
  pulled : ∀ v edit, edits.get? v = some edit → ∃ p, pulls.get? v = some p ∧ edit.Serves book base v p
  edited : ∀ v, edits.get? v = none → pulls.get? v = none
  own : ∀ v edit, edits.get? v = some edit → held.get? edit.constraint = none
  shared : ∀ id, (∀ v edit, edits.get? v = some edit → edit.constraint ≠ id) →
    held.get? id = book.get? id
  cost : ∀ w, book.total (fun _ c => c.penalty w) =
    held.total (fun _ c => c.penalty w) + pulls.total (Pull.penalty w)

namespace Accounts

variable {edits : Table Variable (Edit ℚ)} {held book : Book} {pulls : Table Variable Pull}
  {base base' : ConstraintId → ℕ} {id : ConstraintId} {c : Constraint ℚ} {v v' : Variable}
  {edit edit' : Edit ℚ} {p : Pull}

theorem empty (base : ConstraintId → ℕ) :
    Accounts Table.empty Table.empty Table.empty Table.empty base :=
  ⟨nofun, fun _ _ => rfl, nofun, fun _ _ => rfl, fun _ => (add_zero _).symm⟩

/-- Each edit has a constraint of its own. -/
theorem apart (h : Accounts edits held pulls book base) (found : edits.get? v = some edit)
    (found' : edits.get? v' = some edit') (hne : v ≠ v') : edit.constraint ≠ edit'.constraint := by
  obtain ⟨p, -, serves⟩ := h.pulled v edit found
  obtain ⟨p', -, serves'⟩ := h.pulled v' edit' found'
  intro same
  have held := serves.held
  rw [same, serves'.held] at held
  exact hne (Constraint.eq_of_suggesting (Option.some.inj held)).symm

/-- A number that is not in use is no edit's. -/
theorem unowned (h : Accounts edits held pulls book base) (new : book.get? id = none) :
    ∀ v edit, edits.get? v = some edit → edit.constraint ≠ id := by
  rintro v edit found rfl
  obtain ⟨p, -, serves⟩ := h.pulled v edit found
  rw [serves.held] at new
  contradiction

theorem satisfied_iff (h : Accounts edits held pulls book base) {w : Variable → ℚ} :
    book.Satisfied w ↔ held.Satisfied w := by
  constructor
  · intro hw id c hc
    refine hw id c ?_
    rw [← h.shared id, hc]
    rintro v edit found rfl
    rw [h.own v edit found] at hc
    contradiction
  · intro hw id c hc required
    refine hw id c ?_ required
    rw [h.shared id, hc]
    rintro v edit found rfl
    obtain ⟨p, -, serves⟩ := h.pulled v edit found
    rw [serves.held] at hc
    cases hc
    exact absurd required (ne_true_of_eq_false serves.optional)

/-- The client's constraint is entered. -/
theorem insert (h : Accounts edits held pulls book base) (new : book.get? id = none)
    (numbers : ∀ x ≠ id, base' x = base x) :
    Accounts edits (held.insert id c) pulls (book.insert id c) base' := by
  have unowned := h.unowned new
  refine ⟨fun v edit found => ?_, h.edited, fun v edit found => ?_, fun x spared => ?_, fun w => ?_⟩
  · obtain ⟨p, pull, serves⟩ := h.pulled v edit found
    have hne := unowned v edit found
    exact ⟨p, pull, serves.frame (by rw [Table.get?_insert, if_neg hne.symm]) (numbers _ hne)⟩
  · rw [Table.get?_insert, if_neg (unowned v edit found).symm, h.own v edit found]
  · rw [Table.get?_insert, Table.get?_insert, h.shared x spared]
  · rw [Table.total_insert _ new, Table.total_insert _ ((h.shared id unowned).trans new), h.cost w,
      add_right_comm]

/-- A constraint of the client's is struck out. -/
theorem erase (h : Accounts edits held pulls book base)
    (spared : ∀ v edit, edits.get? v = some edit → edit.constraint ≠ id)
    (found : book.get? id = some c) :
    Accounts edits (held.eraseSwap id) pulls (book.eraseSwap id) base := by
  refine ⟨fun v edit edited => ?_, h.edited, fun v edit edited => ?_, fun x others => ?_, fun w => ?_⟩
  · obtain ⟨p, pull, serves⟩ := h.pulled v edit edited
    have hne := spared v edit edited
    exact ⟨p, pull, serves.frame (by rw [Table.get?_eraseSwap, if_neg hne.symm]) rfl⟩
  · rw [Table.get?_eraseSwap, h.own v edit edited, ite_self]
  · rw [Table.get?_eraseSwap, Table.get?_eraseSwap, h.shared x others]
  · have cost := h.cost w
    rw [Table.total_eraseSwap _ found, Table.total_eraseSwap _ ((h.shared id spared).trans found),
      add_assoc] at cost
    exact add_left_cancel cost

/-- The constraint of an edit is written into the book, for the first time or over the old one. -/
theorem put (h : Accounts edits held pulls book base) (own : held.get? edit.constraint = none)
    (others : ∀ v' edit', v ≠ v' → edits.get? v' = some edit' → edit'.constraint ≠ edit.constraint)
    (before : ∀ edit', edits.get? v = some edit' → edit'.constraint = edit.constraint)
    (serves : edit.Serves (book.insert edit.constraint (p.constraint v)) base' v p)
    (numbers : ∀ x ≠ edit.constraint, base' x = base x)
    (cost : ∀ w, (book.insert edit.constraint (p.constraint v)).total (fun _ c => c.penalty w) =
      held.total (fun _ c => c.penalty w) + (pulls.insert v p).total (Pull.penalty w)) :
    Accounts (edits.insert v edit) held (pulls.insert v p)
      (book.insert edit.constraint (p.constraint v)) base' := by
  refine ⟨fun v' edit' found => ?_, fun v' absent => ?_, fun v' edit' found => ?_,
    fun x spared => ?_, cost⟩
  · rw [Table.get?_insert] at found ⊢
    split at found
    · next same =>
      subst same
      cases found
      exact ⟨p, if_pos rfl, serves⟩
    · next other =>
      obtain ⟨p', pull, serves'⟩ := h.pulled v' edit' found
      have hne := others v' edit' other found
      exact ⟨p', (if_neg other).trans pull,
        serves'.frame (by rw [Table.get?_insert, if_neg hne.symm]) (numbers _ hne)⟩
  · rw [Table.get?_insert] at absent ⊢
    split at absent
    · contradiction
    · next other => exact (if_neg other).trans (h.edited v' absent)
  · rw [Table.get?_insert] at found
    split at found
    · cases found
      exact own
    · exact h.own v' edit' found
  · have hne : edit.constraint ≠ x := spared v edit (by rw [Table.get?_insert, if_pos rfl])
    rw [Table.get?_insert, if_neg hne]
    refine h.shared x fun v' edit' found => ?_
    by_cases same : v = v'
    · subst same
      rw [before edit' found]
      exact hne
    · exact spared v' edit' (by rw [Table.get?_insert, if_neg same, found])

/-- An edit begins. -/
theorem enter (h : Accounts edits held pulls book base) (fresh : edits.get? v = none)
    (new : book.get? edit.constraint = none)
    (serves : edit.Serves (book.insert edit.constraint (p.constraint v)) base' v p)
    (numbers : ∀ x ≠ edit.constraint, base' x = base x) :
    Accounts (edits.insert v edit) held (pulls.insert v p)
      (book.insert edit.constraint (p.constraint v)) base' := by
  have unowned := h.unowned new
  refine h.put ((h.shared _ unowned).trans new) (fun v' edit' _ found => unowned v' edit' found)
    (fun edit' found => ?_) serves numbers fun w => ?_
  · rw [fresh] at found
    contradiction
  · rw [Table.total_insert _ new, Table.total_insert _ (h.edited v fresh), h.cost w, add_assoc]
    rfl

/-- An edit ends. -/
theorem leave (h : Accounts edits held pulls book base) (found : edits.get? v = some edit) :
    Accounts (edits.eraseSwap v) held (pulls.eraseSwap v) (book.eraseSwap edit.constraint) base := by
  obtain ⟨p, pull, serves⟩ := h.pulled v edit found
  refine ⟨fun v' edit' found' => ?_, fun v' absent => ?_, fun v' edit' found' => ?_,
    fun x spared => ?_, fun w => ?_⟩
  · rw [Table.get?_eraseSwap] at found' ⊢
    split at found'
    · contradiction
    · next other =>
      obtain ⟨p', pull', serves'⟩ := h.pulled v' edit' found'
      have hne := h.apart found found' other
      exact ⟨p', (if_neg other).trans pull',
        serves'.frame (by rw [Table.get?_eraseSwap, if_neg hne]) rfl⟩
  · rw [Table.get?_eraseSwap] at absent ⊢
    split at absent
    · next same => exact if_pos same
    · next other => exact (if_neg other).trans (h.edited v' absent)
  · rw [Table.get?_eraseSwap] at found'
    split at found'
    · contradiction
    · exact h.own v' edit' found'
  · rw [Table.get?_eraseSwap]
    split
    · next same => rw [← same, h.own v edit found]
    · next hne =>
      refine h.shared x fun v' edit' found' => ?_
      by_cases same : v = v'
      · subst same
        rw [found] at found'
        cases found'
        exact hne
      · exact spared v' edit' (by rw [Table.get?_eraseSwap, if_neg same, found'])
  · have cost := h.cost w
    rw [Table.total_eraseSwap _ serves.held, Table.total_eraseSwap _ pull, add_left_comm] at cost
    exact add_left_cancel cost

/-- A value is suggested. -/
theorem retarget (h : Accounts edits held pulls book base) (found : edits.get? v = some edit)
    (pull : pulls.get? v = some p) (a : ℚ) :
    Accounts (edits.insert v { edit with suggested := a }) held
      (pulls.insert v { p with target := a })
      (book.insert edit.constraint (Pull.constraint { p with target := a } v)) base := by
  obtain ⟨p', pull', serves⟩ := h.pulled v edit found
  rw [pull] at pull'
  cases pull'
  refine h.put (h.own v edit found)
    (fun v' edit' other found' => (h.apart found found' other).symm) (fun edit' found' => ?_)
    ⟨by rw [Table.get?_insert, if_pos rfl], rfl, serves.optional, serves.tag⟩ (fun _ _ => rfl)
    fun w => ?_
  · rw [found] at found'
    cases found'
    rfl
  · have before := h.cost w
    have cost := Table.total_replace (v := Pull.constraint { p with target := a } v)
      (fun _ c => c.penalty w) serves.held
    have pulled := Table.total_replace (v := { p with target := a }) (Pull.penalty w) pull
    simp only [Pull.penalty] at before cost pulled ⊢
    linarith

end Accounts

end LinearChoice
