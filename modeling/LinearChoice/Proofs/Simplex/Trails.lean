import LinearChoice.Proofs.Simplex.Stages
import LinearChoice.Proofs.Simplex.Symbols

/-!
# No basis comes back

A run that came back to a basis would have gained nothing in between, and the
greatest symbol that comes and goes would have left and returned among bases
that show the same solution. So every basis is new, and a minimisation ends
within fewer pivots than its symbols have subsets.
-/

set_option autoImplicit false

namespace LinearChoice
open scoped Exact

/-- What a closed walk keeps at every step holds everywhere on it or nowhere. -/
theorem constant_of_closed {p : ℕ → Prop} {n i j : ℕ} (kept : ∀ i < n, p i → p (i + 1))
    (closed : p n → p 0) (hi : i ≤ n) (hj : j ≤ n) (hp : p i) : p j := by
  have onward {a b : ℕ} (hab : a ≤ b) (ha : p a) : b ≤ n → p b := by
    induction b, hab using Nat.le_induction with
    | base => exact fun _ => ha
    | succ b _ ih => exact fun hb => kept b hb (ih (Nat.le_of_lt hb))
  exact onward (Nat.zero_le j) (closed (onward hi hp (le_refl n))) hj

namespace Tableau

def written (t : Tableau ℚ) : List Symbol :=
  t.objective.cells.keys ++ t.rows.entries.flatMap fun e => e.1 :: e.2.cells.keys

theorem length_written (t : Tableau ℚ) : t.written.length = t.occurrences := by
  have counted (l : List (Symbol × Row ℚ)) (n : ℕ) :
      l.foldl (fun n e => n + 1 + e.2.cells.size) n =
        n + (l.flatMap fun e => e.1 :: e.2.cells.keys).length := by
    induction l generalizing n with
    | nil => rfl
    | cons e l ih =>
      rw [List.foldl_cons, ih, List.flatMap_cons, List.length_append, List.length_cons,
        Table.keys, List.length_map]
      simp only [Table.size]
      omega
  rw [occurrences, counted, written, List.length_append, Table.keys, List.length_map]
  rfl

theorem over_written (t : Tableau ℚ) : t.Over (· ∈ t.written) := by
  have row (s : Symbol) (r : Row ℚ) (hs : t.rows.get? s = some r) (x : Symbol)
      (hx : x ∈ s :: r.cells.keys) : x ∈ t.written :=
    List.mem_append_right _
      (List.mem_flatMap.mpr ⟨(s, r), (t.rows.get?_eq_some_iff s r).mp hs, hx⟩)
  exact ⟨fun s r hs => row s r hs s List.mem_cons_self,
    fun s r hs x hx => row s r hs x (List.mem_cons_of_mem s hx),
    fun s hs => List.mem_append_left _ hs⟩

end Tableau

namespace Stage

def basis (x : Stage) : Finset Symbol := x.tableau.rows.keys.toFinset

theorem mem_basis {x : Stage} {s : Symbol} : s ∈ x.basis ↔ x.Basic s := by
  rw [basis, List.mem_toFinset, Basic, ne_eq, Table.get?_eq_none_iff, not_not]

theorem Pivots.over_next {P : Symbol → Prop} {costs : List (Symbol × ℚ)} {x y : Stage}
    {entering : Symbol} {c : Candidate ℚ} (h : Pivots x y entering c) (hx : x.Posed costs)
    (known : x.tableau.Over P) : y.tableau.Over P := by
  have mentioned := ((hx.standard.reduced _ _ h.row).mem_keys_iff entering).mpr h.coefficient_ne
  rw [h.tableau]
  exact known.pivot h.row (known.rows _ _ h.row entering mentioned)

structure Trail (costs : List (Symbol × ℚ)) (x : ℕ → Stage) (n : ℕ) : Prop where
  posed : (x 0).Posed costs
  pivots : ∀ i < n, ∃ entering c, Pivots (x i) (x (i + 1)) entering c

namespace Trail

variable {costs : List (Symbol × ℚ)} {x : ℕ → Stage} {n i j k : ℕ} {s : Symbol}
variable (h : Trail costs x n)
include h

/-- What every pivot on the trail keeps holds all along it. -/
theorem along {P : Stage → Prop} (start : P (x 0))
    (step : ∀ i < n, ∀ entering c, Pivots (x i) (x (i + 1)) entering c → P (x i) → P (x (i + 1)))
    (hi : i ≤ n) : P (x i) := by
  induction i with
  | zero => exact start
  | succ i ih =>
    obtain ⟨entering, c, pivots⟩ := h.pivots i hi
    exact step i hi entering c pivots (ih (Nat.le_of_lt hi))

theorem posed_at (hi : i ≤ n) : (x i).Posed costs :=
  h.along h.posed (fun _ _ _ _ pivots posed => pivots.posed posed) hi

theorem solves_at (hi : i ≤ n) (σ : Valuation) :
    (x i).tableau.Solves σ ↔ (x 0).tableau.Solves σ := by
  refine h.along (P := fun y => y.tableau.Solves σ ↔ (x 0).tableau.Solves σ) Iff.rfl ?_ hi
  intro i hi entering c pivots same
  exact (pivots.solves (h.posed_at (Nat.le_of_lt hi)) σ).trans same

theorem over_at {P : Symbol → Prop} (known : (x 0).tableau.Over P) (hi : i ≤ n) :
    (x i).tableau.Over P := by
  refine h.along (P := fun y => y.tableau.Over P) known ?_ hi
  intro i hi entering c pivots known
  exact pivots.over_next (h.posed_at (Nat.le_of_lt hi)) known

theorem later (hij : i ≤ j) (hj : j ≤ n) : Trail costs (fun k => x (i + k)) (j - i) :=
  ⟨h.posed_at (hij.trans hj), fun k hk => h.pivots (i + k) (by omega)⟩

section Closed

variable (closed : ∀ s, (x n).Basic s ↔ (x 0).Basic s)
include closed

/-- On a closed trail the goal stays where it is. -/
theorem level (hi : i < n) : (x (i + 1)).goal.constant = (x i).goal.constant := by
  have falls (i : ℕ) (hi : i < n) : (x (i + 1)).goal.constant ≤ (x i).goal.constant := by
    obtain ⟨entering, c, pivots⟩ := h.pivots i hi
    exact pivots.constant_le (h.posed_at (Nat.le_of_lt hi))
  have last := h.posed_at (le_refl n)
  have back : (x n).shown = (x 0).shown :=
    h.posed.shown_eq last (fun σ => (h.solves_at (le_refl n) σ).mp) fun s hs =>
      shown_parametric ((closed s).not.mpr hs)
  have returns : (x n).goal.constant = (x 0).goal.constant := by
    rw [last.prices.constant last.standard, h.posed.prices.constant h.posed.standard]
    exact congrArg (weigh · costs) back
  apply le_antisymm (falls i hi)
  exact constant_of_closed (p := fun k => (x k).goal.constant ≤ (x (i + 1)).goal.constant)
    (fun k hk low => (falls k hk).trans low) (fun low => returns ▸ low) hi (Nat.le_of_lt hi)
    (le_refl _)

theorem shown_at (hi : i ≤ n) : (x i).shown = (x 0).shown := by
  refine h.along (P := fun y => y.shown = (x 0).shown) rfl ?_ hi
  intro i hi entering c pivots same
  have posed := h.posed_at (Nat.le_of_lt hi)
  exact (pivots.shown_of_degenerate posed (pivots.degenerate posed (h.level closed hi))).trans same

/-- What is basic here and not there has entered somewhere. -/
theorem enters_of_changes (hi : i ≤ n) (hj : j ≤ n) (basic : (x i).Basic s)
    (free : ¬(x j).Basic s) : ∃ k < n, Tableau.entering? (x k).goal = some s := by
  by_contra never
  refine constant_of_closed (p := fun k => ¬(x k).Basic s) ?_ (closed s).not.mp hj hi free basic
  intro k hk free entered
  obtain ⟨entering, c, pivots⟩ := h.pivots k hk
  rcases (pivots.basic_iff (h.posed_at (Nat.le_of_lt hk))).mp entered with rfl | ⟨-, basic⟩
  · exact never ⟨k, hk, pivots.enters⟩
  · exact free basic

/-- What enters must have left somewhere. -/
theorem leaves_of_enters (hk : k < n) (enters : Tableau.entering? (x k).goal = some s) :
    ∃ i < n, ∃ entering c, Pivots (x i) (x (i + 1)) entering c ∧ c.symbol = s := by
  by_contra never
  obtain ⟨entering, c, pivots⟩ := h.pivots k hk
  have posed := h.posed_at (Nat.le_of_lt hk)
  obtain rfl : entering = s := Option.some.inj (pivots.enters.symm.trans enters)
  refine constant_of_closed (p := fun i => (x i).Basic entering) ?_ (closed entering).mp hk
    (Nat.le_of_lt hk) ((pivots.basic_iff posed).mpr (Or.inl rfl)) (pivots.parametric posed)
  intro i hi basic
  obtain ⟨entering', c', pivots'⟩ := h.pivots i hi
  refine (pivots'.basic_iff (h.posed_at (Nat.le_of_lt hi))).mpr (Or.inr ⟨?_, basic⟩)
  exact fun leaves => never ⟨i, hi, entering', c', pivots', leaves.symm⟩

/-- The greatest symbol that enters a basis on a closed trail also leaves one, and cannot. -/
theorem eq_zero_of_closed : n = 0 := by
  by_contra moves
  have moves : 0 < n := Nat.pos_of_ne_zero moves
  let entered := (List.range n).filterMap fun k => Tableau.entering? (x k).goal
  have mem_entered {s : Symbol} :
      s ∈ entered ↔ ∃ k < n, Tableau.entering? (x k).goal = some s := by
    simp [entered]
  obtain ⟨first, c, starts⟩ := h.pivots 0 moves
  obtain ⟨s, hs, greatest⟩ := Symbol.exists_greatest
    (List.ne_nil_of_mem (mem_entered.mpr ⟨0, moves, starts.enters⟩))
  obtain ⟨k, hk, enters⟩ := mem_entered.mp hs
  obtain ⟨i, hi, entering, c, pivots, rfl⟩ := h.leaves_of_enters closed hk enters
  have posed := h.posed_at (Nat.le_of_lt hi)
  have posed' := h.posed_at (Nat.le_of_lt hk)
  refine pivots.no_return posed (pivots.degenerate posed (h.level closed hi)) posed' ?_ ?_ ?_ enters
  · intro σ solved
    rw [h.solves_at (Nat.le_of_lt hk)]
    exact (h.solves_at (Nat.le_of_lt hi) σ).mp solved
  · rw [h.shown_at closed (Nat.le_of_lt hk), h.shown_at closed (Nat.le_of_lt hi)]
  · rintro x (rfl | ⟨basic, free⟩)
    · exact greatest _ (mem_entered.mpr ⟨i, hi, pivots.enters⟩)
    · exact greatest x (mem_entered.mpr
        (h.enters_of_changes closed (Nat.le_of_lt hi) (Nat.le_of_lt hk) basic free))

end Closed

theorem bases_differ (hij : i < j) (hj : j ≤ n) : (x i).basis ≠ (x j).basis := by
  intro same
  have closed (s : Symbol) : (x (i + (j - i))).Basic s ↔ (x (i + 0)).Basic s := by
    rw [Nat.add_zero, Nat.add_sub_cancel' (Nat.le_of_lt hij), ← mem_basis, ← mem_basis, same]
  have := (h.later (Nat.le_of_lt hij) hj).eq_zero_of_closed closed
  omega

/-- All bases are among the symbols written at the start. -/
theorem short : n < 2 ^ (x 0).tableau.occurrences := by
  have within : ∀ i ∈ Finset.range (n + 1),
      (x i).basis ∈ (x 0).tableau.written.toFinset.powerset := by
    intro i hi
    have hi := Nat.lt_succ_iff.mp (Finset.mem_range.mp hi)
    rw [Finset.mem_powerset]
    intro s hs
    obtain ⟨row, found⟩ := Option.ne_none_iff_exists'.mp (mem_basis.mp hs)
    exact List.mem_toFinset.mpr ((h.over_at (x 0).tableau.over_written hi).basic s row found)
  have apart : Set.InjOn (fun i => (x i).basis) (Finset.range (n + 1)) := by
    intro i hi j hj same
    have hi := Nat.lt_succ_iff.mp (Finset.mem_range.mp hi)
    have hj := Nat.lt_succ_iff.mp (Finset.mem_range.mp hj)
    rcases Nat.lt_trichotomy i j with less | even | more
    · exact absurd same (h.bases_differ less hj)
    · exact even
    · exact absurd same.symm (h.bases_differ more hi)
  calc n + 1 = (Finset.range (n + 1)).card := (Finset.card_range _).symm
    _ ≤ (x 0).tableau.written.toFinset.powerset.card := Finset.card_le_card_of_injOn _ within apart
    _ = 2 ^ (x 0).tableau.written.toFinset.card := Finset.card_powerset _
    _ ≤ 2 ^ (x 0).tableau.written.length :=
      Nat.pow_le_pow_right Nat.two_pos (List.toFinset_card_le _)
    _ = 2 ^ (x 0).tableau.occurrences := by rw [Tableau.length_written]

end Trail

def next (x : Stage) : Option Stage :=
  match x.tableau.advance x.goal with
  | .moved t goal => some ⟨t, goal⟩
  | .optimal | .unbounded => none

def after : ℕ → Stage → Option Stage
  | 0, x => some x
  | n + 1, x => (after n x).bind next

variable {costs : List (Symbol × ℚ)} {x y : Stage} {n : ℕ}

theorem next_eq_some (h : x.next = some y) :
    x.tableau.advance x.goal = .moved y.tableau y.goal := by
  unfold next at h
  split at h
  · next t goal step =>
    cases h
    exact step
  · contradiction
  · contradiction

theorem after_succ (h : after (n + 1) x = some y) : ∃ z, after n x = some z ∧ z.next = some y :=
  Option.bind_eq_some_iff.mp h

theorem after_of_le {m : ℕ} (h : after n x = some y) (hm : m ≤ n) :
    ∃ z, after m x = some z := by
  induction n, hm using Nat.le_induction generalizing y with
  | base => exact ⟨y, h⟩
  | succ n _ ih =>
    obtain ⟨z, earlier, -⟩ := after_succ h
    exact ih earlier

theorem Posed.trail (hx : x.Posed costs) (h : after n x = some y) :
    Trail costs (fun i => (after i x).getD x) n := by
  refine ⟨hx, fun i hi => ?_⟩
  obtain ⟨w, there⟩ := after_of_le h hi
  obtain ⟨z, here, step⟩ := after_succ there
  simp only [here, there, Option.getD_some]
  exact pivots_of_advance (next_eq_some step)

/-- The pivots up to a stage are the first ones of any longer minimisation. -/
theorem minimise_after (h : after n x = some y) (k : ℕ) :
    Tableau.minimise (n + k) x.tableau x.goal = Tableau.minimise k y.tableau y.goal := by
  induction n generalizing y k with
  | zero =>
    cases h
    rw [Nat.zero_add]
  | succ n ih =>
    obtain ⟨z, earlier, step⟩ := after_succ h
    rw [Nat.add_assoc, Nat.add_comm 1, ih earlier, Tableau.minimise, next_eq_some step]

structure Terminates (x : Stage) : Prop where
  acyclic : ∀ i j y z, i < j → after i x = some y → after j x = some z → y.basis ≠ z.basis
  ends : ∃ n y, n < 2 ^ x.tableau.occurrences ∧ after n x = some y ∧
    y.tableau.advance y.goal = .optimal ∧
    ∀ k, n < k → Tableau.minimise k x.tableau x.goal = (.ok (), y.tableau, y.goal)

theorem Posed.ends (hx : x.Posed costs) : ∃ n y, after n x = some y ∧ y.next = none := by
  by_contra endless
  push Not at endless
  have on (n : ℕ) : ∃ y, after n x = some y := by
    induction n with
    | zero => exact ⟨x, rfl⟩
    | succ n ih =>
      obtain ⟨y, here⟩ := ih
      obtain ⟨z, step⟩ := Option.ne_none_iff_exists'.mp (endless n y here)
      exact ⟨z, by rw [after, here, Option.bind_some, step]⟩
  obtain ⟨y, long⟩ := on (2 ^ x.tableau.occurrences)
  exact lt_irrefl _ (hx.trail long).short

theorem Posed.terminates (hx : x.Posed costs) : x.Terminates := by
  constructor
  · intro i j y z hij here there
    simpa [here, there] using (hx.trail there).bases_differ hij (le_refl j)
  · obtain ⟨n, y, here, last⟩ := hx.ends
    have trail := hx.trail here
    have posed := trail.posed_at (le_refl n)
    simp only [here, Option.getD_some] at posed
    have optimal : y.tableau.advance y.goal = .optimal := by
      rcases Tableau.advance_cases costs posed.standard posed.priced posed.prices with
        ⟨optimal, -⟩ | ⟨t, goal, moved, -⟩
      · exact optimal
      · simp [next, moved] at last
    refine ⟨n, y, trail.short, here, optimal, fun k hk => ?_⟩
    obtain ⟨m, rfl⟩ := Nat.exists_eq_add_of_lt hk
    rw [Nat.add_assoc, minimise_after here, Tableau.minimise, optimal]

theorem Terminates.minimise (h : x.Terminates) :
    (Tableau.minimise x.tableau.budget x.tableau x.goal).1 = .ok () := by
  obtain ⟨n, y, short, -, -, run⟩ := h.ends
  rw [run]
  exact short.trans_le (Nat.pow_le_pow_right Nat.two_pos (Nat.le_add_left _ _))

end Stage

end LinearChoice
