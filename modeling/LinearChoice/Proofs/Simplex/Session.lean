import LinearChoice.Proofs.Simplex.Calls
import LinearChoice.Proofs.Simplex.Penalty

/-!
# Sessions

A session is a solver in use together with the client's own book of what was
accepted and not removed since. Whatever the order of the calls, the solver
decides exactly which required constraints can be met together, and its
tableau has no other solutions than the book has.
-/

set_option autoImplicit false

namespace LinearChoice
open scoped Exact

namespace Book

variable {book : Book} {base : ConstraintId → ℕ} {n : ℕ} {v : Variable → ℚ}

def Satisfied (book : Book) (v : Variable → ℚ) : Prop :=
  ∀ id c, book.get? id = some c → c.isRequired = true → c.holds v 0 = true

/-- Filling in the markers of one constraint keeps the equations of the others, and what their errors
cost. -/
theorem weigh_fill {c d : Constraint ℚ} {m k : ℕ}
    (apart : m + (Markers.ofConstraint c m).count ≤ k ∨ k + (Markers.ofConstraint d k).count ≤ m)
    (σ : Valuation) (l : List (Symbol × ℚ))
    (numbered : ∀ e ∈ l, k ≤ e.1.id ∧ e.1.id < k + (Markers.ofConstraint d k).count) :
    weigh (c.fill m v σ) l = weigh σ l := by
  apply weigh_congr
  intro e he _
  obtain ⟨lower, upper⟩ := numbered e he
  apply Constraint.fill_apart
  rcases apart with h | h
  · exact Or.inr (h.trans lower)
  · exact Or.inl (upper.trans_le h)

theorem meets_fill {c d : Constraint ℚ} {m k : ℕ}
    (apart : m + (Markers.ofConstraint c m).count ≤ k ∨ k + (Markers.ofConstraint d k).count ≤ m)
    (σ : Valuation) : d.Meets k (c.fill m v σ) ↔ d.Meets k σ := by
  rw [Constraint.Meets, Constraint.Meets, Constraint.fill_outer,
    weigh_fill apart σ _ fun e he => (Markers.cells_numbered d k e he).2]

theorem costs_fill {c d : Constraint ℚ} {m k : ℕ}
    (apart : m + (Markers.ofConstraint c m).count ≤ k ∨ k + (Markers.ofConstraint d k).count ≤ m)
    (σ : Valuation) : weigh (c.fill m v σ) (Markers.ofConstraint d k).costs =
      weigh σ (Markers.ofConstraint d k).costs :=
  weigh_fill apart σ _ fun e he => (Markers.costs_numbered d k e he).2.2

theorem extend_entries (hn : Numbered book base n) (hv : book.Satisfied v)
    (l : List (ConstraintId × Constraint ℚ)) (entries : ∀ e ∈ l, book.get? e.1 = some e.2)
    (nodup : (l.map Prod.fst).Nodup) :
    ∃ σ : Valuation, σ.Admissible ∧ σ.outer = v ∧ ∀ e ∈ l, e.2.Meets (base e.1) σ ∧
      weigh σ (Markers.ofConstraint e.2 (base e.1)).costs = e.2.penalty v := by
  induction l with
  | nil =>
    exact ⟨Valuation.ofOuter v, Valuation.admissible_ofOuter v, rfl, by simp⟩
  | cons e l ih =>
    rw [List.map_cons, List.nodup_cons] at nodup
    rw [List.forall_mem_cons] at entries
    obtain ⟨σ, hσ, rfl, met⟩ := ih entries.2 nodup.2
    refine ⟨e.2.fill (base e.1) σ.outer σ, Constraint.fill_admissible hσ,
      Constraint.fill_outer, ?_⟩
    rw [List.forall_mem_cons]
    constructor
    · exact ⟨Constraint.fill_meets hσ fun required => hv e.1 e.2 entries.1 required,
        Constraint.costs_fill⟩
    · intro e' he'
      have hne : e.1 ≠ e'.1 := fun heq => nodup.1 (heq ▸ List.mem_map_of_mem he')
      have apart := hn.apart e.1 e'.1 e.2 e'.2 entries.1 (entries.2 e' he') hne
      rw [meets_fill apart, costs_fill apart]
      exact met e' he'

/-- Values that satisfy the book extend to an admissible solution of all its equations, in which
errors pay for nothing but violations. -/
theorem extend_exact (hn : Numbered book base n) (hv : book.Satisfied v) :
    ∃ σ : Valuation, σ.Admissible ∧ σ.outer = v ∧
      (∀ id c, book.get? id = some c → c.Meets (base id) σ) ∧
      weigh σ (book.costs base) = book.penalty v := by
  obtain ⟨σ, hσ, outer, met⟩ := extend_entries hn hv book.entries
    (fun e he => (book.get?_eq_some_iff e.1 e.2).mpr he) book.nodup_keys
  have entry (id : ConstraintId) (c : Constraint ℚ) (hc : book.get? id = some c) :=
    met (id, c) ((book.get?_eq_some_iff id c).mp hc)
  exact ⟨σ, hσ, outer, fun id c hc => (entry id c hc).1,
    costs_eq_penalty fun id c hc => (entry id c hc).2⟩

theorem extend (hn : Numbered book base n) (hv : book.Satisfied v) :
    ∃ σ : Valuation, σ.Admissible ∧ σ.outer = v ∧
      ∀ id c, book.get? id = some c → c.Meets (base id) σ := by
  obtain ⟨σ, hσ, outer, meets, -⟩ := extend_exact hn hv
  exact ⟨σ, hσ, outer, meets⟩

theorem satisfied_insert {id : ConstraintId} {c : Constraint ℚ} (new : book.get? id = none) :
    Satisfied (book.insert id c) v ↔
      book.Satisfied v ∧ (c.isRequired = true → c.holds v 0 = true) := by
  constructor
  · intro hv
    refine ⟨fun x d hx => hv x d ?_, hv id c (by rw [Table.get?_insert, if_pos rfl])⟩
    have hne : id ≠ x := fun heq => by simp [← heq, new] at hx
    rw [Table.get?_insert, if_neg hne, hx]
  · rintro ⟨hv, hc⟩ x d hx
    rw [Table.get?_insert] at hx
    split at hx
    · exact Option.some.inj hx ▸ hc
    · exact hv x d hx

end Book

/-- With its parametric symbols at zero the tableau shows the current values. -/
theorem Solver.outer_point (s : Solver ℚ) : (s.tableau.point 0).outer = s.currentValue := by
  funext v
  unfold Valuation.outer Tableau.point currentValue Tableau.value
  cases s.tableau.rows.get? (.external v) with
  | none => rfl
  | some row => exact row.eval_zero

namespace Solver.Keeps

variable {s : Solver ℚ} {book : Book} {base : ConstraintId → ℕ}

theorem solutions (h : s.Keeps book base) (v : Variable → ℚ) :
    (∃ σ : Valuation, σ.Admissible ∧ σ.outer = v ∧ s.tableau.Solves σ) ↔ book.Satisfied v := by
  constructor
  · rintro ⟨σ, hσ, rfl, solved⟩ id c held required
    exact c.holds_of_meets (base id) required hσ ((h.describes.solves σ).mp solved id c held)
  · intro hv
    obtain ⟨σ, hσ, outer, meets⟩ := Book.extend h.numbered hv
    exact ⟨σ, hσ, outer, (h.describes.solves σ).mpr meets⟩

theorem shown (h : s.Keeps book base) : book.Satisfied s.currentValue :=
  (h.solutions _).mp ⟨s.tableau.point 0, h.describes.standard.admissible_point_zero,
    outer_point s, h.describes.standard.solves_point 0⟩

theorem feasible (h : s.Keeps book base) : s.tableau.isFeasible = true := by
  unfold Tableau.isFeasible
  rw [List.all_eq_true]
  intro e he
  have found := (s.tableau.rows.get?_eq_some_iff e.1 e.2).mpr he
  by_cases hx : e.1.isExternal = true
  · rw [hx, Bool.true_or]
  · have nonneg := (h.describes.standard.admits e.1 e.2 found).nonneg (by simpa using hx)
    simp [not_lt.mpr nonneg]

theorem update (h : s.Keeps book base) :
    ∃ s', s.updateVariables = (.ok (), s') ∧ s'.Keeps book base ∧ s'.value = s.currentValue := by
  refine ⟨{ s with values := s.values.mapValues fun v _ => s.currentValue v },
    by rw [updateVariables, if_pos h.feasible],
    ⟨h.records, h.issued, h.weights, h.numbered, h.describes⟩, ?_⟩
  funext v
  change ((s.values.mapValues fun v _ => s.currentValue v).get? v).getD (s.currentValue v) = _
  rw [Table.get?_mapValues]
  cases s.values.get? v <;> rfl

end Solver.Keeps

structure Session where
  solver : Solver ℚ
  held : Book

namespace Session

def start : Session := ⟨Solver.empty, Table.empty⟩

def newVariable (x : Session) : Session := ⟨x.solver.newVariable.2, x.held⟩

def add (x : Session) (c : Constraint ℚ) : Except SolverError ConstraintId × Session :=
  match x.solver.addConstraint c with
  | (.ok id, s) => (.ok id, ⟨s, x.held.insert id c⟩)
  | (.error e, s) => (.error e, ⟨s, x.held⟩)

def remove (x : Session) (id : ConstraintId) : Except SolverError Unit × Session :=
  match x.solver.removeConstraint id with
  | (.ok (), s) => (.ok (), ⟨s, x.held.eraseSwap id⟩)
  | (.error e, s) => (.error e, ⟨s, x.held⟩)

def update (x : Session) : Except SolverError Unit × Session :=
  (x.solver.updateVariables.1, ⟨x.solver.updateVariables.2, x.held⟩)

def ended {ε : Type} : Except SolverError ε → Bool
  | .error (.internal .stalled) => false
  | _ => true

inductive Reached : Session → Prop
  | start : Reached start
  | newVariable {x : Session} (h : Reached x) : Reached x.newVariable
  | add {x : Session} (h : Reached x) (c : Constraint ℚ) (weight : 0 ≤ c.strength.weight)
      (fin : ended (x.add c).1 = true) : Reached (x.add c).2
  | remove {x : Session} (h : Reached x) (id : ConstraintId) (fin : ended (x.remove id).1 = true) :
      Reached (x.remove id).2
  | update {x : Session} (h : Reached x) : Reached x.update.2

structure Faithful (x : Session) : Prop where
  add_outcome : ∀ c, 0 ≤ c.strength.weight → ended (x.add c).1 = true →
    (∃ id, x.held.get? id = none ∧ (x.add c).1 = .ok id) ∨ (x.add c).1 = .error .unsatisfiable
  add_required : ∀ c, 0 ≤ c.strength.weight → ended (x.add c).1 = true → c.isRequired = true →
    ((∃ id, (x.add c).1 = .ok id) ↔ ∃ v, x.held.Satisfied v ∧ c.holds v 0 = true)
  add_optional : ∀ c, 0 ≤ c.strength.weight → ended (x.add c).1 = true → c.isRequired = false →
    ∃ id, (x.add c).1 = .ok id
  remove_held : ∀ id, x.held.contains id = true → ended (x.remove id).1 = true →
    (x.remove id).1 = .ok ()
  solutions : ∀ v, (∃ σ : Valuation, σ.Admissible ∧ σ.outer = v ∧ x.solver.tableau.Solves σ) ↔
    x.held.Satisfied v
  update_satisfies : x.update.1 = .ok () ∧ x.held.Satisfied x.update.2.solver.value

variable {x : Session} {base : ConstraintId → ℕ}

theorem weight_of_required {c : Constraint ℚ} (required : c.isRequired = true) :
    0 ≤ c.strength.weight := by
  have least : (Strength.required : Strength ℚ).weight ≤ c.strength.weight :=
    of_decide_eq_true required
  exact le_trans (by decide +kernel) least

/-- Each outcome of an addition with the book that it leaves. -/
theorem add_cases (h : x.solver.Keeps x.held base) {c : Constraint ℚ}
    (weight : 0 ≤ c.strength.weight) (fin : ended (x.add c).1 = true) :
    (∃ id base', (x.add c).1 = .ok id ∧ x.held.get? id = none ∧
      (x.add c).2.held = x.held.insert id c ∧ (x.add c).2.solver.Keeps (x.held.insert id c) base') ∨
    ((x.add c).1 = .error .unsatisfiable ∧ (x.add c).2.held = x.held ∧
      (x.add c).2.solver.Keeps x.held base ∧ c.isRequired = true ∧
      ¬∃ v, x.held.Satisfied v ∧ c.holds v 0 = true) := by
  have added := Solver.added_insert h weight
  unfold add Solver.addConstraint at *
  generalize x.solver.insert c = answer at added fin ⊢
  cases added with
  | stalled s => exact nomatch fin
  | accepted tag s keeps => exact Or.inl ⟨_, _, rfl, h.new, rfl, keeps⟩
  | refused s keeps required never =>
    refine Or.inr ⟨rfl, rfl, keeps, required, ?_⟩
    rintro ⟨v, hv, hc⟩
    have together := (Book.satisfied_insert h.new).mpr ⟨hv, fun _ => hc⟩
    obtain ⟨σ, hσ, -, meets⟩ := Book.extend (h.numbered.insert c h.new) together
    have own := meets _ c (by rw [Table.get?_insert, if_pos rfl])
    rw [Function.update_self] at own
    refine never σ hσ ((h.describes.solves σ).mpr fun id d hd => ?_) own
    have hne : ⟨x.solver.nextConstraint⟩ ≠ id := by
      rintro rfl
      rw [h.new] at hd
      contradiction
    have other := meets id d (by rw [Table.get?_insert, if_neg hne, hd])
    rwa [Function.update_of_ne (Ne.symm hne)] at other

theorem remove_cases (h : x.solver.Keeps x.held base) (id : ConstraintId)
    (fin : ended (x.remove id).1 = true) :
    (x.held.contains id = true ∧ (x.remove id).1 = .ok () ∧
      (x.remove id).2.solver.Keeps (x.remove id).2.held base) ∨
    (x.held.contains id = false ∧ (x.remove id).2 = x) := by
  unfold remove at *
  cases held : x.held.get? id with
  | some c =>
    obtain ⟨outcome, s, run, keeps, result⟩ := Solver.removeConstraint_spec h held
    rw [run] at fin ⊢
    rcases result with rfl | rfl
    · exact Or.inl ⟨by simp [Table.contains, held], rfl, keeps⟩
    · cases fin
  | none =>
    have unknown : x.solver.removeConstraint id = (.error .unknownConstraint, x.solver) := by
      simp [Solver.removeConstraint, h.records, held]
    rw [unknown]
    exact Or.inr ⟨by simp [Table.contains, held], rfl⟩

theorem Reached.keeps (h : x.Reached) : ∃ base, x.solver.Keeps x.held base := by
  induction h with
  | start => exact ⟨_, Solver.keeps_empty fun _ => 0⟩
  | newVariable _ ih =>
    obtain ⟨base, keeps⟩ := ih
    exact ⟨base, keeps.records, keeps.issued, keeps.weights, keeps.numbered, keeps.describes⟩
  | add _ c weight fin ih =>
    obtain ⟨base, keeps⟩ := ih
    rcases add_cases keeps weight fin with ⟨id, base', -, -, held, keeps'⟩ | ⟨-, held, keeps', -⟩
    · exact ⟨base', held ▸ keeps'⟩
    · exact ⟨base, held ▸ keeps'⟩
  | remove _ id fin ih =>
    obtain ⟨base, keeps⟩ := ih
    rcases remove_cases keeps id fin with ⟨-, -, keeps'⟩ | ⟨-, same⟩
    · exact ⟨base, keeps'⟩
    · rw [same]
      exact ⟨base, keeps⟩
  | update _ ih =>
    obtain ⟨base, keeps⟩ := ih
    obtain ⟨s, run, keeps', -⟩ := keeps.update
    refine ⟨base, ?_⟩
    unfold Session.update
    rw [run]
    exact keeps'

theorem Reached.add_required (h : x.Reached) {c : Constraint ℚ} (weight : 0 ≤ c.strength.weight)
    (fin : ended (x.add c).1 = true) (required : c.isRequired = true) :
    (∃ id, (x.add c).1 = .ok id) ↔ ∃ v, x.held.Satisfied v ∧ c.holds v 0 = true := by
  obtain ⟨base, keeps⟩ := h.keeps
  rcases add_cases keeps weight fin with
    ⟨id, base', ok, new, -, keeps'⟩ | ⟨refused, -, -, -, never⟩
  · have shown := (Book.satisfied_insert new).mp keeps'.shown
    exact ⟨fun _ => ⟨_, shown.1, shown.2 required⟩, fun _ => ⟨id, ok⟩⟩
  · refine ⟨?_, fun satisfiable => absurd satisfiable never⟩
    rintro ⟨id, ok⟩
    rw [refused] at ok
    contradiction

theorem Reached.remove_held (h : x.Reached) {id : ConstraintId}
    (held : x.held.contains id = true) (fin : ended (x.remove id).1 = true) :
    (x.remove id).1 = .ok () := by
  obtain ⟨base, keeps⟩ := h.keeps
  rcases remove_cases keeps id fin with ⟨-, ok, -⟩ | ⟨missing, -⟩
  · exact ok
  · rw [missing] at held
    contradiction

theorem Reached.update_satisfies (h : x.Reached) :
    x.update.1 = .ok () ∧ x.held.Satisfied x.update.2.solver.value := by
  obtain ⟨base, keeps⟩ := h.keeps
  obtain ⟨s, run, -, value⟩ := keeps.update
  unfold Session.update
  rw [run]
  exact ⟨rfl, value ▸ keeps.shown⟩

theorem faithful_of_reached (h : x.Reached) : x.Faithful := by
  obtain ⟨base, keeps⟩ := h.keeps
  constructor
  · intro c weight fin
    rcases add_cases keeps weight fin with ⟨id, -, ok, new, -⟩ | ⟨refused, -⟩
    · exact Or.inl ⟨id, new, ok⟩
    · exact Or.inr refused
  · exact fun c weight fin required => h.add_required weight fin required
  · intro c weight fin optional
    rcases add_cases keeps weight fin with ⟨id, -, ok, -⟩ | ⟨-, -, -, required, -⟩
    · exact ⟨id, ok⟩
    · rw [optional] at required
      contradiction
  · exact fun id held fin => h.remove_held held fin
  · exact keeps.solutions
  · exact h.update_satisfies

def contradicted : Session :=
  ((start.newVariable.add (.relate (.ofVariable ⟨0⟩) .atLeast 1)).2.add
    (.relate (.ofVariable ⟨0⟩) .atMost 0)).2

theorem reached_contradicted : contradicted.Reached :=
  (Reached.start.newVariable.add _ (by decide +kernel) (by decide +kernel)).add _
    (by decide +kernel) (by decide +kernel)

theorem faithful_contradicted : contradicted.Reached ∧ contradicted.Faithful :=
  ⟨reached_contradicted, faithful_of_reached reached_contradicted⟩

end Session

end LinearChoice
