import LinearChoice.Proofs.Simplex.Runs
import LinearChoice.Proofs.Simplex.Selection

/-!
# The symbols that occur

No operation on rows or tableaux writes a symbol that was not there. So after
any calls the symbols that occur are numbered below the next one to be given
out, whatever the arithmetic.
-/

set_option autoImplicit false

namespace LinearChoice

variable {α : Type} {P Q : Symbol → Prop}

namespace Row

variable {r other : Row α} {s : Symbol}

def Over (P : Symbol → Prop) (r : Row α) : Prop := ∀ s ∈ r.cells.keys, P s

theorem Over.imp (h : r.Over P) (imp : ∀ s, P s → Q s) : r.Over Q := fun s hs => imp s (h s hs)

theorem Over.erase (h : r.Over P) (s : Symbol) : (r.erase s).Over P :=
  fun x hx => h x (Table.mem_keys_eraseSwap hx)

theorem over_ofConstant (x : α) : (ofConstant x).Over P := nofun

variable [Scalar α]

theorem Over.addCell (h : r.Over P) (hs : P s) (c : α) : (r.addCell s c).Over P := by
  intro x hx
  unfold Row.addCell at hx
  dsimp only at hx
  split at hx
  · exact h x (Table.mem_keys_eraseSwap hx)
  · rcases Table.mem_keys_insert hx with rfl | hx
    · exact hs
    · exact h x hx

theorem Over.addCells (h : r.Over P) {cells : List (Symbol × α)} (hc : ∀ e ∈ cells, P e.1) :
    (r.addCells cells).Over P := by
  induction cells generalizing r with
  | nil => exact h
  | cons e cells ih =>
    obtain ⟨own, others⟩ := List.forall_mem_cons.mp hc
    exact ih (h.addCell own e.2) others

theorem Over.addScaled (h : r.Over P) (ho : other.Over P) (k : α) : (r.addScaled other k).Over P := by
  apply Over.addCells (r := r.shift _) h
  intro e he
  obtain ⟨e', he', rfl⟩ := List.mem_map.mp he
  exact ho e'.1 (List.mem_map_of_mem he')

theorem Over.oriented (h : r.Over P) : r.oriented.Over P := by
  unfold Row.oriented
  split
  · intro x hx
    rw [Row.negate, Table.keys_mapValues] at hx
    exact h x hx
  · exact h

theorem Over.substitute (h : r.Over P) (ho : other.Over P) (s : Symbol) :
    (r.substitute s other).Over P := by
  unfold Row.substitute
  split
  · exact h
  · exact (h.erase s).addScaled ho _

theorem Over.solveFor (h : r.Over P) (s : Symbol) : (r.solveFor s).Over P := by
  intro x hx
  rw [Row.solveFor, Table.keys_mapValues] at hx
  exact h x (Table.mem_keys_eraseSwap hx)

theorem Over.exchange (h : r.Over P) (hs : P s) (entering : Symbol) :
    (r.exchange s entering).Over P :=
  (h.addCell hs (-1)).solveFor entering

end Row

namespace Tableau

variable {t : Tableau α} {row goal : Row α} {s : Symbol}

structure Over (P : Symbol → Prop) (t : Tableau α) : Prop where
  basic : ∀ s row, t.rows.get? s = some row → P s
  rows : ∀ s row, t.rows.get? s = some row → row.Over P
  objective : t.objective.Over P

theorem Over.imp (h : t.Over P) (imp : ∀ s, P s → Q s) : t.Over Q :=
  ⟨fun s row hs => imp s (h.basic s row hs), fun s row hs => (h.rows s row hs).imp imp,
    h.objective.imp imp⟩

theorem Over.attach (h : t.Over P) (hs : P s) (hr : row.Over P) : (t.attach s row).Over P := by
  refine ⟨fun x r hx => ?_, fun x r hx => ?_, h.objective⟩
  all_goals
    rw [get?_attach] at hx
    split at hx
  · next heq => exact heq ▸ hs
  · exact h.basic x r hx
  · exact Option.some.inj hx ▸ hr
  · exact h.rows x r hx

theorem Over.detach (h : t.Over P) (s : Symbol) : (t.detach s).Over P := by
  refine ⟨fun x r hx => ?_, fun x r hx => ?_, h.objective⟩
  all_goals
    rw [get?_detach] at hx
    split at hx
    · contradiction
  · exact h.basic x r hx
  · exact h.rows x r hx

theorem Over.drop (h : t.Over P) (s : Symbol) : (t.drop s).Over P := by
  refine ⟨fun x r hx => ?_, fun x r hx => ?_, h.objective.erase s⟩
  all_goals
    rw [get?_drop] at hx
    obtain ⟨r', hr', rfl⟩ := Option.map_eq_some_iff.mp hx
  · exact h.basic x r' hr'
  · exact (h.rows x r' hr').erase s

variable [Scalar α]

theorem over_empty : (empty : Tableau α).Over P := ⟨nofun, nofun, Row.over_ofConstant 0⟩

theorem Over.substitute (h : t.Over P) (hr : row.Over P) (s : Symbol) :
    (t.substitute s row).Over P := by
  refine ⟨fun x r hx => ?_, fun x r hx => ?_, h.objective.substitute hr s⟩
  all_goals
    rw [get?_substitute] at hx
    obtain ⟨r', hr', rfl⟩ := Option.map_eq_some_iff.mp hx
  · exact h.basic x r' hr'
  · exact (h.rows x r' hr').substitute hr s

theorem Over.enter (h : t.Over P) (hs : P s) (hr : row.Over P) : (t.enter s row).Over P :=
  (h.substitute hr s).attach hs hr

theorem Over.pivot (h : t.Over P) {leaving : Symbol} (hl : t.rows.get? leaving = some row)
    (hs : P s) : (t.pivot leaving row s).Over P :=
  (h.detach leaving).enter hs ((h.rows leaving row hl).exchange (h.basic leaving row hl) s)

theorem Over.addCosts (h : t.Over P) {costs : List (Symbol × α)} (hc : ∀ e ∈ costs, P e.1) :
    (t.addCosts costs).Over P := ⟨h.basic, h.rows, h.objective.addCells hc⟩

theorem Over.minimise (h : t.Over P) (hg : goal.Over P) (n : Nat) :
    (minimise n t goal).2.1.Over P ∧ (minimise n t goal).2.2.Over P := by
  induction n generalizing t goal with
  | zero => exact ⟨h, hg⟩
  | succ n ih =>
    unfold Tableau.minimise advance
    split
    · exact ⟨h, hg⟩
    · exact ⟨h, hg⟩
    · next t' goal' step =>
      -- One pivot, on a row and a symbol that are both there.
      split at step
      · contradiction
      · next entering found =>
        split at step
        · contradiction
        · next c leaves =>
          cases step
          have basic := row_of_leaving leaves
          have enters := hg entering (mem_of_entering found)
          have solved := (h.rows _ _ basic).exchange (h.basic _ _ basic) entering
          exact ih (h.pivot basic enters) (hg.substitute solved entering)

theorem Over.optimise (h : t.Over P) : t.optimise.2.Over P :=
  (h.minimise h.objective t.budget).1

theorem Over.introduce (h : t.Over P) (hs : P s) (hr : row.Over P) :
    (t.introduce s row).2.Over P := by
  have start := h.attach hs hr
  have run := start.minimise hr (t.attach s row).budget
  unfold Tableau.introduce
  dsimp only
  generalize Tableau.minimise (t.attach s row).budget (t.attach s row) row = answer at run ⊢
  obtain ⟨outcome, t', goal⟩ := answer
  have moved : t'.Over P := run.1
  cases outcome with
  | error e => exact moved.detach s
  | ok _ =>
    cases basic : t'.rows.get? s with
    | none => exact moved.drop s
    | some last =>
      dsimp only
      split
      · exact moved.detach s
      · split
        · exact moved.detach s
        · next entering found =>
          have enters := moved.rows s last basic entering (List.mem_of_find?_eq_some found)
          exact ((moved.detach s).enter enters
            ((moved.rows s last basic).exchange hs entering)).drop s

theorem Over.express (h : t.Over P) (external : ∀ v, P (.external v)) (e : Expression α) :
    (t.express e).Over P := by
  unfold Tableau.express
  refine List.foldlRecOn (motive := Row.Over P) e.terms.entries _
    (Row.over_ofConstant e.constant) ?_
  intro row hr term _
  split
  · next basic found => exact hr.addScaled (h.rows _ basic found) _
  · exact hr.addCell (external _) _

theorem Over.removeCosts (h : t.Over P) {tag : Tag} (tagged : ∀ s ∈ tag.symbols, P s) (price : α) :
    (t.removeCosts tag price).Over P := by
  unfold Tableau.removeCosts
  refine List.foldlRecOn (motive := Tableau.Over P) (tag.symbols.filter Symbol.isError) _ h ?_
  intro t ht s hs
  refine ⟨ht.basic, ht.rows, ?_⟩
  dsimp only
  split
  · next row found => exact ht.objective.addScaled (ht.rows s row found) _
  · exact ht.objective.addCell (tagged s (List.mem_filter.mp hs).1) _

theorem Over.withdraw (h : t.Over P) (s : Symbol) : (t.withdraw s).2.Over P := by
  unfold Tableau.withdraw
  split
  · exact h.detach s
  · split
    · exact h
    · next c leaves =>
      have basic := row_of_exit leaves
      exact (h.detach c.symbol).substitute
        ((h.rows _ _ basic).exchange (h.basic _ _ basic) s) s

theorem Over.restore (h : t.Over P) (n : Nat) (stack : List Symbol) :
    (restore n stack t).2.Over P := by
  induction n generalizing stack t with
  | zero => cases stack <;> exact h
  | succ n ih =>
    cases stack with
    | nil => exact h
    | cons s stack =>
      unfold Tableau.restore
      split
      · exact ih h stack
      · next row basic =>
        split
        · split
          · exact h.detach s
          · next entering found =>
            have solved := (h.rows s row basic).exchange (h.basic s row basic) entering
            have enters := h.rows s row basic entering (mem_of_dualEntering found)
            exact ih (((h.detach s).substitute solved entering).attach enters solved) _
        · exact ih h stack

theorem Over.shiftTarget (h : t.Over P) (tag : Tag) (x : α) : (t.shiftTarget tag x).2.Over P := by
  have shifted (s : Symbol) (row : Row α) (basic : t.rows.get? s = some row) (x : α) :
      (t.shiftRow s row x).2.Over P :=
    h.attach (h.basic s row basic) (h.rows s row basic)
  unfold Tableau.shiftTarget
  split
  · next row basic => exact shifted _ row basic _
  · split
    · next other row found =>
      obtain ⟨other', -, found⟩ := Option.bind_eq_some_iff.mp found
      obtain ⟨row', basic, same⟩ := Option.map_eq_some_iff.mp found
      cases same
      exact shifted _ row basic _
    · refine ⟨fun s row hs => ?_, fun s row hs => ?_, h.objective⟩
      all_goals
        rw [shiftRows, Table.get?_mapValues] at hs
        obtain ⟨row', basic, rfl⟩ := Option.map_eq_some_iff.mp hs
      · exact h.basic s row' basic
      · dsimp only
        split <;> exact h.rows s row' basic

end Tableau

def Symbol.Below (n : Nat) (s : Symbol) : Prop := s.isExternal = true ∨ s.id < n

theorem Symbol.Below.mono {m n : Nat} (h : m ≤ n) (s : Symbol) (below : s.Below m) : s.Below n :=
  below.imp_right fun lt => Nat.lt_of_lt_of_le lt h

end LinearChoice
