import LinearChoice.Proofs.Simplex.Renaming
import LinearChoice.Simplex.Edit

/-!
# Passes over a renamed tableau

Minimising a goal, introducing a row, withdrawing a marker and restoring
feasibility all break ties by the order of symbols alone. A renaming keeps that
order, so each of them goes along with it.
-/

set_option autoImplicit false

namespace LinearChoice

variable {α : Type} (ρ : Renaming)

def Candidate.rename (c : Candidate α) : Candidate α := ⟨c.ratio, ρ.map c.symbol, c.row.rename ρ⟩

def Exits.rename (exits : Exits α) : Exits α :=
  ⟨exits.falling.map (Candidate.rename ρ), exits.rising.map (Candidate.rename ρ),
    exits.external.map (Candidate.rename ρ)⟩

namespace Tableau

variable [Scalar α] (t : Tableau α) (goal row : Row α) (s : Symbol)

theorem entering?_rename : entering? (goal.rename ρ) = (entering? goal).map ρ.map := by
  have offered :
      ((goal.rename ρ).cells.entries.filter fun e => !e.1.isDummy && decide (e.2 < 0)).map
        Prod.fst =
      ((goal.cells.entries.filter fun e => !e.1.isDummy && decide (e.2 < 0)).map
        Prod.fst).map ρ.map := by
    simp [Row.rename, Table.rename, List.filter_map, Function.comp_def]
  rw [entering?, offered, ρ.least, entering?]

theorem tighten_rename (best : Option (Candidate α)) (e : Symbol × Row α) :
    tighten (ρ.map s) (best.map (Candidate.rename ρ)) (Prod.map ρ.map (Row.rename ρ) e) =
      (tighten s best e).map (Candidate.rename ρ) := by
  unfold tighten
  simp only [Prod.map_fst, Prod.map_snd, Row.coefficient_rename, ρ.isExternal,
    Row.constant_rename]
  cases best with
  | none => split <;> [rfl; (split <;> rfl)]
  | some b =>
    have same (c : Candidate α) : better (c.rename ρ) (b.rename ρ) = better c b := by
      unfold better
      congr 2
      exact decide_eq_decide.mpr (ρ.lt_iff c.symbol b.symbol)
    have here := same ⟨-e.2.constant / e.2.coefficient s, e.1, e.2⟩
    unfold Candidate.rename at here
    simp only [Option.map_some, Candidate.rename, here]
    split <;> [rfl; (split <;> [(split <;> rfl); rfl])]

theorem leaving?_rename :
    (t.rename ρ).leaving? (ρ.map s) = (t.leaving? s).map (Candidate.rename ρ) :=
  foldl_along (f := Option.map (Candidate.rename ρ)) (tighten_rename ρ s) t.rows.entries none

theorem minimise_rename (n : Nat) :
    minimise n (t.rename ρ) (goal.rename ρ) =
      ((minimise n t goal).1, (minimise n t goal).2.1.rename ρ,
        (minimise n t goal).2.2.rename ρ) := by
  induction n generalizing t goal with
  | zero => rfl
  | succ n ih =>
    unfold minimise advance
    rw [entering?_rename]
    cases entering? goal with
    | none => rfl
    | some entering =>
      simp only [Option.map_some, leaving?_rename]
      cases t.leaving? entering with
      | none => rfl
      | some c =>
        simp only [Option.map_some, Candidate.rename, pivot_rename, Row.exchange_rename,
          Row.substitute_rename]
        exact ih _ _

theorem optimise_rename : (t.rename ρ).optimise = (t.optimise.1, t.optimise.2.rename ρ) := by
  simp only [optimise, budget_rename]
  change ((minimise t.budget (t.rename ρ) (t.objective.rename ρ)).1,
    (minimise t.budget (t.rename ρ) (t.objective.rename ρ)).2.1) = _
  rw [minimise_rename]

theorem introduce_rename : (t.rename ρ).introduce (ρ.map s) (row.rename ρ) =
    ((t.introduce s row).1, (t.introduce s row).2.rename ρ) := by
  unfold introduce
  simp only [attach_rename, budget_rename, minimise_rename, get?_rename, Row.constant_rename]
  generalize minimise (t.attach s row).budget (t.attach s row) row = answer
  obtain ⟨outcome, t', goal⟩ := answer
  cases outcome with
  | error e => simp only [detach_rename]
  | ok _ =>
    cases t'.rows.get? s with
    | none => simp only [Option.map_none, drop_rename]
    | some last =>
      have empty : (last.rename ρ).cells.isEmpty = last.cells.isEmpty := by
        simp [Row.rename, Table.rename, Table.isEmpty]
      simp only [Option.map_some, Row.keys_rename, empty, detach_rename, List.find?_map, Function.comp_def,
        ρ.isPivotable]
      split
      · rfl
      · cases last.cells.keys.find? fun x => x.isPivotable with
        | none => rfl
        | some entering =>
          simp only [Option.map_some, Row.exchange_rename, enter_rename, drop_rename]

theorem removeCosts_rename (tag : Tag) (price : α) :
    (t.rename ρ).removeCosts (tag.rename ρ) price = (t.removeCosts tag price).rename ρ := by
  have errors : (tag.rename ρ).symbols.filter Symbol.isError =
      (tag.symbols.filter Symbol.isError).map ρ.map := by
    rw [Tag.symbols_rename, List.filter_map]
    simp [Function.comp_def]
  unfold removeCosts
  rw [errors]
  refine foldl_along (f := rename ρ) (fun t s => ?_) (tag.symbols.filter Symbol.isError) t
  rw [get?_rename]
  cases t.rows.get? s with
  | none => simp only [Option.map_none, rename, Row.addCell_rename]
  | some row => simp only [Option.map_some, rename, Row.addScaled_rename]

theorem considerExit_rename (exits : Exits α) (e : Symbol × Row α) :
    considerExit (ρ.map s) (exits.rename ρ) (Prod.map ρ.map (Row.rename ρ) e) =
      (considerExit s exits e).rename ρ := by
  have sooner_rename (ratio : α) (best : Option (Candidate α)) :
      sooner ratio (best.map (Candidate.rename ρ)) = sooner ratio best := by
    cases best <;> rfl
  unfold considerExit
  simp only [Prod.map_fst, Prod.map_snd, Row.coefficient_rename, ρ.isExternal,
    Row.constant_rename, Exits.rename, sooner_rename]
  repeat' split
  all_goals rfl

theorem exit?_rename :
    (t.rename ρ).exit? (ρ.map s) = (t.exit? s).map (Candidate.rename ρ) := by
  have dummies : ((t.rename ρ).rows.entries.find? fun e =>
        e.1.isDummy && !(e.2.coefficient (ρ.map s) == 0)) =
      (t.rows.entries.find? fun e => e.1.isDummy && !(e.2.coefficient s == 0)).map
        (Prod.map ρ.map (Row.rename ρ)) := by
    rw [entries_rename, List.find?_map]
    simp only [Function.comp_def, Prod.map_fst, Prod.map_snd, ρ.isDummy, Row.coefficient_rename]
  have exits : (t.rename ρ).rows.entries.foldl (considerExit (ρ.map s)) ⟨none, none, none⟩ =
      (t.rows.entries.foldl (considerExit s) ⟨none, none, none⟩).rename ρ :=
    foldl_along (f := Exits.rename ρ) (considerExit_rename ρ s) t.rows.entries ⟨none, none, none⟩
  unfold exit?
  rw [dummies, exits]
  cases t.rows.entries.find? fun e => e.1.isDummy && !(e.2.coefficient s == 0) with
  | some e => rfl
  | none => simp only [Option.map_none, Exits.rename, Option.map_or]

theorem withdraw_rename : (t.rename ρ).withdraw (ρ.map s) =
    ((t.withdraw s).1, (t.withdraw s).2.rename ρ) := by
  have basic : (t.rename ρ).rows.contains (ρ.map s) = t.rows.contains s := by
    simp [Table.contains]
  unfold withdraw
  rw [basic, exit?_rename]
  split
  · rw [detach_rename]
  · cases t.exit? s with
    | none => rfl
    | some c =>
      simp only [Option.map_some, Candidate.rename, detach_rename, Row.exchange_rename,
        substitute_rename]

theorem negatives_rename : (t.rename ρ).negatives = t.negatives.map ρ.map := by
  simp only [negatives, entries_rename, List.filter_map, List.map_map, Function.comp_def,
    Prod.map_fst, ρ.isExternal]
  rfl

theorem dualEntering?_rename :
    dualEntering? (goal.rename ρ) (row.rename ρ) = (dualEntering? goal row).map ρ.map := by
  have step (best : Option (α × Symbol)) (e : Symbol × α) :
      cheaper (goal.rename ρ) (best.map (Prod.map id ρ.map)) (Prod.map ρ.map id e) =
        (cheaper goal best e).map (Prod.map id ρ.map) := by
    unfold cheaper
    simp only [Prod.map_fst, Prod.map_snd, id_eq, Row.coefficient_rename, ρ.isDummy]
    by_cases eligible : (decide (0 < e.2) && !e.1.isDummy) = true
    · simp only [eligible, if_true]
      cases best <;> dsimp only [Option.map_none, Option.map_some, Prod.map_fst, id_eq] <;>
        split <;> rfl
    · simp only [eligible, Bool.false_eq_true, if_false]
  have run := foldl_along (f := Option.map (Prod.map id ρ.map)) step row.cells.entries none
  unfold dualEntering?
  change ((row.cells.entries.map (Prod.map ρ.map id)).foldl (cheaper (goal.rename ρ)) none).map
    Prod.snd = _
  rw [Option.map_none] at run
  rw [run, Option.map_map, Option.map_map]
  rfl

theorem restore_rename (n : Nat) (stack : List Symbol) :
    restore n (stack.map ρ.map) (t.rename ρ) =
      ((restore n stack t).1, (restore n stack t).2.rename ρ) := by
  induction n generalizing stack t with
  | zero => cases stack <;> rfl
  | succ n ih =>
    cases stack with
    | nil => rfl
    | cons s stack =>
      rw [List.map_cons]
      unfold restore
      rw [get?_rename]
      cases t.rows.get? s with
      | none => exact ih t stack
      | some row =>
        have entering : dualEntering? (t.rename ρ).objective (row.rename ρ) =
            (dualEntering? t.objective row).map ρ.map :=
          dualEntering?_rename ρ t.objective row
        simp only [Option.map_some, Row.constant_rename, entering]
        split
        · cases dualEntering? t.objective row with
          | none => simp only [Option.map_none, detach_rename]
          | some entering =>
            simp only [Option.map_some, detach_rename, Row.exchange_rename, substitute_rename,
              attach_rename, negatives_rename, ← List.map_reverse, ← List.map_append]
            exact ih _ _
        · exact ih t stack

theorem shiftRow_rename (s : Symbol) (row : Row α) (x : α) :
    (t.rename ρ).shiftRow (ρ.map s) (row.rename ρ) x =
      ((t.shiftRow s row x).1.map ρ.map, (t.shiftRow s row x).2.rename ρ) := by
  have shifted : (row.rename ρ).shift x = (row.shift x).rename ρ := rfl
  unfold shiftRow
  simp only [shifted, attach_rename, Row.constant_rename]
  split <;> rfl

theorem shiftRows_rename (marker : Symbol) (x : α) :
    (t.rename ρ).shiftRows (ρ.map marker) x =
      ((t.shiftRows marker x).1.map ρ.map, (t.shiftRows marker x).2.rename ρ) := by
  have along (row : Row α) :
      (if !((row.rename ρ).coefficient (ρ.map marker) == 0) then
          (row.rename ρ).shift (x * (row.rename ρ).coefficient (ρ.map marker))
        else row.rename ρ) =
      (if !(row.coefficient marker == 0) then row.shift (x * row.coefficient marker)
        else row).rename ρ := by
    rw [Row.coefficient_rename]
    split <;> rfl
  unfold shiftRows
  dsimp only
  refine Prod.ext ?_ ?_
  · simp only [entries_rename, List.filter_map, List.map_map, Function.comp_def, Prod.map_fst,
      Prod.map_snd, ρ.isExternal, along, List.map_reverse]
    simp only [Row.coefficient_rename]
    rfl
  · simp only [rename, mk.injEq, and_true]
    exact mapValues_rename ρ along t.rows

theorem shiftTarget_rename (tag : Tag) (x : α) :
    (t.rename ρ).shiftTarget (tag.rename ρ) x =
      ((t.shiftTarget tag x).1.map ρ.map, (t.shiftTarget tag x).2.rename ρ) := by
  have other : ((tag.rename ρ).other.bind fun other =>
        ((t.rename ρ).rows.get? other).map fun row => (other, row)) =
      (tag.other.bind fun other => (t.rows.get? other).map fun row => (other, row)).map
        (Prod.map ρ.map (Row.rename ρ)) := by
    cases h : tag.other with
    | none => simp [Tag.rename, h]
    | some other => simp [Tag.rename, h, Function.comp_def]
  have marker : (tag.rename ρ).marker = ρ.map tag.marker := rfl
  unfold shiftTarget
  rw [marker, get?_rename, other]
  cases t.rows.get? tag.marker with
  | some row => exact shiftRow_rename ρ t _ row _
  | none =>
    cases tag.other.bind fun other => (t.rows.get? other).map fun row => (other, row) with
    | some found => exact shiftRow_rename ρ t _ found.2 _
    | none => exact shiftRows_rename ρ t _ _

end Tableau

end LinearChoice
