import LinearChoice.Proofs.Simplex.Accounts
import LinearChoice.Proofs.Simplex.DualRatio
import LinearChoice.Proofs.Simplex.Optimum

/-!
# A suggestion is as good as solving anew

A session with edit variables is a solver in use together with the client's own
account. The calls of the client keep the two in agreement and the objective at
an optimum, suggestions included, although these pivot by the dual method. So
the values after a suggestion are the best there are for what the client holds
and suggested last.
-/

set_option autoImplicit false

namespace LinearChoice
open scoped Exact

namespace Solver

def owns (s : Solver ℚ) (id : ConstraintId) : Bool :=
  s.edits.entries.any fun e => decide (e.2.constraint = id)

def spares (s : Solver ℚ) : Call ℚ → Bool
  | .remove id => !s.owns id
  | _ => true

def sparesAll : Solver ℚ → List (Call ℚ) → Bool
  | _, [] => true
  | s, call :: calls => s.spares call && (s.after call).sparesAll calls

variable {s : Solver ℚ} {book : Book} {base : ConstraintId → ℕ} {id : ConstraintId}
  {c : Constraint ℚ}

theorem unowned_of_spares (h : s.spares (.remove id) = true) :
    ∀ v edit, s.edits.get? v = some edit → edit.constraint ≠ id := by
  rintro v edit found rfl
  have owned : s.owns edit.constraint = true :=
    List.any_eq_true.mpr ⟨(v, edit), (s.edits.get?_eq_some_iff v edit).mp found, by simp⟩
  simp [spares, owned] at h

/-- A constraint that is held goes without a trace. -/
theorem Keeps.strike (h : s.Keeps book base) (held : book.get? id = some c) :
    ∃ s', s.removeConstraint id = (.ok (), s') ∧ s'.Keeps (book.eraseSwap id) base ∧
      Tableau.Optimal s'.tableau.objective ∧ s'.edits = s.edits := by
  obtain ⟨outcome, s', run, keeps, result⟩ := removeConstraint_spec h held
  obtain ⟨constraints, t, frame⟩ := s.frame_removeConstraint id
  have edits : (s.removeConstraint id).2.edits = s.edits := by rw [frame]
  have tidy := s.tidy_removeConstraint id
  have fin := h.ended_remove id
  rw [run] at fin edits tidy
  rcases result with rfl | rfl
  · exact ⟨s', run, keeps, tidy, edits⟩
  · cases fin

end Solver

structure EditSession where
  solver : Solver ℚ
  held : Book
  pulls : Table Variable Pull

namespace EditSession

def start : EditSession := ⟨Solver.empty, Table.empty, Table.empty⟩

variable (x : EditSession)

def heldAfter : Solver.Call ℚ → Book
  | .add c =>
    match (x.solver.addConstraint c).1 with
    | .ok id => x.held.insert id c
    | .error _ => x.held
  | .remove id =>
    match (x.solver.removeConstraint id).1 with
    | .ok () => x.held.eraseSwap id
    | .error _ => x.held
  | .newVariable | .update | .addEdit _ _ | .removeEdit _ | .suggest _ _ => x.held

def pullsAfter : Solver.Call ℚ → Table Variable Pull
  | .addEdit v strength =>
    match (x.solver.addEdit v strength).1 with
    | .ok () => x.pulls.insert v ⟨.clipped strength.weight, 0⟩
    | .error _ => x.pulls
  | .removeEdit v =>
    match (x.solver.removeEdit v).1 with
    | .ok () => x.pulls.eraseSwap v
    | .error _ => x.pulls
  | .suggest v a =>
    match x.pulls.get? v with
    | some p => x.pulls.insert v { p with target := a }
    | none => x.pulls
  | .newVariable | .add _ | .remove _ | .update => x.pulls

def after (call : Solver.Call ℚ) : EditSession :=
  ⟨x.solver.after call, x.heldAfter call, x.pullsAfter call⟩

def afterAll (calls : List (Solver.Call ℚ)) : EditSession := calls.foldl after x

def penalty (w : Variable → ℚ) : ℚ := x.held.penalty w + x.pulls.total (Pull.penalty w)

def surcharge (k : ℚ) : EditSession := { x with solver := x.solver.surcharge k }

theorem after_surcharge (k : ℚ) (call : Solver.Call ℚ) :
    (x.surcharge k).after call = (x.after call).surcharge k := by
  have solver := Solver.after_surcharge k x.solver call
  have held : (x.surcharge k).heldAfter call = x.heldAfter call := by
    cases call with
    | add c => simp only [heldAfter, surcharge, Solver.addConstraint_surcharge]
    | remove id => simp only [heldAfter, surcharge, Solver.removeConstraint_surcharge]
    | newVariable | update | addEdit _ _ | removeEdit _ | suggest _ _ => rfl
  have pulls : (x.surcharge k).pullsAfter call = x.pullsAfter call := by
    cases call with
    | addEdit v strength => simp only [pullsAfter, surcharge, Solver.addEdit_surcharge]
    | removeEdit v => simp only [pullsAfter, surcharge, Solver.removeEdit_surcharge]
    | newVariable | add _ | remove _ | update | suggest _ _ => rfl
  rw [after, held, pulls]
  exact congrArg (EditSession.mk · _ _) solver

variable {x}

structure Tracks (x : EditSession) (book : Book) (base : ConstraintId → ℕ) : Prop
    extends x.solver.Keeps book base where
  optimal : Tableau.Optimal x.solver.tableau.objective
  accounts : Accounts x.solver.edits x.held x.pulls book base

def Settled (x : EditSession) : Prop := ∃ k book base, (x.surcharge k).Tracks book base

variable {book : Book} {base : ConstraintId → ℕ}

theorem Tracks.settled (h : x.Tracks book base) : x.Settled :=
  ⟨0, book, base, by rwa [surcharge, Solver.surcharge_zero]⟩

theorem Tracks.keepsEdits (h : x.Tracks book base) : x.solver.KeepsEdits book base := by
  refine ⟨h.toKeeps, fun v edit found => ?_⟩
  obtain ⟨p, -, serves⟩ := h.accounts.pulled v edit found
  exact Or.inl serves.stands

theorem Tracks.add (h : x.Tracks book base) {c : Constraint ℚ}
    (weight : 0 ≤ c.strength.weight) : (x.after (.add c)).Settled := by
  have tidy := Solver.tidy_insert h.optimal weight
  rcases h.keepsEdits.insert_cases weight with ⟨t, n, run, keeps⟩ | ⟨t, n, run, keeps⟩
  · rw [run] at tidy
    have entered : x.after (.add c) = ⟨x.solver.record c t n,
        x.held.insert ⟨x.solver.nextConstraint⟩ c, x.pulls⟩ := by
      simp only [after, heldAfter, pullsAfter, Solver.after, Solver.addConstraint, run]
      rfl
    rw [entered]
    exact Tracks.settled ⟨keeps.toKeeps, tidy,
      h.accounts.insert h.new fun _ hne => Function.update_of_ne hne _ _⟩
  · rw [run] at tidy
    have refused : x.after (.add c) =
        ⟨{ x.solver with tableau := t, nextSymbol := n }, x.held, x.pulls⟩ := by
      simp only [after, heldAfter, pullsAfter, Solver.after, Solver.addConstraint, run]
      rfl
    rw [refused]
    exact Tracks.settled ⟨keeps.toKeeps, tidy, h.accounts⟩

theorem Tracks.remove (h : x.Tracks book base) {id : ConstraintId}
    (spares : x.solver.spares (.remove id) = true) : (x.after (.remove id)).Settled := by
  cases held : book.get? id with
  | none =>
    have unknown : x.solver.removeConstraint id = (.error .unknownConstraint, x.solver) := by
      simp [Solver.removeConstraint, h.records, held]
    have same : x.after (.remove id) = x := by
      simp only [after, heldAfter, pullsAfter, Solver.after, unknown]
    rw [same]
    exact h.settled
  | some c =>
    obtain ⟨s, run, keeps, optimal, edits⟩ := h.strike held
    have struck : x.after (.remove id) = ⟨s, x.held.eraseSwap id, x.pulls⟩ := by
      simp only [after, heldAfter, pullsAfter, Solver.after, run]
    have accounts := h.accounts.erase (Solver.unowned_of_spares spares) held
    rw [struck]
    exact Tracks.settled ⟨keeps, optimal, edits ▸ accounts⟩

theorem Tracks.addEdit (h : x.Tracks book base) (v : Variable) (strength : Strength ℚ) :
    (x.after (.addEdit v strength)).Settled := by
  rcases x.solver.addEdit_cases v strength with ⟨e, unchanged⟩ | posed
  · have same : x.after (.addEdit v strength) = x := by
      simp only [after, heldAfter, pullsAfter, Solver.after, unchanged]
    rw [same]
    exact h.settled
  · have tidy := Solver.tidy_insert h.optimal posed.weight
    rcases h.keepsEdits.insert_cases posed.weight with
      ⟨t, n, run, keeps⟩ | ⟨t, n, run, keeps⟩
    · have accepted := posed.accepted _ _ _ run
      rw [run] at tidy
      have entered : x.after (.addEdit v strength) = ⟨(x.solver.addEdit v strength).2, x.held,
          x.pulls.insert v ⟨.clipped strength.weight, 0⟩⟩ := by
        simp only [after, heldAfter, pullsAfter, Solver.after, accepted]
      rw [entered, accepted]
      refine Tracks.settled ⟨⟨keeps.records, keeps.issued, keeps.weights, keeps.numbered,
        keeps.describes⟩, tidy, h.accounts.enter posed.fresh h.new ⟨?_, rfl, posed.optional, ?_⟩
        fun _ hne => Function.update_of_ne hne _ _⟩
      · rw [Table.get?_insert, if_pos rfl]
      · rw [Function.update_self]
        rfl
    · have refused := posed.refused _ _ run
      rw [run] at tidy
      have same : x.after (.addEdit v strength) =
          ⟨(x.solver.addEdit v strength).2, x.held, x.pulls⟩ := by
        simp only [after, heldAfter, pullsAfter, Solver.after, refused]
      rw [same, refused]
      exact Tracks.settled ⟨keeps.toKeeps, tidy, h.accounts⟩

theorem Tracks.removeEdit (h : x.Tracks book base) (v : Variable) :
    (x.after (.removeEdit v)).Settled := by
  cases found : x.solver.edits.get? v with
  | none =>
    have unknown : x.solver.removeEdit v = (.error (.unknownEdit v), x.solver) := by
      rw [Solver.removeEdit, found]
    have same : x.after (.removeEdit v) = x := by
      simp only [after, heldAfter, pullsAfter, Solver.after, unknown]
    rw [same]
    exact h.settled
  | some edit =>
    let dropped : Solver ℚ := { x.solver with edits := x.solver.edits.eraseSwap v }
    have down : x.solver.removeEdit v = dropped.removeConstraint edit.constraint := by
      rw [Solver.removeEdit, found]
    have keeps : dropped.Keeps book base :=
      ⟨h.records, h.issued, h.weights, h.numbered, h.describes⟩
    obtain ⟨p, -, serves⟩ := h.accounts.pulled v edit found
    obtain ⟨s, run, keeps, optimal, edits⟩ := keeps.strike serves.held
    have left : x.after (.removeEdit v) = ⟨s, x.held, x.pulls.eraseSwap v⟩ := by
      simp only [after, heldAfter, pullsAfter, Solver.after, down, run]
    have accounts := h.accounts.leave found
    rw [left]
    exact Tracks.settled ⟨keeps, optimal, edits ▸ accounts⟩

/-- A suggestion that ends is answered without an error. -/
theorem Tracks.suggest (h : x.Tracks book base) {v : Variable} {edit : Edit ℚ} {a : ℚ}
    (found : x.solver.edits.get? v = some edit)
    (fin : Session.ended (x.solver.answer (.suggest v a)) = true) :
    x.solver.answer (.suggest v a) = .ok () ∧ (x.after (.suggest v a)).Settled := by
  obtain ⟨⟨strength, target⟩, pull, held, same, optional, tag⟩ := h.accounts.pulled v edit found
  subst same
  let shifted := x.solver.tableau.shiftTarget edit.tag (a - edit.suggested)
  let restored := Tableau.restore shifted.2.budget shifted.1 shifted.2
  have run : x.solver.suggest v a = (restored.1, { x.solver with
      tableau := restored.2, edits := x.solver.edits.insert v { edit with suggested := a } }) := by
    rw [Solver.suggest, found]
  have answer : x.solver.answer (.suggest v a) = restored.1 := congrArg Prod.fst run
  have moved : x.after (.suggest v a) =
      ⟨(x.solver.suggest v a).2, x.held, x.pulls.insert v ⟨strength, a⟩⟩ := by
    simp only [after, heldAfter, pullsAfter, Solver.after, pull]
  obtain ⟨errors, -⟩ := Markers.share_errors (n := base edit.constraint)
    (c := .suggesting v strength edit.suggested) rfl optional
  have restricted : ∀ s ∈ edit.tag.symbols, s.isPivotable = true := by
    rw [tag]
    exact fun s hs => Symbol.isPivotable_of_isError (errors s hs)
  have optimal : Tableau.Optimal restored.2.objective :=
    h.describes.standard.optimal_retarget h.optimal restricted _ _
  have retarget := h.toKeeps.retarget held rfl optional (a - edit.suggested) shifted.2.budget
  rw [← tag] at retarget
  rw [answer] at fin ⊢
  rw [moved, run]
  rcases retarget with ⟨ok, k, describes⟩ | stalled
  · have keeps := (h.keepsEdits.suggest_held held optional tag describes).toKeeps
    exact ⟨ok, k, _, base, keeps, optimal, h.accounts.retarget found pull a⟩
  · rw [stalled] at fin
    cases fin

theorem Tracks.after (h : x.Tracks book base) {call : Solver.Call ℚ} (weight : call.Weighted)
    (spares : x.solver.spares call = true) (fin : x.solver.concludes call = true) :
    (x.after call).Settled := by
  cases call with
  | newVariable =>
    exact Tracks.settled ⟨⟨h.records, h.issued, h.weights, h.numbered, h.describes⟩, h.optimal,
      h.accounts⟩
  | add c => exact h.add weight
  | remove id => exact h.remove spares
  | update =>
    change Settled ⟨x.solver.updateVariables.2, x.held, x.pulls⟩
    rw [Solver.updateVariables, if_pos h.feasible]
    exact Tracks.settled ⟨⟨h.records, h.issued, h.weights, h.numbered, h.describes⟩, h.optimal,
      h.accounts⟩
  | addEdit v strength => exact h.addEdit v strength
  | removeEdit v => exact h.removeEdit v
  | suggest v a =>
    cases found : x.solver.edits.get? v with
    | none =>
      have unknown : x.solver.suggest v a = (.error (.unknownEdit v), x.solver) := by
        rw [Solver.suggest, found]
      have same : x.after (.suggest v a) = x := by
        simp only [EditSession.after, heldAfter, pullsAfter, Solver.after, unknown,
          h.accounts.edited v found]
      rw [same]
      exact h.settled
    | some edit => exact (h.suggest found fin).2

theorem Settled.of_surcharge {k : ℚ} (h : (x.surcharge k).Settled) : x.Settled := by
  obtain ⟨j, book, base, tracks⟩ := h
  exact ⟨k + j, book, base, by rwa [surcharge, surcharge, Solver.surcharge_surcharge] at tracks⟩

theorem Settled.after (h : x.Settled) {call : Solver.Call ℚ} (weight : call.Weighted)
    (spares : x.solver.spares call = true) (fin : x.solver.concludes call = true) :
    (x.after call).Settled := by
  obtain ⟨k, book, base, tracks⟩ := h
  have fin : (x.surcharge k).solver.concludes call = true :=
    (Solver.concludes_surcharge k x.solver call).trans fin
  have spares : (x.surcharge k).solver.spares call = true := by
    cases call <;> exact spares
  have after := tracks.after weight spares fin
  rw [after_surcharge] at after
  exact after.of_surcharge

theorem settled_afterAll {calls : List (Solver.Call ℚ)} (weights : ∀ call ∈ calls, call.Weighted)
    (spares : Solver.empty.sparesAll calls = true) (fin : Solver.empty.concludesAll calls = true) :
    (start.afterAll calls).Settled := by
  have begin : start.Settled :=
    Tracks.settled ⟨Solver.keeps_empty fun _ => 0, fun _ _ => le_refl 0, Accounts.empty _⟩
  change start.solver.sparesAll calls = true at spares
  change start.solver.concludesAll calls = true at fin
  generalize start = x at begin spares fin ⊢
  induction calls generalizing x with
  | nil => exact begin
  | cons call calls ih =>
    obtain ⟨own, others⟩ := List.forall_mem_cons.mp weights
    rw [Solver.concludesAll, Bool.and_eq_true] at fin
    rw [Solver.sparesAll, Bool.and_eq_true] at spares
    exact ih others (x.after call) (begin.after own spares.1 fin.1) spares.2 fin.2

structure Resolved (x : EditSession) : Prop where
  feasible : ∀ s row, x.solver.tableau.rows.get? s = some row → s.isExternal = false →
    0 ≤ row.constant
  edited : ∀ v, x.pulls.contains v = x.solver.hasEdit v
  satisfied : x.held.Satisfied x.solver.currentValue
  least : ∀ w, x.held.Satisfied w → x.penalty x.solver.currentValue ≤ x.penalty w

theorem Tracks.resolved (h : x.Tracks book base) : x.Resolved := by
  constructor
  · intro s row found inside
    exact (h.describes.standard.admits s row found).nonneg inside
  · intro v
    cases found : x.solver.edits.get? v with
    | none => simp [Table.contains, Solver.hasEdit, found, h.accounts.edited v found]
    | some edit =>
      obtain ⟨p, pull, -⟩ := h.accounts.pulled v edit found
      simp [Table.contains, Solver.hasEdit, found, pull]
  · exact h.accounts.satisfied_iff.mp h.shown
  · intro w hw
    calc x.penalty x.solver.currentValue
        = book.penalty x.solver.currentValue := (h.accounts.cost _).symm
      _ ≤ book.penalty w := h.penalty_le h.optimal (h.accounts.satisfied_iff.mpr hw)
      _ = x.penalty w := h.accounts.cost w

theorem Settled.resolved (h : x.Settled) : x.Resolved := by
  obtain ⟨k, book, base, tracks⟩ := h
  have found := tracks.resolved
  exact ⟨found.feasible, found.edited, found.satisfied, found.least⟩

theorem Settled.suggest (h : x.Settled) {v : Variable} {a : ℚ} (edited : x.solver.hasEdit v = true)
    (fin : Session.ended (x.solver.answer (.suggest v a)) = true) :
    x.solver.answer (.suggest v a) = .ok () ∧
      ∃ strength, (x.after (.suggest v a)).pulls.get? v = some ⟨strength, a⟩ := by
  obtain ⟨k, book, base, tracks⟩ := h
  obtain ⟨edit, found⟩ := Option.isSome_iff_exists.mp edited
  obtain ⟨p, pull, -⟩ := tracks.accounts.pulled v edit found
  have same := Solver.answer_surcharge k x.solver (.suggest v a)
  rw [← same] at fin ⊢
  refine ⟨(tracks.suggest found fin).1, p.strength, ?_⟩
  change x.pulls.get? v = some p at pull
  change (x.pullsAfter (.suggest v a)).get? v = _
  simp only [pullsAfter, pull]
  rw [Table.get?_insert, if_pos rfl]

/-- In any state that calls lead to, a suggestion whose pivots end is accepted. The required
constraints are met then, and no other values that meet them violate the optional ones at a lower
price, where each variable under edit is pulled to its last suggestion. -/
theorem resolved_suggest {calls : List (Solver.Call ℚ)} (weights : ∀ call ∈ calls, call.Weighted)
    (spares : Solver.empty.sparesAll calls = true) (fin : Solver.empty.concludesAll calls = true)
    {v : Variable} {a : ℚ} (edited : (start.afterAll calls).solver.hasEdit v = true)
    (ends : Session.ended ((start.afterAll calls).solver.suggest v a).1 = true) :
    ((start.afterAll calls).solver.suggest v a).1 = .ok () ∧
      ((start.afterAll calls).after (.suggest v a)).Resolved ∧
      ∃ strength, ((start.afterAll calls).after (.suggest v a)).pulls.get? v = some ⟨strength, a⟩ := by
  have settled := settled_afterAll weights spares fin
  have weight : Solver.Call.Weighted (.suggest v a) := trivial
  obtain ⟨ok, target⟩ := settled.suggest edited ends
  exact ⟨ok, (settled.after weight rfl ends).resolved, target⟩

def stretched : List (Solver.Call ℚ) :=
  let left : Expression ℚ := .ofVariable ⟨0⟩
  let width : Expression ℚ := .ofVariable ⟨1⟩
  let right : Expression ℚ := .ofVariable ⟨2⟩
  [.newVariable, .newVariable, .newVariable,
    .add (.relate ((right.addScaled left (-1)).addScaled width (-1)) .equal 0),
    .add { Constraint.relate width .equal 40 with strength := .medium },
    .add (.relate left .atLeast 0), .add (.relate left .atMost (-1)),
    .addEdit ⟨0⟩ .strong, .suggest ⟨0⟩ 25, .addEdit ⟨2⟩ .weak, .suggest ⟨2⟩ 90,
    .addEdit ⟨1⟩ .weak, .add (.relate right .atMost 70), .removeEdit ⟨1⟩, .remove ⟨6⟩]

/-- A lower bound that the last suggestion runs up against. One constraint was refused and one is
gone, and the other variable under edit is pulled less. -/
theorem resolved_stretched :
    (∀ call ∈ stretched, call.Weighted) ∧ Solver.empty.sparesAll stretched = true ∧
      Solver.empty.concludesAll stretched = true ∧
      (start.afterAll stretched).solver.hasEdit ⟨0⟩ = true ∧
      ((start.afterAll stretched).solver.suggest ⟨0⟩ (-10)).1 = .ok () ∧
      ((start.afterAll stretched).after (.suggest ⟨0⟩ (-10))).Resolved := by
  have weights : ∀ call ∈ stretched, call.Weighted := by decide +kernel
  have spares : Solver.empty.sparesAll stretched = true := by decide +kernel
  have fin : Solver.empty.concludesAll stretched = true := by decide +kernel
  have edited : (start.afterAll stretched).solver.hasEdit ⟨0⟩ = true := by decide +kernel
  have ends : Session.ended ((start.afterAll stretched).solver.suggest ⟨0⟩ (-10)).1 = true := by
    decide +kernel
  obtain ⟨ok, resolved, -⟩ := resolved_suggest weights spares fin edited ends
  exact ⟨weights, spares, fin, edited, ok, resolved⟩

end EditSession

end LinearChoice
