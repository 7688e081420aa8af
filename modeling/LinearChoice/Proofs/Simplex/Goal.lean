import LinearChoice.Proofs.Simplex.Separation

/-!
# The artificial goal in the state

A solver that works in place keeps the artificial goal beside its tableau, and
every substitution writes over both. The goal is posed and taken back within one
introduction, whatever that comes to, and nothing else looks at it. So such a
solver goes through the states of the one that hands the goal from step to step,
with no goal left after any call.
-/

set_option autoImplicit false

namespace LinearChoice

variable {α : Type}

structure Bench (α : Type) where
  tableau : Tableau α
  goal? : Option (Row α)

inductive Phase where
  | main
  | artificial

namespace Bench

def minimand? (b : Bench α) : Phase → Option (Row α)
  | .main => some b.tableau.objective
  | .artificial => b.goal?

def idle (t : Tableau α) : Bench α := ⟨t, none⟩

def detach (b : Bench α) (s : Symbol) : Bench α := { b with tableau := b.tableau.detach s }

variable [Scalar α]

def substitute (b : Bench α) (s : Symbol) (row : Row α) : Bench α :=
  ⟨b.tableau.substitute s row, b.goal?.map fun goal => goal.substitute s row⟩

def enter (b : Bench α) (s : Symbol) (row : Row α) : Bench α :=
  let b := b.substitute s row
  { b with tableau := b.tableau.attach s row }

def pivot (b : Bench α) (leaving : Symbol) (row : Row α) (entering : Symbol) : Bench α :=
  (b.detach leaving).enter entering (row.exchange leaving entering)

def minimise (phase : Phase) : Nat → Bench α → Except SolverError Unit × Bench α
  | 0, b => (.error (.internal .stalled), b)
  | n + 1, b =>
    match (b.minimand? phase).bind Tableau.entering? with
    | none => (.ok (), b)
    | some entering =>
      match b.tableau.leaving? entering with
      | none => (.error .unbounded, b)
      | some c => minimise phase n (b.pivot c.symbol c.row entering)

def optimise (b : Bench α) (phase : Phase) : Except SolverError Unit × Bench α :=
  minimise phase b.tableau.budget b

def introduce (b : Bench α) (artificial : Symbol) (row : Row α) :
    Except SolverError Bool × Bench α :=
  let (outcome, ⟨t, goal?⟩) := optimise ⟨b.tableau.attach artificial row, some row⟩ .artificial
  let b : Bench α := ⟨t, none⟩
  let success := goal?.any fun goal => Scalar.nearZero goal.constant
  match outcome with
  | .error e => (.error e, b.detach artificial)
  | .ok () =>
    match b.tableau.rows.get? artificial with
    | none => (.ok success, { b with tableau := b.tableau.drop artificial })
    | some last =>
      let b := b.detach artificial
      if !success || last.cells.isEmpty then (.ok success, b)
      else
        match last.cells.keys.find? Symbol.isPivotable with
        | none => (.ok false, b)
        | some entering =>
          let b := b.enter entering (last.exchange artificial entering)
          (.ok success, { b with tableau := b.tableau.drop artificial })

def withdraw (b : Bench α) (marker : Symbol) : Except SolverError Unit × Bench α :=
  if b.tableau.rows.contains marker then (.ok (), b.detach marker)
  else
    match b.tableau.exit? marker with
    | none => (.error (.internal .noLeavingRow), b)
    | some c => (.ok (), (b.detach c.symbol).substitute marker (c.row.exchange c.symbol marker))

def restore : Nat → List Symbol → Bench α → Except SolverError Unit × Bench α
  | _, [], b => (.ok (), b)
  | 0, _ :: _, b => (.error (.internal .stalled), b)
  | n + 1, s :: stack, b =>
    match b.tableau.rows.get? s with
    | none => restore n stack b
    | some row =>
      if row.constant < 0 then
        match Tableau.dualEntering? b.tableau.objective row with
        | none => (.error (.internal .noEnteringSymbol), b.detach s)
        | some entering =>
          let solved := row.exchange s entering
          let rest := (b.detach s).substitute entering solved
          restore n (rest.tableau.negatives.reverse ++ stack)
            { rest with tableau := rest.tableau.attach entering solved }
      else restore n stack b

theorem minimise_main (n : Nat) (t : Tableau α) :
    minimise .main n (idle t) =
      ((Tableau.minimise n t t.objective).1, idle (Tableau.minimise n t t.objective).2.1) := by
  induction n generalizing t with
  | zero => rfl
  | succ n ih =>
    unfold minimise Tableau.minimise Tableau.advance
    simp only [minimand?, idle, Option.bind_some]
    cases Tableau.entering? t.objective with
    | none => rfl
    | some entering =>
      dsimp only
      cases t.leaving? entering with
      | none => rfl
      | some c => exact ih (t.pivot c.symbol c.row entering)

theorem minimise_artificial (n : Nat) (t : Tableau α) (goal : Row α) :
    minimise .artificial n ⟨t, some goal⟩ =
      ((Tableau.minimise n t goal).1,
        ⟨(Tableau.minimise n t goal).2.1, some (Tableau.minimise n t goal).2.2⟩) := by
  induction n generalizing t goal with
  | zero => rfl
  | succ n ih =>
    unfold minimise Tableau.minimise Tableau.advance
    simp only [minimand?, Option.bind_some]
    cases Tableau.entering? goal with
    | none => rfl
    | some entering =>
      dsimp only
      cases t.leaving? entering with
      | none => rfl
      | some c => exact ih (t.pivot c.symbol c.row entering) _

theorem optimise_idle (t : Tableau α) :
    (idle t).optimise .main = (t.optimise.1, idle t.optimise.2) :=
  minimise_main t.budget t

/-- No goal is left, and one that was there before is not missed. -/
theorem introduce_eq (b : Bench α) (artificial : Symbol) (row : Row α) :
    b.introduce artificial row =
      ((b.tableau.introduce artificial row).1, idle (b.tableau.introduce artificial row).2) := by
  unfold introduce optimise Tableau.introduce
  rw [minimise_artificial]
  dsimp only
  generalize Tableau.minimise _ _ row = answer
  obtain ⟨outcome, t, goal⟩ := answer
  cases outcome with
  | error e => rfl
  | ok _ =>
    dsimp only
    cases t.rows.get? artificial with
    | none => rfl
    | some last =>
      dsimp only [Option.any_some]
      split
      · rfl
      · cases last.cells.keys.find? Symbol.isPivotable with
        | none => rfl
        | some entering => rfl

theorem withdraw_idle (t : Tableau α) (marker : Symbol) :
    (idle t).withdraw marker = ((t.withdraw marker).1, idle (t.withdraw marker).2) := by
  unfold withdraw Tableau.withdraw
  dsimp only [idle]
  by_cases basic : t.rows.contains marker = true
  · simp only [basic, if_true]
    rfl
  · simp only [basic]
    cases t.exit? marker with
    | none => rfl
    | some c => rfl

theorem restore_idle (n : Nat) (stack : List Symbol) (t : Tableau α) :
    restore n stack (idle t) =
      ((Tableau.restore n stack t).1, idle (Tableau.restore n stack t).2) := by
  induction n generalizing stack t with
  | zero => cases stack <;> rfl
  | succ n ih =>
    cases stack with
    | nil => rfl
    | cons s stack =>
      unfold restore Tableau.restore
      dsimp only [idle]
      cases t.rows.get? s with
      | none => exact ih stack t
      | some row =>
        dsimp only
        split
        · cases Tableau.dualEntering? t.objective row with
          | none => rfl
          | some entering => exact ih _ _
        · exact ih stack t

end Bench

structure InPlace (α : Type) where
  solver : Solver α
  goal? : Option (Row α)

namespace InPlace

def bench (p : InPlace α) : Bench α := ⟨p.solver.tableau, p.goal?⟩

def put (p : InPlace α) (b : Bench α) : InPlace α :=
  ⟨{ p.solver with tableau := b.tableau }, b.goal?⟩

def idle (s : Solver α) : InPlace α := ⟨s, none⟩

variable [Scalar α]

def empty : InPlace α := idle Solver.empty

def optimise (p : InPlace α) : Except SolverError Unit × InPlace α :=
  let (outcome, b) := p.bench.optimise .main
  (outcome, p.put b)

def accept (p : InPlace α) (tag : Tag) (strength : Strength α) :
    Except SolverError (ConstraintId × Tag) × InPlace α :=
  let id : ConstraintId := ⟨p.solver.nextConstraint⟩
  let p := { p with solver := { p.solver with
    nextConstraint := p.solver.nextConstraint + 1
    constraints := p.solver.constraints.insert id ⟨tag, strength⟩ } }
  match p.optimise with
  | (.ok (), p) => (.ok (id, tag), p)
  | (.error e, p) => (.error e, p)

def acceptWithSubject (p : InPlace α) (row : Row α) (subject : Symbol) (tag : Tag)
    (strength : Strength α) : Except SolverError (ConstraintId × Tag) × InPlace α :=
  (p.put (p.bench.enter subject (row.solveFor subject))).accept tag strength

def refuse (p : InPlace α) : Except SolverError (ConstraintId × Tag) × InPlace α :=
  match p.optimise with
  | (.ok (), p) => (.error .unsatisfiable, p)
  | (.error e, p) => (.error e, p)

def acceptWithArtificial (p : InPlace α) (row : Row α) (tag : Tag) (strength : Strength α) :
    Except SolverError (ConstraintId × Tag) × InPlace α :=
  let (verdict, b) := p.bench.introduce (.slack p.solver.nextSymbol) row
  let p := { p with solver := { p.solver with nextSymbol := p.solver.nextSymbol + 1 } }.put b
  match verdict with
  | .error e => (.error e, p)
  | .ok true => p.accept tag strength
  | .ok false => p.refuse

def insert (p : InPlace α) (c : Constraint α) :
    Except SolverError (ConstraintId × Tag) × InPlace α :=
  if c.isFinite then
    let m := Markers.ofConstraint c p.solver.nextSymbol
    let row := p.solver.rowOf c m
    let p := { p with solver := { p.solver with
      nextSymbol := p.solver.nextSymbol + m.count
      tableau := p.solver.tableau.addCosts m.costs } }
    match row.subject? m.tag with
    | some subject => p.acceptWithSubject row subject m.tag c.strength
    | none =>
      if row.cells.keys.all Symbol.isDummy then
        if Scalar.nearZero row.constant then
          p.acceptWithSubject row m.tag.marker m.tag c.strength
        else (.error .unsatisfiable, p)
      else p.acceptWithArtificial row m.tag c.strength
  else (.error (.internal .nonFinite), p)

def removeConstraint (p : InPlace α) (id : ConstraintId) : Except SolverError Unit × InPlace α :=
  match p.solver.constraints.get? id with
  | none => (.error .unknownConstraint, p)
  | some held =>
    let b := { p.bench with
      tableau := p.solver.tableau.removeCosts held.tag held.strength.weight }
    let (outcome, b) := b.withdraw held.tag.marker
    let p := { p with solver := { p.solver with
      constraints := p.solver.constraints.eraseSwap id } }.put b
    match outcome with
    | .error e => (.error e, p)
    | .ok () => p.optimise

def addEdit (p : InPlace α) (v : Variable) (strength : Strength α) :
    Except SolverError Unit × InPlace α :=
  if p.solver.hasEdit v then (.error (.duplicateEdit v), p)
  else
    let strength := Strength.clipped strength.weight
    if strength.isRequired then (.error .requiredEdit, p)
    else
      match p.insert ⟨Expression.ofVariable v, .equal, strength⟩ with
      | (.error e, p) => (.error e, p)
      | (.ok (id, tag), p) =>
        (.ok (), { p with solver := { p.solver with
          edits := p.solver.edits.insert v ⟨tag, id, 0⟩ } })

def removeEdit (p : InPlace α) (v : Variable) : Except SolverError Unit × InPlace α :=
  match p.solver.edits.get? v with
  | none => (.error (.unknownEdit v), p)
  | some edit =>
    removeConstraint { p with solver := { p.solver with edits := p.solver.edits.eraseSwap v } }
      edit.constraint

def suggest (p : InPlace α) (v : Variable) (x : α) : Except SolverError Unit × InPlace α :=
  match p.solver.edits.get? v with
  | none => (.error (.unknownEdit v), p)
  | some edit =>
    let (stack, t) := p.solver.tableau.shiftTarget edit.tag (x - edit.suggested)
    let (outcome, b) := Bench.restore t.budget stack { p.bench with tableau := t }
    (outcome, { p with solver := { p.solver with
      edits := p.solver.edits.insert v { edit with suggested := x } } }.put b)

def after (p : InPlace α) : Solver.Call α → InPlace α
  | .newVariable => { p with solver := p.solver.newVariable.2 }
  | .add c => (p.insert c).2
  | .remove id => (p.removeConstraint id).2
  | .update => { p with solver := p.solver.updateVariables.2 }
  | .addEdit v strength => (p.addEdit v strength).2
  | .removeEdit v => (p.removeEdit v).2
  | .suggest v x => (p.suggest v x).2

def afterAll (p : InPlace α) (calls : List (Solver.Call α)) : InPlace α := calls.foldl after p

def answers {β : Type} (answer : Except SolverError β × Solver α) :
    Except SolverError β × InPlace α := (answer.1, idle answer.2)

theorem optimise_idle (s : Solver α) : (idle s).optimise = answers s.optimise := by
  have run : (idle s).bench.optimise .main = _ := Bench.optimise_idle s.tableau
  unfold optimise
  rw [run]
  rfl

theorem accept_idle (s : Solver α) (tag : Tag) (strength : Strength α) :
    (idle s).accept tag strength = answers (s.accept tag strength) := by
  have run := optimise_idle { s with
    nextConstraint := s.nextConstraint + 1
    constraints := s.constraints.insert ⟨s.nextConstraint⟩ ⟨tag, strength⟩ }
  unfold accept Solver.accept
  dsimp only [idle] at run ⊢
  rw [run]
  generalize (_ : Solver α).optimise = answer
  obtain ⟨outcome, s'⟩ := answer
  cases outcome <;> rfl

theorem acceptWithSubject_idle (s : Solver α) (row : Row α) (subject : Symbol) (tag : Tag)
    (strength : Strength α) :
    (idle s).acceptWithSubject row subject tag strength =
      answers (s.acceptWithSubject row subject tag strength) :=
  accept_idle { s with tableau := s.tableau.enter subject (row.solveFor subject) } tag strength

theorem refuse_idle (s : Solver α) : (idle s).refuse = answers s.refuse := by
  unfold refuse Solver.refuse
  rw [optimise_idle]
  generalize (_ : Solver α).optimise = answer
  obtain ⟨outcome, s'⟩ := answer
  cases outcome <;> rfl

theorem acceptWithArtificial_idle (s : Solver α) (row : Row α) (tag : Tag)
    (strength : Strength α) :
    (idle s).acceptWithArtificial row tag strength =
      answers (s.acceptWithArtificial row tag strength) := by
  unfold acceptWithArtificial Solver.acceptWithArtificial
  rw [Bench.introduce_eq]
  dsimp only [idle, bench]
  generalize s.tableau.introduce _ _ = answer
  obtain ⟨verdict, t⟩ := answer
  cases verdict with
  | error e => rfl
  | ok success =>
    cases success with
    | true => exact accept_idle { s with nextSymbol := s.nextSymbol + 1, tableau := t } tag strength
    | false => exact refuse_idle { s with nextSymbol := s.nextSymbol + 1, tableau := t }

theorem insert_idle (s : Solver α) (c : Constraint α) :
    (idle s).insert c = answers (s.insert c) := by
  unfold insert Solver.insert
  dsimp only [idle]
  by_cases finite : c.isFinite = true
  · simp only [finite, if_true]
    cases (s.rowOf c _).subject? _ with
    | some subject => exact acceptWithSubject_idle _ _ subject _ c.strength
    | none =>
      dsimp only
      split
      · split
        · exact acceptWithSubject_idle _ _ _ _ c.strength
        · rfl
      · exact acceptWithArtificial_idle _ _ _ c.strength
  · simp only [finite]
    rfl

theorem removeConstraint_idle (s : Solver α) (id : ConstraintId) :
    (idle s).removeConstraint id = answers (s.removeConstraint id) := by
  unfold removeConstraint Solver.removeConstraint
  dsimp only [idle]
  cases s.constraints.get? id with
  | none => rfl
  | some held =>
    have withdrawn := Bench.withdraw_idle
      (s.tableau.removeCosts held.tag held.strength.weight) held.tag.marker
    dsimp only [bench, Bench.idle] at withdrawn ⊢
    rw [withdrawn]
    generalize (_ : Tableau α).withdraw _ = answer
    obtain ⟨outcome, t⟩ := answer
    cases outcome with
    | error e => rfl
    | ok _ => exact optimise_idle { s with constraints := s.constraints.eraseSwap id, tableau := t }

theorem addEdit_idle (s : Solver α) (v : Variable) (strength : Strength α) :
    (idle s).addEdit v strength = answers (s.addEdit v strength) := by
  have inserted := insert_idle s ⟨Expression.ofVariable v, .equal, Strength.clipped strength.weight⟩
  unfold addEdit Solver.addEdit
  dsimp only [idle] at inserted ⊢
  by_cases editing : s.hasEdit v = true
  · simp only [editing, if_true]
    rfl
  · simp only [editing, Bool.false_eq_true, if_false]
    by_cases required : (Strength.clipped strength.weight).isRequired = true
    · simp only [required, if_true]
      rfl
    · simp only [required, Bool.false_eq_true, if_false]
      rw [inserted]
      generalize s.insert _ = answer
      obtain ⟨outcome, s'⟩ := answer
      cases outcome <;> rfl

theorem removeEdit_idle (s : Solver α) (v : Variable) :
    (idle s).removeEdit v = answers (s.removeEdit v) := by
  unfold removeEdit Solver.removeEdit
  dsimp only [idle]
  cases s.edits.get? v with
  | none => rfl
  | some edit => exact removeConstraint_idle { s with edits := s.edits.eraseSwap v } edit.constraint

theorem suggest_idle (s : Solver α) (v : Variable) (x : α) :
    (idle s).suggest v x = answers (s.suggest v x) := by
  unfold suggest Solver.suggest
  dsimp only [idle]
  cases s.edits.get? v with
  | none => rfl
  | some edit =>
    dsimp only [bench]
    generalize s.tableau.shiftTarget _ _ = answer
    obtain ⟨stack, t⟩ := answer
    have restored := Bench.restore_idle t.budget stack t
    dsimp only [Bench.idle] at restored ⊢
    rw [restored]
    rfl

theorem after_idle (s : Solver α) (call : Solver.Call α) :
    (idle s).after call = idle (s.after call) := by
  cases call with
  | newVariable => rfl
  | add c => exact congrArg Prod.snd (insert_idle s c)
  | remove id => exact congrArg Prod.snd (removeConstraint_idle s id)
  | update => rfl
  | addEdit v strength => exact congrArg Prod.snd (addEdit_idle s v strength)
  | removeEdit v => exact congrArg Prod.snd (removeEdit_idle s v)
  | suggest v x => exact congrArg Prod.snd (suggest_idle s v x)

theorem afterAll_idle (s : Solver α) (calls : List (Solver.Call α)) :
    (idle s).afterAll calls = idle (s.afterAll calls) := by
  induction calls generalizing s with
  | nil => rfl
  | cons call calls ih =>
    rw [afterAll, List.foldl_cons, after_idle]
    exact ih (s.after call)

structure Apart (p : InPlace α) : Prop where
  basic : ∀ s row, p.solver.tableau.rows.get? s = some row →
    s ∉ p.solver.tableau.objective.cells.keys ∧
      ∀ x other, p.solver.tableau.rows.get? x = some other → s ∉ other.cells.keys
  idle : p.goal? = none
  numbered : ∀ s, p.solver.tableau.Mentions s → s.isExternal = false → s.id < p.solver.nextSymbol
  fresh : ∀ c : Constraint α, ∀ s ∈ (Markers.ofConstraint c p.solver.nextSymbol).tag.symbols,
    ¬p.solver.tableau.Mentions s
  artificial : ∀ c : Constraint α,
    let m := Markers.ofConstraint c p.solver.nextSymbol
    let s := Symbol.slack (p.solver.nextSymbol + m.count)
    ¬(p.solver.tableau.addCosts m.costs).Mentions s ∧ s ∉ (p.solver.rowOf c m).cells.keys

theorem apart_idle {s : Solver α} (h : s.Numbered) (separate : s.tableau.Separate) :
    Apart (InPlace.idle s) where
  basic x row basic := by
    have unwritten := separate.unwritten basic
    exact ⟨fun cell => unwritten.objective x cell rfl,
      fun y other hy cell => unwritten.rows y other hy x cell rfl⟩
  idle := rfl
  numbered x mentions restricted := Symbol.Below.lt (h.tableau.of_mentions mentions) restricted
  fresh c x tagged mentions := by
    obtain ⟨restricted, passed, -⟩ := Markers.symbols_numbered c s.nextSymbol x tagged
    have below := Symbol.Below.lt (h.tableau.of_mentions mentions) restricted
    exact absurd below (Nat.not_lt.mpr passed)
  artificial c := by
    have priced := (Solver.posed_costs s c).numbered h.tableau
    have row := Solver.below_row s c h.tableau
    exact ⟨fun mentions => Symbol.Below.ne_slack (priced.of_mentions mentions) rfl,
      fun cell => Symbol.Below.ne_slack (row _ cell) rfl⟩

/-- In any arithmetic, after any calls, no symbol that has a row is written anywhere, no artificial
goal is left, and the symbols that are made next are new. -/
theorem apart_afterAll (calls : List (Solver.Call α)) :
    let p := (empty : InPlace α).afterAll calls
    p.solver = (Solver.empty : Solver α).afterAll calls ∧ p.Apart := by
  have follows : (empty : InPlace α).afterAll calls = idle ((Solver.empty : Solver α).afterAll calls) :=
    afterAll_idle Solver.empty calls
  rw [follows]
  exact ⟨rfl, apart_idle (Solver.numbered_afterAll calls) (Solver.separate_afterAll calls)⟩

end InPlace

end LinearChoice
