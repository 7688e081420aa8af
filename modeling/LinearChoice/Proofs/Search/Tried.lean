import LinearChoice.Search.Run

/-!
# How a trial comes out

The alternatives of one disjunction are tried in turn. Every way in which that
may go on is one rule, so that what holds of a search is shown rule by rule.
-/

set_option autoImplicit false

namespace LinearChoice.Search

theorem drop_succ {α : Type} {l rest : List α} {x : α} {i : Nat} (h : l.drop i = x :: rest) :
    l[i]? = some x ∧ l.drop (i + 1) = rest := by
  constructor
  · have first := congrArg (fun l => l[0]?) h
    simpa using first
  · rw [← List.tail_drop, h, List.tail_cons]

theorem Setting.exceeded_eq_none (setting : Setting) (unlimited : setting.stepLimit = none)
    (stats : Stats) : setting.exceeded? stats = none := by
  rw [Setting.exceeded?, unlimited]
  rfl

variable {σ α : Type} [ExtendedScalar α] [BackendOver σ α]

def Attempt.Unfit : Attempt α → Prop
  | .feasible _ => False
  | .pruned _ | .infeasible _ => True

inductive Attempted (s : State σ α) (id : DisjunctionId) (index : Nat)
    (alternative : Alternative α) :
    Except SystemError (Attempt α) × State σ α → Prop
  | pruned {conflict : PruneConflict α}
      (rejected : s.pruner.check alternative = .error conflict) :
      Attempted s id index alternative (.ok (.pruned conflict), s)
  | committed {added : List ConstraintId} {b : σ}
      (passed : s.pruner.check alternative = .ok ())
      (run : Backend.addAll [] alternative s.backend = ((none, added), b)) :
      Attempted s id index alternative
        (.ok (.feasible ⟨id, index, added, s.pruner.mark⟩),
          { s with backend := b, pruner := s.pruner.commit alternative })
  | refused {added : List ConstraintId} {b b' : σ}
      (passed : s.pruner.check alternative = .ok ())
      (run : Backend.addAll [] alternative s.backend = ((some .unsatisfiable, added), b))
      (back : Backend.removeAll added b = (.ok (), b')) :
      Attempted s id index alternative (.ok (.infeasible added.length), { s with backend := b' })
  | failed {e : SolverError} {added : List ConstraintId} {b b' : σ}
      (passed : s.pruner.check alternative = .ok ())
      (run : Backend.addAll [] alternative s.backend = ((some e, added), b))
      (back : Backend.removeAll added b = (.ok (), b')) (other : e ≠ .unsatisfiable) :
      Attempted s id index alternative (.error (.solver e), { s with backend := b' })
  | stuck {refusal e : SolverError} {added : List ConstraintId} {b b' : σ}
      (passed : s.pruner.check alternative = .ok ())
      (run : Backend.addAll [] alternative s.backend = ((some refusal, added), b))
      (back : Backend.removeAll added b = (.error e, b')) :
      Attempted s id index alternative (.error (.solver e), { s with backend := b' })

theorem attempted (s : State σ α) (id : DisjunctionId) (index : Nat) (alternative : Alternative α) :
    Attempted s id index alternative (s.attempt id index alternative) := by
  unfold State.attempt
  split
  · next rejected => exact .pruned rejected
  · next passed =>
    split
    · next run => exact .committed passed run
    · next e added b run =>
      split
      · next back => exact .stuck passed run back
      · next back =>
        split
        · exact .refused passed run back
        · next other => exact .failed passed run back other

theorem journal_attempt (s : State σ α) (id : DisjunctionId) (index : Nat)
    (alternative : Alternative α) : (s.attempt id index alternative).2.journal = s.journal := by
  have attempted := attempted s id index alternative
  generalize s.attempt id index alternative = answer at attempted
  cases attempted <;> rfl

theorem commit_of_attempt {s s' : State σ α} {id : DisjunctionId} {index : Nat}
    {alternative : Alternative α} {c : Commit}
    (run : s.attempt id index alternative = (.ok (.feasible c), s')) :
    c.disjunction = id ∧ c.alternative = index ∧ c.restore = s.pruner.mark ∧
      s'.pruner = s.pruner.commit alternative := by
  have attempted := attempted s id index alternative
  rw [run] at attempted
  cases attempted
  exact ⟨rfl, rfl, rfl, rfl⟩

omit [ExtendedScalar α] in
theorem journal_of_retract {s s' : State σ α} {c : Commit} {removal : Except SolverError Unit}
    (back : s.retract c = (removal, s')) : s'.journal = s.journal :=
  congrArg (fun answer => answer.2.journal) back.symm

def Setting.reason (setting : Setting) : Attempt α → RejectReason α
  | .pruned c => .pruned (setting.displayName c.var) c.lower c.upper
  | .infeasible i => .infeasible i
  | .feasible _ => .noCompletion

section Steps

variable (setting : Setting) (id : DisjunctionId) (depth : Nat)
  (below : State σ α → Outcome × State σ α) (index : Nat) {alternative : Alternative α}
  (rest : List (Alternative α))

def resume (commit : Commit) : Outcome × State σ α → Outcome × State σ α
  | (.ok (some commits), s) => (.ok (some (commit :: commits)), s)
  | (.error e, s) => (.error e, (s.retract commit).2)
  | (.ok none, s) =>
    match s.retract commit with
    | (.error e, s) => (.error (.solver e), s)
    | (.ok (), s) =>
      tryEach setting id depth below (index + 1) rest (s.record (.rejected id index .noCompletion))

variable {setting} {s s₁ : State σ α} (free : setting.exceeded? s.journal.stats = none)
include free

theorem tryEach_of_failed {e : SystemError}
    (trial : (s.record (.attempted id index s.pruner)).attempt id index alternative =
      (.error e, s₁)) :
    tryEach setting id depth below index (alternative :: rest) s = (.error e, s₁) := by
  rw [tryEach, free]
  dsimp only
  rw [trial]

theorem tryEach_of_unfit {verdict : Attempt α}
    (trial : (s.record (.attempted id index s.pruner)).attempt id index alternative =
      (.ok verdict, s₁)) (no : verdict.Unfit) :
    tryEach setting id depth below index (alternative :: rest) s =
      tryEach setting id depth below (index + 1) rest
        (s₁.record (.rejected id index (setting.reason verdict))) := by
  rw [tryEach, free]
  dsimp only
  rw [trial]
  cases verdict with
  | feasible commit => exact no.elim
  | pruned c => rfl
  | infeasible i => rfl

theorem tryEach_of_feasible {commit : Commit}
    (trial : (s.record (.attempted id index s.pruner)).attempt id index alternative =
      (.ok (.feasible commit), s₁)) :
    tryEach setting id depth below index (alternative :: rest) s =
      resume setting id depth below index rest commit
        (below (s₁.record (.committed id index depth))) := by
  rw [tryEach, free]
  dsimp only
  rw [trial]
  rfl

end Steps

inductive Turn (setting : Setting) (id : DisjunctionId) (depth : Nat)
    (below : State σ α → Outcome × State σ α) (index : Nat) (alternative : Alternative α)
    (rest : List (Alternative α)) (s : State σ α) : Outcome × State σ α → Prop
  | limited {limit : Nat} (reached : setting.exceeded? s.journal.stats = some limit) :
      Turn setting id depth below index alternative rest s (.error (.stepLimitExceeded limit), s)
  | failed {s₁ : State σ α} {e : SystemError}
      (trial : (s.record (.attempted id index s.pruner)).attempt id index alternative =
        (.error e, s₁)) :
      Turn setting id depth below index alternative rest s (.error e, s₁)
  | unfit {s₁ : State σ α} {verdict : Attempt α}
      (trial : (s.record (.attempted id index s.pruner)).attempt id index alternative =
        (.ok verdict, s₁))
      (no : verdict.Unfit) :
      Turn setting id depth below index alternative rest s
        (tryEach setting id depth below (index + 1) rest
          (s₁.record (.rejected id index (setting.reason verdict))))
  | completed {s₁ s₂ : State σ α} {commit : Commit} {commits : List Commit}
      (trial : (s.record (.attempted id index s.pruner)).attempt id index alternative =
        (.ok (.feasible commit), s₁))
      (deep : below (s₁.record (.committed id index depth)) = (.ok (some commits), s₂)) :
      Turn setting id depth below index alternative rest s (.ok (some (commit :: commits)), s₂)
  | unwound {s₁ s₂ : State σ α} {commit : Commit} {e : SystemError}
      (trial : (s.record (.attempted id index s.pruner)).attempt id index alternative =
        (.ok (.feasible commit), s₁))
      (deep : below (s₁.record (.committed id index depth)) = (.error e, s₂)) :
      Turn setting id depth below index alternative rest s (.error e, (s₂.retract commit).2)
  | stuck {s₁ s₂ s₃ : State σ α} {commit : Commit} {e : SolverError}
      (trial : (s.record (.attempted id index s.pruner)).attempt id index alternative =
        (.ok (.feasible commit), s₁))
      (deep : below (s₁.record (.committed id index depth)) = (.ok none, s₂))
      (back : s₂.retract commit = (.error e, s₃)) :
      Turn setting id depth below index alternative rest s (.error (.solver e), s₃)
  | reentered {s₁ s₂ s₃ : State σ α} {commit : Commit}
      (trial : (s.record (.attempted id index s.pruner)).attempt id index alternative =
        (.ok (.feasible commit), s₁))
      (deep : below (s₁.record (.committed id index depth)) = (.ok none, s₂))
      (back : s₂.retract commit = (.ok (), s₃)) :
      Turn setting id depth below index alternative rest s
        (tryEach setting id depth below (index + 1) rest
          (s₃.record (.rejected id index .noCompletion)))

theorem turn (setting : Setting) (id : DisjunctionId) (depth : Nat)
    (below : State σ α → Outcome × State σ α) (index : Nat) (alternative : Alternative α)
    (rest : List (Alternative α)) (s : State σ α) :
    Turn setting id depth below index alternative rest s
      (tryEach setting id depth below index (alternative :: rest) s) := by
  rw [tryEach]
  split
  · next limit reached => exact .limited reached
  · split
    · next e s₁ trial => exact .failed trial
    · next c s₁ trial => exact .unfit trial trivial
    · next i s₁ trial => exact .unfit trial trivial
    · next commit s₁ trial =>
      split
      · next commits s₂ deep => exact .completed trial deep
      · next e s₂ deep => exact .unwound trial deep
      · next s₂ deep =>
        split
        · next e s₃ back => exact .stuck trial deep back
        · next s₃ back => exact .reentered trial deep back

inductive Tried (setting : Setting) (id : DisjunctionId) (depth : Nat)
    (below : State σ α → Outcome × State σ α) :
    Nat → List (Alternative α) → State σ α → Outcome × State σ α → Prop
  | exhausted (index : Nat) (s : State σ α) : Tried setting id depth below index [] s (.ok none, s)
  | limited (index : Nat) (alternative : Alternative α) (rest : List (Alternative α))
      (s : State σ α)
      (limit : Nat) (reached : setting.exceeded? s.journal.stats = some limit) :
      Tried setting id depth below index (alternative :: rest) s
        (.error (.stepLimitExceeded limit), s)
  | failed {index : Nat} {alternative : Alternative α} {rest : List (Alternative α)}
      {s s₁ : State σ α}
      {e : SystemError}
      (trial : (s.record (.attempted id index s.pruner)).attempt id index alternative =
        (.error e, s₁)) :
      Tried setting id depth below index (alternative :: rest) s (.error e, s₁)
  | unfit {index : Nat} {alternative : Alternative α} {rest : List (Alternative α)}
      {s s₁ : State σ α}
      {verdict : Attempt α} {event : SearchEvent α} {result : Outcome × State σ α}
      (trial : (s.record (.attempted id index s.pruner)).attempt id index alternative =
        (.ok verdict, s₁))
      (no : verdict.Unfit)
      (later : Tried setting id depth below (index + 1) rest (s₁.record event) result) :
      Tried setting id depth below index (alternative :: rest) s result
  | completed {index : Nat} {alternative : Alternative α} {rest : List (Alternative α)}
      {s s₁ s₂ : State σ α} {commit : Commit} {commits : List Commit}
      (trial : (s.record (.attempted id index s.pruner)).attempt id index alternative =
        (.ok (.feasible commit), s₁))
      (deep : below (s₁.record (.committed id index depth)) = (.ok (some commits), s₂)) :
      Tried setting id depth below index (alternative :: rest) s
        (.ok (some (commit :: commits)), s₂)
  | unwound {index : Nat} {alternative : Alternative α} {rest : List (Alternative α)}
      {s s₁ s₂ : State σ α} {commit : Commit} {e : SystemError}
      (trial : (s.record (.attempted id index s.pruner)).attempt id index alternative =
        (.ok (.feasible commit), s₁))
      (deep : below (s₁.record (.committed id index depth)) = (.error e, s₂)) :
      Tried setting id depth below index (alternative :: rest) s (.error e, (s₂.retract commit).2)
  | stuck {index : Nat} {alternative : Alternative α} {rest : List (Alternative α)}
      {s s₁ s₂ s₃ : State σ α} {commit : Commit} {e : SolverError}
      (trial : (s.record (.attempted id index s.pruner)).attempt id index alternative =
        (.ok (.feasible commit), s₁))
      (deep : below (s₁.record (.committed id index depth)) = (.ok none, s₂))
      (back : s₂.retract commit = (.error e, s₃)) :
      Tried setting id depth below index (alternative :: rest) s (.error (.solver e), s₃)
  | reentered {index : Nat} {alternative : Alternative α} {rest : List (Alternative α)}
      {s s₁ s₂ s₃ : State σ α} {commit : Commit} {event : SearchEvent α}
      {result : Outcome × State σ α}
      (trial : (s.record (.attempted id index s.pruner)).attempt id index alternative =
        (.ok (.feasible commit), s₁))
      (deep : below (s₁.record (.committed id index depth)) = (.ok none, s₂))
      (back : s₂.retract commit = (.ok (), s₃))
      (later : Tried setting id depth below (index + 1) rest (s₃.record event) result) :
      Tried setting id depth below index (alternative :: rest) s result

theorem tried (setting : Setting) (id : DisjunctionId) (depth : Nat)
    (below : State σ α → Outcome × State σ α) (alternatives : List (Alternative α)) (index : Nat)
    (s : State σ α) :
    Tried setting id depth below index alternatives s
      (tryEach setting id depth below index alternatives s) := by
  induction alternatives generalizing index s with
  | nil => exact .exhausted index s
  | cons alternative rest ih =>
    have turn := turn setting id depth below index alternative rest s
    generalize tryEach setting id depth below index (alternative :: rest) s = result at turn ⊢
    cases turn with
    | limited reached => exact .limited _ _ _ _ _ reached
    | failed trial => exact .failed trial
    | unfit trial no => exact .unfit trial no (ih _ _)
    | completed trial deep => exact .completed trial deep
    | unwound trial deep => exact .unwound trial deep
    | stuck trial deep back => exact .stuck trial deep back
    | reentered trial deep back => exact .reentered trial deep back (ih _ _)

end LinearChoice.Search
