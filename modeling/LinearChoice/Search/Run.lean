import LinearChoice.Backend.Basic
import LinearChoice.Search.Journal

/-!
# The search

Depth first through the decisions: the first alternative that the backend takes is committed, and
the search goes on below it. When nothing works below, exactly the constraints of that alternative
are taken out again and the next one is tried. As long as removals succeed, the backend holds what
it held at the start and the alternatives committed on the way down.
-/

set_option autoImplicit false

namespace LinearChoice

structure Commit where
  disjunction : DisjunctionId
  alternative : Nat
  constraints : List ConstraintId
  restore : PruneMark

namespace Search

structure Setting where
  stepLimit : Option Nat
  displayName : Variable → String

structure State (σ : Type) (α : Type := Float) where
  backend : σ
  pruner : Pruner α
  journal : Journal α

abbrev Outcome := Except SystemError (Option (List Commit))

inductive Attempt (α : Type := Float) where
  | feasible (commit : Commit)
  | pruned (conflict : PruneConflict α)
  | infeasible (constraint : Nat)

namespace State

variable {σ α : Type}

def record (s : State σ α) (e : SearchEvent α) : State σ α :=
  { s with journal := s.journal.record e }

variable [BackendOver σ α]

def retract (s : State σ α) (c : Commit) : Except SolverError Unit × State σ α :=
  let (outcome, backend) := Backend.removeAll c.constraints s.backend
  (outcome, { s with backend := backend, pruner := s.pruner.undo c.restore })

def attempt [ExtendedScalar α] (s : State σ α) (id : DisjunctionId) (index : Nat)
    (alternative : Alternative α) : Except SystemError (Attempt α) × State σ α :=
  match s.pruner.check alternative with
  | .error conflict => (.ok (.pruned conflict), s)
  | .ok () =>
    match Backend.addAll [] alternative s.backend with
    | ((none, added), backend) =>
      (.ok (.feasible ⟨id, index, added, s.pruner.mark⟩),
        { s with backend := backend, pruner := s.pruner.commit alternative })
    | ((some e, added), backend) =>
      match Backend.removeAll added backend with
      | (.error e, backend) => (.error (.solver e), { s with backend := backend })
      | (.ok (), backend) =>
        let s := { s with backend := backend }
        match e with
        | .unsatisfiable => (.ok (.infeasible added.length), s)
        | e => (.error (.solver e), s)

def leaf (s : State σ α) : Outcome × State σ α :=
  match Backend.updateVariables s.backend with
  | (.ok (), backend) => (.ok (some []), { s with backend := backend })
  | (.error .unsatisfiable, backend) => (.ok none, { s with backend := backend })
  | (.error e, backend) => (.error (.solver e), { s with backend := backend })

end State

variable {σ α : Type} [ExtendedScalar α] [BackendOver σ α]

def Setting.exceeded? (setting : Setting) (stats : Stats) : Option Nat :=
  setting.stepLimit.filter fun limit => limit ≤ stats.attempts

/-- Tries the alternatives of one disjunction from `index` on. `below` is the search through the
later decisions. An error from there takes the commitment with it, and the removal's own errors
count for nothing then. -/
def tryEach (setting : Setting) (id : DisjunctionId) (depth : Nat)
    (below : State σ α → Outcome × State σ α) :
    Nat → List (Alternative α) → State σ α → Outcome × State σ α
  | _, [], s => (.ok none, s)
  | index, alternative :: rest, s =>
    match setting.exceeded? s.journal.stats with
    | some limit => (.error (.stepLimitExceeded limit), s)
    | none =>
      match (s.record (.attempted id index s.pruner)).attempt id index alternative with
      | (.error e, s) => (.error e, s)
      | (.ok (.pruned c), s) =>
        let reason : RejectReason α := .pruned (setting.displayName c.var) c.lower c.upper
        tryEach setting id depth below (index + 1) rest (s.record (.rejected id index reason))
      | (.ok (.infeasible i), s) =>
        tryEach setting id depth below (index + 1) rest
          (s.record (.rejected id index (.infeasible i)))
      | (.ok (.feasible commit), s) =>
        match below (s.record (.committed id index depth)) with
        | (.ok (some commits), s) => (.ok (some (commit :: commits)), s)
        | (.error e, s) => (.error e, (s.retract commit).2)
        | (.ok none, s) =>
          match s.retract commit with
          | (.error e, s) => (.error (.solver e), s)
          | (.ok (), s) =>
            tryEach setting id depth below (index + 1) rest
              (s.record (.rejected id index .noCompletion))

def explore (setting : Setting) : Nat → List (DisjunctionId × Disjunction α) →
    State σ α → Outcome × State σ α
  | _, [] => State.leaf
  | depth, (id, d) :: rest => fun s =>
    tryEach setting id depth (explore setting (depth + 1) rest) 0 d.alternatives s

def run (setting : Setting) (decisions : List (DisjunctionId × Disjunction α)) (backend : σ)
    (pruner : Pruner α) : Outcome × State σ α :=
  explore setting 0 decisions ⟨backend, pruner, Journal.empty⟩

end Search

end LinearChoice
