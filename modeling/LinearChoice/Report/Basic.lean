import LinearChoice.Disjunction
import LinearChoice.Table.Basic

/-!
# Reports

What a solve answers: the values and choices of a combination that works, or for every disjunction
the search came to, why each of its alternatives was rejected. Either comes with the counts of the
work done.
-/

set_option autoImplicit false

namespace LinearChoice

structure Stats where
  attempts : Nat
  pruned : Nat
  refused : Nat
  backtracks : Nat
  maxDepth : Nat
  deriving DecidableEq

def Stats.zero : Stats := ⟨0, 0, 0, 0, 0⟩

inductive RejectReason (α : Type := Float) where
  | pruned (name : String) (lower upper : α)
  | infeasible (constraint : Nat)
  | noCompletion

structure Rejection (α : Type := Float) where
  reason : RejectReason α
  count : Nat

structure Trace (α : Type := Float) where
  disjunction : DisjunctionId
  label : Option String
  rejected : Table Nat (Rejection α)

def Trace.reject {α : Type} (t : Trace α) (alternative : Nat) (reason : RejectReason α) : Trace α :=
  let rejection : Rejection α :=
    match t.rejected.get? alternative with
    | some r => { r with count := r.count + 1 }
    | none => ⟨reason, 1⟩
  { t with rejected := t.rejected.insert alternative rejection }

structure Conflict (α : Type := Float) where
  traces : List (Trace α)
  stats : Stats

def Conflict.trace? {α : Type} (c : Conflict α) (id : DisjunctionId) : Option (Trace α) :=
  c.traces.find? fun t => t.disjunction = id

structure Solution (α : Type := Float) where
  values : Table String α
  choices : List Nat
  stats : Stats

def Solution.value? {α : Type} (s : Solution α) (name : String) : Option α := s.values.get? name

def Solution.chosen? {α : Type} (s : Solution α) (id : DisjunctionId) : Option Nat :=
  s.choices[id.index]?

inductive SolveResult (α : Type := Float) where
  | satisfied (solution : Solution α)
  | unsatisfied (conflict : Conflict α)

namespace SolveResult

variable {α : Type}

def isSatisfied : SolveResult α → Bool
  | .satisfied _ => true
  | .unsatisfied _ => false

def stats : SolveResult α → Stats
  | .satisfied s => s.stats
  | .unsatisfied c => c.stats

end SolveResult

end LinearChoice
