import LinearChoice.Pruner.Check
import LinearChoice.Report.Basic

/-!
# The journal of a search

A search writes down what it does. The counts of the work are kept along the way, and the traces
of a conflict are read off the journal at the end.
-/

set_option autoImplicit false

namespace LinearChoice

inductive SearchEvent (α : Type := Float) where
  /-- An alternative is about to be checked, with the pruner as it stands then. -/
  | attempted (disjunction : DisjunctionId) (alternative : Nat) (seen : Pruner α)
  | rejected (disjunction : DisjunctionId) (alternative : Nat) (reason : RejectReason α)
  | committed (disjunction : DisjunctionId) (alternative : Nat) (depth : Nat)

def Stats.after {α : Type} (s : Stats) : SearchEvent α → Stats
  | .attempted _ _ _ => { s with attempts := s.attempts + 1 }
  | .rejected _ _ (.pruned _ _ _) => { s with pruned := s.pruned + 1 }
  | .rejected _ _ (.infeasible _) => { s with refused := s.refused + 1 }
  | .rejected _ _ .noCompletion => { s with backtracks := s.backtracks + 1 }
  | .committed _ _ depth => { s with maxDepth := max s.maxDepth (depth + 1) }

structure Journal (α : Type := Float) where
  /-- The latest event comes first. -/
  events : List (SearchEvent α)
  stats : Stats

namespace Journal

variable {α : Type}

def empty : Journal α := ⟨[], Stats.zero⟩

instance : Inhabited (Journal α) := ⟨empty⟩

def record (j : Journal α) (e : SearchEvent α) : Journal α := ⟨e :: j.events, j.stats.after e⟩

def rejections (j : Journal α) (id : DisjunctionId) : List (Nat × RejectReason α) :=
  j.events.reverse.filterMap fun
    | .rejected d alternative reason => if d = id then some (alternative, reason) else none
    | _ => none

def trace? (j : Journal α) (id : DisjunctionId) (label : Option String) : Option (Trace α) :=
  match j.rejections id with
  | [] => none
  | rejections =>
    some (rejections.foldl (fun t r => t.reject r.1 r.2) ⟨id, label, Table.empty⟩)

def traces (j : Journal α) (decisions : List (DisjunctionId × Disjunction α)) :
    List (Trace α) :=
  decisions.filterMap fun d => j.trace? d.1 d.2.label

end Journal

end LinearChoice
