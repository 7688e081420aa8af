import LinearChoice.Search.Journal
import LinearChoice.Table.Lemmas

/-!
# The outline of a search

What remains of a journal, of a trace and of an answer when it is left open
whether the pruner or the backend rejected an alternative, and for which
constraint. The outline of a trace is read off the outline of the journal.
-/

set_option autoImplicit false

namespace LinearChoice

variable {α : Type}

inductive SearchStep where
  | attempted (disjunction : DisjunctionId) (alternative : Nat)
  | rejected (disjunction : DisjunctionId) (alternative : Nat) (committed : Bool)
  | committed (disjunction : DisjunctionId) (alternative : Nat) (depth : Nat)
  deriving DecidableEq

structure Counts where
  attempts : Nat
  rejected : Nat
  backtracks : Nat
  maxDepth : Nat
  deriving DecidableEq

structure TraceOutline where
  disjunction : DisjunctionId
  label : Option String
  rejected : Table Nat (Nat × Bool)

inductive SolveOutline where
  | satisfied (choices : List Nat) (counts : Counts)
  | unsatisfied (traces : List TraceOutline) (counts : Counts)

def RejectReason.isNoCompletion : RejectReason α → Bool
  | .noCompletion => true
  | .pruned _ _ _ | .infeasible _ => false

def SearchEvent.outline : SearchEvent α → SearchStep
  | .attempted d i _ => .attempted d i
  | .rejected d i reason => .rejected d i reason.isNoCompletion
  | .committed d i depth => .committed d i depth

def Stats.outline (s : Stats) : Counts :=
  ⟨s.attempts, s.pruned + s.refused, s.backtracks, s.maxDepth⟩

def Counts.after (n : Counts) : SearchStep → Counts
  | .attempted _ _ => { n with attempts := n.attempts + 1 }
  | .rejected _ _ false => { n with rejected := n.rejected + 1 }
  | .rejected _ _ true => { n with backtracks := n.backtracks + 1 }
  | .committed _ _ depth => { n with maxDepth := max n.maxDepth (depth + 1) }

theorem Stats.outline_after (s : Stats) (e : SearchEvent α) :
    (s.after e).outline = s.outline.after e.outline := by
  cases e with
  | attempted d i seen => rfl
  | committed d i depth => rfl
  | rejected d i reason =>
    cases reason with
    | noCompletion => rfl
    | infeasible c => rfl
    | pruned name lower upper =>
      simp only [Stats.after, outline, SearchEvent.outline, RejectReason.isNoCompletion,
        Counts.after, Nat.add_right_comm]

def Trace.outline (t : Trace α) : TraceOutline :=
  ⟨t.disjunction, t.label, t.rejected.mapValues fun _ r => (r.count, r.reason.isNoCompletion)⟩

def TraceOutline.reject (t : TraceOutline) (r : Nat × Bool) : TraceOutline :=
  let rejection : Nat × Bool :=
    match t.rejected.get? r.1 with
    | some old => (old.1 + 1, old.2)
    | none => (1, r.2)
  { t with rejected := t.rejected.insert r.1 rejection }

theorem Trace.outline_reject (t : Trace α) (alternative : Nat) (reason : RejectReason α) :
    (t.reject alternative reason).outline =
      t.outline.reject (alternative, reason.isNoCompletion) := by
  unfold Trace.reject outline TraceOutline.reject
  dsimp only
  rw [Table.mapValues_insert, Table.get?_mapValues]
  cases t.rejected.get? alternative <;> rfl

namespace Journal

variable {j k : Journal α}

structure Alike (j k : Journal α) : Prop where
  steps : j.events.map SearchEvent.outline = k.events.map SearchEvent.outline
  counts : j.stats.outline = k.stats.outline

theorem Alike.refl (j : Journal α) : j.Alike j := ⟨rfl, rfl⟩

theorem Alike.record (h : j.Alike k) {e e' : SearchEvent α} (same : e.outline = e'.outline) :
    (j.record e).Alike (k.record e') := by
  constructor
  · simp only [Journal.record, List.map_cons, same, h.steps]
  · simp only [Journal.record, Stats.outline_after, same, h.counts]

theorem Alike.attempts (h : j.Alike k) : j.stats.attempts = k.stats.attempts :=
  congrArg Counts.attempts h.counts

def rejectionsIn (steps : List SearchStep) (id : DisjunctionId) : List (Nat × Bool) :=
  steps.reverse.filterMap fun
    | .rejected d alternative committed => if d = id then some (alternative, committed) else none
    | _ => none

theorem rejectionsIn_outline (j : Journal α) (id : DisjunctionId) :
    rejectionsIn (j.events.map SearchEvent.outline) id =
      (j.rejections id).map fun r => (r.1, r.2.isNoCompletion) := by
  rw [rejectionsIn, rejections, ← List.map_reverse, List.filterMap_map, List.map_filterMap]
  congr 1
  funext e
  cases e with
  | attempted => rfl
  | committed => rfl
  | rejected d i reason =>
    simp only [Function.comp_apply, SearchEvent.outline]
    split <;> rfl

def traceOf? (rejections : List (Nat × Bool)) (id : DisjunctionId) (label : Option String) :
    Option TraceOutline :=
  match rejections with
  | [] => none
  | rejections => some (rejections.foldl TraceOutline.reject ⟨id, label, Table.empty⟩)

theorem outline_foldl (t : Trace α) (rejections : List (Nat × RejectReason α)) :
    (rejections.foldl (fun t r => t.reject r.1 r.2) t).outline =
      (rejections.map fun r => (r.1, r.2.isNoCompletion)).foldl TraceOutline.reject t.outline := by
  induction rejections generalizing t with
  | nil => rfl
  | cons r rejections ih => rw [List.foldl_cons, ih, Trace.outline_reject, List.map_cons,
      List.foldl_cons]

theorem trace?_outline (j : Journal α) (id : DisjunctionId) (label : Option String) :
    (j.trace? id label).map Trace.outline =
      traceOf? (rejectionsIn (j.events.map SearchEvent.outline) id) id label := by
  rw [rejectionsIn_outline, trace?]
  cases j.rejections id with
  | nil => rfl
  | cons r rejections =>
    dsimp only
    rw [Option.map_some, outline_foldl]
    rfl

theorem Alike.traces (h : j.Alike k) (decisions : List (DisjunctionId × Disjunction α)) :
    (j.traces decisions).map Trace.outline = (k.traces decisions).map Trace.outline := by
  rw [Journal.traces, Journal.traces, List.map_filterMap, List.map_filterMap]
  simp only [trace?_outline, h.steps]

end Journal

def SolveResult.outline : SolveResult α → SolveOutline
  | .satisfied s => .satisfied s.choices s.stats.outline
  | .unsatisfied c => .unsatisfied (c.traces.map Trace.outline) c.stats.outline

end LinearChoice
