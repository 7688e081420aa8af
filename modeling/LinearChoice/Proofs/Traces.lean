import Mathlib.Data.List.Induction
import Mathlib.Data.List.Nodup
import LinearChoice.Search.Journal
import LinearChoice.Table.Lemmas

/-!
# Traces

How a trace adds up rejections. An alternative is listed where it is first
rejected, with the reason given then, and counted from then on. Traces that are
started when they are needed and put in order at the end are the ones that are
read off the journal.
-/

set_option autoImplicit false

namespace LinearChoice

variable {α : Type}

namespace Trace

def rejectAll (t : Trace α) (rejections : List (Nat × RejectReason α)) : Trace α :=
  rejections.foldl (fun t r => t.reject r.1 r.2) t

variable (t : Trace α) (rejections : List (Nat × RejectReason α)) (i : Nat)
  (reason : RejectReason α)

theorem rejectAll_cons (r : Nat × RejectReason α) :
    t.rejectAll (r :: rejections) = (t.reject r.1 r.2).rejectAll rejections := rfl

theorem rejectAll_append (later : List (Nat × RejectReason α)) :
    t.rejectAll (rejections ++ later) = (t.rejectAll rejections).rejectAll later :=
  List.foldl_append

@[simp] theorem rejectAll_disjunction : (t.rejectAll rejections).disjunction = t.disjunction := by
  induction rejections generalizing t with
  | nil => rfl
  | cons r rejections ih => exact ih (t.reject r.1 r.2)

@[simp] theorem rejectAll_label : (t.rejectAll rejections).label = t.label := by
  induction rejections generalizing t with
  | nil => rfl
  | cons r rejections ih => exact ih (t.reject r.1 r.2)

theorem get?_reject (j : Nat) : (t.reject i reason).rejected.get? j =
    if i = j then
      some (match t.rejected.get? j with
        | some r => ⟨r.reason, r.count + 1⟩
        | none => ⟨reason, 1⟩)
    else t.rejected.get? j := by
  rw [reject, Table.get?_insert]
  split
  · next same =>
    subst same
    rfl
  · rfl

theorem keys_reject : (t.reject i reason).rejected.keys =
    if i ∈ t.rejected.keys then t.rejected.keys else t.rejected.keys ++ [i] :=
  Table.keys_insert _ _ _

/-- The reason is that of the first rejection; the count goes over all of them. -/
theorem get?_rejectAll : (t.rejectAll rejections).rejected.get? i =
    match t.rejected.get? i with
    | some r => some ⟨r.reason, r.count + rejections.countP (·.1 = i)⟩
    | none => (rejections.find? (·.1 = i)).map fun r => ⟨r.2, rejections.countP (·.1 = i)⟩ := by
  induction rejections generalizing t with
  | nil =>
    cases old : t.rejected.get? i with
    | none => exact old
    | some r => exact old
  | cons r rejections ih =>
    rw [rejectAll_cons, ih, get?_reject]
    by_cases same : r.1 = i
    · cases old : t.rejected.get? i with
      | none => simp [same, Nat.add_comm]
      | some known => simp [same, Nat.add_assoc, Nat.add_comm 1]
    · simp [same]

/-- Alternatives that were not listed yet are listed in their order. -/
theorem keys_rejectAll_new (new : (t.rejected.keys ++ rejections.map Prod.fst).Nodup) :
    (t.rejectAll rejections).rejected.keys = t.rejected.keys ++ rejections.map Prod.fst := by
  induction rejections generalizing t with
  | nil => exact (List.append_nil _).symm
  | cons r rejections ih =>
    have fresh : r.1 ∉ t.rejected.keys := fun listed =>
      List.disjoint_of_nodup_append new listed (by simp)
    have keys : (t.reject r.1 r.2).rejected.keys = t.rejected.keys ++ [r.1] := by
      rw [keys_reject, if_neg fresh]
    rw [rejectAll_cons, ih _ (by simpa [keys] using new), keys]
    simp

/-- Alternatives that are listed keep their places. -/
theorem keys_rejectAll_listed (listed : ∀ r ∈ rejections, r.1 ∈ t.rejected.keys) :
    (t.rejectAll rejections).rejected.keys = t.rejected.keys := by
  induction rejections generalizing t with
  | nil => rfl
  | cons r rejections ih =>
    obtain ⟨here, later⟩ := List.forall_mem_cons.mp listed
    have keys : (t.reject r.1 r.2).rejected.keys = t.rejected.keys := by
      rw [keys_reject, if_pos here]
    rw [rejectAll_cons, ih _ (by simpa [keys] using later), keys]

section Rounds

variable {rejections} {alternatives : List Nat} {visits : Nat} (nodup : alternatives.Nodup)
  (rounds : rejections.map Prod.fst = (List.replicate visits alternatives).flatten)
include nodup rounds

/-- Where all alternatives are rejected in one round after another, they are listed in the order of
the round. -/
theorem keys_rejectAll_rounds (empty : t.rejected = Table.empty) (visited : 0 < visits) :
    (t.rejectAll rejections).rejected.keys = alternatives := by
  obtain ⟨n, rfl⟩ := Nat.exists_eq_add_one.mpr visited
  rw [List.replicate_succ, List.flatten_cons] at rounds
  obtain ⟨first, later, rfl, round, others⟩ := List.map_eq_append_iff.mp rounds
  have unlisted : t.rejected.keys = [] := by rw [empty]; rfl
  have keys : (t.rejectAll first).rejected.keys = alternatives := by
    rw [keys_rejectAll_new _ _ (by rw [unlisted, round]; exact nodup), unlisted, round,
      List.nil_append]
  rw [rejectAll_append, keys_rejectAll_listed, keys]
  intro r hr
  have member : r.1 ∈ later.map Prod.fst := List.mem_map_of_mem hr
  rw [others] at member
  obtain ⟨again, ha, found⟩ := List.mem_flatten.mp member
  rw [keys]
  rwa [List.eq_of_mem_replicate ha] at found

theorem count_rounds (member : i ∈ alternatives) :
    rejections.countP (·.1 = i) = visits := by
  have counted : rejections.countP (·.1 = i) = (rejections.map Prod.fst).count i := by
    rw [List.count, List.countP_map]
    rfl
  rw [counted, rounds, List.count_flatten, List.map_replicate,
    List.sum_replicate_nat, List.count_eq_one_of_mem nodup member, Nat.mul_one]

end Rounds

section Gather

variable (id : DisjunctionId) (label : Option String) (rejections : List (Nat × RejectReason α))

def gather : Option (Trace α) :=
  if rejections = [] then none else some (rejectAll ⟨id, label, Table.empty⟩ rejections)

theorem gather_snoc (r : Nat × RejectReason α) : gather id label (rejections ++ [r]) =
    some (((gather id label rejections).getD ⟨id, label, Table.empty⟩).reject r.1 r.2) := by
  rw [gather, if_neg (by simp), rejectAll_append, gather]
  split
  · next none =>
    rw [none]
    rfl
  · rfl

variable {id label rejections}

theorem disjunction_gather {t : Trace α} (h : gather id label rejections = some t) :
    t.disjunction = id := by
  unfold gather at h
  split at h
  · cases h
  · cases h
    exact rejectAll_disjunction _ _

end Gather

end Trace

def rejectionsOf (id : DisjunctionId) (log : List (SearchEvent α)) : List (Nat × RejectReason α) :=
  log.filterMap fun
    | .rejected d alternative reason => if d = id then some (alternative, reason) else none
    | _ => none

theorem rejectionsOf_append (id : DisjunctionId) (log later : List (SearchEvent α)) :
    rejectionsOf id (log ++ later) = rejectionsOf id log ++ rejectionsOf id later :=
  List.filterMap_append

namespace Journal

theorem rejections_eq (j : Journal α) (id : DisjunctionId) :
    j.rejections id = rejectionsOf id j.events.reverse := rfl

theorem trace?_eq (j : Journal α) (id : DisjunctionId) (label : Option String) :
    j.trace? id label = Trace.gather id label (j.rejections id) := by
  unfold trace? Trace.gather
  cases j.rejections id with
  | nil => rfl
  | cons r rejections => rfl

end Journal

/-- Where keys are distinct an element is the one that is found by its key. -/
theorem find?_key {β κ : Type} [DecidableEq κ] {key : β → κ} {l : List β}
    (nodup : (l.map key).Nodup) (a : β) : l.find? (key · = key a) = some a ↔ a ∈ l := by
  refine ⟨List.mem_of_find?_eq_some, fun member => ?_⟩
  induction l with
  | nil => cases member
  | cons b l ih =>
    rw [List.map_cons, List.nodup_cons] at nodup
    rcases List.mem_cons.mp member with rfl | later
    · simp
    · have apart : key b ≠ key a := fun same => nodup.1 (same ▸ List.mem_map_of_mem later)
      simp [apart, ih nodup.2 later]

namespace Trace

section Filing

variable (label : DisjunctionId → Option String)

/-- A rejection is added to the first trace of its disjunction, or to a new one at the end. -/
def file (id : DisjunctionId) (alternative : Nat) (reason : RejectReason α) :
    List (Trace α) → List (Trace α)
  | [] => [reject ⟨id, label id, Table.empty⟩ alternative reason]
  | t :: ts =>
    if t.disjunction = id then t.reject alternative reason :: ts
    else t :: file id alternative reason ts

def fileEvent (ts : List (Trace α)) : SearchEvent α → List (Trace α)
  | .rejected id alternative reason => file label id alternative reason ts
  | .attempted _ _ _ | .committed _ _ _ => ts

def filed (log : List (SearchEvent α)) : List (Trace α) := log.foldl (fileEvent label) []

variable {id other : DisjunctionId} (alternative : Nat) (reason : RejectReason α)
  (ts : List (Trace α)) (log : List (SearchEvent α))

@[simp] theorem disjunction_reject (t : Trace α) :
    (t.reject alternative reason).disjunction = t.disjunction := rfl

theorem keys_file : (file label id alternative reason ts).map disjunction =
    if id ∈ ts.map disjunction then ts.map disjunction else ts.map disjunction ++ [id] := by
  induction ts with
  | nil => rfl
  | cons t ts ih =>
    rw [file]
    split
    · next same =>
      rw [if_pos (same ▸ List.mem_cons_self)]
      rfl
    · next apart =>
      have apart : id ≠ t.disjunction := Ne.symm apart
      simp only [List.map_cons, List.mem_cons, apart, false_or, ih, ← apply_ite (List.cons _),
        List.cons_append]

theorem find?_file : (file label id alternative reason ts).find? (·.disjunction = id) =
    some (((ts.find? (·.disjunction = id)).getD ⟨id, label id, Table.empty⟩).reject alternative
      reason) := by
  induction ts with
  | nil => exact List.find?_cons_of_pos (decide_eq_true rfl)
  | cons t ts ih =>
    rw [file]
    by_cases same : t.disjunction = id
    · simp [same]
    · simp [same, ih]

theorem find?_file_other (apart : id ≠ other) :
    (file label id alternative reason ts).find? (·.disjunction = other) =
      ts.find? (·.disjunction = other) := by
  induction ts with
  | nil => exact List.find?_cons_of_neg (decide_eq_true_iff.not.mpr apart)
  | cons t ts ih =>
    rw [file]
    split
    · next same => simp [same, apart]
    · rw [List.find?_cons, List.find?_cons, ih]

theorem filed_snoc (e : SearchEvent α) :
    filed label (log ++ [e]) = fileEvent label (filed label log) e := List.foldl_concat ..

theorem nodup_filed : ((filed label log).map disjunction).Nodup := by
  induction log using List.reverseRecOn with
  | nil => exact .nil
  | append_singleton log e ih =>
    rw [filed_snoc]
    cases e with
    | attempted | committed => exact ih
    | rejected id alternative reason =>
      rw [fileEvent, keys_file]
      split
      · exact ih
      · next new => exact List.concat_eq_append ▸ ih.concat new

/-- What is filed for a disjunction are its rejections, in the order of time. -/
theorem find?_filed : (filed label log).find? (·.disjunction = id) =
    gather id (label id) (rejectionsOf id log) := by
  induction log using List.reverseRecOn with
  | nil => rfl
  | append_singleton log e ih =>
    rw [filed_snoc, rejectionsOf_append]
    cases e with
    | attempted | committed =>
      rw [show rejectionsOf id [_] = [] from rfl, List.append_nil]
      exact ih
    | rejected d alternative reason =>
      rw [fileEvent]
      by_cases same : d = id
      · subst same
        have own : rejectionsOf d [.rejected d alternative reason] = [(alternative, reason)] := by
          simp [rejectionsOf]
        rw [find?_file, ih, own, gather_snoc]
      · have none : rejectionsOf id [.rejected d alternative reason] = [] := by
          simp [rejectionsOf, same]
        rw [find?_file_other label alternative reason _ same, ih, none, List.append_nil]

theorem mem_filed (t : Trace α) : t ∈ filed label log ↔
    gather t.disjunction (label t.disjunction) (rejectionsOf t.disjunction log) = some t := by
  rw [← find?_filed, find?_key (nodup_filed label log)]

end Filing

def place (order : List DisjunctionId) (t : Trace α) : Nat :=
  (order.findIdx? (· = t.disjunction)).elim 0 Nat.succ

def sort (order : List DisjunctionId) (ts : List (Trace α)) : List (Trace α) :=
  ts.mergeSort fun t t' => place order t ≤ place order t'

theorem place_getElem {order : List DisjunctionId} (nodup : order.Nodup) {t : Trace α} {k : Nat}
    (found : order[k]? = some t.disjunction) : place order t = k + 1 := by
  obtain ⟨inside, here⟩ := List.getElem?_eq_some_iff.mp found
  have position : order.findIdx? (· = t.disjunction) = some k := by
    refine List.findIdx?_eq_some_iff_getElem.mpr ⟨inside, decide_eq_true here, ?_⟩
    intro j earlier
    have apart : order[j] ≠ t.disjunction := fun same =>
      Nat.ne_of_lt earlier ((nodup.getElem_inj_iff).mp (same.trans here.symm))
    simpa using apart
  rw [place, position]
  rfl

theorem pairwise_sort (order : List DisjunctionId) (ts : List (Trace α)) :
    (sort order ts).Pairwise fun t t' => place order t ≤ place order t' := by
  let le (t t' : Trace α) : Bool := place order t ≤ place order t'
  have trans (t t' t'') : le t t' → le t' t'' → le t t'' := by
    simp only [le, decide_eq_true_eq]
    exact Nat.le_trans
  have total (t t') : le t t' || le t' t := by
    simp only [le, Bool.or_eq_true, decide_eq_true_eq]
    exact Nat.le_total _ _
  exact (List.pairwise_mergeSort trans total ts).imp of_decide_eq_true

end Trace

namespace Journal

open Trace (filed gather place sort)

variable {j : Journal α} {decisions : List (DisjunctionId × Disjunction α)}

section Order

variable (nodup : (decisions.map Prod.fst).Nodup)
include nodup

theorem place_trace {k : Nat} {d : DisjunctionId × Disjunction α} {t : Trace α}
    (hd : decisions[k]? = some d) (ht : j.trace? d.1 d.2.label = some t) :
    place (decisions.map Prod.fst) t = k + 1 := by
  rw [trace?_eq] at ht
  refine Trace.place_getElem nodup ?_
  rw [List.getElem?_map, hd, Trace.disjunction_gather ht]
  rfl

theorem pairwise_traces : (j.traces decisions).Pairwise
    fun t t' => place (decisions.map Prod.fst) t < place (decisions.map Prod.fst) t' := by
  rw [traces, List.pairwise_filterMap, List.pairwise_iff_getElem]
  intro i k hi hk less t ht t' ht'
  rw [place_trace nodup (List.getElem?_eq_getElem hi) ht,
    place_trace nodup (List.getElem?_eq_getElem hk) ht']
  exact Nat.succ_lt_succ less

end Order

section Filed

variable {label : DisjunctionId → Option String}
  (labels : ∀ d ∈ decisions, label d.1 = d.2.label)
  (others : ∀ id, id ∉ decisions.map Prod.fst → j.rejections id = [])
include labels others

theorem mem_traces (t : Trace α) :
    t ∈ j.traces decisions ↔ t ∈ filed label j.events.reverse := by
  rw [Trace.mem_filed, traces, List.mem_filterMap, ← rejections_eq]
  constructor
  · rintro ⟨d, hd, ht⟩
    rw [trace?_eq] at ht
    rw [Trace.disjunction_gather ht, labels d hd]
    exact ht
  · intro ht
    by_cases listed : t.disjunction ∈ decisions.map Prod.fst
    · obtain ⟨d, hd, same⟩ := List.mem_map.mp listed
      refine ⟨d, hd, ?_⟩
      rw [trace?_eq, ← labels d hd, same]
      exact ht
    · rw [others _ listed] at ht
      cases ht

/-- Where all rejections are of decisions, the traces are what was filed, put in the order of the
decisions. -/
theorem traces_eq_sort (nodup : (decisions.map Prod.fst).Nodup) :
    j.traces decisions = sort (decisions.map Prod.fst) (filed label j.events.reverse) := by
  have sorted := pairwise_traces (j := j) nodup
  have distinct : ((j.traces decisions).map (place (decisions.map Prod.fst))).Nodup :=
    List.pairwise_map.mpr (sorted.imp Nat.ne_of_lt)
  have perm : (j.traces decisions).Perm
      (sort (decisions.map Prod.fst) (filed label j.events.reverse)) :=
    ((List.perm_ext_iff_of_nodup distinct.of_map (Trace.nodup_filed label _).of_map).mpr
      (mem_traces labels others)).trans (List.mergeSort_perm ..).symm
  refine perm.eq_of_pairwise ?_ (sorted.imp Nat.le_of_lt) (Trace.pairwise_sort _ _)
  intro t t' ht ht' before after
  exact List.inj_on_of_nodup_map distinct ht (perm.mem_iff.mpr ht') (Nat.le_antisymm before after)

end Filed

end Journal

end LinearChoice
