import Mathlib.Data.List.Basic
import LinearChoice.Registry
import LinearChoice.Table.Lemmas

/-!
# Names and values

Names are only ever added, and what the registry shows under a name is what was
recorded for its variable. A constraint depends on nothing but the values of
the variables that it mentions.
-/

set_option autoImplicit false

namespace LinearChoice

section Congruence

variable {α : Type} [Scalar α] {f g : Variable → α}

theorem Expression.evaluate_congr {e : Expression α} (same : ∀ v ∈ e.support, f v = g v) :
    e.evaluate f = e.evaluate g := by
  apply List.foldl_ext
  intro total t ht
  rw [same t.1 (List.mem_map_of_mem ht)]

theorem Constraint.holds_congr {c : Constraint α} (same : ∀ v ∈ c.support, f v = g v)
    (tolerance : α) : c.holds f tolerance = c.holds g tolerance := by
  unfold Constraint.holds
  rw [Expression.evaluate_congr same]

end Congruence

namespace Registry

variable {α : Type} {r r' : Registry α} {name : String} {v : Variable}

theorem contains_iff : r.contains v = true ↔ ∃ name, r.handle? name = some v := by
  simp only [contains, entries, handle?, Table.get?_eq_some_iff, List.any_eq_true,
    decide_eq_true_eq]
  constructor
  · rintro ⟨⟨name, w⟩, found, rfl⟩
    exact ⟨name, found⟩
  · rintro ⟨name, found⟩
    exact ⟨(name, v), found, rfl⟩

theorem mem_snd_entries : v ∈ r.entries.map Prod.snd ↔ r.contains v = true := by
  simp [contains]

theorem register_of_new (new : (r.handle? name).isSome = false) :
    r.register name v = .ok { r with names := r.names.insert name v } :=
  if_neg (Bool.eq_false_iff.mp new)

theorem solved_register (run : r.register name v = .ok r') : r'.solved = r.solved := by
  unfold register at run
  split at run
  · cases run
  · cases run
    rfl

/-- A name that is given stays with its variable. -/
theorem handle?_register (run : r.register name v = .ok r') {old : String} {w : Variable}
    (found : r.handle? old = some w) : r'.handle? old = some w := by
  unfold register at run
  split at run
  · cases run
  · next new =>
    cases run
    change (r.names.insert name v).get? old = some w
    have other : name ≠ old := by
      rintro rfl
      exact new (Option.isSome_iff_exists.mpr ⟨w, found⟩)
    rw [Table.get?_insert, if_neg other]
    exact found

theorem contains_of_check {c : Constraint α} (run : r.check c = .ok ()) :
    ∀ v ∈ c.support, r.contains v = true := by
  unfold check at run
  split at run
  · cases run
  · next all =>
    intro v hv
    simpa using List.find?_eq_none.mp all v hv

theorem contains_of_checkAll {cs : List (Constraint α)} (run : r.checkAll cs = .ok ()) :
    ∀ c ∈ cs, ∀ v ∈ c.support, r.contains v = true := by
  induction cs with
  | nil => exact nofun
  | cons c cs ih =>
    unfold checkAll at run
    split at run
    · cases run
    · next one => exact List.forall_mem_cons.mpr ⟨contains_of_check one, ih run⟩

theorem check_of_contains {c : Constraint α} (h : ∀ v ∈ c.support, r.contains v = true) :
    r.check c = .ok () := by
  have none : (c.support.find? fun v => !r.contains v) = none := by
    rw [List.find?_eq_none]
    intro v hv
    simp [h v hv]
  rw [check, none]

theorem checkAll_of_contains {cs : List (Constraint α)}
    (h : ∀ c ∈ cs, ∀ v ∈ c.support, r.contains v = true) : r.checkAll cs = .ok () := by
  induction cs with
  | nil => rfl
  | cons c cs ih =>
    obtain ⟨own, others⟩ := List.forall_mem_cons.mp h
    rw [checkAll, check_of_contains own]
    exact ih others

def stranger? (r : Registry α) (cs : List (Constraint α)) : Option Variable :=
  (cs.flatMap Constraint.support).find? fun v => !r.contains v

theorem stranger_append (cs ds : List (Constraint α)) :
    r.stranger? (cs ++ ds) = (r.stranger? cs).or (r.stranger? ds) := by
  simp [stranger?]

theorem check_eq (c : Constraint α) :
    r.check c =
      match r.stranger? [c] with
      | some v => .error (.unregisteredHandle v)
      | none => .ok () := by
  have mentioned : [c].flatMap Constraint.support = c.support := List.append_nil _
  rw [stranger?, mentioned]
  rfl

/-- One after the other, the constraints are checked for the first stranger in all of them. -/
theorem checkAll_eq (cs : List (Constraint α)) :
    r.checkAll cs =
      match r.stranger? cs with
      | some v => .error (.unregisteredHandle v)
      | none => .ok () := by
  induction cs with
  | nil => rfl
  | cons c cs ih =>
    have split : r.stranger? (c :: cs) = (r.stranger? [c]).or (r.stranger? cs) :=
      stranger_append [c] cs
    rw [checkAll, check_eq, split]
    cases r.stranger? [c] with
    | some v => rfl
    | none => exact ih

theorem stranger_isSome_iff {cs : List (Constraint α)} :
    (r.stranger? cs).isSome = true ↔ ∃ c ∈ cs, ∃ v ∈ c.support, r.contains v = false := by
  simp [stranger?, List.find?_isSome]

theorem solved_recordValues (value : Variable → α) :
    (r.recordValues value).solved.get? v = if r.contains v then some (value v) else none := by
  have entries : (r.entries.map fun e => (e.2, value e.2)) =
      (r.entries.map Prod.snd).map fun v => (v, value v) := by
    rw [List.map_map]
    rfl
  change (Table.ofList (r.entries.map fun e => (e.2, value e.2))).get? v = _
  rw [entries, Table.get?_ofList]
  simp only [mem_snd_entries]

theorem value_eq_ok_iff {x : α} :
    r.value name = .ok x ↔ ∃ v, r.handle? name = some v ∧ r.solved.get? v = some x := by
  rw [← Option.bind_eq_some_iff]
  unfold value solvedValue?
  split
  · next y found => simp [found]
  · next missing => simp [missing]

theorem mem_values {x : α} : (name, x) ∈ r.values ↔ r.value name = .ok x := by
  rw [value_eq_ok_iff, ← Option.bind_eq_some_iff]
  unfold values solvedValue?
  rw [List.mem_filterMap]
  constructor
  · rintro ⟨e, -, shown⟩
    obtain ⟨y, found, same⟩ := Option.map_eq_some_iff.mp shown
    cases same
    exact found
  · intro found
    obtain ⟨v, named, -⟩ := Option.bind_eq_some_iff.mp found
    exact ⟨(name, v), (r.names.get?_eq_some_iff name v).mp named, by rw [found]; rfl⟩

end Registry

end LinearChoice
