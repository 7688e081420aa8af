import LinearChoice.Proofs.Registry

/-!
# Who goes by which name

Registrations are taken one after the other. A name that was given is refused and
changes nothing, any other comes last. A variable may be registered many times
and goes by its first name. First names may be kept in a table of their own,
which is written where it has no entry yet: the two tables are written apart and
never disagree.
-/

set_option autoImplicit false

namespace LinearChoice

variable {α : Type}

namespace Registry

def enrol (r : Registry α) (e : String × Variable) : Registry α :=
  match r.register e.1 e.2 with
  | .error _ => r
  | .ok r => r

def enrolAll (r : Registry α) (attempts : List (String × Variable)) : Registry α :=
  attempts.foldl enrol r

def enrolled : Registry α → List (String × Variable) → List (String × Variable)
  | _, [] => []
  | r, e :: attempts =>
    match r.register e.1 e.2 with
    | .error _ => r.enrolled attempts
    | .ok r => e :: r.enrolled attempts

variable {r : Registry α} {name : String} {v : Variable}

theorem register_cases (r : Registry α) (name : String) (v : Variable) :
    (r.register name v = .error (.duplicateVariable name) ∧ name ∈ r.entries.map Prod.fst) ∨
    ∃ r', r.register name v = .ok r' ∧ name ∉ r.entries.map Prod.fst ∧
      r'.entries = r.entries ++ [(name, v)] := by
  unfold register
  split
  · next given => exact Or.inl ⟨rfl, (r.names.contains_iff name).mp given⟩
  · next new =>
    have absent : name ∉ r.names.keys := fun mem => new ((r.names.contains_iff name).mpr mem)
    exact Or.inr ⟨_, rfl, absent,
      r.names.entries_insert_new name v ((r.names.get?_eq_none_iff name).mpr absent)⟩

theorem entries_enrolAll (r : Registry α) (attempts : List (String × Variable)) :
    (r.enrolAll attempts).entries = r.entries ++ r.enrolled attempts := by
  induction attempts generalizing r with
  | nil => exact (List.append_nil _).symm
  | cons e attempts ih =>
    change ((r.enrol e).enrolAll attempts).entries = _
    rw [ih, enrol, enrolled]
    rcases r.register_cases e.1 e.2 with ⟨refused, -⟩ | ⟨r', taken, -, entries⟩
    · rw [refused]
    · rw [taken]
      dsimp only
      rw [entries, List.append_assoc, List.singleton_append]

/-- One more name is the first one of a variable that had none. -/
theorem nameOf?_append {r' : Registry α} (entries : r'.entries = r.entries ++ [(name, v)])
    (u : Variable) :
    r'.nameOf? u = (r.nameOf? u).or (if v = u then some name else none) := by
  rw [nameOf?, nameOf?, entries, List.find?_append]
  cases r.entries.find? fun e => e.2 = u with
  | some e => rfl
  | none => by_cases h : v = u <;> simp [h]

theorem nameOf?_isSome (r : Registry α) (v : Variable) : (r.nameOf? v).isSome = r.contains v := by
  rw [nameOf?, Option.isSome_map, contains, Bool.eq_iff_iff, List.find?_isSome, List.any_eq_true]

structure Records (r : Registry α) (l : List (String × Variable)) : Prop where
  entries : r.entries = l
  distinct : (l.map Prod.fst).Nodup
  register : ∀ name v e, r.register name v = .error e ↔
    e = .duplicateVariable name ∧ name ∈ l.map Prod.fst
  handle : ∀ name v, r.handle? name = some v ↔ (name, v) ∈ l
  contains : ∀ v, r.contains v = true ↔ ∃ name, r.handle? name = some v
  earliest : ∀ v name, r.nameOf? v = some name ↔
    ∃ before after, l = before ++ (name, v) :: after ∧ ∀ e ∈ before, e.2 ≠ v
  back : ∀ v name, r.nameOf? v = some name → r.handle? name = some v
  passes : ∀ c, r.check c = .ok () ↔ ∀ v ∈ c.support, ∃ name, (name, v) ∈ l
  refuses : ∀ c e, r.check c = .error e ↔
    ∃ before v after, c.support = before ++ v :: after ∧ e = .unregisteredHandle v ∧
      (∀ u ∈ before, ∃ name, (name, u) ∈ l) ∧ ∀ name, (name, v) ∉ l

theorem contains_iff_mem : r.contains v = true ↔ ∃ name, (name, v) ∈ r.entries := by
  rw [contains_iff]
  exact exists_congr fun name => r.names.get?_eq_some_iff name v

theorem nameOf?_eq_some_iff : r.nameOf? v = some name ↔
    ∃ before after, r.entries = before ++ (name, v) :: after ∧ ∀ e ∈ before, e.2 ≠ v := by
  rw [nameOf?, Option.map_eq_some_iff]
  constructor
  · rintro ⟨e, found, rfl⟩
    obtain ⟨same, before, after, split, others⟩ := List.find?_eq_some_iff_append.mp found
    have own : e.2 = v := by simpa using same
    exact ⟨before, after, by rw [split, ← own], fun e he => by simpa using others e he⟩
  · rintro ⟨before, after, split, others⟩
    refine ⟨(name, v), List.find?_eq_some_iff_append.mpr ?_, rfl⟩
    exact ⟨by simp, before, after, split, fun e he => by simpa using others e he⟩

theorem check_eq_error_iff {c : Constraint α} {e : SystemError} :
    r.check c = .error e ↔
      ∃ before v after, c.support = before ++ v :: after ∧ e = .unregisteredHandle v ∧
        (∀ u ∈ before, r.contains u = true) ∧ r.contains v = false := by
  unfold check
  cases found : c.support.find? fun v => !r.contains v with
  | none =>
    refine ⟨nofun, ?_⟩
    rintro ⟨before, v, after, split, -, -, strange⟩
    have known := List.find?_eq_none.mp found v (by simp [split])
    simp [strange] at known
  | some v =>
    obtain ⟨strange, before, after, split, others⟩ := List.find?_eq_some_iff_append.mp found
    constructor
    · rintro ⟨⟩
      exact ⟨before, v, after, split, rfl, fun u hu => by simpa using others u hu,
        by simpa using strange⟩
    · rintro ⟨before', v', after', split', rfl, others', strange'⟩
      have again : (c.support.find? fun v => !r.contains v) = some v' := by
        rw [List.find?_eq_some_iff_append]
        exact ⟨by simp [strange'], before', after', split', fun u hu => by simp [others' u hu]⟩
      rw [found] at again
      cases again
      rfl

theorem records_entries (r : Registry α) : r.Records r.entries where
  entries := rfl
  distinct := r.names.nodup_keys
  register name v e := by
    rcases r.register_cases name v with ⟨refused, given⟩ | ⟨r', taken, new, -⟩
    · rw [refused]
      exact ⟨fun h => ⟨(Except.error.inj h).symm, given⟩, fun h => by rw [h.1]⟩
    · rw [taken]
      exact ⟨nofun, fun h => absurd h.2 new⟩
  handle name v := r.names.get?_eq_some_iff name v
  contains _ := contains_iff
  earliest _ _ := nameOf?_eq_some_iff
  back v name h := by
    obtain ⟨before, after, split, -⟩ := nameOf?_eq_some_iff.mp h
    have mem : (name, v) ∈ r.entries := by simp [split]
    exact (r.names.get?_eq_some_iff name v).mpr mem
  passes c := by
    simp only [← contains_iff_mem]
    exact ⟨contains_of_check, check_of_contains⟩
  refuses c e := by
    rw [check_eq_error_iff]
    simp only [← contains_iff_mem, ← not_exists, Bool.not_eq_true]

end Registry

structure Indexed (α : Type := Float) extends Registry α where
  firstNames : Table Variable String

namespace Indexed

def empty : Indexed α := ⟨Registry.empty, Table.empty⟩

def noted (firstNames : Table Variable String) (name : String) (v : Variable) :
    Table Variable String :=
  if firstNames.contains v then firstNames else firstNames.insert v name

def register (i : Indexed α) (name : String) (v : Variable) : Except SystemError (Indexed α) :=
  if i.names.contains name then .error (.duplicateVariable name)
  else
    .ok { i with names := i.names.insert name v, firstNames := noted i.firstNames name v }

def enrol (i : Indexed α) (e : String × Variable) : Indexed α :=
  match i.register e.1 e.2 with
  | .error _ => i
  | .ok i => i

def enrolAll (i : Indexed α) (attempts : List (String × Variable)) : Indexed α :=
  attempts.foldl enrol i

def nameOf? (i : Indexed α) (v : Variable) : Option String := i.firstNames.get? v

def contains (i : Indexed α) (v : Variable) : Bool := i.firstNames.contains v

def check (i : Indexed α) (c : Constraint α) : Except SystemError Unit :=
  match c.support.find? fun v => !i.contains v with
  | some v => .error (.unregisteredHandle v)
  | none => .ok ()

def InStep (i : Indexed α) : Prop := ∀ v, i.nameOf? v = i.toRegistry.nameOf? v

variable {i : Indexed α}

theorem InStep.contains_eq (h : i.InStep) (v : Variable) :
    i.contains v = i.toRegistry.contains v := by
  rw [← Registry.nameOf?_isSome, ← h v]
  rfl

theorem InStep.check_eq (h : i.InStep) (c : Constraint α) :
    i.check c = i.toRegistry.check c := by
  have same : i.contains = i.toRegistry.contains := funext h.contains_eq
  rw [check, same]
  rfl

/-- Refusals are those of the registry, and so is what is registered. -/
theorem map_register (i : Indexed α) (name : String) (v : Variable) :
    (i.register name v).map toRegistry = i.toRegistry.register name v := by
  unfold register Registry.register
  split <;> rfl

theorem toRegistry_enrol (i : Indexed α) (e : String × Variable) :
    (i.enrol e).toRegistry = i.toRegistry.enrol e := by
  rw [Registry.enrol, ← map_register, enrol]
  cases i.register e.1 e.2 <;> rfl

theorem get?_noted (firstNames : Table Variable String) (name : String) (v u : Variable) :
    (noted firstNames name v).get? u =
      (firstNames.get? u).or (if v = u then some name else none) := by
  unfold noted Table.contains
  by_cases own : v = u
  · subst own
    cases known : firstNames.get? v with
    | some first => simp [known]
    | none => simp [Table.get?_insert]
  · rw [if_neg own, Option.or_none]
    split
    · rfl
    · rw [Table.get?_insert, if_neg own]

theorem InStep.register (h : i.InStep) {name : String} {v : Variable} {i' : Indexed α}
    (run : i.register name v = .ok i') : i'.InStep := by
  have taken : i.toRegistry.register name v = .ok i'.toRegistry := by
    rw [← map_register, run]
    rfl
  have noted : i'.firstNames = noted i.firstNames name v := by
    unfold Indexed.register at run
    split at run
    · cases run
    · cases run
      rfl
  rcases i.toRegistry.register_cases name v with ⟨refused, -⟩ | ⟨r, ok, -, entries⟩
  · rw [taken] at refused
    cases refused
  · rw [taken] at ok
    cases ok
    intro u
    rw [nameOf?, noted, get?_noted, Registry.nameOf?_append entries, ← h u]
    rfl

theorem InStep.enrol (h : i.InStep) (e : String × Variable) : (i.enrol e).InStep := by
  unfold Indexed.enrol
  cases run : i.register e.1 e.2 with
  | error _ => exact h
  | ok i' => exact h.register run

theorem enrolAll_spec (h : i.InStep) (attempts : List (String × Variable)) :
    (i.enrolAll attempts).toRegistry = i.toRegistry.enrolAll attempts ∧
      (i.enrolAll attempts).InStep := by
  induction attempts generalizing i with
  | nil => exact ⟨rfl, h⟩
  | cons e attempts ih =>
    have rest := ih (h.enrol e)
    rwa [toRegistry_enrol] at rest

/-- After any registrations, taken or refused, the registry tells what was registered, and the table
of first names tells the same. -/
theorem recorded_enrolAll (attempts : List (String × Variable)) :
    let i : Indexed α := empty.enrolAll attempts
    let r : Registry α := Registry.empty.enrolAll attempts
    r.Records ((Registry.empty : Registry α).enrolled attempts) ∧ i.toRegistry = r ∧
      (∀ v, i.nameOf? v = r.nameOf? v) ∧ (∀ v, i.contains v = r.contains v) ∧
        ∀ c, i.check c = r.check c := by
  intro i r
  have start : (empty : Indexed α).InStep := fun _ => rfl
  obtain ⟨same, inStep⟩ := enrolAll_spec start attempts
  have listed : r.entries = (Registry.empty : Registry α).enrolled attempts :=
    Registry.empty.entries_enrolAll attempts
  refine ⟨listed ▸ r.records_entries, same, ?_⟩
  rw [← show i.toRegistry = r from same]
  exact ⟨inStep, inStep.contains_eq, inStep.check_eq⟩

end Indexed

end LinearChoice
