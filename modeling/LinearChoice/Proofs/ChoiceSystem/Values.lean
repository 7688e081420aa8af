import LinearChoice.Proofs.Backend.Exact
import LinearChoice.Proofs.ChoiceSystem.Custody
import LinearChoice.Proofs.Registry

/-!
# The values of a system

As long as a system shows values, they are those of the last solution that it
reported, and every required constraint of its baseline and of the alternatives
chosen then is satisfied by them.
-/

set_option autoImplicit false
set_option linter.unusedSectionVars false

namespace LinearChoice.ChoiceSystem

open scoped Exact

variable {σ α : Type} [ExtendedScalar α] {s s' : ChoiceSystem σ α}

structure Fulfils (s : ChoiceSystem σ α) (choices : List Nat) (value : Variable → α)
    (tolerance : α) : Prop extends Selects s choices where
  baseline : ∀ c ∈ s.baseline.constraints, c.isRequired = true → c.holds value tolerance = true
  chosen : ∀ (i : Nat) (d : Disjunction α) (j : Nat) (alternative : Alternative α),
    s.disjunctions.registered[i]? = some d → choices[i]? = some j →
    d.alternative? j = some alternative → ∀ c ∈ alternative, c.isRequired = true →
    c.holds value tolerance = true

def Reads (s : ChoiceSystem σ α) (shown : String → Option α) (value : Variable → α) : Prop :=
  ∀ name v x, s.handle? name = some v → shown name = some x → value v = x

structure Sustains (s : ChoiceSystem σ α) (choices : List Nat) (shown : String → Option α)
    (tolerance : α) : Prop where
  readable : ∃ value, s.Reads shown value
  fulfils : ∀ value, s.Reads shown value → s.Fulfils choices value tolerance

structure Within (s : ChoiceSystem σ α) (known : Variable → Bool) : Prop where
  baseline : ∀ c ∈ s.baseline.constraints, ∀ v ∈ c.support, known v = true
  disjunctions : ∀ d ∈ s.disjunctions.registered, ∀ c ∈ d.constraints, ∀ v ∈ c.support,
    known v = true

structure Shows (s : ChoiceSystem σ α) (solution : Solution α) (value : Variable → α)
    (tolerance : α) : Prop where
  fulfils : s.Fulfils solution.choices value tolerance
  within : s.Within s.registry.solved.contains
  recorded : ∀ v x, s.registry.solved.get? v = some x →
    value v = x ∧ ∃ name, s.handle? name = some v ∧ solution.values.get? name = some x
  kept : ∀ name x, solution.values.get? name = some x →
    ∃ v, s.handle? name = some v ∧ s.registry.solved.get? v = some x

theorem Within.mono {known known' : Variable → Bool} (h : s.Within known)
    (baseline : s'.baseline = s.baseline) (disjunctions : s'.disjunctions = s.disjunctions)
    (more : ∀ v, known v = true → known' v = true) : s'.Within known' := by
  constructor
  · rw [baseline]
    exact fun c hc v hv => more v (h.baseline c hc v hv)
  · rw [disjunctions]
    exact fun d hd c hc v hv => more v (h.disjunctions d hd c hc v hv)

theorem Fulfils.moved {choices : List Nat} {value : Variable → α} {tolerance : α}
    (h : s.Fulfils choices value tolerance) (baseline : s'.baseline = s.baseline)
    (disjunctions : s'.disjunctions = s.disjunctions) : s'.Fulfils choices value tolerance := by
  obtain ⟨⟨count, inRange⟩, required, chosen⟩ := h
  refine ⟨⟨?_, ?_⟩, ?_, ?_⟩
  all_goals
    simp only [baseline, disjunctions]
    assumption

/-- Only the values of variables that are mentioned count. -/
theorem Fulfils.congr {choices : List Nat} {value value' : Variable → α} {tolerance : α}
    {known : Variable → Bool} (h : s.Fulfils choices value tolerance) (within : s.Within known)
    (same : ∀ v, known v = true → value' v = value v) : s.Fulfils choices value' tolerance := by
  refine ⟨h.toSelects, fun c hc required => ?_, fun i d j alternative hd hj ha c hc required => ?_⟩
  · rw [Constraint.holds_congr fun v hv => same v (within.baseline c hc v hv)]
    exact h.baseline c hc required
  · have mentioned : c ∈ d.constraints :=
      List.mem_flatten_of_mem (List.mem_of_getElem? ha) hc
    rw [Constraint.holds_congr fun v hv =>
      same v (within.disjunctions d (List.mem_of_getElem? hd) c mentioned v hv)]
    exact h.chosen i d j alternative hd hj ha c hc required

section Shows

variable {solution : Solution α} {value : Variable → α} {tolerance : α}

theorem Shows.moved (h : s.Shows solution value tolerance) (baseline : s'.baseline = s.baseline)
    (disjunctions : s'.disjunctions = s.disjunctions)
    (solved : s'.registry.solved = s.registry.solved)
    (names : ∀ name v, s.handle? name = some v → s'.handle? name = some v) :
    s'.Shows solution value tolerance := by
  have within := h.within.mono baseline disjunctions fun _ hv => hv
  rw [← solved] at within
  refine ⟨h.fulfils.moved baseline disjunctions, within, fun v x found => ?_,
    fun name x found => ?_⟩
  · rw [solved] at found
    obtain ⟨same, name, named, shown⟩ := h.recorded v x found
    exact ⟨same, name, names name v named, shown⟩
  · rw [solved]
    obtain ⟨v, named, shown⟩ := h.kept name x found
    exact ⟨v, names name v named, shown⟩

/-- Values may be read off wherever each variable with a value shows it under one of its names. -/
theorem Shows.sustains (h : s.Shows solution value tolerance) {shown : String → Option α}
    (faithful : ∀ name v x, s.handle? name = some v → shown name = some x → value v = x)
    (visible : ∀ v x, s.registry.solved.get? v = some x →
      ∃ name, s.handle? name = some v ∧ shown name = some x) :
    s.Sustains solution.choices shown tolerance := by
  refine ⟨⟨value, faithful⟩, fun value' reads => h.fulfils.congr h.within fun v hv => ?_⟩
  obtain ⟨x, found⟩ := Option.isSome_iff_exists.mp hv
  obtain ⟨name, named, here⟩ := visible v x found
  rw [reads name v x named here, (h.recorded v x found).1]

theorem Shows.sustains_solution (h : s.Shows solution value tolerance) :
    s.Sustains solution.choices solution.values.get? tolerance := by
  refine h.sustains (fun name v x named shown => ?_) fun v x found => (h.recorded v x found).2
  obtain ⟨w, named', found⟩ := h.kept name x shown
  rw [named, Option.some.injEq] at named'
  exact named' ▸ (h.recorded w x found).1

theorem toOption_value_iff {name : String} {x : α} :
    (s.value name).toOption = some x ↔
      ∃ v, s.handle? name = some v ∧ s.registry.solved.get? v = some x := by
  have shown : s.value name = .ok x ↔ _ := Registry.value_eq_ok_iff
  rw [handle?, ← shown]
  cases s.value name <;> simp [Except.toOption]

theorem Shows.sustains_values (h : s.Shows solution value tolerance) :
    s.Sustains solution.choices (fun name => (s.value name).toOption) tolerance := by
  refine h.sustains (fun name v x named shown => ?_) fun v x found => ?_
  · obtain ⟨w, named', found⟩ := toOption_value_iff.mp shown
    rw [named, Option.some.injEq] at named'
    exact named' ▸ (h.recorded w x found).1
  · obtain ⟨-, name, named, -⟩ := h.recorded v x found
    exact ⟨name, named, toOption_value_iff.mpr ⟨v, named, found⟩⟩

end Shows

variable [Numeral α] [BackendOver σ α] {S : Sound σ}

/-- At the end of a successful search the values satisfy all that is in custody. -/
theorem fulfils_of_carried {commits : List Commit} {Qs : List (List (Entry α))} {b : σ}
    (carried : Search.Carried (s.disjunctions.decisions s.config.order) commits Qs)
    (owned : S.custody.owns (Qs.flatten + s.baselineEntries) b)
    (last : ∃ b₀, Backend.updateVariables b₀ = (.ok (), b)) :
    s.Fulfils (choices s.disjunctions.size commits) (Backend.value b) S.tolerance := by
  have picks := carried.picks
  rw [← s.inOrder_choices carried.decided] at picks
  obtain ⟨selects, texts⟩ := (s.picks_inOrder (length_choices _ _) _).mp picks
  obtain ⟨b₀, update⟩ := last
  have satisfied (e : Entry α) (he : e ∈ (Qs.flatten + s.baselineEntries : Multiset (Entry α))) :=
    S.update_sound b₀ b update e (Multiset.mem_of_le owned he)
  refine ⟨selects, fun c hc => ?_, fun i d j alternative hd hj ha c hc => ?_⟩
  · rw [← s.texts_baselineEntries] at hc
    obtain ⟨e, he, rfl⟩ := List.mem_map.mp hc
    exact satisfied e (Multiset.mem_add.mpr (Or.inr he))
  · have hc := s.mem_chosen hd hj ha hc
    rw [← texts] at hc
    obtain ⟨e, he, rfl⟩ := Multiset.mem_map.mp hc
    exact satisfied e (Multiset.mem_add.mpr (Or.inl he))

/-- A system with the values that were recorded for a solution. -/
theorem shows_keep {commits : List Commit} (stats : Stats)
    (within : s.Within s.registry.contains)
    (fulfils : s.Fulfils (choices s.disjunctions.size commits) (Backend.value s.backend)
      S.tolerance) :
    (s.keep commits stats).2.Shows (s.keep commits stats).1 (Backend.value s.backend)
      S.tolerance := by
  have solved (v : Variable) : (s.keep commits stats).2.registry.solved.get? v =
      if s.registry.contains v then some (Backend.value s.backend v) else none :=
    Registry.solved_recordValues _
  have values (name : String) : (s.keep commits stats).1.values.get? name =
      (s.handle? name).map (Backend.value s.backend) := Table.get?_mapValues _ _ _
  refine ⟨fulfils.moved rfl rfl, within.mono rfl rfl fun v hv => ?_, fun v x found => ?_,
    fun name x found => ?_⟩
  · rw [Table.contains, solved, if_pos hv]
    rfl
  · rw [solved] at found
    split at found
    · next named =>
      cases found
      obtain ⟨name, hname⟩ := Registry.contains_iff.mp named
      have handle : s.handle? name = some v := hname
      exact ⟨rfl, name, hname, by rw [values, handle, Option.map_some]⟩
    · cases found
  · rw [values] at found
    obtain ⟨v, named, rfl⟩ := Option.map_eq_some_iff.mp found
    refine ⟨v, named, ?_⟩
    rw [solved, if_pos (Registry.contains_iff.mpr ⟨name, named⟩)]

def solution? (s : ChoiceSystem σ α) : Call α → Option (Solution α)
  | .solve =>
    match s.solve.1 with
    | .ok (.satisfied solution) => some solution
    | _ => none
  | _ => none

def lastSolution? (s : ChoiceSystem σ α) : List (Call α) → Option (Solution α)
  | [] => none
  | call :: calls => (lastSolution? (s.after call) calls).or (s.solution? call)

structure Current (S : Sound σ) (s : ChoiceSystem σ α) (last : Option (Solution α)) : Prop where
  guards : Guards S.custody s
  named : s.Within s.registry.contains
  shown : s.registry.solved = Table.empty ∨
    ∃ solution value, last = some solution ∧ s.Shows solution value S.tolerance

/-- The registry may gain names; otherwise nothing that is shown has changed. -/
theorem Current.moved {last : Option (Solution α)} (h : Current S s last)
    (guards : Guards S.custody s')
    (baseline : s'.baseline = s.baseline) (disjunctions : s'.disjunctions = s.disjunctions)
    (solved : s'.registry.solved = s.registry.solved)
    (names : ∀ name v, s.handle? name = some v → s'.handle? name = some v) :
    Current S s' last := by
  refine ⟨guards, h.named.mono baseline disjunctions fun v hv => ?_, ?_⟩
  · obtain ⟨name, named⟩ := Registry.contains_iff.mp hv
    exact Registry.contains_iff.mpr ⟨name, names name v named⟩
  · rcases h.shown with empty | ⟨solution, value, reported, shows⟩
    · exact Or.inl (solved.trans empty)
    · exact Or.inr ⟨solution, value, reported, shows.moved baseline disjunctions solved names⟩

theorem Current.addConjunctive {last : Option (Solution α)} (h : Current S s last)
    (c : Constraint α) : Current S (s.addConjunctive c).2 last := by
  have guards : Guards S.custody (s.addConjunctive c).2 := h.guards.after (.addConjunctive c)
  have grown := grown h.guards c
  generalize (s.addConjunctive c).2 = s' at grown guards ⊢
  cases grown with
  | refused => exact h
  | blocked usable _ => exact h.moved guards rfl rfl rfl fun _ _ named => named
  | taken usable checked owned =>
    refine ⟨guards, ⟨fun c' hc' => ?_, h.named.disjunctions⟩, Or.inl rfl⟩
    simp only [Baseline.constraints, List.map_append, List.map_cons, List.map_nil,
      List.mem_append, List.mem_singleton] at hc'
    rcases hc' with old | rfl
    · exact h.named.baseline c' old
    · exact Registry.contains_of_check checked
  | failed owned => exact ⟨guards, h.named.mono rfl rfl fun _ hv => hv, Or.inl rfl⟩

/-- A solve that finds a solution shows that one, any other one shows nothing or what was shown. -/
theorem Current.solve {last : Option (Solution α)} (h : Current S s last) :
    Current S s.solve.2 ((s.solution? .solve).or last) := by
  have guards : Guards S.custody s.solve.2 := h.guards.after .solve
  have solved := solved h.guards
  unfold solution?
  generalize s.solve = answer at solved guards ⊢
  cases solved with
  | discarded => exact h
  | blocked usable stuck _ => exact h.moved guards rfl rfl rfl fun _ _ named => named
  | nothing unsolved owned => exact ⟨guards, h.named.mono rfl rfl fun _ hv => hv, Or.inl rfl⟩
  | @found commits Qs backend pruner stats usable carried owned last =>
    refine ⟨guards, h.named.mono rfl rfl fun _ hv => hv,
      Or.inr ⟨_, Backend.value backend, rfl, ?_⟩⟩
    exact shows_keep stats (h.named.mono rfl rfl fun _ hv => hv)
      ((fulfils_of_carried carried owned last).moved rfl rfl)

theorem Current.after {last : Option (Solution α)} (h : Current S s last) (call : Call α) :
    Current S (s.after call) ((s.solution? call).or last) := by
  have guards := h.guards.after call
  cases call with
  | newVariable name =>
    rcases s.newVariable_cases name with same | ⟨registry, run, moved⟩
    · rw [ChoiceSystem.after, same]
      exact h
    · rw [ChoiceSystem.after, moved] at guards ⊢
      exact h.moved guards rfl rfl (Registry.solved_register run)
        fun _ _ => Registry.handle?_register run
  | registerVariable name v =>
    rcases s.registerVariable_cases name v with same | ⟨registry, run, moved⟩
    · rw [ChoiceSystem.after, same]
      exact h
    · rw [ChoiceSystem.after, moved] at guards ⊢
      exact h.moved guards rfl rfl (Registry.solved_register run)
        fun _ _ => Registry.handle?_register run
  | addConjunctive c => exact h.addConjunctive c
  | addDisjunction label alternatives =>
    rcases s.addDisjunction_cases label alternatives with same | ⟨d, -, checked, moved⟩
    · rw [ChoiceSystem.after, same]
      exact h
    · rw [ChoiceSystem.after, moved] at guards ⊢
      refine ⟨guards, ⟨h.named.baseline, fun d' hd' => ?_⟩, Or.inl rfl⟩
      rcases List.mem_append.mp hd' with old | new
      · exact h.named.disjunctions d' old
      · rw [List.mem_singleton.mp new]
        exact fun c hc v hv => Registry.contains_of_checkAll checked c hc v hv
  | setConfig config => exact h.moved guards rfl rfl rfl fun _ _ named => named
  | solve => exact h.solve

theorem current_afterAll {last : Option (Solution α)} (h : Current S s last)
    (calls : List (Call α)) :
    Current S (s.afterAll calls) ((s.lastSolution? calls).or last) := by
  induction calls generalizing s last with
  | nil => exact h
  | cons call calls ih =>
    have later := ih (h.after call)
    rw [← Option.or_assoc] at later
    exact later

structure Displays (s : ChoiceSystem σ α) (solution : Solution α) : Prop where
  kept : ∀ name x, solution.values.get? name = some x → s.value name = .ok x
  current : ∀ name x, s.value name = .ok x → ∃ v old, s.handle? name = some v ∧
    s.handle? old = some v ∧ solution.values.get? old = some x

structure Reported (S : Sound σ) (s : ChoiceSystem σ α) (last : Option (Solution α)) : Prop where
  solved : ∀ solution, s.solve.1 = .ok (.satisfied solution) →
    s.Sustains solution.choices solution.values.get? S.tolerance
  shown : ∀ name x, s.value name = .ok x → ∃ solution, last = some solution ∧
    s.Displays solution ∧
    s.Sustains solution.choices (fun name => (s.value name).toOption) S.tolerance
  listed : ∀ name x, (name, x) ∈ s.values ↔ s.value name = .ok x

omit [BackendOver σ α] in
theorem Shows.displays {solution : Solution α} {value : Variable → α} {tolerance : α}
    (h : s.Shows solution value tolerance) : s.Displays solution := by
  constructor
  · intro name x found
    exact Registry.value_eq_ok_iff.mpr (h.kept name x found)
  · intro name x found
    obtain ⟨v, named, here⟩ := Registry.value_eq_ok_iff.mp found
    obtain ⟨-, old, earlier, shown⟩ := h.recorded v x here
    exact ⟨v, old, named, earlier, shown⟩

omit [BackendOver σ α] in
theorem Sustains.moved {choices : List Nat} {shown : String → Option α} {tolerance : α}
    (h : s.Sustains choices shown tolerance) (baseline : s'.baseline = s.baseline)
    (disjunctions : s'.disjunctions = s.disjunctions)
    (names : ∀ name, s'.handle? name = s.handle? name) : s'.Sustains choices shown tolerance := by
  have reads (value : Variable → α) : s'.Reads shown value ↔ s.Reads shown value := by
    simp only [Reads, names]
  obtain ⟨value, readable⟩ := h.readable
  exact ⟨⟨value, (reads value).mpr readable⟩,
    fun value' h' => (h.fulfils value' ((reads value').mp h')).moved baseline disjunctions⟩

theorem Current.reported {last : Option (Solution α)} (h : Current S s last) :
    Reported S s last := by
  refine ⟨fun solution answer => ?_, fun name x found => ?_, fun name x => Registry.mem_values⟩
  · have solved := solved h.guards
    generalize s.solve = result at *
    cases solved with
    | discarded gone => cases answer
    | blocked usable stuck guards => cases answer
    | nothing unsolved owned => exact absurd answer (unsolved solution)
    | @found commits Qs backend pruner stats usable carried owned last =>
      cases answer
      have fulfils := fulfils_of_carried carried owned last
      have shows := shows_keep stats
        (s := { s.clearValues with kept := [], backend := backend, pruner := pruner })
        (h.named.mono rfl rfl fun _ hv => hv) (fulfils.moved rfl rfl)
      exact shows.sustains_solution.moved rfl rfl fun _ => rfl
  · rcases h.shown with empty | ⟨solution, value, reported, shows⟩
    · obtain ⟨v, -, here⟩ := Registry.value_eq_ok_iff.mp found
      rw [empty] at here
      cases here
    · exact ⟨solution, reported, shows.displays, shows.sustains_values⟩

/-- Whatever calls came before and whichever of the backend's answers were errors: a solve reports
values that satisfy what is required, and as long as values are shown they are those of the last
solution and still do. -/
theorem reported_afterAll (S : Sound σ) (b : σ) (config : Config) (calls : List (Call α)) :
    Reported S ((ofBackend b config).afterAll calls)
      ((ofBackend b config).lastSolution? calls) := by
  have guards : Guards S.custody (ofBackend b config) :=
    guards_of_kept_nil rfl (Multiset.zero_le _)
  have start : Current S (ofBackend b config) none := ⟨guards, ⟨nofun, nofun⟩, Or.inl rfl⟩
  have current := current_afterAll start calls
  rw [Option.or_none] at current
  exact current.reported

def renamedCalls : List (Call Extended) :=
  let x : Expression Extended := .ofVariable ⟨0⟩
  let y : Expression Extended := .ofVariable ⟨1⟩
  [.newVariable "x", .newVariable "y",
    .addConjunctive (.relate (.sum [(⟨0⟩, 1), (⟨1⟩, 1)]) .equal (.finite 5)),
    .addDisjunction none [[.relate x .atLeast (.finite 6), .relate y .atLeast 0],
      [.relate x .atMost (.finite 3), .relate y .atMost (.finite 2)]],
    .solve, .registerVariable "z" ⟨0⟩]

def renamed : ChoiceSystem Desk Extended :=
  (ofBackend Desk.empty ⟨.off, .registration, none⟩).afterAll renamedCalls

/-- The first alternative asks for more than there is, so the second one decides the values. They
are those of the exact solver, which meet what is required without any tolerance. -/
theorem reported_renamed :
    renamed.values = [("x", 3), ("y", 2), ("z", 3)] ∧ renamed.baseline.size = 1 ∧
    ∃ last, last.choices = [1] ∧ last.stats.refused = 1 ∧
      Reported Desk.sound renamed (some last) := by
  refine ⟨by decide +kernel, by decide +kernel, ?_⟩
  have counted : ((ofBackend Desk.empty ⟨.off, .registration, none⟩).lastSolution? renamedCalls).map
      (fun last => (last.choices, last.stats.refused)) = some ([1], 1) := by decide +kernel
  have reported := reported_afterAll Desk.sound Desk.empty ⟨.off, .registration, none⟩ renamedCalls
  obtain ⟨last, found, same⟩ := Option.map_eq_some_iff.mp counted
  obtain ⟨choices, refused⟩ := Prod.mk.inj same
  exact ⟨last, choices, refused, found ▸ reported⟩

end LinearChoice.ChoiceSystem
