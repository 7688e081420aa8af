import LinearChoice.Proofs.Backend.Shelf
import LinearChoice.Proofs.ChoiceSystem.Cleared
import LinearChoice.Proofs.ChoiceSystem.Values
import LinearChoice.Proofs.Search.Renumbered

/-!
# What becomes of the past

On a determined backend a system answers by what was registered with it and by
nothing else: not by the solves in between, nor by what was refused.
-/

set_option autoImplicit false
set_option linter.unusedSectionVars false

namespace LinearChoice

namespace ChoiceSystem

variable {σ α : Type} [ExtendedScalar α] [Numeral α] [BackendOver σ α] {K : Determined σ}
  {s t : ChoiceSystem σ α}

structure Counterparts (K : Determined σ) (s t : ChoiceSystem σ α) : Prop where
  usable : s.discarded = false
  usable' : t.discarded = false
  names : s.registry.names = t.registry.names
  baseline : s.baseline.constraints = t.baseline.constraints
  disjunctions : s.disjunctions = t.disjunctions
  config : s.config = t.config
  upheld : ∃ pre pre', Upheld K.toReliable pre s ∧ Upheld K.toReliable pre' t ∧
    pre.map Prod.snd = pre'.map Prod.snd

theorem Counterparts.registry (h : Counterparts K s t) :
    s.registry.clearValues = t.registry.clearValues := by
  rw [Registry.clearValues, Registry.clearValues, h.names]

/-- Without what they kept, the two are twins. -/
theorem Counterparts.retractKept (h : Counterparts K s t) :
    ∃ H H' b b' p p',
      s.retractKept = (.ok (), { s with kept := [], backend := b, pruner := p }) ∧
      t.retractKept = (.ok (), { t with kept := [], backend := b', pruner := p' }) ∧
      Search.Twins K s.config.prune H H' s.baseline.constraints ⟨b, p, Journal.empty⟩
        ⟨b', p', Journal.empty⟩ := by
  obtain ⟨pre, pre', upheld, upheld', texts⟩ := h.upheld
  obtain ⟨b, p, run, cleared⟩ := upheld.retractKept
  obtain ⟨b', p', run', cleared'⟩ := upheld'.retractKept
  refine ⟨pre + s.baselineEntries, pre' + t.baselineEntries, b, b', p, p', run, run',
    cleared.poised, ?_, ?_, rfl⟩
  · rw [h.config, h.baseline]
    exact cleared'.poised
  · rw [Multiset.map_add, Multiset.map_add, texts, Multiset.map_coe, Multiset.map_coe,
      texts_baselineEntries, texts_baselineEntries]
    exact congrArg (fun cs : List (Constraint α) => pre'.map Prod.snd + cs) h.baseline

omit [BackendOver σ α] in
theorem conclude_congr [BackendOver σ α]
    {R : Multiset (Entry α) × Multiset (Entry α) × List (Constraint α) →
      Search.State σ α → Search.State σ α → Prop}
    {i : Multiset (Entry α) × Multiset (Entry α) × List (Constraint α)}
    {x y : Search.Outcome × Search.State σ α} (agree : Search.Agree R Search.Indistinct i x y)
    (journal : ∀ u w, R i u w → u.journal = w.journal)
    (names : s.registry.names = t.registry.names) (disjunctions : s.disjunctions = t.disjunctions)
    (config : s.config = t.config) : (s.conclude x).1 = (t.conclude y).1 := by
  cases agree with
  | found same final =>
    simp only [conclude, keep, names, disjunctions, final.values, final.journal,
      choices_eq, same]
  | exhausted related => simp only [conclude, disjunctions, config, journal _ _ related]
  | aborted related => rfl

theorem Counterparts.solve (h : Counterparts K s t) : s.solve.1 = t.solve.1 := by
  obtain ⟨H, H', b, b', p, p', run, run', twins⟩ := h.retractKept
  rw [s.solve_of_retracted h.usable run, t.solve_of_retracted h.usable' run']
  have agree := (Search.inStep_twin K s.config.prune
    ⟨s.config.stepLimit, s.registry.clearValues.displayName⟩).explore
    (s.disjunctions.decisions s.config.order) 0 (i := (H, H', s.baseline.constraints)) twins
  have other : ({ t with kept := [], backend := b', pruner := p' } :
      ChoiceSystem σ α).clearValues.search =
      Search.explore ⟨s.config.stepLimit, s.registry.clearValues.displayName⟩ 0
        (s.disjunctions.decisions s.config.order) ⟨b', p', Journal.empty⟩ := by
    rw [h.config, h.disjunctions, h.registry]
    rfl
  rw [other]
  exact conclude_congr agree (fun _ _ twins => twins.journal) h.names h.disjunctions h.config

theorem Counterparts.addConjunctive (h : Counterparts K s t) (c : Constraint α) :
    (s.addConjunctive c).1 = (t.addConjunctive c).1 := by
  have check : s.registry.check c = t.registry.check c := by
    change s.registry.clearValues.check c = t.registry.clearValues.check c
    rw [h.registry]
  cases checked : s.registry.check c with
  | error e =>
    rw [checked] at check
    rw [addConjunctive_of_refused h.usable checked, addConjunctive_of_refused h.usable' check.symm]
  | ok _ =>
    rw [checked] at check
    obtain ⟨H, H', b, b', p, p', run, run', twins⟩ := h.retractKept
    rw [addConjunctive_of_retracted h.usable checked run,
      addConjunctive_of_retracted h.usable' check.symm run', h.registry]
    have same : K.constraints b = K.constraints b' := twins.constraints
    unfold Baseline.add
    dsimp only
    rcases K.add_alike c same with ⟨id, id', a, a', taken, taken', -⟩ | ⟨e, a, a', no, no', -⟩
    · rw [taken, taken']
      rfl
    · rw [no, no']
      cases e <;> rfl

section Sparing

def condemned (s : ChoiceSystem σ α) : Call α → Bool
  | .addConjunctive c =>
    match (s.addConjunctive c).1 with
    | .error (.baselineInfeasible _) => true
    | _ => false
  | _ => false

def spared (s : ChoiceSystem σ α) : List (Call α) → Bool
  | [] => true
  | call :: calls => !s.condemned call && (s.after call).spared calls

theorem usable_addConjunctive {c : Constraint α} (usable : s.discarded = false)
    (fine : s.condemned (.addConjunctive c) = false) :
    (s.addConjunctive c).2.discarded = false := by
  rcases s.addConjunctive_cases c with
    same | ⟨-, checked, ⟨e, s', run, result⟩ | ⟨s', run, result⟩⟩
  · rw [same, usable]
  · obtain rfl : s.retractKept.2 = s' := congrArg Prod.snd run
    rw [result]
    exact usable
  · have answer := congrArg Prod.fst (addConjunctive_of_retracted usable checked run)
    obtain rfl : s.retractKept.2 = s' := congrArg Prod.snd run
    have there : s.retractKept.2.clearValues.backend = s.retractKept.2.backend := rfl
    rw [condemned, answer] at fine
    dsimp only [Baseline.add] at fine
    rw [result, extend, there]
    cases add : Backend.addConstraint s.retractKept.2.backend c with
    | mk outcome b =>
      cases outcome with
      | ok id => exact usable
      | error e =>
        cases e with
        | unsatisfiable =>
          rw [add] at fine
          cases fine
        | unknownConstraint | duplicateEdit | unknownEdit | requiredEdit | unbounded | internal =>
          rfl

theorem usable_after {call : Call α} (usable : s.discarded = false)
    (fine : s.condemned call = false) : (s.after call).discarded = false := by
  cases call with
  | newVariable name =>
    rcases s.newVariable_cases name with same | ⟨registry, -, moved⟩
    · rwa [ChoiceSystem.after, same]
    · rwa [ChoiceSystem.after, moved]
  | registerVariable name v =>
    rcases s.registerVariable_cases name v with same | ⟨registry, -, moved⟩
    · rwa [ChoiceSystem.after, same]
    · rwa [ChoiceSystem.after, moved]
  | addConjunctive c => exact usable_addConjunctive usable fine
  | addDisjunction label alternatives =>
    rcases s.addDisjunction_cases label alternatives with same | ⟨d, -, -, moved⟩
    · rwa [ChoiceSystem.after, same]
    · rwa [ChoiceSystem.after, moved]
  | setConfig config => exact usable
  | solve => exact s.framed_solve.discarded.trans usable

theorem usable_afterAll {calls : List (Call α)} (usable : s.discarded = false)
    (fine : s.spared calls = true) : (s.afterAll calls).discarded = false := by
  induction calls generalizing s with
  | nil => exact usable
  | cons call calls ih =>
    rw [spared, Bool.and_eq_true, Bool.not_eq_true'] at fine
    exact ih (usable_after usable fine.1) fine.2

end Sparing

section Vouching

structure Vouched (K : Determined σ) (pre : Multiset (Entry α)) (s : ChoiceSystem σ α) : Prop where
  upheld : Upheld K.toReliable pre s
  named : s.Within s.registry.contains
  taken : K.Takes (pre.map Prod.snd) s.baseline.constraints

variable {pre : Multiset (Entry α)}

theorem vouched_ofBackend (K : Determined σ) (b : σ) (config : Config) :
    Vouched K (K.held b) (ofBackend b config) :=
  ⟨upheld_ofBackend K.toReliable b config, ⟨nofun, nofun⟩, trivial⟩

omit [BackendOver σ α] in
theorem Within.registered {registry : Registry α} {name : String} {v : Variable}
    (h : s.Within s.registry.contains) (run : s.registry.register name v = .ok registry)
    {s' : ChoiceSystem σ α} (baseline : s'.baseline = s.baseline)
    (disjunctions : s'.disjunctions = s.disjunctions) : s'.Within registry.contains := by
  refine h.mono baseline disjunctions fun w hw => ?_
  obtain ⟨old, named⟩ := Registry.contains_iff.mp hw
  exact Registry.contains_iff.mpr ⟨old, Registry.handle?_register run named⟩

theorem Vouched.addConjunctive (h : Vouched K pre s) (c : Constraint α) :
    Vouched K pre (s.addConjunctive c).2 := by
  have upheld := h.upheld.after (.addConjunctive c)
  rw [ChoiceSystem.after] at upheld
  rcases h.upheld.addConjunctive_cases c with
    same | ⟨b, p, held, checked, ⟨id, a, add, result⟩ | ⟨e, a, discarded, -, result⟩⟩
  · rwa [same]
  · have taken : K.verdict (K.constraints b) c = .ok () := by rw [← K.add_verdict, add]; rfl
    rw [result] at upheld ⊢
    have constraints := Baseline.constraints_append s.baseline.held c id
    refine ⟨upheld, ⟨fun c' hc' => ?_, h.named.disjunctions⟩, ?_⟩
    · change c' ∈ Baseline.constraints ⟨s.baseline.held ++ [(c, id)]⟩ at hc'
      rw [constraints, List.mem_append, List.mem_singleton] at hc'
      rcases hc' with old | rfl
      · exact h.named.baseline c' old
      · exact Registry.contains_of_check checked
    · change K.Takes _ (Baseline.constraints ⟨s.baseline.held ++ [(c, id)]⟩)
      rw [constraints, K.takes_append]
      exact ⟨h.taken, held ▸ taken, trivial⟩
  · rw [result] at upheld ⊢
    exact ⟨upheld, h.named.mono rfl rfl fun _ hv => hv, h.taken⟩

theorem Vouched.after (h : Vouched K pre s) (call : Call α) : Vouched K pre (s.after call) := by
  have upheld := h.upheld.after call
  cases call with
  | newVariable name =>
    rw [ChoiceSystem.after] at upheld ⊢
    rcases s.newVariable_cases name with same | ⟨registry, run, moved⟩
    · rwa [same]
    · rw [moved] at upheld ⊢
      exact ⟨upheld, h.named.registered run rfl rfl, h.taken⟩
  | registerVariable name v =>
    rw [ChoiceSystem.after] at upheld ⊢
    rcases s.registerVariable_cases name v with same | ⟨registry, run, moved⟩
    · rwa [same]
    · rw [moved] at upheld ⊢
      exact ⟨upheld, h.named.registered run rfl rfl, h.taken⟩
  | addConjunctive c => exact h.addConjunctive c
  | addDisjunction label alternatives =>
    rw [ChoiceSystem.after] at upheld ⊢
    rcases s.addDisjunction_cases label alternatives with same | ⟨d, -, checked, moved⟩
    · rwa [same]
    · rw [moved] at upheld ⊢
      refine ⟨upheld, ⟨h.named.baseline, fun d' hd' => ?_⟩, h.taken⟩
      rcases List.mem_append.mp hd' with old | new
      · exact h.named.disjunctions d' old
      · rw [List.mem_singleton.mp new]
        exact fun c hc v hv => Registry.contains_of_checkAll checked c hc v hv
  | setConfig config => exact ⟨upheld, h.named.mono rfl rfl fun _ hv => hv, h.taken⟩
  | solve =>
    have framed := s.framed_solve
    refine ⟨upheld, h.named.mono framed.baseline framed.disjunctions fun v hv => ?_, ?_⟩
    · change s.solve.2.registry.contains v = true
      rw [Registry.contains, Registry.entries, framed.names]
      exact hv
    · change K.Takes _ s.solve.2.baseline.constraints
      rw [framed.baseline]
      exact h.taken

theorem vouched_afterAll (K : Determined σ) (b : σ) (config : Config) (calls : List (Call α)) :
    Vouched K (K.held b) ((ofBackend b config).afterAll calls) :=
  afterAll_invariant (vouched_ofBackend K b config) (fun _ call h => h.after call) calls

end Vouching

section Anew

def registrations {σ : Type} (s : ChoiceSystem σ α) : List (Call α) :=
  s.registry.entries.map (fun e => .registerVariable e.1 e.2) ++
    s.baseline.constraints.map .addConjunctive ++
    s.disjunctions.registered.map fun d => .addDisjunction d.label d.alternatives

def anew (s : ChoiceSystem σ α) (b : σ) : ChoiceSystem σ α :=
  (ofBackend b s.config).afterAll s.registrations

structure Registers (config : Config) (names : List (String × Variable))
    (cs : List (Constraint α)) (ds : List (Disjunction α)) (s : ChoiceSystem σ α) : Prop where
  usable : s.discarded = false
  kept : s.kept = []
  config : s.config = config
  names : s.registry.entries = names
  baseline : s.baseline.constraints = cs
  disjunctions : s.disjunctions.registered = ds

variable {config : Config} {names : List (String × Variable)} {cs : List (Constraint α)}
  {ds : List (Disjunction α)} {pre : Multiset (Entry α)}

theorem Registers.names_append (more : List (String × Variable))
    (h : Registers config names cs ds s) (nodup : ((names ++ more).map Prod.fst).Nodup) :
    Registers config (names ++ more) cs ds
      (s.afterAll (more.map fun e => .registerVariable e.1 e.2)) := by
  induction more generalizing names s with
  | nil =>
    rw [List.append_nil]
    exact h
  | cons e more ih =>
    rw [List.append_cons] at nodup ⊢
    have new : s.registry.names.get? e.1 = none := by
      rw [Table.get?_eq_none_iff]
      have apart := nodup
      rw [List.map_append, List.map_append, List.nodup_append, List.nodup_append] at apart
      intro old
      change e.1 ∈ s.registry.entries.map Prod.fst at old
      rw [h.names] at old
      exact apart.1.2.2 _ old _ List.mem_cons_self rfl
    have run : s.registerVariable e.1 e.2 =
        (.ok (), { s with registry := { s.registry with names := s.registry.names.insert e.1 e.2 } })
        := by
      rw [registerVariable, if_neg (by simp [h.usable]), Registry.register,
        if_neg (by simp [Table.contains, new])]
    have step : Registers config (names ++ [e]) cs ds
        (s.after (.registerVariable e.1 e.2)) := by
      rw [ChoiceSystem.after, run]
      refine ⟨h.usable, h.kept, h.config, ?_, h.baseline, h.disjunctions⟩
      change (s.registry.names.insert e.1 e.2).entries = names ++ [e]
      rw [Table.entries_insert_new _ _ _ new]
      exact congrArg (· ++ [e]) h.names
    exact ih step nodup

/-- Whatever is taken by a backend that holds the same is taken again. -/
theorem Registers.baseline_append (more : List (Constraint α))
    (h : Registers config names cs ds s) (upheld : Upheld K.toReliable pre s)
    (named : ∀ c ∈ more, ∀ v ∈ c.support, v ∈ names.map Prod.snd)
    (taken : K.Takes (cs + pre.map Prod.snd) more) :
    Registers config names (cs ++ more) ds (s.afterAll (more.map .addConjunctive)) := by
  induction more generalizing cs s with
  | nil =>
    rw [List.append_nil]
    exact h
  | cons c more ih =>
    obtain ⟨own, others⟩ := List.forall_mem_cons.mp named
    obtain ⟨verdict, later⟩ := taken
    rw [List.append_cons]
    have checked : s.registry.check c = .ok () := by
      apply Registry.check_of_contains
      intro v hv
      rw [← Registry.mem_snd_entries, h.names]
      exact own v hv
    have later' := upheld.after (.addConjunctive c)
    obtain ⟨b, p, run, cleared⟩ := upheld.retractKept
    have held : K.constraints b = cs + pre.map Prod.snd := by
      rw [← h.baseline, add_comm]
      exact cleared.constraints
    have there : ({ s with kept := [], backend := b, pruner := p } :
      ChoiceSystem σ α).clearValues.backend = b := rfl
    have result := congrArg Prod.snd (addConjunctive_of_retracted h.usable checked run)
    rw [extend, there] at result
    change (s.after (.addConjunctive c)) = _ at result
    rcases K.add_cases b c with ⟨id, a, add, -, -⟩ | ⟨e, a, -, -, refused⟩
    · rw [add] at result
      refine ih (s := s.after (.addConjunctive c)) ?_ later' others ?_
      · rw [result]
        refine ⟨h.usable, rfl, h.config, h.names, ?_, h.disjunctions⟩
        change Baseline.constraints ⟨s.baseline.held ++ [(c, id)]⟩ = _
        rw [Baseline.constraints_append, ← h.baseline]
      · rw [Search.committed_eq, Multiset.coe_singleton, Multiset.singleton_add]
        exact later
    · rw [held, verdict] at refused
      cases refused

theorem Registers.disjunctions_append (more : List (Disjunction α))
    (h : Registers config names cs ds s)
    (named : ∀ d ∈ more, ∀ c ∈ d.constraints, ∀ v ∈ c.support, v ∈ names.map Prod.snd) :
    Registers config names cs (ds ++ more)
      (s.afterAll (more.map fun d => .addDisjunction d.label d.alternatives)) := by
  induction more generalizing ds s with
  | nil =>
    rw [List.append_nil]
    exact h
  | cons d more ih =>
    obtain ⟨own, others⟩ := List.forall_mem_cons.mp named
    rw [List.append_cons]
    refine ih ?_ others
    have checked : s.registry.checkAll d.constraints = .ok () := by
      apply Registry.checkAll_of_contains
      intro c hc v hv
      rw [← Registry.mem_snd_entries, h.names]
      exact own c hc v hv
    have made : Disjunction.ofAlternatives d.label d.alternatives = .ok d := by
      rw [Disjunction.ofAlternatives, dif_neg d.nonempty]
    change Registers config names cs (ds ++ [d]) (s.addDisjunction d.label d.alternatives).2
    rw [addDisjunction, made]
    dsimp only
    rw [insertDisjunction, if_neg (by simp [h.usable]), checked]
    exact ⟨h.usable, h.kept, h.config, h.names, h.baseline,
      congrArg (· ++ [d]) h.disjunctions⟩

theorem Vouched.registers (h : Vouched K pre s) {b : σ}
    (same : K.constraints b = pre.map Prod.snd) :
    Registers s.config s.registry.entries s.baseline.constraints s.disjunctions.registered
      (s.anew b) := by
  have known {v : Variable} (hv : s.registry.contains v = true) :
      v ∈ s.registry.entries.map Prod.snd := Registry.mem_snd_entries.mpr hv
  have blank : Registers s.config [] [] [] (ofBackend b s.config) := ⟨rfl, rfl, rfl, rfl, rfl, rfl⟩
  have named := blank.names_append _ s.registry.names.nodup_keys
  have upheld := upheld_afterAll K.toReliable b s.config
    (s.registry.entries.map fun e => .registerVariable e.1 e.2)
  rw [anew, registrations, afterAll_append, afterAll_append]
  refine Registers.disjunctions_append _
    (named.baseline_append _ upheld (fun c hc v hv => ?_) ?_) fun d hd c hc v hv => ?_
  · exact known (h.named.baseline c hc v hv)
  · rw [Multiset.coe_nil, zero_add]
    rw [show (K.held b).map Prod.snd = _ from same]
    exact h.taken
  · exact known (h.named.disjunctions d hd c hc v hv)

theorem Registers.counterparts {t : ChoiceSystem σ α} {pre' : Multiset (Entry α)}
    (h : Registers s.config s.registry.entries s.baseline.constraints s.disjunctions.registered t)
    (usable : s.discarded = false) (upheld : Upheld K.toReliable pre s)
    (upheld' : Upheld K.toReliable pre' t) (texts : pre.map Prod.snd = pre'.map Prod.snd) :
    Counterparts K s t where
  usable := usable
  usable' := h.usable
  names := by
    have entries := h.names
    cases names : s.registry.names
    cases names' : t.registry.names
    simp only [Registry.entries, names, names'] at entries
    simp only [entries]
  baseline := h.baseline.symm
  disjunctions := congrArg Disjunctions.mk h.disjunctions.symm
  config := h.config.symm
  upheld := ⟨pre, pre', upheld, upheld', texts⟩

structure Forgets (s fresh : ChoiceSystem σ α) : Prop where
  registered : Registers s.config s.registry.entries s.baseline.constraints
    s.disjunctions.registered fresh
  solve : s.solve.1 = fresh.solve.1
  addConjunctive : ∀ c, (s.addConjunctive c).1 = (fresh.addConjunctive c).1
  solve_solve : s.solve.2.solve.1 = s.solve.1
  solve_addConjunctive : ∀ c, (s.solve.2.addConjunctive c).1 = (s.addConjunctive c).1

/-- On a determined backend nothing is left of earlier solves, of refused calls and of what was
configured before. -/
theorem forgets_afterAll (K : Determined σ) (b b' : σ) (same : K.constraints b' = K.constraints b)
    (config : Config) (calls : List (Call α)) (spared : (ofBackend b config).spared calls = true) :
    Forgets ((ofBackend b config).afterAll calls)
      (((ofBackend b config).afterAll calls).anew b') := by
  have vouched := vouched_afterAll K b config calls
  have usable : ((ofBackend b config).afterAll calls).discarded = false :=
    usable_afterAll rfl spared
  generalize (ofBackend b config).afterAll calls = s at vouched usable
  have registers := vouched.registers same
  have apart : Counterparts K s (s.anew b') :=
    registers.counterparts usable vouched.upheld (upheld_afterAll K.toReliable b' _ _) same.symm
  have framed := s.framed_solve
  have again : Counterparts K s.solve.2 s :=
    ⟨framed.discarded.trans usable, usable, framed.names, congrArg _ framed.baseline,
      framed.disjunctions, framed.config, _, _, vouched.upheld.after .solve, vouched.upheld, rfl⟩
  exact ⟨registers, apart.solve, apart.addConjunctive, again.solve, again.addConjunctive⟩

def busy : List Call :=
  [.newVariable "x", .addConjunctive (.relate (.ofVariable ⟨0⟩) .atMost (-1)),
    .addDisjunction (some "d") [[.relate (.ofVariable ⟨0⟩) .atLeast (-2)], []], .solve,
    .addConjunctive (.relate (.ofVariable ⟨1⟩) .atMost 3),
    .addConjunctive (.relate (.ofVariable ⟨0⟩) .atMost 3),
    .setConfig ⟨.bounds, .fewestAlternatives, some 7⟩, .solve]

/-- Two constraints have room, and the one that is kept after a solve makes way for another. -/
theorem forgets_busy :
    ((ofBackend (Shelf.empty 2) Config.standard).afterAll busy).baseline.size = 2 ∧
    (ofBackend (Shelf.empty 2) Config.standard).spared busy = true ∧
    Forgets ((ofBackend (Shelf.empty 2) Config.standard).afterAll busy)
      (((ofBackend (Shelf.empty 2) Config.standard).afterAll busy).anew (Shelf.empty 2)) := by
  have spared : (ofBackend (Shelf.empty 2) Config.standard).spared busy = true := by
    decide +kernel
  exact ⟨by decide +kernel, spared,
    forgets_afterAll (Shelf.determined 2) (Shelf.empty 2) (Shelf.empty 2) rfl Config.standard busy
      spared⟩

end Anew

end ChoiceSystem

end LinearChoice
