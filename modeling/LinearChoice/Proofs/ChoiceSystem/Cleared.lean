import LinearChoice.Proofs.ChoiceSystem.Custody
import LinearChoice.Proofs.ChoiceSystem.Layers
import LinearChoice.Proofs.ChoiceSystem.Mirror
import LinearChoice.Proofs.Search.Poised

/-!
# Taking back what is kept

On a backend that removes whatever it holds, the kept alternatives always come
off, and then nothing is left of them: the backend holds what was in it at
first and the baseline, and the pruner has committed the baseline.
-/

set_option autoImplicit false

namespace LinearChoice.ChoiceSystem

open Search (Poised)

variable {σ α : Type} [ExtendedScalar α] [Numeral α] [BackendOver σ α] {K : Reliable σ}
  {pre : Multiset (Entry α)} {s : ChoiceSystem σ α}

structure Cleared (K : Reliable σ) (pre : Multiset (Entry α)) (s : ChoiceSystem σ α) : Prop where
  kept : s.kept = []
  poised : Poised K s.config.prune s.state (pre + s.baselineEntries) s.baseline.constraints

omit [Numeral α] in
theorem Cleared.constraints (h : Cleared K pre s) :
    K.constraints s.backend = pre.map Prod.snd + s.baseline.constraints := by
  rw [Contract.constraints, show K.held s.backend = _ from h.poised.held, Multiset.map_add,
    Multiset.map_coe, texts_baselineEntries]

omit [ExtendedScalar α] [Numeral α] in
theorem retractAll_reliable (layers : List Commit) {Qs : List (List (Entry α))}
    (ids : layers.map Commit.constraints = Qs.map (List.map Prod.fst)) {P : Multiset (Entry α)}
    (state : Search.State σ α) (held : K.held state.backend = Qs.flatten + P) :
    (retractAll layers state).1 = .ok () := by
  induction layers generalizing Qs state with
  | nil => rfl
  | cons c layers ih =>
    cases Qs with
    | nil => cases ids
    | cons Q Qs =>
      rw [List.map_cons, List.map_cons, List.cons.injEq] at ids
      rw [List.flatten_cons, ← Multiset.coe_add, add_assoc] at held
      obtain ⟨b, run, left⟩ := K.removeAll_run Q held
      rw [← ids.1] at run
      simp only [retractAll, Search.State.retract, run]
      exact ih ids.2 _ left

structure Upheld (K : Reliable σ) (pre : Multiset (Entry α)) (s : ChoiceSystem σ α) : Prop where
  guards : Guards (K.custody pre) s
  mirrors : Mirrors s

theorem Upheld.after (h : Upheld K pre s) (call : Call α) : Upheld K pre (s.after call) :=
  ⟨h.guards.after call, h.mirrors.after call⟩

theorem upheld_ofBackend (K : Reliable σ) (b : σ) (config : Config) :
    Upheld K (K.held b) (ofBackend b config) :=
  ⟨guards_of_kept_nil rfl (add_zero (K.held b)).symm, mirrors_of_kept_nil rfl rfl⟩

theorem upheld_afterAll (K : Reliable σ) (b : σ) (config : Config) (calls : List (Call α)) :
    Upheld K (K.held b) ((ofBackend b config).afterAll calls) :=
  afterAll_invariant (upheld_ofBackend K b config) (fun _ call h => h.after call) calls

theorem Upheld.retractKept (h : Upheld K pre s) :
    ∃ backend pruner, s.retractKept =
        (.ok (), { s with kept := [], backend := backend, pruner := pruner }) ∧
      Cleared K pre { s with kept := [], backend := backend, pruner := pruner } := by
  obtain ⟨Qs, ids, held⟩ := h.guards
  have went : (retractAll s.kept ⟨s.backend, s.pruner, Journal.empty⟩).1 = .ok () :=
    retractAll_reliable s.kept ids ⟨s.backend, s.pruner, Journal.empty⟩
      (held.trans (add_left_comm _ _ _))
  obtain ⟨mirrors, none⟩ := h.mirrors.retractKept
  obtain ⟨outcome, kept, backend, pruner, run, guards, -⟩ := h.guards.retractKept
  have ok : s.retractKept.1 = .ok () := by
    unfold ChoiceSystem.retractKept
    dsimp only
    rw [went]
    rfl
  rw [run] at mirrors none ok
  obtain rfl : outcome = .ok () := ok
  obtain rfl : kept = [] := none rfl
  exact ⟨backend, pruner, run, rfl, guards.owns_baseline rfl, mirrors.pruner rfl⟩

/-- An addition that is asked of the backend is asked of one that holds the baseline and no
alternative. -/
theorem Upheld.addConjunctive_cases (h : Upheld K pre s) (c : Constraint α) :
    (s.addConjunctive c).2 = s ∨
    ∃ b p, K.constraints b = s.baseline.constraints + pre.map Prod.snd ∧
      s.registry.check c = .ok () ∧
      ((∃ id b', Backend.addConstraint b c = (.ok id, b') ∧
          (s.addConjunctive c).2 =
            { s.clearValues with
              kept := []
              backend := b'
              baseline := ⟨s.baseline.held ++ [(c, id)]⟩
              pruner := p }) ∨
        ∃ e b' discarded, Backend.addConstraint b c = (.error e, b') ∧
          (s.addConjunctive c).2 =
            { s.clearValues with
              kept := [], backend := b', pruner := p, discarded := discarded }) := by
  obtain ⟨b, p, run', cleared⟩ := h.retractKept
  rcases s.addConjunctive_cases c with
    same | ⟨-, checked, ⟨e, s', run, -⟩ | ⟨s', run, result⟩⟩
  · exact Or.inl same
  · rw [run] at run'
    cases run'
  · rw [run] at run'
    cases run'
    have held : K.constraints b = s.baseline.constraints + pre.map Prod.snd :=
      cleared.constraints.trans (add_comm _ _)
    have there : ({ s with kept := [], backend := b, pruner := p } :
      ChoiceSystem σ α).clearValues.backend = b := rfl
    rw [extend, there] at result
    cases add : Backend.addConstraint b c with
    | mk outcome b' =>
      rw [add] at result
      cases outcome with
      | ok id => exact Or.inr ⟨b, _, held, checked, Or.inl ⟨id, b', add, result⟩⟩
      | error e => exact Or.inr ⟨b, p, held, checked, Or.inr ⟨e, b', _, add, result⟩⟩

end LinearChoice.ChoiceSystem
