import LinearChoice.Proofs.Backend.Determined
import LinearChoice.Proofs.Search.InStep
import LinearChoice.Proofs.Search.Poised

/-!
# Numbers do not matter

On a determined backend a search comes out the same from any state in which the
same constraints are held, whatever numbers they have.
-/

set_option autoImplicit false

namespace LinearChoice.Search

variable {σ α : Type} [ExtendedScalar α] [BackendOver σ α] {K : Determined σ} {mode : PruneMode}
  {s t : State σ α}
  {H H' : Multiset (Entry α)} {cs : List (Constraint α)}

structure Twins (K : Determined σ) (mode : PruneMode) (H H' : Multiset (Entry α))
    (cs : List (Constraint α)) (s t : State σ α) : Prop where
  left : Poised K.toReliable mode s H cs
  right : Poised K.toReliable mode t H' cs
  texts : H.map Prod.snd = H'.map Prod.snd
  journal : s.journal = t.journal

structure Indistinct (s t : State σ α) : Prop where
  values : Backend.value s.backend = Backend.value t.backend
  journal : s.journal = t.journal

namespace Twins

theorem pruner (h : Twins K mode H H' cs s t) : s.pruner = t.pruner :=
  h.left.pruner.trans h.right.pruner.symm

theorem constraints (h : Twins K mode H H' cs s t) :
    K.constraints s.backend = K.constraints t.backend := by
  rw [Contract.constraints, Contract.constraints, h.left.held, h.right.held, h.texts]

theorem record (h : Twins K mode H H' cs s t) (event : SearchEvent α) :
    Twins K mode H H' cs (s.record event) (t.record event) :=
  ⟨h.left.record event, h.right.record event, h.texts, congrArg (·.record event) h.journal⟩

theorem moved (h : Twins K mode H H' cs s t) {b b' : σ} (same : K.held b = K.held s.backend)
    (same' : K.held b' = K.held t.backend) :
    Twins K mode H H' cs { s with backend := b } { t with backend := b' } :=
  ⟨h.left.moved same, h.right.moved same', h.texts, h.journal⟩

end Twins

def Twin (K : Determined σ) (mode : PruneMode) (_ : List (DisjunctionId × Disjunction α))
    (i : Multiset (Entry α) × Multiset (Entry α) × List (Constraint α)) (s t : State σ α) : Prop :=
  Twins K mode i.1 i.2.1 i.2.2 s t

theorem paired_twins (h : Twins K mode H H' cs s t) (setting : Setting)
    (d : DisjunctionId × Disjunction α) (ds : List (DisjunctionId × Disjunction α)) (index : Nat)
    (alternative : Alternative α) :
    Paired setting (Twin K mode) d ds (H, H', cs) index (s.attempt d.1 index alternative)
      (t.attempt d.1 index alternative) := by
  have checks : t.pruner.check alternative = s.pruner.check alternative := by rw [h.pruner]
  unfold State.attempt
  rw [checks]
  cases s.pruner.check alternative with
  | error conflict => exact .unfit trivial trivial (h.record _)
  | ok _ =>
    obtain ⟨refusal, P, P', b, b', run, run', texts, held, held'⟩ :=
      K.addAll_alike alternative [] [] h.constraints
    rw [List.map_nil, List.append_nil] at run run'
    rw [run, run']
    cases refusal with
    | none =>
      refine .feasible rfl (P + H, P' + H', cs ++ alternative) (fun depth => ?_) fun u w below => ?_
      · refine ⟨(h.left.commit held alternative).record _,
          (h.right.commit held' alternative).record _, ?_,
          congrArg (Journal.record · (.committed d.1 index depth)) h.journal⟩
        rw [Multiset.map_add, Multiset.map_add, Multiset.map_coe, Multiset.map_coe, texts, h.texts]
      · obtain ⟨u', back, kept, poised⟩ := below.left.retract
          (c := ⟨d.1, index, P.map Prod.fst, s.pruner.mark⟩) rfl h.left.mark
        obtain ⟨w', back', kept', poised'⟩ := below.right.retract
          (c := ⟨d.1, index, P'.map Prod.fst, t.pruner.mark⟩) rfl h.right.mark
        have twins : Twins K mode H H' cs u' w' :=
          ⟨poised, poised', h.texts, by rw [kept, kept', below.journal]⟩
        exact ⟨u', w', back, back', twins, twins.record _⟩
    | some e =>
      obtain ⟨a, back, restored⟩ := K.removeAll_run P held
      obtain ⟨a', back', restored'⟩ := K.removeAll_run P' held'
      have count : (P.map Prod.fst).length = (P'.map Prod.fst).length := by
        rw [List.length_map, List.length_map, ← List.length_map Prod.snd, texts, List.length_map]
      have twins := h.moved restored restored'
      dsimp only
      rw [back, back', count]
      cases e with
      | unsatisfiable => exact .unfit trivial trivial (twins.record _)
      | unknownConstraint | duplicateEdit | unknownEdit | requiredEdit | unbounded | internal =>
        exact .failed twins

theorem agree_leaf (h : Twins K mode H H' cs s t) :
    Agree (Twin K mode []) Indistinct (H, H', cs) s.leaf t.leaf := by
  have last := K.update_last s.backend
  have last' := K.update_last t.backend
  rw [← h.constraints, ← last] at last'
  have held := K.update s.backend
  have held' := K.update t.backend
  unfold State.leaf
  cases run : Backend.updateVariables s.backend with
  | mk outcome b =>
    cases run' : Backend.updateVariables t.backend with
    | mk outcome' b' =>
      rw [run, run'] at last'
      rw [run] at held
      rw [run'] at held'
      have twins := h.moved held held'
      have same : outcome' = outcome := last'
      subst same
      cases outcome' with
      | ok _ =>
        refine .found rfl ⟨?_, h.journal⟩
        have total : K.constraints b = K.constraints b' := twins.constraints
        change Backend.value b = Backend.value b'
        rw [K.value_reading _ _ run, K.value_reading _ _ run', total]
      | error e =>
        cases e with
        | unsatisfiable => exact .exhausted twins
        | unknownConstraint | duplicateEdit | unknownEdit | requiredEdit | unbounded | internal =>
          exact .aborted twins

theorem inStep_twin (K : Determined σ) (mode : PruneMode) (setting : Setting) :
    InStep setting (Twin K mode) (Indistinct (σ := σ)) where
  attempts _ _ _ _ h := congrArg (fun j => j.stats.attempts) h.journal
  trial d ds i s t index alternative h _ := by
    have twins := h.record (.attempted d.1 index s.pruner)
    have paired := paired_twins twins setting d ds index alternative
    rwa [h.pruner] at paired ⊢
  leaf _ _ _ h := agree_leaf h

end LinearChoice.Search
