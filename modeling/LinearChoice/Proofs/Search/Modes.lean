import LinearChoice.Proofs.Search.InStep
import LinearChoice.Proofs.Search.Outline
import LinearChoice.Proofs.Search.Poised

/-!
# Searches under two modes

On a backend that decides, an alternative that the pruner rejects would have
been refused, as long as the pruner rejects nothing feasible. The backend is
then asked for different things under different modes, but the outline of the
search is the same.
-/

set_option autoImplicit false

namespace LinearChoice.Search

variable {σ α : Type} [ExtendedScalar α] [BackendOver σ α] {D : Deciding σ} {mode mode' : PruneMode}
  {pre : Multiset (Constraint α)} {s t : State σ α} {H H' : Multiset (Entry α)}
  {cs : List (Constraint α)} {d : DisjunctionId × Disjunction α}
  {ds : List (DisjunctionId × Disjunction α)}

def Cautious (D : Deciding σ) (mode : PruneMode) (pre : Multiset (Constraint α)) :
    List (DisjunctionId × Disjunction α) → List (Constraint α) → Prop
  | [], _ => True
  | d :: ds, cs => ∀ alternative ∈ d.2.alternatives,
    (∀ conflict, ((Pruner.empty mode).commit cs).check alternative = .error conflict →
      ¬D.feasible (alternative + (cs + pre))) ∧
    Cautious D mode pre ds (cs ++ alternative)

theorem cautious_off (ds : List (DisjunctionId × Disjunction α)) (cs : List (Constraint α)) :
    Cautious D .off pre ds cs := by
  induction ds generalizing cs with
  | nil => trivial
  | cons d ds ih =>
    intro alternative _
    refine ⟨fun conflict rejected => ?_, ih _⟩
    have off : ((Pruner.empty .off).commit cs).mode = .off :=
      (Pruner.extends_commit (Pruner.empty .off) cs).mode
    rw [Pruner.check, off] at rejected
    cases rejected

/-- A pruner that has committed nothing has nothing to object to. -/
theorem check_nothing (mode : PruneMode) :
    ((Pruner.empty mode).commit []).check ([] : List (Constraint α)) = .ok () := by
  cases mode <;> rfl

def Fits (D : Deciding σ) (M : Multiset (Constraint α)) (alternative : Alternative α) : Prop :=
  alternative = [] ∨ D.feasible (alternative + M)

/-- Whether an alternative is committed does not depend on the mode. -/
theorem Poised.attempt_iff (h : Poised D.reliable mode s H cs)
    (total : D.constraints s.backend = cs + pre) (stable : cs = [] ∨ D.feasible (cs + pre))
    (id : DisjunctionId) (index : Nat) (alternative : Alternative α)
    (sound : ∀ conflict, ((Pruner.empty mode).commit cs).check alternative = .error conflict →
      ¬D.feasible (alternative + (cs + pre))) :
    (∃ (Q : List (Entry α)) (s' : State σ α), s.attempt id index alternative =
        (.ok (.feasible ⟨id, index, Q.map Prod.fst, s.pruner.mark⟩), s') ∧
      Q.map Prod.snd = alternative.reverse ∧ s'.journal = s.journal ∧
      Poised D.reliable mode s' (Q + H) (cs ++ alternative) ∧ Fits D (cs + pre) alternative) ∨
    (∃ verdict s', s.attempt id index alternative = (.ok verdict, s') ∧ verdict.Unfit ∧
      s'.journal = s.journal ∧ Poised D.reliable mode s' H cs ∧
      ¬Fits D (cs + pre) alternative) := by
  rcases h.attempt total id index alternative with
    committed | ⟨conflict, run, rejected⟩ | ⟨n, s', run, journal, poised, some, refused⟩
  · exact Or.inl committed
  · refine Or.inr ⟨_, s, run, trivial, rfl, h, ?_⟩
    rintro (rfl | fits)
    · rcases stable with rfl | feasible
      · rw [check_nothing] at rejected
        cases rejected
      · exact sound conflict rejected (by simpa using feasible)
    · exact sound conflict rejected fits
  · exact Or.inr ⟨_, s', run, trivial, journal, poised, not_or.mpr ⟨some, refused⟩⟩

structure Aligned (D : Deciding σ) (mode mode' : PruneMode) (pre : Multiset (Constraint α))
    (ds : List (DisjunctionId × Disjunction α))
    (i : Multiset (Entry α) × Multiset (Entry α) × List (Constraint α)) (s t : State σ α) :
    Prop where
  left : Poised D.reliable mode s i.1 i.2.2
  right : Poised D.reliable mode' t i.2.1 i.2.2
  texts : i.1.map Prod.snd = i.2.2 + pre
  texts' : i.2.1.map Prod.snd = i.2.2 + pre
  stable : i.2.2 = [] ∨ D.feasible (i.2.2 + pre)
  cautious : Cautious D mode pre ds i.2.2
  cautious' : Cautious D mode' pre ds i.2.2
  journal : s.journal.Alike t.journal

structure Tied (D : Deciding σ) (s t : State σ α) : Prop where
  held : D.constraints s.backend = D.constraints t.backend
  journal : s.journal.Alike t.journal

namespace Aligned

variable {i : Multiset (Entry α) × Multiset (Entry α) × List (Constraint α)}

theorem total (h : Aligned D mode mode' pre ds i s t) :
    D.constraints s.backend = i.2.2 + pre := by
  rw [Contract.constraints, show D.held s.backend = _ from h.left.held, h.texts]

theorem total' (h : Aligned D mode mode' pre ds i s t) :
    D.constraints t.backend = i.2.2 + pre := by
  rw [Contract.constraints, show D.held t.backend = _ from h.right.held, h.texts']

theorem tied (h : Aligned D mode mode' pre ds i s t) : Tied D s t :=
  ⟨h.total.trans h.total'.symm, h.journal⟩

theorem record (h : Aligned D mode mode' pre ds i s t) {e e' : SearchEvent α}
    (same : e.outline = e'.outline) :
    Aligned D mode mode' pre ds i (s.record e) (t.record e') :=
  { h with
    left := h.left.record e
    right := h.right.record e'
    journal := h.journal.record same }

theorem moved (h : Aligned D mode mode' pre ds i s t) {s' t' : State σ α}
    (left : Poised D.reliable mode s' i.1 i.2.2) (right : Poised D.reliable mode' t' i.2.1 i.2.2)
    (journal : s'.journal.Alike t'.journal) : Aligned D mode mode' pre ds i s' t' :=
  { h with left := left, right := right, journal := journal }

end Aligned

omit [ExtendedScalar α] in
theorem Setting.reason_unfit (setting : Setting) {v : Attempt α} (no : v.Unfit) :
    (setting.reason v).isNoCompletion = false := by
  cases v with
  | feasible c => exact no.elim
  | pruned c => rfl
  | infeasible i => rfl

theorem paired_aligned (h : Aligned D mode mode' pre (d :: ds) (H, H', cs) s t)
    (setting : Setting) (index : Nat) {alternative : Alternative α}
    (offered : alternative ∈ d.2.alternatives) :
    Paired setting (Aligned D mode mode' pre) d ds (H, H', cs) index
      (s.attempt d.1 index alternative) (t.attempt d.1 index alternative) := by
  obtain ⟨sound, below⟩ := h.cautious alternative offered
  obtain ⟨sound', below'⟩ := h.cautious' alternative offered
  rcases h.left.attempt_iff h.total h.stable d.1 index alternative sound with
    ⟨Q, s', run, texts, kept, poised, fits⟩ | ⟨v, s', run, no, kept, poised, unfit⟩
  all_goals
    rcases h.right.attempt_iff h.total' h.stable d.1 index alternative sound' with
      ⟨Q', t', run', texts', kept', poised', fits'⟩ | ⟨w, t', run', no', kept', poised', unfit'⟩
    all_goals rw [run, run']
  · have journal : s'.journal.Alike t'.journal := kept ▸ kept' ▸ h.journal
    have more (Q : List (Entry α)) (H : Multiset (Entry α))
      (own : Q.map Prod.snd = alternative.reverse)
        (others : H.map Prod.snd = cs + pre) :
        ((Q : Multiset (Entry α)) + H).map Prod.snd =
          ((cs ++ alternative : List (Constraint α)) : Multiset (Constraint α)) + pre := by
      rw [committed_eq, Multiset.map_add, others, Multiset.map_coe, own, Multiset.coe_reverse]
    have stable : cs ++ alternative = [] ∨
        D.feasible ((cs ++ alternative : List (Constraint α)) + pre) := by
      rcases fits with rfl | fits
      · rw [List.append_nil]
        exact h.stable
      · exact Or.inr (committed_eq cs alternative pre ▸ fits)
    have next : Aligned D mode mode' pre ds (Q + H, Q' + H', cs ++ alternative) s' t' :=
      ⟨poised, poised', more Q H texts h.texts, more Q' H' texts' h.texts', stable, below, below',
        journal⟩
    refine .feasible rfl _ (fun depth => next.record rfl) fun u w node => ?_
    obtain ⟨u', back, same, restored⟩ := node.left.retract
      (c := ⟨d.1, index, Q.map Prod.fst, s.pruner.mark⟩) rfl h.left.mark
    obtain ⟨w', back', same', restored'⟩ := node.right.retract
      (c := ⟨d.1, index, Q'.map Prod.fst, t.pruner.mark⟩) rfl h.right.mark
    have again := h.moved restored restored' (same ▸ same' ▸ node.journal)
    exact ⟨u', w', back, back', again, again.record rfl⟩
  · exact absurd fits unfit'
  · exact absurd fits' unfit
  · have again := h.moved poised poised' (kept ▸ kept' ▸ h.journal)
    refine .unfit no no' (again.record ?_)
    rw [SearchEvent.outline, SearchEvent.outline, setting.reason_unfit no, setting.reason_unfit no']

theorem agree_leaf_aligned {i : Multiset (Entry α) × Multiset (Entry α) × List (Constraint α)}
    (h : Aligned D mode mode' pre [] i s t) :
    Agree (Aligned D mode mode' pre []) (Tied D) i s.leaf t.leaf := by
  unfold State.leaf
  have same := h.total.trans h.total'.symm
  rcases D.update_cases s.backend with ⟨b, run, held, final⟩ | ⟨b, run, held, final⟩
  all_goals
    rcases D.update_cases t.backend with ⟨b', run', held', final'⟩ | ⟨b', run', held', final'⟩
    all_goals rw [run, run']
  · have again := h.moved (h.left.moved held) (h.right.moved held') h.journal
    exact .found rfl again.tied
  · exact absurd (same ▸ final) final'
  · exact absurd (same ▸ final') final
  · exact .exhausted (h.moved (h.left.moved held) (h.right.moved held') h.journal)

/-- Two modes under which nothing feasible is rejected keep in step. -/
theorem inStep_aligned (D : Deciding σ) (mode mode' : PruneMode)
    (pre : Multiset (Constraint α)) (setting : Setting) :
    InStep setting (Aligned D mode mode' pre) (Tied D) where
  attempts _ _ _ _ h := h.journal.attempts
  trial d ds i s t index alternative h found := by
    have aligned : Aligned D mode mode' pre (d :: ds) i
        (s.record (.attempted d.1 index s.pruner)) (t.record (.attempted d.1 index t.pruner)) :=
      h.record rfl
    exact paired_aligned aligned setting index (List.mem_of_getElem? found)
  leaf _ _ _ h := agree_leaf_aligned h

end LinearChoice.Search
