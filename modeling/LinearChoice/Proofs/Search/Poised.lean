import LinearChoice.Proofs.Backend.Contract
import LinearChoice.Proofs.Pruner.Undo
import LinearChoice.Proofs.Search.Tried

/-!
# Nodes of a search

What the backend holds and what the pruner has committed at a node of a search,
on a backend that removes whatever it holds.
-/

set_option autoImplicit false

namespace LinearChoice.Search

variable {σ α : Type} [ExtendedScalar α] [BackendOver σ α] {K : Reliable σ} {mode : PruneMode}
  {s : State σ α}
  {H : Multiset (Entry α)} {cs : List (Constraint α)} {alternative : Alternative α}

structure Poised (K : Reliable σ) (mode : PruneMode) (s : State σ α) (H : Multiset (Entry α))
    (cs : List (Constraint α)) : Prop where
  held : K.held s.backend = H
  pruner : s.pruner = (Pruner.empty mode).commit cs

namespace Poised

theorem record (h : Poised K mode s H cs) (event : SearchEvent α) :
    Poised K mode (s.record event) H cs := ⟨h.held, h.pruner⟩

theorem moved (h : Poised K mode s H cs) {b : σ} (same : K.held b = K.held s.backend) :
    Poised K mode { s with backend := b } H cs := ⟨same.trans h.held, h.pruner⟩

/-- An alternative that was added and committed. -/
theorem commit (h : Poised K mode s H cs) {b : σ} {Q : List (Entry α)}
    (held : K.held b = Q + K.held s.backend) (alternative : Alternative α) :
    Poised K mode { s with backend := b, pruner := s.pruner.commit alternative } (Q + H)
      (cs ++ alternative) := by
  refine ⟨held.trans (h.held ▸ rfl), ?_⟩
  rw [Pruner.commit_append, ← h.pruner]

theorem mark (h : Poised K mode s H cs) :
    s.pruner.mark = ((Pruner.empty .off).commit cs).mark := h.pruner ▸ Pruner.mark_commit mode cs

/-- Taking back the latest commitment restores the node from before it. -/
theorem retract {Q : List (Entry α)} (h : Poised K mode s (Q + H) (cs ++ alternative)) {c : Commit}
    (ids : c.constraints = Q.map Prod.fst)
    (mark : c.restore = ((Pruner.empty .off).commit cs).mark) :
    ∃ s', s.retract c = (.ok (), s') ∧ s'.journal = s.journal ∧ Poised K mode s' H cs := by
  obtain ⟨b, run, held⟩ := K.removeAll_run Q h.held
  refine ⟨{ s with backend := b, pruner := s.pruner.undo c.restore },
    by simp only [State.retract, ids, run], rfl, held, ?_⟩
  rw [h.pruner, mark, ← Pruner.mark_commit mode, Pruner.commit_append, Pruner.undo_commit]

end Poised

omit [ExtendedScalar α] in
theorem committed_eq (cs : List (Constraint α)) (alternative : Alternative α)
    (pre : Multiset (Constraint α)) :
    ((cs ++ alternative : List (Constraint α)) : Multiset (Constraint α)) + pre =
      alternative + (cs + pre) := by
  rw [← Multiset.coe_add, add_comm (cs : Multiset (Constraint α)), add_assoc]

section Deciding

variable {D : Deciding σ} {M : Multiset (Constraint α)}

/-- On a backend that decides, an alternative is committed as a whole, or the pruner rejects it, or
the backend refuses it and holds what it held. -/
theorem Poised.attempt (h : Poised D.reliable mode s H cs) (total : D.constraints s.backend = M)
    (id : DisjunctionId) (index : Nat) (alternative : Alternative α) :
    (∃ (Q : List (Entry α)) (s' : State σ α), s.attempt id index alternative =
        (.ok (.feasible ⟨id, index, Q.map Prod.fst, s.pruner.mark⟩), s') ∧
      Q.map Prod.snd = alternative.reverse ∧ s'.journal = s.journal ∧
      Poised D.reliable mode s' (Q + H) (cs ++ alternative) ∧
      (alternative = [] ∨ D.feasible (alternative + M))) ∨
    (∃ conflict, s.attempt id index alternative = (.ok (.pruned conflict), s) ∧
      ((Pruner.empty mode).commit cs).check alternative = .error conflict) ∨
    (∃ n s', s.attempt id index alternative = (.ok (.infeasible n), s') ∧
      s'.journal = s.journal ∧ Poised D.reliable mode s' H cs ∧ alternative ≠ [] ∧
      ¬D.feasible (alternative + M)) := by
  unfold State.attempt
  cases checked : s.pruner.check alternative with
  | error conflict => exact Or.inr (Or.inl ⟨conflict, rfl, h.pruner ▸ checked⟩)
  | ok _ =>
    rcases D.addAll_cases alternative (b := s.backend) [] with
      ⟨Q, b, run, texts, held, all⟩ | ⟨Q, b, run, held, refused⟩
    · rw [List.map_nil, List.append_nil] at run
      rw [total] at all
      left
      exact ⟨Q, { s with backend := b, pruner := s.pruner.commit alternative },
        by simp only [run], texts, rfl, h.commit held alternative, all⟩
    · rw [List.map_nil, List.append_nil] at run
      rw [total] at refused
      obtain ⟨b', back, kept⟩ := D.removeAll_run Q held
      right
      right
      refine ⟨(Q.map Prod.fst).length, { s with backend := b' }, by simp only [run, back], rfl,
        h.moved kept, ?_, refused⟩
      rintro rfl
      cases run

end Deciding

end LinearChoice.Search
