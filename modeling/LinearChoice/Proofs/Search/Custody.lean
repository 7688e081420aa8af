import LinearChoice.Proofs.Backend.Custody
import LinearChoice.Proofs.Choices
import LinearChoice.Proofs.Search.Tried

/-!
# Custody over a search

A search that ends with nothing, or with an error, has handed back all that it
added. One that ends with commitments is in charge of their constraints, one
alternative of every decision, and the backend's last word was in favour.
-/

set_option autoImplicit false

namespace LinearChoice.Search

variable {α : Type}

inductive Carried :
    List (DisjunctionId × Disjunction α) → List Commit → List (List (Entry α)) → Prop
  | nil : Carried [] [] []
  | cons {d : DisjunctionId × Disjunction α} {c : Commit} {Q : List (Entry α)}
      {alternative : Alternative α} {ds : List (DisjunctionId × Disjunction α)} {cs : List Commit}
      {Qs : List (List (Entry α))} (own : c.disjunction = d.1)
      (found : d.2.alternatives[c.alternative]? = some alternative)
      (ids : c.constraints = Q.map Prod.fst) (texts : Q.map Prod.snd = alternative.reverse)
      (rest : Carried ds cs Qs) : Carried (d :: ds) (c :: cs) (Q :: Qs)

namespace Carried

variable {ds : List (DisjunctionId × Disjunction α)} {commits : List Commit}
  {Qs : List (List (Entry α))}

theorem decided (h : Carried ds commits Qs) :
    commits.map Commit.disjunction = ds.map Prod.fst := by
  induction h with
  | nil => rfl
  | cons own found ids texts rest ih => rw [List.map_cons, List.map_cons, own, ih]

theorem ids (h : Carried ds commits Qs) :
    commits.map Commit.constraints = Qs.map (List.map Prod.fst) := by
  induction h with
  | nil => rfl
  | cons own found ids texts rest ih => rw [List.map_cons, List.map_cons, ids, ih]

theorem picks (h : Carried ds commits Qs) :
    Picks ds (commits.map Commit.alternative)
      ((Qs.flatten : Multiset (Entry α)).map Prod.snd) := by
  induction h with
  | nil => exact .nil
  | @cons d c Q alternative ds cs Qs own found ids texts rest ih =>
    rw [List.flatten_cons, ← Multiset.coe_add, Multiset.map_add, Multiset.map_coe, texts,
      Multiset.coe_reverse]
    exact .cons found ih

end Carried

variable {σ : Type} [ExtendedScalar α] [BackendOver σ α] (K : Custody σ)

inductive Returned (P : Multiset (Entry α)) (ds : List (DisjunctionId × Disjunction α)) :
    Outcome × State σ α → Prop
  | found {commits : List Commit} {s : State σ α} {Qs : List (List (Entry α))}
      (carried : Carried ds commits Qs) (owned : K.owns (Qs.flatten + P) s.backend)
      (last : ∃ b, Backend.updateVariables b = (.ok (), s.backend)) :
      Returned P ds (.ok (some commits), s)
  | exhausted {s : State σ α} (owned : K.owns P s.backend) : Returned P ds (.ok none, s)
  | aborted {e : SystemError} {s : State σ α} (owned : K.owns P s.backend) :
      Returned P ds (.error e, s)

variable {K} {P : Multiset (Entry α)} {s s' : State σ α}

omit [ExtendedScalar α] in
theorem owns_retract {c : Commit} {Q : List (Entry α)} (h : K.owns (Q + P) s.backend)
    (ids : c.constraints = Q.map Prod.fst) : K.owns P (s.retract c).2.backend := by
  have back := K.removeAll Q h
  rw [← ids] at back
  exact back

omit [ExtendedScalar α] in
theorem owns_addAll {b : σ} (h : K.owns P b) (cs : List (Constraint α)) :
    ∃ Q : List (Entry α), (Backend.addAll [] cs b).1.2 = Q.map Prod.fst ∧
      K.owns (Q + P) (Backend.addAll [] cs b).2 ∧
      ((Backend.addAll [] cs b).1.1 = none → Q.map Prod.snd = cs.reverse) := by
  simpa using K.addAll (P := P) cs [] (by simpa using h)

/-- The constraints of an alternative that was committed are all in custody. -/
theorem owns_commit (h : K.owns P s.backend) {id : DisjunctionId} {index : Nat}
    {alternative : Alternative α} {commit : Commit}
    (trial : s.attempt id index alternative = (.ok (.feasible commit), s')) :
    ∃ Q : List (Entry α), commit.disjunction = id ∧ commit.alternative = index ∧
      commit.constraints = Q.map Prod.fst ∧ Q.map Prod.snd = alternative.reverse ∧
      K.owns (Q + P) s'.backend := by
  obtain ⟨Q, ids, held, all⟩ := owns_addAll h alternative
  have attempted := attempted s id index alternative
  rw [trial] at attempted
  cases attempted with
  | committed passed run =>
    rw [run] at ids held all
    exact ⟨Q, rfl, rfl, ids, all rfl, held⟩

/-- Nothing of an alternative that was not committed stays in custody. -/
theorem owns_attempt (h : K.owns P s.backend) {id : DisjunctionId} {index : Nat}
    {alternative : Alternative α} {answer : Except SystemError (Attempt α)}
    (trial : s.attempt id index alternative = (answer, s'))
    (kept : ∀ commit, answer ≠ .ok (.feasible commit)) : K.owns P s'.backend := by
  obtain ⟨Q, ids, held, -⟩ := owns_addAll h alternative
  have back := K.removeAll Q held
  rw [← ids] at back
  have attempted := attempted s id index alternative
  rw [trial] at attempted
  cases attempted with
  | pruned rejected => exact h
  | committed => exact absurd rfl (kept _)
  | refused passed run removal | failed passed run removal other | stuck passed run removal =>
    rw [run, removal] at back
    exact back

section Below

variable {d : DisjunctionId × Disjunction α} {ds : List (DisjunctionId × Disjunction α)}
  {setting : Setting} {result : Outcome × State σ α} {depth index : Nat}
  {below : State σ α → Outcome × State σ α}
  (deep : ∀ (P : Multiset (Entry α)) (s : State σ α), K.owns P s.backend →
    Returned K P ds (below s))
  (h : K.owns P s.backend)

include deep h

section Commitment

variable {id : DisjunctionId} {alternative : Alternative α} {commit : Commit}
  (trial : (s.record (.attempted id index s.pruner)).attempt id index alternative =
    (.ok (.feasible commit), s'))

include trial

/-- What is in custody once an alternative was committed, and how the search below it returns. -/
theorem returned_below :
    ∃ Q : List (Entry α), commit.disjunction = id ∧ commit.alternative = index ∧
      commit.constraints = Q.map Prod.fst ∧ Q.map Prod.snd = alternative.reverse ∧
      Returned K (Q + P) ds (below (s'.record (.committed id index depth))) := by
  obtain ⟨Q, own, chosen, ids, texts, held⟩ :=
    owns_commit (s := s.record (.attempted id index s.pruner)) h trial
  exact ⟨Q, own, chosen, ids, texts, deep _ _ held⟩

/-- Where the search below finds nothing, taking the commitment back hands over all it added. -/
theorem returned_back {outcome : Outcome} {s₂ : State σ α}
    (finish : below (s'.record (.committed id index depth)) = (outcome, s₂))
    (nothing : ∀ commits, outcome ≠ .ok (some commits)) :
    K.owns P (s₂.retract commit).2.backend := by
  obtain ⟨Q, -, -, ids, -, returned⟩ := returned_below deep h trial
  rw [finish] at returned
  cases returned with
  | found => exact absurd rfl (nothing _)
  | exhausted owned => exact owns_retract owned ids
  | aborted owned => exact owns_retract owned ids

end Commitment

theorem returned_tried {alternatives : List (Alternative α)}
    (t : Tried setting d.1 depth below index alternatives s result)
    (left : d.2.alternatives.drop index = alternatives) : Returned K P (d :: ds) result := by
  induction t with
  | exhausted index s => exact .exhausted h
  | limited index alternative rest s limit reached => exact .aborted h
  | @failed index alternative rest s s₁ e trial =>
    exact .aborted (owns_attempt (s := s.record (.attempted d.1 index s.pruner)) h trial nofun)
  | @unfit index alternative rest s s₁ verdict event result trial no later ih =>
    have held : K.owns P s₁.backend := by
      refine owns_attempt (s := s.record (.attempted d.1 index s.pruner)) h trial ?_
      rintro commit ⟨⟩
      exact no
    exact ih held (drop_succ left).2
  | completed trial finish =>
    obtain ⟨Q, own, chosen, ids, texts, returned⟩ := returned_below deep h trial
    rw [finish] at returned
    cases returned with
    | found carried owned last =>
      refine .found (.cons own ?_ ids texts carried) ?_ last
      · rw [chosen]
        exact (drop_succ left).1
      · rw [add_left_comm, ← add_assoc] at owned
        rwa [List.flatten_cons, ← Multiset.coe_add]
  | unwound trial finish => exact .aborted (returned_back deep h trial finish nofun)
  | stuck trial finish back =>
    have held := returned_back deep h trial finish nofun
    rw [back] at held
    exact .aborted held
  | reentered trial finish back later ih =>
    have held := returned_back deep h trial finish nofun
    rw [back] at held
    exact ih held (drop_succ left).2

end Below

theorem returned_explore (setting : Setting) (s : State σ α)
    (ds : List (DisjunctionId × Disjunction α)) (depth : Nat) (h : K.owns P s.backend) :
    Returned K P ds (explore setting depth ds s) := by
  induction ds generalizing depth P s with
  | nil =>
    change Returned K P [] (State.leaf s)
    unfold State.leaf
    have held := K.update P s.backend h
    split
    · next b run =>
      rw [run] at held
      exact .found .nil (by simpa using held) ⟨_, run⟩
    · next b run =>
      rw [run] at held
      exact .exhausted held
    · next e b _ run =>
      rw [run] at held
      exact .aborted held
  | cons d ds ih =>
    exact returned_tried (fun P s held => ih s (depth + 1) held)
      h
      (tried setting d.1 depth (explore setting (depth + 1) ds) d.2.alternatives 0 s) rfl

end LinearChoice.Search
