import LinearChoice.Proofs.Backend.Contract

/-!
# Determined backends

A backend whose answers depend on nothing but the constraints that it holds: not
on their order, nor on their numbers, nor on what was added and removed before.
-/

set_option autoImplicit false

namespace LinearChoice

structure Determined {α : Type} (σ : Type) [BackendOver σ α] extends Reliable σ where
  verdict : Multiset (Constraint α) → Constraint α → Except SolverError Unit
  last : Multiset (Constraint α) → Except SolverError Unit
  reading : Multiset (Constraint α) → Variable → α
  add_verdict : ∀ b c,
    (Backend.addConstraint b c).1.map (fun _ => ()) = verdict (toContract.constraints b) c
  update_last : ∀ b, (Backend.updateVariables b).1 = last (toContract.constraints b)
  value_reading : ∀ b b', Backend.updateVariables b = (.ok (), b') →
    Backend.value b' = reading (toContract.constraints b')

namespace Determined

variable {σ α : Type} [BackendOver σ α] (K : Determined σ)

theorem add_cases (b : σ) (c : Constraint α) :
    (∃ id b', Backend.addConstraint b c = (.ok id, b') ∧ K.held b' = (id, c) ::ₘ K.held b ∧
      K.verdict (K.constraints b) c = .ok ()) ∨
    (∃ e b', Backend.addConstraint b c = (.error e, b') ∧ K.held b' = K.held b ∧
      K.verdict (K.constraints b) c = .error e) := by
  have verdict := K.add_verdict b c
  cases run : Backend.addConstraint b c with
  | mk outcome b' =>
    rw [run] at verdict
    cases outcome with
    | ok id => exact Or.inl ⟨id, b', rfl, K.add_ok b c id b' run, verdict.symm⟩
    | error e => exact Or.inr ⟨e, b', rfl, K.add_error b c e b' run, verdict.symm⟩

variable {b b' : σ}

theorem add_alike (c : Constraint α) (same : K.constraints b = K.constraints b') :
    (∃ id id' a a', Backend.addConstraint b c = (.ok id, a) ∧
      Backend.addConstraint b' c = (.ok id', a') ∧ K.held a = (id, c) ::ₘ K.held b ∧
      K.held a' = (id', c) ::ₘ K.held b') ∨
    (∃ e a a', Backend.addConstraint b c = (.error e, a) ∧
      Backend.addConstraint b' c = (.error e, a') ∧ K.held a = K.held b ∧
      K.held a' = K.held b') := by
  rcases K.add_cases b c with ⟨id, a, run, held, verdict⟩ | ⟨e, a, run, held, verdict⟩
  · rcases K.add_cases b' c with ⟨id', a', run', held', -⟩ | ⟨e', a', -, -, verdict'⟩
    · exact Or.inl ⟨id, id', a, a', run, run', held, held'⟩
    · rw [same, verdict'] at verdict
      cases verdict
  · rcases K.add_cases b' c with ⟨id', a', -, -, verdict'⟩ | ⟨e', a', run', held', verdict'⟩
    · rw [same, verdict'] at verdict
      cases verdict
    · rw [same, verdict'] at verdict
      cases verdict
      exact Or.inr ⟨e, a, a', run, run', held, held'⟩

/-- Where the same is held the same is taken, under whatever numbers. -/
theorem addAll_alike (cs : List (Constraint α)) (Q Q' : List (Entry α))
    (same : K.constraints b = K.constraints b') :
    ∃ (refusal : Option SolverError) (P P' : List (Entry α)) (a a' : σ),
      Backend.addAll (Q.map Prod.fst) cs b = ((refusal, (P ++ Q).map Prod.fst), a) ∧
      Backend.addAll (Q'.map Prod.fst) cs b' = ((refusal, (P' ++ Q').map Prod.fst), a') ∧
      P.map Prod.snd = P'.map Prod.snd ∧ K.held a = P + K.held b ∧ K.held a' = P' + K.held b' := by
  induction cs generalizing b b' Q Q' with
  | nil => exact ⟨none, [], [], b, b', rfl, rfl, rfl, by simp, by simp⟩
  | cons c cs ih =>
    rcases K.add_alike c same with
      ⟨id, id', a, a', run, run', held, held'⟩ | ⟨e, a, a', run, run', held, held'⟩
    · have together : K.constraints a = K.constraints a' := by
        rw [Contract.constraints, Contract.constraints, held, held', Multiset.map_cons,
          Multiset.map_cons]
        exact congrArg (c ::ₘ ·) same
      obtain ⟨refusal, P, P', z, z', runs, runs', texts, kept, kept'⟩ :=
        ih ((id, c) :: Q) ((id', c) :: Q') together
      have moved (P : List (Entry α)) (e : Entry α) (H : Multiset (Entry α)) :
          (P : Multiset (Entry α)) + e ::ₘ H = (P ++ [e] : List (Entry α)) + H := by
        rw [← Multiset.coe_add, add_assoc, Multiset.coe_singleton, Multiset.singleton_add]
      refine ⟨refusal, P ++ [(id, c)], P' ++ [(id', c)], z, z', ?_, ?_, ?_, ?_, ?_⟩
      · simpa [Backend.addAll, run] using runs
      · simpa [Backend.addAll, run'] using runs'
      · simp [texts]
      · rw [kept, held, moved]
      · rw [kept', held', moved]
    · refine ⟨some e, [], [], a, a', ?_, ?_, rfl, by simpa using held, by simpa using held'⟩
      · simp [Backend.addAll, run]
      · simp [Backend.addAll, run']

def Takes (M : Multiset (Constraint α)) : List (Constraint α) → Prop
  | [] => True
  | c :: cs => K.verdict M c = .ok () ∧ Takes (c ::ₘ M) cs

theorem takes_append (M : Multiset (Constraint α)) (cs ds : List (Constraint α)) :
    K.Takes M (cs ++ ds) ↔ K.Takes M cs ∧ K.Takes (cs + M) ds := by
  induction cs generalizing M with
  | nil => simp [Takes]
  | cons c cs ih =>
    rw [List.cons_append, Takes, Takes, ih, ← Multiset.cons_coe, Multiset.cons_add,
      Multiset.add_cons, and_assoc]

end Determined

end LinearChoice
