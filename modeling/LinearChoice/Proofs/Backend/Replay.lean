import LinearChoice.Proofs.Backend.Contract

/-!
# Starting over

What a fresh backend says of a list of constraints, given one after another, is
the reference for a backend in use. A backend in use, where the latest
constraint always goes first, leaves no trace of what it refused or gave back
if it answers as the fresh one does on what is held.
-/

set_option autoImplicit false

namespace LinearChoice

namespace Backend

variable {σ α : Type} [BackendOver σ α]

def replay (b : σ) : List (Constraint α) → Option σ
  | [] => some b
  | c :: cs =>
    match addConstraint b c with
    | (.ok _, b) => replay b cs
    | (.error _, _) => none

def takes (b : σ) (cs : List (Constraint α)) : Bool := (replay b cs).isSome

def accepts (b : σ) (cs : List (Constraint α)) : Bool :=
  (replay b cs).any fun b => (updateVariables b).1.isOk

theorem replay_append (b : σ) (cs ds : List (Constraint α)) :
    replay b (cs ++ ds) = (replay b cs).bind fun b => replay b ds := by
  induction cs generalizing b with
  | nil => rfl
  | cons c cs ih =>
    simp only [List.cons_append, replay]
    split
    · exact ih _
    · rfl

theorem replay_eq_addAll (added : List ConstraintId) (cs : List (Constraint α)) (b : σ) :
    replay b cs =
      match addAll added cs b with
      | ((none, _), b') => some b'
      | ((some _, _), _) => none := by
  induction cs generalizing added b with
  | nil => rfl
  | cons c cs ih =>
    unfold replay addAll
    cases addConstraint b c with
    | mk outcome b' =>
      cases outcome with
      | ok id => exact ih (id :: added) b'
      | error e => rfl

theorem takes_of_append {b : σ} {cs ds : List (Constraint α)} (h : takes b (cs ++ ds) = true) :
    takes b cs = true := by
  rw [takes, replay_append] at h
  unfold takes
  cases found : replay b cs with
  | none => simp [found] at h
  | some b' => rfl

theorem not_takes_append {b : σ} {cs : List (Constraint α)} {c : Constraint α}
    (full : takes b (cs ++ [c]) = false) (ds : List (Constraint α)) :
    takes b (cs ++ c :: ds) = false := by
  rw [Bool.eq_false_iff] at full ⊢
  intro all
  rw [← List.singleton_append, ← List.append_assoc] at all
  exact full (takes_of_append all)

theorem takes_of_accepts {b : σ} {cs : List (Constraint α)} (h : accepts b cs = true) :
    takes b cs = true := by
  unfold accepts at h
  unfold takes
  cases found : replay b cs with
  | none => simp [found] at h
  | some b' => rfl

def withVariables (b : σ) : Nat → σ
  | 0 => b
  | n + 1 => (newVariable (withVariables b n)).2

def texts (H : List (Entry α)) : List (Constraint α) := (H.map Prod.snd).reverse

theorem texts_cons (e : Entry α) (H : List (Entry α)) : texts (e :: H) = texts H ++ [e.2] := by
  simp [texts]

theorem texts_cons_append (e : Entry α) (H : List (Entry α)) (cs : List (Constraint α)) :
    texts (e :: H) ++ cs = texts H ++ e.2 :: cs := by
  simp [texts]

theorem texts_append (Q H : List (Entry α)) : texts (Q ++ H) = texts H ++ texts Q := by
  simp [texts]

inductive Served (C : Constraint α → Prop) (fresh : σ) : List (Entry α) → σ → Prop
  | start : Served C fresh [] fresh
  | widened {H : List (Entry α)} {b : σ} (h : Served C fresh H b) :
      Served C fresh H (newVariable b).2
  | taken {H : List (Entry α)} {b b' : σ} {c : Constraint α} {id : ConstraintId}
      (h : Served C fresh H b) (known : C c) (run : addConstraint b c = (.ok id, b')) :
      Served C fresh ((id, c) :: H) b'
  | refused {H : List (Entry α)} {b b' : σ} {c : Constraint α} {e : SolverError}
      (h : Served C fresh H b) (known : C c) (run : addConstraint b c = (.error e, b')) :
      Served C fresh H b'
  | removed {H : List (Entry α)} {e : Entry α} {b b' : σ} (h : Served C fresh (e :: H) b)
      (run : removeConstraint b e.1 = (.ok (), b')) : Served C fresh H b'
  | updated {H : List (Entry α)} {b : σ} (h : Served C fresh H b) :
      Served C fresh H (updateVariables b).2

variable {C : Constraint α → Prop} {fresh b : σ} {H : List (Entry α)}

theorem Served.mono {C' : Constraint α → Prop} (sub : ∀ c, C' c → C c)
    (h : Served C' fresh H b) : Served C fresh H b := by
  induction h with
  | start => exact .start
  | widened _ ih => exact .widened ih
  | taken _ known run ih => exact .taken ih (sub _ known) run
  | refused _ known run ih => exact .refused ih (sub _ known) run
  | removed _ run ih => exact .removed ih run
  | updated _ ih => exact .updated ih

theorem Served.known (h : Served C fresh H b) : ∀ c ∈ texts H, C c := by
  induction h with
  | start => exact nofun
  | widened _ ih => exact ih
  | taken _ known _ ih =>
    rw [texts_cons, List.forall_mem_append, List.forall_mem_singleton]
    exact ⟨ih, known⟩
  | refused _ _ _ ih => exact ih
  | removed _ _ ih =>
    rw [texts_cons, List.forall_mem_append] at ih
    exact ih.1
  | updated _ ih => exact ih

theorem served_withVariables (C : Constraint α → Prop) (fresh : σ) (n : Nat) :
    Served C fresh [] (withVariables fresh n) := by
  induction n with
  | zero => exact .start
  | succ n ih => exact .widened ih

/-- What is replayed on a backend in use goes on its stack. -/
theorem Served.replay (h : Served C fresh H b) {cs : List (Constraint α)}
    (known : ∀ c ∈ cs, C c) {b' : σ} (run : replay b cs = some b') :
    ∃ Q, texts Q = cs ∧ Served C fresh (Q ++ H) b' := by
  induction cs generalizing b H with
  | nil =>
    cases run
    exact ⟨[], rfl, h⟩
  | cons c cs ih =>
    obtain ⟨own, others⟩ := List.forall_mem_cons.mp known
    rw [Backend.replay] at run
    split at run
    · next id b₁ added =>
      obtain ⟨Q, rfl, served⟩ := ih (h.taken own added) others run
      exact ⟨Q ++ [(id, c)], by simp [texts], by simpa using served⟩
    · contradiction

/-- In use the backend answers as if it had been given what it holds and nothing else. -/
structure Traceless (C : Constraint α → Prop) (fresh : σ) : Prop where
  taken : ∀ H b c, Served C fresh H b → C c → takes fresh (texts H ++ [c]) = true →
    ∃ id, (addConstraint b c).1 = .ok id
  refused : ∀ H b c, Served C fresh H b → C c → takes fresh (texts H ++ [c]) = false →
    (addConstraint b c).1 = .error .unsatisfiable
  confirmed : ∀ H b, Served C fresh H b → accepts fresh (texts H) = true →
    (updateVariables b).1 = .ok ()
  doubted : ∀ H b, Served C fresh H b → accepts fresh (texts H) = false →
    (updateVariables b).1 = .error .unsatisfiable
  removed : ∀ H e b, Served C fresh (e :: H) b → (removeConstraint b e.1).1 = .ok ()

namespace Traceless

variable (T : Traceless C fresh)

include T

theorem remove_run {e : Entry α} (h : Served C fresh (e :: H) b) :
    ∃ b', removeConstraint b e.1 = (.ok (), b') ∧ Served C fresh H b' := by
  have run : removeConstraint b e.1 = (.ok (), (removeConstraint b e.1).2) := by
    rw [← T.removed H e b h]
  exact ⟨_, run, .removed h run⟩

theorem removeAll_run (Q : List (Entry α)) (h : Served C fresh (Q ++ H) b) :
    ∃ b', removeAll (Q.map Prod.fst) b = (.ok (), b') ∧ Served C fresh H b' := by
  induction Q generalizing b with
  | nil => exact ⟨b, rfl, h⟩
  | cons e Q ih =>
    obtain ⟨b₁, run, h₁⟩ := T.remove_run h
    obtain ⟨b₂, runs, h₂⟩ := ih h₁
    exact ⟨b₂, by simp only [List.map_cons, removeAll, run, runs], h₂⟩

theorem add_cases (h : Served C fresh H b) {c : Constraint α} (known : C c) :
    (takes fresh (texts H ++ [c]) = true ∧
      ∃ id b', addConstraint b c = (.ok id, b') ∧ Served C fresh ((id, c) :: H) b') ∨
    (takes fresh (texts H ++ [c]) = false ∧
      ∃ b', addConstraint b c = (.error .unsatisfiable, b') ∧ Served C fresh H b') := by
  cases fits : takes fresh (texts H ++ [c]) with
  | true =>
    obtain ⟨id, answer⟩ := T.taken H b c h known fits
    have run : addConstraint b c = (.ok id, (addConstraint b c).2) := by rw [← answer]
    exact Or.inl ⟨rfl, id, _, run, .taken h known run⟩
  | false =>
    have run : addConstraint b c = (.error .unsatisfiable, (addConstraint b c).2) := by
      rw [← T.refused H b c h known fits]
    exact Or.inr ⟨rfl, _, run, .refused h known run⟩

/-- A list is taken as a whole, or the stack has grown by those before the one that is refused. -/
theorem addAll_cases (cs : List (Constraint α)) (known : ∀ c ∈ cs, C c) (P : List (Entry α))
    (h : Served C fresh H b) :
    (∃ Q b', addAll (P.map Prod.fst) cs b = ((none, (Q ++ P).map Prod.fst), b') ∧
      texts Q = cs ∧ Served C fresh (Q ++ H) b') ∨
    (takes fresh (texts H ++ cs) = false ∧ ∃ Q b',
      addAll (P.map Prod.fst) cs b = ((some .unsatisfiable, (Q ++ P).map Prod.fst), b') ∧
        Served C fresh (Q ++ H) b') := by
  induction cs generalizing b H P with
  | nil => exact Or.inl ⟨[], b, rfl, rfl, h⟩
  | cons c cs ih =>
    obtain ⟨own, others⟩ := List.forall_mem_cons.mp known
    rcases T.add_cases h own with ⟨-, id, b₁, run, h₁⟩ | ⟨full, b₁, run, h₁⟩
    · have step : addAll (P.map Prod.fst) (c :: cs) b =
          addAll (((id, c) :: P).map Prod.fst) cs b₁ := by
        simp only [addAll, run, List.map_cons]
      rw [step, ← texts_cons_append (id, c)]
      rcases ih others ((id, c) :: P) h₁ with ⟨Q, b', runs, added, h'⟩ | ⟨none, Q, b', runs, h'⟩
      · refine Or.inl ⟨Q ++ [(id, c)], b', by simpa using runs, ?_, by simpa using h'⟩
        rw [texts_append, added]
        rfl
      · exact Or.inr ⟨none, Q ++ [(id, c)], b', by simpa using runs, by simpa using h'⟩
    · exact Or.inr ⟨not_takes_append full cs, [], b₁,
        by simp only [addAll, run, List.nil_append], h₁⟩

theorem update_cases (h : Served C fresh H b) :
    ∃ b', Served C fresh H b' ∧ updateVariables b =
      (if accepts fresh (texts H) then .ok () else .error .unsatisfiable, b') := by
  refine ⟨_, .updated h, Prod.ext ?_ rfl⟩
  cases last : accepts fresh (texts H) with
  | true => exact T.confirmed H b h last
  | false => exact T.doubted H b h last

/-- Other constraints can be given to a backend in use as to a fresh one that was given what is
held. -/
theorem replay_cases (cs : List (Constraint α)) (known : ∀ c ∈ cs, C c)
    (h : Served C fresh H b) :
    (∃ b' Q, replay b cs = some b' ∧ texts Q = cs ∧ Served C fresh (Q ++ H) b') ∨
    (replay b cs = none ∧ takes fresh (texts H ++ cs) = false) := by
  rw [replay_eq_addAll []]
  rcases T.addAll_cases cs known [] h with ⟨Q, b', run, added, h'⟩ | ⟨refused, Q, b', run, -⟩
  · rw [List.map_nil] at run
    exact Or.inl ⟨b', Q, by rw [run], added, h'⟩
  · rw [List.map_nil] at run
    exact Or.inr ⟨by rw [run], refused⟩

theorem accepts_eq (cs : List (Constraint α)) (known : ∀ c ∈ cs, C c)
    (h : Served C fresh H b) : accepts b cs = accepts fresh (texts H ++ cs) := by
  rcases T.replay_cases cs known h with ⟨b', Q, run, added, h'⟩ | ⟨run, refused⟩
  · obtain ⟨_, -, last⟩ := T.update_cases h'
    rw [texts_append, added] at last
    rw [accepts, run, Option.any_some, last]
    cases accepts fresh (texts H ++ cs) <;> rfl
  · have never : ¬accepts fresh (texts H ++ cs) = true := fun all => by
      rw [takes_of_accepts all] at refused
      contradiction
    rw [Bool.eq_false_iff.mpr never, accepts, run]
    rfl

end Traceless

structure Judged (C : Constraint α → Prop) (fresh : σ)
    (fits : List (Constraint α) → Constraint α → Bool)
    (stands : List (Constraint α) → Bool) : Prop where
  taken : ∀ H b c, Served C fresh H b → C c → fits (texts H) c = true →
    ∃ id, (addConstraint b c).1 = .ok id
  refused : ∀ H b c, Served C fresh H b → C c → fits (texts H) c = false →
    (addConstraint b c).1 = .error .unsatisfiable
  updated : ∀ H b, Served C fresh H b →
    (updateVariables b).1 = if stands (texts H) then .ok () else .error .unsatisfiable
  removed : ∀ H e b, Served C fresh (e :: H) b → (removeConstraint b e.1).1 = .ok ()

namespace Judged

variable {fits : List (Constraint α) → Constraint α → Bool}
  {stands : List (Constraint α) → Bool} (J : Judged C fresh fits stands)

include J

theorem mono {C' : Constraint α → Prop} (sub : ∀ c, C' c → C c) :
    Judged C' fresh fits stands where
  taken H b c h known := J.taken H b c (h.mono sub) (sub c known)
  refused H b c h known := J.refused H b c (h.mono sub) (sub c known)
  updated H b h := J.updated H b (h.mono sub)
  removed H e b h := J.removed H e b (h.mono sub)

theorem isOk_add (h : Served C fresh H b) {c : Constraint α} (known : C c) :
    (addConstraint b c).1.isOk = fits (texts H) c := by
  cases fit : fits (texts H) c with
  | true =>
    obtain ⟨id, ok⟩ := J.taken H b c h known fit
    rw [ok]
    rfl
  | false =>
    rw [J.refused H b c h known fit]
    rfl

theorem takes_snoc {cs : List (Constraint α)} {c : Constraint α} (known : ∀ d ∈ cs, C d)
    (own : C c) : takes fresh (cs ++ [c]) = (takes fresh cs && fits cs c) := by
  unfold takes
  rw [replay_append]
  cases run : Backend.replay fresh cs with
  | none => rfl
  | some b =>
    obtain ⟨Q, rfl, served⟩ := Served.start.replay known run
    rw [List.append_nil] at served
    have answer := J.isOk_add served own
    rw [Option.bind_some, Backend.replay, Option.isSome_some, Bool.true_and, ← answer]
    rcases addConstraint b c with ⟨_ | _, b'⟩ <;> rfl

theorem takes_served (h : Served C fresh H b) : takes fresh (texts H) = true := by
  induction h with
  | start => rfl
  | widened _ ih => exact ih
  | @taken H b b' c id h known run ih =>
    have answer := J.isOk_add h known
    rw [run] at answer
    rw [texts_cons, J.takes_snoc h.known known, ih, ← answer]
    rfl
  | refused _ _ _ ih => exact ih
  | removed _ _ ih =>
    rw [texts_cons] at ih
    exact takes_of_append ih
  | updated _ ih => exact ih

theorem fits_of_takes (h : Served C fresh H b) {c : Constraint α} (known : C c) :
    takes fresh (texts H ++ [c]) = fits (texts H) c := by
  rw [J.takes_snoc h.known known, J.takes_served h, Bool.true_and]

theorem accepts_served (h : Served C fresh H b) : accepts fresh (texts H) = stands (texts H) := by
  obtain ⟨b', run⟩ := Option.isSome_iff_exists.mp (J.takes_served h)
  obtain ⟨Q, same, served⟩ := Served.start.replay h.known run
  rw [List.append_nil] at served
  have answer := J.updated Q b' served
  rw [same] at answer
  rw [accepts, run, Option.any_some, answer]
  cases stands (texts H) <;> rfl

/-- A backend whose answers depend on nothing but what it holds leaves no trace of the rest. -/
theorem traceless : Traceless C fresh where
  taken H b c h known fit := J.taken H b c h known (J.fits_of_takes h known ▸ fit)
  refused H b c h known full := J.refused H b c h known (J.fits_of_takes h known ▸ full)
  confirmed H b h last := by
    rw [J.accepts_served h] at last
    rw [J.updated H b h, if_pos last]
  doubted H b h last := by
    rw [J.accepts_served h] at last
    rw [J.updated H b h, last]
    rfl
  removed := J.removed

end Judged

end Backend

open Backend (texts Served Judged)

variable {σ α : Type} [BackendOver σ α] {C : Constraint α → Prop} {fresh b : σ} {H : List (Entry α)}

theorem Contract.held_served (K : Contract σ) (none : K.held fresh = 0)
    (h : Served C fresh H b) : K.held b = H := by
  induction h with
  | start => exact none
  | widened _ ih => exact (K.newVariable _).trans ih
  | taken _ _ run ih => rw [K.add_ok _ _ _ _ run, ih, Multiset.cons_coe]
  | refused _ _ run ih => exact (K.add_error _ _ _ _ run).trans ih
  | removed _ run ih =>
    rw [← Multiset.cons_coe] at ih
    exact K.held_remove ih run
  | updated _ ih => exact (K.update _).trans ih

theorem Contract.constraints_served (K : Contract σ) (none : K.held fresh = 0)
    (h : Served C fresh H b) : K.constraints b = texts H := by
  rw [Contract.constraints, K.held_served none h, texts, Multiset.coe_reverse, Multiset.map_coe]

open Classical in
/-- A backend that decides leaves no trace of what it no longer holds. -/
theorem Deciding.judged (D : Deciding σ) (none : D.held fresh = 0) :
    Judged C fresh (fun cs c => decide (D.feasible (c ::ₘ cs))) fun cs => decide (D.final cs) where
  taken H b c h _ fit := by
    apply D.add_taken
    rw [D.constraints_served none h]
    exact of_decide_eq_true fit
  refused H b c h _ full := by
    apply D.add_refused
    rw [D.constraints_served none h]
    exact of_decide_eq_false full
  updated H b h := by
    rw [← D.constraints_served none h]
    by_cases last : D.final (D.constraints b)
    · rw [if_pos (decide_eq_true last), D.update_taken b last]
    · rw [if_neg (by simpa using last), D.update_refused b last]
  removed H e b h := by
    apply D.remove_held
    rw [D.held_served none h]
    exact Multiset.mem_coe.mpr List.mem_cons_self

end LinearChoice
