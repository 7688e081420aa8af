import LinearChoice.Proofs.Search.Tried

/-!
# The search as a loop

The search is also a loop over a stack of levels. A pass belongs to the deepest
level: what is committed there has led nowhere and is taken back, and the next
alternative that fits is committed, or the level is left. Pass by pass, the
loop does what the recursion does, and it ends.
-/

set_option autoImplicit false

namespace LinearChoice.Search

structure Frame (α : Type) where
  decision : DisjunctionId × Disjunction α
  next : Nat
  commit? : Option Commit

inductive Pass (σ α : Type) where
  | continues (stack : List (Frame α)) (s : State σ α)
  | ended (outcome : Outcome) (s : State σ α)

variable {α : Type}

def committed (stack : List (Frame α)) : List Commit := (stack.filterMap Frame.commit?).reverse

variable {σ : Type} [ExtendedScalar α] [BackendOver σ α]

def clear : List (Frame α) → State σ α → State σ α
  | [], s => s
  | frame :: outer, s =>
    match frame.commit? with
    | none => clear outer s
    | some commit => clear outer (s.retract commit).2

def firstFeasible (setting : Setting) (id : DisjunctionId) :
    Nat → List (Alternative α) → State σ α → Except SystemError (Option Commit) × State σ α
  | _, [], s => (.ok none, s)
  | index, alternative :: rest, s =>
    match setting.exceeded? s.journal.stats with
    | some limit => (.error (.stepLimitExceeded limit), s)
    | none =>
      match (s.record (.attempted id index s.pruner)).attempt id index alternative with
      | (.error e, s) => (.error e, s)
      | (.ok (.feasible commit), s) => (.ok (some commit), s)
      | (.ok (.pruned c), s) =>
        firstFeasible setting id (index + 1) rest
          (s.record (.rejected id index (setting.reason (.pruned c))))
      | (.ok (.infeasible i), s) =>
        firstFeasible setting id (index + 1) rest
          (s.record (.rejected id index (setting.reason (.infeasible i))))

def Frame.reenter (frame : Frame α) (s : State σ α) : Except SolverError Unit × State σ α :=
  match frame.commit? with
  | none => (.ok (), s)
  | some commit =>
    match s.retract commit with
    | (.error e, s) => (.error e, s)
    | (.ok (), s) =>
      (.ok (), s.record (.rejected commit.disjunction commit.alternative .noCompletion))

def settle (stack : List (Frame α)) : Outcome × State σ α → Pass σ α
  | (.ok none, s) => .continues stack s
  | (.ok (some commits), s) => .ended (.ok (some (committed stack ++ commits))) s
  | (.error e, s) => .ended (.error e) (clear stack s)

section Passes

variable (setting : Setting) (all : List (DisjunctionId × Disjunction α))

def descend (stack : List (Frame α)) (s : State σ α) : Pass σ α :=
  match all[stack.length]? with
  | some d => .continues (⟨d, 0, none⟩ :: stack) s
  | none => settle stack s.leaf

def proceed (d : DisjunctionId × Disjunction α) (outer : List (Frame α)) :
    Except SystemError (Option Commit) × State σ α → Pass σ α
  | (.error e, s) => .ended (.error e) (clear outer s)
  | (.ok none, s) => .continues outer s
  | (.ok (some c), s) =>
    descend all (⟨d, c.alternative + 1, some c⟩ :: outer)
      (s.record (.committed c.disjunction c.alternative outer.length))

def pass (frame : Frame α) (outer : List (Frame α)) (s : State σ α) : Pass σ α :=
  match frame.reenter s with
  | (.error e, s) => .ended (.error (.solver e)) (clear outer s)
  | (.ok (), s) =>
    proceed all frame.decision outer
      (firstFeasible setting frame.decision.1 frame.next
        (frame.decision.2.alternatives.drop frame.next) s)

def passes : Nat → Pass σ α → Option (Outcome × State σ α)
  | _, .ended outcome s => some (outcome, s)
  | _, .continues [] s => some (.ok none, s)
  | 0, .continues (_ :: _) _ => none
  | n + 1, .continues (frame :: outer) s => passes n (pass setting all frame outer s)

def loop (n : Nat) (b : σ) (p : Pruner α) : Option (Outcome × State σ α) :=
  passes setting all n (descend all [] ⟨b, p, Journal.empty⟩)

end Passes

variable {setting : Setting} {all ds : List (DisjunctionId × Disjunction α)}
  {d : DisjunctionId × Disjunction α} {outer : List (Frame α)} {s s₁ : State σ α} {index : Nat}
  {alternative : Alternative α} {rest : List (Alternative α)} {commit : Commit}

theorem passes_add {n : Nat} {r : Pass σ α} {answer : Outcome × State σ α}
    (run : passes setting all n r = some answer) (m : Nat) :
    passes setting all (n + m) r = some answer := by
  induction n generalizing r with
  | zero =>
    match r, run with
    | .ended _ _, run | .continues [] _, run => simpa [passes] using run
  | succ n ih =>
    match r, run with
    | .ended _ _, run | .continues [] _, run => simpa [passes] using run
    | .continues (frame :: outer) s, run =>
      rw [Nat.add_right_comm]
      exact ih run

theorem passes_settle (n : Nat) (answer : Outcome × State σ α) :
    passes setting all n (settle [] answer) = some answer := by
  obtain ⟨outcome, s⟩ := answer
  cases outcome with
  | error e => simp [settle, clear, passes]
  | ok found => cases found <;> simp [settle, committed, passes]

omit [ExtendedScalar α] [BackendOver σ α] in
theorem committed_cons (decision : DisjunctionId × Disjunction α) (next : Nat) (c : Commit)
    (outer : List (Frame α)) :
    committed (⟨decision, next, some c⟩ :: outer) = committed outer ++ [c] := by
  simp [committed]

theorem firstFeasible_of_limited {limit : Nat} (id : DisjunctionId) (index : Nat)
    (alternative : Alternative α) (rest : List (Alternative α))
    (reached : setting.exceeded? s.journal.stats = some limit) :
    firstFeasible setting id index (alternative :: rest) s =
      (.error (.stepLimitExceeded limit), s) := by
  rw [firstFeasible, reached]

section Free

variable (free : setting.exceeded? s.journal.stats = none)
include free

theorem firstFeasible_of_failed {e : SystemError}
    (trial : (s.record (.attempted d.1 index s.pruner)).attempt d.1 index alternative =
      (.error e, s₁)) :
    firstFeasible setting d.1 index (alternative :: rest) s = (.error e, s₁) := by
  rw [firstFeasible, free]
  dsimp only
  rw [trial]

theorem firstFeasible_of_unfit {verdict : Attempt α}
    (trial : (s.record (.attempted d.1 index s.pruner)).attempt d.1 index alternative =
      (.ok verdict, s₁)) (no : verdict.Unfit) :
    firstFeasible setting d.1 index (alternative :: rest) s =
      firstFeasible setting d.1 (index + 1) rest
        (s₁.record (.rejected d.1 index (setting.reason verdict))) := by
  rw [firstFeasible, free]
  dsimp only
  rw [trial]
  cases verdict with
  | feasible commit => exact no.elim
  | pruned c => rfl
  | infeasible i => rfl

theorem firstFeasible_of_feasible
    (trial : (s.record (.attempted d.1 index s.pruner)).attempt d.1 index alternative =
      (.ok (.feasible commit), s₁)) :
    firstFeasible setting d.1 index (alternative :: rest) s = (.ok (some commit), s₁) := by
  rw [firstFeasible, free]
  dsimp only
  rw [trial]

end Free

def ComesTo (setting : Setting) (all : List (DisjunctionId × Disjunction α)) (bound : Nat)
    (r r' : Pass σ α) : Prop :=
  ∃ k ≤ bound, ∀ n, passes setting all (n + k) r = passes setting all n r'

namespace ComesTo

variable {bound bound' : Nat} {r r' r'' : Pass σ α}

theorem refl (r : Pass σ α) : ComesTo setting all 0 r r := ⟨0, Nat.le_refl _, fun _ => rfl⟩

theorem mono (h : ComesTo setting all bound r r') (le : bound ≤ bound') :
    ComesTo setting all bound' r r' := by
  obtain ⟨k, enough, same⟩ := h
  exact ⟨k, Nat.le_trans enough le, same⟩

theorem trans (first : ComesTo setting all bound r r')
    (second : ComesTo setting all bound' r' r'') :
    ComesTo setting all (bound + bound') r r'' := by
  obtain ⟨k, enough, same⟩ := first
  obtain ⟨k', enough', same'⟩ := second
  refine ⟨k + k', Nat.add_le_add enough enough', fun n => ?_⟩
  rw [Nat.add_comm k, ← Nat.add_assoc, same, same']

end ComesTo

theorem comesTo_pass (frame : Frame α) (outer : List (Frame α)) (s : State σ α) :
    ComesTo setting all 1 (.continues (frame :: outer) s) (pass setting all frame outer s) :=
  ⟨1, Nat.le_refl _, fun _ => rfl⟩

/-- What was found below a commitment is settled by going on at its level. -/
theorem comesTo_resume {below : State σ α → Outcome × State σ α} {bound : Nat}
    (own : commit.disjunction = d.1) (chosen : commit.alternative = index)
    (left : d.2.alternatives.drop (index + 1) = rest)
    (later : ∀ s, ComesTo setting all bound
      (proceed all d outer (firstFeasible setting d.1 (index + 1) rest s))
      (settle outer (tryEach setting d.1 outer.length below (index + 1) rest s)))
    (answer : Outcome × State σ α) :
    ComesTo setting all (1 + bound) (settle (⟨d, index + 1, some commit⟩ :: outer) answer)
      (settle outer (resume setting d.1 outer.length below index rest commit answer)) := by
  obtain ⟨outcome, s⟩ := answer
  match outcome with
  | .error e => exact (ComesTo.refl _).mono (Nat.zero_le _)
  | .ok (some commits) =>
    simp only [settle, resume, committed_cons, List.append_assoc, List.singleton_append]
    exact (ComesTo.refl _).mono (Nat.zero_le _)
  | .ok none =>
    refine (comesTo_pass _ outer s).trans ?_
    cases back : s.retract commit with
    | mk removal s₁ =>
      cases removal with
      | error e =>
        simp only [pass, Frame.reenter, back, resume, settle]
        exact (ComesTo.refl _).mono (Nat.zero_le _)
      | ok _ =>
        simp only [pass, Frame.reenter, back, resume, left, own, chosen]
        exact later _

theorem comesTo_tryEach {below : State σ α → Outcome × State σ α} {bound : Nat}
    (inner : ∀ (stack : List (Frame α)) (s : State σ α), stack.length = outer.length + 1 →
      ComesTo setting all bound (descend all stack s) (settle stack (below s)))
    (alternatives : List (Alternative α)) (left : d.2.alternatives.drop index = alternatives)
    (s : State σ α) :
    ComesTo setting all (alternatives.length * (1 + bound))
      (proceed all d outer (firstFeasible setting d.1 index alternatives s))
      (settle outer (tryEach setting d.1 outer.length below index alternatives s)) := by
  induction alternatives generalizing index s with
  | nil => exact (ComesTo.refl _).mono (Nat.zero_le _)
  | cons alternative rest ih =>
    obtain ⟨-, later⟩ := drop_succ left
    have size : (alternative :: rest).length * (1 + bound) =
        bound + (1 + rest.length * (1 + bound)) := by
      rw [List.length_cons, Nat.succ_mul]
      omega
    rw [size]
    cases free : setting.exceeded? s.journal.stats with
    | some limit =>
      rw [firstFeasible_of_limited _ _ _ _ free, tryEach, free]
      exact (ComesTo.refl _).mono (Nat.zero_le _)
    | none =>
      cases trial : (s.record (.attempted d.1 index s.pruner)).attempt d.1 index alternative with
      | mk verdict s₁ =>
        cases verdict with
        | error e =>
          rw [firstFeasible_of_failed free trial, tryEach_of_failed _ _ _ _ _ free trial]
          exact (ComesTo.refl _).mono (Nat.zero_le _)
        | ok verdict =>
          cases verdict with
          | feasible commit =>
            rw [firstFeasible_of_feasible free trial, tryEach_of_feasible _ _ _ _ _ free trial]
            obtain ⟨own, chosen, -⟩ := commit_of_attempt trial
            simp only [proceed, own, chosen]
            exact (inner _ _ rfl).trans
              (comesTo_resume own chosen later (fun s => ih later s) _)
          | pruned c | infeasible i =>
            rw [firstFeasible_of_unfit free trial trivial,
              tryEach_of_unfit _ _ _ _ _ free trial trivial]
            exact (ih later _).mono (by omega)

def passesFor : List Nat → Nat
  | [] => 0
  | size :: sizes => size * (1 + passesFor sizes) + 1

theorem comesTo_explore (stack : List (Frame α)) (left : all.drop stack.length = ds)
    (s : State σ α) :
    ComesTo setting all (passesFor (ds.map fun d => d.2.size)) (descend all stack s)
      (settle stack (explore setting stack.length ds s)) := by
  induction ds generalizing stack s with
  | nil =>
    rw [descend, List.getElem?_eq_none (List.drop_eq_nil_iff.mp left)]
    exact ComesTo.refl _
  | cons d ds ih =>
    obtain ⟨here, later⟩ := drop_succ left
    have inner (stack' : List (Frame α)) (s : State σ α)
      (deeper : stack'.length = stack.length + 1) :
        ComesTo setting all (passesFor (ds.map fun d => d.2.size)) (descend all stack' s)
          (settle stack' (explore setting (stack.length + 1) ds s)) := by
      have found := ih stack' (by rw [deeper, later]) s
      rwa [deeper] at found
    have level := comesTo_tryEach inner d.2.alternatives (List.drop_zero) s
    rw [descend, here]
    exact ((comesTo_pass ⟨d, 0, none⟩ stack s).trans level).mono (Nat.le_of_eq (Nat.add_comm _ _))

/-- The loop ends, and it answers what the search does. -/
theorem loop_eq_run (setting : Setting) (ds : List (DisjunctionId × Disjunction α)) (b : σ)
    (p : Pruner α) {n : Nat} (enough : passesFor (ds.map fun d => d.2.size) ≤ n) :
    loop setting ds n b p = some (run setting ds b p) := by
  have found : ComesTo setting ds _ (descend ds [] ⟨b, p, Journal.empty⟩)
      (settle [] (run setting ds b p)) := comesTo_explore [] List.drop_zero _
  obtain ⟨k, few, same⟩ := found
  have done := same 0
  rw [passes_settle, Nat.zero_add] at done
  have answered := passes_add done (n - k)
  rwa [Nat.add_sub_cancel' (Nat.le_trans few enough)] at answered

end LinearChoice.Search
