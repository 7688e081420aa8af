import LinearChoice.Proofs.Backend.Transcribed
import LinearChoice.Proofs.Search.Tried

/-!
# Searches cut short

A step limit is compared with the attempts so far before each attempt, and with
nothing else. So a limited search is the plain one, up to the attempt for which
there is no step left; then all that is committed is taken back, the innermost
first.
-/

set_option autoImplicit false
set_option linter.unusedSectionVars false

namespace LinearChoice

variable {α : Type}

def SearchEvent.isAttempt : SearchEvent α → Bool
  | .attempted _ _ _ => true
  | .rejected _ _ _ | .committed _ _ _ => false

namespace Journal

def attempts (j : Journal α) : Nat := j.events.countP SearchEvent.isAttempt

def Grows (j k : Journal α) : Prop :=
  ∃ es : List (SearchEvent α), k.events = es ++ j.events ∧
    k.stats = es.foldr (fun e stats => stats.after e) j.stats

variable {j k l : Journal α}

theorem Grows.refl (j : Journal α) : j.Grows j := ⟨[], rfl, rfl⟩

theorem Grows.trans (first : j.Grows k) (second : k.Grows l) : j.Grows l := by
  obtain ⟨es, events, stats⟩ := first
  obtain ⟨later, events', stats'⟩ := second
  refine ⟨later ++ es, ?_, ?_⟩
  · rw [events', events, List.append_assoc]
  · rw [stats', stats, List.foldr_append]

theorem grows_record (j : Journal α) (e : SearchEvent α) : j.Grows (j.record e) := ⟨[e], rfl, rfl⟩

theorem Grows.events (h : j.Grows k) : j.events <:+ k.events := by
  obtain ⟨es, events, -⟩ := h
  exact ⟨es, events.symm⟩

theorem attempts_after (stats : Stats) (e : SearchEvent α) :
    (stats.after e).attempts = [e].countP SearchEvent.isAttempt + stats.attempts := by
  cases e with
  | attempted => exact Nat.add_comm _ _
  | rejected d i reason => cases reason <;> exact (Nat.zero_add _).symm
  | committed => exact (Nat.zero_add _).symm

theorem attempts_foldr (stats : Stats) (es : List (SearchEvent α)) :
    (es.foldr (fun e stats => stats.after e) stats).attempts =
      es.countP SearchEvent.isAttempt + stats.attempts := by
  induction es with
  | nil => exact (Nat.zero_add _).symm
  | cons e es ih =>
    rw [List.foldr_cons, attempts_after, ih, ← Nat.add_assoc, ← List.countP_append,
      List.singleton_append]

theorem Grows.attempts_le (h : j.Grows k) : j.stats.attempts ≤ k.stats.attempts := by
  obtain ⟨es, -, stats⟩ := h
  rw [stats, attempts_foldr]
  omega

/-- From the start on, the counted attempts are those written down. -/
theorem Grows.attempts_eq (h : Journal.empty.Grows k) : k.stats.attempts = k.attempts := by
  obtain ⟨es, events, stats⟩ := h
  have none : (Journal.empty : Journal α).events = [] := rfl
  rw [attempts, events, stats, attempts_foldr, none, List.append_nil]
  rfl

end Journal

namespace Search

variable {σ : Type} [ExtendedScalar α] [BackendOver σ α]

structure Leads (s t : State (Transcribed σ α) α) : Prop where
  journal : s.journal.Grows t.journal
  requests : s.backend.requests <:+ t.backend.requests

variable {s t u : State (Transcribed σ α) α}

omit [BackendOver σ α] in
theorem Leads.refl (s : State (Transcribed σ α) α) : Leads s s := ⟨.refl _, List.suffix_rfl⟩

omit [BackendOver σ α] in
theorem Leads.trans (first : Leads s t) (second : Leads t u) : Leads s u :=
  ⟨first.journal.trans second.journal, first.requests.trans second.requests⟩

omit [BackendOver σ α] in
theorem leads_record (s : State (Transcribed σ α) α) (e : SearchEvent α) : Leads s (s.record e) :=
  ⟨Journal.grows_record _ _, List.suffix_rfl⟩

theorem requests_retract (s : State (Transcribed σ α) α) (c : Commit) :
    (s.retract c).2.backend.requests =
      (c.constraints.map .remove).reverse ++ s.backend.requests :=
  Transcribed.requests_removeAll c.constraints s.backend

theorem leads_retract (s : State (Transcribed σ α) α) (c : Commit) : Leads s (s.retract c).2 :=
  ⟨.refl _, requests_retract s c ▸ List.suffix_append _ _⟩

theorem leads_leaf (s : State (Transcribed σ α) α) : Leads s s.leaf.2 := by
  have asked : s.backend.requests <:+ (Backend.updateVariables s.backend).2.requests :=
    List.suffix_cons _ _
  unfold State.leaf
  split
  all_goals
    next run =>
      rw [run] at asked
      exact ⟨.refl _, asked⟩

theorem leads_attempt (s : State (Transcribed σ α) α) (id : DisjunctionId) (index : Nat)
    (alternative : Alternative α) : Leads s (s.attempt id index alternative).2 := by
  refine ⟨journal_attempt s id index alternative ▸ .refl _, ?_⟩
  have attempted := attempted s id index alternative
  have added := Transcribed.requests_addAll [] alternative s.backend
  have removed {ids : List ConstraintId} {b b' : Transcribed σ α}
    {outcome : Except SolverError Unit}
      (back : Backend.removeAll ids b = (outcome, b')) : b.requests <:+ b'.requests := by
    have grown := Transcribed.requests_removeAll ids b
    rw [back] at grown
    exact grown ▸ List.suffix_append _ _
  generalize s.attempt id index alternative = answer at attempted
  cases attempted with
  | pruned => exact List.suffix_rfl
  | committed passed run => rwa [run] at added
  | refused passed run back | failed passed run back | stuck passed run back =>
    rw [run] at added
    exact added.trans (removed back)

variable {setting : Setting} {id : DisjunctionId} {depth index : Nat} {alternative : Alternative α}
  {rest alternatives : List (Alternative α)} {commit : Commit} {outcome : Outcome}
  {below : State (Transcribed σ α) α → Outcome × State (Transcribed σ α) α}
  {result : Outcome × State (Transcribed σ α) α}

theorem leads_trial {verdict : Except SystemError (Attempt α)}
    (trial : (s.record (.attempted id index s.pruner)).attempt id index alternative =
      (verdict, t)) : Leads (s.record (.attempted id index s.pruner)) t := by
  have leads := leads_attempt (s.record (.attempted id index s.pruner)) id index alternative
  rwa [trial] at leads

theorem leads_below (deep : ∀ s, Leads s (below s).2)
    (trial : (s.record (.attempted id index s.pruner)).attempt id index alternative =
      (.ok (.feasible commit), t))
    (run : below (t.record (.committed id index depth)) = (outcome, u)) :
    Leads (s.record (.attempted id index s.pruner)) u := by
  have inner := deep (t.record (.committed id index depth))
  rw [run] at inner
  exact (leads_trial trial).trans ((leads_record t _).trans inner)

/-- Unless the limit stops it, the search goes on from an attempt. -/
theorem leads_cons (deep : ∀ s, Leads s (below s).2)
    (later : ∀ s result, Tried setting id depth below (index + 1) rest s result →
      Leads s result.2)
    (tried : Tried setting id depth below index (alternative :: rest) s result) :
    (setting.exceeded? s.journal.stats ≠ none ∧ result.2 = s) ∨
      Leads (s.record (.attempted id index s.pruner)) result.2 := by
  cases tried with
  | limited _ _ _ _ limit reached => exact Or.inl ⟨by simp [reached], rfl⟩
  | failed trial => exact Or.inr (leads_trial trial)
  | unfit trial no rest =>
    exact Or.inr ((leads_trial trial).trans ((leads_record _ _).trans (later _ _ rest)))
  | completed trial run => exact Or.inr (leads_below deep trial run)
  | unwound trial run => exact Or.inr ((leads_below deep trial run).trans (leads_retract _ _))
  | @stuck _ _ _ _ _ s₂ s₃ commit e trial run back =>
    have taken := leads_retract s₂ commit
    rw [back] at taken
    exact Or.inr ((leads_below deep trial run).trans taken)
  | @reentered _ _ _ _ _ s₂ s₃ commit event _ trial run back rest =>
    have taken := leads_retract s₂ commit
    rw [back] at taken
    exact Or.inr (((leads_below deep trial run).trans taken).trans
      ((leads_record s₃ event).trans (later _ _ rest)))

theorem leads_tried (deep : ∀ s, Leads s (below s).2)
    (tried : Tried setting id depth below index alternatives s result) : Leads s result.2 := by
  induction alternatives generalizing index s result with
  | nil =>
    cases tried
    exact .refl s
  | cons alternative rest ih =>
    rcases leads_cons deep (fun s result later => ih later) tried with ⟨-, same⟩ | leads
    · rw [same]
      exact .refl s
    · exact (leads_record s _).trans leads

theorem leads_tryEach (deep : ∀ s, Leads s (below s).2) (index : Nat)
    (alternatives : List (Alternative α)) (s : State (Transcribed σ α) α) :
    Leads s (tryEach setting id depth below index alternatives s).2 :=
  leads_tried deep (tried setting id depth below alternatives index s)

theorem leads_explore (setting : Setting) (depth : Nat)
    (ds : List (DisjunctionId × Disjunction α)) (s : State (Transcribed σ α) α) :
    Leads s (explore setting depth ds s).2 := by
  induction ds generalizing depth s with
  | nil => exact leads_leaf s
  | cons d ds ih => exact leads_tryEach (fun s => ih (depth + 1) s) 0 d.2.alternatives s

def unwind (stack : List Commit) (s : State (Transcribed σ α) α) : State (Transcribed σ α) α :=
  stack.foldl (fun s c => (s.retract c).2) s

theorem requests_unwind (stack : List Commit) (s : State (Transcribed σ α) α) :
    (unwind stack s).backend.requests =
      ((stack.flatMap Commit.constraints).map .remove).reverse ++ s.backend.requests := by
  induction stack generalizing s with
  | nil => rfl
  | cons c stack ih =>
    rw [unwind, List.foldl_cons, ← unwind, ih, requests_retract, List.flatMap_cons, List.map_append,
      List.reverse_append, List.append_assoc]

theorem journal_unwind (stack : List Commit) (s : State (Transcribed σ α) α) :
    (unwind stack s).journal = s.journal := by
  induction stack generalizing s with
  | nil => rfl
  | cons c stack ih => exact ih (s.retract c).2

/-- What becomes of a search through `ids` under a limit: it is the plain one, or it stops where the
plain one goes on to another attempt. -/
inductive Cut (limit : Nat) (ids : List DisjunctionId)
    (plain : Outcome × State (Transcribed σ α) α) : Outcome × State (Transcribed σ α) α → Prop
  | within (few : plain.2.journal.stats.attempts ≤ limit) : Cut limit ids plain plain
  | beyond (m : State (Transcribed σ α) α) (stack : List Commit) (id : DisjunctionId) (index : Nat)
      (spent : m.journal.stats.attempts = limit)
      (first : (stack.map Commit.disjunction).reverse <+: ids)
      (next : Leads (m.record (.attempted id index m.pruner)) plain.2) :
      Cut limit ids plain (.error (.stepLimitExceeded limit), unwind stack m)

theorem Setting.exceeded_some (limit : Nat) (names : Variable → String) (stats : Stats) :
    Setting.exceeded? ⟨some limit, names⟩ stats =
      if limit ≤ stats.attempts then some limit else none := by
  simp [Setting.exceeded?, Option.filter]

theorem leads_resume (deep : ∀ s, Leads s (below s).2)
    (answer : Outcome × State (Transcribed σ α) α) :
    Leads answer.2 (resume setting id depth below index rest commit answer).2 := by
  obtain ⟨outcome, s⟩ := answer
  have taken := leads_retract s commit
  unfold resume
  split
  · next run =>
    cases run
    exact .refl s
  · next run =>
    cases run
    exact taken
  · next run =>
    cases run
    split
    · next run =>
      rw [run] at taken
      exact taken
    · next run =>
      rw [run] at taken
      exact taken.trans ((leads_record _ _).trans (leads_tryEach deep _ _ _))

section Cutting

variable {limit : Nat} {names : Variable → String} {ids : List DisjunctionId}
  {plain limited : State (Transcribed σ α) α → Outcome × State (Transcribed σ α) α}

theorem Cut.resume {whole part : Outcome × State (Transcribed σ α) α}
    (cut : Cut limit ids whole part) (leads : ∀ s, Leads s (plain s).2)
    (later : ∀ s : State (Transcribed σ α) α, s.journal.stats.attempts ≤ limit →
      Cut limit (commit.disjunction :: ids)
        (tryEach ⟨none, names⟩ commit.disjunction depth plain (index + 1) rest s)
        (tryEach ⟨some limit, names⟩ commit.disjunction depth limited (index + 1) rest s)) :
    Cut limit (commit.disjunction :: ids)
      (resume ⟨none, names⟩ commit.disjunction depth plain index rest commit whole)
      (resume ⟨some limit, names⟩ commit.disjunction depth limited index rest commit part) := by
  cases cut with
  | within few =>
    obtain ⟨outcome, s⟩ := whole
    cases outcome with
    | error e => exact .within few
    | ok found =>
      cases found with
      | some commits => exact .within few
      | none =>
        have kept : (s.retract commit).2.journal = s.journal := rfl
        unfold Search.resume
        dsimp only
        generalize s.retract commit = removal at kept ⊢
        obtain ⟨removal, s'⟩ := removal
        have few' : s'.journal.stats.attempts ≤ limit := by
          change s'.journal = s.journal at kept
          rw [kept]
          exact few
        cases removal with
        | error e => exact .within few'
        | ok _ => exact later _ few'
  | beyond m stack id i spent first next =>
    have unwound : Search.resume ⟨some limit, names⟩ commit.disjunction depth limited index rest
        commit (.error (.stepLimitExceeded limit), unwind stack m) =
          (.error (.stepLimitExceeded limit), unwind (stack ++ [commit]) m) := by
      simp [Search.resume, unwind]
    rw [unwound]
    refine .beyond m (stack ++ [commit]) id i spent ?_ (next.trans (leads_resume leads whole))
    simpa using first

theorem cut_tryEach (leads : ∀ s, Leads s (plain s).2)
    (deep : ∀ s : State (Transcribed σ α) α, s.journal.stats.attempts ≤ limit →
      Cut limit ids (plain s) (limited s))
    (id : DisjunctionId) (depth index : Nat) (alternatives : List (Alternative α))
    (s : State (Transcribed σ α) α) (few : s.journal.stats.attempts ≤ limit) :
    Cut limit (id :: ids) (tryEach ⟨none, names⟩ id depth plain index alternatives s)
      (tryEach ⟨some limit, names⟩ id depth limited index alternatives s) := by
  induction alternatives generalizing index s with
  | nil => exact .within few
  | cons alternative rest ih =>
    have endless : Setting.exceeded? ⟨none, names⟩ s.journal.stats = none := rfl
    by_cases spent : limit ≤ s.journal.stats.attempts
    · have stopped : tryEach ⟨some limit, names⟩ id depth limited index (alternative :: rest) s =
          (.error (.stepLimitExceeded limit), unwind [] s) := by
        rw [tryEach, Setting.exceeded_some, if_pos spent]
        rfl
      rw [stopped]
      refine .beyond s [] id index (Nat.le_antisymm few spent) List.nil_prefix ?_
      rcases leads_cons leads (fun s result => leads_tried leads)
        (tried ⟨none, names⟩ id depth plain (alternative :: rest) index s) with ⟨shut, -⟩ | leads
      · exact absurd endless shut
      · exact leads
    · have free : Setting.exceeded? ⟨some limit, names⟩ s.journal.stats = none := by
        rw [Setting.exceeded_some, if_neg spent]
      have kept := journal_attempt (s.record (.attempted id index s.pruner)) id index alternative
      have step : (s.record (.attempted id index s.pruner)).journal.stats.attempts =
        s.journal.stats.attempts + 1 := rfl
      cases trial : (s.record (.attempted id index s.pruner)).attempt id index alternative with
      | mk verdict s₁ =>
        have few₁ : s₁.journal.stats.attempts ≤ limit := by
          rw [trial] at kept
          rw [show s₁.journal = _ from kept, step]
          omega
        cases verdict with
        | error e =>
          rw [tryEach_of_failed id depth plain index rest endless trial,
            tryEach_of_failed id depth limited index rest free trial]
          exact .within few₁
        | ok verdict =>
          by_cases unfit : verdict.Unfit
          · rw [tryEach_of_unfit id depth plain index rest endless trial unfit,
              tryEach_of_unfit id depth limited index rest free trial unfit]
            cases verdict <;> exact ih _ _ few₁
          · cases verdict with
            | pruned c => exact absurd trivial unfit
            | infeasible i => exact absurd trivial unfit
            | feasible commit =>
              rw [tryEach_of_feasible id depth plain index rest endless trial,
                tryEach_of_feasible id depth limited index rest free trial]
              obtain ⟨rfl, -⟩ := commit_of_attempt trial
              exact (deep (s₁.record (.committed commit.disjunction index depth)) few₁).resume leads
                (ih (index + 1))

theorem cut_explore (limit : Nat) (names : Variable → String) (depth : Nat)
    (ds : List (DisjunctionId × Disjunction α)) (s : State (Transcribed σ α) α)
    (few : s.journal.stats.attempts ≤ limit) :
    Cut limit (ds.map Prod.fst) (explore ⟨none, names⟩ depth ds s)
      (explore ⟨some limit, names⟩ depth ds s) := by
  induction ds generalizing depth s with
  | nil =>
    have kept : s.leaf.2.journal = s.journal := by
      unfold State.leaf
      split <;> rfl
    refine .within ?_
    change s.leaf.2.journal.stats.attempts ≤ limit
    rw [kept]
    exact few
  | cons d ds ih =>
    exact cut_tryEach (leads_explore _ _ ds) (ih (depth + 1)) d.1 depth 0 d.2.alternatives s few

end Cutting

end Search

end LinearChoice
