import LinearChoice.Proofs.Backend.Replay
import LinearChoice.Proofs.Pruner.Undo
import LinearChoice.Proofs.Search.Tried

/-!
# A fresh backend for every choice

The plain way to search is to try one choice after another, each from the start on
a fresh backend. A search that keeps one backend throughout comes to the same
answer if that backend answers by what it holds and nothing else.
-/

set_option autoImplicit false
set_option linter.unusedSectionVars false

namespace LinearChoice.Search

open Backend (accepts takes texts texts_append Served Traceless)

section Reference

variable {σ α : Type} [ExtendedScalar α] [BackendOver σ α] {fresh : σ}

def firstOf (below : List (Constraint α) → Option (List Nat)) (cs : List (Constraint α)) :
    Nat → List (Alternative α) → Option (List Nat)
  | _, [] => none
  | index, alternative :: rest =>
    match below (cs ++ alternative) with
    | some js => some (index :: js)
    | none => firstOf below cs (index + 1) rest

def firstAccepted (fresh : σ) :
    List (DisjunctionId × Disjunction α) → List (Constraint α) → Option (List Nat)
  | [], cs => if accepts fresh cs then some [] else none
  | d :: ds, cs => firstOf (firstAccepted fresh ds) cs 0 d.2.alternatives

def taken : List (DisjunctionId × Disjunction α) → List Nat → Option (List (Constraint α))
  | [], [] => some []
  | d :: ds, j :: js =>
    d.2.alternatives[j]?.bind fun alternative => (taken ds js).map (alternative ++ ·)
  | [], _ :: _ | _ :: _, [] => none

def Acceptable (fresh : σ) (ds : List (DisjunctionId × Disjunction α))
    (cs : List (Constraint α)) (js : List Nat) : Prop :=
  ∃ chosen, taken ds js = some chosen ∧ accepts fresh (cs ++ chosen) = true

instance (fresh : σ) (ds : List (DisjunctionId × Disjunction α)) (cs : List (Constraint α))
    (js : List Nat) : Decidable (Acceptable fresh ds cs js) :=
  decidable_of_iff ((taken ds js).any (fun chosen => accepts fresh (cs ++ chosen)) = true)
    (Option.any_eq_true _ _)

theorem acceptable_nil {cs : List (Constraint α)} {js : List Nat} :
    Acceptable fresh [] cs js ↔ js = [] ∧ accepts fresh cs = true := by
  cases js <;> simp [Acceptable, taken]

theorem acceptable_cons {d : DisjunctionId × Disjunction α}
    {ds : List (DisjunctionId × Disjunction α)}
    {cs : List (Constraint α)} {js : List Nat} :
    Acceptable fresh (d :: ds) cs js ↔
      ∃ j js' alternative, js = j :: js' ∧ d.2.alternatives[j]? = some alternative ∧
        Acceptable fresh ds (cs ++ alternative) js' := by
  constructor
  · rintro ⟨chosen, took, accepted⟩
    cases js with
    | nil => cases took
    | cons j js' =>
      obtain ⟨alternative, found, took⟩ := Option.bind_eq_some_iff.mp took
      obtain ⟨others, rest, rfl⟩ := Option.map_eq_some_iff.mp took
      rw [← List.append_assoc] at accepted
      exact ⟨j, js', alternative, rfl, found, others, rest, accepted⟩
  · rintro ⟨j, js', alternative, rfl, found, others, rest, accepted⟩
    rw [List.append_assoc] at accepted
    exact ⟨alternative ++ others, by simp [taken, found, rest], accepted⟩

theorem known_of_taken {C : Constraint α → Prop} {ds : List (DisjunctionId × Disjunction α)}
    (known : ∀ d ∈ ds, ∀ alternative ∈ d.2.alternatives, ∀ c ∈ alternative, C c) {js : List Nat}
    {chosen : List (Constraint α)} (h : taken ds js = some chosen) : ∀ c ∈ chosen, C c := by
  induction ds generalizing js chosen with
  | nil =>
    cases js with
    | nil =>
      cases h
      exact nofun
    | cons => cases h
  | cons d ds ih =>
    obtain ⟨own, others⟩ := List.forall_mem_cons.mp known
    cases js with
    | nil => cases h
    | cons j js =>
      obtain ⟨alternative, found, h⟩ := Option.bind_eq_some_iff.mp h
      obtain ⟨rest, later, rfl⟩ := Option.map_eq_some_iff.mp h
      rw [List.forall_mem_append]
      exact ⟨own alternative (List.mem_of_getElem? found), ih others later⟩

theorem firstOf_eq_some {below : List (Constraint α) → Option (List Nat)}
    {cs : List (Constraint α)} {alternatives : List (Alternative α)} {index : Nat} {js : List Nat}
    (h : firstOf below cs index alternatives = some js) :
    ∃ i alternative js', js = (index + i) :: js' ∧ alternatives[i]? = some alternative ∧
      below (cs ++ alternative) = some js' := by
  induction alternatives generalizing index with
  | nil => cases h
  | cons alternative rest ih =>
    rw [firstOf] at h
    split at h
    · next js' deep =>
      cases h
      exact ⟨0, alternative, js', rfl, rfl, deep⟩
    · obtain ⟨i, a, js', rfl, found, deep⟩ := ih h
      exact ⟨i + 1, a, js', by rw [Nat.add_right_comm, Nat.add_assoc], by simpa using found, deep⟩

/-- No alternative before the one that is answered leads anywhere. -/
theorem firstOf_of_below {below : List (Constraint α) → Option (List Nat)}
    {cs : List (Constraint α)} {alternatives : List (Alternative α)} (index : Nat) {i : Nat}
    {alternative : Alternative α} {js : List Nat} (found : alternatives[i]? = some alternative)
    (deep : below (cs ++ alternative) = some js) :
    ∃ j js', firstOf below cs index alternatives = some (j :: js') ∧
      (j < index + i ∨ j = index + i ∧ js' = js) := by
  induction alternatives generalizing index i with
  | nil => cases found
  | cons a rest ih =>
    rw [firstOf]
    split
    · next js' earlier =>
      refine ⟨index, js', rfl, ?_⟩
      cases i with
      | zero =>
        cases found
        rw [deep] at earlier
        exact Or.inr ⟨rfl, (Option.some.inj earlier).symm⟩
      | succ i => exact Or.inl (by omega)
    · next nowhere =>
      cases i with
      | zero =>
        cases found
        rw [deep] at nowhere
        contradiction
      | succ i =>
        rcases ih (index + 1) (by simpa using found) with
          ⟨j, js', first, before | ⟨same, rfl⟩⟩
        · exact ⟨j, js', first, Or.inl (by omega)⟩
        · exact ⟨j, js', first, Or.inr ⟨by omega, rfl⟩⟩

theorem acceptable_of_first {ds : List (DisjunctionId × Disjunction α)}
    {cs : List (Constraint α)} {js : List Nat} (h : firstAccepted fresh ds cs = some js) :
    Acceptable fresh ds cs js := by
  induction ds generalizing cs js with
  | nil =>
    rw [firstAccepted] at h
    split at h
    · next accepted =>
      cases h
      exact acceptable_nil.mpr ⟨rfl, accepted⟩
    · contradiction
  | cons d ds ih =>
    obtain ⟨i, alternative, js', rfl, found, deep⟩ := firstOf_eq_some h
    exact acceptable_cons.mpr ⟨_, js', alternative, rfl, by simpa using found, ih deep⟩

theorem first_of_acceptable {ds : List (DisjunctionId × Disjunction α)}
    {cs : List (Constraint α)} {js : List Nat} (h : Acceptable fresh ds cs js) :
    ∃ js', firstAccepted fresh ds cs = some js' ∧ ¬js < js' := by
  induction ds generalizing cs js with
  | nil =>
    obtain ⟨rfl, accepted⟩ := acceptable_nil.mp h
    exact ⟨[], by rw [firstAccepted, if_pos accepted], List.not_lt_nil _⟩
  | cons d ds ih =>
    obtain ⟨j, js, alternative, rfl, found, deep⟩ := acceptable_cons.mp h
    obtain ⟨js', first, least⟩ := ih deep
    obtain ⟨j', js'', answer, order⟩ := firstOf_of_below 0 found first
    refine ⟨j' :: js'', answer, fun less => ?_⟩
    rcases List.cons_lt_cons_iff.mp less with before | ⟨same, before⟩
    · omega
    · rcases order with earlier | ⟨-, rfl⟩
      · omega
      · exact least before

/-- What a fresh backend does not take is the start of no choice. -/
theorem first_eq_none {ds : List (DisjunctionId × Disjunction α)} {cs : List (Constraint α)}
    (refused : takes fresh cs = false) : firstAccepted fresh ds cs = none := by
  cases first : firstAccepted fresh ds cs with
  | none => rfl
  | some js =>
    obtain ⟨chosen, -, accepted⟩ := acceptable_of_first first
    rw [Backend.takes_of_append (Backend.takes_of_accepts accepted)] at refused
    contradiction

end Reference

section Setup

variable {σ α : Type} [ExtendedScalar α] [BackendOver σ α] (C : Constraint α → Prop) (fresh : σ)

def Harmless (mode : PruneMode) : Prop :=
  ∀ (cs : List (Constraint α)) (alternative : Alternative α) (conflict : PruneConflict α),
    (∀ c ∈ cs, C c) → (∀ c ∈ alternative, C c) →
    ((Pruner.empty mode).commit cs).check alternative = .error conflict →
      takes fresh (cs ++ alternative) = false

def Unhindered (setting : Setting) (mode : PruneMode) : Prop :=
  setting.stepLimit = none ∧ Harmless C fresh mode

structure Stacked (mode : PruneMode) (s : State σ α) (H : List (Entry α)) : Prop where
  served : Served C fresh H s.backend
  pruner : s.pruner = (Pruner.empty mode).commit (texts H)

end Setup

inductive Piled {α : Type} [ExtendedScalar α] (H₀ : List (Entry α)) :
    List Commit → List (Entry α) → Prop
  | base : Piled H₀ [] H₀
  | commit {layers : List Commit} {H : List (Entry α)} {c : Commit} (below : Piled H₀ layers H)
      (Q : List (Entry α)) (ids : c.constraints = Q.map Prod.fst)
      (mark : c.restore = ((Pruner.empty .off).commit (texts H)).mark) :
      Piled H₀ (c :: layers) (Q ++ H)

theorem Piled.texts_prefix {α : Type} [ExtendedScalar α] {H₀ H : List (Entry α)}
    {layers : List Commit} (h : Piled H₀ layers H) : texts H₀ <+: texts H := by
  induction h with
  | base => exact List.prefix_rfl
  | commit below Q _ _ ih =>
    rw [texts_append]
    exact ih.trans (List.prefix_append _ _)

inductive Replayed {σ α : Type} [ExtendedScalar α] [BackendOver σ α] (C : Constraint α → Prop)
    (fresh : σ) (setting : Setting) (mode : PruneMode) (H₀ : List (Entry α))
    (answer : Option (List Nat)) (ids : List DisjunctionId) (layers : List Commit)
    (H : List (Entry α)) : Outcome × State σ α → Prop
  | found {commits : List Commit} {s : State σ α} {H' : List (Entry α)}
      (stacked : Stacked C fresh mode s H') (piled : Piled H₀ (commits.reverse ++ layers) H')
      (decided : commits.map Commit.disjunction = ids)
      (same : Unhindered C fresh setting mode → answer = some (commits.map Commit.alternative)) :
      Replayed C fresh setting mode H₀ answer ids layers H (.ok (some commits), s)
  | exhausted {s : State σ α} (stacked : Stacked C fresh mode s H)
      (same : Unhindered C fresh setting mode → answer = none) :
      Replayed C fresh setting mode H₀ answer ids layers H (.ok none, s)
  | aborted {e : SystemError} {s : State σ α} (stacked : Stacked C fresh mode s H)
      (hindered : ¬Unhindered C fresh setting mode) :
      Replayed C fresh setting mode H₀ answer ids layers H (.error e, s)

variable {σ α : Type} [ExtendedScalar α] [BackendOver σ α] {C : Constraint α → Prop} {fresh : σ}
  {setting : Setting} {mode : PruneMode} {s s' : State σ α} {H H₀ : List (Entry α)}
  {alternative : Alternative α} {answer answer' : Option (List Nat)} {ids : List DisjunctionId}
  {layers : List Commit} {result : Outcome × State σ α} {d : DisjunctionId × Disjunction α}
  {ds : List (DisjunctionId × Disjunction α)} {index : Nat}

theorem Replayed.congr (h : Replayed C fresh setting mode H₀ answer ids layers H result)
    (same : Unhindered C fresh setting mode → answer = answer') :
    Replayed C fresh setting mode H₀ answer' ids layers H result := by
  cases h with
  | found stacked piled decided known =>
    exact .found stacked piled decided fun free => (same free).symm.trans (known free)
  | exhausted stacked known =>
    exact .exhausted stacked fun free => (same free).symm.trans (known free)
  | aborted stacked hindered => exact .aborted stacked hindered

namespace Stacked

theorem record (h : Stacked C fresh mode s H) (event : SearchEvent α) :
    Stacked C fresh mode (s.record event) H := ⟨h.served, h.pruner⟩

variable (T : Traceless C fresh)

include T

/-- An alternative is committed as a whole, or it is unfit and nothing is left of it. -/
theorem attempt (h : Stacked C fresh mode s H) (known : ∀ c ∈ alternative, C c)
    (id : DisjunctionId) (index : Nat) :
    (∃ (Q : List (Entry α)) (s' : State σ α), s.attempt id index alternative =
        (.ok (.feasible ⟨id, index, Q.map Prod.fst, s.pruner.mark⟩), s') ∧
      texts Q = alternative ∧ Stacked C fresh mode s' (Q ++ H)) ∨
    (∃ verdict s', s.attempt id index alternative = (.ok verdict, s') ∧ verdict.Unfit ∧
      Stacked C fresh mode s' H ∧
      (Harmless C fresh mode → takes fresh (texts H ++ alternative) = false)) := by
  unfold State.attempt
  cases checked : s.pruner.check alternative with
  | error conflict =>
    rw [h.pruner] at checked
    exact Or.inr ⟨_, s, rfl, trivial, h, fun harmless =>
      harmless _ alternative conflict h.served.known known checked⟩
  | ok _ =>
    rcases T.addAll_cases alternative known [] h.served with
      ⟨Q, b, run, added, served⟩ | ⟨refused, Q, b, run, served⟩
    · rw [List.map_nil, List.append_nil] at run
      left
      refine ⟨Q, { s with backend := b, pruner := s.pruner.commit alternative },
        by simp only [run], added, served, ?_⟩
      rw [texts_append, added, Pruner.commit_append, ← h.pruner]
    · rw [List.map_nil, List.append_nil] at run
      obtain ⟨b', back, served'⟩ := T.removeAll_run Q served
      right
      exact ⟨.infeasible (Q.map Prod.fst).length, { s with backend := b' },
        by simp only [run, back], trivial, ⟨served', h.pruner⟩, fun _ => refused⟩

theorem attempt_ne_error (h : Stacked C fresh mode s H) (known : ∀ c ∈ alternative, C c)
    (id : DisjunctionId) (index : Nat) (e : SystemError) :
    s.attempt id index alternative ≠ (.error e, s') := by
  rcases h.attempt T known id index with ⟨Q, s₁, run, -⟩ | ⟨verdict, s₁, run, -⟩
  all_goals
    rw [run]
    exact nofun

/-- What is unfit leaves nothing behind. -/
theorem unfit (h : Stacked C fresh mode s H) (known : ∀ c ∈ alternative, C c) {id : DisjunctionId}
    {index : Nat} {verdict : Attempt α}
    (trial : s.attempt id index alternative = (.ok verdict, s')) (no : verdict.Unfit) :
    Stacked C fresh mode s' H ∧
      (Harmless C fresh mode → takes fresh (texts H ++ alternative) = false) := by
  rcases h.attempt T known id index with ⟨Q, s₁, run, -⟩ | ⟨verdict', s₁, run, -, rest⟩
  · rw [run] at trial
    cases trial
    exact no.elim
  · rw [run] at trial
    cases trial
    exact rest

theorem retract {Q : List (Entry α)} (h : Stacked C fresh mode s (Q ++ H)) {c : Commit}
    (ids : c.constraints = Q.map Prod.fst)
    (mark : c.restore = ((Pruner.empty .off).commit (texts H)).mark) :
    ∃ s', s.retract c = (.ok (), s') ∧ Stacked C fresh mode s' H := by
  obtain ⟨b, run, served⟩ := T.removeAll_run Q h.served
  refine ⟨{ s with backend := b, pruner := s.pruner.undo c.restore },
    by simp only [State.retract, ids, run], served, ?_⟩
  rw [h.pruner, mark, ← Pruner.mark_commit mode, texts_append, Pruner.commit_append,
    Pruner.undo_commit]

end Stacked

section Run

variable (T : Traceless C fresh)

include T

section Below

-- The search below is one for the remaining decisions, from any state with the same constraints.
variable {depth : Nat} {below : State σ α → Outcome × State σ α}
  (deep : ∀ (s : State σ α) (layers : List Commit) (H : List (Entry α)),
    Stacked C fresh mode s H → Piled H₀ layers H →
    Replayed C fresh setting mode H₀ (firstAccepted fresh ds (texts H)) (ds.map Prod.fst) layers H
      (below s))
  (stacked : Stacked C fresh mode s H) (piled : Piled H₀ layers H) {id : DisjunctionId}

include deep stacked piled

section Commitment

variable (known : ∀ c ∈ alternative, C c) {commit : Commit}
  (trial : (s.record (.attempted id index s.pruner)).attempt id index alternative =
    (.ok (.feasible commit), s'))

include known trial

/-- What is known of the search below an alternative that was committed. -/
theorem replayed_below :
    ∃ Q : List (Entry α), commit.disjunction = id ∧ commit.alternative = index ∧
      commit.constraints = Q.map Prod.fst ∧
      commit.restore = ((Pruner.empty .off).commit (texts H)).mark ∧
      Replayed C fresh setting mode H₀ (firstAccepted fresh ds (texts H ++ alternative))
        (ds.map Prod.fst) (commit :: layers) (Q ++ H)
        (below (s'.record (.committed id index depth))) := by
  rcases (stacked.record (.attempted id index s.pruner)).attempt T known id index with
    ⟨Q, s₁, run, added, stacked'⟩ | ⟨verdict, s₁, run, unfit, -⟩
  · rw [run] at trial
    cases trial
    have mark : s.pruner.mark = ((Pruner.empty .off).commit (texts H)).mark :=
      stacked.pruner ▸ Pruner.mark_commit mode (texts H)
    refine ⟨Q, rfl, rfl, rfl, mark, ?_⟩
    rw [← added, ← texts_append]
    exact deep _ _ _ (stacked'.record _) (.commit piled Q rfl mark)
  · rw [run] at trial
    cases trial
    exact unfit.elim

/-- A commitment below which no choice is found is taken back, which restores the stack. -/
theorem replayed_back {outcome : Outcome} {s₂ : State σ α}
    (finish : below (s'.record (.committed id index depth)) = (outcome, s₂))
    (nothing : ∀ commits, outcome ≠ .ok (some commits)) :
    ∃ s₃, s₂.retract commit = (.ok (), s₃) ∧ Stacked C fresh mode s₃ H ∧
      (Unhindered C fresh setting mode → outcome = .ok none ∧
        firstAccepted fresh ds (texts H ++ alternative) = none) := by
  obtain ⟨Q, -, -, ids, mark, replayed⟩ := replayed_below T deep stacked piled known trial
  rw [finish] at replayed
  cases replayed with
  | found => exact absurd rfl (nothing _)
  | exhausted stacked' same =>
    obtain ⟨s₃, back, restored⟩ := stacked'.retract T ids mark
    exact ⟨s₃, back, restored, fun free => ⟨rfl, same free⟩⟩
  | aborted stacked' hindered =>
    obtain ⟨s₃, back, restored⟩ := stacked'.retract T ids mark
    exact ⟨s₃, back, restored, fun free => absurd free hindered⟩

end Commitment

/-- The trial of the alternatives from `index` on, given the search below each of them. -/
theorem replayed_tried {alternatives : List (Alternative α)}
    (h : Tried setting id depth below index alternatives s result)
    (known : ∀ alternative ∈ alternatives, ∀ c ∈ alternative, C c) :
    Replayed C fresh setting mode H₀
      (firstOf (firstAccepted fresh ds) (texts H) index alternatives) (id :: ds.map Prod.fst)
      layers H result := by
  -- Whatever was tried before, the stack is the same when the next alternative comes up.
  induction h with
  | exhausted index s => exact .exhausted stacked fun _ => rfl
  | limited index alternative rest s limit reached =>
    refine .aborted stacked fun free => ?_
    rw [setting.exceeded_eq_none free.1] at reached
    contradiction
  | failed trial =>
    obtain ⟨own, -⟩ := List.forall_mem_cons.mp known
    exact absurd trial ((stacked.record _).attempt_ne_error T own _ _ _)
  | @unfit index alternative rest s s₁ verdict event result trial no later ih =>
    obtain ⟨own, others⟩ := List.forall_mem_cons.mp known
    obtain ⟨stacked', refused⟩ := (stacked.record _).unfit T own trial no
    refine (ih (stacked'.record event) others).congr fun free => ?_
    rw [firstOf, first_eq_none (refused free.2)]
  | completed trial finish =>
    obtain ⟨own, -⟩ := List.forall_mem_cons.mp known
    obtain ⟨Q, this, chosen, -, -, replayed⟩ := replayed_below T deep stacked piled own trial
    rw [finish] at replayed
    cases replayed with
    | found stacked' piled' decided same =>
      refine .found stacked' (by simpa using piled') (by simp [this, decided]) fun free => ?_
      rw [firstOf, same free, List.map_cons, chosen]
  | unwound trial finish =>
    obtain ⟨own, -⟩ := List.forall_mem_cons.mp known
    obtain ⟨s₃, back, restored, same⟩ :=
      replayed_back T deep stacked piled own trial finish nofun
    rw [back]
    exact .aborted restored fun free => nomatch (same free).1
  | stuck trial finish back =>
    obtain ⟨own, -⟩ := List.forall_mem_cons.mp known
    obtain ⟨s₃, back', -⟩ := replayed_back T deep stacked piled own trial finish nofun
    rw [back] at back'
    cases back'
  | @reentered index alternative rest s s₁ s₂ s₃ commit event result trial finish back later ih =>
    obtain ⟨own, others⟩ := List.forall_mem_cons.mp known
    obtain ⟨s₃', back', restored, same⟩ :=
      replayed_back T deep stacked piled own trial finish nofun
    rw [back] at back'
    cases back'
    refine (ih (restored.record event) others).congr fun free => ?_
    rw [firstOf, (same free).2]

end Below

theorem replayed_leaf (stacked : Stacked C fresh mode s H) (piled : Piled H₀ layers H) :
    Replayed C fresh setting mode H₀ (firstAccepted fresh [] (texts H)) [] layers H
      (State.leaf s) := by
  obtain ⟨b, served, run⟩ := T.update_cases stacked.served
  unfold State.leaf
  rw [run]
  cases last : accepts fresh (texts H) with
  | true => exact .found ⟨served, stacked.pruner⟩ piled rfl fun _ => by simp [firstAccepted, last]
  | false => exact .exhausted ⟨served, stacked.pruner⟩ fun _ => by simp [firstAccepted, last]

theorem replayed_explore (ds : List (DisjunctionId × Disjunction α))
    (known : ∀ d ∈ ds, ∀ alternative ∈ d.2.alternatives, ∀ c ∈ alternative, C c) (depth : Nat)
    (stacked : Stacked C fresh mode s H) (piled : Piled H₀ layers H) :
    Replayed C fresh setting mode H₀ (firstAccepted fresh ds (texts H)) (ds.map Prod.fst) layers H
      (explore setting depth ds s) := by
  induction ds generalizing depth s layers H with
  | nil => exact replayed_leaf T stacked piled
  | cons d ds ih =>
    obtain ⟨own, others⟩ := List.forall_mem_cons.mp known
    have trial := tried setting d.1 depth (explore setting (depth + 1) ds) d.2.alternatives 0 s
    exact replayed_tried T (fun s layers H stacked piled => ih others (depth + 1) stacked piled)
      stacked piled trial own

end Run

end LinearChoice.Search
