import LinearChoice.Proofs.Backend.Contract
import LinearChoice.Proofs.Choices
import LinearChoice.Proofs.Search.Poised

/-!
# The first feasible choice

On a backend that decides, a search without a limit finds the first choice of
alternatives that is feasible as a whole, in the order of the decisions, and
reports nothing only if there is none. Whatever was committed on the way and
led nowhere is taken out of the backend and of the pruner again.
-/

set_option autoImplicit false
set_option linter.unusedSectionVars false

namespace LinearChoice.Search

variable {α : Type}

section Setup

variable {σ : Type} [ExtendedScalar α] [BackendOver σ α] (D : Deciding σ)

def Viable (M : Multiset (Constraint α)) (ds : List (DisjunctionId × Disjunction α))
    (js : List Nat) : Prop :=
  ∃ A, Picks ds js A ∧ D.feasible (A + M) ∧ D.final (A + M)

def Prudent (mode : PruneMode) (pre : Multiset (Constraint α)) : Prop :=
  ∀ (cs : List (Constraint α)) (alternative : Alternative α) (conflict : PruneConflict α),
    ((Pruner.empty mode).commit cs).check alternative = .error conflict →
      ¬D.feasible (alternative + (cs + pre))

structure Ready (mode : PruneMode) (pre : Multiset (Constraint α)) (s : State σ α)
    (H : Multiset (Entry α)) (cs : List (Constraint α)) : Prop where
  held : D.held s.backend = H
  texts : H.map Prod.snd = cs + pre
  feasible : D.feasible (cs + pre)
  pruner : s.pruner = (Pruner.empty mode).commit cs

end Setup

inductive Layered [ExtendedScalar α] (H₀ : Multiset (Entry α)) (cs₀ : List (Constraint α)) :
    List Commit → Multiset (Entry α) → List (Constraint α) → Prop
  | base : Layered H₀ cs₀ [] H₀ cs₀
  | commit {layers : List Commit} {H : Multiset (Entry α)} {cs : List (Constraint α)} {c : Commit}
      (below : Layered H₀ cs₀ layers H cs) (Q : List (Entry α)) (alternative : Alternative α)
      (ids : c.constraints = Q.map Prod.fst) (texts : Q.map Prod.snd = alternative.reverse)
      (mark : c.restore = ((Pruner.empty .off).commit cs).mark) :
      Layered H₀ cs₀ (c :: layers) (Q + H) (cs ++ alternative)

variable {σ : Type} [ExtendedScalar α] [BackendOver σ α] {D : Deciding σ} {mode : PruneMode}
  {pre M : Multiset (Constraint α)} {s s' : State σ α} {H H₀ : Multiset (Entry α)}
  {cs cs₀ : List (Constraint α)} {alternative : Alternative α}

theorem viable_cons {d : DisjunctionId × Disjunction α} {ds : List (DisjunctionId × Disjunction α)}
    {j : Nat} {js : List Nat} :
    Viable D M (d :: ds) (j :: js) ↔
      ∃ alternative, d.2.alternatives[j]? = some alternative ∧
        Viable D (alternative + M) ds js := by
  have shuffle (a A : Multiset (Constraint α)) : a + A + M = A + (a + M) := by
    rw [add_comm a A, add_assoc]
  constructor
  · rintro ⟨_, picks, feasible, final⟩
    cases picks with
    | cons found rest =>
      rw [shuffle] at feasible final
      exact ⟨_, found, _, rest, feasible, final⟩
  · rintro ⟨a, found, A, rest, feasible, final⟩
    rw [← shuffle] at feasible final
    exact ⟨_, .cons found rest, feasible, final⟩

theorem Viable.feasible {ds : List (DisjunctionId × Disjunction α)} {js : List Nat}
    (h : Viable D M ds js) : D.feasible M := by
  obtain ⟨A, -, feasible, -⟩ := h
  exact D.feasible_mono _ _ (Multiset.le_add_left M A) feasible

namespace Ready

theorem record (h : Ready D mode pre s H cs) (event : SearchEvent α) :
    Ready D mode pre (s.record event) H cs := ⟨h.held, h.texts, h.feasible, h.pruner⟩

theorem constraints (h : Ready D mode pre s H cs) : D.constraints s.backend = cs + pre := by
  rw [Contract.constraints, h.held, h.texts]

theorem poised (h : Ready D mode pre s H cs) : Poised D.reliable mode s H cs := ⟨h.held, h.pruner⟩

/-- Moving the backend without a change to what is held. -/
theorem moved (h : Ready D mode pre s H cs) {b : σ} (same : D.held b = H) :
    Ready D mode pre { s with backend := b } H cs := ⟨same, h.texts, h.feasible, h.pruner⟩

/-- An alternative is committed as a whole, or it is unfit and nothing has changed. -/
theorem attempt (h : Ready D mode pre s H cs) (id : DisjunctionId) (index : Nat)
    (alternative : Alternative α) :
    (∃ (Q : List (Entry α)) (s' : State σ α), s.attempt id index alternative =
        (.ok (.feasible ⟨id, index, Q.map Prod.fst, s.pruner.mark⟩), s') ∧
      Q.map Prod.snd = alternative.reverse ∧ Ready D mode pre s' (Q + H) (cs ++ alternative)) ∨
    (∃ verdict s', s.attempt id index alternative = (.ok verdict, s') ∧ verdict.Unfit ∧
      Ready D mode pre s' H cs ∧
      (Prudent D mode pre → ¬D.feasible (alternative + (cs + pre)))) := by
  rcases h.poised.attempt h.constraints id index alternative with
    ⟨Q, s', run, texts, -, poised, all⟩ | ⟨conflict, run, rejected⟩ |
      ⟨n, s', run, -, poised, -, refused⟩
  · refine Or.inl ⟨Q, s', run, texts, poised.held, ?_, ?_, poised.pruner⟩
    · rw [committed_eq, Multiset.map_add, h.texts, Multiset.map_coe, texts, Multiset.coe_reverse]
    · rw [committed_eq]
      exact D.feasible_of_taken all h.feasible
  · exact Or.inr ⟨_, s, run, trivial, h, fun prudent => prudent cs alternative conflict rejected⟩
  · exact Or.inr ⟨_, s', run, trivial, ⟨poised.held, h.texts, h.feasible, poised.pruner⟩,
      fun _ => refused⟩

theorem attempt_ne_error (h : Ready D mode pre s H cs) (id : DisjunctionId) (index : Nat)
    (e : SystemError) : s.attempt id index alternative ≠ (.error e, s') := by
  rcases h.attempt id index alternative with ⟨Q, s₁, run, -⟩ | ⟨verdict, s₁, run, -⟩
  all_goals
    rw [run]
    exact nofun

/-- What is unfit leaves nothing behind. -/
theorem unfit (h : Ready D mode pre s H cs) {id : DisjunctionId} {index : Nat}
    {verdict : Attempt α} (trial : s.attempt id index alternative = (.ok verdict, s'))
    (no : verdict.Unfit) :
    Ready D mode pre s' H cs ∧
      (Prudent D mode pre → ¬D.feasible (alternative + (cs + pre))) := by
  rcases h.attempt id index alternative with ⟨Q, s₁, run, -⟩ | ⟨verdict', s₁, run, -, rest⟩
  · rw [run] at trial
    cases trial
    exact no.elim
  · rw [run] at trial
    cases trial
    exact rest

/-- Taking back the latest commitment restores the state from before it. -/
theorem retract {Q : List (Entry α)} (h : Ready D mode pre s (Q + H) (cs ++ alternative))
    {c : Commit}
    (ids : c.constraints = Q.map Prod.fst) (texts : Q.map Prod.snd = alternative.reverse)
    (mark : c.restore = ((Pruner.empty .off).commit cs).mark) :
    ∃ s', s.retract c = (.ok (), s') ∧ Ready D mode pre s' H cs := by
  obtain ⟨s', run, -, poised⟩ := h.poised.retract ids mark
  have total := h.texts
  have feasible := h.feasible
  rw [committed_eq] at total feasible
  rw [Multiset.map_add, Multiset.map_coe, texts, Multiset.coe_reverse, add_left_cancel_iff] at total
  exact ⟨s', run, poised.held, total, D.feasible_mono _ _ (Multiset.le_add_left _ _) feasible,
    poised.pruner⟩

end Ready

def Thorough (D : Deciding σ) (setting : Setting) (mode : PruneMode)
    (pre : Multiset (Constraint α)) : Prop :=
  setting.stepLimit = none ∧ Prudent D mode pre

/-- How a search comes out that decides `ids` on top of some layers, where `V` tells which choices
there are to be found. -/
inductive Settled (D : Deciding σ) (setting : Setting) (mode : PruneMode)
    (pre : Multiset (Constraint α)) (H₀ : Multiset (Entry α)) (cs₀ : List (Constraint α))
    (V : List Nat → Prop) (ids : List DisjunctionId) (layers : List Commit) (H : Multiset (Entry α))
    (cs : List (Constraint α)) : Outcome × State σ α → Prop
  | found {commits : List Commit} {s : State σ α} {H' : Multiset (Entry α)}
      {cs' : List (Constraint α)} (ready : Ready D mode pre s H' cs')
      (layered : Layered H₀ cs₀ (commits.reverse ++ layers) H' cs')
      (decided : commits.map Commit.disjunction = ids)
      (first : Thorough D setting mode pre → V (commits.map Commit.alternative) ∧
        ∀ js, V js → ¬js < commits.map Commit.alternative) :
      Settled D setting mode pre H₀ cs₀ V ids layers H cs (.ok (some commits), s)
  | exhausted {s : State σ α} (ready : Ready D mode pre s H cs)
      (nothing : Thorough D setting mode pre → ∀ js, ¬V js) :
      Settled D setting mode pre H₀ cs₀ V ids layers H cs (.ok none, s)
  | aborted {e : SystemError} {s : State σ α} (ready : Ready D mode pre s H cs)
      (limited : ¬Thorough D setting mode pre) :
      Settled D setting mode pre H₀ cs₀ V ids layers H cs (.error e, s)

variable {setting : Setting} {V V' : List Nat → Prop} {ids : List DisjunctionId}
  {layers : List Commit} {result : Outcome × State σ α} {d : DisjunctionId × Disjunction α}
  {ds : List (DisjunctionId × Disjunction α)} {index : Nat}

theorem Settled.imp (h : Settled D setting mode pre H₀ cs₀ V ids layers H cs result)
    (same : Thorough D setting mode pre → ∀ js, V js ↔ V' js) :
    Settled D setting mode pre H₀ cs₀ V' ids layers H cs result := by
  cases h with
  | found ready layered decided first =>
    refine .found ready layered decided fun thorough => ?_
    obtain ⟨viable, least⟩ := first thorough
    exact ⟨(same thorough _).mp viable, fun js hjs => least js ((same thorough js).mpr hjs)⟩
  | exhausted ready nothing =>
    exact .exhausted ready fun thorough js hjs =>
      nothing thorough js ((same thorough js).mpr hjs)
  | aborted ready limited => exact .aborted ready limited

def ViableFrom (D : Deciding σ) (M : Multiset (Constraint α))
    (d : DisjunctionId × Disjunction α) (ds : List (DisjunctionId × Disjunction α)) (index : Nat)
    (js : List Nat) : Prop :=
  Viable D M (d :: ds) js ∧ index ≤ js.headI

theorem not_viable_nil : ¬Viable D M (d :: ds) [] := by
  rintro ⟨A, picks, -⟩
  cases picks

/-- Where an alternative leads nowhere, the choices are those from the next one on. -/
theorem viableFrom_succ (found : d.2.alternatives[index]? = some alternative)
    (nowhere : ∀ js, ¬Viable D (alternative + M) ds js) (js : List Nat) :
    ViableFrom D M d ds (index + 1) js ↔ ViableFrom D M d ds index js := by
  refine ⟨fun h => ⟨h.1, Nat.le_of_succ_le h.2⟩, fun h => ⟨h.1, ?_⟩⟩
  cases js with
  | nil => exact absurd h.1 not_viable_nil
  | cons j js =>
    obtain ⟨a, ha, deep⟩ := viable_cons.mp h.1
    refine Nat.lt_of_le_of_ne h.2 fun same => ?_
    have same : index = j := same
    rw [← same, found] at ha
    cases ha
    exact nowhere js deep

theorem viableFrom_end (past : d.2.alternatives.length ≤ index) (js : List Nat) :
    ¬ViableFrom D M d ds index js := by
  rintro ⟨viable, le⟩
  cases js with
  | nil => exact not_viable_nil viable
  | cons j js =>
    obtain ⟨a, ha, -⟩ := viable_cons.mp viable
    have beyond : d.2.alternatives.length ≤ j := past.trans le
    rw [List.getElem?_eq_none beyond] at ha
    contradiction

theorem first_cons (found : d.2.alternatives[index]? = some alternative) {js : List Nat}
    (viable : Viable D (alternative + M) ds js)
    (least : ∀ js', Viable D (alternative + M) ds js' → ¬js' < js) :
    ViableFrom D M d ds index (index :: js) ∧
      ∀ js', ViableFrom D M d ds index js' → ¬js' < index :: js := by
  refine ⟨⟨viable_cons.mpr ⟨alternative, found, viable⟩, Nat.le_refl index⟩, ?_⟩
  rintro js' ⟨viable', le⟩ less
  cases js' with
  | nil => exact not_viable_nil viable'
  | cons j js' =>
    rcases List.cons_lt_cons_iff.mp less with hlt | ⟨rfl, hlt⟩
    · exact absurd le (Nat.not_le_of_lt hlt)
    · obtain ⟨a, ha, deep⟩ := viable_cons.mp viable'
      rw [found] at ha
      cases ha
      exact least js' deep hlt

section Below

-- The search below is one for the remaining decisions, from any state that is ready for them.
variable {depth : Nat} {below : State σ α → Outcome × State σ α}
  (deep : ∀ (s : State σ α) (layers : List Commit) (H : Multiset (Entry α))
    (cs : List (Constraint α)), Ready D mode pre s H cs → Layered H₀ cs₀ layers H cs →
    Settled D setting mode pre H₀ cs₀ (Viable D (cs + pre) ds) (ds.map Prod.fst) layers H cs
      (below s))
  (ready : Ready D mode pre s H cs) (layered : Layered H₀ cs₀ layers H cs)

include deep ready layered

section Commitment

variable {id : DisjunctionId} {commit : Commit}
  (trial : (s.record (.attempted id index s.pruner)).attempt id index alternative =
    (.ok (.feasible commit), s'))

include trial

/-- What is known of the search below an alternative that was committed. -/
theorem settled_below :
    ∃ Q : List (Entry α), commit.disjunction = id ∧ commit.alternative = index ∧
      commit.constraints = Q.map Prod.fst ∧ Q.map Prod.snd = alternative.reverse ∧
      commit.restore = ((Pruner.empty .off).commit cs).mark ∧
      Settled D setting mode pre H₀ cs₀ (Viable D (alternative + (cs + pre)) ds) (ds.map Prod.fst)
        (commit :: layers) (Q + H) (cs ++ alternative)
        (below (s'.record (.committed id index depth))) := by
  rcases (ready.record (.attempted id index s.pruner)).attempt id index alternative with
    ⟨Q, s₁, run, texts, ready'⟩ | ⟨verdict, s₁, run, unfit, -⟩
  · rw [run] at trial
    cases trial
    have mark : s.pruner.mark = ((Pruner.empty .off).commit cs).mark :=
      ready.pruner ▸ Pruner.mark_commit mode cs
    refine ⟨Q, rfl, rfl, rfl, texts, mark, ?_⟩
    rw [← committed_eq]
    exact deep _ _ _ _ (ready'.record _) (.commit layered Q alternative rfl texts mark)
  · rw [run] at trial
    cases trial
    exact unfit.elim

/-- A commitment below which no choice is found is taken back, which makes the state ready again. -/
theorem settled_back {outcome : Outcome} {s₂ : State σ α}
    (finish : below (s'.record (.committed id index depth)) = (outcome, s₂))
    (nothing : ∀ commits, outcome ≠ .ok (some commits)) :
    ∃ s₃, s₂.retract commit = (.ok (), s₃) ∧ Ready D mode pre s₃ H cs ∧
      (Thorough D setting mode pre →
        outcome = .ok none ∧ ∀ js, ¬Viable D (alternative + (cs + pre)) ds js) := by
  obtain ⟨Q, -, -, ids, texts, mark, settled⟩ := settled_below deep ready layered trial
  rw [finish] at settled
  cases settled with
  | found => exact absurd rfl (nothing _)
  | exhausted ready' none =>
    obtain ⟨s₃, back, restored⟩ := ready'.retract ids texts mark
    exact ⟨s₃, back, restored, fun thorough => ⟨rfl, none thorough⟩⟩
  | aborted ready' limited =>
    obtain ⟨s₃, back, restored⟩ := ready'.retract ids texts mark
    exact ⟨s₃, back, restored, fun thorough => absurd thorough limited⟩

end Commitment

/-- The trial of the alternatives from `index` on, given the search below each of them. -/
theorem settled_tried {alternatives : List (Alternative α)}
    (h : Tried setting d.1 depth below index alternatives s result)
    (left : d.2.alternatives.drop index = alternatives) :
    Settled D setting mode pre H₀ cs₀ (ViableFrom D (cs + pre) d ds index)
      (d.1 :: ds.map Prod.fst) layers H cs result := by
  induction h with
  | exhausted index s =>
    exact .exhausted ready fun _ => viableFrom_end (List.drop_eq_nil_iff.mp left)
  | limited index alternative rest s limit reached =>
    refine .aborted ready fun thorough => ?_
    rw [setting.exceeded_eq_none thorough.1] at reached
    contradiction
  | failed trial => exact absurd trial ((ready.record _).attempt_ne_error _ _ _)
  | @unfit index alternative rest s s₁ verdict event result trial no later ih =>
    obtain ⟨ready', refused⟩ := (ready.record _).unfit trial no
    refine (ih (ready'.record event) (drop_succ left).2).imp fun thorough js => ?_
    exact viableFrom_succ (drop_succ left).1
      (fun js viable => refused thorough.2 viable.feasible) js
  | completed trial finish =>
    obtain ⟨Q, own, chosen, -, -, -, settled⟩ := settled_below deep ready layered trial
    rw [finish] at settled
    cases settled with
    | found ready' layered' decided first =>
      refine .found ready' (by simpa using layered') (by simp [own, decided]) fun thorough => ?_
      rw [List.map_cons, chosen]
      exact first_cons (drop_succ left).1 (first thorough).1 (first thorough).2
  | unwound trial finish =>
    obtain ⟨s₃, back, restored, none⟩ := settled_back deep ready layered trial finish nofun
    rw [back]
    exact .aborted restored fun thorough => nomatch (none thorough).1
  | stuck trial finish back =>
    obtain ⟨s₃, back', -⟩ := settled_back deep ready layered trial finish nofun
    rw [back] at back'
    cases back'
  | @reentered index alternative rest s s₁ s₂ s₃ commit event result trial finish back later ih =>
    obtain ⟨s₃', back', restored, none⟩ := settled_back deep ready layered trial finish nofun
    rw [back] at back'
    cases back'
    refine (ih (restored.record event) (drop_succ left).2).imp fun thorough js => ?_
    exact viableFrom_succ (drop_succ left).1 (none thorough).2 js

end Below

theorem settled_leaf (ready : Ready D mode pre s H cs) (layered : Layered H₀ cs₀ layers H cs) :
    Settled D setting mode pre H₀ cs₀ (Viable D (cs + pre) []) [] layers H cs (State.leaf s) := by
  unfold State.leaf
  have total : D.constraints s.backend = 0 + (cs + pre) := by rw [ready.constraints, zero_add]
  rcases D.update_cases s.backend with ⟨b, run, held, final⟩ | ⟨b, run, held, final⟩
  · rw [run]
    rw [total] at final
    refine .found (ready.moved (held.trans ready.held)) layered rfl fun _ => ?_
    refine ⟨⟨0, .nil, by simpa using ready.feasible, final⟩, fun js _ less => ?_⟩
    exact absurd less (List.not_lt_nil js)
  · rw [run]
    rw [total] at final
    refine .exhausted (ready.moved (held.trans ready.held)) fun _ js viable => ?_
    obtain ⟨A, picks, -, final'⟩ := viable
    cases picks
    exact final final'

theorem settled_explore (ds : List (DisjunctionId × Disjunction α)) (depth : Nat)
    (ready : Ready D mode pre s H cs) (layered : Layered H₀ cs₀ layers H cs) :
    Settled D setting mode pre H₀ cs₀ (Viable D (cs + pre) ds) (ds.map Prod.fst) layers H cs
      (explore setting depth ds s) := by
  induction ds generalizing depth s layers H cs with
  | nil => exact settled_leaf ready layered
  | cons d ds ih =>
    have trial := tried setting d.1 depth (explore setting (depth + 1) ds) d.2.alternatives 0 s
    have settled := settled_tried (fun s layers H cs ready layered => ih (depth + 1) ready layered)
      ready layered trial rfl
    exact settled.imp fun _ js => ⟨And.left, fun viable => ⟨viable, Nat.zero_le _⟩⟩

end LinearChoice.Search
