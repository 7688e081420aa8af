import LinearChoice.Proofs.Backend.Overheard
import LinearChoice.Proofs.Search.Tried

/-!
# Where the errors of a search come from

A search fails at its step limit, or with an answer of its backend that it does
not put up with. On the way back the answers to removals are ignored, and the
error stays the one that stopped the search.
-/

set_option autoImplicit false
set_option linter.unusedSectionVars false

namespace LinearChoice.Search

variable {α : Type}

inductive Origin (stepLimit : Option Nat) (exchanges : List (Exchange α)) : SystemError → Prop
  | limited {limit : Nat} (set : stepLimit = some limit) :
      Origin stepLimit exchanges (.stepLimitExceeded limit)
  | answered {e : SolverError} {x : Exchange α} (overheard : x ∈ exchanges) (upsets : x.Upsets e) :
      Origin stepLimit exchanges (.solver e)

variable {stepLimit : Option Nat} {exchanges later : List (Exchange α)}

theorem Origin.mono {e : SystemError} (h : Origin stepLimit exchanges e)
    (more : exchanges ⊆ later) : Origin stepLimit later e := by
  cases h with
  | limited set => exact .limited set
  | answered overheard upsets => exact .answered (more overheard) upsets

theorem Setting.limit_of_exceeded {setting : Setting} {stats : Stats} {limit : Nat}
    (reached : setting.exceeded? stats = some limit) : setting.stepLimit = some limit :=
  (Option.filter_eq_some_iff.mp reached).1

variable {σ : Type} [ExtendedScalar α] [BackendOver σ α] {s s' : State (Overheard σ α) α}

theorem origin_removeAll (stepLimit : Option Nat) {ids : List ConstraintId} {r r' : Overheard σ α}
    {e : SolverError} (run : Backend.removeAll ids r = (.error e, r')) :
    Origin stepLimit r'.exchanges (.solver e) := by
  obtain ⟨id, overheard⟩ := Overheard.removed_of_error run
  exact .answered overheard (.remove id)

theorem subset_retract (s : State (Overheard σ α) α) (c : Commit) :
    s.backend.exchanges ⊆ (s.retract c).2.backend.exchanges :=
  Overheard.subset_removeAll c.constraints s.backend

theorem origin_retract (stepLimit : Option Nat) {c : Commit} {e : SolverError}
    (back : s.retract c = (.error e, s')) :
    Origin stepLimit s'.backend.exchanges (.solver e) := by
  cases run : Backend.removeAll c.constraints s.backend with
  | mk outcome b =>
    rw [State.retract, run] at back
    cases back
    exact origin_removeAll stepLimit run

/-- A refusal for unsatisfiability ends an attempt without an error. -/
theorem origin_attempt (stepLimit : Option Nat) {id : DisjunctionId} {index : Nat}
    {alternative : Alternative α} {e : SystemError}
    (trial : s.attempt id index alternative = (.error e, s')) :
    Origin stepLimit s'.backend.exchanges e := by
  have attempted := attempted s id index alternative
  rw [trial] at attempted
  cases attempted with
  | @failed _ added b _ passed run back other =>
    obtain ⟨c, refused⟩ := Overheard.refused_of_error run
    have kept := Overheard.subset_removeAll added b
    rw [back] at kept
    exact .answered (kept refused) (.add c other)
  | stuck passed run back => exact origin_removeAll stepLimit back

theorem origin_leaf (stepLimit : Option Nat) {e : SystemError} (run : s.leaf = (.error e, s')) :
    Origin stepLimit s'.backend.exchanges e := by
  unfold State.leaf at run
  split at run
  · cases run
  · cases run
  · next e b other asked =>
    cases run
    have overheard := Overheard.exchanges_of_update asked
    exact .answered (overheard ▸ List.mem_cons_self) (.update other)

theorem origin_tried {setting : Setting} {id : DisjunctionId} {depth index : Nat}
    {below : State (Overheard σ α) α → Outcome × State (Overheard σ α) α}
    {alternatives : List (Alternative α)} {result : Outcome × State (Overheard σ α) α}
    (deep : ∀ s s' e, below s = (.error e, s') → Origin setting.stepLimit s'.backend.exchanges e)
    (t : Tried setting id depth below index alternatives s result) {e : SystemError}
    (failed : result.1 = .error e) : Origin setting.stepLimit result.2.backend.exchanges e := by
  induction t with
  | exhausted | completed => cases failed
  | limited index alternative rest s limit reached =>
    cases failed
    exact .limited (Setting.limit_of_exceeded reached)
  | failed trial =>
    cases failed
    exact origin_attempt _ trial
  | unfit _ _ _ ih | reentered _ _ _ _ ih => exact ih failed
  | @unwound _ _ _ _ _ s₂ commit _ trial run =>
    cases failed
    exact (deep _ _ _ run).mono (subset_retract s₂ commit)
  | stuck trial run back =>
    cases failed
    exact origin_retract _ back

theorem origin_explore (setting : Setting) (depth : Nat) (ds : List (DisjunctionId × Disjunction α))
    {e : SystemError} (failed : explore setting depth ds s = (.error e, s')) :
    Origin setting.stepLimit s'.backend.exchanges e := by
  induction ds generalizing depth s s' e with
  | nil => exact origin_leaf _ failed
  | cons d ds ih =>
    have origin := origin_tried (fun s s' e run => ih (depth + 1) run)
      (tried setting d.1 depth (explore setting (depth + 1) ds) d.2.alternatives 0 s) (e := e)
    have run : tryEach setting d.1 depth (explore setting (depth + 1) ds) 0 d.2.alternatives s =
      (.error e, s') := failed
    rw [run] at origin
    exact origin rfl

end LinearChoice.Search
