import LinearChoice.Proofs.Backend.Shelf
import LinearChoice.Proofs.ChoiceSystem.Follows
import LinearChoice.Proofs.Search.Limit

/-!
# Solving under a limit

What a solve writes down and what it asks of its backend, with a limit and
without one, on whatever backend. A limit that the plain solve does not come to
changes nothing. Otherwise the two are alike up to the attempt for which no step
is left.
-/

set_option autoImplicit false
set_option linter.unusedSectionVars false

namespace LinearChoice

variable {α : Type}

theorem Transcribed.follows {σ α : Type} [BackendOver σ α] :
    Backend.Follows (Transcribed.inner : Transcribed σ α → σ) where
  newVariable _ := rfl
  addConstraint _ _ := rfl
  removeConstraint _ _ := rfl
  updateVariables _ := rfl
  value _ := rfl

namespace ChoiceSystem

variable [ExtendedScalar α] [Numeral α]

section Reading

variable {σ : Type} [BackendOver σ α] (s : ChoiceSystem σ α)

def journal : Journal α :=
  match s.discarded, s.retractKept with
  | false, (.ok (), s') => s'.clearValues.search.2.journal
  | _, _ => Journal.empty

def transcript : List (Request α) :=
  (s.map (Transcribed.ofBackend (α := α))).solve.2.backend.requests

variable {s}

theorem journal_of_retracted {s' : ChoiceSystem σ α} (usable : s.discarded = false)
    (run : s.retractKept = (.ok (), s')) : s.journal = s'.clearValues.search.2.journal := by
  rw [journal, usable, run]

end Reading

section Limiting

variable {σ τ : Type}

def withLimit (s : ChoiceSystem σ α) (limit : Option Nat) : ChoiceSystem σ α :=
  { s with config := { s.config with stepLimit := limit } }

variable [BackendOver σ α] [BackendOver τ α]

theorem retractKept_withLimit (s : ChoiceSystem σ α) (limit : Option Nat) :
    (s.withLimit limit).retractKept = s.retractKept.map id fun s' => s'.withLimit limit := rfl

theorem conclude_withLimit (s : ChoiceSystem σ α) (limit : Option Nat)
    (answer : Search.Outcome × Search.State σ α) :
    (s.withLimit limit).conclude answer =
      (s.conclude answer).map id fun s' => s'.withLimit limit := by
  obtain ⟨outcome, state⟩ := answer
  cases outcome with
  | error e => rfl
  | ok found => cases found <;> rfl

theorem journal_map {f : σ → τ} (h : Backend.Follows f) (s : ChoiceSystem σ α) :
    (s.map f).journal = s.journal := by
  cases gone : s.discarded with
  | true =>
    have gone' : (s.map f).discarded = true := gone
    simp [journal, gone, gone']
  | false =>
    have usable : (s.map f).discarded = false := gone
    have run' := retractKept_map h s
    cases run : s.retractKept with
    | mk outcome s' =>
      rw [run] at run'
      cases outcome with
      | error e => simp [journal, gone, usable, run, run', Prod.map]
      | ok _ =>
        rw [journal_of_retracted gone run, journal_of_retracted usable run']
        exact congrArg (fun answer => answer.2.journal) (search_map h s'.clearValues)

inductive Course (s : ChoiceSystem σ α) : Prop
  | idle (e : SystemError) (s' : ChoiceSystem σ α)
      (solve : ∀ limit, (s.withLimit limit).solve = (.error e, s'.withLimit limit))
      (journal : ∀ limit, (s.withLimit limit).journal = Journal.empty)
  | searched (s' : ChoiceSystem σ α)
      (offers : s'.disjunctions = s.disjunctions) (config : s'.config = s.config)
      (solve : ∀ limit, (s.withLimit limit).solve =
        (s'.conclude (s'.withLimit limit).search).map id fun s' => s'.withLimit limit)
      (journal : ∀ limit, (s.withLimit limit).journal = (s'.withLimit limit).search.2.journal)

theorem course (s : ChoiceSystem σ α) : Course s := by
  have usable (limit : Option Nat) : (s.withLimit limit).discarded = s.discarded := rfl
  have retracted (limit : Option Nat) := s.retractKept_withLimit limit
  cases gone : s.discarded with
  | true =>
    refine .idle .discarded s (fun limit => ?_) (fun limit => ?_)
    · rw [solve, usable, if_pos gone]
    · simp [journal, usable, gone]
  | false =>
    cases run : s.retractKept with
    | mk outcome s' =>
      rw [run] at retracted
      cases outcome with
      | error e =>
        refine .idle e s' (fun limit => ?_) (fun limit => ?_)
        · exact (s.withLimit limit).solve_of_stuck gone (retracted limit)
        · rw [journal, usable, gone, retracted]
          rfl
      | ok _ =>
        have same : s' = s.retractKept.2 := by rw [run]
        refine .searched s'.clearValues (same ▸ rfl) (same ▸ rfl) (fun limit => ?_) (fun limit => ?_)
        · rw [(s.withLimit limit).solve_of_retracted gone (retracted limit)]
          exact s'.clearValues.conclude_withLimit limit _
        · exact journal_of_retracted (s := s.withLimit limit) gone (retracted limit)

end Limiting

section Comparison

variable {σ : Type} [BackendOver σ α] (limit : Nat)
  (plain limited s : ChoiceSystem σ α)

structure Unimpeded : Prop where
  solve : limited.solve = plain.solve.map id fun s => s.withLimit limited.config.stepLimit
  journal : limited.journal = plain.journal
  transcript : limited.transcript = plain.transcript

structure CutShort : Prop where
  answer : limited.solve.1 = .error (.stepLimitExceeded limit)
  attempts : limited.journal.attempts = limit
  events : ∃ id index seen,
    .attempted id index seen :: limited.journal.events <:+ plain.journal.events
  requests : ∃ (stack : List Commit) (before : List (Request α)),
    (stack.map Commit.disjunction).reverse <+:
      (plain.disjunctions.decisions plain.config.order).map Prod.fst ∧
    limited.transcript = ((stack.flatMap Commit.constraints).map .remove).reverse ++ before ∧
    before <:+ plain.transcript

/-- The search starts with an empty journal and no step taken. -/
theorem cut_search (s : ChoiceSystem (Transcribed σ α) α) (limit : Nat) :
    Search.Cut limit ((s.disjunctions.decisions s.config.order).map Prod.fst)
      (s.withLimit none).search (s.withLimit (some limit)).search :=
  Search.cut_explore limit _ 0 _ _ (Nat.zero_le limit)

theorem attempts_search (s : ChoiceSystem (Transcribed σ α) α) :
    s.search.2.journal.stats.attempts = s.search.2.journal.attempts :=
  (Search.leads_explore _ 0 _ ⟨s.backend, s.pruner, Journal.empty⟩).journal.attempts_eq

def transcribed (s : ChoiceSystem σ α) : ChoiceSystem (Transcribed σ α) α :=
  s.map (Transcribed.ofBackend (α := α))

theorem solve_transcribed (s : ChoiceSystem σ α) (l : Option Nat) :
    (s.withLimit l).solve =
      (s.transcribed.withLimit l).solve.map id (map Transcribed.inner) :=
  solve_map Transcribed.follows (s.transcribed.withLimit l)

theorem journal_transcribed (s : ChoiceSystem σ α) (l : Option Nat) :
    (s.withLimit l).journal = (s.transcribed.withLimit l).journal :=
  journal_map Transcribed.follows (s.transcribed.withLimit l)

theorem transcript_transcribed (s : ChoiceSystem σ α) (l : Option Nat) :
    (s.withLimit l).transcript = (s.transcribed.withLimit l).solve.2.backend.requests := rfl

/-- A limit that changes nothing while the requests are written down changes nothing at all. -/
theorem unimpeded_of_transcribed {s : ChoiceSystem σ α} {limit : Nat}
    (solve : (s.transcribed.withLimit (some limit)).solve =
      (s.transcribed.withLimit none).solve.map id fun t => t.withLimit (some limit))
    (journal : (s.transcribed.withLimit (some limit)).journal =
      (s.transcribed.withLimit none).journal) :
    Unimpeded (s.withLimit none) (s.withLimit (some limit)) where
  solve := by
    rw [s.solve_transcribed (some limit), s.solve_transcribed none, solve]
    rfl
  journal := by rw [s.journal_transcribed (some limit), s.journal_transcribed none, journal]
  transcript := by
    rw [s.transcript_transcribed (some limit), s.transcript_transcribed none, solve]
    rfl

theorem solve_withLimit (s : ChoiceSystem σ α) (limit : Nat) :
    ((s.withLimit none).journal.attempts ≤ limit ∧
      Unimpeded (s.withLimit none) (s.withLimit (some limit))) ∨
    (limit < (s.withLimit none).journal.attempts ∧
      CutShort limit (s.withLimit none) (s.withLimit (some limit))) := by
  cases course s.transcribed with
  | idle e t solve journal =>
    refine Or.inl ⟨?_, unimpeded_of_transcribed ?_ ?_⟩
    · rw [journal_transcribed, journal]
      exact Nat.zero_le limit
    · rw [solve, solve]
      rfl
    · rw [journal, journal]
  | searched t offers config solve journal =>
    have cut := t.cut_search limit
    have counted := attempts_search (t.withLimit none)
    have counted' := attempts_search (t.withLimit (some limit))
    generalize whole : (t.withLimit none).search = plain at cut counted
    generalize part : (t.withLimit (some limit)).search = limited at cut counted'
    cases cut with
    | within few =>
      refine Or.inl ⟨?_, unimpeded_of_transcribed ?_ ?_⟩
      · rw [journal_transcribed, journal, whole, ← counted]
        exact few
      · rw [solve, solve, whole, part]
        rfl
      · rw [journal, journal, whole, part]
    | beyond m stack id index spent first next =>
      have past := next.journal.attempts_le
      have step : (m.record (.attempted id index m.pruner)).journal.stats.attempts =
        m.journal.stats.attempts + 1 := rfl
      refine Or.inr ⟨?_, ?_, ?_, ?_, ?_⟩
      · rw [journal_transcribed, journal, whole, ← counted]
        omega
      · rw [solve_transcribed, solve, part]
        rfl
      · rw [journal_transcribed, journal, part, ← counted', Search.journal_unwind, spent]
      · rw [s.journal_transcribed (some limit), s.journal_transcribed none, journal, journal,
          whole, part, Search.journal_unwind]
        exact ⟨id, index, m.pruner, next.journal.events⟩
      · rw [s.transcript_transcribed (some limit), s.transcript_transcribed none, solve, solve,
          whole, part]
        refine ⟨stack, m.backend.requests, ?_, Search.requests_unwind stack m, ?_⟩
        · rw [offers, config] at first
          exact first
        · have ended := t.backend_conclude plain
          have onward : m.backend.requests <:+ plain.2.backend.requests := next.requests
          rw [← ended] at onward
          exact onward

/-- A limit that a solve without one does not exceed changes nothing, not even on a backend that
fails. Any other limit ends the solve after that many attempts, each of which the solve without a
limit makes as well, with the same requests to the backend up to the removals at the end. -/
theorem solve_limited (s : ChoiceSystem σ α) (config : Config) (limit : Nat) :
    ((s.setConfig { config with stepLimit := none }).journal.attempts ≤ limit →
      Unimpeded (s.setConfig { config with stepLimit := none })
        (s.setConfig { config with stepLimit := some limit })) ∧
    (limit < (s.setConfig { config with stepLimit := none }).journal.attempts →
      CutShort limit (s.setConfig { config with stepLimit := none })
        (s.setConfig { config with stepLimit := some limit })) := by
  rcases (s.setConfig config).solve_withLimit limit with ⟨few, same⟩ | ⟨many, cut⟩
  · exact ⟨fun _ => same, fun many => absurd few (Nat.not_le_of_lt many)⟩
  · exact ⟨fun few => absurd few (Nat.not_le_of_lt many), fun _ => cut⟩

def pinched : ChoiceSystem (Shelf 1) :=
  (ofBackend (Shelf.empty 1) ⟨.off, .registration, none⟩).afterAll
    [.newVariable "x", .addDisjunction none [[.relate (.ofVariable ⟨0⟩) .atLeast 1]],
      .addDisjunction none [[.relate (.ofVariable ⟨0⟩) .atLeast 2],
        [.relate (.ofVariable ⟨0⟩) .atLeast 3]]]

/-- One constraint has room: once the first disjunction is decided nothing fits the second. -/
theorem solve_limited_pinched :
    (pinched.setConfig ⟨.off, .registration, none⟩).journal.attempts = 3 ∧
    Unimpeded (pinched.setConfig ⟨.off, .registration, none⟩)
      (pinched.setConfig ⟨.off, .registration, some 3⟩) ∧
    CutShort 2 (pinched.setConfig ⟨.off, .registration, none⟩)
      (pinched.setConfig ⟨.off, .registration, some 2⟩) := by
  have attempts : (pinched.setConfig ⟨.off, .registration, none⟩).journal.attempts = 3 := by
    decide +kernel
  have whole := (pinched.solve_limited ⟨.off, .registration, none⟩ 3).1
  have short := (pinched.solve_limited ⟨.off, .registration, none⟩ 2).2
  exact ⟨attempts, whole (by rw [attempts]), short (by rw [attempts]; decide)⟩

end Comparison

end ChoiceSystem

end LinearChoice
