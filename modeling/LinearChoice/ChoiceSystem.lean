import LinearChoice.Baseline
import LinearChoice.Search.Run

/-!
# Systems

A system of linear constraints with disjunctions, on top of an arithmetic backend that it owns. As
long as removals succeed, the backend holds between calls what was in it at first, the baseline, and
the alternatives kept from the last successful solve. Whatever changes the constraints makes the
solved values void.
-/

set_option autoImplicit false

namespace LinearChoice

structure ChoiceSystem (σ : Type) (α : Type := Float) where
  backend : σ
  config : Config
  registry : Registry α
  baseline : Baseline α
  disjunctions : Disjunctions α
  pruner : Pruner α
  /-- The alternatives kept from the last successful solve, the last decision first. -/
  kept : List Commit
  /-- Set for good once the baseline was found infeasible. -/
  discarded : Bool

namespace ChoiceSystem

variable {σ α : Type}

def ofBackend (backend : σ) (config : Config) : ChoiceSystem σ α :=
  { backend := backend, config := config, registry := Registry.empty, baseline := Baseline.empty
    disjunctions := Disjunctions.empty, pruner := Pruner.empty config.prune, kept := []
    discarded := false }

def setConfig (s : ChoiceSystem σ α) (config : Config) : ChoiceSystem σ α :=
  { s with config := config, pruner := s.pruner.setMode config.prune }

def value (s : ChoiceSystem σ α) (name : String) : Except SystemError α := s.registry.value name

def values (s : ChoiceSystem σ α) : List (String × α) := s.registry.values

def handle? (s : ChoiceSystem σ α) (name : String) : Option Variable := s.registry.handle? name

def clearValues (s : ChoiceSystem σ α) : ChoiceSystem σ α :=
  { s with registry := s.registry.clearValues }

def registerVariable (s : ChoiceSystem σ α) (name : String) (v : Variable) :
    Except SystemError Unit × ChoiceSystem σ α :=
  if s.discarded then (.error .discarded, s)
  else
    match s.registry.register name v with
    | .error e => (.error e, s)
    | .ok registry => (.ok (), { s with registry := registry })

def insertDisjunction (s : ChoiceSystem σ α) (d : Disjunction α) :
    Except SystemError DisjunctionId × ChoiceSystem σ α :=
  if s.discarded then (.error .discarded, s)
  else
    match s.registry.checkAll d.constraints with
    | .error e => (.error e, s)
    | .ok () =>
      let (id, ds) := s.disjunctions.add d
      (.ok id, { s.clearValues with disjunctions := ds })

/-- Registers a disjunction. That it has no alternatives is noticed before anything else. -/
def addDisjunction (s : ChoiceSystem σ α) (label : Option String)
    (alternatives : List (Alternative α)) :
    Except SystemError DisjunctionId × ChoiceSystem σ α :=
  match Disjunction.ofAlternatives label alternatives with
  | .error e => (.error e, s)
  | .ok d => s.insertDisjunction d

variable [BackendOver σ α]

def newVariable (s : ChoiceSystem σ α) (name : String) :
    Except SystemError Variable × ChoiceSystem σ α :=
  if s.discarded then (.error .discarded, s)
  else if (s.registry.handle? name).isSome then (.error (.duplicateVariable name), s)
  else
    let (v, backend) := Backend.newVariable s.backend
    let s := { s with backend := backend }
    match s.registry.register name v with
    | .error e => (.error e, s)
    | .ok registry => (.ok v, { s with registry := registry })

def retractAll : List Commit → Search.State σ α →
    Except SolverError Unit × List Commit × Search.State σ α
  | [], s => (.ok (), [], s)
  | c :: rest, s =>
    match s.retract c with
    | (.error e, s) => (.error e, rest, s)
    | (.ok (), s) => retractAll rest s

def retractKept (s : ChoiceSystem σ α) : Except SystemError Unit × ChoiceSystem σ α :=
  let (outcome, kept, state) := retractAll s.kept ⟨s.backend, s.pruner, Journal.empty⟩
  (outcome.mapError .solver,
    { s with kept := kept, backend := state.backend, pruner := state.pruner })

variable [ExtendedScalar α] [Numeral α]

def addConjunctive (s : ChoiceSystem σ α) (c : Constraint α) :
    Except SystemError Unit × ChoiceSystem σ α :=
  if s.discarded then (.error .discarded, s)
  else
    match s.registry.check c with
    | .error e => (.error e, s)
    | .ok () =>
      match s.retractKept with
      | (.error e, s) => (.error e, s)
      | (.ok (), s) =>
        let s := s.clearValues
        let (outcome, baseline, backend) := s.baseline.add s.backend s.registry c
        let s := { s with baseline := baseline, backend := backend }
        match outcome with
        | .ok _ => (.ok (), { s with pruner := s.pruner.commit [c] })
        | .error e => (.error e, { s with discarded := e.isFatal })

def choices (count : Nat) (commits : List Commit) : List Nat :=
  (List.range count).map fun i =>
    match commits.find? fun c => c.disjunction.index = i with
    | some c => c.alternative
    | none => 0

def keep (s : ChoiceSystem σ α) (commits : List Commit) (stats : Stats) :
    Solution α × ChoiceSystem σ α :=
  let solution : Solution α :=
    { values := s.registry.names.mapValues fun _ v => Backend.value s.backend v
      choices := choices s.disjunctions.size commits
      stats := stats }
  (solution,
    { s with
      registry := s.registry.recordValues (Backend.value s.backend)
      kept := commits.reverse })

def solve (s : ChoiceSystem σ α) : Except SystemError (SolveResult α) × ChoiceSystem σ α :=
  if s.discarded then (.error .discarded, s)
  else
    match s.retractKept with
    | (.error e, s) => (.error e, s)
    | (.ok (), s) =>
      let s := s.clearValues
      let decisions := s.disjunctions.decisions s.config.order
      let (outcome, state) :=
        Search.run ⟨s.config.stepLimit, s.registry.displayName⟩ decisions s.backend s.pruner
      let s := { s with backend := state.backend, pruner := state.pruner }
      match outcome with
      | .error e => (.error e, s)
      | .ok none => (.ok (.unsatisfied ⟨state.journal.traces decisions, state.journal.stats⟩), s)
      | .ok (some commits) =>
        let (solution, s) := s.keep commits state.journal.stats
        (.ok (.satisfied solution), s)

end ChoiceSystem

end LinearChoice
