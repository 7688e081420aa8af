import LinearChoice.Backend.Basic

/-!
# Disrupted backends

A backend that fails on schedule, to see what becomes of a system whose solver lets it down. Each
kind of call is counted from zero, failures included, and a call that is due to fail does not reach
the solver.
-/

set_option autoImplicit false

namespace LinearChoice

inductive BackendCall where
  | add
  | remove
  | update
  deriving DecidableEq

structure Disruption where
  call : BackendCall
  number : Nat
  /-- Whether the later calls of the kind fail too. -/
  onwards : Bool
  error : SolverError

def Disruption.strikes (d : Disruption) (call : BackendCall) (number : Nat) : Bool :=
  decide (d.call = call) &&
    (decide (d.number = number) || (d.onwards && decide (d.number < number)))

structure Disrupted (σ : Type) where
  inner : σ
  schedule : List Disruption
  adds : Nat
  removes : Nat
  updates : Nat

namespace Disrupted

variable {σ α : Type} [BackendOver σ α]

omit [BackendOver σ α] in
def ofBackend (inner : σ) (schedule : List Disruption) : Disrupted σ := ⟨inner, schedule, 0, 0, 0⟩

omit [BackendOver σ α] in
def due? (b : Disrupted σ) (call : BackendCall) (number : Nat) : Option SolverError :=
  (b.schedule.find? fun d => d.strikes call number).map (·.error)

instance : BackendOver (Disrupted σ) α where
  newVariable b :=
    let (v, inner) := Backend.newVariable b.inner
    (v, { b with inner := inner })
  addConstraint b c :=
    let counted := { b with adds := b.adds + 1 }
    match b.due? .add b.adds with
    | some e => (.error e, counted)
    | none =>
      let (outcome, inner) := Backend.addConstraint b.inner c
      (outcome, { counted with inner := inner })
  removeConstraint b id :=
    let counted := { b with removes := b.removes + 1 }
    match b.due? .remove b.removes with
    | some e => (.error e, counted)
    | none =>
      let (outcome, inner) := Backend.removeConstraint b.inner id
      (outcome, { counted with inner := inner })
  updateVariables b :=
    let counted := { b with updates := b.updates + 1 }
    match b.due? .update b.updates with
    | some e => (.error e, counted)
    | none =>
      let (outcome, inner) := Backend.updateVariables b.inner
      (outcome, { counted with inner := inner })
  value b v := Backend.value b.inner v
  constraintCount b := Backend.constraintCount b.inner

end Disrupted

end LinearChoice
