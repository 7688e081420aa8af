import LinearChoice.Pruner.Basic

/-!
# Checking a candidate

A candidate is rejected when its required constraints empty the interval of a variable, either
directly or through the constraints on several variables. Intervals are only narrowed when that
goes beyond the tolerance, and are searched for a bounded number of sweeps, so a check errs on the
side of letting a candidate pass.
-/

set_option autoImplicit false

namespace LinearChoice

structure PruneConflict (α : Type) where
  var : Variable
  lower : α
  upper : α

namespace Bounds

variable {α : Type} [ExtendedScalar α]

open ExtendedScalar (negInf posInf)

def tighten (b : Bounds α) (v : Variable) (interval : Interval α) :
    Except (PruneConflict α) (Bool × Bounds α) :=
  let current := b.of v
  let next := current.intersect interval
  if next.isEmpty then .error ⟨v, next.lower, next.upper⟩
  else if next.tighterThan current then .ok (true, b.insert v next)
  else .ok (false, b)

def addRange (b : Bounds α) (range : Interval α) (term : Variable × α) : Interval α :=
  let r := b.of term.1
  if 0 < term.2 then ⟨range.lower + term.2 * r.lower, range.upper + term.2 * r.upper⟩
  else ⟨range.lower + term.2 * r.upper, range.upper + term.2 * r.lower⟩

def rangeWithout (b : Bounds α) (e : Expression α) (target : Variable) : Interval α :=
  (e.terms.entries.filter fun t => t.1 ≠ target).foldl b.addRange (.point e.constant)

def derive (b : Bounds α) (c : Constraint α) (target : Variable) (k : α) : Interval α :=
  let rest := b.rangeWithout c.expression target
  let term : Interval α :=
    match c.relation with
    | .equal => ⟨-rest.upper, -rest.lower⟩
    | .atMost => ⟨negInf, -rest.lower⟩
    | .atLeast => ⟨-rest.upper, posInf⟩
  if 0 < k then ⟨term.lower / k, term.upper / k⟩ else ⟨term.upper / k, term.lower / k⟩

def sweep (b : Bounds α) (linear : List (Constraint α)) :
    Except (PruneConflict α) (Bool × Bounds α) :=
  (linear.flatMap fun c => c.expression.terms.entries.map fun t => (c, t)).foldlM
    (fun (state : Bool × Bounds α) target => do
      let (narrowed, b) ←
        state.2.tighten target.2.1 (state.2.derive target.1 target.2.1 target.2.2)
      return (state.1 || narrowed, b))
    (false, b)

def propagate (b : Bounds α) (linear : List (Constraint α)) :
    Nat → Except (PruneConflict α) (Bounds α)
  | 0 => .ok b
  | n + 1 => do
    let (changed, b) ← b.sweep linear
    if changed then propagate b linear n else .ok b

end Bounds

namespace Pruner

variable {α : Type} [ExtendedScalar α]

def sweeps : Nat := 8

def narrow (p : Pruner α) (candidate : List (Constraint α)) :
    Except (PruneConflict α) (Bounds α) :=
  (candidate.filterMap Constraint.unitBound?).foldlM
    (fun b bound => Prod.snd <$> Bounds.tighten b bound.1 bound.2) p.bounds

def check (p : Pruner α) (candidate : List (Constraint α)) : Except (PruneConflict α) Unit :=
  match p.mode with
  | .off => .ok ()
  | .bounds => (p.narrow candidate).map fun _ => ()
  | .propagate => do
    let b ← p.narrow candidate
    let _ ← b.propagate (p.linear ++ candidate.filter Constraint.isLinear) sweeps
    return ()

end Pruner

end LinearChoice
