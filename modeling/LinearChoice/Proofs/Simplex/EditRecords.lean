import LinearChoice.Proofs.Simplex.Numbering

/-!
# Edits and the constraints behind them

An edit refers to its constraint by number. Numbers are not given out twice, so
no two edits share a constraint, and a constraint that is gone does not come
back. Of all calls only the removal by number takes the constraint away and
leaves the edit: ending such an edit is an error, and as long as no edit has been
cut off in this way, every edit stands on its constraint.
-/

set_option autoImplicit false

namespace LinearChoice

structure Roster (α : Type) where
  next : Nat
  held : ConstraintId → Option (Held α)
  edits : Variable → Option (Edit α)

namespace Roster

variable {α : Type}

def hold (r : Roster α) (tag : Tag) (strength : Strength α) : Roster α :=
  { r with
    next := r.next + 1
    held := Function.update r.held ⟨r.next⟩ (some ⟨tag, strength⟩) }

def strike (r : Roster α) (id : ConstraintId) : Roster α :=
  { r with held := Function.update r.held id none }

def setEdit (r : Roster α) (v : Variable) (edit : Option (Edit α)) : Roster α :=
  { r with edits := Function.update r.edits v edit }

/-- What a call may do to the records. A constraint is recorded before the optimisation, so that an
edit which fails to begin may leave one behind. -/
inductive Files [Zero α] (r : Roster α) : Solver.Call α → Roster α → Prop
  | idle (call : Solver.Call α) : Files r call r
  | added (c : Constraint α) (tag : Tag) : Files r (.add c) (r.hold tag c.strength)
  | struck (id : ConstraintId) : Files r (.remove id) (r.strike id)
  | left (v : Variable) (strength weight : Strength α) (tag : Tag) :
      Files r (.addEdit v strength) (r.hold tag weight)
  | begun (v : Variable) (strength weight : Strength α) (tag : Tag) :
      Files r (.addEdit v strength) ((r.hold tag weight).setEdit v (some ⟨tag, ⟨r.next⟩, 0⟩))
  | ended (v : Variable) (edit : Edit α) (found : r.edits v = some edit) :
      Files r (.removeEdit v) ((r.setEdit v none).strike edit.constraint)
  | suggested (v : Variable) (x : α) (edit : Edit α) (found : r.edits v = some edit) :
      Files r (.suggest v x) (r.setEdit v (some { edit with suggested := x }))

structure Sound (r : Roster α) : Prop where
  issued : ∀ id held, r.held id = some held → id.index < r.next
  known : ∀ v edit, r.edits v = some edit → edit.constraint.index < r.next
  apart : ∀ v v' edit edit', r.edits v = some edit → r.edits v' = some edit' →
    edit.constraint = edit'.constraint → v = v'
  own : ∀ v edit held, r.edits v = some edit → r.held edit.constraint = some held →
    held.tag = edit.tag

variable {r r' : Roster α} {call : Solver.Call α} {id : ConstraintId} {v : Variable}

theorem held_hold (r : Roster α) (tag : Tag) (strength : Strength α) (id : ConstraintId) :
    (r.hold tag strength).held id = if id = ⟨r.next⟩ then some ⟨tag, strength⟩ else r.held id :=
  Function.update_apply ..

theorem held_strike (r : Roster α) (struck id : ConstraintId) :
    (r.strike struck).held id = if id = struck then none else r.held id :=
  Function.update_apply ..

theorem edits_setEdit (r : Roster α) (v : Variable) (edit : Option (Edit α)) (u : Variable) :
    (r.setEdit v edit).edits u = if u = v then edit else r.edits u :=
  Function.update_apply ..

theorem ne_next_of_lt (h : id.index < r.next) : id ≠ ⟨r.next⟩ := by
  rintro rfl
  exact absurd h (Nat.lt_irrefl _)

theorem Sound.hold (h : r.Sound) (tag : Tag) (strength : Strength α) :
    (r.hold tag strength).Sound := by
  refine ⟨fun id held found => ?_, fun v edit found => ?_, h.apart, fun v edit held found own => ?_⟩
  · rw [held_hold] at found
    split at found
    · next heq => exact heq ▸ Nat.lt_succ_self _
    · exact Nat.lt_succ_of_lt (h.issued id held found)
  · exact Nat.lt_succ_of_lt (h.known v edit found)
  · rw [held_hold, if_neg (ne_next_of_lt (h.known v edit found))] at own
    exact h.own v edit held found own

theorem Sound.strike (h : r.Sound) (id : ConstraintId) : (r.strike id).Sound := by
  refine ⟨fun x held found => ?_, h.known, h.apart, fun v edit held found own => ?_⟩
  · rw [held_strike] at found
    split at found
    · contradiction
    · exact h.issued x held found
  · rw [held_strike] at own
    split at own
    · contradiction
    · exact h.own v edit held found own

/-- An edit may be entered if its number is out and no other edit has it. -/
theorem Sound.setEdit (h : r.Sound) {edit? : Option (Edit α)}
    (known : ∀ edit, edit? = some edit → edit.constraint.index < r.next)
    (apart : ∀ edit u other, edit? = some edit → r.edits u = some other →
      edit.constraint = other.constraint → u = v)
    (own : ∀ edit held, edit? = some edit → r.held edit.constraint = some held →
      held.tag = edit.tag) : (r.setEdit v edit?).Sound := by
  refine ⟨h.issued, fun u edit found => ?_, fun u u' edit edit' found found' same => ?_,
    fun u edit held found => ?_⟩
  · rw [edits_setEdit] at found
    split at found
    · exact known edit found
    · exact h.known u edit found
  · rw [edits_setEdit] at found found'
    split at found <;> split at found'
    · next here here' => exact here.trans here'.symm
    · next here _ => exact here.trans (apart edit u' edit' found found' same).symm
    · next _ here' => exact (apart edit' u edit found' found same.symm).trans here'.symm
    · exact h.apart u u' edit edit' found found' same
  · rw [edits_setEdit] at found
    split at found
    · exact own edit held found
    · exact h.own u edit held found

theorem Sound.files [Zero α] (h : r.Sound) (files : r.Files call r') : r'.Sound := by
  cases files with
  | idle => exact h
  | added c tag => exact h.hold tag c.strength
  | struck id => exact h.strike id
  | left v strength weight tag => exact h.hold tag weight
  | begun v strength weight tag =>
    refine (h.hold tag weight).setEdit ?_ ?_ ?_
    · rintro edit ⟨⟩
      exact Nat.lt_succ_self _
    · rintro edit u other ⟨⟩ found same
      exact absurd same.symm (ne_next_of_lt (h.known u other found))
    · rintro edit held ⟨⟩ found
      rw [held_hold, if_pos rfl] at found
      cases found
      rfl
  | ended v edit found =>
    have dropped : (r.setEdit v none).Sound := h.setEdit nofun nofun nofun
    exact dropped.strike edit.constraint
  | suggested v x edit found =>
    refine h.setEdit ?_ ?_ ?_
    · rintro edit' ⟨⟩
      exact h.known v edit found
    · rintro edit' u other ⟨⟩ found' same
      exact (h.apart v u edit other found found' same).symm
    · rintro edit' held ⟨⟩ own
      exact h.own v edit held found own

def Gone (r : Roster α) (id : ConstraintId) : Prop := r.held id = none ∧ id.index < r.next

theorem Gone.files [Zero α] (h : r.Gone id) (files : r.Files call r') : r'.Gone id := by
  have hold (tag : Tag) (strength : Strength α) : (r.hold tag strength).Gone id :=
    ⟨by rw [held_hold, if_neg (ne_next_of_lt h.2), h.1], Nat.lt_succ_of_lt h.2⟩
  have strike (x : ConstraintId) : (r.strike x).held id = none := by
    rw [held_strike, h.1, ite_self]
  cases files with
  | idle => exact h
  | added c tag => exact hold tag c.strength
  | struck x => exact ⟨strike x, h.2⟩
  | left v strength weight tag => exact hold tag weight
  | begun v strength weight tag => exact hold tag weight
  | ended v edit found => exact ⟨strike edit.constraint, h.2⟩
  | suggested v x edit found => exact h

/-- The constraint of an edit was the edit's before, or is held. -/
theorem Files.edits [Zero α] (files : r.Files call r') (h : r.Sound) {edit : Edit α}
    (found : r'.edits v = some edit) :
    (∃ held, r'.held edit.constraint = some held) ∨
    ((∃ before, r.edits v = some before ∧ before.constraint = edit.constraint) ∧
      ((∃ held, r.held edit.constraint = some held) → call = .remove edit.constraint)) := by
  -- What an edit stood on before it stands on after, unless the constraint is struck out.
  have stays {held' : ConstraintId → Option (Held α)}
      (kept : held' edit.constraint = r.held edit.constraint)
      (before : ∃ before, r.edits v = some before ∧ before.constraint = edit.constraint) :
      (∃ held, held' edit.constraint = some held) ∨
      ((∃ before, r.edits v = some before ∧ before.constraint = edit.constraint) ∧
        ((∃ held, r.held edit.constraint = some held) → call = .remove edit.constraint)) := by
    rw [kept]
    cases r.held edit.constraint with
    | none => exact Or.inr ⟨before, nofun⟩
    | some held => exact Or.inl ⟨held, rfl⟩
  have hold (tag : Tag) (strength : Strength α) (found : r.edits v = some edit) :
      (r.hold tag strength).held edit.constraint = r.held edit.constraint := by
    rw [held_hold, if_neg (ne_next_of_lt (h.known v edit found))]
  cases files with
  | idle => exact stays rfl ⟨edit, found, rfl⟩
  | added c tag => exact stays (hold tag c.strength found) ⟨edit, found, rfl⟩
  | struck id =>
    by_cases own : edit.constraint = id
    · exact Or.inr ⟨⟨edit, found, rfl⟩, fun _ => own ▸ rfl⟩
    · exact stays (by rw [held_strike, if_neg own]) ⟨edit, found, rfl⟩
  | left u strength weight tag => exact stays (hold tag weight found) ⟨edit, found, rfl⟩
  | begun u strength weight tag =>
    rw [edits_setEdit] at found
    split at found
    · cases found
      exact Or.inl ⟨_, (held_hold r tag weight _).trans (if_pos rfl)⟩
    · exact stays (hold tag weight found) ⟨edit, found, rfl⟩
  | ended u old ending =>
    have found : (r.setEdit u none).edits v = some edit := found
    rw [edits_setEdit] at found
    split at found
    · contradiction
    · next other =>
      have apart : edit.constraint ≠ old.constraint := fun same =>
        other (h.apart v u edit old found ending same)
      exact stays (by rw [held_strike, if_neg apart]; rfl) ⟨edit, found, rfl⟩
  | suggested u x old suggesting =>
    rw [edits_setEdit] at found
    split at found
    · next here =>
      cases found
      exact stays rfl ⟨old, here ▸ suggesting, rfl⟩
    · exact stays rfl ⟨edit, found, rfl⟩

end Roster

namespace Table

variable {κ ν : Type} [DecidableEq κ] (t : Table κ ν) (k : κ)

theorem insert_eq_update (x : ν) : (t.insert k x).get? = Function.update t.get? k (some x) := by
  funext y
  rw [get?_insert, Function.update_apply]
  simp only [eq_comm]

theorem eraseSwap_eq_update : (t.eraseSwap k).get? = Function.update t.get? k none := by
  funext y
  rw [get?_eraseSwap, Function.update_apply]
  simp only [eq_comm]

end Table

namespace Solver

variable {α : Type}

def roster (s : Solver α) : Roster α := ⟨s.nextConstraint, s.constraints.get?, s.edits.get?⟩

theorem roster_insert (s : Solver α) (v : Variable) (edit : Edit α) :
    roster { s with edits := s.edits.insert v edit } = s.roster.setEdit v (some edit) := by
  unfold roster Roster.setEdit
  rw [Table.insert_eq_update]

variable [Scalar α] {s : Solver α}

theorem roster_record (s : Solver α) (c : Constraint α) (t : Tableau α) (n : Nat) :
    (s.record c t n).roster =
      s.roster.hold (Markers.ofConstraint c s.nextSymbol).tag c.strength := by
  unfold roster record Roster.hold
  rw [Table.insert_eq_update]

/-- An addition records its constraint or nothing, and answers with what it recorded. -/
theorem files_insert (s : Solver α) (c : Constraint α) :
    (∃ tag, (s.insert c).2.roster = s.roster.hold tag c.strength ∧
      ∀ found, (s.insert c).1 = .ok found → found = (⟨s.nextConstraint⟩, tag)) ∨
    ((s.insert c).2.roster = s.roster ∧ ∀ found, (s.insert c).1 ≠ .ok found) := by
  have inserted := inserted s c
  generalize s.insert c = answer at inserted
  cases inserted with
  | nonFinite | refused | endless => exact Or.inr ⟨rfl, nofun⟩
  | accepted =>
    refine Or.inl ⟨_, s.roster_record c _ _, ?_⟩
    rintro found ⟨⟩
    rfl
  | orphaned => exact Or.inl ⟨_, s.roster_record c _ _, nofun⟩

theorem roster_removeConstraint (s : Solver α) (id : ConstraintId) :
    (s.removeConstraint id).2.roster = s.roster.strike id := by
  cases found : s.constraints.get? id with
  | none =>
    rw [removeConstraint, found]
    have same : Function.update s.constraints.get? id none = s.constraints.get? :=
      Function.update_eq_self_iff.mpr found.symm
    exact congrArg (Roster.mk s.nextConstraint · s.edits.get?) same.symm
  | some held =>
    have removed := removed found
    have struck (t : Tableau α) :
        roster { s with constraints := s.constraints.eraseSwap id, tableau := t } =
          s.roster.strike id := by
      unfold roster Roster.strike
      rw [Table.eraseSwap_eq_update]
    generalize s.removeConstraint id = answer at removed
    cases removed with
    | done | stuck | endless => exact struck _

theorem files_addEdit (s : Solver α) (v : Variable) (strength : Strength α) :
    s.roster.Files (.addEdit v strength) (s.addEdit v strength).2.roster := by
  have inserted := s.files_insert ⟨Expression.ofVariable v, .equal, .clipped strength.weight⟩
  unfold addEdit
  split
  · exact .idle _
  · dsimp only
    split
    · exact .idle _
    · generalize s.insert _ = answer at inserted
      obtain ⟨outcome, s'⟩ := answer
      rcases inserted with ⟨tag, held, answered⟩ | ⟨same, failed⟩
      · cases outcome with
        | error e =>
          change s.roster.Files _ s'.roster
          rw [held]
          exact .left v strength _ tag
        | ok found =>
          cases answered found rfl
          have entered := s'.roster_insert v ⟨tag, ⟨s.nextConstraint⟩, 0⟩
          dsimp only at held ⊢
          rw [entered, held]
          exact .begun v strength _ tag
      · cases outcome with
        | error e =>
          change s.roster.Files _ s'.roster
          rw [same]
          exact .idle _
        | ok found => exact absurd rfl (failed found)

theorem files_removeEdit (s : Solver α) (v : Variable) :
    s.roster.Files (.removeEdit v) (s.removeEdit v).2.roster := by
  unfold removeEdit
  split
  · exact .idle _
  · next edit found =>
    rw [roster_removeConstraint]
    have ended : roster { s with edits := s.edits.eraseSwap v } = s.roster.setEdit v none := by
      unfold roster Roster.setEdit
      rw [Table.eraseSwap_eq_update]
    rw [ended]
    exact .ended v edit found

theorem files_suggest (s : Solver α) (v : Variable) (x : α) :
    s.roster.Files (.suggest v x) (s.suggest v x).2.roster := by
  unfold suggest
  split
  · exact .idle _
  · next edit found =>
    dsimp only
    have entered := s.roster_insert v { edit with suggested := x }
    change s.roster.Files _ (roster { s with edits := _ })
    rw [entered]
    exact .suggested v x edit found

theorem files (s : Solver α) (call : Call α) : s.roster.Files call (s.after call).roster := by
  cases call with
  | newVariable => exact .idle _
  | add c =>
    change s.roster.Files _ (s.insert c).2.roster
    rcases s.files_insert c with ⟨tag, held, -⟩ | ⟨same, -⟩
    · rw [held]
      exact .added c tag
    · rw [same]
      exact .idle _
  | remove id =>
    change s.roster.Files _ (s.removeConstraint id).2.roster
    rw [roster_removeConstraint]
    exact .struck id
  | update =>
    change s.roster.Files _ s.updateVariables.2.roster
    unfold updateVariables
    split <;> exact .idle _
  | addEdit v strength => exact s.files_addEdit v strength
  | removeEdit v => exact s.files_removeEdit v
  | suggest v x => exact s.files_suggest v x

theorem sound_roster (calls : List (Call α)) : ((empty : Solver α).afterAll calls).roster.Sound := by
  refine afterAll_invariant (P := fun s => s.roster.Sound) ?_ (fun s call h => h.files (s.files call))
    calls
  have bare : (empty : Solver α).roster = ⟨0, fun _ => none, fun _ => none⟩ := rfl
  rw [bare]
  constructor <;> simp

theorem afterAll_append (s : Solver α) (before after : List (Call α)) :
    s.afterAll (before ++ after) = (s.afterAll before).afterAll after := List.foldl_append

def Struck (calls : List (Call α)) (id : ConstraintId) : Prop :=
  ∃ before after, calls = before ++ .remove id :: after ∧
    ((empty : Solver α).afterAll before).hasConstraint id = true

variable {calls : List (Call α)} {id : ConstraintId} {v : Variable} {edit : Edit α}

theorem Struck.snoc (h : Struck calls id) (call : Call α) : Struck (calls ++ [call]) id := by
  obtain ⟨before, after, rfl, held⟩ := h
  exact ⟨before, after ++ [call], by simp, held⟩

theorem Struck.gone (h : Struck calls id) : ((empty : Solver α).afterAll calls).roster.Gone id := by
  obtain ⟨before, after, rfl, held⟩ := h
  obtain ⟨info, found⟩ := Option.isSome_iff_exists.mp held
  have issued := (sound_roster before).issued id info found
  have struck : (((empty : Solver α).afterAll before).after (.remove id)).roster.Gone id := by
    change (((empty : Solver α).afterAll before).removeConstraint id).2.roster.Gone id
    rw [roster_removeConstraint]
    exact ⟨by rw [Roster.held_strike, if_pos rfl], issued⟩
  rw [afterAll_append]
  exact afterAll_invariant (P := fun s => s.roster.Gone id) struck
    (fun s call gone => gone.files (s.files call)) after

/-- What the last call took from an edit it took by its number, and so did any call before. -/
theorem held_or_struck (calls : List (Call α)) (v : Variable) (edit : Edit α)
    (found : ((empty : Solver α).afterAll calls).edits.get? v = some edit) :
    (∃ held, ((empty : Solver α).afterAll calls).constraints.get? edit.constraint = some held) ∨
      Struck calls edit.constraint := by
  induction calls using List.reverseRecOn generalizing v edit with
  | nil => cases found
  | append_singleton calls call ih =>
    rw [afterAll_append] at found ⊢
    have files := ((empty : Solver α).afterAll calls).files call
    rcases files.edits (sound_roster calls) found with held | ⟨⟨old, earlier, same⟩, taken⟩
    · exact Or.inl held
    · have before := ih v old earlier
      rw [same] at before
      rcases before with ⟨held, stood⟩ | struck
      · rw [taken ⟨held, stood⟩]
        exact Or.inr ⟨calls, [], rfl, Option.isSome_iff_exists.mpr ⟨held, stood⟩⟩
      · exact Or.inr (struck.snoc call)

theorem removeEdit_unknown_iff (s : Solver α) (v : Variable) :
    (s.removeEdit v).1 = .error .unknownConstraint ↔
      ∃ edit, s.edits.get? v = some edit ∧ s.constraints.get? edit.constraint = none := by
  unfold removeEdit
  cases editing : s.edits.get? v with
  | none => simp
  | some edit =>
    simp only [Option.some.injEq, exists_eq_left']
    cases found : s.constraints.get? edit.constraint with
    | none => simp [removeConstraint, found]
    | some held =>
      have removed : Removed { s with edits := s.edits.eraseSwap v } edit.constraint held _ :=
        removed found
      simp only [reduceCtorEq, iff_false]
      generalize removeConstraint { s with edits := s.edits.eraseSwap v } edit.constraint = answer
        at removed
      intro unknown
      cases removed with
      | done => cases unknown
      | stuck => cases unknown
      | endless endless =>
        cases unknown
        rcases endless with h | h <;> cases h

/-- After any calls no two edits share a constraint. An edit stands on its constraint unless the
constraint was removed by its number, and this is what ending it may fail for. -/
theorem founded_afterAll (calls : List (Call α)) :
    let s := (empty : Solver α).afterAll calls
    (∀ v v' edit edit', s.edits.get? v = some edit → s.edits.get? v' = some edit' →
      edit.constraint = edit'.constraint → v = v') ∧
    (∀ v edit, s.edits.get? v = some edit →
      (¬Struck calls edit.constraint ↔
        ∃ held, s.constraints.get? edit.constraint = some held ∧ held.tag = edit.tag)) ∧
    ∀ v, (s.removeEdit v).1 = .error .unknownConstraint ↔
      ∃ edit, s.edits.get? v = some edit ∧ Struck calls edit.constraint := by
  intro s
  have sound := sound_roster calls
  have gone (id : ConstraintId) (struck : Struck calls id) : s.constraints.get? id = none :=
    struck.gone.1
  have held (v : Variable) (edit : Edit α) (found : s.edits.get? v = some edit)
      (kept : ¬Struck calls edit.constraint) :
      ∃ held, s.constraints.get? edit.constraint = some held :=
    (held_or_struck calls v edit found).resolve_right kept
  refine ⟨sound.apart, fun v edit found => ⟨fun kept => ?_, ?_⟩, fun v => ?_⟩
  · obtain ⟨info, stands⟩ := held v edit found kept
    exact ⟨info, stands, sound.own v edit info found stands⟩
  · rintro ⟨info, stands, -⟩ struck
    rw [gone _ struck] at stands
    cases stands
  · rw [removeEdit_unknown_iff]
    refine exists_congr fun edit => and_congr_right fun found => ⟨fun lost => ?_, gone _⟩
    by_contra kept
    obtain ⟨info, stands⟩ := held v edit found kept
    rw [lost] at stands
    cases stands

/-- The constraint of an edit is removed by its number. -/
theorem edit_cut_off :
    let s : Solver Float :=
      empty.afterAll [.newVariable, .addEdit ⟨0⟩ .strong, .remove ⟨0⟩]
    s.hasEdit ⟨0⟩ = true ∧ s.constraintCount = 0 ∧
      (s.removeEdit ⟨0⟩).1 = .error .unknownConstraint := by
  decide +kernel

end Solver

end LinearChoice
