import Mathlib.Data.List.Induction
import LinearChoice.Proofs.Simplex.Lookup
import LinearChoice.Simplex.Dual
import LinearChoice.Simplex.Withdraw

/-!
# What is selected

Every pass over a row or over a tableau selects something that it has seen. Nothing is assumed of
the arithmetic, so the best of what was seen may be no good.
-/

set_option autoImplicit false

namespace LinearChoice

theorem foldl_seen {β γ : Type} {f : γ → β → γ} {P : List β → γ → Prop}
    (step : ∀ seen acc e, P seen acc → P (seen ++ [e]) (f acc e)) (l : List β) (acc : γ)
    (h : P [] acc) : P l (l.foldl f acc) := by
  induction l using List.reverseRecOn with
  | nil => exact h
  | append_singleton l e ih =>
    rw [List.foldl_append]
    exact step l _ e ih

theorem Symbol.least_mem (l : List Symbol) :
    match least l with
    | none => l = []
    | some s => s ∈ l := by
  unfold least
  refine foldl_seen (P := fun seen best => match best with
    | none => seen = []
    | some s => s ∈ seen) ?_ l none rfl
  intro seen best e h
  cases best with
  | none => simp
  | some b => by_cases he : e < b <;> simp [he, h]

variable {α : Type}

def Exits.Closed (exits : Exits α) : Prop :=
  exits.falling = none ∧ exits.rising = none ∧ exits.external = none

namespace Tableau

variable [Scalar α] {t : Tableau α} {s : Symbol} {c : Candidate α}

theorem mem_of_entering {goal : Row α} (h : entering? goal = some s) : s ∈ goal.cells.keys := by
  have found := Symbol.least_mem
    ((goal.cells.entries.filter fun e => !e.1.isDummy && decide (e.2 < 0)).map Prod.fst)
  unfold entering? at h
  rw [h] at found
  obtain ⟨e, he, rfl⟩ := List.mem_map.mp found
  exact List.mem_map_of_mem (List.mem_filter.mp he).1

def Seen (seen : List (Symbol × Row α)) (best : Option (Candidate α)) : Prop :=
  ∀ c, best = some c → (c.symbol, c.row) ∈ seen

variable {seen : List (Symbol × Row α)} {best : Option (Candidate α)} {e : Symbol × Row α}

omit [Scalar α] in
theorem Seen.skip (h : Seen seen best) : Seen (seen ++ [e]) best :=
  fun c hc => List.mem_append_left _ (h c hc)

omit [Scalar α] in
theorem Seen.take (seen : List (Symbol × Row α)) (ratio : α) :
    Seen (seen ++ [e]) (some ⟨ratio, e.1, e.2⟩) := by
  rintro c ⟨⟩
  exact List.mem_append_right _ (List.mem_singleton_self e)

theorem row_of_leaving (h : t.leaving? s = some c) : t.rows.get? c.symbol = some c.row := by
  rw [t.rows.get?_eq_some_iff]
  refine foldl_seen (P := Seen) ?_ t.rows.entries none nofun c h
  intro seen best e hs
  unfold tighten
  dsimp only
  repeat' split
  · exact hs.skip
  · exact .take seen _
  · exact .take seen _
  · exact hs.skip
  · exact hs.skip

theorem row_of_exit (h : t.exit? s = some c) : t.rows.get? c.symbol = some c.row := by
  rw [t.rows.get?_eq_some_iff]
  unfold exit? at h
  split at h
  · next e found =>
    cases h
    exact List.mem_of_find?_eq_some found
  · have seen := foldl_seen (f := considerExit s)
      (P := fun seen exits => Seen seen exits.falling ∧ Seen seen exits.rising ∧
        Seen seen exits.external) ?_ t.rows.entries ⟨none, none, none⟩ ⟨nofun, nofun, nofun⟩
    · obtain ⟨falling, rising, external⟩ := seen
      rcases Option.or_eq_some_iff.mp h with h | ⟨-, h⟩
      · rcases Option.or_eq_some_iff.mp h with h | ⟨-, h⟩
        · exact falling c h
        · exact rising c h
      · exact external c h
    · rintro seen exits e ⟨falling, rising, external⟩
      unfold considerExit
      dsimp only
      repeat' split
      · exact ⟨falling.skip, rising.skip, external.skip⟩
      · exact ⟨falling.skip, rising.skip, .take seen _⟩
      · exact ⟨.take seen _, rising.skip, external.skip⟩
      · exact ⟨falling.skip, rising.skip, external.skip⟩
      · exact ⟨falling.skip, .take seen _, external.skip⟩
      · exact ⟨falling.skip, rising.skip, external.skip⟩

section Exit

variable (marker : Symbol)

def offers (e : Symbol × Row α) : Bool :=
  let c := e.2.coefficient marker
  !(c == 0) && (e.1.isDummy || e.1.isExternal ||
    Scalar.belowLargest (if c < 0 then -e.2.constant / c else e.2.constant / c))

def Reaches (t : Tableau α) : Prop :=
  t.rows.contains marker = true ∨ ∃ e ∈ t.rows.entries, offers marker e = true

variable {marker}

theorem considerExit_closed (exits : Exits α)
    (proper : ¬(e.1.isDummy && !(e.2.coefficient marker == 0)) = true) :
    (considerExit marker exits e).Closed ↔ exits.Closed ∧ offers marker e = false := by
  obtain ⟨falling, rising, external⟩ := exits
  unfold considerExit offers Exits.Closed
  dsimp only
  by_cases zero : (e.2.coefficient marker == 0) = true
  · simp [zero]
  · have zero : (e.2.coefficient marker == 0) = false := by simpa using zero
    have kind : e.1.isDummy = false := by simpa [zero] using proper
    by_cases outer : e.1.isExternal = true
    · simp [zero, outer]
    · simp only [zero, outer, kind, Bool.false_eq_true, if_false]
      split
      · cases falling with
        | none =>
          cases inRange : Scalar.belowLargest (-e.2.constant / e.2.coefficient marker) <;>
            simp [sooner, inRange]
        | some b =>
          by_cases lt : -e.2.constant / e.2.coefficient marker < b.ratio <;> simp [sooner, lt]
      · cases rising with
        | none =>
          cases inRange : Scalar.belowLargest (e.2.constant / e.2.coefficient marker) <;>
            simp [sooner, inRange]
        | some b =>
          by_cases lt : e.2.constant / e.2.coefficient marker < b.ratio <;> simp [sooner, lt]

theorem exit_eq_none_iff : t.exit? marker = none ↔ ∀ e ∈ t.rows.entries, offers marker e = false := by
  unfold exit?
  split
  · next e found =>
    have kind := List.find?_some found
    simp only [reduceCtorEq, false_iff]
    intro none
    have offered := none e (List.mem_of_find?_eq_some found)
    simp_all [offers]
  · next none =>
    have closed (l : List (Symbol × Row α)) (exits : Exits α)
        (proper : ∀ e ∈ l, ¬(e.1.isDummy && !(e.2.coefficient marker == 0)) = true) :
        (l.foldl (considerExit marker) exits).Closed ↔
          exits.Closed ∧ ∀ e ∈ l, offers marker e = false := by
      induction l generalizing exits with
      | nil => simp
      | cons e l ih =>
        obtain ⟨own, others⟩ := List.forall_mem_cons.mp proper
        rw [List.foldl_cons, ih _ others, considerExit_closed exits own, List.forall_mem_cons,
          and_assoc]
    have all := closed t.rows.entries ⟨.none, .none, .none⟩ (List.find?_eq_none.mp none)
    simpa [Exits.Closed, Option.or_eq_none_iff, and_assoc] using all

theorem withdraw_cases (t : Tableau α) (marker : Symbol) :
    (t.Reaches marker ∧ (t.withdraw marker).1 = .ok ()) ∨
    (¬t.Reaches marker ∧ (t.withdraw marker).1 = .error (.internal .noLeavingRow)) := by
  unfold withdraw Reaches
  cases basic : t.rows.contains marker with
  | true => simp
  | false =>
    cases leaves : t.exit? marker with
    | none =>
      have none := exit_eq_none_iff.mp leaves
      right
      simpa using fun s row he => none (s, row) he
    | some c =>
      left
      have some : ¬∀ e ∈ t.rows.entries, offers marker e = false := by
        rw [← exit_eq_none_iff, leaves]
        exact nofun
      simpa using some

end Exit

theorem mem_of_dualEntering {objective row : Row α} (h : dualEntering? objective row = some s) :
    s ∈ row.cells.keys := by
  unfold dualEntering? at h
  obtain ⟨best, found, rfl⟩ := Option.map_eq_some_iff.mp h
  have seen : ∀ b, row.cells.entries.foldl (cheaper objective) none = some b →
      b.2 ∈ row.cells.entries.map Prod.fst := by
    refine foldl_seen (P := fun (seen : List (Symbol × α)) (best : Option (α × Symbol)) =>
      ∀ b, best = some b → b.2 ∈ seen.map Prod.fst) ?_ row.cells.entries none nofun
    intro seen best e h
    have skip : ∀ b, best = some b → b.2 ∈ (seen ++ [e]).map Prod.fst := by
      intro b hb
      rw [List.map_append]
      exact List.mem_append_left _ (h b hb)
    have take (ratio : α) : ∀ b, some (ratio, e.1) = some b → b.2 ∈ (seen ++ [e]).map Prod.fst := by
      rintro b ⟨⟩
      simp
    unfold cheaper
    dsimp only
    repeat' split
    · exact take _
    · exact nofun
    · exact take _
    · exact skip
    · exact skip
  exact seen best found

end Tableau

end LinearChoice
