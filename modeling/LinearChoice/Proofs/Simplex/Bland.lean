import LinearChoice.Proofs.Simplex.RatioTest
import LinearChoice.Proofs.Simplex.SymbolOrder

/-!
# The smallest-symbol rules

Of the symbols that may enter a basis the smallest does, and of the rows that
are down to zero first the one with the smallest symbol leaves.
-/

set_option autoImplicit false

namespace LinearChoice
open scoped Exact

theorem Symbol.least_smallest (l : List Symbol) :
    match least l with
    | none => l = []
    | some s => ∀ x ∈ l, ¬x < s := by
  unfold least
  refine foldl_seen (P := fun seen best => match best with
    | none => seen = []
    | some s => ∀ x ∈ seen, ¬x < s) ?_ l none rfl
  intro seen best e h
  cases best with
  | none =>
    subst h
    exact List.forall_mem_singleton.mpr (lt_irrefl e)
  | some b =>
    dsimp only
    by_cases less : e < b
    · rw [if_pos less]
      exact List.forall_mem_append.mpr ⟨fun x hx below => h x hx (lt_trans below less),
        List.forall_mem_singleton.mpr (lt_irrefl e)⟩
    · rw [if_neg less]
      exact List.forall_mem_append.mpr ⟨h, List.forall_mem_singleton.mpr less⟩

namespace Candidate

def Foremost (s : Symbol) (seen : List (Symbol × Row ℚ)) : Option (Candidate ℚ) → Prop
  | none => ∀ e ∈ seen, ¬Falls s e
  | some c => ∀ e ∈ seen, Falls s e →
    c.ratio < fallRatio s e ∨ (c.ratio = fallRatio s e ∧ ¬e.1 < c.symbol)

variable {s : Symbol} {seen : List (Symbol × Row ℚ)} {best : Option (Candidate ℚ)}
  {e : Symbol × Row ℚ}

theorem Foremost.skip (h : Foremost s seen best) (no : ¬Falls s e) :
    Foremost s (seen ++ [e]) best := by
  cases best with
  | none => exact List.forall_mem_append.mpr ⟨h, List.forall_mem_singleton.mpr no⟩
  | some c =>
    exact List.forall_mem_append.mpr
      ⟨h, List.forall_mem_singleton.mpr fun falls => absurd falls no⟩

theorem Foremost.keep {c : Candidate ℚ} (h : Foremost s seen (some c))
    (later : c.ratio < fallRatio s e ∨ (c.ratio = fallRatio s e ∧ ¬e.1 < c.symbol)) :
    Foremost s (seen ++ [e]) (some c) :=
  List.forall_mem_append.mpr ⟨h, List.forall_mem_singleton.mpr fun _ => later⟩

theorem Foremost.first (h : Foremost s seen none) :
    Foremost s (seen ++ [e]) (some ⟨fallRatio s e, e.1, e.2⟩) :=
  List.forall_mem_append.mpr ⟨fun x hx falls => absurd falls (h x hx),
    List.forall_mem_singleton.mpr fun _ => Or.inr ⟨rfl, Symbol.lt_irrefl e.1⟩⟩

theorem Foremost.take {c : Candidate ℚ} (h : Foremost s seen (some c))
    (sooner : fallRatio s e < c.ratio ∨ (fallRatio s e = c.ratio ∧ e.1 < c.symbol)) :
    Foremost s (seen ++ [e]) (some ⟨fallRatio s e, e.1, e.2⟩) := by
  refine List.forall_mem_append.mpr ⟨fun x hx falls => ?_,
    List.forall_mem_singleton.mpr fun _ => Or.inr ⟨rfl, Symbol.lt_irrefl e.1⟩⟩
  rcases sooner with less | ⟨same, less⟩ <;> rcases h x hx falls with more | ⟨even, not⟩
  · exact Or.inl (less.trans more)
  · exact Or.inl (even ▸ less)
  · exact Or.inl (same ▸ more)
  · exact Or.inr ⟨same.trans even, fun below => not (Symbol.lt_trans below less)⟩

end Candidate

namespace Tableau

variable {t : Tableau ℚ} {goal : Row ℚ} {s x : Symbol}

theorem entering_smallest (h : entering? goal = some s) (hd : x.isDummy = false) (below : x < s) :
    0 ≤ goal.coefficient x := by
  have smallest := Symbol.least_smallest
    ((goal.cells.entries.filter fun e => !e.1.isDummy && decide (e.2 < 0)).map Prod.fst)
  unfold entering? at h
  rw [h] at smallest
  by_contra negative
  exact smallest x (mem_lowering hd (not_le.mp negative)) below

theorem tighten_foremost (s : Symbol) (seen : List (Symbol × Row ℚ)) (best : Option (Candidate ℚ))
    (e : Symbol × Row ℚ) (h : Candidate.Foremost s seen best) :
    Candidate.Foremost s (seen ++ [e]) (tighten s best e) := by
  unfold tighten
  dsimp only
  split
  · next outer => exact h.skip fun falls => by simp [falls.1] at outer
  · next inner =>
    split
    · cases best with
      | none => exact h.first
      | some b =>
        dsimp only
        split
        · next sooner => exact h.take ((better_iff _ _).mp sooner)
        · next later =>
          rw [better_iff, not_or, not_lt, not_and] at later
          apply h.keep
          rcases lt_or_eq_of_le later.1 with more | even
          · exact Or.inl more
          · exact Or.inr ⟨even, later.2 even.symm⟩
    · next rises => exact h.skip fun falls => rises falls.2

/-- Of rows with the least ratio the one with the smallest symbol leaves. -/
theorem leaving_foremost {c : Candidate ℚ} (h : t.leaving? s = some c) {row : Row ℚ}
    (hx : t.rows.get? x = some row) (falls : Falls s (x, row))
    (even : fallRatio s (x, row) ≤ fallRatio s (c.symbol, c.row)) : ¬x < c.symbol := by
  have least := t.leaving_least s
  have foremost : Candidate.Foremost s t.rows.entries (t.leaving? s) :=
    foldl_seen (tighten_foremost s) t.rows.entries none (by intro e he; cases he)
  rw [h] at least foremost
  rcases foremost (x, row) ((t.rows.get?_eq_some_iff x row).mp hx) falls with less | ⟨-, smallest⟩
  · rw [least.2.2.1] at less
    exact absurd even (not_le.mpr less)
  · exact smallest

end Tableau

end LinearChoice
