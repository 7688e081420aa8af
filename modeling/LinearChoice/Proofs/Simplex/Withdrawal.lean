import LinearChoice.Proofs.Simplex.Minimise
import LinearChoice.Simplex.Withdraw

/-!
# Withdrawing a symbol

When a marker is withdrawn the tableau is left with the solutions that it has
for some value of the marker. The row through which the marker leaves is
chosen so that what remains is in standard form.
-/

set_option autoImplicit false

namespace LinearChoice
open scoped Exact

def Rises (s : Symbol) (e : Symbol × Row ℚ) : Prop :=
  e.1.isExternal = false ∧ 0 < e.2.coefficient s

def riseRatio (s : Symbol) (e : Symbol × Row ℚ) : ℚ := e.2.constant / e.2.coefficient s

def Exits.External (s : Symbol) (seen : List (Symbol × Row ℚ)) : Option (Candidate ℚ) → Prop
  | none => ∀ e ∈ seen, e.1.isExternal = true → e.2.coefficient s = 0
  | some c => (c.symbol, c.row) ∈ seen ∧ c.symbol.isExternal = true ∧ c.row.coefficient s ≠ 0

structure Exits.Best (s : Symbol) (seen : List (Symbol × Row ℚ)) (exits : Exits ℚ) : Prop where
  falling : Candidate.Least (Falls s) (fallRatio s) seen exits.falling
  rising : Candidate.Least (Rises s) (riseRatio s) seen exits.rising
  external : Exits.External s seen exits.external

namespace Tableau

section Exit

variable {s : Symbol} {seen : List (Symbol × Row ℚ)} {exits : Exits ℚ} {e : Symbol × Row ℚ}

theorem External.skip {best : Option (Candidate ℚ)} (h : Exits.External s seen best)
    (he : e.1.isExternal = true → e.2.coefficient s = 0) :
    Exits.External s (seen ++ [e]) best := by
  cases best with
  | none =>
    intro x hx
    rcases List.mem_append.mp hx with hx | hx
    · exact h x hx
    · exact List.mem_singleton.mp hx ▸ he
  | some c => exact ⟨List.mem_append_left _ h.1, h.2⟩

theorem sooner_iff (ratio : ℚ) (best : Option (Candidate ℚ)) :
    sooner ratio best = true ↔ ∀ c, best = some c → ratio < c.ratio := by
  cases best <;> simp [sooner]

section Sooner

variable {eligible : Symbol × Row ℚ → Prop} {ratio : Symbol × Row ℚ → ℚ}
variable {best : Option (Candidate ℚ)} (h : Candidate.Least eligible ratio seen best)
include h

theorem least_sooner (he : eligible e) (hs : sooner (ratio e) best = true) :
    Candidate.Least eligible ratio (seen ++ [e]) (some ⟨ratio e, e.1, e.2⟩) :=
  h.take he fun c hc => le_of_lt ((sooner_iff _ _).mp hs c hc)

theorem least_not_sooner (hs : ¬sooner (ratio e) best = true) :
    Candidate.Least eligible ratio (seen ++ [e]) best := by
  cases best with
  | none => simp [sooner] at hs
  | some c =>
    apply h.keep
    by_contra hlt
    exact hs ((sooner_iff _ _).mpr fun b hb => Option.some.inj hb ▸ not_le.mp hlt)

end Sooner

theorem considerExit_best (h : Exits.Best s seen exits) :
    Exits.Best s (seen ++ [e]) (considerExit s exits e) := by
  have fall (hf : ¬Falls s e) := h.falling.skip hf
  have rise (hr : ¬Rises s e) := h.rising.skip hr
  unfold considerExit
  simp only
  split
  · next hc =>
    have hc : e.2.coefficient s = 0 := by simpa using hc
    exact ⟨fall fun hf => absurd hc (ne_of_lt hf.2), rise fun hr => absurd hc (ne_of_gt hr.2),
      External.skip h.external fun _ => hc⟩
  · next hc =>
    have hc : e.2.coefficient s ≠ 0 := by simpa using hc
    split
    · next hx =>
      exact ⟨fall fun hf => by simp [hf.1] at hx, rise fun hr => by simp [hr.1] at hx,
        List.mem_append_right _ (List.mem_singleton_self e), hx, hc⟩
    · next hx =>
      have hx : e.1.isExternal = false := by simpa using hx
      have ext := External.skip (e := e) h.external fun hx' => by simp [hx] at hx'
      split
      · next hneg =>
        have risen := rise fun hr => absurd hneg (not_lt.mpr (le_of_lt hr.2))
        split
        · next hs => exact ⟨least_sooner h.falling ⟨hx, hneg⟩ hs, risen, ext⟩
        · next hs => exact ⟨least_not_sooner h.falling hs, risen, ext⟩
      · next hneg =>
        have hpos : 0 < e.2.coefficient s := lt_of_le_of_ne (not_lt.mp hneg) (Ne.symm hc)
        have fallen := fall fun hf => absurd hf.2 hneg
        split
        · next hs => exact ⟨fallen, least_sooner h.rising ⟨hx, hpos⟩ hs, ext⟩
        · next hs => exact ⟨fallen, least_not_sooner h.rising hs, ext⟩

end Exit

inductive Exit (t : Tableau ℚ) (s leaving : Symbol) (row : Row ℚ) : Prop
  | redundant (hd : leaving.isDummy = true)
  | falling (falls : Falls s (leaving, row))
      (least : ∀ x r, t.rows.get? x = some r → Falls s (x, r) →
        fallRatio s (leaving, row) ≤ fallRatio s (x, r))
  | rising (rises : Rises s (leaving, row)) (none : ∀ x r, t.rows.get? x = some r → ¬Falls s (x, r))
      (least : ∀ x r, t.rows.get? x = some r → Rises s (x, r) →
        riseRatio s (leaving, row) ≤ riseRatio s (x, r))
  | external (none : ∀ x r, t.rows.get? x = some r → x.isExternal = false → r.coefficient s = 0)

variable {t : Tableau ℚ} {s : Symbol}

theorem exits_best (t : Tableau ℚ) (s : Symbol) :
    Exits.Best s t.rows.entries (t.rows.entries.foldl (considerExit s) ⟨none, none, none⟩) := by
  apply foldl_seen fun seen exits e h => considerExit_best h
  constructor
  all_goals
    intro e he
    simp at he

theorem exit_cases (t : Tableau ℚ) (s : Symbol) :
    (t.exit? s = none ∧ ∀ x r, t.rows.get? x = some r → r.coefficient s = 0) ∨
    ∃ c, t.exit? s = some c ∧ t.rows.get? c.symbol = some c.row ∧ c.row.coefficient s ≠ 0 ∧
      (c.symbol.isDummy = true ∨
        ∀ x r, t.rows.get? x = some r → x.isDummy = true → r.coefficient s = 0) ∧
      t.Exit s c.symbol c.row := by
  have entry (x : Symbol) (r : Row ℚ) : t.rows.get? x = some r ↔ (x, r) ∈ t.rows.entries :=
    t.rows.get?_eq_some_iff x r
  unfold exit?
  split
  · next e found =>
    have he : e.1.isDummy = true ∧ e.2.coefficient s ≠ 0 := by simpa using List.find?_some found
    right
    exact ⟨_, rfl, (entry _ _).mpr (List.mem_of_find?_eq_some found), he.2, Or.inl he.1,
      Exit.redundant he.1⟩
  · next absent =>
    have dummies (x : Symbol) (r : Row ℚ) (hx : t.rows.get? x = some r) (hd : x.isDummy = true) :
        r.coefficient s = 0 := by
      simpa [hd] using List.find?_eq_none.mp absent (x, r) ((entry x r).mp hx)
    obtain ⟨falling, rising, external⟩ := exits_best t s
    generalize t.rows.entries.foldl (considerExit s) ⟨none, none, none⟩ = exits at *
    obtain ⟨best₁, best₂, best₃⟩ := exits
    cases best₁ with
    | some c =>
      obtain ⟨mem, falls, ratio, least⟩ := falling
      right
      exact ⟨c, rfl, (entry _ _).mpr mem, ne_of_lt falls.2, Or.inr dummies,
        Exit.falling falls fun x r hx hf => ratio ▸ least _ ((entry x r).mp hx) hf⟩
    | none =>
      have level (x : Symbol) (r : Row ℚ) (hx : t.rows.get? x = some r) : ¬Falls s (x, r) :=
        falling _ ((entry x r).mp hx)
      cases best₂ with
      | some c =>
        obtain ⟨mem, rises, ratio, least⟩ := rising
        right
        exact ⟨c, rfl, (entry _ _).mpr mem, ne_of_gt rises.2, Or.inr dummies,
          Exit.rising rises level fun x r hx hr => ratio ▸ least _ ((entry x r).mp hx) hr⟩
      | none =>
        have inside (x : Symbol) (r : Row ℚ) (hx : t.rows.get? x = some r)
            (hi : x.isExternal = false) : r.coefficient s = 0 := by
          apply le_antisymm
          · exact not_lt.mp fun hc => rising _ ((entry x r).mp hx) ⟨hi, hc⟩
          · exact not_lt.mp fun hc => level x r hx ⟨hi, hc⟩
        cases best₃ with
        | some c =>
          obtain ⟨mem, -, hc⟩ := external
          right
          exact ⟨c, rfl, (entry _ _).mpr mem, hc, Or.inr dummies, Exit.external inside⟩
        | none =>
          left
          refine ⟨rfl, fun x r hx => ?_⟩
          cases hi : x.isExternal with
          | false => exact inside x r hx hi
          | true => exact external _ ((entry x r).mp hx) hi

section Fit

variable {leaving : Symbol} {row : Row ℚ} (h : t.Standard)
  (hl : t.rows.get? leaving = some row) (hc : row.coefficient s ≠ 0)
  {x : Symbol} {r : Row ℚ} (hx : t.rows.get? x = some r)

include h hl hc hx

theorem internal_withdrawn (hi : leaving.isExternal = false) (hxi : x.isExternal = false) :
    (r.substitute s (row.exchange leaving s)).Internal := by
  have hs := parametric_of_coefficient (h.parametric _ _ hl) hc
  have hne := ne_of_basic_of_parametric hl hs
  have inside := (h.admits leaving row hl).internal hi
  exact internal_substitute ((h.admits x r hx).internal hxi) (internal_exchange hne hc inside hi)
    (not_external_of_internal inside hc)

/-- The row of a dummy has no constant, so nothing is moved by the exchange. -/
theorem admits_withdrawn_dummy (hd : leaving.isDummy = true) :
    x.Admits (r.substitute s (row.exchange leaving s)) := by
  have hs := parametric_of_coefficient (h.parametric _ _ hl) hc
  have hne := ne_of_basic_of_parametric hl hs
  have old := h.admits x r hx
  obtain ⟨only, zero⟩ := (Symbol.admits_dummy hd).mp (h.admits leaving row hl)
  have hsd : s.isDummy = true := by
    by_contra hsd
    exact hc (only s (by simpa using hsd))
  have hi : leaving.isExternal = false := by
    cases leaving <;> simp_all [Symbol.isDummy, Symbol.isExternal]
  have constant : (row.exchange leaving s).constant = 0 := by
    rw [Row.constant_exchange hne hc, zero, neg_zero, zero_div]
  have same : (r.substitute s (row.exchange leaving s)).constant = r.constant := by
    rw [Row.constant_substitute, constant, mul_zero, add_zero]
  by_cases hxd : x.isDummy = true
  · obtain ⟨onlyx, zerox⟩ := (Symbol.admits_dummy hxd).mp old
    refine (Symbol.admits_dummy hxd).mpr ⟨fun y hy => ?_, same.trans zerox⟩
    have hys : y ≠ s := fun heq => by simp [heq, hsd] at hy
    have hyl : y ≠ leaving := fun heq => by simp [heq, hd] at hy
    rw [Row.coefficient_substitute, onlyx y hy, Row.coefficient_exchange y hne hc, only y hy,
      if_neg hys, if_neg hyl]
    ring
  · apply Symbol.Admits.of_nonneg (by simpa using hxd)
    intro hxi
    exact ⟨internal_withdrawn h hl hc hx hi hxi, same ▸ old.nonneg hxi⟩

/-- Whichever row the symbol leaves through, the rows that stay are fit. -/
theorem Exit.fits
    (dummies : leaving.isDummy = true ∨
      ∀ x r, t.rows.get? x = some r → x.isDummy = true → r.coefficient s = 0)
    (exit : t.Exit s leaving row) (hm : r.coefficient s ≠ 0) :
    x.Admits (r.substitute s (row.exchange leaving s)) := by
  have hs := parametric_of_coefficient (h.parametric _ _ hl) hc
  have hne := ne_of_basic_of_parametric hl hs
  rcases dummies with hd | dummies
  · exact admits_withdrawn_dummy h hl hc hx hd
  · have hxd : x.isDummy = false := by
      by_contra hxd
      exact hm (dummies x r hx (by simpa using hxd))
    apply Symbol.Admits.of_nonneg hxd
    intro hxi
    cases exit with
    | redundant hd => exact absurd (dummies _ _ hl hd) hc
    | falling falls least =>
      exact ⟨internal_withdrawn h hl hc hx falls.1 hxi, substitute_least h hl falls least hx hxi⟩
    | rising rises none least =>
      refine ⟨internal_withdrawn h hl hc hx rises.1 hxi, ?_⟩
      have hr : 0 < r.coefficient s :=
        lt_of_le_of_ne (not_lt.mp fun hlt => none x r hx ⟨hxi, hlt⟩) (Ne.symm hm)
      have bound := mul_le_mul_of_nonneg_left (least x r hx ⟨hxi, hr⟩) (le_of_lt hr)
      have whole : r.coefficient s * riseRatio s (x, r) = r.constant :=
        mul_div_cancel₀ _ (ne_of_gt hr)
      have part : (row.exchange leaving s).constant = -riseRatio s (leaving, row) := by
        rw [Row.constant_exchange hne hc, neg_div]
        rfl
      rw [Row.constant_substitute, part]
      linarith
    | external none => exact absurd (none x r hx hxi) hm

end Fit

structure Withdrawn (t : Tableau ℚ) (s : Symbol) (costs : List (Symbol × ℚ)) (t' : Tableau ℚ) :
    Prop where
  standard : t'.Standard
  solves : ∀ σ, t'.Solves σ ↔ ∃ x, t.Solves (Function.update σ s x)
  prices : t'.Prices costs t'.objective

/-- Dropping the row of a basic symbol sets the symbol free. -/
theorem solves_detach_free {row : Row ℚ}
    (parametric : ∀ x r, t.rows.get? x = some r → t.Parametric r)
    (hs : t.rows.get? s = some row) (σ : Valuation) :
    (t.detach s).Solves σ ↔ ∃ x, t.Solves (Function.update σ s x) := by
  rw [solves_detach_iff parametric hs]
  refine ⟨fun hσ => ⟨_, hσ⟩, ?_⟩
  rintro ⟨x, hσ⟩
  have own : row.coefficient s = 0 := parametric s row hs s (by simp [hs])
  have value := hσ s row hs
  rw [Function.update_self, Row.eval_update own] at value
  exact value ▸ hσ

theorem withdraw_spec {costs : List (Symbol × ℚ)} (h : t.Standard)
    (ho : t.Prices costs t.objective) (apart : ∀ e ∈ costs, e.1 ≠ s) (bound : ¬t.Absent s) :
    ∃ t', t.withdraw s = (.ok (), t') ∧ t.Withdrawn s costs t' := by
  unfold withdraw
  cases hb : t.rows.get? s with
  | some row =>
    refine ⟨t.detach s, by simp [Table.contains, hb], h.detach s, ?_, ?_⟩
    · exact solves_detach_free h.parametric hb
    · exact ho.detach h.parametric hb apart
  | none =>
    rcases exit_cases t s with ⟨-, none⟩ | ⟨c, found, hl, hc, dummies, exit⟩
    · exact absurd ⟨hb, none⟩ bound
    · let t₁ := t.pivot c.symbol c.row s
      have gone : (t.detach c.symbol).rows.get? s = none := by rw [get?_detach, hb, ite_self]
      have parametric (x : Symbol) (r : Row ℚ) (hx : t₁.rows.get? x = some r) :
          t₁.Parametric r := rows_parametric_pivot hl hb hc h.parametric hx
      have basic : t₁.rows.get? s = some (c.row.exchange c.symbol s) := by
        rw [get?_pivot, if_pos rfl]
      have same : (t.detach c.symbol).substitute s (c.row.exchange c.symbol s) = t₁.detach s := by
        refine (detach_attach ?_).symm
        rw [get?_substitute, gone]
        rfl
      refine ⟨(t.detach c.symbol).substitute s (c.row.exchange c.symbol s),
        by simp [Table.contains, hb, found], ?_, ?_, ?_⟩
      · have exchanged := parametric_exchange hl hb hc (h.parametric _ _ hl)
        apply (h.detach c.symbol).substitute gone exchanged
        intro x r hx
        rw [get?_detach] at hx
        split at hx
        · contradiction
        · exact exit.fits h hl hc hx dummies
      · intro σ
        rw [same, solves_detach_free parametric basic]
        simp only [t₁, solves_pivot hl hb hc]
      · rw [same]
        exact (ho.pivot h hl hb hc).detach parametric basic apart

end Tableau

end LinearChoice
