import Mathlib
import LinearChoice.Scalar

/-!
# The rule of signs

What is known of the signs of products and quotients without knowing how they are
rounded. Rounding may turn a number into zero or into an infinity, but it leaves
the sign, so floating point obeys the rule.
-/

set_option autoImplicit false

namespace LinearChoice

structure Scalar.Signed (α : Type) [Scalar α] : Prop where
  irrefl : ¬(0 : α) < 0
  neg : ∀ x : α, x < 0 → ¬-x < 0
  quotient : ∀ x c : α, ¬x < 0 → c < 0 → ¬x * (-1 / c) < 0
  zero : ∀ x k : α, (x == 0) = true → ¬x * k < 0
  tolerance : ∀ x : α, x < -Scalar.tolerance → x < 0

namespace Binary
open Float.Model Float.Model.UnpackedFloat

variable {u v : UnpackedFloat}

def negative : UnpackedFloat → Bool
  | .infinity .negative | .finite .negative _ _ _ => true
  | _ => false

theorem negative_cases (h : negative u = true) :
    u = .infinity .negative ∨ ∃ m e pos, u = .finite .negative m e pos := by
  rcases u with (_ | _) | _ | _ | (_ | _)
  · exact Or.inl rfl
  · contradiction
  · contradiction
  · contradiction
  · exact Or.inr ⟨_, _, _, rfl⟩
  · contradiction

theorem sign_of_negative {spec : Format} {b : BitVec spec.numBits}
    (h : negative (UnpackedFloat.unpack spec b) = true) :
    Sign.ofBitVec (unpackSign b) = .negative := by
  unfold UnpackedFloat.unpack at h
  dsimp only at h
  generalize Sign.ofBitVec (unpackSign b) = s at h ⊢
  cases s with
  | negative => rfl
  | positive =>
    repeat' split at h
    all_goals contradiction

/-- Nothing becomes negative by being packed. -/
theorem negative_of_pack (h : negative (Float.Model.pack u).unpack = true) : negative u = true := by
  have sign : Sign.ofBitVec (unpackSign (UnpackedFloat.pack Format.binary64 u)) = .negative :=
    sign_of_negative h
  rcases u with (_ | _) | _ | (_ | _) | ⟨s, m, e, pos⟩
  · rfl
  · exact absurd h (by decide)
  · exact absurd h (by decide)
  · exact absurd h (by decide)
  · exact absurd h (by decide)
  · -- What is packed may be an infinity or a subnormal, but the sign is written in any case.
    have kept : Sign.ofBitVec (unpackSign
        (UnpackedFloat.pack Format.binary64 (.finite s m e pos))) = s := by
      unfold UnpackedFloat.pack
      dsimp only
      repeat' split
      all_goals simp [packedInfinity]
    rw [kept] at sign
    subst sign
    rfl

theorem not_negative_round (spec : Format) (m : Nat) (e : Int) (a : Accuracy) :
    negative (roundWithAccuracy spec .positive m e a) = false := by
  unfold roundWithAccuracy
  dsimp only
  split <;> rfl

theorem not_negative_neg (h : negative u = true) : negative u.neg = false := by
  obtain rfl | ⟨m, e, pos, rfl⟩ := negative_cases h <;> rfl

theorem not_negative_mul (hu : negative u = false) (hv : negative v = false) :
    negative (UnpackedFloat.mul Format.binary64 u v) = false := by
  rcases u with (_ | _) | _ | _ | (_ | _) <;> rcases v with (_ | _) | _ | _ | (_ | _) <;>
    first | contradiction | rfl | exact not_negative_round _ _ _ _

theorem not_negative_zero_mul (s : Sign) :
    negative (UnpackedFloat.mul Format.binary64 (.zero s) v) = false := by
  cases v <;> rfl

theorem not_negative_div (hu : negative u = true) (hv : negative v = true) :
    negative (UnpackedFloat.div Format.binary64 u v) = false := by
  obtain rfl | ⟨m, e, pos, rfl⟩ := negative_cases hu <;>
    obtain rfl | ⟨m', e', pos', rfl⟩ := negative_cases hv <;>
      first | rfl | exact not_negative_round _ _ _ _

/-- What is less than zero, or than something negative, is negative. -/
theorem negative_of_lt (h : u.lt v = true) (below : v = .zero .positive ∨ negative v = true) :
    negative u = true := by
  have order : u.compare v = some .lt := by simpa [UnpackedFloat.lt] using h
  rcases below with rfl | below
  · rcases u with (_ | _) | _ | _ | (_ | _) <;> first | rfl | cases order
  · obtain rfl | ⟨m, e, pos, rfl⟩ := negative_cases below <;>
      rcases u with (_ | _) | _ | _ | (_ | _) <;> first | rfl | cases order

theorem lt_zero_iff (x : Float) : x < 0 ↔ negative x.toModel.unpack = true := by
  have lt : x < 0 ↔ x.toModel.unpack.lt (.zero .positive) = true :=
    ⟨fun h => of_decide_eq_true h, fun h => decide_eq_true h⟩
  rw [lt]
  refine ⟨fun h => negative_of_lt h (Or.inl rfl), fun h => ?_⟩
  generalize x.toModel.unpack = u at h
  obtain rfl | ⟨m, e, pos, rfl⟩ := negative_cases h <;> rfl

theorem zero_of_beq {x : Float} (h : (x == 0) = true) : ∃ s, x.toModel.unpack = .zero s := by
  have eq : x.toModel.unpack.beq (.zero .positive) = true := h
  obtain ⟨-, -, same | ⟨-, other⟩ | ⟨same, -⟩⟩ := (beq_iff_ne_notANumber_and_eq _ _).mp eq
  · exact ⟨_, same⟩
  · cases other
  · exact ⟨_, same⟩

end Binary

open Binary in
theorem Scalar.signed_float : Scalar.Signed Float where
  irrefl := by decide
  neg x h below := by
    rw [lt_zero_iff] at h below
    have kept := negative_of_pack below
    rw [not_negative_neg h] at kept
    contradiction
  quotient x c h hc below := by
    rw [lt_zero_iff] at h hc below
    have one : negative (-1 : Float).toModel.unpack = true := by decide
    have quotient : negative (-1 / c : Float).toModel.unpack = false :=
      Bool.eq_false_iff.mpr fun h => by
        have kept := negative_of_pack h
        rw [not_negative_div one hc] at kept
        contradiction
    have kept := negative_of_pack below
    rw [not_negative_mul (Bool.eq_false_iff.mpr h) quotient] at kept
    contradiction
  zero x k h below := by
    rw [lt_zero_iff] at below
    obtain ⟨s, zero⟩ := zero_of_beq h
    have kept := negative_of_pack below
    rw [zero, not_negative_zero_mul] at kept
    contradiction
  tolerance x h := by
    rw [lt_zero_iff]
    have lt : x.toModel.unpack.lt (-Scalar.tolerance : Float).toModel.unpack = true :=
      of_decide_eq_true h
    exact negative_of_lt lt (Or.inr (by decide))

end LinearChoice
