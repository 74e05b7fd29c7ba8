import KScript.Proofs.Number.Rounding

/-!
# When doubles are equal

Doubles are equal if both are numbers and the same one, and the two zeros are one number (`beq_iff`).
-/

namespace KScript.Double

open Float.Model.UnpackedFloat

lemma compare_sign_eq_iff (s t : Sign) : compare s t = .eq ↔ s = t := by
  cases s <;> cases t
  case negative.positive => exact ⟨fun h => (by cases h), fun h => (by cases h)⟩
  case positive.negative => exact ⟨fun h => (by cases h), fun h => (by cases h)⟩
  all_goals exact ⟨fun _ => rfl, fun _ => rfl⟩

/-- Unpacked doubles compare as equal if they are the same number; both zeros are one number. -/
lemma compare_eq_iff (a b : Float.Model.UnpackedFloat) :
    a.compare b = some .eq ↔ (a = b ∧ a.isNaN = false) ∨ ∃ s t, a = .zero s ∧ b = .zero t := by
  fun_cases Float.Model.UnpackedFloat.compare a b
  all_goals simp_all [Float.Model.UnpackedFloat.isNaN, compare_sign_eq_iff, Ordering.then_eq_eq,
    Ordering.swap_eq_iff_eq_swap]
  all_goals grind

lemma eq_of_unpack_eq {x y : Float} (h : x.toModel.unpack = y.toModel.unpack) : x = y := by
  obtain ⟨bits, valid⟩ := x
  obtain ⟨bits', valid'⟩ := y
  have hpack := pack_unpack_of_valid valid
  have hpack' := pack_unpack_of_valid valid'
  change unpack .binary64 bits.toBitVec = unpack .binary64 bits'.toBitVec at h
  obtain rfl : bits = bits' := UInt64.eq_of_toBitVec_eq (by rw [← hpack, h, hpack'])
  rfl

/-- The bits below the sign are all clear in a zero only. -/
lemma unpack_eq_zero_iff (x : Float) : (∃ s, x.toModel.unpack = .zero s) ↔ magnitude x = 0 := by
  have hzero : (@unpackExponent .binary64 x.toBits.toBitVec = 0#11
      ∧ @unpackMantissa .binary64 x.toBits.toBitVec = 0#52) ↔ magnitude x = 0 := by
    rw [← BitVec.toNat_inj, ← BitVec.toNat_inj]
    simp [unpackExponent, unpackMantissa, BitVec.extractLsb, Float.Model.Format.binary64,
      Nat.shiftRight_eq_div_pow, magnitude, signWeight, twoTo]
    omega
  rw [← hzero]
  change (∃ s, unpack .binary64 x.toBits.toBitVec = _) ↔ _
  unfold unpack
  dsimp only
  split
  · next hset =>
    have hne : @unpackExponent .binary64 x.toBits.toBitVec ≠ 0#11 := by
      rw [show @unpackExponent .binary64 x.toBits.toBitVec = _ from hset]
      decide
    split <;> simp [hne]
  · split
    · next hexponent =>
      have hclear : @unpackExponent .binary64 x.toBits.toBitVec = 0#11 := hexponent
      split
      · next hmantissa => simpa [hclear] using hmantissa
      · next hmantissa => simpa [hclear] using hmantissa
    · next hexponent =>
      have hset : ¬@unpackExponent .binary64 x.toBits.toBitVec = 0#11 := hexponent
      simp [hset]

lemma isNaN_of_magnitude_zero {x : Float} (h : magnitude x = 0) : x.isNaN = false := by
  rw [Bool.eq_false_iff]
  intro hnan
  have hgreat : infinityBits < magnitude x := (sort_iff x).2.2.mp hnan
  omega

/-- Doubles are equal if both are numbers and the same one; both zeros are one number. -/
theorem beq_iff (x y : Float) : (x == y) = true ↔
    (x = y ∧ x.isNaN = false) ∨ magnitude x = 0 ∧ magnitude y = 0 := by
  have hcompare : (x == y) = true ↔ x.toModel.unpack.compare y.toModel.unpack = some .eq := by
    change (x.toModel.unpack.compare y.toModel.unpack == some Ordering.eq) = true ↔ _
    exact beq_iff_eq
  rw [hcompare, compare_eq_iff, ← unpack_eq_zero_iff, ← unpack_eq_zero_iff]
  constructor
  · rintro (⟨heq, hnumber⟩ | ⟨s, t, hs, ht⟩)
    · exact .inl ⟨eq_of_unpack_eq heq, hnumber⟩
    · exact .inr ⟨⟨s, hs⟩, t, ht⟩
  · rintro (⟨rfl, hnumber⟩ | ⟨⟨s, hs⟩, t, ht⟩)
    · exact .inl ⟨rfl, hnumber⟩
    · exact .inr ⟨s, t, hs, ht⟩

end KScript.Double
