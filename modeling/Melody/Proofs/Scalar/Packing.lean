import Melody.Proofs.Scalar.Order

/-! The values that doubles can have are read back from the bits that they are packed into. -/

namespace Melody.Binary64

open Float.Model Float.Model.UnpackedFloat

/-- The values that a double can have: a significand of 53 bits, or fewer at the least exponent. -/
def Regular : UnpackedFloat → Prop
  | .finite _ significand exponent _ =>
    significand < 2 ^ 53 ∧ -1074 ≤ exponent ∧ exponent ≤ 971 ∧
      (exponent = -1074 ∨ 2 ^ 52 ≤ significand)
  | _ => True

/-- The values that a double could have if no exponent was too large for it. -/
def Shaped : UnpackedFloat → Prop
  | .finite _ significand exponent _ =>
    significand < 2 ^ 53 ∧ -1074 ≤ exponent ∧ (exponent = -1074 ∨ 2 ^ 52 ≤ significand)
  | _ => True

/-- A regular value has the shape of a double. -/
theorem Regular.shaped {value : UnpackedFloat} (regular : Regular value) : Shaped value := by
  cases value with
  | finite sign significand exponent positive => exact ⟨regular.1, regular.2.1, regular.2.2.2⟩
  | infinity sign => trivial
  | notANumber => trivial
  | zero sign => trivial

/-- The sign is unpacked as it was packed. -/
@[simp] theorem unpackSign_packComponents {format : Format} (sign : Sign)
    (exponent : BitVec format.exponentBits)
    (significand : BitVec format.mantissaBitsWithoutImplicit) :
    unpackSign (packComponents format sign exponent significand) = sign.toBitVec := by
  refine BitVec.eq_of_getLsbD_eq fun i below => ?_
  obtain rfl : i = 0 := by omega
  simp [unpackSign, packComponents, BitVec.getLsbD_append, BitVec.getElem_append]

/-- The bit in front of a stored significand makes it 53 bits long. -/
theorem toNat_leading (stored : BitVec 52) : (1#1 ++ stored).toNat = 2 ^ 52 + stored.toNat := by
  rw [BitVec.toNat_append, ← Nat.shiftLeft_add_eq_or_of_lt stored.isLt]
  rfl

/-- A sign is told by its bit. -/
@[simp] theorem ofBitVec_toBitVec (sign : Sign) : Sign.ofBitVec sign.toBitVec = sign := by
  cases sign <;> rfl

/-- A value is read back from its parts when its exponent is neither the least nor the largest. -/
theorem unpack_normal (sign : Sign) (exponent : BitVec 11) (stored : BitVec 52)
    (finite : exponent ≠ 2047#11) (value : exponent ≠ 0#11) :
    unpack Format.binary64 (packComponents Format.binary64 sign exponent stored) =
      .finite sign (1#1 ++ stored).toNat ((exponent.toNat : Int) - 1075)
        (by rw [toNat_leading]; omega) := by
  unfold UnpackedFloat.unpack
  simp [finite, value]
  norm_num [Format.exponentBias]

/-- A value at the least exponent is read back from the rest of its parts. -/
theorem unpack_subnormal (sign : Sign) (stored : BitVec 52) (value : 0 < stored.toNat) :
    unpack Format.binary64 (packComponents Format.binary64 sign 0#11 stored) =
      .finite sign stored.toNat (-1074) value := by
  -- With the least exponent stored, the leading bit is not implied.
  have some : stored ≠ 0#52 := by
    rintro rfl
    simp at value
  unfold UnpackedFloat.unpack
  simp [some]
  norm_num [Format.exponentBias]

/-- A value that a double can have is read back from its bits. -/
theorem unpack_pack {sign : Sign} {significand : Nat} {exponent : Int}
    {positive : 0 < significand} (regular : Regular (.finite sign significand exponent positive)) :
    (Float.Model.pack (.finite sign significand exponent positive)).unpack =
      .finite sign significand exponent positive := by
  obtain ⟨fits, low, high, full⟩ := regular
  show unpack Format.binary64 (UnpackedFloat.pack Format.binary64 _) = _
  have bias : (exponent + Format.binary64.exponentBias +
      Format.binary64.mantissaBitsWithoutImplicit).toNat = (exponent + 1075).toNat := by
    norm_num [Format.exponentBias]
    omega
  unfold UnpackedFloat.pack
  dsimp only
  rw [bias, if_neg (by omega)]
  have digits : significand.log2 + 1 = Format.binary64.mantissaBits ↔ 2 ^ 52 ≤ significand := by
    rw [← Nat.le_log2 positive.ne']
    have short := (Nat.log2_lt positive.ne').mpr fits
    norm_num [Format.mantissaBits]
    omega
  -- A full significand is stored without its leading bit, and any other has the least exponent.
  by_cases long : 2 ^ 52 ≤ significand
  · have field : (BitVec.ofNat 11 (exponent + 1075).toNat).toNat = (exponent + 1075).toNat := by
      rw [BitVec.toNat_ofNat, Nat.mod_eq_of_lt (by omega)]
    have whole : (1#1 ++ BitVec.ofNat 52 significand).toNat = significand := by
      rw [toNat_leading, BitVec.toNat_ofNat]
      omega
    rw [if_pos (digits.mpr long)]
    refine (unpack_normal sign _ _ (fun last => ?_) (fun first => ?_)).trans ?_
    · rw [last] at field
      simp at field
      omega
    · rw [first] at field
      simp at field
      omega
    · simp only [whole, field]
      congr 1
      omega
  · obtain rfl : exponent = -1074 := full.resolve_right long
    have whole : (BitVec.ofNat 52 significand).toNat = significand := by
      rw [BitVec.toNat_ofNat, Nat.mod_eq_of_lt (by omega)]
    rw [if_neg (mt digits.mp long)]
    refine (unpack_subnormal sign _ (by rwa [whole])).trans ?_
    simp only [whole]

/-- The bits of a double hold a value that a double can have. -/
theorem regular_unpack (x : Float.Model) : Regular x.unpack := by
  show Regular (unpack Format.binary64 x.toBits.toBitVec)
  generalize x.toBits.toBitVec = bits
  have stored := (@unpackMantissa Format.binary64 bits).isLt
  have field := (@unpackExponent Format.binary64 bits).isLt
  unfold UnpackedFloat.unpack
  dsimp only
  split
  · split <;> trivial
  · rename_i finite
    split
    · rename_i least
      split
      · trivial
      · simp only [Regular, least]
        norm_num [Format.exponentBias] at stored ⊢
        omega
    · rename_i more
      -- The largest exponent field and the least one have been dealt with.
      have last : (@unpackExponent Format.binary64 bits).toNat ≠ 2047 :=
        fun same => finite (BitVec.eq_of_toNat_eq same)
      have first : (@unpackExponent Format.binary64 bits).toNat ≠ 0 :=
        fun same => more (BitVec.eq_of_toNat_eq same)
      simp only [Regular]
      rw [toNat_leading]
      norm_num [Format.exponentBias] at stored field ⊢
      omega

end Melody.Binary64
