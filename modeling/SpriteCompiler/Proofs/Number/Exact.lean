import SpriteCompiler.Number.Binary
import Mathlib

namespace SpriteCompiler.Number

open Float.Model Float.Model.UnpackedFloat

theorem Binary.floor_of_mantissa_eq_zero (b : Binary) (h : b.mantissa = 0) : b.floor = 0 := by
  simp [Binary.floor, Binary.signedMantissa, h]

theorem Binary.isIntegral_of_mantissa_eq_zero (b : Binary) (h : b.mantissa = 0) :
    b.isIntegral := by
  simp [Binary.isIntegral, h]

-- No bit is lost when a shift to the right takes back one to the left.
theorem shiftRight_exact (m k : Nat) :
    (⟨m * 2 ^ k, false, false⟩ : ExtendedMantissa) >>> k = ⟨m, false, false⟩ := by
  change Nat.repeat ExtendedMantissa.shiftRightOne k ⟨m * 2 ^ k, false, false⟩ = _
  induction k generalizing m with
  | zero => simp [Nat.repeat]
  | succ k ih =>
      have hm : m * 2 ^ (k + 1) = m * 2 * 2 ^ k := by rw [pow_succ']; ring
      rw [hm, Nat.repeat, ih]
      simp [ExtendedMantissa.shiftRightOne]

theorem log2_mul_two_pow {m : Nat} (k : Nat) (hm : m ≠ 0) : (m * 2 ^ k).log2 = m.log2 + k := by
  have hpos : m * 2 ^ k ≠ 0 := Nat.mul_ne_zero hm (by positivity)
  rw [Nat.log2_eq_iff hpos, pow_add, add_right_comm, pow_add]
  exact ⟨Nat.mul_le_mul_right _ (Nat.log2_self_le hm),
    Nat.mul_lt_mul_of_pos_right Nat.lt_log2_self (by positivity)⟩

section Normal

-- A mantissa of full length, with an exponent at which the number is neither subnormal nor infinite.
variable {m : Nat} {e : Int} (hlo : 2 ^ 52 ≤ m) (hhi : m < 2 ^ 53)

include hlo hhi

theorem log2_mantissa : m.log2 = 52 := by
  rw [Nat.log2_eq_iff (by omega)]
  exact ⟨hlo, hhi⟩

theorem shiftToTargetExponent_exact (k : Nat) (he : -1074 ≤ e + k) :
    shiftToTargetExponent Format.binary64 (m * 2 ^ k) e .exact = (⟨m, false, false⟩, e + k) := by
  have hlog : (m * 2 ^ k).log2 = 52 + k := by
    rw [log2_mul_two_pow k (by omega), log2_mantissa hlo hhi]
  have htarget : Format.binary64.targetExponent (totalExponent (m * 2 ^ k) e) = e + k := by
    simp only [Format.targetExponent, totalExponent, hlog, Format.mantissaBits, Format.minExponent]
    norm_num
    omega
  have hshift : (e + k - e).toNat = k := by omega
  simp only [shiftToTargetExponent, shiftToExponent, htarget, hshift]
  rw [ExtendedMantissa.ofMantissaAndAccuracy, shiftRight_exact]

-- A mantissa that is too long only by zeros is rounded without loss.
theorem roundWithAccuracy_exact (s : Sign) (k : Nat) (he : -1074 ≤ e + k) :
    roundWithAccuracy Format.binary64 s (m * 2 ^ k) e .exact = .finite s m (e + k) (by omega) := by
  have hfirst := shiftToTargetExponent_exact hlo hhi k he
  have hsecond := shiftToTargetExponent_exact hlo hhi (e := e + k) 0 (by simpa using he)
  simp only [pow_zero, mul_one, Nat.cast_zero, add_zero] at hsecond
  have hm : m ≠ 0 := by omega
  simp [roundWithAccuracy, hfirst, ExtendedMantissa.roundedMantissa, ExtendedMantissa.accuracy,
    Accuracy.roundToNearestEven, hsecond, hm]

theorem pack_normal (s : Sign) (hm : 0 < m) (he : -1074 ≤ e) (he' : e ≤ 971) :
    UnpackedFloat.pack Format.binary64 (.finite s m e hm) =
      packComponents Format.binary64 s (BitVec.ofNat 11 (e + 1075).toNat) (BitVec.ofNat 52 m) := by
  have hlog := log2_mantissa hlo hhi
  have hbias : Format.binary64.exponentBias = 1023 := by decide
  have hexp : (e + 1023 + 52).toNat = (e + 1075).toNat := by omega
  simp only [UnpackedFloat.pack, hlog, hbias, Format.mantissaBits]
  norm_num
  rw [if_neg (by omega)]
  simp [hexp]

end Normal

-- The three fields of a bit pattern, as they are taken apart here and in the format's own terms.
theorem exponent_field (b : BitVec 64) :
    ((UInt64.ofBitVec b >>> 52) &&& 0x7FF).toNat =
      (@unpackExponent Format.binary64 b).toNat := by
  have hmask : (0x7FF : Nat) = 2 ^ 11 - 1 := by norm_num
  simp only [unpackExponent, UInt64.toNat_and, UInt64.toNat_shiftRight, UInt64.toNat_ofBitVec,
    BitVec.toNat_cast, BitVec.extractLsb_toNat]
  exact (congrArg _ hmask).trans (Nat.and_two_pow_sub_one_eq_mod _ 11)

theorem mantissa_field (b : BitVec 64) :
    (UInt64.ofBitVec b &&& 0xFFFFFFFFFFFFF).toNat =
      (@unpackMantissa Format.binary64 b).toNat := by
  have hmask : (0xFFFFFFFFFFFFF : Nat) = 2 ^ 52 - 1 := by norm_num
  simp only [unpackMantissa, UInt64.toNat_and, UInt64.toNat_ofBitVec, BitVec.toNat_cast,
    BitVec.extractLsb_toNat, Nat.shiftRight_zero]
  exact (congrArg _ hmask).trans (Nat.and_two_pow_sub_one_eq_mod _ 52)

theorem sign_field (b : BitVec 64) :
    (UInt64.ofBitVec b >>> 63).toNat = (@unpackSign Format.binary64 b).toNat := by
  have hb : b.toNat >>> 63 < 2 := by
    rw [Nat.shiftRight_eq_div_pow]
    have := b.isLt
    omega
  simp [unpackSign, BitVec.extractLsb_toNat]
  omega

theorem toNat_exponent {e : Int} (he : -1074 ≤ e) (he' : e ≤ 971) :
    (BitVec.ofNat 11 (e + 1075).toNat).toNat = (e + 1075).toNat := by
  rw [BitVec.toNat_ofNat, Nat.mod_eq_of_lt (by omega)]

-- Putting a normal number into bits and taking it apart again gives the same number.
theorem unpack_pack_normal {m : Nat} {e : Int} (s : Sign) (hm : 0 < m) (hlo : 2 ^ 52 ≤ m)
    (hhi : m < 2 ^ 53) (he : -1074 ≤ e) (he' : e ≤ 971) :
    UnpackedFloat.unpack Format.binary64 (UnpackedFloat.pack Format.binary64 (.finite s m e hm)) =
      .finite s m e hm := by
  have hbias : Format.binary64.exponentBias = 1023 := by decide
  have hexp := toNat_exponent he he'
  rw [pack_normal hlo hhi s hm he he']
  unfold UnpackedFloat.unpack
  simp only [unpackMantissa_packComponents, unpackExponent_packComponents, hbias,
    unpackSign_packComponents]
  have hones : BitVec.ofNat 11 (e + 1075).toNat ≠ -1#11 := by
    intro h
    have hnat := congrArg BitVec.toNat h
    rw [hexp] at hnat
    simp at hnat
    omega
  have hzero : BitVec.ofNat 11 (e + 1075).toNat ≠ 0#11 := by
    intro h
    have hnat := congrArg BitVec.toNat h
    rw [hexp] at hnat
    simp at hnat
    omega
  rw [if_neg hones, if_neg hzero]
  congr 1
  · cases s <;> rfl
  · -- the leading bit is not stored
    rw [BitVec.toNat_append]
    simp only [BitVec.toNat_ofNat]
    rw [← Nat.shiftLeft_add_eq_or_of_lt (Nat.mod_lt _ (by positivity)), Nat.shiftLeft_eq]
    omega
  · rw [hexp]
    omega

-- Reading a normal number adds the leading bit that packing dropped.
theorem kind_pack {m : Nat} {e : Int} (s : Sign) (hm : 0 < m) (hlo : 2 ^ 52 ≤ m)
    (hhi : m < 2 ^ 53) (he : -1074 ≤ e) (he' : e ≤ 971) :
    ∃ b, kind (.ofModel (.pack (.finite s m e hm))) = .finite b ∧ b.mantissa = m ∧ b.exponent = e ∧
      (b.negative = true ↔ s = .negative) := by
  let bits := packComponents Format.binary64 s (BitVec.ofNat 11 (e + 1075).toNat) (BitVec.ofNat 52 m)
  have hexp := toNat_exponent he he'
  have hbits : (Float.ofModel (.pack (.finite s m e hm))).toBits = UInt64.ofBitVec bits :=
    congrArg UInt64.ofBitVec (pack_normal hlo hhi s hm he he')
  have hneg : isNegative (.ofModel (.pack (.finite s m e hm))) = true ↔ s = .negative := by
    have hsign := sign_field bits
    rw [unpackSign_packComponents, ← hbits] at hsign
    rw [isNegative, beq_iff_eq, ← UInt64.toNat_inj, hsign]
    cases s <;> simp [Sign.toBitVec]
  simp only [kind, hbits, bits, exponent_field, mantissa_field, unpackExponent_packComponents,
    unpackMantissa_packComponents, hexp]
  rw [if_neg (by omega), if_neg (by omega)]
  refine ⟨_, rfl, ?_, ?_, hneg⟩
  · change 0x10000000000000 + (BitVec.ofNat 52 m).toNat = m
    rw [BitVec.toNat_ofNat]
    omega
  · change ((e + 1075).toNat : Int) - 1075 = e
    omega

theorem unpack_one :
    (Float.ofBits 0x3FF0000000000000).toModel.unpack =
      .finite .positive (2 ^ 52) (-52) (by decide) := by
  rfl

section Natural

variable {n : Nat} (hn : n ≠ 0) (hlt : n < 2 ^ 53)

include hn hlt

theorem scaled_bounds : 2 ^ 52 ≤ n * 2 ^ (52 - n.log2) ∧ n * 2 ^ (52 - n.log2) < 2 ^ 53 := by
  have hlog : n.log2 < 53 := (Nat.log2_lt hn).mpr hlt
  constructor
  · calc 2 ^ 52 = 2 ^ n.log2 * 2 ^ (52 - n.log2) := by rw [← pow_add]; congr 1; omega
      _ ≤ n * 2 ^ (52 - n.log2) := Nat.mul_le_mul_right _ (Nat.log2_self_le hn)
  · calc n * 2 ^ (52 - n.log2) < 2 ^ (n.log2 + 1) * 2 ^ (52 - n.log2) :=
          Nat.mul_lt_mul_of_pos_right Nat.lt_log2_self (by positivity)
      _ = 2 ^ 53 := by rw [← pow_add]; congr 1; omega

-- The mantissa is the number itself, moved to full length.
theorem unpacked_ofNat (hm : 0 < n * 2 ^ (52 - n.log2)) :
    UnpackedFloat.ofNat Format.binary64 n =
      .finite .positive (n * 2 ^ (52 - n.log2)) ((n.log2 : Int) - 52) hm := by
  obtain ⟨hlo, hhi⟩ := scaled_bounds hn hlt
  have hlog : n.log2 < 53 := (Nat.log2_lt hn).mpr hlt
  have htarget : Format.binary64.targetExponent (totalExponent n 0) = (n.log2 : Int) - 52 := by
    simp only [Format.targetExponent, totalExponent, Format.mantissaBits, Format.minExponent]
    norm_num
    omega
  have hshift : (0 - ((n.log2 : Int) - 52)).toNat = 52 - n.log2 := by omega
  have hexp : (0 : Int) - ((52 - n.log2 : Nat) : Int) = (n.log2 : Int) - 52 := by omega
  have hround := roundWithAccuracy_exact hlo hhi (e := (n.log2 : Int) - 52) .positive 0 (by omega)
  simp only [pow_zero, mul_one, Nat.cast_zero, add_zero] at hround
  have hcmp : compare (n : Int) 0 = .gt := by
    rw [Int.compare_eq_gt]
    omega
  simp only [UnpackedFloat.ofNat, UnpackedFloat.ofInt, UnpackedFloat.normalize, hcmp,
    Int.toNat_natCast, UnpackedFloat.round, decreaseExponent, htarget, hshift, Nat.shiftLeft_eq,
    hexp, hround]

-- A natural number is converted by way of a word and a product with one, both without loss.
theorem ofNat_eq_pack (hm : 0 < n * 2 ^ (52 - n.log2)) :
    Float.ofNat n =
      .ofModel (.pack (.finite .positive (n * 2 ^ (52 - n.log2)) ((n.log2 : Int) - 52) hm)) := by
  obtain ⟨hlo, hhi⟩ := scaled_bounds hn hlt
  have hlog : n.log2 < 53 := (Nat.log2_lt hn).mpr hlt
  have hword : n.toUInt64.toNat = n := by
    simp
    omega
  have hleft : (Float.Model.ofUInt64 n.toUInt64).unpack =
      .finite .positive (n * 2 ^ (52 - n.log2)) ((n.log2 : Int) - 52) hm := by
    simp only [Float.Model.ofUInt64, UnpackedFloat.ofUInt64, hword, unpacked_ofNat hn hlt hm]
    exact unpack_pack_normal _ hm hlo hhi (by omega) (by omega)
  have hround := roundWithAccuracy_exact hlo hhi (e := (n.log2 : Int) - 52 + -52)
    (.positive * .positive) 52 (by omega)
  have hfast : Float.ofNat n = n.toUInt64.toFloat * Float.ofBits 0x3FF0000000000000 := by
    simp only [Float.ofNat, OfScientific.ofScientific, Float.ofScientific]
    rw [dif_pos ⟨hlt, by omega⟩]
    rfl
  rw [hfast]
  change Float.ofModel (Float.Model.pack (UnpackedFloat.mul Format.binary64
    (Float.Model.ofUInt64 n.toUInt64).unpack
    (Float.ofBits 0x3FF0000000000000).toModel.unpack)) = _
  rw [hleft, unpack_one]
  simp only [UnpackedFloat.mul]
  rw [hround]
  congr 3
  push_cast
  ring

-- The scaled number is whole, and its floor has the sign that was packed.
theorem kind_scaled (s : Sign) (hm : 0 < n * 2 ^ (52 - n.log2)) :
    ∃ b, kind (.ofModel (.pack
        (.finite s (n * 2 ^ (52 - n.log2)) ((n.log2 : Int) - 52) hm))) = .finite b ∧
      (b.negative = true ↔ s = .negative) ∧ b.isIntegral ∧
      b.floor = if b.negative then -(n : Int) else n := by
  obtain ⟨hlo, hhi⟩ := scaled_bounds hn hlt
  have hlog : n.log2 < 53 := (Nat.log2_lt hn).mpr hlt
  obtain ⟨b, hkind, hmantissa, hexponent, hsign⟩ :=
    kind_pack s hm hlo hhi (e := (n.log2 : Int) - 52) (by omega) (by omega)
  have hback : (-((n.log2 : Int) - 52)).toNat = 52 - n.log2 := by omega
  refine ⟨b, hkind, hsign, ?_⟩
  simp only [Binary.isIntegral, Binary.floor, Binary.signedMantissa, hmantissa, hexponent, hback]
  refine ⟨by simp, ?_⟩
  split
  · have h52 : n.log2 = 52 := by omega
    simp [h52]
  · split <;> simp [← neg_mul]

end Natural

-- A natural number below `2 ^ 53` is a whole double, and its floor is the number.
theorem kind_ofNat {n : Nat} (hlt : n < 2 ^ 53) :
    ∃ b, kind (Float.ofNat n) = .finite b ∧ b.isIntegral ∧ b.floor = n := by
  by_cases hn : n = 0
  · subst hn
    exact ⟨⟨false, 0, -1074, false⟩, by decide +kernel,
      Binary.isIntegral_of_mantissa_eq_zero _ rfl, Binary.floor_of_mantissa_eq_zero _ rfl⟩
  have hm := (scaled_bounds hn hlt).1.trans_lt' (by positivity)
  obtain ⟨b, hkind, hsign, hintegral, hfloor⟩ := kind_scaled hn hlt .positive hm
  have hnegative : b.negative = false := by simpa using hsign
  rw [ofNat_eq_pack hn hlt hm]
  exact ⟨b, hkind, hintegral, by simpa [hnegative] using hfloor⟩

-- The natural number a double stands for: its floor, and zero if that is negative or there is none.
def whole (x : Float) : Nat :=
  match kind x with
  | .finite b => b.floor.toNat
  | _ => 0

-- The natural number a double is, if it is one.
def natural? (x : Float) : Option Nat :=
  match kind x with
  | .finite b => if b.isIntegral ∧ 0 ≤ b.floor then some b.floor.toNat else none
  | _ => none

theorem natural?_ofNat {n : Nat} (hlt : n < 2 ^ 32) : natural? (Float.ofNat n) = some n := by
  obtain ⟨b, hkind, hintegral, hfloor⟩ := kind_ofNat (n := n) (by omega)
  simp [natural?, hkind, hintegral, hfloor]

end SpriteCompiler.Number
