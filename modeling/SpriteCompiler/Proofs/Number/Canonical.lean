import SpriteCompiler.Proofs.Number.Exact

namespace SpriteCompiler.Number

open Float.Model Float.Model.UnpackedFloat

-- The mantissa has at most 53 bits, and exactly 53 unless the exponent is the least there is.
structure Binary.Canonical (b : Binary) : Prop where
  lt : b.mantissa < 2 ^ 53
  least_le : -1074 ≤ b.exponent
  full : b.mantissa < 2 ^ 52 → b.exponent = -1074

-- The bits of a double are its sign, its exponent field and its fraction.
theorem toBits_eq (x : Float) :
    x.toBits.toNat = (if isNegative x then 2 ^ 63 else 0) +
      ((x.toBits >>> 52) &&& 0x7FF).toNat * 2 ^ 52 + (x.toBits &&& 0xFFFFFFFFFFFFF).toNat := by
  have hlt := x.toBits.toNat_lt
  have hexponent : ((x.toBits >>> 52) &&& 0x7FF).toNat = x.toBits.toNat / 2 ^ 52 % 2 ^ 11 := by
    rw [← Nat.and_two_pow_sub_one_eq_mod, ← Nat.shiftRight_eq_div_pow]
    rfl
  have hfraction : (x.toBits &&& 0xFFFFFFFFFFFFF).toNat = x.toBits.toNat % 2 ^ 52 := by
    rw [← Nat.and_two_pow_sub_one_eq_mod]
    rfl
  have hsign : isNegative x = true ↔ x.toBits.toNat / 2 ^ 63 = 1 := by
    rw [isNegative, beq_iff_eq, ← UInt64.toNat_inj, ← Nat.shiftRight_eq_div_pow]
    rfl
  rw [hexponent, hfraction]
  by_cases hneg : isNegative x = true
  · have := hsign.mp hneg
    rw [if_pos hneg]
    omega
  · have := mt hsign.mpr hneg
    rw [if_neg hneg]
    omega

theorem eq_of_toBits_eq {x y : Float} (h : x.toBits.toNat = y.toBits.toNat) : x = y := by
  have hbits := UInt64.toNat_inj.mp h
  rcases x with ⟨⟨xbits, hx⟩⟩
  rcases y with ⟨⟨ybits, hy⟩⟩
  change xbits = ybits at hbits
  subst hbits
  rfl

-- A finite double is one of two forms, and either gives its fields.
theorem kind_fields {x : Float} {b : Binary} (h : kind x = .finite b) :
    b.Canonical ∧ x.toBits.toNat =
      (if b.negative then 2 ^ 63 else 0) + (b.exponent + 1074).toNat * 2 ^ 52 + b.mantissa := by
  have hbits := toBits_eq x
  have hfraction : (x.toBits &&& 0xFFFFFFFFFFFFF).toNat < 2 ^ 52 := by
    rw [UInt64.toNat_and]
    exact Nat.and_lt_two_pow _ (by decide)
  simp only [kind] at h
  split at h
  · split at h <;> cases h
  split at h
  · rename_i hfield
    cases h
    refine ⟨⟨by simp only; omega, by simp, fun _ => rfl⟩, ?_⟩
    simp only
    rw [hbits, hfield]
    simp
  · rename_i hfield
    cases h
    refine ⟨⟨by simp only; omega, by simp only; omega, by simp only; omega⟩, ?_⟩
    simp only
    rw [hbits]
    omega

namespace Binary

-- The value of a whole number, counted in units that are small enough.
theorem signedMantissa_mul {b : Binary} (hwhole : b.isIntegral) {k : Nat} (hk : -k ≤ b.exponent) :
    b.signedMantissa * 2 ^ (b.exponent + k).toNat = b.floor * 2 ^ k := by
  rw [floor]
  by_cases hexponent : 0 ≤ b.exponent
  · have hsplit : (b.exponent + k).toNat = b.exponent.toNat + k := by omega
    rw [if_pos hexponent, hsplit, pow_add, mul_assoc]
    simp
  · have hsplit : k = (-b.exponent).toNat + (b.exponent + k).toNat := by omega
    have hdvd : (2 : Int) ^ (-b.exponent).toNat ∣ b.signedMantissa := by
      have hmod : b.mantissa % 2 ^ (-b.exponent).toNat = 0 := by
        simpa [isIntegral, hexponent] using hwhole
      have hmantissa : (2 : Int) ^ (-b.exponent).toNat ∣ b.mantissa := by
        exact_mod_cast Nat.dvd_of_mod_eq_zero hmod
      rw [signedMantissa]
      split
      · exact Int.dvd_neg.mpr hmantissa
      · exact hmantissa
    rw [if_neg hexponent]
    calc b.signedMantissa * 2 ^ (b.exponent + k).toNat
        = b.signedMantissa / 2 ^ (-b.exponent).toNat * 2 ^ (-b.exponent).toNat *
            2 ^ (b.exponent + k).toNat := by rw [Int.ediv_mul_cancel hdvd]
      _ = b.signedMantissa / 2 ^ (-b.exponent).toNat * 2 ^ k := by
          rw [mul_assoc, ← pow_add, ← hsplit]
      _ = _ := by simp

theorem natAbs_signedMantissa (b : Binary) : b.signedMantissa.natAbs = b.mantissa := by
  rw [signedMantissa]
  split <;> simp

-- Only a longer mantissa could make up for a smaller exponent.
theorem Canonical.not_lt {b c : Binary} (hb : b.Canonical) (hc : c.Canonical)
    (h : b.mantissa * 2 ^ (b.exponent + 1074).toNat = c.mantissa * 2 ^ (c.exponent + 1074).toNat) :
    ¬b.exponent < c.exponent := by
  intro hlt
  have hleast := hb.least_le
  have hfull : 2 ^ 52 ≤ c.mantissa := by
    by_contra hshort
    have := hc.full (by omega)
    omega
  have hsplit : (c.exponent + 1074).toNat =
      (c.exponent - b.exponent - 1).toNat + 1 + (b.exponent + 1074).toNat := by omega
  rw [hsplit, pow_add, ← mul_assoc] at h
  have hmantissa := Nat.mul_right_cancel (by positivity) h
  have hlong : 2 ^ 53 ≤ b.mantissa := by
    calc 2 ^ 53 = 2 ^ 52 * 2 := by norm_num
      _ ≤ c.mantissa * 2 ^ ((c.exponent - b.exponent - 1).toNat + 1) :=
          Nat.mul_le_mul hfull (Nat.le_self_pow (by omega) 2)
      _ = b.mantissa := hmantissa.symm
  exact absurd hb.lt (by omega)

theorem Canonical.unique {b c : Binary} (hb : b.Canonical) (hc : c.Canonical)
    (h : b.mantissa * 2 ^ (b.exponent + 1074).toNat = c.mantissa * 2 ^ (c.exponent + 1074).toNat) :
    b.mantissa = c.mantissa ∧ b.exponent = c.exponent := by
  have hle := hb.not_lt hc h
  have hge := hc.not_lt hb h.symm
  have hexponent : b.exponent = c.exponent := by omega
  rw [hexponent] at h
  exact ⟨Nat.mul_right_cancel (by positivity) h, hexponent⟩

-- A number other than zero has the sign of its floor.
theorem negative_iff {b : Binary} (h : b.floor ≠ 0) : b.negative = true ↔ b.floor < 0 := by
  have hsign (hneg : b.negative = true) : b.floor ≤ 0 := by
    have hmantissa : b.signedMantissa ≤ 0 := by simp [signedMantissa, hneg]
    rw [floor]
    split
    · exact Int.mul_nonpos_of_nonpos_of_nonneg hmantissa (by positivity)
    · exact Int.ediv_nonpos_of_nonpos_of_neg hmantissa (by simp)
  have hunsigned (hpos : b.negative = false) : 0 ≤ b.floor := by
    have hmantissa : 0 ≤ b.signedMantissa := by simp [signedMantissa, hpos]
    rw [floor]
    split <;> positivity
  by_cases hneg : b.negative = true
  · have := hsign hneg
    exact ⟨fun _ => by omega, fun _ => hneg⟩
  · have := hunsigned (by simpa using hneg)
    exact ⟨fun hn => absurd hn hneg, fun hlt => by omega⟩

end Binary

-- Two whole doubles of the same value and the same sign are one.
theorem eq_of_floor_eq {x y : Float} {b c : Binary} (hx : kind x = .finite b)
    (hy : kind y = .finite c) (hb : b.isIntegral) (hc : c.isIntegral) (hfloor : b.floor = c.floor)
    (hsign : b.negative = c.negative) : x = y := by
  obtain ⟨hcanonical, hbits⟩ := kind_fields hx
  obtain ⟨hcanonical', hbits'⟩ := kind_fields hy
  have hvalue : b.signedMantissa * 2 ^ (b.exponent + 1074).toNat =
      c.signedMantissa * 2 ^ (c.exponent + 1074).toNat := by
    have hvalue := Binary.signedMantissa_mul hb (k := 1074) hcanonical.least_le
    rw [hfloor] at hvalue
    exact hvalue.trans (Binary.signedMantissa_mul hc (k := 1074) hcanonical'.least_le).symm
  have hmagnitude := congrArg Int.natAbs hvalue
  simp only [Int.natAbs_mul, Int.natAbs_pow, Binary.natAbs_signedMantissa, Int.reduceAbs]
    at hmagnitude
  obtain ⟨hmantissa, hexponent⟩ := hcanonical.unique hcanonical' hmagnitude
  apply eq_of_toBits_eq
  rw [hbits, hbits', hsign, hexponent, hmantissa]

theorem kind_negativeZero : kind (-0.0) = .finite ⟨true, 0, -1074, false⟩ := by
  decide +kernel

theorem kind_ofInt {n : Int} (hlt : n.natAbs < 2 ^ 53) :
    ∃ b, kind (Float.ofInt n) = .finite b ∧ b.isIntegral ∧ b.floor = n := by
  cases n with
  | ofNat n => exact kind_ofNat hlt
  | negSucc n =>
      have hn : n + 1 ≠ 0 := by omega
      have hlt : n + 1 < 2 ^ 53 := hlt
      obtain ⟨hlo, hhi⟩ := scaled_bounds hn hlt
      have hm : 0 < (n + 1) * 2 ^ (52 - (n + 1).log2) := by omega
      have hlog : (n + 1).log2 < 53 := (Nat.log2_lt hn).mpr hlt
      obtain ⟨b, hkind, hsign, hwhole, hfloor⟩ := kind_scaled hn hlt .negative hm
      have hneg : Float.ofInt (Int.negSucc n) = .ofModel (.pack
          (.finite .negative ((n + 1) * 2 ^ (52 - (n + 1).log2)) (((n + 1).log2 : Int) - 52) hm)) := by
        change (Float.ofNat (n + 1)).neg = _
        rw [ofNat_eq_pack hn hlt hm]
        change Float.ofModel (.pack (UnpackedFloat.unpack Format.binary64
          (UnpackedFloat.pack Format.binary64 _)).neg) = _
        rw [unpack_pack_normal .positive hm hlo hhi (by omega) (by omega)]
        rfl
      rw [hneg]
      refine ⟨b, hkind, hwhole, ?_⟩
      rw [hfloor, if_pos (hsign.mpr rfl), Int.negSucc_eq]
      push_cast
      ring

-- A number that is written as an integer is the double of that integer, unless it is negative zero.
theorem eq_ofInt_of_smallInt? {x : Float} {n : Int} (h : smallInt? x = some n) (hzero : x ≠ -0.0) :
    x = Float.ofInt n := by
  rw [smallInt?] at h
  cases hkind : kind x with
  | nan => simp [hkind] at h
  | infinite => simp [hkind] at h
  | finite b =>
      simp only [hkind, Option.ite_none_right_eq_some, Bool.and_eq_true, decide_eq_true_eq,
        Option.some.injEq] at h
      obtain ⟨⟨hwhole, hsmall⟩, rfl⟩ := h
      obtain ⟨c, hkind', hwhole', hfloor⟩ := kind_ofInt (n := b.floor) (by omega)
      apply eq_of_floor_eq hkind hkind' hwhole hwhole' hfloor.symm
      by_cases hfloor0 : b.floor = 0
      · -- of the two zeros only the positive one is left
        have hpositive : b.negative = false := by
          by_contra hneg
          apply hzero
          exact eq_of_floor_eq hkind kind_negativeZero hwhole
            (Binary.isIntegral_of_mantissa_eq_zero _ rfl)
            (hfloor0.trans (Binary.floor_of_mantissa_eq_zero _ rfl).symm) (by simpa using hneg)
        rw [hfloor0] at hkind'
        have hpositive' : c = ⟨false, 0, -1074, false⟩ := by
          have hkind0 : kind (Float.ofInt 0) = .finite ⟨false, 0, -1074, false⟩ := by decide +kernel
          rw [hkind0] at hkind'
          exact (Kind.finite.inj hkind').symm
        rw [hpositive, hpositive']
      · have hb := Binary.negative_iff hfloor0
        have hc := Binary.negative_iff (b := c) (by rwa [hfloor])
        rw [Bool.eq_iff_iff, hb, hc, hfloor]

end SpriteCompiler.Number
