import Mathlib
import ModuleLoader.Json.Basic

/-! Integers as doubles. An integer of magnitude below `exactBound` is converted to a double of
exactly its value, and doubles of the same integer value are equal. Doubles are told by their
logical model, to which the reading of bits is tied first. -/
namespace ModuleLoader.Number

open Float.Model UnpackedFloat

/-! ### Bits and the model -/

theorem toNat_unpackMantissa (bits : UInt64) :
    (@unpackMantissa .binary64 bits.toBitVec).toNat = bits.toNat % twoTo 52 := by
  rw [unpackMantissa_def, BitVec.extractLsb'_toNat]
  rfl

theorem toNat_unpackExponent (bits : UInt64) :
    (@unpackExponent .binary64 bits.toBitVec).toNat = bits.toNat / twoTo 52 % twoTo 11 := by
  rw [unpackExponent_def, BitVec.extractLsb'_toNat, Nat.shiftRight_eq_div_pow]
  rfl

theorem toNat_unpackSign (bits : UInt64) :
    (@unpackSign .binary64 bits.toBitVec).toNat = bits.toNat / twoTo 63 := by
  rw [unpackSign_def, BitVec.extractLsb'_toNat, Nat.shiftRight_eq_div_pow]
  have h := bits.toNat_lt
  show bits.toNat / 2 ^ 63 % 2 = bits.toNat / 2 ^ 63
  omega

theorem toNat_implicit (mantissa : BitVec 52) :
    (1#1 ++ mantissa).toNat = twoTo 52 + mantissa.toNat := by
  rw [BitVec.toNat_append, ← Nat.shiftLeft_add_eq_or_of_lt mantissa.isLt]
  rfl

theorem isNegative_ofBitVec (sign : BitVec 1) :
    (Sign.ofBitVec sign == .negative) = (sign.toNat == 1) := by
  revert sign
  decide

/-- The reading of a double that is given by sign, mantissa and exponent. -/
def Reading.ofUnpacked : UnpackedFloat → Reading
  | .infinity s => .infinite (s == .negative)
  | .notANumber => .nan
  | .zero s => .finite ⟨s == .negative, 0, -1074⟩
  | .finite s mantissa exponent _ => .finite ⟨s == .negative, mantissa, exponent⟩

theorem reading_eq_ofUnpacked (x : Float) :
    Reading.ofFloat x = Reading.ofUnpacked x.toModel.unpack := by
  have hmantissa := toNat_unpackMantissa x.toBits
  have hexponent := toNat_unpackExponent x.toBits
  have hsign := toNat_unpackSign x.toBits
  show Reading.ofBits x.toBits =
    Reading.ofUnpacked (UnpackedFloat.unpack .binary64 x.toBits.toBitVec)
  have htop : @unpackExponent .binary64 x.toBits.toBitVec =
      -BitVec.ofNat Format.binary64.exponentBits 1 ↔
        x.toBits.toNat / twoTo 52 % twoTo 11 = 2047 := by
    rw [← BitVec.toNat_inj, hexponent]
    rfl
  have hbottom : @unpackExponent .binary64 x.toBits.toBitVec =
      BitVec.ofNat Format.binary64.exponentBits 0 ↔ x.toBits.toNat / twoTo 52 % twoTo 11 = 0 := by
    rw [← BitVec.toNat_inj, hexponent]
    rfl
  have hzero : @unpackMantissa .binary64 x.toBits.toBitVec =
      BitVec.ofNat Format.binary64.mantissaBitsWithoutImplicit 0 ↔
        x.toBits.toNat % twoTo 52 = 0 := by
    rw [← BitVec.toNat_inj, hmantissa]
    rfl
  have hnormal : (1#1 ++ @unpackMantissa .binary64 x.toBits.toBitVec).toNat =
      twoTo 52 + x.toBits.toNat % twoTo 52 := by
    rw [← hmantissa]
    exact toNat_implicit _
  have hnegative := isNegative_ofBitVec (@unpackSign .binary64 x.toBits.toBitVec)
  rw [hsign] at hnegative
  have hbias : (Format.binary64.exponentBias : Int) +
      Format.binary64.mantissaBitsWithoutImplicit = 1075 := by
    decide
  simp only [Reading.ofBits, UnpackedFloat.unpack, htop, hbottom, hzero, hnormal, hexponent,
    hmantissa, hbias]
  split
  · split
    · simp only [Reading.ofUnpacked, hnegative]
    · rfl
  · split
    · split
      · rename_i hfraction
        simp only [Reading.ofUnpacked, hnegative, hfraction]
      · rename_i hbiased _
        simp [Reading.ofUnpacked, hnegative, hbiased]
    · simp only [Reading.ofUnpacked, hnegative]

/-! ### Exact operations of the model -/

/-- A mantissa of a normal double, all bits of it. -/
structure IsMantissa (mantissa : Nat) : Prop where
  low : twoTo 52 ≤ mantissa
  high : mantissa < twoTo 53

variable {s : Sign} {mantissa : Nat} {exponent : Int}

theorem IsMantissa.pos (h : IsMantissa mantissa) : 0 < mantissa :=
  Nat.lt_of_lt_of_le (twoTo_pos 52) h.low

theorem log2_mul_twoTo {n : Nat} (hn : n ≠ 0) (k : Nat) : (n * twoTo k).log2 = n.log2 + k := by
  induction k with
  | zero => simp [twoTo]
  | succ k ih =>
    have hne : n * twoTo k ≠ 0 := Nat.mul_ne_zero hn (Nat.ne_of_gt (twoTo_pos k))
    rw [twoTo_succ, Nat.mul_left_comm, Nat.log2_two_mul hne, ih, Nat.add_assoc]

theorem IsMantissa.log2 (h : IsMantissa mantissa) : mantissa.log2 = 52 :=
  (Nat.log2_eq_iff (Nat.ne_of_gt h.pos)).mpr ⟨h.low, h.high⟩

theorem pack_finite (s : Sign) (h : IsMantissa mantissa) (hlow : -1074 ≤ exponent)
    (hhigh : exponent ≤ 971) : UnpackedFloat.pack .binary64 (.finite s mantissa exponent h.pos) =
      packComponents .binary64 s (BitVec.ofNat 11 (exponent + 1075).toNat)
        (BitVec.ofNat 52 mantissa) := by
  have hbias : (exponent + Format.binary64.exponentBias +
      Format.binary64.mantissaBitsWithoutImplicit).toNat = (exponent + 1075).toNat := by
    rw [Int.add_assoc]
    rfl
  unfold UnpackedFloat.pack
  simp only [hbias, h.log2]
  rw [if_neg, if_pos]
  · rfl
  · show ¬ 2048 ≤ _
    omega

/-- The implicit bit is put back in front of the others. -/
theorem toNat_implicit_ofNat (h : IsMantissa mantissa) :
    (1#1 ++ BitVec.ofNat 52 mantissa).toNat = mantissa := by
  rw [toNat_implicit, BitVec.toNat_ofNat]
  have hlow := h.low
  have hhigh := h.high
  have h52 : twoTo 52 = 2 ^ 52 := rfl
  have h53 : twoTo 53 = 2 ^ 53 := rfl
  omega

theorem unpack_pack (s : Sign) (h : IsMantissa mantissa) (hlow : -1074 ≤ exponent)
    (hhigh : exponent ≤ 971) :
    (Float.Model.pack (.finite s mantissa exponent h.pos)).unpack =
      .finite s mantissa exponent h.pos := by
  have hexponent : (BitVec.ofNat 11 (exponent + 1075).toNat).toNat = (exponent + 1075).toNat := by
    rw [BitVec.toNat_ofNat, Nat.mod_eq_of_lt]
    omega
  -- The exponent is neither of the two that mark special values.
  have hne (k : BitVec 11) (hk : (exponent + 1075).toNat ≠ k.toNat) :
      BitVec.ofNat 11 (exponent + 1075).toNat ≠ k := fun heq =>
    hk (hexponent.symm.trans (congrArg BitVec.toNat heq))
  have htop := hne (-1#11) (show _ ≠ 2047 by omega)
  have hbottom := hne 0#11 (show _ ≠ 0 by omega)
  have hvalue : ((exponent + 1075).toNat : Int) - (Format.binary64.exponentBias +
      Format.binary64.mantissaBitsWithoutImplicit : Int) = exponent := by
    show ((exponent + 1075).toNat : Int) - 1075 = exponent
    omega
  show UnpackedFloat.unpack .binary64 (UnpackedFloat.pack .binary64 _) = _
  rw [pack_finite s h hlow hhigh]
  unfold UnpackedFloat.unpack
  simp only [unpackExponent_packComponents, unpackMantissa_packComponents,
    unpackSign_packComponents, htop, hbottom, if_false, Sign.ofBitVec_toBitVec, hexponent, hvalue,
    toNat_implicit_ofNat h]

/-- Shifting an even mantissa down leaves nothing behind. -/
theorem shiftRight_exact (mantissa k : Nat) :
    ExtendedMantissa.ofMantissaAndAccuracy (mantissa * twoTo k) .exact >>> k =
      ⟨mantissa, false, false⟩ := by
  induction k generalizing mantissa with
  | zero =>
    simp [ExtendedMantissa.ofMantissaAndAccuracy, HShiftRight.hShiftRight, Nat.repeat, twoTo]
  | succ k ih =>
    rw [twoTo_succ, ← Nat.mul_assoc]
    show ExtendedMantissa.shiftRightOne
      (ExtendedMantissa.ofMantissaAndAccuracy (mantissa * 2 * twoTo k) .exact >>> k) = _
    rw [ih]
    simp [ExtendedMantissa.shiftRightOne]

theorem shiftToTargetExponent_exact (h : IsMantissa mantissa) (hlow : -1074 ≤ exponent) (k : Nat) :
    shiftToTargetExponent .binary64 (mantissa * twoTo k) (exponent - k) .exact =
      (⟨mantissa, false, false⟩, exponent) := by
  have htarget : Format.binary64.targetExponent
      (totalExponent (mantissa * twoTo k) (exponent - k)) = exponent := by
    have hmin : Format.binary64.minExponent = -1074 := by decide
    have hbits : Format.binary64.mantissaBits = 53 := by decide
    have hlog : (mantissa * twoTo k).log2 = 52 + k := by
      rw [log2_mul_twoTo (Nat.ne_of_gt h.pos), h.log2]
    simp only [Format.targetExponent, totalExponent, hlog, hmin, hbits]
    omega
  unfold shiftToTargetExponent shiftToExponent
  simp only [htarget]
  rw [show (exponent - (exponent - k)).toNat = k by omega, shiftRight_exact]
  simp

theorem round_exact (s : Sign) (h : IsMantissa mantissa) (hlow : -1074 ≤ exponent) (k : Nat) :
    roundWithAccuracy .binary64 s (mantissa * twoTo k) (exponent - k) .exact =
      .finite s mantissa exponent h.pos := by
  have hagain := shiftToTargetExponent_exact h hlow 0
  rw [show twoTo 0 = 1 from rfl, Nat.mul_one, Int.natCast_zero, Int.sub_zero] at hagain
  have hrounded : ExtendedMantissa.roundedMantissa ⟨mantissa, false, false⟩ = mantissa := rfl
  unfold roundWithAccuracy
  simp only [shiftToTargetExponent_exact h hlow k, hrounded, hagain, Nat.ne_of_gt h.pos, dite_false]

/-! ### Integers below the bound -/

/-- The mantissa of the double of an integer, which is shifted up to its full width. -/
def mantissaOf (n : Nat) : Nat :=
  n * twoTo (52 - n.log2)

theorem log2_le {n : Nat} (h : n < exactBound) : n.log2 ≤ 52 := by
  by_cases hn : n = 0
  · subst hn
    decide
  · have hlog := (Nat.log2_lt hn).mpr (show n < 2 ^ 53 from h)
    omega

theorem isMantissa_mantissaOf {n : Nat} (hpos : 0 < n) (h : n < exactBound) :
    IsMantissa (mantissaOf n) := by
  have hlog := log2_le h
  have hlow := Nat.log2_self_le (Nat.ne_of_gt hpos)
  have hhigh := Nat.lt_log2_self (n := n)
  have hk : 0 < twoTo (52 - n.log2) := twoTo_pos _
  constructor
  · calc twoTo 52 = 2 ^ n.log2 * twoTo (52 - n.log2) := by
          show 2 ^ 52 = 2 ^ n.log2 * 2 ^ (52 - n.log2)
          rw [← Nat.pow_add]
          congr 1
          omega
      _ ≤ mantissaOf n := Nat.mul_le_mul_right _ hlow
  · calc mantissaOf n < 2 ^ (n.log2 + 1) * twoTo (52 - n.log2) :=
          Nat.mul_lt_mul_of_pos_right hhigh hk
      _ = twoTo 53 := by
          show 2 ^ (n.log2 + 1) * 2 ^ (52 - n.log2) = 2 ^ 53
          rw [← Nat.pow_add]
          congr 1
          omega

/-- The double of an integer that is not zero, by its sign and its magnitude. -/
def unpackedOf {n : Nat} (s : Sign) (hpos : 0 < n) (h : n < exactBound) : UnpackedFloat :=
  .finite s (mantissaOf n) ((n.log2 : Int) - 52) (isMantissa_mantissaOf hpos h).pos

variable {n : Nat}

theorem unpack_pack_unpackedOf (s : Sign) (hpos : 0 < n) (h : n < exactBound) :
    (Float.Model.pack (unpackedOf s hpos h)).unpack = unpackedOf s hpos h := by
  have hlog := log2_le h
  exact unpack_pack s (isMantissa_mantissaOf hpos h) (by omega) (by omega)

theorem ofNat_eq (hpos : 0 < n) (h : n < exactBound) :
    UnpackedFloat.ofNat .binary64 n = unpackedOf .positive hpos h := by
  have hlog := log2_le h
  have htarget : Format.binary64.targetExponent (totalExponent n 0) = (n.log2 : Int) - 52 := by
    have hmin : Format.binary64.minExponent = -1074 := by decide
    have hbits : Format.binary64.mantissaBits = 53 := by decide
    simp only [Format.targetExponent, totalExponent, hmin, hbits]
    omega
  have hdecrease : decreaseExponent n 0 ((n.log2 : Int) - 52) =
      (mantissaOf n * twoTo 0, (n.log2 : Int) - 52 - (0 : Nat)) := by
    have hshift : (0 - ((n.log2 : Int) - 52)).toNat = 52 - n.log2 := by omega
    simp only [decreaseExponent, hshift, Nat.shiftLeft_eq]
    refine Prod.ext ?_ ?_
    · exact (Nat.mul_one _).symm
    · simp
      omega
  have hcompare : compare (n : Int) 0 = .gt := by
    show compareOfLessAndEq (n : Int) 0 = .gt
    rw [compareOfLessAndEq, if_neg (by omega), if_neg (by omega)]
  show UnpackedFloat.normalize .binary64 (n : Int) 0 .positive = _
  unfold UnpackedFloat.normalize
  simp only [hcompare, Int.toNat_natCast, UnpackedFloat.round, htarget, hdecrease]
  exact round_exact .positive (isMantissa_mantissaOf hpos h) (by omega) 0

theorem unpack_toFloat (hpos : 0 < n) (h : n < exactBound) :
    n.toUInt64.toFloat.toModel.unpack = unpackedOf .positive hpos h := by
  have hword : n.toUInt64.toNat = n := by
    refine Nat.mod_eq_of_lt (Nat.lt_trans h ?_)
    decide
  show (Float.Model.pack (UnpackedFloat.ofNat .binary64 n.toUInt64.toNat)).unpack = _
  rw [hword, ofNat_eq hpos h]
  exact unpack_pack_unpackedOf .positive hpos h

/-- The bits of the double `1`, by which the conversion of a small integer multiplies. -/
def bitsOfOne : UInt64 := 4607182418800017408

theorem isMantissa_one : IsMantissa (twoTo 52) :=
  ⟨Nat.le_refl _, by decide⟩

theorem unpack_one : (Float.ofBits bitsOfOne).toModel.unpack =
    .finite .positive (twoTo 52) (-52) isMantissa_one.pos := by
  rfl

theorem ofNat_eq_mul (h : n < exactBound) :
    Float.ofNat n = n.toUInt64.toFloat * Float.ofBits bitsOfOne := by
  show Float.ofScientific n false 0 = _
  unfold Float.ofScientific
  rw [dif_pos ⟨h, by decide⟩]
  rfl

theorem unpack_ofNat (hpos : 0 < n) (h : n < exactBound) :
    (Float.ofNat n).toModel.unpack = unpackedOf .positive hpos h := by
  have hlog := log2_le h
  have hround : roundWithAccuracy .binary64 .positive (mantissaOf n * twoTo 52)
      ((n.log2 : Int) - 52 - (52 : Nat)) .exact = unpackedOf .positive hpos h :=
    round_exact .positive (isMantissa_mantissaOf hpos h) (by omega) 52
  have hmul : UnpackedFloat.mul .binary64 (unpackedOf .positive hpos h)
      (.finite .positive (twoTo 52) (-52) isMantissa_one.pos) = unpackedOf .positive hpos h :=
    hround
  rw [ofNat_eq_mul h]
  show (Float.Model.pack (UnpackedFloat.mul .binary64 n.toUInt64.toFloat.toModel.unpack
    (Float.ofBits bitsOfOne).toModel.unpack)).unpack = _
  rw [unpack_toFloat hpos h, unpack_one, hmul]
  exact unpack_pack_unpackedOf .positive hpos h

theorem unpack_neg_ofNat (hpos : 0 < n) (h : n < exactBound) :
    (-(Float.ofNat n)).toModel.unpack = unpackedOf .negative hpos h := by
  show (Float.Model.pack (Float.ofNat n).toModel.unpack.neg).unpack = _
  rw [unpack_ofNat hpos h]
  exact unpack_pack_unpackedOf .negative hpos h

/-! ### The integer value of a double -/

theorem magnitude?_mantissaOf (negative : Bool) (h : n < exactBound) :
    Binary.magnitude? ⟨negative, mantissaOf n, (n.log2 : Int) - 52⟩ = some n := by
  have hlog := log2_le h
  unfold Binary.magnitude?
  split
  · rename_i hexponent
    have h52 : n.log2 = 52 := by
      replace hexponent : 0 ≤ (n.log2 : Int) - 52 := hexponent
      omega
    simp [mantissaOf, h52, twoTo]
  · have hunit : (-((n.log2 : Int) - 52)).toNat = 52 - n.log2 := by omega
    simp only [hunit, mantissaOf, Nat.mul_mod_left, if_true,
      Nat.mul_div_cancel _ (twoTo_pos (52 - n.log2))]

/-- A mantissa that is shifted up at all passes the bound. -/
theorem IsMantissa.shift_eq_zero (hm : IsMantissa mantissa) {k : Nat}
    (h : mantissa * twoTo k < exactBound) : k = 0 := by
  cases k with
  | zero => rfl
  | succ k =>
    have htwo : 2 ≤ twoTo (k + 1) := by
      have hk := twoTo_pos k
      rw [twoTo_succ]
      omega
    have hover : twoTo 52 * 2 ≤ mantissa * twoTo (k + 1) := Nat.mul_le_mul hm.low htwo
    have hbound : twoTo 52 * 2 = exactBound := by decide
    omega

/-- A double has the magnitude of a small integer only if it is the double of that integer. -/
theorem eq_mantissaOf {negative : Bool} (hm : IsMantissa mantissa) (h : n < exactBound)
    (hn : Binary.magnitude? ⟨negative, mantissa, exponent⟩ = some n) :
    0 < n ∧ mantissa = mantissaOf n ∧ exponent = (n.log2 : Int) - 52 := by
  have hpos := hm.pos
  have hlog := hm.log2
  unfold Binary.magnitude? at hn
  dsimp only at hn
  split at hn
  · rename_i hexponent
    obtain rfl := Option.some.inj hn
    have hzero := hm.shift_eq_zero h
    rw [hzero, show twoTo 0 = 1 from rfl, Nat.mul_one]
    refine ⟨hpos, ?_, by omega⟩
    rw [mantissaOf, hlog]
    exact (Nat.mul_one _).symm
  · split at hn
    · rename_i hexponent hmod
      have hmul := Nat.div_mul_cancel (Nat.dvd_of_mod_eq_zero hmod)
      rw [Option.some.inj hn] at hmul
      have hne : n ≠ 0 := by
        rintro rfl
        omega
      rw [← hmul, log2_mul_twoTo hne] at hlog
      refine ⟨Nat.pos_of_ne_zero hne, ?_, by omega⟩
      rw [← hmul, mantissaOf, ← hlog, Nat.add_sub_cancel_left]
    · contradiction

theorem reading_canonical {x : Float} {b : Binary} (h : Reading.ofFloat x = .finite b) :
    (b.significand < twoTo 52 ∧ b.exponent = -1074) ∨ IsMantissa b.significand := by
  have hfraction : x.toBits.toNat % twoTo 52 < twoTo 52 := Nat.mod_lt _ (twoTo_pos 52)
  have h53 : twoTo 53 = 2 * twoTo 52 := twoTo_succ 52
  unfold Reading.ofFloat Reading.ofBits at h
  dsimp only at h
  split at h
  · split at h <;> contradiction
  · split at h
    · cases h
      exact .inl ⟨hfraction, rfl⟩
    · cases h
      refine .inr ⟨Nat.le_add_right _ _, ?_⟩
      show twoTo 52 + _ < twoTo 53
      omega

theorem twoTo_le_twoTo {a b : Nat} (h : a ≤ b) : twoTo a ≤ twoTo b :=
  Nat.pow_le_pow_right (by decide) h

/-- A double that is not normal is no integer, unless it is zero. -/
theorem magnitude?_subnormal {b : Binary} (hpos : 0 < b.significand)
    (hsignificand : b.significand < twoTo 52) (hexponent : b.exponent = -1074) :
    b.magnitude? = none := by
  have hunit : twoTo 52 ≤ twoTo 1074 := twoTo_le_twoTo (by decide)
  have hmod : b.significand % twoTo 1074 = b.significand :=
    Nat.mod_eq_of_lt (Nat.lt_of_lt_of_le hsignificand hunit)
  unfold Binary.magnitude?
  rw [hexponent]
  show (if b.significand % twoTo 1074 = 0 then _ else _) = none
  rw [hmod, if_neg (Nat.ne_of_gt hpos)]

theorem magnitude?_zero (negative : Bool) (exponent : Int) :
    Binary.magnitude? ⟨negative, 0, exponent⟩ = some 0 := by
  simp [Binary.magnitude?]

def signOf (i : Int) : Sign :=
  if i < 0 then .negative else .positive

theorem isNegative_signOf (i : Int) : (signOf i == .negative) = decide (i < 0) := by
  unfold signOf
  split
  · rename_i h
    rw [decide_eq_true h]
    rfl
  · rename_i h
    rw [decide_eq_false h]
    rfl

theorem Binary.integer?_eq (b : Binary) :
    b.integer? = b.magnitude?.map fun k : Nat => if b.negative then -(k : Int) else (k : Int) := by
  unfold Binary.integer?
  cases b.magnitude? <;> rfl

/-- A zero if the integer is zero, else the double of this integer. -/
def IsDoubleOf (x : UnpackedFloat) (i : Int) : Prop :=
  if i = 0 then ∃ s, x = .zero s
  else ∃ (hpos : 0 < i.natAbs) (h : i.natAbs < exactBound), x = unpackedOf (signOf i) hpos h

theorem isDoubleOf_toFloat {i : Int} (h : i.natAbs < exactBound) :
    IsDoubleOf (JsonNumber.integer i).toFloat.toModel.unpack i := by
  by_cases hi : i = 0
  · subst hi
    exact ⟨.positive, rfl⟩
  · have hpos : 0 < i.natAbs := by omega
    rw [IsDoubleOf, if_neg hi]
    refine ⟨hpos, h, ?_⟩
    by_cases hneg : i < 0
    · simp only [JsonNumber.toFloat, signOf, hneg, if_true]
      exact unpack_neg_ofNat hpos h
    · simp only [JsonNumber.toFloat, signOf, hneg, if_false]
      exact unpack_ofNat hpos h

theorem integer?_of_isDoubleOf {x : Float} {i : Int} (hx : IsDoubleOf x.toModel.unpack i) :
    integer? x = some i := by
  unfold integer?
  rw [reading_eq_ofUnpacked]
  by_cases hi : i = 0
  · subst hi
    obtain ⟨s, hs⟩ := hx
    rw [hs]
    simp only [Reading.ofUnpacked, Binary.integer?, magnitude?_zero]
    cases s <;> rfl
  · rw [IsDoubleOf, if_neg hi] at hx
    obtain ⟨hpos, h, hx⟩ := hx
    rw [hx]
    have hinteger : Binary.integer? ⟨signOf i == .negative, mantissaOf i.natAbs,
        (i.natAbs.log2 : Int) - 52⟩ = some i := by
      rw [Binary.integer?_eq, magnitude?_mantissaOf _ h, Option.map_some, isNegative_signOf]
      simp only [decide_eq_true_eq, Option.some.injEq]
      omega
    simp only [Reading.ofUnpacked, unpackedOf, hinteger, Option.filter_some, h, decide_true,
      if_true]

/-- Integers below the bound come back from their doubles. -/
theorem integer?_toFloat {i : Int} (h : i.natAbs < exactBound) :
    integer? (JsonNumber.integer i).toFloat = some i :=
  integer?_of_isDoubleOf (isDoubleOf_toFloat h)

theorem exists_binary_of_integer? {x : Float} {i : Int} (hx : integer? x = some i) :
    ∃ b, Reading.ofFloat x = .finite b ∧ b.integer? = some i ∧ i.natAbs < exactBound := by
  unfold integer? at hx
  split at hx
  · rename_i b hb
    obtain ⟨hinteger, hbound⟩ := Option.filter_eq_some_iff.mp hx
    exact ⟨b, hb, hinteger, of_decide_eq_true hbound⟩
  · contradiction

theorem isDoubleOf_unpackedOf (s : Sign) (hpos : 0 < n) (h : n < exactBound) :
    IsDoubleOf (unpackedOf s hpos h) (if (s == .negative) = true then -(n : Int) else n) := by
  cases s with
  | negative =>
    show IsDoubleOf _ (-(n : Int))
    have hsign : signOf (-(n : Int)) = .negative := if_pos (by omega)
    rw [IsDoubleOf, if_neg (by omega)]
    refine ⟨by omega, by omega, ?_⟩
    simp only [unpackedOf, hsign, Int.natAbs_neg, Int.natAbs_natCast]
  | positive =>
    show IsDoubleOf _ (n : Int)
    have hsign : signOf (n : Int) = .positive := if_neg (by omega)
    rw [IsDoubleOf, if_neg (by omega)]
    refine ⟨by omega, by omega, ?_⟩
    simp only [unpackedOf, hsign, Int.natAbs_natCast]

theorem isDoubleOf_of_integer? {x : Float} {i : Int} (hx : integer? x = some i) :
    IsDoubleOf x.toModel.unpack i := by
  have hreading := reading_eq_ofUnpacked x
  obtain ⟨b, hb, hinteger, hbound⟩ := exists_binary_of_integer? hx
  rw [Binary.integer?_eq] at hinteger
  obtain ⟨k, hk, rfl⟩ := Option.map_eq_some_iff.mp hinteger
  have hcanonical := reading_canonical hb
  rw [hb] at hreading
  cases hu : x.toModel.unpack with
  | notANumber => rw [hu] at hreading; contradiction
  | infinity s => rw [hu] at hreading; contradiction
  | zero s =>
    rw [hu] at hreading
    obtain rfl := Reading.finite.inj hreading
    obtain rfl := Option.some.inj ((magnitude?_zero _ _).symm.trans hk)
    rw [IsDoubleOf, if_pos (by simp)]
    exact ⟨s, rfl⟩
  | finite s mantissa exponent hpos =>
    rw [hu] at hreading
    obtain rfl := Reading.finite.inj hreading
    obtain ⟨hlow, hexponent⟩ | hnormal := hcanonical
    · rw [magnitude?_subnormal hpos hlow hexponent] at hk
      contradiction
    · have hbound' : k < exactBound := by
        split at hbound <;> omega
      obtain ⟨hpos', rfl, rfl⟩ := eq_mantissaOf hnormal hbound' hk
      exact isDoubleOf_unpackedOf s hpos' hbound'

theorem isDoubleOf_zero {s : Sign} {i : Int} : IsDoubleOf (.zero s) i ↔ i = 0 := by
  unfold IsDoubleOf
  split
  · rename_i hi
    exact iff_of_true ⟨s, rfl⟩ hi
  · rename_i hi
    exact iff_of_false (fun ⟨_, _, heq⟩ => nomatch heq) hi

theorem beq_of_isDoubleOf {x y : UnpackedFloat} {i : Int} (hx : IsDoubleOf x i)
    (hy : IsDoubleOf y i) : x.beq y = true := by
  by_cases hi : i = 0
  · subst hi
    obtain ⟨s, rfl⟩ := hx
    obtain ⟨t, rfl⟩ := hy
    cases s <;> cases t <;> rfl
  · rw [IsDoubleOf, if_neg hi] at hx hy
    obtain ⟨hpos, h, rfl⟩ := hx
    obtain ⟨_, _, rfl⟩ := hy
    exact (beq_iff_ne_notANumber_and_eq _ _).mpr
      ⟨(fun heq => nomatch heq), (fun heq => nomatch heq), .inl rfl⟩

theorem isDoubleOf_of_beq {x y : UnpackedFloat} {i : Int} (hy : IsDoubleOf y i)
    (h : x.beq y = true) : IsDoubleOf x i := by
  obtain ⟨-, -, rfl | ⟨rfl, rfl⟩ | ⟨rfl, rfl⟩⟩ := (beq_iff_ne_notANumber_and_eq x y).mp h
  · exact hy
  · exact isDoubleOf_zero.mpr (isDoubleOf_zero.mp hy)
  · exact isDoubleOf_zero.mpr (isDoubleOf_zero.mp hy)

/-- Doubles of the same integer value are equal. -/
theorem beq_of_integer? {x y : Float} {i : Int} (hx : integer? x = some i)
    (hy : integer? y = some i) : (x == y) = true :=
  beq_of_isDoubleOf (isDoubleOf_of_integer? hx) (isDoubleOf_of_integer? hy)

/-- A double counts as an integer below the bound if it is equal to the double of that integer. -/
theorem integer?_eq_some_iff {x : Float} {i : Int} : integer? x = some i ↔
    i.natAbs < exactBound ∧ (x == (JsonNumber.integer i).toFloat) = true := by
  constructor
  · intro hx
    obtain ⟨-, -, -, hbound⟩ := exists_binary_of_integer? hx
    exact ⟨hbound, beq_of_integer? hx (integer?_toFloat hbound)⟩
  · rintro ⟨hbound, hx⟩
    exact integer?_of_isDoubleOf (isDoubleOf_of_beq (isDoubleOf_toFloat hbound) hx)

end ModuleLoader.Number

namespace ModuleLoader

theorem Json.ofFloat_of_integer? {x : Float} {i : Int} (hx : Number.integer? x = some i) :
    Json.ofFloat x = .number (.integer i) := by
  obtain ⟨b, hb, -, -⟩ := Number.exists_binary_of_integer? hx
  simp only [Json.ofFloat, hb, JsonNumber.ofFloat, hx]

end ModuleLoader
