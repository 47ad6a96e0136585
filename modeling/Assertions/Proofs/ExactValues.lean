import Assertions.Number
import Mathlib

/-!
# Exact values of numbers

A double is a point on a scale: a rational, which is a signed mantissa times a power of two, or one
of the two ends of the scale. What is not a number has no point (`point?_eq_none_iff`). Two numbers
compare as their points do (`compare?_eq_cmp`), although `compare?` only looks at signs, exponents
and mantissas: these are in order because all but the smallest doubles have a mantissa of full
length (`IsCanonical`).

An integer that is the point of a double other than zero is turned into that very double by
`ofInteger` (`ofInteger_eq_of_point?`). Nothing is rounded then, as the mantissa of the double is
the one that rounding would choose (`round_exact`).
-/

namespace Assertions.Number

open Float.Model (UnpackedFloat Format totalExponent)
open Float.Model.UnpackedFloat (Sign ExtendedMantissa)

/-! ### Points -/

/-- A point of the scale on which numbers lie: a rational, or one of the ends. -/
abbrev Point := WithBot (WithTop ℚ)

/-- A rational as a point. -/
def Point.ofRat (q : ℚ) : Point := (q : WithTop ℚ)

/-- The point at which an unpacked double lies. -/
def pointOf? : UnpackedFloat → Option Point
  | .notANumber => none
  | .infinity .negative => some ⊥
  | .infinity .positive => some ⊤
  | .zero _ => some (.ofRat 0)
  | .finite .negative mantissa exponent _ => some (.ofRat (-(mantissa * 2 ^ exponent)))
  | .finite .positive mantissa exponent _ => some (.ofRat (mantissa * 2 ^ exponent))

/-- The point at which a number lies. -/
def point? (x : Float) : Option Point := pointOf? (unpack x)

theorem Point.strictMono_ofRat : StrictMono Point.ofRat :=
  WithBot.coe_strictMono.comp WithTop.coe_strictMono

theorem Point.ofRat_inj {p q : ℚ} : Point.ofRat p = Point.ofRat q ↔ p = q :=
  strictMono_ofRat.injective.eq_iff

theorem Point.ofRat_ne_bot (q : ℚ) : Point.ofRat q ≠ ⊥ := WithBot.coe_ne_bot

theorem Point.ofRat_ne_top (q : ℚ) : Point.ofRat q ≠ ⊤ := fun h =>
  WithTop.coe_ne_top (WithBot.coe_injective h)

theorem pointOf?_infinity_ne (sign : Sign) (q : ℚ) :
    pointOf? (.infinity sign) ≠ some (.ofRat q) := by
  intro h
  cases sign with
  | negative => exact Point.ofRat_ne_bot q (Option.some.inj h).symm
  | positive => exact Point.ofRat_ne_top q (Option.some.inj h).symm

theorem cmp_ofRat_of_lt {p q : ℚ} (h : p < q) : cmp (Point.ofRat p) (.ofRat q) = .lt :=
  (cmp_eq_lt_iff _ _).2 (Point.strictMono_ofRat h)

theorem cmp_ofRat_of_gt {p q : ℚ} (h : q < p) : cmp (Point.ofRat p) (.ofRat q) = .gt :=
  (cmp_eq_gt_iff _ _).2 (Point.strictMono_ofRat h)

/-- Only what is not a number has no point. -/
theorem point?_eq_none_iff {x : Float} : point? x = none ↔ x.isNaN = true := by
  show pointOf? (unpack x) = none ↔ (unpack x).isNaN = true
  cases unpack x with
  | notANumber => exact ⟨fun _ => rfl, fun _ => rfl⟩
  | infinity sign => cases sign <;> exact ⟨nofun, nofun⟩
  | zero sign => exact ⟨nofun, nofun⟩
  | finite sign m e hm => cases sign <;> exact ⟨nofun, nofun⟩

theorem isNaN_eq_false_iff {x : Float} : x.isNaN = false ↔ ∃ p, point? x = some p := by
  rw [← Bool.not_eq_true, ← point?_eq_none_iff, ← ne_eq, Option.ne_none_iff_exists']

/-- The finite doubles are those at rational points. -/
theorem isFinite_iff_point? {x : Float} : x.isFinite = true ↔ ∃ q, point? x = some (.ofRat q) := by
  show (unpack x).isFinite = true ↔ ∃ q, pointOf? (unpack x) = some (.ofRat q)
  cases unpack x with
  | notANumber => exact ⟨nofun, nofun⟩
  | infinity sign => exact ⟨nofun, fun ⟨q, hq⟩ => absurd hq (pointOf?_infinity_ne sign q)⟩
  | zero sign => exact ⟨fun _ => ⟨0, rfl⟩, fun _ => rfl⟩
  | finite sign m e hm => cases sign <;> exact ⟨fun _ => ⟨_, rfl⟩, fun _ => rfl⟩

/-! ### Mantissas and exponents of doubles -/

/-- Whether a mantissa and an exponent are those of a double: the mantissa is shorter than `2 ^ 53`,
and it has full length unless the exponent is the least one. -/
structure IsCanonical (mantissa : Nat) (exponent : Int) : Prop where
  lt : mantissa < 2 ^ 53
  least_le : -1074 ≤ exponent
  full : exponent = -1074 ∨ 2 ^ 52 ≤ mantissa

theorem toNat_one_append (v : BitVec 52) : (1#1 ++ v).toNat = 2 ^ 52 + v.toNat := by
  rw [BitVec.toNat_append, ← Nat.shiftLeft_add_eq_or_of_lt v.isLt]
  rfl

theorem isCanonical_of_unpack {x : Float} {sign : Sign} {m : Nat} {e : Int} {hm : 0 < m}
    (h : unpack x = .finite sign m e hm) : IsCanonical m e := by
  have hbias : Format.binary64.exponentBias = 1023 := by decide
  have hlt : (@UnpackedFloat.unpackMantissa .binary64 x.toModel.toBits.toBitVec).toNat < 2 ^ 52 :=
    BitVec.isLt _
  simp only [unpack, Float.Model.unpack, UnpackedFloat.unpack, hbias] at h
  split at h
  · split at h <;> cases h
  · split at h
    · next hexponent =>
      -- the least exponent, whatever the mantissa
      split at h
      · cases h
      · cases h
        refine ⟨by omega, ?_, .inl ?_⟩ <;> simp [hexponent]
    · next hexponent =>
      -- a larger exponent, and a mantissa whose first bit is not stored
      have hpos : 0 < (@UnpackedFloat.unpackExponent .binary64 x.toModel.toBits.toBitVec).toNat :=
        (BitVec.pos_iff_ne_zero _).2 hexponent
      cases h
      rw [toNat_one_append]
      exact ⟨by omega, by omega, .inr (Nat.le_add_right _ _)⟩

/-! ### Comparing points -/

/-- Of two magnitudes with different exponents, the one with the smaller exponent is smaller. -/
theorem magnitude_lt {m n : Nat} {e f : Int} (hm : IsCanonical m e) (hn : IsCanonical n f)
    (h : e < f) : (m * 2 ^ e : ℚ) < n * 2 ^ f := by
  have hpos : (0 : ℚ) < 2 ^ e := by positivity
  have hfull : 2 ^ 52 ≤ n := hn.full.resolve_left (by have := hm.least_le; omega)
  calc (m * 2 ^ e : ℚ) < 2 ^ 53 * 2 ^ e :=
        mul_lt_mul_of_pos_right (by exact_mod_cast hm.lt) hpos
    _ = 2 ^ 52 * 2 ^ (e + 1) := by rw [zpow_add_one₀ (by norm_num)]; ring
    _ ≤ 2 ^ 52 * 2 ^ f := by gcongr <;> norm_num; omega
    _ ≤ n * 2 ^ f := by gcongr; exact_mod_cast hfull

/-- Magnitudes compare by their exponents first and by their mantissas then. -/
theorem cmp_magnitude {m n : Nat} {e f : Int} (hm : IsCanonical m e) (hn : IsCanonical n f) :
    cmp (m * 2 ^ e : ℚ) (n * 2 ^ f) = (compare e f).then (compare m n) := by
  rcases lt_trichotomy e f with h | rfl | h
  · rw [(cmp_eq_lt_iff _ _).2 (magnitude_lt hm hn h), compare_lt_iff_lt.2 h]
    rfl
  · rw [compare_eq_iff_eq.2 rfl, cmp_mul_pos_right (by positivity),
      Nat.strictMono_cast.cmp_map_eq, cmp_eq_compare]
    rfl
  · rw [(cmp_eq_gt_iff _ _).2 (magnitude_lt hn hm h), compare_gt_iff_gt.2 h]
    rfl

theorem cmp_neg_neg (p q : ℚ) : cmp (-p) (-q) = cmp q p :=
  StrictAnti.cmp_map_eq (fun _ _ h => neg_lt_neg h) p q

/-- Whether an unpacked double is one that a bit pattern stands for. -/
def IsDouble (u : UnpackedFloat) : Prop :=
  ∀ sign m e hm, u = .finite sign m e hm → IsCanonical m e

theorem isDouble_unpack (x : Float) : IsDouble (unpack x) :=
  fun _ _ _ _ h => isCanonical_of_unpack h

theorem compare_eq_cmp {a b : UnpackedFloat} (ha : IsDouble a) (hb : IsDouble b) :
    a.compare b = (pointOf? a).bind fun p => (pointOf? b).map (cmp p) := by
  cases a with
  | notANumber => rfl
  | infinity s =>
    cases b with
    | notANumber => cases s <;> rfl
    | infinity t => cases s <;> cases t <;> rfl
    | zero t => cases s <;> rfl
    | finite t n f hn => cases s <;> cases t <;> rfl
  | zero s =>
    cases b with
    | notANumber => rfl
    | infinity t => cases t <;> rfl
    | zero t => rfl
    | finite t n f hn =>
      have hpos : (0 : ℚ) < n * 2 ^ f := by positivity
      cases t with
      | negative => exact congrArg some (cmp_ofRat_of_gt (neg_lt_zero.2 hpos)).symm
      | positive => exact congrArg some (cmp_ofRat_of_lt hpos).symm
  | finite s m e hm =>
    have hpos : (0 : ℚ) < m * 2 ^ e := by positivity
    cases b with
    | notANumber => cases s <;> rfl
    | infinity t => cases s <;> cases t <;> rfl
    | zero t =>
      cases s with
      | negative => exact congrArg some (cmp_ofRat_of_lt (neg_lt_zero.2 hpos)).symm
      | positive => exact congrArg some (cmp_ofRat_of_gt hpos).symm
    | finite t n f hn =>
      have hpos' : (0 : ℚ) < n * 2 ^ f := by positivity
      have hcmp := cmp_magnitude (ha _ _ _ _ rfl) (hb _ _ _ _ rfl)
      cases s with
      | negative =>
        cases t with
        | negative =>
          refine congrArg some ?_
          rw [Point.strictMono_ofRat.cmp_map_eq, cmp_neg_neg, ← cmp_swap, hcmp]
        | positive => exact congrArg some (cmp_ofRat_of_lt (by linarith)).symm
      | positive =>
        cases t with
        | negative => exact congrArg some (cmp_ofRat_of_gt (by linarith)).symm
        | positive =>
          refine congrArg some ?_
          rw [Point.strictMono_ofRat.cmp_map_eq, hcmp]

/-- Numbers compare as their points do. -/
theorem compare?_eq_cmp (x y : Float) :
    compare? x y = (point? x).bind fun p => (point? y).map (cmp p) :=
  compare_eq_cmp (isDouble_unpack x) (isDouble_unpack y)

theorem unpack_injective {x y : Float} (h : unpack x = unpack y) : x = y := by
  have hpacked := congrArg (fun u => Float.ofModel (.pack u)) h
  exact ((Float.ofBits_toBits x).symm.trans hpacked).trans (Float.ofBits_toBits y)

theorem compare?_eq_some_iff {x y : Float} {o : Ordering} :
    compare? x y = some o ↔ ∃ p q, point? x = some p ∧ point? y = some q ∧ cmp p q = o := by
  rw [compare?_eq_cmp]
  constructor
  · intro h
    obtain ⟨p, hp, h⟩ := Option.bind_eq_some_iff.1 h
    obtain ⟨q, hq, h⟩ := Option.map_eq_some_iff.1 h
    exact ⟨p, q, hp, hq, h⟩
  · rintro ⟨p, q, hp, hq, rfl⟩
    rw [hp, hq]
    rfl

/-- Two numbers are equal if they lie at one point. -/
theorem compare?_eq_eq_iff {x y : Float} :
    compare? x y = some .eq ↔ x.isNaN = false ∧ point? x = point? y := by
  rw [compare?_eq_some_iff, isNaN_eq_false_iff]
  constructor
  · rintro ⟨p, q, hp, hq, h⟩
    obtain rfl := (cmp_eq_eq_iff p q).1 h
    exact ⟨⟨p, hp⟩, hp.trans hq.symm⟩
  · rintro ⟨⟨p, hp⟩, h⟩
    exact ⟨p, p, hp, h ▸ hp, cmp_self_eq_eq p⟩

theorem compare?_swap (x y : Float) : compare? y x = (compare? x y).map Ordering.swap := by
  rw [compare?_eq_cmp, compare?_eq_cmp]
  cases point? x with
  | none => cases point? y <;> rfl
  | some p =>
    cases point? y with
    | none => rfl
    | some q => exact congrArg some (cmp_swap p q).symm

theorem compare?_lt_trans {x y z : Float} (hxy : compare? x y = some .lt)
    (hyz : compare? y z = some .lt) : compare? x z = some .lt := by
  obtain ⟨p, q, hp, hq, hpq⟩ := compare?_eq_some_iff.1 hxy
  obtain ⟨q', r, hq', hr, hqr⟩ := compare?_eq_some_iff.1 hyz
  obtain rfl : q = q' := Option.some.inj (hq.symm.trans hq')
  have hlt := lt_trans ((cmp_eq_lt_iff p q).1 hpq) ((cmp_eq_lt_iff q r).1 hqr)
  exact compare?_eq_some_iff.2 ⟨p, r, hp, hr, (cmp_eq_lt_iff p r).2 hlt⟩

theorem isSome_compare?_iff {x y : Float} :
    (compare? x y).isSome = true ↔ x.isNaN = false ∧ y.isNaN = false := by
  rw [isNaN_eq_false_iff, isNaN_eq_false_iff, Option.isSome_iff_exists]
  constructor
  · rintro ⟨o, ho⟩
    obtain ⟨p, q, hp, hq, -⟩ := compare?_eq_some_iff.1 ho
    exact ⟨⟨p, hp⟩, q, hq⟩
  · rintro ⟨⟨p, hp⟩, q, hq⟩
    exact ⟨cmp p q, compare?_eq_some_iff.2 ⟨p, q, hp, hq, rfl⟩⟩

/-! ### Integers -/

theorem pointOf?_finite (sign : Sign) (m : Nat) (e : Int) (hm : 0 < m) :
    pointOf? (.finite sign m e hm) = some (.ofRat (sign.apply m * 2 ^ e)) := by
  cases sign <;> simp [pointOf?, Sign.apply]

theorem Sign.apply_mul (sign : Sign) (n k : Int) : sign.apply (n * k) = sign.apply n * k := by
  cases sign with
  | negative => exact (Int.neg_mul n k).symm
  | positive => rfl

theorem Sign.natAbs_apply (sign : Sign) (n : Nat) : (sign.apply n).natAbs = n := by
  cases sign with
  | negative => exact Int.natAbs_neg _
  | positive => rfl

theorem apply_mul_zpow_neg_eq_iff {sign : Sign} {m k : Nat} {i : Int} :
    (sign.apply m * 2 ^ (-k : Int) : ℚ) = i ↔ sign.apply m = i * 2 ^ k := by
  rw [zpow_neg, zpow_natCast, ← div_eq_mul_inv, div_eq_iff (by positivity)]
  exact_mod_cast Iff.rfl

/-- The integer that a double equals is the point at which it lies. -/
theorem toInteger?_eq_some_iff {x : Float} {i : Int} :
    toInteger? x = some i ↔ point? x = some (.ofRat i) := by
  rw [toInteger?, point?]
  cases unpack x with
  | notANumber => exact ⟨nofun, nofun⟩
  | infinity sign => exact ⟨nofun, fun h => absurd h (pointOf?_infinity_ne sign i)⟩
  | zero sign =>
    show some 0 = some i ↔ some (Point.ofRat 0) = some (.ofRat i)
    rw [Option.some_inj, Option.some_inj, Point.ofRat_inj]
    exact_mod_cast Iff.rfl
  | finite sign m e hm =>
    rw [pointOf?_finite, Option.some_inj, Point.ofRat_inj]
    rcases le_or_gt 0 e with he | he
    · obtain ⟨k, rfl⟩ := Int.eq_ofNat_of_zero_le he
      rw [zpow_natCast]
      simp only [he, ↓reduceIte, Int.toNat_natCast, Sign.apply_mul, Option.some_inj]
      exact_mod_cast Iff.rfl
    · obtain ⟨k, rfl⟩ : ∃ k : Nat, e = -k := ⟨(-e).toNat, by omega⟩
      rw [apply_mul_zpow_neg_eq_iff]
      simp only [Int.not_le.2 he, ↓reduceIte, Int.neg_neg, Int.toNat_natCast]
      split
      · next hmod =>
        obtain ⟨q, rfl⟩ := Nat.dvd_of_mod_eq_zero hmod
        have hcast : ((Nat.pow 2 k * q : Nat) : Int) = q * 2 ^ k := by
          rw [Nat.pow_eq]
          push_cast
          ring
        rw [hcast, Nat.pow_eq, Nat.cast_pow, Nat.cast_ofNat,
          Int.mul_ediv_cancel _ (by positivity), Sign.apply_mul, Option.some_inj,
          mul_left_inj' (by positivity)]
      · next hmod =>
        -- an integer would make the power of two a divisor of the mantissa
        refine ⟨nofun, fun h => absurd (Nat.mod_eq_zero_of_dvd ⟨i.natAbs, ?_⟩) hmod⟩
        have habs := congrArg Int.natAbs h
        rw [Sign.natAbs_apply, Int.natAbs_mul, Int.natAbs_pow, mul_comm] at habs
        exact habs

/-! ### Doubles of integers -/

/-- Bits that are all zero are shifted out without a trace. -/
theorem shiftRight_mul_two_pow (m b : Nat) :
    (⟨m * 2 ^ b, false, false⟩ : ExtendedMantissa) >>> b = ⟨m, false, false⟩ := by
  show Nat.repeat ExtendedMantissa.shiftRightOne b _ = _
  induction b generalizing m with
  | zero => simp [Nat.repeat]
  | succ b ih =>
    have hhalf : m * 2 ^ (b + 1) = 2 * m * 2 ^ b := by ring
    rw [Nat.repeat, hhalf, ih]
    simp [ExtendedMantissa.shiftRightOne]

theorem log2_mul_two_pow {n : Nat} (hn : 0 < n) (b : Nat) : (n * 2 ^ b).log2 = n.log2 + b := by
  have hpos : 0 < n * 2 ^ b := by positivity
  rw [Nat.log2_eq_iff hpos.ne', Nat.pow_add, Nat.add_right_comm, Nat.pow_add]
  exact ⟨Nat.mul_le_mul_right _ (Nat.log2_self_le hn.ne'),
    Nat.mul_lt_mul_of_pos_right Nat.lt_log2_self (Nat.two_pow_pos b)⟩

/-- The exponent that a magnitude gets, from the place of its first bit. -/
theorem targetExponent_eq {n : Nat} {k e : Int} (hlog : n.log2 + k = 52 + e) (he : -1074 ≤ e) :
    Format.binary64.targetExponent (totalExponent n k) = e := by
  have hbits : (Format.binary64.mantissaBits : Int) = 53 := by decide
  have hleast : Format.binary64.minExponent = -1074 := by decide
  rw [Format.targetExponent, totalExponent, hbits, hleast]
  omega

section

variable {m : Nat} {e : Int} (hm : IsCanonical m e) (hfull : 2 ^ 52 ≤ m)
include hm hfull

omit hm in
theorem pos_of_full : 0 < m := by omega

theorem IsCanonical.log2_eq : m.log2 = 52 :=
  (Nat.log2_eq_iff (pos_of_full hfull).ne').2 ⟨hfull, hm.lt⟩

theorem shiftToTargetExponent_exact {b : Nat} {k : Int} (hk : k + b = e) :
    UnpackedFloat.shiftToTargetExponent .binary64 (m * 2 ^ b) k .exact =
      (⟨m, false, false⟩, e) := by
  have hlog : (m * 2 ^ b).log2 = 52 + b := by
    rw [log2_mul_two_pow (pos_of_full hfull), hm.log2_eq hfull]
  have htarget : Format.binary64.targetExponent (totalExponent (m * 2 ^ b) k) = e :=
    targetExponent_eq (by omega) hm.least_le
  have hamount : (e - k).toNat = b := by omega
  simp only [UnpackedFloat.shiftToTargetExponent, UnpackedFloat.shiftToExponent, htarget, hamount,
    ExtendedMantissa.ofMantissaAndAccuracy, shiftRight_mul_two_pow, hk]

theorem roundWithAccuracy_exact (sign : Sign) {b : Nat} {k : Int} (hk : k + b = e) :
    UnpackedFloat.roundWithAccuracy .binary64 sign (m * 2 ^ b) k .exact =
      .finite sign m e (pos_of_full hfull) := by
  -- the second shift finds nothing to do
  have hagain := shiftToTargetExponent_exact hm hfull (b := 0) (add_zero e)
  rw [pow_zero, mul_one] at hagain
  have hrounded : (⟨m, false, false⟩ : ExtendedMantissa).roundedMantissa = m := rfl
  rw [UnpackedFloat.roundWithAccuracy, shiftToTargetExponent_exact hm hfull hk]
  simp only [hrounded, hagain, dif_neg (pos_of_full hfull).ne']

/-- A natural number that is a double is rounded to that double. -/
theorem round_exact (sign : Sign) {n : Nat} (hn : n * 2 ^ (-e).toNat = m * 2 ^ e.toNat) :
    UnpackedFloat.round .binary64 sign n 0 = .finite sign m e (pos_of_full hfull) := by
  have hpos : 0 < n := by
    refine Nat.pos_of_ne_zero fun hzero => ?_
    have hmpos := pos_of_full hfull
    rw [hzero, Nat.zero_mul] at hn
    exact absurd hn.symm (by positivity)
  have hlog : n.log2 + (-e).toNat = 52 + e.toNat := by
    rw [← log2_mul_two_pow hpos, hn, log2_mul_two_pow (pos_of_full hfull), hm.log2_eq hfull]
  have htarget : Format.binary64.targetExponent (totalExponent n 0) = e :=
    targetExponent_eq (by omega) hm.least_le
  have hamount : (0 - e).toNat = (-e).toNat := by omega
  rw [UnpackedFloat.round, htarget, UnpackedFloat.decreaseExponent, hamount, Nat.shiftLeft_eq, hn]
  exact roundWithAccuracy_exact hm hfull sign (by omega)

end

/-- A magnitude that is an integer, without powers of two in denominators. -/
theorem mul_two_pow_eq_of_eq {n m : Nat} {e : Int} (h : (n : ℚ) = m * 2 ^ e) :
    n * 2 ^ (-e).toNat = m * 2 ^ e.toNat := by
  have he : e = e.toNat - (-e).toNat := by omega
  rw [he, zpow_sub₀ (by norm_num), zpow_natCast, zpow_natCast, ← mul_div_assoc,
    eq_div_iff (by positivity)] at h
  exact_mod_cast h

/-- An integer that is a signed magnitude has the sign and the magnitude. -/
theorem exists_eq_apply {sign : Sign} {m : Nat} {e i : Int}
    (h : (sign.apply m * 2 ^ e : ℚ) = i) : ∃ n : Nat, i = sign.apply n ∧ (n : ℚ) = m * 2 ^ e := by
  have hnonneg : (0 : ℚ) ≤ m * 2 ^ e := by positivity
  cases sign with
  | negative =>
    have hi : (m * 2 ^ e : ℚ) = (-i : Int) := by
      push_cast
      rw [← h, Sign.apply]
      push_cast
      ring
    rw [hi] at hnonneg ⊢
    obtain ⟨n, hn⟩ := Int.eq_ofNat_of_zero_le (by exact_mod_cast hnonneg : 0 ≤ -i)
    exact ⟨n, by rw [Sign.apply, ← hn, Int.neg_neg], by rw [hn]; rfl⟩
  | positive =>
    have hi : (m * 2 ^ e : ℚ) = i := h
    rw [hi] at hnonneg ⊢
    obtain ⟨n, rfl⟩ := Int.eq_ofNat_of_zero_le (by exact_mod_cast hnonneg : 0 ≤ i)
    exact ⟨n, rfl, rfl⟩

theorem ofInt_apply (sign : Sign) {n : Nat} (hn : 0 < n) :
    UnpackedFloat.ofInt .binary64 (sign.apply n) = UnpackedFloat.round .binary64 sign n 0 := by
  cases sign with
  | negative =>
    have hlt : compare (-n : Int) 0 = .lt := compare_lt_iff_lt.2 (by omega)
    simp only [UnpackedFloat.ofInt, UnpackedFloat.normalize, Sign.apply, hlt, Int.neg_neg,
      Int.toNat_natCast]
  | positive =>
    have hgt : compare (n : Int) 0 = .gt := compare_gt_iff_gt.2 (by omega)
    simp only [UnpackedFloat.ofInt, UnpackedFloat.normalize, Sign.apply, hgt, Int.toNat_natCast]

/-- A double that is an integer other than zero has a mantissa of full length. -/
theorem IsCanonical.full_of_int {m n : Nat} {e : Int} (hm : IsCanonical m e) (hn : 0 < n)
    (h : n * 2 ^ (-e).toNat = m * 2 ^ e.toNat) : 2 ^ 52 ≤ m := by
  refine hm.full.resolve_left fun he => ?_
  have hnone : e.toNat = 0 := by omega
  have hmany : 53 ≤ (-e).toNat := by omega
  have hlt := hm.lt
  have hle : 2 ^ 53 ≤ m := by
    calc 2 ^ 53 ≤ 2 ^ (-e).toNat := Nat.pow_le_pow_right (by norm_num) hmany
      _ ≤ n * 2 ^ (-e).toNat := Nat.le_mul_of_pos_left _ hn
      _ = m := by rw [h, hnone, Nat.pow_zero, Nat.mul_one]
  omega

/-- An integer other than zero that is the point of a double is turned into that double. -/
theorem ofInteger_eq_of_point? {x : Float} {i : Int} (h : point? x = some (.ofRat i))
    (hi : i ≠ 0) : ofInteger i = x := by
  suffices hint : UnpackedFloat.ofInt .binary64 i = unpack x by
    rw [ofInteger, Float.Model.ofInt, hint]
    exact Float.ofBits_toBits x
  rw [point?] at h
  cases hx : unpack x with
  | notANumber => rw [hx] at h; cases h
  | infinity sign => rw [hx] at h; exact absurd h (pointOf?_infinity_ne sign i)
  | zero sign =>
    rw [hx] at h
    have hzero : (0 : ℚ) = i := Point.ofRat_inj.1 (Option.some.inj h)
    exact absurd (by exact_mod_cast hzero.symm) hi
  | finite sign m e hm =>
    rw [hx, pointOf?_finite, Option.some_inj, Point.ofRat_inj] at h
    obtain ⟨n, rfl, hn⟩ := exists_eq_apply h
    have hpos : 0 < n := by
      refine Nat.pos_of_ne_zero fun hzero => hi ?_
      rw [hzero]
      cases sign <;> rfl
    have hcanonical := isCanonical_of_unpack hx
    have hscaled := mul_two_pow_eq_of_eq hn
    exact (ofInt_apply sign hpos).trans
      (round_exact hcanonical (hcanonical.full_of_int hpos hscaled) sign hscaled)

/-- An integer that is a double is where it was after the way to the double. -/
theorem point?_ofInteger {x : Float} {i : Int} (h : point? x = some (.ofRat i)) :
    point? (ofInteger i) = some (.ofRat i) := by
  by_cases hi : i = 0
  · subst hi
    have hzero : unpack (ofInteger 0) = .zero .positive := by rfl
    rw [point?, hzero]
    rfl
  · rw [ofInteger_eq_of_point? h hi, h]

/-! ### What is not a number -/

theorem roundWithAccuracy_ne_notANumber (sign : Sign) (m : Nat) (e : Int)
    (accuracy : UnpackedFloat.Accuracy) :
    UnpackedFloat.roundWithAccuracy .binary64 sign m e accuracy ≠ .notANumber := by
  rw [UnpackedFloat.roundWithAccuracy]
  dsimp only
  split <;> nofun

theorem ofInt_ne_notANumber (i : Int) : UnpackedFloat.ofInt .binary64 i ≠ .notANumber := by
  rw [UnpackedFloat.ofInt, UnpackedFloat.normalize]
  split
  · rw [UnpackedFloat.round]
    exact roundWithAccuracy_ne_notANumber _ _ _ _
  · nofun
  · rw [UnpackedFloat.round]
    exact roundWithAccuracy_ne_notANumber _ _ _ _

theorem bits_of_unpack_eq_notANumber {b : BitVec Format.binary64.numBits}
    (h : UnpackedFloat.unpack .binary64 b = .notANumber) :
    UnpackedFloat.unpackExponent b = -1#11 ∧ UnpackedFloat.unpackMantissa b ≠ 0#52 := by
  rw [UnpackedFloat.unpack] at h
  split at h
  · next hexponent =>
    split at h
    · cases h
    · next hmantissa => exact ⟨hexponent, hmantissa⟩
  · split at h
    · split at h <;> cases h
    · cases h

theorem unpack_pack_ne_notANumber {u : UnpackedFloat} (hu : u ≠ .notANumber) :
    UnpackedFloat.unpack .binary64 (UnpackedFloat.pack .binary64 u) ≠ .notANumber := by
  intro h
  obtain ⟨hexponent, hmantissa⟩ := bits_of_unpack_eq_notANumber h
  cases u with
  | notANumber => exact hu rfl
  | infinity sign => simp [UnpackedFloat.pack, UnpackedFloat.packedInfinity] at hmantissa
  | zero sign => simp [UnpackedFloat.pack, UnpackedFloat.packedZero] at hexponent
  | finite sign m e hm =>
    rw [UnpackedFloat.pack] at hexponent hmantissa
    split at hexponent
    · next hlarge =>
      -- an exponent that is too large gives an infinity
      rw [if_pos hlarge, UnpackedFloat.packedInfinity,
        UnpackedFloat.unpackMantissa_packComponents] at hmantissa
      exact hmantissa rfl
    · next hsmall =>
      change ¬2 ^ 11 ≤ _ at hsmall
      have hall : (-1#11).toNat = 2 ^ 11 - 1 := by decide
      split at hexponent <;> rw [UnpackedFloat.unpackExponent_packComponents] at hexponent
      · have hbits := congrArg BitVec.toNat hexponent
        rw [BitVec.toNat_ofNat, Nat.mod_eq_of_lt (by omega), hall] at hbits
        omega
      · cases hexponent

/-- The double of an integer is a number, if only an infinite one. -/
theorem isNaN_ofInteger (i : Int) : (ofInteger i).isNaN = false := by
  rw [← Bool.not_eq_true]
  intro h
  exact unpack_pack_ne_notANumber (ofInt_ne_notANumber i) (UnpackedFloat.isNaN_iff.1 h)

end Assertions.Number
