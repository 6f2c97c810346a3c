import Mathlib.Algebra.Group.Nat.Defs
import ScriptReader.Number.Written

/-!
# Proofs/Number/Nearest — what a quotient is rounded to depends on its value alone

The scale at which a quotient is rounded is the least at which it fits in 53 bits
(`Binary64.IsGridScale`), and both the scale and the rounding are the same for quotients that are
equal as fractions (`Binary64.nearest_congr`).  The value of a finite magnitude is rounded to that
magnitude (`Binary64.nearest_ratio`).
-/

namespace ScriptReader

theorem roundQuotient_mul_mul {k : Nat} (hk : 0 < k) (num den : Nat) :
    roundQuotient (k * num) (k * den) = roundQuotient num den := by
  have hscale (a b : Nat) :
      (2 * (k * a) < k * b ↔ 2 * a < b) ∧ (2 * (k * a) = k * b ↔ 2 * a = b) := by
    rw [Nat.mul_left_comm]
    exact ⟨Nat.mul_lt_mul_left hk, Nat.mul_right_inj (Nat.ne_of_gt hk)⟩
  simp only [roundQuotient, Nat.mul_div_mul_left _ _ hk, Nat.mul_mod_mul_left, (hscale _ _).1,
    (hscale _ _).2]

namespace Binary64

/-! ## Scales -/

/-- The quotient is less than `2 ^ 53` steps of `2 ^ (s - 1074)`. -/
def Fits (num den s : Nat) : Prop := num * 2 ^ 1074 < den * 2 ^ (53 + s)

/-- The least scale at which the quotient fits. -/
structure IsGridScale (num den s : Nat) : Prop where
  fits : Fits num den s
  not_fits : ∀ r < s, ¬Fits num den r

theorem Fits.mono {num den r s : Nat} (h : Fits num den r) (hrs : r ≤ s) : Fits num den s :=
  Nat.lt_of_lt_of_le h (Nat.mul_le_mul_left _ (Nat.pow_le_pow_right (by decide) (by omega)))

theorem IsGridScale.unique {num den r s : Nat} (hr : IsGridScale num den r)
    (hs : IsGridScale num den s) : r = s := by
  rcases Nat.lt_trichotomy r s with hlt | heq | hlt
  · exact absurd hr.fits (hs.not_fits r hlt)
  · exact heq
  · exact absurd hs.fits (hr.not_fits s hlt)

theorem fits_mul_mul {k num den s : Nat} (hk : 0 < k) :
    Fits (k * num) (k * den) s ↔ Fits num den s := by
  rw [Fits, Fits, Nat.mul_assoc, Nat.mul_assoc]
  exact Nat.mul_lt_mul_left hk

/-- Counting steps of `2 ^ (s - t)` is multiplying by `2 ^ t` and dividing by `2 ^ s`. -/
theorem shiftLeft_div_lt_iff {num den s t : Nat} (hden : 0 < den) :
    num <<< (t - s) / den <<< (s - t) < 1 <<< 53 ↔ num * 2 ^ t < den * 2 ^ (53 + s) := by
  have hpos (n : Nat) : 0 < 2 ^ n := Nat.two_pow_pos n
  simp only [Nat.shiftLeft_eq, Nat.one_mul]
  rw [Nat.div_lt_iff_lt_mul (Nat.mul_pos hden (hpos _)), ← Nat.mul_lt_mul_right (hpos (min s t))]
  have hnum : num * 2 ^ (t - s) * 2 ^ min s t = num * 2 ^ t := by
    rw [Nat.mul_assoc, ← Nat.pow_add]
    congr 2
    omega
  have hden : 2 ^ 53 * (den * 2 ^ (s - t)) * 2 ^ min s t = den * 2 ^ (53 + s) := by
    rw [Nat.mul_left_comm, Nat.mul_assoc, ← Nat.pow_add, ← Nat.pow_add]
    congr 2
    omega
  rw [hnum, hden]

theorem steps_lt_iff {num den s : Nat} (hden : 0 < den) :
    (steps num den s).1 / (steps num den s).2 < 1 <<< 53 ↔ Fits num den s :=
  shiftLeft_div_lt_iff hden

theorem gridScale_eq (num den : Nat) :
    gridScale num den =
      let s := ((num.log2 : Int) - den.log2 - 53 + 1074).toNat
      if (steps num den s).1 / (steps num den s).2 < 1 <<< 53 then s else s + 1 := rfl

theorem mul_two_pow_lt {a b t k : Nat} (hb : b ≠ 0) (h : a.log2 + 1 + t ≤ b.log2 + k) :
    a * 2 ^ t < b * 2 ^ k := calc
  a * 2 ^ t < 2 ^ (a.log2 + 1) * 2 ^ t :=
    Nat.mul_lt_mul_of_pos_right Nat.lt_log2_self (Nat.two_pow_pos _)
  _ = 2 ^ (a.log2 + 1 + t) := (Nat.pow_add ..).symm
  _ ≤ 2 ^ (b.log2 + k) := Nat.pow_le_pow_right (by decide) h
  _ = 2 ^ b.log2 * 2 ^ k := Nat.pow_add ..
  _ ≤ b * 2 ^ k := Nat.mul_le_mul_right _ (Nat.log2_self_le hb)

/-- **A quotient is rounded at the least scale at which it fits.** -/
theorem isGridScale_gridScale {num den : Nat} (hnum : num ≠ 0) (hden : den ≠ 0) :
    IsGridScale num den (gridScale num den) := by
  have hupper (s : Nat) (h : num.log2 + 1 + 1074 ≤ den.log2 + (53 + s)) : Fits num den s :=
    mul_two_pow_lt hden h
  have hlower (s : Nat) (h : den.log2 + 1 + (53 + s) ≤ num.log2 + 1074) : ¬Fits num den s :=
    Nat.lt_asymm (mul_two_pow_lt hnum h)
  rw [gridScale_eq]
  dsimp only
  split
  · next hlt =>
    exact ⟨(steps_lt_iff (Nat.pos_of_ne_zero hden)).mp hlt, fun r hr => hlower r (by omega)⟩
  · next hge =>
    refine ⟨hupper _ (by omega), fun r hr hfits => hge ?_⟩
    exact (steps_lt_iff (Nat.pos_of_ne_zero hden)).mpr (hfits.mono (Nat.le_of_lt_succ hr))

/-! ## Quotients of one value -/

theorem gridScale_mul_mul {k num den : Nat} (hk : 0 < k) (hnum : num ≠ 0) (hden : den ≠ 0) :
    gridScale (k * num) (k * den) = gridScale num den := by
  have hk0 : k ≠ 0 := Nat.ne_of_gt hk
  have hgrid := isGridScale_gridScale (Nat.mul_ne_zero hk0 hnum) (Nat.mul_ne_zero hk0 hden)
  refine IsGridScale.unique ⟨(fits_mul_mul hk).mp hgrid.fits, fun r hr hfits => ?_⟩
    (isGridScale_gridScale hnum hden)
  exact hgrid.not_fits r hr ((fits_mul_mul hk).mpr hfits)

theorem nearest_mul_mul {k num den : Nat} (hk : 0 < k) (hden : den ≠ 0) :
    nearest (k * num) (k * den) = nearest num den := by
  by_cases hnum : num = 0
  · rw [hnum, Nat.mul_zero, nearest, nearest, if_pos rfl, if_pos rfl]
  · rw [nearest, nearest, if_neg (Nat.mul_ne_zero (Nat.ne_of_gt hk) hnum), if_neg hnum,
      gridScale_mul_mul hk hnum hden]
    simp only [steps, Nat.shiftLeft_eq, Nat.mul_assoc]
    rw [roundQuotient_mul_mul hk]

/-- **Quotients of one value are rounded to one magnitude.** -/
theorem nearest_congr {num den num' den' : Nat} (hden : 0 < den) (hden' : 0 < den')
    (h : num * den' = num' * den) : nearest num den = nearest num' den' := calc
  nearest num den = nearest (den' * num) (den' * den) :=
    (nearest_mul_mul hden' (Nat.ne_of_gt hden)).symm
  _ = nearest (den * num') (den * den') := by
    rw [Nat.mul_comm den' num, h, Nat.mul_comm num' den, Nat.mul_comm den' den]
  _ = nearest num' den' := nearest_mul_mul hden (Nat.ne_of_gt hden')

/-! ## The values of magnitudes -/

theorem significand_ne_zero {m : Nat} (h : m ≠ 0) : significand m ≠ 0 := by
  rw [significand]
  split
  · exact h
  · simp

theorem significand_lt (m : Nat) : significand m < 2 ^ 53 := by
  rw [significand, Nat.shiftLeft_eq]
  split <;> omega

/-- Only at the least scale a significand is less than `2 ^ 52`. -/
theorem le_significand {m : Nat} (h : 0 < scale m) : 2 ^ 52 ≤ significand m := by
  rw [scale, Nat.shiftRight_eq_div_pow] at h
  rw [significand, Nat.shiftLeft_eq, if_neg (by omega)]
  omega

theorem ratio_eq (m : Nat) :
    ratio m = (significand m * 2 ^ (scale m - 1074), 2 ^ (1074 - scale m)) := by
  have htop : (exponent m).toNat = scale m - 1074 := by rw [exponent]; omega
  have hbottom : (-exponent m).toNat = 1074 - scale m := by rw [exponent]; omega
  rw [ratio, htop, hbottom, Nat.shiftLeft_eq, Nat.shiftLeft_eq, Nat.one_mul]

theorem ratio_pos (m : Nat) : 0 < (ratio m).2 := by
  rw [ratio_eq]
  exact Nat.two_pow_pos _

theorem mul_two_pow_sub (n s t : Nat) : n * 2 ^ (s - t) * 2 ^ t = 2 ^ (t - s) * (n * 2 ^ s) := by
  rw [Nat.mul_assoc, ← Nat.pow_add, Nat.mul_left_comm, ← Nat.pow_add]
  congr 2
  omega

theorem fits_ratio {m s : Nat} :
    Fits (ratio m).1 (ratio m).2 s ↔ significand m * 2 ^ scale m < 2 ^ (53 + s) := by
  have hnum := mul_two_pow_sub (significand m) (scale m) 1074
  rw [Fits, ratio_eq, hnum, Nat.mul_lt_mul_left (Nat.two_pow_pos _)]

theorem isGridScale_ratio (m : Nat) : IsGridScale (ratio m).1 (ratio m).2 (scale m) := by
  refine ⟨fits_ratio.mpr ?_, fun r hr hfits => ?_⟩
  · rw [Nat.pow_add]
    exact Nat.mul_lt_mul_of_pos_right (significand_lt m) (Nat.two_pow_pos _)
  · refine Nat.not_le.mpr (fits_ratio.mp hfits) ?_
    calc
      2 ^ (53 + r) ≤ 2 ^ (52 + scale m) := Nat.pow_le_pow_right (by decide) (by omega)
      _ = 2 ^ 52 * 2 ^ scale m := Nat.pow_add ..
      _ ≤ significand m * 2 ^ scale m :=
        Nat.mul_le_mul_right _ (le_significand (Nat.zero_lt_of_lt hr))

/-- **The value of a finite magnitude is rounded to it.** -/
theorem nearest_ratio {m : Nat} (hfinite : m < infinity) :
    nearest (ratio m).1 (ratio m).2 = m := by
  by_cases hm : m = 0
  · rw [hm]
    rfl
  have hnum : (ratio m).1 ≠ 0 := by
    rw [ratio_eq]
    exact Nat.mul_ne_zero (significand_ne_zero hm) (Nat.ne_of_gt (Nat.two_pow_pos _))
  have hgrid : gridScale (ratio m).1 (ratio m).2 = scale m :=
    (isGridScale_gridScale hnum (Nat.ne_of_gt (ratio_pos m))).unique (isGridScale_ratio m)
  have hsteps : steps (ratio m).1 (ratio m).2 (scale m)
      = (significand m * (2 ^ (1074 - scale m) * 2 ^ (scale m - 1074)),
        2 ^ (1074 - scale m) * 2 ^ (scale m - 1074)) := by
    rw [steps, ratio_eq, Nat.shiftLeft_eq, Nat.shiftLeft_eq, Nat.mul_assoc,
      Nat.mul_comm (2 ^ (scale m - 1074))]
  rw [nearest, if_neg hnum, hgrid]
  dsimp only
  rw [hsteps]
  dsimp only
  rw [roundQuotient_mul_left _ (Nat.mul_pos (Nat.two_pow_pos _) (Nat.two_pow_pos _)),
    encode_significand, Nat.min_eq_right (Nat.le_of_lt hfinite)]

end Binary64

end ScriptReader
