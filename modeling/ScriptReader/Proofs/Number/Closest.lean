import Mathlib.Data.Nat.Dist
import ScriptReader.Proofs.Number.Nearest

/-!
# Proofs/Number/Closest — no magnitude is closer to a quotient than its rounding

The value of a magnitude is counted in units of `2 ^ -1074` (`Binary64.units`), so that the distance
of a quotient from it is a whole number once both are multiplied by the denominator.
`Binary64.IsNearest` says that a magnitude is at least distance and wins a tie only if it is even,
which says nothing of grids or scales; `Binary64.isNearest_nearest` says that what a quotient is
rounded to is nearest to it.  Infinity takes part as the value that the next magnitude would have.
-/

namespace ScriptReader

/-! ## Rounding to a whole number -/

section Quotient

variable {num den : Nat} (hden : 0 < den)

include hden

theorem two_mul_dist_roundQuotient_le (num : Nat) :
    2 * Nat.dist num (roundQuotient num den * den) ≤ den := by
  have h := two_mul_roundQuotient num den hden
  rw [Nat.dist]
  omega

/-- A tie goes to the even number. -/
theorem roundQuotient_mod_two (htie : 2 * Nat.dist num (roundQuotient num den * den) = den) :
    roundQuotient num den % 2 = 0 := by
  have hdiv := Nat.div_add_mod num den
  have hlt := Nat.mod_lt num hden
  rw [Nat.mul_comm] at hdiv
  rw [Nat.dist] at htie
  unfold roundQuotient at htie ⊢
  split
  · next h =>
    rw [if_pos h] at htie
    omega
  · next h =>
    rw [if_neg h, Nat.add_mul, Nat.one_mul] at htie
    omega

omit hden in
/-- Different multiples are a denominator apart. -/
theorem le_dist_add_dist (num den : Nat) {q j : Nat} (h : j ≠ q) :
    den ≤ Nat.dist num (q * den) + Nat.dist num (j * den) := by
  have hapart : den ≤ Nat.dist (q * den) (j * den) := by
    rw [Nat.dist_mul_right]
    exact Nat.le_mul_of_pos_left _ (Nat.dist_pos_of_ne h.symm)
  have htriangle := Nat.dist.triangle_inequality (q * den) num (j * den)
  rw [Nat.dist_comm (q * den) num] at htriangle
  exact hapart.trans htriangle

/-- **No multiple of the denominator is closer than the rounded one.** -/
theorem dist_roundQuotient_le (j : Nat) :
    Nat.dist num (roundQuotient num den * den) ≤ Nat.dist num (j * den) := by
  by_cases hj : j = roundQuotient num den
  · rw [hj]
  · have hhalf := two_mul_dist_roundQuotient_le hden num
    have hapart := le_dist_add_dist num den hj
    omega

theorem roundQuotient_mod_two_of_dist_eq {j : Nat} (hj : j ≠ roundQuotient num den)
    (h : Nat.dist num (roundQuotient num den * den) = Nat.dist num (j * den)) :
    roundQuotient num den % 2 = 0 := by
  have hhalf := two_mul_dist_roundQuotient_le hden num
  have hapart := le_dist_add_dist num den hj
  exact roundQuotient_mod_two hden (by omega)

end Quotient

namespace Binary64

/-! ## Values in units -/

/-- The value of a magnitude, counted in units of `2 ^ -1074`. -/
def units (m : Nat) : Nat := significand m * 2 ^ scale m

/-- The units of a magnitude are its value. -/
theorem ratio_mul_units (m : Nat) : (ratio m).1 * 2 ^ 1074 = units m * (ratio m).2 := by
  rw [ratio_eq, mul_two_pow_sub, units, Nat.mul_comm]

theorem units_encode {r s : Nat} (hr : r ≤ 2 ^ 53) (hs : 0 < s → 2 ^ 52 ≤ r) :
    units (encode r s) = r * 2 ^ s := by
  unfold units significand scale encode
  simp only [Nat.shiftLeft_eq, Nat.shiftRight_eq_div_pow, Nat.one_mul]
  rcases Nat.lt_or_ge r (2 ^ 52) with hlow | hhigh
  · obtain rfl : s = 0 := by omega
    rw [if_pos (by omega), Nat.zero_mul, Nat.zero_add, Nat.div_eq_of_lt hlow]
  · rw [if_neg (by omega)]
    rcases Nat.lt_or_eq_of_le hr with hlt | rfl
    · have hscale : (s * 2 ^ 52 + r) / 2 ^ 52 - 1 = s := by omega
      have hfraction : (s * 2 ^ 52 + r) % 2 ^ 52 + 2 ^ 52 = r := by omega
      rw [hscale, hfraction]
    · have hscale : (s * 2 ^ 52 + 2 ^ 53) / 2 ^ 52 - 1 = s + 1 := by omega
      have hfraction : (s * 2 ^ 52 + 2 ^ 53) % 2 ^ 52 + 2 ^ 52 = 2 ^ 52 := by omega
      rw [hscale, hfraction, ← Nat.pow_add, ← Nat.pow_add, Nat.add_comm s, ← Nat.add_assoc]

theorem units_lt_succ (m : Nat) : units m < units (m + 1) := by
  have hnext : m + 1 = encode (significand m + 1) (scale m) := by
    conv_lhs => rw [← encode_significand m, encode, Nat.add_assoc, ← encode]
  have hunits : units (m + 1) = (significand m + 1) * 2 ^ scale m := by
    rw [hnext]
    refine units_encode (significand_lt m) fun hscale => ?_
    exact (le_significand hscale).trans (Nat.le_succ _)
  rw [hunits, units]
  exact Nat.mul_lt_mul_of_pos_right (Nat.lt_succ_self _) (Nat.two_pow_pos _)

/-- **Magnitudes are in the order of their values.** -/
theorem strictMono_units : StrictMono units := strictMono_nat_of_lt_succ units_lt_succ

/-! ## Nearest magnitudes -/

/-- How far a quotient is from a magnitude, in units and times the denominator. -/
def distance (num den m : Nat) : Nat := Nat.dist (num * 2 ^ 1074) (units m * den)

/-- The magnitude is nearest to the quotient, and even if another is as near. -/
structure IsNearest (num den m : Nat) : Prop where
  le_infinity : m ≤ infinity
  distance_le : ∀ m' ≤ infinity, distance num den m ≤ distance num den m'
  even : ∀ m' ≤ infinity, m' ≠ m → distance num den m = distance num den m' → m % 2 = 0

/-- **There is one nearest magnitude**: of two neighbours, one is odd. -/
theorem IsNearest.unique {num den m m' : Nat} (hden : 0 < den) (h : IsNearest num den m)
    (h' : IsNearest num den m') : m = m' := by
  wlog hlt : m < m' generalizing m m'
  · by_contra hne
    exact hne (this h' h (by omega)).symm
  have htie := Nat.le_antisymm (h.distance_le m' h'.le_infinity) (h'.distance_le m h.le_infinity)
  have heven := h.even m' h'.le_infinity (Nat.ne_of_gt hlt) htie
  have heven' := h'.even m h.le_infinity (Nat.ne_of_lt hlt) htie.symm
  have hbetween := h.distance_le (m + 1) (by have := h'.le_infinity; omega)
  have hlow := Nat.mul_lt_mul_of_pos_right (units_lt_succ m) hden
  have hhigh := Nat.mul_lt_mul_of_pos_right (strictMono_units (show m + 1 < m' by omega)) hden
  simp only [distance, Nat.dist] at htie hbetween
  omega

section Grid

variable {num den : Nat}

theorem steps_fst (num den s : Nat) : (steps num den s).1 = num * 2 ^ (1074 - s) :=
  Nat.shiftLeft_eq ..

theorem steps_snd (num den s : Nat) : (steps num den s).2 = den * 2 ^ (s - 1074) :=
  Nat.shiftLeft_eq ..

theorem steps_pos (hden : 0 < den) (s : Nat) : 0 < (steps num den s).2 := by
  rw [steps_snd]
  exact Nat.mul_pos hden (Nat.two_pow_pos _)

theorem num_eq_steps (num den s : Nat) :
    num * 2 ^ 1074 = (steps num den s).1 * 2 ^ min s 1074 := by
  have hup : 1074 - s + min s 1074 = 1074 := by omega
  rw [steps_fst, Nat.mul_assoc, ← Nat.pow_add, hup]

theorem mul_den_eq_steps (num den s j : Nat) :
    j * 2 ^ s * den = j * (steps num den s).2 * 2 ^ min s 1074 := by
  have hdown : s - 1074 + min s 1074 = s := by omega
  rw [steps_snd, Nat.mul_assoc, Nat.mul_assoc, Nat.mul_assoc, ← Nat.pow_add, hdown,
    Nat.mul_comm (2 ^ s)]

/-- The quotient and a multiple of a step, both counted in steps. -/
theorem dist_steps (num den s j : Nat) :
    Nat.dist (num * 2 ^ 1074) (j * 2 ^ s * den)
      = Nat.dist (steps num den s).1 (j * (steps num den s).2) * 2 ^ min s 1074 := by
  rw [num_eq_steps num den s, mul_den_eq_steps num, Nat.dist_mul_right]

/-- A magnitude at or above a scale is a whole number of its steps. -/
theorem units_eq_steps {m s : Nat} (h : s ≤ scale m) :
    units m = significand m * 2 ^ (scale m - s) * 2 ^ s := by
  rw [units, Nat.mul_assoc, ← Nat.pow_add, Nat.sub_add_cancel h]

theorem distance_eq_dist {m s : Nat} (h : s ≤ scale m) :
    distance num den m
      = Nat.dist (num * 2 ^ 1074) (significand m * 2 ^ (scale m - s) * 2 ^ s * den) := by
  rw [distance, units_eq_steps h]

variable (num den) in
/-- The quotient in whole steps of its grid. -/
def rounded : Nat :=
  let s := gridScale num den
  roundQuotient (steps num den s).1 (steps num den s).2

variable (num den) in
/-- The magnitude that the quotient is rounded to if it is finite. -/
def unbounded : Nat := encode (rounded num den) (gridScale num den)

theorem nearest_eq (hnum : num ≠ 0) : nearest num den = min infinity (unbounded num den) :=
  if_neg hnum

variable (hnum : num ≠ 0) (hden : 0 < den)

include hnum hden

theorem rounded_le : rounded num den ≤ 2 ^ 53 := by
  have hgrid := isGridScale_gridScale hnum (Nat.ne_of_gt hden)
  have hlt := (steps_lt_iff hden).mpr hgrid.fits
  rw [rounded, roundQuotient]
  split
  · exact Nat.le_of_lt hlt
  · exact hlt

/-- Above the least scale the quotient is at least `2 ^ 52` steps. -/
theorem le_of_gridScale_pos (hs : 0 < gridScale num den) :
    2 ^ 52 * 2 ^ gridScale num den * den ≤ num * 2 ^ 1074 := by
  have hgrid := isGridScale_gridScale hnum (Nat.ne_of_gt hden)
  have hbelow := hgrid.not_fits (gridScale num den - 1) (by omega)
  have hexponent : 53 + (gridScale num den - 1) = 52 + gridScale num den := by omega
  rwa [Fits, Nat.not_lt, hexponent, Nat.mul_comm, Nat.pow_add] at hbelow

theorem le_rounded (hs : 0 < gridScale num den) : 2 ^ 52 ≤ rounded num den := by
  have hle := le_of_gridScale_pos hnum hden hs
  rw [num_eq_steps num den (gridScale num den), mul_den_eq_steps num] at hle
  have hquotient := (Nat.le_div_iff_mul_le (steps_pos hden _)).mpr
    (Nat.le_of_mul_le_mul_right hle (Nat.two_pow_pos _))
  rw [rounded, roundQuotient]
  split
  · exact hquotient
  · exact hquotient.trans (Nat.le_succ _)

theorem units_unbounded :
    units (unbounded num den) = rounded num den * 2 ^ gridScale num den :=
  units_encode (rounded_le hnum hden) (le_rounded hnum hden)

theorem distance_unbounded_le_dist (j : Nat) :
    distance num den (unbounded num den)
      ≤ Nat.dist (num * 2 ^ 1074) (j * 2 ^ gridScale num den * den) := by
  rw [distance, units_unbounded hnum hden, dist_steps, dist_steps]
  exact Nat.mul_le_mul_right _ (dist_roundQuotient_le (steps_pos hden _) j)

theorem unbounded_mod_two_of_dist_eq {j : Nat} (hj : j ≠ rounded num den)
    (h : distance num den (unbounded num den)
      = Nat.dist (num * 2 ^ 1074) (j * 2 ^ gridScale num den * den)) :
    unbounded num den % 2 = 0 := by
  rw [distance, units_unbounded hnum hden, dist_steps, dist_steps] at h
  have heven : rounded num den % 2 = 0 :=
    roundQuotient_mod_two_of_dist_eq (steps_pos hden _) hj
      (Nat.eq_of_mul_eq_mul_right (Nat.two_pow_pos _) h)
  rw [unbounded, encode, Nat.shiftLeft_eq]
  omega

/-- Below the grid's scale a magnitude is less than `2 ^ 52` steps, so further off. -/
theorem dist_lt_of_scale_lt {m : Nat} (h : scale m < gridScale num den) :
    Nat.dist (num * 2 ^ 1074) (2 ^ 52 * 2 ^ gridScale num den * den) < distance num den m := by
  have hunits : units m < 2 ^ 52 * 2 ^ gridScale num den := calc
    units m < 2 ^ 53 * 2 ^ scale m :=
      Nat.mul_lt_mul_of_pos_right (significand_lt m) (Nat.two_pow_pos _)
    _ = 2 ^ 52 * 2 ^ (scale m + 1) := by
      rw [← Nat.pow_add, ← Nat.pow_add, Nat.add_comm (scale m), ← Nat.add_assoc]
    _ ≤ 2 ^ 52 * 2 ^ gridScale num den :=
      Nat.mul_le_mul_left _ (Nat.pow_le_pow_right (by decide) h)
  have hlt := Nat.mul_lt_mul_of_pos_right hunits hden
  have hle := le_of_gridScale_pos hnum hden (Nat.zero_lt_of_lt h)
  rw [distance, Nat.dist_eq_sub_of_le_right hle, Nat.dist_eq_sub_of_le_right (hlt.le.trans hle)]
  omega

/-- **No magnitude is nearer than the rounding on the grid.** -/
theorem distance_unbounded_le (m : Nat) :
    distance num den (unbounded num den) ≤ distance num den m := by
  rcases Nat.lt_or_ge (scale m) (gridScale num den) with hlt | hge
  · exact (distance_unbounded_le_dist hnum hden _).trans (dist_lt_of_scale_lt hnum hden hlt).le
  · rw [distance_eq_dist hge]
    exact distance_unbounded_le_dist hnum hden _

theorem unbounded_mod_two {m : Nat} (hm : m ≠ unbounded num den)
    (h : distance num den (unbounded num den) = distance num den m) :
    unbounded num den % 2 = 0 := by
  rcases Nat.lt_or_ge (scale m) (gridScale num den) with hlt | hge
  · have hfar := (distance_unbounded_le_dist hnum hden _).trans_lt
      (dist_lt_of_scale_lt hnum hden hlt)
    omega
  · rw [distance_eq_dist hge] at h
    refine unbounded_mod_two_of_dist_eq hnum hden (fun hj => hm ?_) h
    apply strictMono_units.injective
    rw [units_unbounded hnum hden, ← hj, ← units_eq_steps hge]

/-- A quotient that is rounded past infinity is not less. -/
theorem units_infinity_le (h : infinity < unbounded num den) :
    units infinity * den ≤ num * 2 ^ 1074 := by
  have hnear := distance_unbounded_le hnum hden infinity
  have hunits := Nat.mul_lt_mul_of_pos_right (strictMono_units h) hden
  simp only [distance, Nat.dist] at hnear
  omega

theorem distance_infinity_le (h : infinity < unbounded num den) {m : Nat} (hm : m ≤ infinity) :
    distance num den infinity ≤ distance num den m := by
  have hle := units_infinity_le hnum hden h
  have hunits := Nat.mul_le_mul_right den (strictMono_units.monotone hm)
  rw [distance, distance, Nat.dist_eq_sub_of_le_right hle,
    Nat.dist_eq_sub_of_le_right (hunits.trans hle)]
  omega

end Grid

/-- **A quotient is rounded to its nearest magnitude.** -/
theorem isNearest_nearest (num : Nat) {den : Nat} (hden : 0 < den) :
    IsNearest num den (nearest num den) := by
  by_cases hnum : num = 0
  · have hzero : distance 0 den 0 = 0 :=
      Nat.dist_eq_zero ((Nat.zero_mul _).trans (Nat.zero_mul den).symm)
    rw [hnum, nearest, if_pos rfl]
    exact ⟨Nat.zero_le _, fun _ _ => hzero.le.trans (Nat.zero_le _), fun _ _ _ _ => rfl⟩
  rw [nearest_eq hnum]
  rcases Nat.lt_or_ge infinity (unbounded num den) with hlt | hge
  · rw [Nat.min_eq_left hlt.le]
    exact ⟨le_rfl, fun _ hm' => distance_infinity_le hnum hden hlt hm', fun _ _ _ _ => rfl⟩
  · rw [Nat.min_eq_right hge]
    exact ⟨hge, fun m' _ => distance_unbounded_le hnum hden m',
      fun _ _ hne htie => unbounded_mod_two hnum hden hne htie⟩

end Binary64

end ScriptReader
