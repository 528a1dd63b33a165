import LispReader.Number.Rounding
import Mathlib.Algebra.Order.Field.Power
import Mathlib.Algebra.Order.Field.Rat
import Mathlib.Tactic.FieldSimp
import Mathlib.Tactic.Linarith
import Mathlib.Tactic.NormNum
import Mathlib.Tactic.Positivity
import Mathlib.Tactic.Ring

namespace LispReader.Number

/-- The numbers of one sign in their order, zero first, each as a multiple of `2 ^ -1074`. The grid
goes on beyond the greatest finite number. -/
def gridPoint (magnitude : ℕ) : ℕ :=
  if magnitude / 2 ^ 52 = 0 then magnitude % 2 ^ 52
  else (2 ^ 52 + magnitude % 2 ^ 52) * 2 ^ (magnitude / 2 ^ 52 - 1)

/-- A significand of 53 bits with so many bits more to spare is what `t` rounds to, of two that are
equally near the even one. Only where no bit is to spare the leading bits may be zeros. -/
structure RoundsTo (t : ℚ) (spare significand : ℕ) : Prop where
  lt : t < 2 ^ 53 * 2 ^ spare
  le : spare = 0 ∨ 2 ^ 52 * 2 ^ spare ≤ t
  near : |significand - t / 2 ^ spare| ≤ 1 / 2
  even : |significand - t / 2 ^ spare| = 1 / 2 → significand % 2 = 0

theorem roundDiv_even_of_tie {num den : ℕ} (hden : 0 < den)
    (h : 2 * num = 2 * (roundDiv num den * den) + den ∨
      2 * (roundDiv num den * den) = 2 * num + den) : roundDiv num den % 2 = 0 := by
  have hlow := Nat.div_add_mod' num den
  have hlt := Nat.mod_lt num hden
  obtain ⟨hcases, heven⟩ := roundDiv_cases num den
  apply heven
  rcases hcases with ⟨hround, hhalf⟩ | ⟨hround, hhalf⟩
  · rw [hround] at h
    omega
  · rw [hround, Nat.add_one_mul (num / den)] at h
    omega

theorem abs_roundDiv_sub_le (num : ℕ) {den : ℕ} (hden : 0 < den) :
    |(roundDiv num den : ℚ) - num / den| ≤ 1 / 2 := by
  have hpos : (0 : ℚ) < den := by exact_mod_cast hden
  have hupper : (2 * (roundDiv num den * den) : ℚ) ≤ 2 * num + den := by
    exact_mod_cast roundDiv_mul_le num den
  have hlower : (2 * num : ℚ) ≤ 2 * (roundDiv num den * den) + den := by
    exact_mod_cast le_roundDiv_mul num den hden
  rw [abs_le, le_sub_iff_add_le, sub_le_iff_le_add, ← sub_eq_neg_add, sub_le_iff_le_add]
  constructor
  · rw [div_le_iff₀ hpos]
    linarith
  · rw [← sub_le_iff_le_add', le_div_iff₀ hpos]
    linarith

theorem roundDiv_even {num den : ℕ} (hden : 0 < den)
    (h : |(roundDiv num den : ℚ) - num / den| = 1 / 2) : roundDiv num den % 2 = 0 := by
  have hpos : (0 : ℚ) < den := by exact_mod_cast hden
  apply roundDiv_even_of_tie hden
  rcases eq_or_eq_neg_of_abs_eq h with h | h
  · right
    have heq : (2 * (roundDiv num den * den) : ℚ) = 2 * num + den := by
      field_simp at h
      linarith
    exact_mod_cast heq
  · left
    have heq : (2 * num : ℚ) = 2 * (roundDiv num den * den) + den := by
      field_simp at h
      linarith
    exact_mod_cast heq

theorem roundsTo_roundDiv {num den spare : ℕ} (hden : 0 < den)
    (hlt : num < den * 2 ^ (53 + spare)) (hle : spare = 0 ∨ den * 2 ^ (52 + spare) ≤ num) :
    RoundsTo (num / den) spare (roundDiv num (den * 2 ^ spare)) := by
  have hpos : (0 : ℚ) < den := by exact_mod_cast hden
  have hunit : 0 < den * 2 ^ spare := Nat.mul_pos hden (Nat.two_pow_pos spare)
  have hquotient : (num / den / 2 ^ spare : ℚ) = num / (den * 2 ^ spare : ℕ) := by
    rw [Nat.cast_mul, Nat.cast_pow, Nat.cast_ofNat, div_div]
  constructor
  · rw [div_lt_iff₀' hpos, ← pow_add]
    exact_mod_cast hlt
  · refine hle.imp_right fun hle => ?_
    rw [le_div_iff₀' hpos, ← pow_add]
    exact_mod_cast hle
  · rw [hquotient]
    exact abs_roundDiv_sub_le num hunit
  · rw [hquotient]
    exact roundDiv_even hunit

theorem gridPoint_cases (spare magnitude : ℕ) :
    (∃ count, gridPoint magnitude = count * 2 ^ spare) ∨
      0 < spare ∧ gridPoint magnitude < 2 ^ 52 * 2 ^ spare := by
  have hfraction : magnitude % 2 ^ 52 < 2 ^ 52 := Nat.mod_lt _ (by decide)
  unfold gridPoint
  split
  · rcases Nat.eq_zero_or_pos spare with rfl | hspare
    · exact .inl ⟨magnitude % 2 ^ 52, by rw [Nat.pow_zero, Nat.mul_one]⟩
    · refine .inr ⟨hspare, hfraction.trans_le ?_⟩
      exact Nat.le_mul_of_pos_right _ (Nat.two_pow_pos spare)
  · rcases Nat.lt_or_ge (magnitude / 2 ^ 52 - 1) spare with hless | hmore
    · refine .inr ⟨Nat.zero_lt_of_lt hless, ?_⟩
      calc (2 ^ 52 + magnitude % 2 ^ 52) * 2 ^ (magnitude / 2 ^ 52 - 1)
          < 2 ^ 53 * 2 ^ (magnitude / 2 ^ 52 - 1) :=
            Nat.mul_lt_mul_of_pos_right (by omega) (Nat.two_pow_pos _)
        _ = 2 ^ 52 * 2 ^ (magnitude / 2 ^ 52 - 1 + 1) := by ring
        _ ≤ 2 ^ 52 * 2 ^ spare := Nat.mul_le_mul_left _ (Nat.pow_le_pow_right (by decide) hless)
    · refine .inl ⟨(2 ^ 52 + magnitude % 2 ^ 52) * 2 ^ (magnitude / 2 ^ 52 - 1 - spare), ?_⟩
      rw [Nat.mul_assoc, ← Nat.pow_add, Nat.sub_add_cancel hmore]

/-- A significand with so many bits to spare is at the place where the count of these bits is the
exponent less one. A carry out of the significand leads to the next exponent. -/
theorem gridPoint_add {spare significand : ℕ} (hsignificand : significand ≤ 2 ^ 53)
    (hleading : spare = 0 ∨ 2 ^ 52 ≤ significand) :
    gridPoint (spare * 2 ^ 52 + significand) = significand * 2 ^ spare := by
  have hdiv : (spare * 2 ^ 52 + significand) / 2 ^ 52 = spare + significand / 2 ^ 52 := by omega
  have hmod : (spare * 2 ^ 52 + significand) % 2 ^ 52 = significand % 2 ^ 52 := by omega
  rw [gridPoint, hdiv, hmod]
  rcases Nat.lt_or_ge significand (2 ^ 52) with hsmall | hlarge
  · obtain rfl : spare = 0 := hleading.resolve_right (Nat.not_le_of_lt hsmall)
    rw [Nat.div_eq_of_lt hsmall, Nat.mod_eq_of_lt hsmall]
    simp
  · rcases Nat.lt_or_ge significand (2 ^ 53) with hfits | hcarry
    · have hone : significand / 2 ^ 52 = 1 := by omega
      have hrest : 2 ^ 52 + significand % 2 ^ 52 = significand := by omega
      rw [hone, hrest]
      simp
    · obtain rfl : significand = 2 ^ 53 := Nat.le_antisymm hsignificand hcarry
      have htwo : 2 ^ 53 / 2 ^ 52 = 2 := by decide
      have hnone : 2 ^ 53 % 2 ^ 52 = 0 := by decide
      rw [htwo, hnone, if_neg (by omega), Nat.add_zero]
      have hexponent : spare + 2 - 1 = spare + 1 := by omega
      rw [hexponent]
      ring

namespace RoundsTo

variable {t : ℚ} {spare significand : ℕ}

theorem abs_mul_sub (count : ℕ) (t : ℚ) (spare : ℕ) :
    |count * 2 ^ spare - t| = |count - t / 2 ^ spare| * 2 ^ spare := by
  have hunit : (0 : ℚ) < 2 ^ spare := by positivity
  have hscaled : count * 2 ^ spare - t = (count - t / 2 ^ spare) * 2 ^ spare := by
    field_simp
  rw [hscaled, abs_mul, abs_of_pos hunit]

theorem error_le (h : RoundsTo t spare significand) :
    |significand * 2 ^ spare - t| ≤ 2 ^ spare / 2 := by
  have hunit : (0 : ℚ) < 2 ^ spare := by positivity
  rw [abs_mul_sub]
  calc |significand - t / 2 ^ spare| * 2 ^ spare ≤ 1 / 2 * 2 ^ spare :=
        mul_le_mul_of_nonneg_right h.near hunit.le
    _ = 2 ^ spare / 2 := by ring

theorem significand_le (h : RoundsTo t spare significand) : significand ≤ 2 ^ 53 := by
  have hquotient : t / 2 ^ spare < 2 ^ 53 := (div_lt_iff₀ (by positivity)).mpr h.lt
  have hnear := (abs_le.mp h.near).2
  have hless : (significand : ℚ) < 2 ^ 53 + 1 := by linarith
  exact Nat.le_of_lt_succ (by exact_mod_cast hless)

theorem leading (h : RoundsTo t spare significand) : spare = 0 ∨ 2 ^ 52 ≤ significand := by
  refine h.le.imp_right fun hle => ?_
  have hquotient : 2 ^ 52 ≤ t / 2 ^ spare := (le_div_iff₀ (by positivity)).mpr hle
  have hnear := (abs_le.mp h.near).1
  have hless : (2 ^ 52 : ℚ) < significand + 1 := by linarith
  exact Nat.le_of_lt_succ (by exact_mod_cast hless)

theorem gridPoint_eq (h : RoundsTo t spare significand) :
    gridPoint (spare * 2 ^ 52 + significand) = significand * 2 ^ spare :=
  gridPoint_add h.significand_le h.leading

theorem half_le {count : ℕ} (h : RoundsTo t spare significand) (hne : count ≠ significand) :
    1 / 2 ≤ |count - t / 2 ^ spare| := by
  have hapart : (1 : ℚ) ≤ |(count : ℚ) - significand| := by
    have hint : (1 : ℤ) ≤ |(count : ℤ) - significand| :=
      Int.one_le_abs (sub_ne_zero.mpr (Nat.cast_injective.ne hne))
    exact_mod_cast hint
  have hsplit := abs_sub_le (count : ℚ) (t / 2 ^ spare) significand
  rw [abs_sub_comm (t / 2 ^ spare)] at hsplit
  have hnear := h.near
  linarith

theorem le_count (h : RoundsTo t spare significand) (count : ℕ) :
    |significand * 2 ^ spare - t| ≤ |count * 2 ^ spare - t| := by
  by_cases hsame : count = significand
  · rw [hsame]
  · rw [abs_mul_sub, abs_mul_sub]
    exact mul_le_mul_of_nonneg_right (h.near.trans (h.half_le hsame)) (by positivity)

theorem even_of_tie {count : ℕ} (h : RoundsTo t spare significand) (hne : count ≠ significand)
    (htie : |count * 2 ^ spare - t| = |significand * 2 ^ spare - t|) : significand % 2 = 0 := by
  have hunit : (2 ^ spare : ℚ) ≠ 0 := by positivity
  rw [abs_mul_sub, abs_mul_sub] at htie
  have hhalf := h.half_le hne
  rw [mul_right_cancel₀ hunit htie] at hhalf
  exact h.even (le_antisymm h.near hhalf)

theorem nearest (h : RoundsTo t spare significand) (magnitude : ℕ) :
    |(gridPoint (spare * 2 ^ 52 + significand) : ℚ) - t| ≤ |gridPoint magnitude - t| ∧
      (gridPoint magnitude ≠ gridPoint (spare * 2 ^ 52 + significand) →
        |(gridPoint magnitude : ℚ) - t| = |gridPoint (spare * 2 ^ 52 + significand) - t| →
        (spare * 2 ^ 52 + significand) % 2 = 0) := by
  rw [h.gridPoint_eq]
  rcases gridPoint_cases spare magnitude with ⟨count, hcount⟩ | ⟨hspare, hbelow⟩
  · rw [hcount]
    push_cast
    refine ⟨h.le_count count, fun hne htie => ?_⟩
    have heven := h.even_of_tie (fun hsame => hne (by rw [hsame])) htie
    omega
  · -- the point lies below the first whole number of units, and that is not above `t`
    have hle := h.le.resolve_left hspare.ne'
    have hpoint : (gridPoint magnitude : ℚ) < 2 ^ 52 * 2 ^ spare := by exact_mod_cast hbelow
    have hfirst := h.le_count (2 ^ 52)
    have hfarther : |significand * 2 ^ spare - t| < |gridPoint magnitude - t| := by
      rw [Nat.cast_pow, Nat.cast_ofNat, abs_of_nonpos (sub_nonpos.mpr hle)] at hfirst
      have hdistance : |gridPoint magnitude - t| = t - gridPoint magnitude := by
        rw [abs_of_neg (by linarith), neg_sub]
      linarith
    push_cast
    exact ⟨hfarther.le, fun _ htie => absurd htie hfarther.ne'⟩

theorem significand_lt_iff (h : RoundsTo t spare significand) :
    significand < 2 ^ 53 ↔ t / 2 ^ spare < 2 ^ 53 - 1 / 2 := by
  have heven := h.even
  obtain ⟨hlower, hupper⟩ := abs_le.mp h.near
  generalize t / (2 : ℚ) ^ spare = quotient at *
  constructor
  · intro hless
    have hfits : (significand : ℚ) + 1 ≤ 2 ^ 53 := by exact_mod_cast hless
    refine lt_of_le_of_ne (by linarith) fun hmiddle => ?_
    have hodd : (significand : ℚ) + 1 = 2 ^ 53 := by linarith
    have hlast := heven (by rw [hmiddle, eq_sub_of_add_eq hodd]; norm_num)
    have hnat : significand + 1 = 2 ^ 53 := by exact_mod_cast hodd
    omega
  · intro hlt
    have hless : (significand : ℚ) < 2 ^ 53 := by linarith
    exact_mod_cast hless

/-- The result is within the finite numbers just if `t` is less than the middle between the greatest
of them and the next grid point. -/
theorem lt_infinite_iff (h : RoundsTo t spare significand) :
    spare * 2 ^ 52 + significand < 2047 * 2 ^ 52 ↔ t < (2 ^ 54 - 1) * 2 ^ 2044 := by
  have hunit : (0 : ℚ) < 2 ^ 2044 := by positivity
  have hmost := h.significand_le
  rcases Nat.lt_trichotomy spare 2045 with hless | rfl | hmore
  · have hpow : (2 : ℚ) ^ spare ≤ 2 ^ 2044 := pow_le_pow_right₀ (by norm_num) (by omega)
    have hlt := h.lt
    generalize (2 : ℚ) ^ 2044 = unit at *
    exact iff_of_true (by omega) (by linarith)
  · have hplace : 2045 * 2 ^ 52 + significand < 2047 * 2 ^ 52 ↔ significand < 2 ^ 53 := by omega
    have htwice : (2 : ℚ) ^ 2045 = 2 * 2 ^ 2044 := pow_succ' 2 2044
    rw [hplace, h.significand_lt_iff, div_lt_iff₀ (by positivity), htwice]
    generalize (2 : ℚ) ^ 2044 = unit
    have hmiddle : (2 ^ 53 - 1 / 2) * (2 * unit) = (2 ^ 54 - 1) * unit := by ring
    rw [hmiddle]
  · have hpow : (2 : ℚ) ^ 2046 ≤ 2 ^ spare := pow_le_pow_right₀ (by norm_num) hmore
    have hfour : (2 : ℚ) ^ 2046 = 2 ^ 2 * 2 ^ 2044 := pow_add 2 2 2044
    have hle := h.le.resolve_left (by omega)
    have hleading := h.leading.resolve_left (by omega)
    rw [hfour] at hpow
    clear hfour
    generalize (2 : ℚ) ^ 2044 = unit at *
    exact iff_of_false (by omega) (by linarith)

end RoundsTo

theorem gridPoint_succ (magnitude : ℕ) :
    ∃ spare, gridPoint (magnitude + 1) = gridPoint magnitude + 2 ^ spare := by
  have hsplit := Nat.div_add_mod' magnitude (2 ^ 52)
  have hfraction : magnitude % 2 ^ 52 < 2 ^ 52 := Nat.mod_lt _ (by decide)
  -- of the normal numbers the leading bit belongs to the significand
  obtain ⟨spare, significand, hplace, hless, hleading⟩ : ∃ spare significand,
      magnitude = spare * 2 ^ 52 + significand ∧ significand < 2 ^ 53 ∧
        (spare = 0 ∨ 2 ^ 52 ≤ significand) := by
    rcases Nat.eq_zero_or_pos (magnitude / 2 ^ 52) with hzero | hpos
    · exact ⟨0, magnitude % 2 ^ 52, by omega, by omega, .inl rfl⟩
    · exact ⟨magnitude / 2 ^ 52 - 1, 2 ^ 52 + magnitude % 2 ^ 52, by omega, by omega,
        .inr (Nat.le_add_right _ _)⟩
  refine ⟨spare, ?_⟩
  rw [hplace, Nat.add_assoc, gridPoint_add hless (hleading.imp_right Nat.le_succ_of_le),
    gridPoint_add hless.le hleading, Nat.succ_mul]

theorem gridPoint_strictMono : StrictMono gridPoint := by
  apply strictMono_nat_of_lt_succ
  intro magnitude
  obtain ⟨spare, hnext⟩ := gridPoint_succ magnitude
  rw [hnext]
  exact Nat.lt_add_of_pos_right (Nat.two_pow_pos spare)

theorem roundsTo_log2 (scaled : ℕ) {den : ℕ} (hden : 0 < den) :
    RoundsTo (scaled / den) ((scaled / den).log2 - 52)
      (roundDiv scaled (den * 2 ^ ((scaled / den).log2 - 52))) := by
  have hbelow : scaled / den < 2 ^ ((scaled / den).log2 + 1) := Nat.lt_log2_self
  apply roundsTo_roundDiv hden
  · have hscaled := (Nat.div_lt_iff_lt_mul hden).mp hbelow
    rw [Nat.mul_comm] at hscaled
    exact hscaled.trans_le (Nat.mul_le_mul_left den (Nat.pow_le_pow_right (by decide) (by omega)))
  · rcases Nat.eq_zero_or_pos ((scaled / den).log2 - 52) with hzero | hpos
    · exact .inl hzero
    · have hne : scaled / den ≠ 0 := by
        intro hnone
        rw [hnone] at hpos
        exact absurd hpos (by decide)
      have hexponent : 52 + ((scaled / den).log2 - 52) = (scaled / den).log2 := by omega
      rw [hexponent, Nat.mul_comm]
      exact .inr ((Nat.le_div_iff_mul_le hden).mp (Nat.log2_self_le hne))

def gridUnit : ℚ :=
  (2 : ℚ) ^ (-1074 : ℤ)

theorem gridUnit_pos : 0 < gridUnit :=
  zpow_pos (by norm_num) _

theorem two_pow_mul_gridUnit (n : ℕ) : (2 : ℚ) ^ (n + 1074) * gridUnit = 2 ^ n := by
  rw [gridUnit, pow_add, mul_assoc, ← zpow_ofNat 2 1074, ← zpow_add₀ (by norm_num), add_neg_cancel,
    zpow_zero, mul_one]

theorem cast_shiftLeft (n : ℕ) : ((n <<< 1074 : ℕ) : ℚ) = n / gridUnit := by
  have hpower : (2 : ℚ) ^ 1074 = gridUnit⁻¹ := by
    rw [gridUnit, zpow_neg, inv_inv, zpow_ofNat]
  have hshift (places : ℕ) : ((n <<< places : ℕ) : ℚ) = n * 2 ^ places := by
    rw [Nat.shiftLeft_eq, Nat.cast_mul, Nat.cast_pow, Nat.cast_ofNat]
  rw [hshift, hpower, div_eq_mul_inv]

end LispReader.Number
