import LispReader.Number.Fixed
import LispReader.Proofs.DecimalLiterals

namespace LispReader

open Number

namespace Number

theorem roundDiv_eq_of_near {num den n : ℕ} (hden : 0 < den) (h : |(num / den : ℚ) - n| < 1 / 2) :
    roundDiv num den = n := by
  have hround := abs_roundDiv_sub_le num hden
  have hapart : |(roundDiv num den : ℚ) - n| < 1 := by
    have hsplit := abs_sub_le (roundDiv num den : ℚ) (num / den) n
    linarith
  have hint : |(roundDiv num den : ℤ) - n| < 1 := by exact_mod_cast hapart
  have hzero := Int.abs_lt_one_iff.mp hint
  omega

namespace Binary64

theorem units_eq (x : Binary64) : x.units = gridPoint x.magnitude := by
  simp only [units, gridPoint, Nat.shiftLeft_eq, Nat.one_mul]

theorem isFinite_of_lt (negative : Bool) {num den : ℕ} (hden : 0 < den)
    (hless : (num / den : ℚ) < 2 ^ 33) : (ofQuotient negative num den).isFinite := by
  rw [isFinite_ofQuotient negative num hden]
  have hpower : (2 : ℚ) ^ 1024 = 2 ^ 54 * 2 ^ 970 := pow_add 2 54 970
  have hone : (1 : ℚ) ≤ 2 ^ 970 := one_le_pow₀ (by norm_num)
  rw [hpower]
  clear hpower
  generalize (2 : ℚ) ^ 970 = power at *
  linarith

theorem unit_le {t : ℚ} {spare significand : ℕ} (h : RoundsTo t spare significand)
    (hless : t * gridUnit < 2 ^ 33) : 2 ^ spare * gridUnit ≤ 1 / 2 ^ 20 := by
  have hsmall : (2 : ℚ) ^ 20 * (2 ^ 1054 * gridUnit) = 2 ^ 0 := by
    rw [← mul_assoc, ← pow_add]
    exact two_pow_mul_gridUnit 0
  rcases Nat.lt_or_ge 1054 spare with hmore | hfew
  · have hpower : 2 ^ 1055 * gridUnit ≤ 2 ^ spare * gridUnit :=
      mul_le_mul_of_nonneg_right (pow_le_pow_right₀ (by norm_num) hmore) gridUnit_pos.le
    have hle := mul_le_mul_of_nonneg_right (h.le.resolve_left (by omega)) gridUnit_pos.le
    rw [pow_succ] at hpower
    generalize (2 : ℚ) ^ 1054 = power at *
    linarith
  · have hpower : 2 ^ spare * gridUnit ≤ 2 ^ 1054 * gridUnit :=
      mul_le_mul_of_nonneg_right (pow_le_pow_right₀ (by norm_num) hfew) gridUnit_pos.le
    generalize (2 : ℚ) ^ 1054 = power at *
    linarith

theorem abs_units_sub_le (negative : Bool) {num den : ℕ} (hden : 0 < den)
    (hless : (num / den : ℚ) < 2 ^ 33) :
    |(ofQuotient negative num den).units * gridUnit - num / den| ≤ 1 / 2 ^ 21 := by
  obtain ⟨spare, significand, hrounds, hmagnitude⟩ :=
    exists_roundsTo_of_isFinite hden (isFinite_of_lt negative hden hless)
  have hunits : ((ofQuotient negative num den).units : ℚ) = significand * 2 ^ spare := by
    rw [units_eq, hmagnitude, hrounds.gridPoint_eq, Nat.cast_mul, Nat.cast_pow, Nat.cast_ofNat]
  have hquotient : (num / den / gridUnit : ℚ) * gridUnit = num / den :=
    div_mul_cancel₀ _ gridUnit_pos.ne'
  have hunit : 2 ^ spare * gridUnit ≤ 1 / 2 ^ 20 := unit_le hrounds (by rwa [hquotient])
  calc |(ofQuotient negative num den).units * gridUnit - num / den|
      = |significand * 2 ^ spare - num / den / gridUnit| * gridUnit := by
        rw [hunits, ← hquotient, ← sub_mul, abs_mul, abs_of_pos gridUnit_pos, hquotient]
    _ ≤ 2 ^ spare / 2 * gridUnit := mul_le_mul_of_nonneg_right hrounds.error_le gridUnit_pos.le
    _ ≤ 1 / 2 ^ 21 := by linarith

theorem roundDiv_units {x : Binary64} {q : ℚ} {n : ℕ}
    (herror : |x.units * gridUnit - q| ≤ 1 / 2 ^ 21) (hn : (n : ℚ) = q * 10 ^ 6) :
    roundDiv (x.units * 10 ^ 6) (1 <<< 1074) = n := by
  have hpos : 0 < 1 <<< 1074 := by
    rw [Nat.one_shiftLeft]
    exact Nat.two_pow_pos 1074
  apply roundDiv_eq_of_near hpos
  have hscaled : ((x.units * 10 ^ 6 : ℕ) : ℚ) / (1 <<< 1074 : ℕ) - n =
      (x.units * gridUnit - q) * 10 ^ 6 := by
    rw [cast_shiftLeft, hn, Nat.cast_one, one_div, div_inv_eq_mul]
    push_cast
    ring
  have hplaces : (0 : ℚ) < 10 ^ 6 := by positivity
  rw [hscaled, abs_mul, abs_of_pos hplaces]
  calc |x.units * gridUnit - q| * 10 ^ 6 ≤ 1 / 2 ^ 21 * 10 ^ 6 := by gcongr
    _ < 1 / 2 := by norm_num

theorem pointed_denoted {whole fraction : List Char} (hwhole : ∀ c ∈ whole, c.isDigit)
    (hfraction : IsDigits fraction) :
    pointed fraction.length (denoted (whole ++ fraction)) =
      withoutLeadingZeros whole ++ '.' :: fraction := by
  have hless := denoted_lt hfraction.2
  have hpos : 0 < 10 ^ fraction.length := Nat.pow_pos (by decide)
  have hdiv : (denoted whole * 10 ^ fraction.length + denoted fraction) / 10 ^ fraction.length =
      denoted whole := by
    rw [Nat.add_comm, Nat.add_mul_div_right _ _ hpos, Nat.div_eq_of_lt hless, Nat.zero_add]
  have hmod : (denoted whole * 10 ^ fraction.length + denoted fraction) % 10 ^ fraction.length =
      denoted fraction := by
    rw [Nat.add_comm, Nat.add_mul_mod_self_right, Nat.mod_eq_of_lt hless]
  rw [pointed, Nat.pow_eq, denoted_append_digits whole hfraction.2, hdiv, hmod,
    toDigits_denoted hwhole, toDigits_denoted hfraction.2, leftpad_withoutLeadingZeros hfraction.1]

/-- A quotient that six decimal places are enough for is shown exactly, although the number that is
nearest to it may be another one. -/
theorem fixed_ofQuotient (negative : Bool) {num den n : ℕ} (hden : 0 < den)
    (hless : (num / den : ℚ) < 2 ^ 33) (hn : (n : ℚ) = num / den * 10 ^ 6) :
    (ofQuotient negative num den).fixed 6 =
      String.ofList ((if negative then ['-'] else []) ++ pointed 6 n) := by
  have hfinite : (ofQuotient negative num den).magnitude < infinite :=
    of_decide_eq_true (isFinite_of_lt negative hden hless)
  have hround := roundDiv_units (abs_units_sub_le negative hden hless) hn
  rw [fixed, if_neg (Nat.lt_asymm hfinite), if_neg hfinite.ne, Nat.pow_eq, hround,
    String.ofList_append]
  cases negative <;> rfl

end Binary64

end Number

namespace DecimalLiteral

variable (literal : DecimalLiteral)

def shown : List Char :=
  literal.sign ++ (withoutLeadingZeros (literal.whole.filter (· ≠ '_')) ++
    '.' :: (literal.fraction.filter (· ≠ '_')).rightpad 6 '0')

theorem fixed_eq (hplaces : literal.places ≤ 6) (hless : |literal.value| < 2 ^ 33) :
    literal.decimal.toBinary64.fixed 6 = String.ofList literal.shown := by
  obtain ⟨hwhole, hfraction⟩ := List.forall_mem_append.mp literal.isDigits.2
  have hlength : (literal.decimal.fraction.rightpad 6 '0').length = 6 := by
    rw [List.rightpad, List.length_append, List.length_replicate, length_fraction]
    omega
  have hpadded : IsDigits (literal.decimal.fraction.rightpad 6 '0') := by
    refine ⟨List.ne_nil_of_length_eq_add_one hlength, ?_⟩
    refine List.forall_mem_append.mpr ⟨hfraction, fun c hc => ?_⟩
    rw [List.eq_of_mem_replicate hc]
    rfl
  have hshown := Binary64.pointed_denoted hwhole hpadded
  rw [hlength] at hshown
  have hn : (denoted (literal.decimal.whole ++ literal.decimal.fraction.rightpad 6 '0') : ℚ) =
      denoted (literal.whole ++ literal.fraction) / (10 ^ literal.places : ℕ) * 10 ^ 6 := by
    have hpower : (10 : ℚ) ^ 6 = 10 ^ literal.places * 10 ^ (6 - literal.places) := by
      rw [← pow_add, Nat.add_sub_of_le hplaces]
    have hdigits : literal.decimal.whole ++ literal.decimal.fraction = literal.decimal.digits := rfl
    rw [List.rightpad, ← List.append_assoc, hdigits, denoted_append_zeros, denoted_digits,
      length_fraction, hpower]
    push_cast
    field_simp
  rw [abs_value] at hless
  rw [toBinary64_eq, Binary64.fixed_ofQuotient _ (Nat.pow_pos (by decide)) hless hn, hshown]
  rfl

end DecimalLiteral

/-- A decimal literal below `2 ^ 33` with no more than six digits behind the point is shown with the
sign and the digits that are written. -/
theorem short_decimals_keep_digits (literal : DecimalLiteral) (file : String)
    (hplaces : literal.places ≤ 6) (hless : |literal.value| < 2 ^ 33) :
    ∃ tokens number, tokenize (String.ofList literal.text) file = .ok tokens ∧
      parse tokens file = .ok (.ofLeaf (.number number) 1) ∧
      (Arena.ofLeaf (.number number) 1).describe 0 =
        .ok ("Number: " ++ String.ofList literal.shown) := by
  have hfinite : literal.decimal.toBinary64.isFinite := by
    rw [literal.toBinary64_eq]
    rw [literal.abs_value] at hless
    exact Binary64.isFinite_of_lt _ (Nat.pow_pos (by decide)) hless
  refine ⟨_, literal.decimal.toBinary64, tokenize_literal literal.isLiteral file, ?_, ?_⟩
  · rw [literal.parse_eq, if_pos hfinite]
  · rw [Arena.describe_ofLeaf, Leaf.describe, literal.fixed_eq hplaces hless]

def minusSevenAndAQuarter : DecimalLiteral where
  negative := true
  whole := ['0', '0', '_', '7']
  whole_grouped :=
    @IsGrouped.underscore ['0', '0'] ['7'] ⟨by decide, by simp⟩ (.digits ⟨by decide, by simp⟩)
  fraction := ['2', '5']
  fraction_grouped := .digits ⟨by decide, by simp⟩

theorem minus_seven_and_a_quarter_keeps_digits :
    minusSevenAndAQuarter.places ≤ 6 ∧ |minusSevenAndAQuarter.value| < 2 ^ 33 ∧
      ∃ tokens number, tokenize "-00_7.25" "numbers.lisp" = .ok tokens ∧
        parse tokens "numbers.lisp" = .ok (.ofLeaf (.number number) 1) ∧
        (Arena.ofLeaf (.number number) 1).describe 0 = .ok "Number: -7.250000" := by
  have hplaces : minusSevenAndAQuarter.places ≤ 6 := by decide
  have hless : |minusSevenAndAQuarter.value| < 2 ^ 33 := by
    have hwhole : denoted ['0', '0', '_', '7'] = 7 := by decide
    have hfraction : denoted ['2', '5'] = 25 := by decide
    have htwo : minusSevenAndAQuarter.places = 2 := by decide
    rw [DecimalLiteral.value, htwo]
    simp only [minusSevenAndAQuarter, hwhole, hfraction]
    norm_num
  exact ⟨hplaces, hless,
    short_decimals_keep_digits minusSevenAndAQuarter "numbers.lisp" hplaces hless⟩

end LispReader
