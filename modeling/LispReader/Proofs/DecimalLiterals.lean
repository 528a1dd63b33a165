import LispReader.Proofs.FloatSyntax
import LispReader.Proofs.Nearest

namespace LispReader

open Number

/-- A number as it is written in a source with digits in groups on both sides of a point. -/
structure DecimalLiteral extends IntegerLiteral where
  fraction : List Char
  fraction_grouped : IsGrouped fraction

namespace Number.Decimal

theorem toBinary64_of_exponent {decimal : Decimal} (h : decimal.exponent = 0) :
    decimal.toBinary64 =
      .ofQuotient decimal.negative (Nat.ofDigitChars 10 decimal.digits 0)
        (10 ^ decimal.fraction.length) := by
  have hscale : decimal.scale = -decimal.fraction.length := by
    rw [scale, limit, h]
    omega
  rw [toBinary64, hscale, neg_neg, Int.toNat_natCast, Int.toNat_neg_natCast, Nat.pow_eq, Nat.pow_eq,
    pow_zero, Nat.mul_one]

end Number.Decimal

namespace DecimalLiteral

variable (literal : DecimalLiteral)

def text : List Char :=
  literal.toIntegerLiteral.text ++ '.' :: literal.fraction

def places : ℕ :=
  (literal.fraction.filter Char.isDigit).length

def value : ℚ :=
  (if literal.negative then -1 else 1) *
    (denoted literal.whole + denoted literal.fraction / 10 ^ literal.places)

def decimal : Decimal :=
  ⟨literal.negative, literal.whole.filter (· ≠ '_'), literal.fraction.filter (· ≠ '_'), 0⟩

theorem text_eq : literal.text = literal.sign ++ (literal.whole ++ '.' :: literal.fraction) :=
  List.append_assoc _ _ _

theorem isLiteral : IsLiteral literal.text := by
  rw [text_eq]
  exact .decimal literal.sign_cases literal.whole_grouped literal.fraction_grouped

theorem token_kind : (literalToken literal.text).kind = .number :=
  if_pos (by simp [text])

theorem filter_text :
    literal.text.filter (· ≠ '_') =
      literal.sign ++ (literal.decimal.whole ++ '.' :: literal.decimal.fraction) := by
  rw [text_eq, List.filter_append, filter_sign literal.sign_cases, List.filter_append,
    List.filter_cons_of_pos (by simp)]
  rfl

theorem isDigits : IsDigits literal.decimal.digits := by
  have hwhole := literal.whole_grouped.filter
  exact ⟨List.append_ne_nil_of_left_ne_nil hwhole.1 _,
    List.forall_mem_append.mpr ⟨hwhole.2, literal.fraction_grouped.filter.2⟩⟩

theorem floatText : FloatText (literal.text.filter (· ≠ '_')) literal.decimal := by
  have hsign : Sign literal.sign literal.negative := by
    unfold IntegerLiteral.sign
    cases literal.negative with
    | false => exact .none
    | true => exact .minus
  rw [filter_text]
  have htext := FloatText.intro hsign (.point literal.isDigits) .none
  rwa [List.append_nil] at htext

theorem length_fraction : literal.decimal.fraction.length = literal.places := by
  have hdigits := literal.fraction_grouped.filter.2
  rw [places, ← filter_digits_filter, List.filter_eq_self.mpr hdigits]
  rfl

theorem denoted_digits :
    denoted literal.decimal.digits = denoted (literal.whole ++ literal.fraction) := by
  rw [← denoted_filter (literal.whole ++ literal.fraction), List.filter_append]
  rfl

theorem toBinary64_eq :
    literal.decimal.toBinary64 =
      .ofQuotient literal.negative (denoted (literal.whole ++ literal.fraction))
        (10 ^ literal.places) := by
  rw [Decimal.toBinary64_of_exponent rfl, length_fraction,
    ofDigitChars_eq_denoted literal.isDigits.2, denoted_digits]
  rfl

theorem value_eq :
    literal.value = (if literal.negative then -1 else 1) *
      ((denoted (literal.whole ++ literal.fraction) : ℚ) / (10 ^ literal.places : ℕ)) := by
  have hpower : ((10 ^ literal.places : ℕ) : ℚ) ≠ 0 := by positivity
  have hdenoted : denoted (literal.whole ++ literal.fraction) =
      denoted literal.whole * 10 ^ literal.places + denoted literal.fraction := denoted_append _ _
  rw [hdenoted, Nat.cast_add, Nat.cast_mul, add_div, mul_div_cancel_right₀ _ hpower, value]
  push_cast
  rfl

theorem abs_value :
    |literal.value| = denoted (literal.whole ++ literal.fraction) / (10 ^ literal.places : ℕ) := by
  have hsign : |if literal.negative then (-1 : ℚ) else 1| = 1 := by
    split <;> simp
  rw [value_eq, abs_mul, hsign, one_mul, abs_of_nonneg (by positivity)]

theorem parse_eq (file : String) :
    parse [literalToken literal.text, endToken 1] file =
      if literal.decimal.toBinary64.isFinite then
        .ok (.ofLeaf (.number literal.decimal.toBinary64) 1)
      else .error ⟨.unreadableNumber (String.ofList (literal.text.filter (· ≠ '_'))), 1, file⟩ := by
  have hread := Parse.ofNumber_agrees literal.token_kind
  have hlexeme : (literalToken literal.text).lexeme.toList = literal.text.filter (· ≠ '_') :=
    String.toList_ofList
  rw [parse_of_agrees hread, Leaf.ofNumber, hlexeme, finite?,
    ofText?_eq_some_iff.mpr literal.floatText]
  cases hfinite : literal.decimal.toBinary64.isFinite with
  | false =>
      simp only [hfinite, Bool.false_eq_true, if_false]
      rfl
  | true =>
      simp only [hfinite, if_true]
      rfl

theorem isFinite_iff :
    literal.decimal.toBinary64.isFinite ↔ |literal.value| < 2 ^ 1024 - 2 ^ 970 := by
  rw [toBinary64_eq, abs_value, Binary64.isFinite_ofQuotient _ _ (Nat.pow_pos (by decide))]

theorem sign_toBits :
    Word.sign literal.decimal.toBinary64.toBits = if literal.negative then 1 else 0 := by
  rw [toBinary64_eq, Binary64.sign_toBits]
  rfl

theorem isNearest (hfinite : literal.decimal.toBinary64.isFinite) :
    Word.IsNearest literal.decimal.toBinary64.toBits literal.value := by
  have hsign : (-1 : ℚ) ^ Word.sign literal.decimal.toBinary64.toBits =
      if literal.negative then -1 else 1 := by
    rw [sign_toBits]
    split <;> simp
  rw [value_eq, ← hsign]
  rw [toBinary64_eq] at hfinite ⊢
  exact Binary64.isNearest_ofQuotient (Nat.pow_pos (by decide)) hfinite

end DecimalLiteral

/-- A decimal literal that is all of a source is read as the nearest of all finite numbers, with the
sign that is written. It is refused just where the rounding leads beyond the finite numbers, and
then its text is reported. -/
theorem decimals_round_to_nearest (literal : DecimalLiteral) (file : String) :
    ∃ token, tokenize (String.ofList literal.text) file = .ok [token, endToken 1] ∧
      token.kind = .number ∧ (∃ decimal, FloatText token.lexeme.toList decimal) ∧
      (|literal.value| < 2 ^ 1024 - 2 ^ 970 → ∃ number : Binary64,
        parse [token, endToken 1] file = .ok (.ofLeaf (.number number) 1) ∧
        ∀ bits, bits = number.toBits ↔
          Word.IsNearest bits literal.value ∧ (Word.sign bits = 1 ↔ literal.negative)) ∧
      (¬ |literal.value| < 2 ^ 1024 - 2 ^ 970 → parse [token, endToken 1] file =
        .error ⟨.unreadableNumber (String.ofList (literal.text.filter (· ≠ '_'))), 1, file⟩) := by
  refine ⟨_, tokenize_literal literal.isLiteral file, literal.token_kind, ⟨literal.decimal, ?_⟩,
    ?_, ?_⟩
  · rw [literalToken, String.toList_ofList]
    exact literal.floatText
  · intro hless
    have hfinite := literal.isFinite_iff.mpr hless
    have hnearest := literal.isNearest hfinite
    have hsigned : Word.sign literal.decimal.toBinary64.toBits = 1 ↔ literal.negative := by
      rw [literal.sign_toBits]
      cases literal.negative <;> simp
    refine ⟨_, by rw [literal.parse_eq, if_pos hfinite], fun bits => ⟨?_, ?_⟩⟩
    · rintro rfl
      exact ⟨hnearest, hsigned⟩
    · rintro ⟨hbits, hsign⟩
      apply hnearest.unique hbits
      have hone := hsign.trans hsigned.symm
      have hother : Word.sign bits < 2 := Nat.mod_lt _ (by decide)
      have hown : Word.sign literal.decimal.toBinary64.toBits < 2 := Nat.mod_lt _ (by decide)
      omega
  · intro hgreat
    rw [literal.parse_eq, if_neg (mt literal.isFinite_iff.mp hgreat)]

end LispReader
