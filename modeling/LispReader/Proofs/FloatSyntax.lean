import LispReader.Number.Decimal
import LispReader.Proofs.IntegerLiterals

namespace LispReader

namespace Number

inductive Sign : List Char → Bool → Prop
  | none : Sign [] false
  | plus : Sign ['+'] false
  | minus : Sign ['-'] true

inductive Mantissa : List Char → List Char → List Char → Prop
  | whole {whole : List Char} (hdigits : IsDigits whole) : Mantissa whole whole []
  | point {whole fraction : List Char} (hdigits : IsDigits (whole ++ fraction)) :
      Mantissa (whole ++ '.' :: fraction) whole fraction

inductive Exponent : List Char → ℤ → Prop
  | none : Exponent [] 0
  | mark {mark : Char} {text : List Char} {value : ℤ} (hmark : mark = 'e' ∨ mark = 'E')
      (htext : DenotesInteger text value) : Exponent (mark :: text) value

/-- The syntax of floating-point numbers, without the names of what is no finite number. -/
inductive FloatText : List Char → Decimal → Prop
  | intro {sign mantissa whole fraction exponent : List Char} {negative : Bool} {power : ℤ}
      (hsign : Sign sign negative) (hmantissa : Mantissa mantissa whole fraction)
      (hexponent : Exponent exponent power) :
      FloatText (sign ++ (mantissa ++ exponent)) ⟨negative, whole, fraction, power⟩

theorem exists_sign {text unsigned : List Char} {negative : Bool}
    (h : splitSign text = (negative, unsigned)) :
    ∃ sign, Sign sign negative ∧ text = sign ++ unsigned := by
  rcases splitSign_cases h with ⟨rfl, rfl⟩ | ⟨rfl, rfl⟩ | ⟨rfl, rfl⟩
  · exact ⟨_, .minus, rfl⟩
  · exact ⟨_, .plus, rfl⟩
  · exact ⟨_, .none, rfl⟩

theorem Sign.split {sign unsigned : List Char} {negative : Bool} (h : Sign sign negative)
    (hunsigned : splitSign unsigned = (false, unsigned)) :
    splitSign (sign ++ unsigned) = (negative, unsigned) := by
  cases h with
  | none => exact hunsigned
  | plus => rfl
  | minus => rfl

theorem exponent?_eq_some_iff {text : List Char} {power : ℤ} :
    Decimal.exponent? text = some power ↔ Exponent text power := by
  cases text with
  | nil =>
      constructor
      · intro h
        obtain rfl := Option.some.inj h
        exact .none
      · rintro ⟨⟩
        rfl
  | cons mark text =>
      rw [Decimal.exponent?]
      constructor
      · intro h
        split at h
        · next hmark => exact .mark hmark (signed?_eq_some_iff.mp h)
        · contradiction
      · rintro (_ | ⟨hmark, htext⟩)
        rw [if_pos hmark]
        exact signed?_eq_some_iff.mpr htext

theorem Exponent.ends {text : List Char} {power : ℤ} (h : Exponent text power) :
    Ends Char.isDigit text := by
  cases h with
  | none => simp [Ends]
  | mark hmark _ => rcases hmark with rfl | rfl <;> exact ends_cons _ rfl

theorem Exponent.splitFraction {text : List Char} {power : ℤ} (h : Exponent text power) :
    Decimal.splitFraction text = ([], text) := by
  cases h with
  | none => rfl
  | mark hmark _ => rcases hmark with rfl | rfl <;> rfl

namespace Mantissa

variable {mantissa whole fraction : List Char}

theorem isDigits (h : Mantissa mantissa whole fraction) : IsDigits (whole ++ fraction) := by
  cases h with
  | whole hdigits => rwa [List.append_nil]
  | point hdigits => exact hdigits

theorem splitSign_append (h : Mantissa mantissa whole fraction) (rest : List Char) :
    splitSign (mantissa ++ rest) = (false, mantissa ++ rest) := by
  cases h with
  | whole hdigits =>
      obtain ⟨c, digits, rfl⟩ := List.exists_cons_of_ne_nil hdigits.1
      exact splitSign_of_isDigit _ (hdigits.2 c List.mem_cons_self)
  | point hdigits =>
      cases whole with
      | nil => rfl
      | cons c whole => exact splitSign_of_isDigit _ (hdigits.2 c List.mem_cons_self)

theorem takeWhile_append {exponent : List Char} (h : Mantissa mantissa whole fraction)
    (hend : Ends Char.isDigit exponent) :
    (mantissa ++ exponent).takeWhile Char.isDigit = whole := by
  have hwhole := (List.forall_mem_append.mp h.isDigits.2).1
  cases h with
  | whole => exact takeWhile_of_ends hwhole hend
  | point =>
      rw [List.append_assoc]
      exact takeWhile_of_ends hwhole (ends_cons _ rfl)

theorem splitFraction_append {exponent : List Char} {power : ℤ}
    (h : Mantissa mantissa whole fraction) (hexponent : Exponent exponent power) :
    Decimal.splitFraction ((mantissa ++ exponent).dropWhile Char.isDigit) =
      (fraction, exponent) := by
  obtain ⟨hwhole, hfraction⟩ := List.forall_mem_append.mp h.isDigits.2
  cases h with
  | whole =>
      rw [dropWhile_of_ends hwhole hexponent.ends]
      exact hexponent.splitFraction
  | point =>
      rw [List.append_assoc, List.cons_append, dropWhile_of_ends hwhole (ends_cons _ rfl),
        Decimal.splitFraction, takeWhile_of_ends hfraction hexponent.ends,
        dropWhile_of_ends hfraction hexponent.ends]

theorem exists_of_split {text exponent : List Char}
    (h : Decimal.splitFraction (text.dropWhile Char.isDigit) = (fraction, exponent))
    (hne : text.takeWhile Char.isDigit ++ fraction ≠ []) :
    ∃ mantissa, Mantissa mantissa (text.takeWhile Char.isDigit) fraction ∧
      text = mantissa ++ exponent := by
  have hdigits (text : List Char) : ∀ c ∈ text.takeWhile Char.isDigit, c.isDigit :=
    fun _ hc => List.mem_takeWhile_imp hc
  have htext := List.takeWhile_append_dropWhile (p := Char.isDigit) (l := text)
  unfold Decimal.splitFraction at h
  split at h
  · next rest hrest =>
      obtain ⟨rfl, rfl⟩ := Prod.mk.inj h
      refine ⟨_, .point ⟨hne, List.forall_mem_append.mpr ⟨hdigits text, hdigits rest⟩⟩, ?_⟩
      rw [List.append_assoc, List.cons_append, List.takeWhile_append_dropWhile, ← hrest, htext]
  · obtain ⟨rfl, rfl⟩ := Prod.mk.inj h
    rw [List.append_nil] at hne
    exact ⟨_, .whole ⟨hne, hdigits text⟩, htext.symm⟩

end Mantissa

theorem ofText?_eq_some_iff {text : List Char} {decimal : Decimal} :
    Decimal.ofText? text = some decimal ↔ FloatText text decimal := by
  constructor
  · intro h
    rcases hsplit : splitSign text with ⟨negative, unsigned⟩
    rcases hfraction : Decimal.splitFraction (unsigned.dropWhile Char.isDigit) with
      ⟨fraction, exponent⟩
    rw [Decimal.ofText?, hsplit] at h
    simp only [hfraction] at h
    split at h
    · contradiction
    · next hne =>
        obtain ⟨power, hpower, rfl⟩ := Option.map_eq_some_iff.mp h
        obtain ⟨sign, hsign, rfl⟩ := exists_sign hsplit
        obtain ⟨mantissa, hmantissa, htext⟩ := Mantissa.exists_of_split hfraction hne
        have hintro := FloatText.intro hsign hmantissa (exponent?_eq_some_iff.mp hpower)
        rwa [← htext] at hintro
  · rintro ⟨hsign, hmantissa, hexponent⟩
    rw [Decimal.ofText?, hsign.split (hmantissa.splitSign_append _)]
    simp only [hmantissa.takeWhile_append hexponent.ends, hmantissa.splitFraction_append hexponent]
    rw [if_neg hmantissa.isDigits.1, exponent?_eq_some_iff.mpr hexponent, Option.map_some]

end Number

end LispReader
