import LispReader.Number.Digits
import LispReader.Proofs.Digits

namespace LispReader

/-- An optional sign and digits, with the integer that they denote. -/
inductive DenotesInteger : List Char → ℤ → Prop
  | unsigned {digits : List Char} (hdigits : IsDigits digits) :
      DenotesInteger digits (denoted digits)
  | plus {digits : List Char} (hdigits : IsDigits digits) :
      DenotesInteger ('+' :: digits) (denoted digits)
  | minus {digits : List Char} (hdigits : IsDigits digits) :
      DenotesInteger ('-' :: digits) (-denoted digits)

def FitsInt64 (value : ℤ) : Prop :=
  -2 ^ 63 ≤ value ∧ value ≤ 2 ^ 63 - 1

namespace Number

theorem isDigit_of_mem_toDigits {n : Nat} {c : Char} (hc : c ∈ Nat.toDigits 10 n) : c.isDigit :=
  Nat.isDigit_of_mem_toDigits (by decide) (by decide) hc

theorem toList_toString (value : Int) :
    (toString value).toList =
      (if 0 ≤ value then [] else ['-']) ++ Nat.toDigits 10 value.natAbs := by
  rw [Int.toString_eq_repr, Int.repr_eq_if]
  split
  · next h =>
      rw [Nat.toList_repr, List.nil_append]
      congr 1
      omega
  · next h =>
      rw [String.toList_append, Nat.toList_repr]
      congr 2
      omega

theorem splitSign_of_isDigit {c : Char} (rest : List Char) (hc : c.isDigit) :
    splitSign (c :: rest) = (false, c :: rest) := by
  have hne (d : Char) (hd : d.isDigit = false) : c ≠ d := by
    rintro rfl
    simp [hd] at hc
  rw [splitSign]
  · intro tail h
    exact hne '-' (by decide) (List.cons.inj h).1
  · intro tail h
    exact hne '+' (by decide) (List.cons.inj h).1

theorem splitSign_digits {digits : List Char} (hdigits : ∀ c ∈ digits, c.isDigit) :
    splitSign digits = (false, digits) := by
  cases digits with
  | nil => rfl
  | cons c digits => exact splitSign_of_isDigit digits (hdigits c List.mem_cons_self)

theorem ofDigits?_eq_some_iff {digits : List Char} {n : ℕ} :
    ofDigits? digits = some n ↔ IsDigits digits ∧ denoted digits = n := by
  have hall : (digits ≠ [] ∧ digits.all Char.isDigit) ↔ IsDigits digits := by
    simp [IsDigits]
  unfold ofDigits?
  by_cases h : IsDigits digits
  · rw [if_pos (hall.mpr h), ofDigitChars_eq_denoted h.2]
    simp [h]
  · rw [if_neg (mt hall.mp h)]
    simp [h]

theorem splitSign_cases {text digits : List Char} {negative : Bool}
    (h : splitSign text = (negative, digits)) :
    text = '-' :: digits ∧ negative = true ∨ text = '+' :: digits ∧ negative = false ∨
      text = digits ∧ negative = false := by
  unfold splitSign at h
  split at h <;> obtain ⟨rfl, rfl⟩ := Prod.mk.inj h <;> simp

theorem signed?_eq_some_iff {text : List Char} {value : ℤ} :
    signed? text = some value ↔ DenotesInteger text value := by
  have hread {negative : Bool} {digits : List Char} (h : splitSign text = (negative, digits)) :
      signed? text = some value ↔
        IsDigits digits ∧ withSign negative (denoted digits) = value := by
    rw [signed?, h, Option.map_eq_some_iff]
    simp [ofDigits?_eq_some_iff]
  constructor
  · rcases hsplit : splitSign text with ⟨negative, digits⟩
    rw [hread hsplit]
    rintro ⟨hdigits, rfl⟩
    rcases splitSign_cases hsplit with ⟨rfl, rfl⟩ | ⟨rfl, rfl⟩ | ⟨rfl, rfl⟩
    · exact .minus hdigits
    · exact .plus hdigits
    · exact .unsigned hdigits
  · intro h
    cases h with
    | unsigned hdigits => exact (hread (splitSign_digits hdigits.2)).mpr ⟨hdigits, rfl⟩
    | plus hdigits => exact (hread rfl).mpr ⟨hdigits, rfl⟩
    | minus hdigits => exact (hread rfl).mpr ⟨hdigits, rfl⟩

theorem denotesInteger_unique {text : List Char} {value other : ℤ} (h : DenotesInteger text value)
    (hother : DenotesInteger text other) : value = other :=
  Option.some.inj ((signed?_eq_some_iff.mpr h).symm.trans (signed?_eq_some_iff.mpr hother))

theorem toInt_limits (value : ℤ) :
    (Int64.minValue.toInt ≤ value ∧ value ≤ Int64.maxValue.toInt) ↔ FitsInt64 value := by
  have hlimits : Int64.minValue.toInt = -2 ^ 63 ∧ Int64.maxValue.toInt = 2 ^ 63 - 1 := by decide
  rw [hlimits.1, hlimits.2, FitsInt64]

theorem integer?_of_fits {text : List Char} {value : ℤ} (h : DenotesInteger text value)
    (hfits : FitsInt64 value) :
    ∃ small : Int64, small.toInt = value ∧ integer? text = some small := by
  refine ⟨.ofInt value, Int64.toInt_ofInt_of_le hfits.1 (by unfold FitsInt64 at hfits; omega), ?_⟩
  rw [integer?, signed?_eq_some_iff.mpr h]
  exact if_pos ((toInt_limits value).mpr hfits)

theorem integer?_of_misfit {text : List Char}
    (h : ∀ value, DenotesInteger text value → ¬ FitsInt64 value) : integer? text = none := by
  unfold integer?
  split
  · next value hvalue =>
      rw [if_neg (mt (toInt_limits value).mp (h value (signed?_eq_some_iff.mp hvalue)))]
  · rfl

theorem denotes_toString (value : ℤ) : DenotesInteger (toString value).toList value := by
  have hdigits : IsDigits (Nat.toDigits 10 value.natAbs) :=
    ⟨Nat.toDigits_ne_nil, fun _ hc => isDigit_of_mem_toDigits hc⟩
  have hvalue := denoted_toDigits value.natAbs
  rw [toList_toString]
  split
  · next h =>
      have hunsigned := DenotesInteger.unsigned hdigits
      rwa [hvalue, Int.natAbs_of_nonneg h] at hunsigned
  · next h =>
      have hsize : -(value.natAbs : ℤ) = value := by omega
      have hminus := DenotesInteger.minus hdigits
      rwa [hvalue, hsize] at hminus

theorem integer?_toString (value : Int64) :
    integer? (toString value.toInt).toList = some value := by
  have hfits : FitsInt64 value.toInt :=
    (toInt_limits value.toInt).mp ⟨value.minValue_le_toInt, value.toInt_le⟩
  obtain ⟨small, hsmall, hread⟩ := integer?_of_fits (denotes_toString value.toInt) hfits
  rw [hread, Int64.toInt_inj.mp hsmall]

end Number

end LispReader
