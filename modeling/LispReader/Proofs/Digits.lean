import Mathlib.Data.List.Induction
import Mathlib.Data.List.TakeWhile
import Mathlib.Data.Nat.Digits.Defs
import Mathlib.Tactic.Ring

namespace LispReader

def IsDigits (text : List Char) : Prop :=
  text ≠ [] ∧ ∀ c ∈ text, c.isDigit

/-- The number that the digits of a text denote, the last of them being the units. What stands
between the digits does not count. -/
def denoted (text : List Char) : ℕ :=
  Nat.ofDigits 10 ((text.filter Char.isDigit).reverse.map fun c => c.toNat - '0'.toNat)

def withoutLeadingZeros (digits : List Char) : List Char :=
  if digits.dropWhile (· = '0') = [] then ['0'] else digits.dropWhile (· = '0')

theorem denoted_concat {c : Char} (digits : List Char) (hc : c.isDigit) :
    denoted (digits ++ [c]) = 10 * denoted digits + (c.toNat - '0'.toNat) := by
  simp [denoted, hc, Nat.ofDigits_cons, Nat.add_comm]

theorem ofDigitChars_eq_denoted {digits : List Char} (hdigits : ∀ c ∈ digits, c.isDigit) :
    Nat.ofDigitChars 10 digits 0 = denoted digits := by
  induction digits using List.reverseRecOn with
  | nil => rfl
  | append_singleton digits c ih =>
      obtain ⟨hbefore, hc⟩ := List.forall_mem_append.mp hdigits
      rw [Nat.ofDigitChars_append, ih hbefore, denoted_concat digits (hc c List.mem_cons_self)]
      rfl

theorem denoted_toDigits (n : ℕ) : denoted (Nat.toDigits 10 n) = n := by
  rw [← ofDigitChars_eq_denoted fun _ hc => Nat.isDigit_of_mem_toDigits (by decide) (by decide) hc,
    Nat.ofDigitChars_ten_toDigits]

theorem filter_digits_filter (text : List Char) :
    (text.filter (· ≠ '_')).filter Char.isDigit = text.filter Char.isDigit := by
  rw [List.filter_filter]
  apply List.filter_congr
  intro c _
  by_cases hc : c = '_' <;> simp [hc]

theorem denoted_filter (text : List Char) : denoted (text.filter (· ≠ '_')) = denoted text := by
  rw [denoted, filter_digits_filter, denoted]

theorem denoted_append (text more : List Char) :
    denoted (text ++ more) =
      denoted text * 10 ^ (more.filter Char.isDigit).length + denoted more := by
  rw [denoted, List.filter_append, List.reverse_append, List.map_append, Nat.ofDigits_append,
    List.length_map, List.length_reverse, Nat.add_comm, Nat.mul_comm, denoted, denoted]

theorem digit_lt {c : Char} (hc : c.isDigit) : c.toNat - '0'.toNat < 10 := by
  have hlimits := Char.isDigit_iff_toNat.mp hc
  have hzero : '0'.toNat = 48 := rfl
  have hnine : '9'.toNat = 57 := rfl
  omega

theorem denoted_lt {digits : List Char} (hdigits : ∀ c ∈ digits, c.isDigit) :
    denoted digits < 10 ^ digits.length := by
  induction digits using List.reverseRecOn with
  | nil => decide
  | append_singleton digits c ih =>
      obtain ⟨hbefore, hlast⟩ := List.forall_mem_append.mp hdigits
      have hc := hlast c List.mem_cons_self
      have hless := ih hbefore
      have hdigit := digit_lt hc
      rw [denoted_concat digits hc, List.length_append, List.length_singleton, pow_succ]
      omega

theorem denoted_append_digits (text : List Char) {digits : List Char}
    (hdigits : ∀ c ∈ digits, c.isDigit) :
    denoted (text ++ digits) = denoted text * 10 ^ digits.length + denoted digits := by
  rw [denoted_append, List.filter_eq_self.mpr hdigits]

theorem denoted_append_zeros (text : List Char) (zeros : ℕ) :
    denoted (text ++ List.replicate zeros '0') = denoted text * 10 ^ zeros := by
  induction zeros with
  | zero => simp
  | succ zeros ih =>
      rw [List.replicate_succ', ← List.append_assoc, denoted_concat _ rfl, ih, pow_succ,
        Nat.sub_self]
      ring

theorem toDigits_digit {c : Char} (hc : c.isDigit) :
    Nat.toDigits 10 (c.toNat - '0'.toNat) = [c] := by
  have hshown : ∀ d < 10, Nat.toDigits 10 d = [Char.ofNat (d + '0'.toNat)] := by decide
  rw [hshown _ (digit_lt hc), Nat.sub_add_cancel (Char.isDigit_iff_toNat.mp hc).1, Char.ofNat_toNat]

theorem toDigits_concat {digits : List Char} {c : Char} (hc : c.isDigit)
    (hpos : 0 < denoted digits) :
    Nat.toDigits 10 (denoted (digits ++ [c])) = Nat.toDigits 10 (denoted digits) ++ [c] := by
  rw [denoted_concat digits hc, ← Nat.toDigits_append_toDigits (by decide) hpos (digit_lt hc),
    toDigits_digit hc]

theorem exists_leadingZeros (digits : List Char) :
    ∃ zeros, digits = List.replicate zeros '0' ++ digits.dropWhile (· = '0') := by
  refine ⟨(digits.takeWhile (· = '0')).length, ?_⟩
  have hzeros : digits.takeWhile (· = '0') =
      List.replicate (digits.takeWhile (· = '0')).length '0' :=
    List.eq_replicate_of_mem fun c hc => by simpa using List.mem_takeWhile_imp hc
  rw [← hzeros, List.takeWhile_append_dropWhile]

theorem head_ne_zero {digits rest : List Char} {c : Char}
    (h : digits.dropWhile (· = '0') = c :: rest) : c ≠ '0' := by
  have hnot := List.head?_dropWhile_not (· = '0') digits
  rw [h] at hnot
  simpa using hnot

theorem toDigits_denoted {digits : List Char} (hdigits : ∀ c ∈ digits, c.isDigit) :
    Nat.toDigits 10 (denoted digits) = withoutLeadingZeros digits := by
  induction digits using List.reverseRecOn with
  | nil => rfl
  | append_singleton digits c ih =>
      obtain ⟨hbefore, hlast⟩ := List.forall_mem_append.mp hdigits
      have hc := hlast c List.mem_cons_self
      have hshown := ih hbefore
      rw [withoutLeadingZeros, List.dropWhile_append]
      cases hrest : digits.dropWhile (· = '0') with
      | nil =>
          have hzero : denoted digits = 0 := by
            rw [← Nat.ofDigitChars_ten_toDigits (n := denoted digits), hshown, withoutLeadingZeros,
              if_pos hrest]
            rfl
          rw [denoted_concat digits hc, hzero, Nat.mul_zero, Nat.zero_add, toDigits_digit hc]
          by_cases hlead : c = '0' <;> simp [hlead]
      | cons first rest =>
          rw [withoutLeadingZeros, hrest, if_neg (List.cons_ne_nil _ _)] at hshown
          have hpos : 0 < denoted digits := by
            by_contra hzero
            rw [Nat.eq_zero_of_not_pos hzero] at hshown
            exact head_ne_zero hrest (List.cons.inj hshown).1.symm
          rw [toDigits_concat hc hpos, hshown]
          simp

theorem leftpad_withoutLeadingZeros {digits : List Char} (hne : digits ≠ []) :
    (withoutLeadingZeros digits).leftpad digits.length '0' = digits := by
  obtain ⟨zeros, hzeros⟩ := exists_leadingZeros digits
  have hlength := congrArg List.length hzeros
  rw [List.length_append, List.length_replicate] at hlength
  unfold withoutLeadingZeros
  split
  · next hnone =>
      rw [hnone, List.append_nil] at hzeros
      rw [hnone, List.length_nil, Nat.add_zero] at hlength
      have hpos := List.length_pos_iff.mpr hne
      obtain ⟨others, hothers⟩ := Nat.exists_eq_succ_of_ne_zero hpos.ne'
      rw [List.leftpad, hothers, List.length_singleton, Nat.succ_sub_one, ← List.replicate_succ',
        hzeros, ← hlength, hothers]
  · have hmissing : digits.length - (digits.dropWhile (· = '0')).length = zeros := by omega
    rw [List.leftpad, hmissing, ← hzeros]

end LispReader
