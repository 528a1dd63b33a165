namespace LispReader.Number

/-- The natural number nearest to `num / den`. Of two that are equally near it is the even one. -/
def roundDiv (num den : Nat) : Nat :=
  let low := num / den
  let twice := 2 * (num % den)
  if twice < den then low
  else if den < twice then low + 1
  else if low % 2 = 0 then low
  else low + 1

theorem roundDiv_cases (num den : Nat) :
    (roundDiv num den = num / den ∧ 2 * (num % den) ≤ den ∨
      roundDiv num den = num / den + 1 ∧ den ≤ 2 * (num % den)) ∧
    (2 * (num % den) = den → roundDiv num den % 2 = 0) := by
  unfold roundDiv
  dsimp only
  split
  · omega
  · split
    · omega
    · split <;> omega

theorem roundDiv_mul_le (num den : Nat) :
    2 * (roundDiv num den * den) ≤ 2 * num + den := by
  have hlow := Nat.div_add_mod' num den
  rcases (roundDiv_cases num den).1 with ⟨hround, -⟩ | ⟨hround, hhalf⟩
  · rw [hround]
    omega
  · rw [hround, Nat.add_one_mul (num / den)]
    omega

theorem le_roundDiv_mul (num den : Nat) (hden : 0 < den) :
    2 * num ≤ 2 * (roundDiv num den * den) + den := by
  have hlow := Nat.div_add_mod' num den
  have hlt := Nat.mod_lt num hden
  rcases (roundDiv_cases num den).1 with ⟨hround, hhalf⟩ | ⟨hround, -⟩
  · rw [hround]
    omega
  · rw [hround, Nat.add_one_mul (num / den)]
    omega

end LispReader.Number
