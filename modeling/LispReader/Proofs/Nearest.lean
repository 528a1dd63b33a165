import LispReader.Number.Binary64
import LispReader.Proofs.Grid

namespace LispReader.Number

namespace Word

def sign (bits : ℕ) : ℕ :=
  bits / 2 ^ 63 % 2

def exponent (bits : ℕ) : ℕ :=
  bits / 2 ^ 52 % 2 ^ 11

def fraction (bits : ℕ) : ℕ :=
  bits % 2 ^ 52

/-- What 64 bits stand for, if it is a finite number. The exponent is held with 1023 added, and the
leading one of the significand is not held. An exponent of zero is that of the subnormal numbers,
which have no leading one. -/
def value (bits : ℕ) : ℚ :=
  (-1) ^ sign bits *
    if exponent bits = 0 then fraction bits / 2 ^ 52 * (2 : ℚ) ^ (-1022 : ℤ)
    else (1 + fraction bits / 2 ^ 52) * (2 : ℚ) ^ ((exponent bits : ℤ) - 1023)

structure IsFinite (bits : ℕ) : Prop where
  lt : bits < 2 ^ 64
  exponent_ne : exponent bits ≠ 2047

/-- Of all finite numbers none is nearer to `q`, and of two different ones that are equally near it
is the one with the even significand. -/
structure IsNearest (bits : ℕ) (q : ℚ) : Prop where
  finite : IsFinite bits
  nearest : ∀ other, IsFinite other → |value bits - q| ≤ |value other - q|
  even : ∀ other, IsFinite other → value other ≠ value bits →
    |value other - q| = |value bits - q| → fraction bits % 2 = 0

theorem value_eq (bits : ℕ) :
    value bits = (-1) ^ sign bits * (gridPoint (bits % 2 ^ 63) * gridUnit) := by
  have hexponent : bits % 2 ^ 63 / 2 ^ 52 = exponent bits := by
    unfold exponent
    omega
  have hfraction : bits % 2 ^ 63 % 2 ^ 52 = fraction bits := by
    unfold fraction
    omega
  have hunit : gridUnit = (2 : ℚ) ^ (-1022 : ℤ) / 2 ^ 52 := by
    rw [gridUnit, ← zpow_natCast, ← zpow_sub₀ (by norm_num)]
    norm_num
  rw [value, gridPoint, hexponent, hfraction, hunit]
  congr 1
  split
  · ring
  · next hnormal =>
      obtain ⟨spare, hspare⟩ := Nat.exists_eq_succ_of_ne_zero hnormal
      have hpower : (2 : ℚ) ^ ((exponent bits : ℤ) - 1023) = 2 ^ spare * 2 ^ (-1022 : ℤ) := by
        rw [← zpow_natCast, ← zpow_add₀ (by norm_num), hspare]
        congr 1
        omega
      rw [hpower, hspare, Nat.succ_sub_one]
      simp only [Nat.cast_mul, Nat.cast_add, Nat.cast_pow, Nat.cast_ofNat]
      ring

theorem sign_cases (bits other : ℕ) :
    sign other = sign bits ∨ (-1 : ℚ) ^ sign other = -(-1) ^ sign bits := by
  have hbits : sign bits = 0 ∨ sign bits = 1 := Nat.mod_two_eq_zero_or_one _
  have hother : sign other = 0 ∨ sign other = 1 := Nat.mod_two_eq_zero_or_one _
  rcases hbits with hbits | hbits <;> rcases hother with hother | hother <;> simp [hbits, hother]

theorem abs_sign (bits : ℕ) : |(-1 : ℚ) ^ sign bits| = 1 := by
  rw [abs_pow, abs_neg, abs_one, one_pow]

theorem abs_value_sub (bits : ℕ) (t : ℚ) :
    |value bits - (-1) ^ sign bits * (t * gridUnit)| =
      |gridPoint (bits % 2 ^ 63) - t| * gridUnit := by
  rw [value_eq, ← mul_sub, ← sub_mul, abs_mul, abs_sign, one_mul, abs_mul, abs_of_pos gridUnit_pos]

theorem abs_value_sub_of_opposite {bits other : ℕ} {t : ℚ} (ht : 0 ≤ t)
    (h : (-1 : ℚ) ^ sign other = -(-1) ^ sign bits) :
    |value other - (-1) ^ sign bits * (t * gridUnit)| =
      (gridPoint (other % 2 ^ 63) + t) * gridUnit := by
  have hsum : (0 : ℚ) ≤ gridPoint (other % 2 ^ 63) + t := by positivity
  have hsplit : -(-1) ^ sign bits * (gridPoint (other % 2 ^ 63) * gridUnit) -
      (-1) ^ sign bits * (t * gridUnit) =
      -((-1) ^ sign bits * ((gridPoint (other % 2 ^ 63) + t) * gridUnit)) := by ring
  rw [value_eq, h, hsplit, abs_neg, abs_mul, abs_sign, one_mul, abs_mul, abs_of_nonneg hsum,
    abs_of_pos gridUnit_pos]

theorem isNearest_of_roundsTo {t : ℚ} {spare significand bits : ℕ}
    (h : RoundsTo t spare significand) (ht : 0 ≤ t) (hfinite : IsFinite bits)
    (hplace : bits % 2 ^ 63 = spare * 2 ^ 52 + significand) :
    IsNearest bits ((-1) ^ sign bits * (t * gridUnit)) := by
  have hnearest := h.nearest
  rw [← hplace] at hnearest
  have heven (hplace : bits % 2 ^ 63 % 2 = 0) : fraction bits % 2 = 0 := by
    unfold fraction
    omega
  have hzero := hnearest 0
  have hstart : (gridPoint 0 : ℚ) = 0 := rfl
  rw [hstart, zero_sub, abs_neg, abs_of_nonneg ht] at hzero
  refine ⟨hfinite, fun other _ => ?_, fun other _ hne htie => ?_⟩
  · rcases sign_cases bits other with hsame | hopposite
    · rw [← hsame, abs_value_sub, hsame, abs_value_sub]
      exact mul_le_mul_of_nonneg_right (hnearest _).1 gridUnit_pos.le
    · rw [abs_value_sub, abs_value_sub_of_opposite ht hopposite]
      have hpoint : (0 : ℚ) ≤ gridPoint (other % 2 ^ 63) := Nat.cast_nonneg _
      exact mul_le_mul_of_nonneg_right (by linarith [hzero.1]) gridUnit_pos.le
  · rcases sign_cases bits other with hsame | hopposite
    · rw [abs_value_sub bits, ← hsame, abs_value_sub] at htie
      have hpoints : gridPoint (other % 2 ^ 63) ≠ gridPoint (bits % 2 ^ 63) := by
        intro hpoints
        rw [value_eq, value_eq, hsame, hpoints] at hne
        contradiction
      exact heven ((hnearest _).2 hpoints (mul_right_cancel₀ gridUnit_pos.ne' htie))
    · -- then the other number is a zero, which is as near with this sign
      rw [abs_value_sub, abs_value_sub_of_opposite ht hopposite] at htie
      have hdistance := mul_right_cancel₀ gridUnit_pos.ne' htie
      have hpoint : (gridPoint (other % 2 ^ 63) : ℚ) = 0 :=
        le_antisymm (by linarith [hzero.1]) (Nat.cast_nonneg _)
      rw [hpoint, zero_add] at hdistance
      refine heven (hzero.2 (fun hpoints => hne ?_) hdistance)
      rw [value_eq, value_eq, hpoint, ← hpoints, hstart]
      simp

theorem exists_units (bits : ℕ) (q : ℚ) : ∃ t, q = (-1) ^ sign bits * (t * gridUnit) := by
  refine ⟨(-1) ^ sign bits * (q / gridUnit), ?_⟩
  rw [mul_assoc, div_mul_cancel₀ q gridUnit_pos.ne', ← mul_assoc, ← pow_add, ← two_mul, pow_mul,
    neg_one_sq, one_pow, one_mul]

theorem value_ne {bits other : ℕ} (hsign : sign other = sign bits)
    (hlt : bits % 2 ^ 63 < other % 2 ^ 63) : value other ≠ value bits := by
  intro hvalues
  rw [value_eq, value_eq, hsign] at hvalues
  have hsigned := mul_left_cancel₀ (pow_ne_zero _ (by norm_num)) hvalues
  have hpoints := Nat.cast_injective (mul_right_cancel₀ gridUnit_pos.ne' hsigned)
  exact (gridPoint_strictMono hlt).ne' hpoints

theorem IsFinite.succ {bits other : ℕ} (hother : IsFinite other) (hsign : sign other = sign bits)
    (hlt : bits % 2 ^ 63 + 1 ≤ other % 2 ^ 63) (hbits : bits < 2 ^ 64) :
    IsFinite (bits + 1) ∧ sign (bits + 1) = sign bits ∧
      (bits + 1) % 2 ^ 63 = bits % 2 ^ 63 + 1 := by
  have hbound := hother.lt
  have hexponent := hother.exponent_ne
  unfold sign exponent at *
  refine ⟨⟨by omega, ?_⟩, by omega, by omega⟩
  unfold exponent
  omega

/-- Two places that are equally near would both be even, and one between them would be nearer. -/
theorem IsNearest.le {bits other : ℕ} {q : ℚ} (h : IsNearest bits q) (h' : IsNearest other q)
    (hsign : sign other = sign bits) : other % 2 ^ 63 ≤ bits % 2 ^ 63 := by
  by_contra hlt
  rw [Nat.not_le] at hlt
  obtain ⟨t, rfl⟩ := exists_units bits q
  have htie := le_antisymm (h.nearest other h'.finite) (h'.nearest bits h.finite)
  have hne := value_ne hsign hlt
  have heven := h.even other h'.finite hne htie.symm
  have heven' := h'.even bits h.finite hne.symm htie
  have hroom : bits % 2 ^ 63 + 1 < other % 2 ^ 63 := by
    unfold fraction at heven heven'
    omega
  obtain ⟨hfinite, hsame, hplace⟩ := h'.finite.succ hsign hroom.le h.finite.lt
  have hbetween := h.nearest (bits + 1) hfinite
  rw [abs_value_sub, ← hsame, abs_value_sub, hplace] at hbetween
  rw [abs_value_sub, ← hsign, abs_value_sub] at htie
  have hnearer := le_of_mul_le_mul_right hbetween gridUnit_pos
  have hdistance := mul_right_cancel₀ gridUnit_pos.ne' htie
  have habove : (gridPoint (bits % 2 ^ 63) : ℚ) < gridPoint (bits % 2 ^ 63 + 1) :=
    Nat.cast_lt.mpr (gridPoint_strictMono (Nat.lt_succ_self _))
  have hbelow : (gridPoint (bits % 2 ^ 63 + 1) : ℚ) < gridPoint (other % 2 ^ 63) :=
    Nat.cast_lt.mpr (gridPoint_strictMono hroom)
  have hmiddle : t - gridPoint (bits % 2 ^ 63) = gridPoint (other % 2 ^ 63) - t := by
    rcases abs_eq_abs.mp hdistance with hequal | hequal <;> linarith
  rw [abs_sub_comm, abs_of_pos (by linarith)] at hnearer
  exact absurd hnearer (not_le_of_gt (abs_lt.mpr ⟨by linarith, by linarith⟩))

theorem IsNearest.unique {bits other : ℕ} {q : ℚ} (h : IsNearest bits q) (h' : IsNearest other q)
    (hsign : sign other = sign bits) : other = bits := by
  have hplace := le_antisymm (h.le h' hsign) (h'.le h hsign.symm)
  have hbits := h.finite.lt
  have hother := h'.finite.lt
  unfold sign at hsign
  omega

end Word

namespace Binary64

theorem toBits_lt (x : Binary64) : x.toBits < 2 ^ 64 := by
  have hmagnitude : x.magnitude < 2 ^ 63 := x.magnitude_lt
  unfold toBits
  split <;> omega

theorem toBits_mod (x : Binary64) : x.toBits % 2 ^ 63 = x.magnitude := by
  have hmagnitude : x.magnitude < 2 ^ 63 := x.magnitude_lt
  unfold toBits
  split <;> omega

theorem sign_toBits (x : Binary64) : Word.sign x.toBits = if x.negative then 1 else 0 := by
  have hmagnitude : x.magnitude < 2 ^ 63 := x.magnitude_lt
  unfold Word.sign toBits
  split <;> omega

theorem isFinite_iff (x : Binary64) : x.isFinite ↔ Word.IsFinite x.toBits := by
  have hmagnitude : x.magnitude < 2 ^ 63 := x.magnitude_lt
  have hplace := x.toBits_mod
  have hinfinite : infinite = 2047 * 2 ^ 52 := by decide
  rw [isFinite, decide_eq_true_iff, hinfinite]
  constructor
  · intro hless
    refine ⟨x.toBits_lt, ?_⟩
    unfold Word.exponent
    omega
  · intro h
    have hexponent := h.exponent_ne
    unfold Word.exponent at hexponent
    omega

theorem exists_roundsTo (negative : Bool) (num : ℕ) {den : ℕ} (hden : 0 < den) :
    ∃ spare significand, RoundsTo (num / den / gridUnit) spare significand ∧
      (ofQuotient negative num den).magnitude = min (spare * 2 ^ 52 + significand) infinite := by
  have hscaled : ((num <<< 1074 : ℕ) : ℚ) / den = num / den / gridUnit := by
    rw [cast_shiftLeft, div_right_comm]
  have hrounds := roundsTo_log2 (num <<< 1074) hden
  rw [hscaled] at hrounds
  refine ⟨_, _, hrounds, ?_⟩
  change nearest num den = _
  rw [nearest, Nat.shiftLeft_eq (_ - 52), Nat.shiftLeft_eq den]

/-- A quotient leads to an infinity just where it reaches the middle between the greatest finite
number and the power of two that would be the next. -/
theorem isFinite_ofQuotient (negative : Bool) (num : ℕ) {den : ℕ} (hden : 0 < den) :
    (ofQuotient negative num den).isFinite ↔ (num / den : ℚ) < 2 ^ 1024 - 2 ^ 970 := by
  obtain ⟨spare, significand, hrounds, hmagnitude⟩ := exists_roundsTo negative num hden
  have hinfinite : infinite = 2047 * 2 ^ 52 := by decide
  have hmiddle : ((2 : ℚ) ^ 54 - 1) * 2 ^ 2044 * gridUnit = 2 ^ 1024 - 2 ^ 970 := by
    rw [← two_pow_mul_gridUnit 1024, ← two_pow_mul_gridUnit 970, sub_mul, ← pow_add, one_mul,
      sub_mul]
  have hless : (ofQuotient negative num den).isFinite ↔
      spare * 2 ^ 52 + significand < 2047 * 2 ^ 52 := by
    rw [isFinite, decide_eq_true_iff, hmagnitude, min_lt_iff, ← hinfinite]
    exact or_iff_left (lt_irrefl infinite)
  rw [hless, hrounds.lt_infinite_iff, div_lt_iff₀ gridUnit_pos, hmiddle]

theorem exists_roundsTo_of_isFinite {negative : Bool} {num den : ℕ} (hden : 0 < den)
    (hfinite : (ofQuotient negative num den).isFinite) :
    ∃ spare significand, RoundsTo (num / den / gridUnit) spare significand ∧
      (ofQuotient negative num den).magnitude = spare * 2 ^ 52 + significand := by
  obtain ⟨spare, significand, hrounds, hmagnitude⟩ := exists_roundsTo negative num hden
  have hless : (ofQuotient negative num den).magnitude < infinite := of_decide_eq_true hfinite
  rw [hmagnitude, min_lt_iff] at hless
  refine ⟨spare, significand, hrounds, ?_⟩
  rw [hmagnitude, min_eq_left_of_lt (hless.resolve_right (lt_irrefl infinite))]

theorem isNearest_ofQuotient {negative : Bool} {num den : ℕ} (hden : 0 < den)
    (hfinite : (ofQuotient negative num den).isFinite) :
    Word.IsNearest (ofQuotient negative num den).toBits
      ((-1) ^ Word.sign (ofQuotient negative num den).toBits * (num / den)) := by
  obtain ⟨spare, significand, hrounds, hmagnitude⟩ := exists_roundsTo_of_isFinite hden hfinite
  rw [← toBits_mod] at hmagnitude
  have hpos : (0 : ℚ) ≤ num / den / gridUnit := by
    have hunit := gridUnit_pos
    positivity
  have hnearest := Word.isNearest_of_roundsTo hrounds hpos ((isFinite_iff _).mp hfinite) hmagnitude
  rwa [div_mul_cancel₀ _ gridUnit_pos.ne'] at hnearest

end Binary64

end LispReader.Number
