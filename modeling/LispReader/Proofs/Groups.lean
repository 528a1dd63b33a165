import LispReader.Proofs.Digits
import LispReader.Proofs.Numerals

namespace LispReader

/-- Digits in groups, with one underscore between two of them. -/
inductive IsGrouped : List Char → Prop
  | digits {digits : List Char} (hdigits : IsDigits digits) : IsGrouped digits
  | underscore {digits rest : List Char} (hdigits : IsDigits digits) (hrest : IsGrouped rest) :
      IsGrouped (digits ++ '_' :: rest)

inductive IsWhole : List Char → Prop
  | intro {sign digits : List Char} (hsign : sign = [] ∨ sign = ['-']) (hdigits : IsDigits digits) :
      IsWhole (sign ++ digits)

inductive IsDecimal : List Char → Prop
  | intro {sign whole fraction : List Char} (hsign : sign = [] ∨ sign = ['-']) (hwhole : whole ≠ [])
      (hfraction : fraction ≠ []) (hdigits : ∀ c ∈ whole ++ fraction, c.isDigit) :
      IsDecimal (sign ++ (whole ++ '.' :: fraction))

/-- An optional minus and groups of digits, with a point between groups of digits or without one. -/
inductive IsLiteral : List Char → Prop
  | whole {sign whole : List Char} (hsign : sign = [] ∨ sign = ['-']) (hwhole : IsGrouped whole) :
      IsLiteral (sign ++ whole)
  | decimal {sign whole fraction : List Char} (hsign : sign = [] ∨ sign = ['-'])
      (hwhole : IsGrouped whole) (hfraction : IsGrouped fraction) :
      IsLiteral (sign ++ (whole ++ '.' :: fraction))

namespace IsRegular

variable {text : List Char}

theorem append_digits {digits : List Char} (h : IsRegular text)
    (hdigits : ∀ c ∈ digits, c.isDigit) : IsRegular (text ++ digits) := by
  induction digits generalizing text with
  | nil => rwa [List.append_nil]
  | cons c digits ih =>
      obtain ⟨hc, hrest⟩ := List.forall_mem_cons.mp hdigits
      rw [List.append_cons]
      exact ih (h.append_digit hc) hrest

theorem append_separator {c : Char} (h : IsRegular text) (hc : isSeparator c)
    (hlast : ∀ d ∈ text.getLast?, d.isDigit) (hdot : c = '.' → '.' ∉ text) :
    IsRegular (text ++ [c]) := by
  refine (h.append_separator_iff hc).mpr ⟨?_, hdot⟩
  cases hend : text.getLast? with
  | none => rfl
  | some d => simpa using not_isSeparator_of_isDigit (hlast d hend)

end IsRegular

namespace IsGrouped

variable {text : List Char}

theorem cons {c : Char} (hc : c.isDigit) (h : IsGrouped text) : IsGrouped (c :: text) := by
  have hlonger {digits : List Char} (hdigits : IsDigits digits) : IsDigits (c :: digits) :=
    ⟨List.cons_ne_nil c digits, List.forall_mem_cons.mpr ⟨hc, hdigits.2⟩⟩
  cases h with
  | digits hdigits => exact .digits (hlonger hdigits)
  | underscore hdigits hrest => exact .underscore (hlonger hdigits) hrest

theorem of_apart {first last : Char} {text : List Char} (hfirst : isSeparator first)
    (hlast : isSeparator last) (hchars : ∀ c ∈ text, c.isDigit ∨ c = '_')
    (h : (first :: (text ++ [last])).IsChain fun a b => ¬ (isSeparator a ∧ isSeparator b)) :
    IsGrouped text := by
  have hdigit {c : Char} (hc : c.isDigit ∨ c = '_')
      (happart : ¬ (isSeparator first ∧ isSeparator c)) : c.isDigit :=
    hc.resolve_right fun hline => happart ⟨hfirst, by rw [hline]; rfl⟩
  match text with
  | [] => exact absurd ⟨hfirst, hlast⟩ (List.isChain_cons_cons.mp h).1
  | [c] =>
      have hc := hdigit (hchars c List.mem_cons_self) (List.isChain_cons_cons.mp h).1
      exact .digits ⟨by simp, by simpa using hc⟩
  | c :: d :: more =>
      obtain ⟨hstart, hrest⟩ := List.isChain_cons_cons.mp h
      have hbehind := (List.isChain_cons_cons.mp hrest).2
      obtain ⟨hc, hothers⟩ := List.forall_mem_cons.mp hchars
      obtain ⟨hd, hmore⟩ := List.forall_mem_cons.mp hothers
      have hc' := hdigit hc hstart
      rcases hd with hd | rfl
      · have hsep := not_isSeparator_of_isDigit hd
        exact cons hc' (of_apart hfirst hlast hothers
          (List.isChain_cons_cons.mpr ⟨fun hboth => hsep hboth.2, hbehind⟩))
      · have hone : IsDigits [c] := ⟨List.cons_ne_nil c [], by simpa using hc'⟩
        have hgroups := IsGrouped.underscore hone (of_apart rfl hlast hmore hbehind)
        exact hgroups

theorem not_dot_mem (h : IsGrouped text) : '.' ∉ text := by
  have hdigits {digits : List Char} (hdigits : IsDigits digits) : '.' ∉ digits :=
    fun hmem => absurd (hdigits.2 '.' hmem) (by decide)
  induction h with
  | digits h => exact hdigits h
  | underscore h _ ih => simp [hdigits h, ih]

theorem filter (h : IsGrouped text) : IsDigits (text.filter (· ≠ '_')) := by
  have hkeeps {digits : List Char} (hdigits : IsDigits digits) :
      digits.filter (· ≠ '_') = digits := by
    rw [List.filter_eq_self]
    intro c hc
    have hdigit := hdigits.2 c hc
    rw [decide_eq_true_eq]
    rintro rfl
    contradiction
  induction h with
  | digits h => rwa [hkeeps h]
  | underscore h _ ih =>
      rw [List.filter_append, List.filter_cons_of_neg (by simp), hkeeps h]
      refine ⟨List.append_ne_nil_of_left_ne_nil h.1 _, fun c hc => ?_⟩
      rcases List.mem_append.mp hc with hc | hc
      · exact h.2 c hc
      · exact ih.2 c hc

theorem exists_digits (h : IsGrouped text) :
    ∃ digits more, IsDigits digits ∧ text = digits ++ more := by
  cases h with
  | digits hdigits => exact ⟨text, [], hdigits, (List.append_nil text).symm⟩
  | underscore hdigits _ => exact ⟨_, _, hdigits, rfl⟩

theorem ne_nil (h : IsGrouped text) : text ≠ [] := by
  obtain ⟨digits, more, hdigits, rfl⟩ := h.exists_digits
  exact List.append_ne_nil_of_left_ne_nil hdigits.1 more

theorem chars (h : IsGrouped text) : ∀ c ∈ text, isNumeralChar c := by
  have hplain {digits : List Char} (hdigits : IsDigits digits) : ∀ c ∈ digits, isNumeralChar c := by
    intro c hc
    simp [isNumeralChar, hdigits.2 c hc]
  induction h with
  | digits hdigits => exact hplain hdigits
  | underscore hdigits _ ih =>
      exact List.forall_mem_append.mpr ⟨hplain hdigits, List.forall_mem_cons.mpr ⟨rfl, ih⟩⟩

theorem last (h : IsGrouped text) : ∀ c ∈ text.getLast?, c.isDigit := by
  induction h with
  | digits hdigits => exact fun c hc => hdigits.2 c (List.mem_of_getLast? hc)
  | underscore _ hrest ih => rwa [List.append_cons, List.getLast?_append_of_ne_nil _ hrest.ne_nil]

theorem isRegular_append {before : List Char} (h : IsGrouped text) (hbefore : IsRegular before) :
    IsRegular (before ++ text) := by
  induction h generalizing before with
  | digits hdigits => exact hbefore.append_digits hdigits.2
  | @underscore digits rest hdigits _ ih =>
      have hline : IsRegular (before ++ digits ++ ['_']) := by
        refine (hbefore.append_digits hdigits.2).append_separator rfl ?_ fun hdot => ?_
        · intro c hc
          rw [List.getLast?_append_of_ne_nil _ hdigits.1] at hc
          exact hdigits.2 c (List.mem_of_getLast? hc)
        · contradiction
      have hall : before ++ (digits ++ '_' :: rest) = before ++ digits ++ ['_'] ++ rest := by simp
      rw [hall]
      exact ih hline

theorem isRegular (h : IsGrouped text) : IsRegular text :=
  h.isRegular_append Numeral.isRegular_nil

end IsGrouped

theorem startsNumber_of_digits {sign digits rest : List Char} (hsign : sign = [] ∨ sign = ['-'])
    (hne : digits ≠ []) (hdigits : ∀ c ∈ digits, c.isDigit) :
    startsNumber (sign ++ (digits ++ rest)) := by
  cases digits with
  | nil => contradiction
  | cons c digits =>
      have hc := hdigits c List.mem_cons_self
      rcases hsign with rfl | rfl
      · have hminus : c ≠ '-' := by
          rintro rfl
          contradiction
        rw [List.nil_append, List.cons_append, startsNumber_of_ne _ hminus]
        exact hc
      · exact hc

theorem isNumeral_of_body {sign body : List Char} (hsign : sign = [] ∨ sign = ['-'])
    (hstarts : startsNumber (sign ++ body)) (hchars : ∀ c ∈ body, isNumeralChar c)
    (hregular : IsRegular body) (hlast : ∀ c ∈ body.getLast?, ¬ isSeparator c) :
    IsNumeral (sign ++ body) := by
  rcases hsign with rfl | rfl
  · exact ⟨hstarts, fun c hc => hchars c (List.mem_of_mem_tail hc), hregular, hlast⟩
  · refine ⟨hstarts, hchars, ⟨?_, ?_⟩, ?_⟩
    · rw [List.singleton_append, List.isChain_cons]
      refine ⟨?_, hregular.apart⟩
      intro c _ hboth
      exact absurd hboth.1 (by decide)
    · have hdots := hregular.dots
      rwa [List.singleton_append, List.count_cons_of_ne (by decide)]
    · intro c hc
      cases body with
      | nil => exact absurd hstarts (by decide)
      | cons d body =>
          rw [List.singleton_append, List.getLast?_cons_cons] at hc
          exact hlast c hc

theorem IsLiteral.isNumeral {text : List Char} (h : IsLiteral text) : IsNumeral text := by
  cases h with
  | @whole sign whole hsign hwhole =>
      obtain ⟨digits, more, hdigits, rfl⟩ := hwhole.exists_digits
      exact isNumeral_of_body hsign (startsNumber_of_digits hsign hdigits.1 hdigits.2)
        hwhole.chars hwhole.isRegular fun c hc => not_isSeparator_of_isDigit (hwhole.last c hc)
  | @decimal sign whole fraction hsign hwhole hfraction =>
      have hpoint : IsRegular (whole ++ ['.']) :=
        hwhole.isRegular.append_separator rfl hwhole.last fun _ => hwhole.not_dot_mem
      have hregular : IsRegular (whole ++ '.' :: fraction) := by
        rw [List.append_cons]
        exact hfraction.isRegular_append hpoint
      have hchars : ∀ c ∈ whole ++ '.' :: fraction, isNumeralChar c :=
        List.forall_mem_append.mpr
          ⟨hwhole.chars, List.forall_mem_cons.mpr ⟨rfl, hfraction.chars⟩⟩
      have hlast : ∀ c ∈ (whole ++ '.' :: fraction).getLast?, ¬ isSeparator c := by
        rw [List.append_cons, List.getLast?_append_of_ne_nil _ hfraction.ne_nil]
        exact fun c hc => not_isSeparator_of_isDigit (hfraction.last c hc)
      obtain ⟨digits, more, hdigits, rfl⟩ := hwhole.exists_digits
      have hstarts : startsNumber (sign ++ (digits ++ (more ++ '.' :: fraction))) :=
        startsNumber_of_digits hsign hdigits.1 hdigits.2
      rw [← List.append_assoc digits] at hstarts
      exact isNumeral_of_body hsign hstarts hchars hregular hlast

theorem IsDecimal.isLiteral {text : List Char} (h : IsDecimal text) : IsLiteral text := by
  obtain ⟨hsign, hwhole, hfraction, hdigits⟩ := h
  obtain ⟨hleft, hright⟩ := List.forall_mem_append.mp hdigits
  exact .decimal hsign (.digits ⟨hwhole, hleft⟩) (.digits ⟨hfraction, hright⟩)

theorem filter_sign {sign : List Char} (hsign : sign = [] ∨ sign = ['-']) :
    sign.filter (· ≠ '_') = sign := by
  rcases hsign with rfl | rfl <;> rfl

theorem IsLiteral.filter {text : List Char} (h : IsLiteral text) :
    if '.' ∈ text then IsDecimal (text.filter (· ≠ '_')) else IsWhole (text.filter (· ≠ '_')) := by
  cases h with
  | @whole sign whole hsign hwhole =>
      have hdot : '.' ∉ sign ++ whole := by
        rcases hsign with rfl | rfl <;> simp [hwhole.not_dot_mem]
      rw [if_neg hdot, List.filter_append, filter_sign hsign]
      exact .intro hsign hwhole.filter
  | @decimal sign whole fraction hsign hwhole hfraction =>
      rw [if_pos (by simp), List.filter_append, filter_sign hsign, List.filter_append,
        List.filter_cons_of_pos (by simp)]
      refine .intro hsign hwhole.filter.1 hfraction.filter.1 fun c hc => ?_
      rcases List.mem_append.mp hc with hc | hc
      · exact hwhole.filter.2 c hc
      · exact hfraction.filter.2 c hc

theorem IsNumeral.sign_body {text : List Char} (h : IsNumeral text) :
    ∃ sign body, text = sign ++ body ∧ (sign = [] ∨ sign = ['-']) ∧
      (∃ c ∈ body.head?, c.isDigit) ∧ ∀ c ∈ body, isNumeralChar c := by
  have hstarts := h.starts
  cases text with
  | nil => contradiction
  | cons c rest =>
      by_cases hc : c = '-'
      · subst c
        cases rest with
        | nil => exact absurd hstarts (by decide)
        | cons d rest => exact ⟨['-'], d :: rest, rfl, .inr rfl, ⟨d, rfl, hstarts⟩, h.chars⟩
      · rw [startsNumber_of_ne rest hc] at hstarts
        refine ⟨[], c :: rest, rfl, .inl rfl, ⟨c, rfl, hstarts⟩, ?_⟩
        exact List.forall_mem_cons.mpr ⟨by simp [isNumeralChar, hstarts], h.chars⟩

theorem IsNumeral.isLiteral {text : List Char} (h : IsNumeral text) : IsLiteral text := by
  obtain ⟨sign, body, rfl, hsign, ⟨first, hfirst, hdigit⟩, hchars⟩ := h.sign_body
  have hne : body ≠ [] := List.ne_nil_of_mem (List.mem_of_mem_head? hfirst)
  -- separators at both ends of the body, so that its ends are like all other places
  have happart : ('_' :: (body ++ ['_'])).IsChain fun a b => ¬ (isSeparator a ∧ isSeparator b) := by
    rw [List.isChain_cons, List.isChain_append]
    refine ⟨?_, (List.isChain_append.mp h.regular.apart).2.1, .singleton '_', ?_⟩
    · intro c hc hboth
      rw [List.head?_append_of_ne_nil _ hne] at hc
      obtain rfl := Option.some.inj (hfirst.symm.trans hc)
      exact not_isSeparator_of_isDigit hdigit hboth.2
    · intro c hc d _ hboth
      exact h.last c (by rwa [List.getLast?_append_of_ne_nil _ hne]) hboth.1
  have hplain {part : List Char} (hpart : part ⊆ body) (hdot : '.' ∉ part) :
      ∀ c ∈ part, c.isDigit ∨ c = '_' := by
    intro c hc
    have hnot : c ≠ '.' := ne_of_mem_of_not_mem hc hdot
    simpa [isNumeralChar, isSeparator, hnot] using hchars c (hpart hc)
  by_cases hdot : '.' ∈ body
  · obtain ⟨whole, fraction, rfl⟩ := List.append_of_mem hdot
    have hcount := h.regular.dots
    rw [List.count_append, List.count_append, List.count_cons_self] at hcount
    have hwhole : '.' ∉ whole := List.count_eq_zero.mp (by omega)
    have hfraction : '.' ∉ fraction := List.count_eq_zero.mp (by omega)
    have hsplit : '_' :: (whole ++ '.' :: fraction ++ ['_']) =
        ('_' :: whole) ++ '.' :: (fraction ++ ['_']) := by simp
    rw [hsplit, List.isChain_split] at happart
    exact .decimal hsign
      (.of_apart rfl rfl (hplain (List.subset_append_left _ _) hwhole) happart.1)
      (.of_apart rfl rfl (hplain (fun c hc => by simp [hc]) hfraction) happart.2)
  · exact .whole hsign (.of_apart rfl rfl (hplain (List.Subset.refl body) hdot) happart)

end LispReader
