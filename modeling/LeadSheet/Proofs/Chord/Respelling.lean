import LeadSheet.Proofs.Chord.Spacing

/-!
# Spelling twice

A canonical spelling is spelled as itself, but for two slips. A word is replaced in one pass, so
`minin` leaves a `min` behind. And the blank behind a root is taken away after the root was read, so
an accidental that stood behind it is read as part of the root the next time.
-/

namespace LeadSheet
set_option autoImplicit false

theorem NoteName.chars_injective : Function.Injective chars := by
  intro m n h
  have hScan := m.scan?_chars
  rw [h, n.scan?_chars] at hScan
  cases hScan
  rfl

theorem Accidental.chars_eq_of_ofChar? {a : Char} {accidental : Accidental}
    (h : ofChar? a = some accidental) : accidental.chars = [a] := by
  unfold ofChar? at h
  split at h <;> cases h <;> rfl

namespace Chord

section Fixed

variable {cs : List Char}

theorem length_respell_le (cs : List Char) : (respell cs).length ≤ (shortenMinor cs).length := by
  rw [respell, length_sharpenBass, raiseFifth_eq_replaceWord]
  exact length_replaceWord_le (by decide) _

theorem min_isInfix_respell_iff :
    "min".toList <:+: respell cs ↔ "minin".toList <:+: cs := by
  have hSlash : '/' ∉ "min".toList := by decide
  have hName (n : NoteName) : 'm' ∉ n.chars := by
    obtain ⟨letter, accidental⟩ := n
    cases letter <;> cases accidental <;> decide
  have hApart : ∀ c ∈ ['m', 'i', 'n'], c ∉ ['a', 'u', 'g'] ∧ c ∉ ['#', '5'] := by simp
  rw [← min_isInfix_shortenMinor_iff, respell, raiseFifth_eq_replaceWord]
  refine Iff.trans ⟨isInfix_of_isInfix_sharpenBass hSlash hName,
    isInfix_sharpenBass hSlash rfl rfl⟩ ?_
  exact isInfix_replaceWord_iff (List.cons_ne_nil _ _) hApart

theorem not_aug_isInfix_respell (cs : List Char) : ¬"aug".toList <:+: respell cs := by
  have hName (n : NoteName) : 'a' ∉ n.chars := by
    obtain ⟨letter, accidental⟩ := n
    cases letter <;> cases accidental <;> decide
  intro hAug
  have hRaised := isInfix_of_isInfix_sharpenBass (by decide) hName hAug
  rw [raiseFifth_eq_replaceWord] at hRaised
  exact not_isInfix_replaceWord (List.cons_ne_nil _ _) (by decide) (by decide) (by decide) _ hRaised

/-- Only `min` can be left for a second pass. -/
theorem respell_respell_eq_iff :
    respell (respell cs) = respell cs ↔ ¬"minin".toList <:+: cs := by
  rw [← min_isInfix_respell_iff]
  constructor
  · intro hEq hMin
    -- no step makes a text longer, so one that makes it shorter is not made up for
    have hLess : (replaceWord 'm' 'i' 'n' ['m'] (respell cs)).length < (respell cs).length :=
      length_replaceWord_lt (by decide) hMin
    rw [← shortenMinor_eq_replaceWord] at hLess
    have hLe := length_respell_le (respell cs)
    rw [hEq] at hLe
    omega
  · intro hMin
    have hMinor : shortenMinor (respell cs) = respell cs := by
      rw [shortenMinor_eq_replaceWord]
      exact replaceWord_eq_self hMin
    have hFifth : raiseFifth (respell cs) = respell cs := by
      rw [raiseFifth_eq_replaceWord]
      exact replaceWord_eq_self (not_aug_isInfix_respell cs)
    rw [respell, hMinor, hFifth]
    exact sharpenBass_sharpenBass _

theorem spellTail_respell_eq_iff (h : IsSpaced cs) :
    spellTail (respell cs) = respell cs ↔ cs.head? ≠ some ' ' ∧ ¬"minin".toList <:+: cs := by
  by_cases hHead : cs.head? = some ' '
  · obtain ⟨ds, rfl⟩ := List.head?_eq_some_iff.mp hHead
    have hSpaced := h.respell
    rw [respell_cons (by decide) (by decide) (by decide)] at hSpaced ⊢
    rw [hSpaced.spellTail_space_cons]
    -- without the space in front the text is shorter
    refine iff_of_false (fun hEq => ?_) (fun hNot => hNot.1 hHead)
    have hLength := (length_respell_le (respell ds)).trans (length_shortenMinor_le _)
    rw [hEq, List.length_cons] at hLength
    omega
  · rw [h.respell.spellTail_eq (head?_respell_ne hHead), respell_respell_eq_iff,
      and_iff_right hHead]

end Fixed

section Root

variable {cs tail : List Char} {root : NoteName}

theorem isSpaced_of_scan? (h : NoteName.scan? (clean cs) = some (root, tail)) : IsSpaced tail := by
  obtain ⟨l, hClean, -⟩ := NoteName.exists_letter_of_scan?_eq_some h
  have hSpaced := isSpaced_clean cs
  rw [hClean] at hSpaced
  exact hSpaced.of_cons.of_append

theorem head?_chars_append_ne (root : NoteName) (tail : List Char) :
    (root.chars ++ tail).head? ≠ some ' ' := by
  rw [NoteName.chars, List.cons_append, List.head?_cons]
  cases root.letter <;> decide

/-- Behind a root there is nothing left to trim. -/
theorem spellChars_of_scan? (h : NoteName.scan? (clean cs) = some (root, tail)) :
    spellChars cs = root.sharpened.chars ++ spellTail tail := by
  have hSpaced : IsSpaced (root.sharpened.chars ++ spellTail tail) :=
    (isSpaced_of_scan? h).spellTail.append NoteName.not_blank_of_mem_chars
  rw [spellChars, h]
  exact (hSpaced.isTrim (head?_chars_append_ne _ _)).trim_eq

theorem spellChars_of_scan?_eq_none (h : NoteName.scan? (clean cs) = none) :
    spellChars cs = clean cs := by
  rw [spellChars, h]

theorem clean_clean (cs : List Char) : clean (clean cs) = clean cs :=
  (isSpaced_clean cs).clean_eq fun hHead => by
    have hBlank := (isTrim_clean cs).head ' ' hHead
    exact absurd hBlank (by decide)

theorem spellChars_chars_append_eq_iff (hTail : IsSpaced tail)
    (hApart : root.accidental = .natural →
      ∀ c ∈ (respell tail).head?, Accidental.ofChar? c = none) :
    spellChars (root.chars ++ respell tail) = root.chars ++ respell tail ↔
      root.sharpened = root ∧ tail.head? ≠ some ' ' ∧ ¬"minin".toList <:+: tail := by
  have hSpaced := hTail.respell.append (root.not_blank_of_mem_chars)
  have hScan := NoteName.scan?_chars_append root hApart
  rw [← hSpaced.clean_eq (head?_chars_append_ne _ _)] at hScan
  rw [spellChars_of_scan? hScan, ← spellTail_respell_eq_iff hTail]
  constructor
  · intro hEq
    obtain ⟨hRoot, hRest⟩ := List.append_inj hEq root.length_chars_sharpened
    exact ⟨NoteName.chars_injective hRoot, hRest⟩
  · rintro ⟨hRoot, hRest⟩
    rw [hRoot, hRest]

theorem respell_aug (cs : List Char) :
    respell ('a' :: 'u' :: 'g' :: cs) = '#' :: '5' :: respell cs := by
  simp [respell, shortenMinor, raiseFifth, sharpenBass_cons]

/-- The sharp that `aug` leaves behind a letter is read as part of the root, and nothing comes of
it. -/
theorem spellChars_eq_iff_of_apart (hRoot : root.sharpened = root) (hTail : IsSpaced tail)
    (hApart : root.accidental = .natural → ∀ c ∈ tail.head?, Accidental.ofChar? c = none) :
    spellChars (root.chars ++ respell tail) = root.chars ++ respell tail ↔
      tail.head? ≠ some ' ' ∧ ¬"minin".toList <:+: tail := by
  by_cases hAug : root.accidental = .natural ∧ "aug".toList <+: tail
  · -- the same text, cut behind the sharp
    obtain ⟨letter, accidental⟩ := root
    obtain ⟨hNatural, rest, rfl⟩ := hAug
    cases hNatural
    have hSharp : (NoteName.mk letter .sharp).sharpened = ⟨letter, .sharp⟩ := by
      cases letter <;> rfl
    have hChars : (NoteName.mk letter .natural).chars ++ respell ("aug".toList ++ rest) =
        (NoteName.mk letter .sharp).chars ++ respell ('5' :: rest) := by
      rw [respell_cons (by decide) (by decide) (by decide)]
      exact congrArg (letter.toChar :: ·) (respell_aug rest)
    have hRest : IsSpaced ('5' :: rest) := .char rfl rfl hTail.of_append
    have hMinor : "minin".toList <:+: '5' :: rest ↔ "minin".toList <:+: "aug".toList ++ rest := by
      have hFive : 'm' ∉ ['5'] := by decide
      have hAug : 'm' ∉ "aug".toList := by decide
      exact (isInfix_append_iff hFive).trans (isInfix_append_iff hAug).symm
    rw [hChars, spellChars_chars_append_eq_iff hRest (fun hNatural => by cases hNatural), hMinor,
      and_iff_right hSharp]
    exact and_congr_left' (iff_of_true (by simp) (by simp))
  · rw [spellChars_chars_append_eq_iff hTail, and_iff_right hRoot]
    intro hNatural
    rw [head?_respell, if_neg fun hWord => hAug ⟨hNatural, hWord⟩]
    exact hApart hNatural

/-- An accidental that was behind a blank is read as part of the root. -/
theorem spellChars_eq_iff_of_accidental {letter : Letter} {a : Char} {accidental : Accidental}
    (ha : Accidental.ofChar? a = some accidental) (hTail : IsSpaced tail) :
    spellChars ((NoteName.mk letter .natural).chars ++ respell (a :: tail)) =
        (NoteName.mk letter .natural).chars ++ respell (a :: tail) ↔
      (NoteName.mk letter accidental).sharpened = ⟨letter, accidental⟩ ∧
        tail.head? ≠ some ' ' ∧ ¬"minin".toList <:+: tail := by
  have hFirst : a ≠ 'm' ∧ a ≠ 'a' ∧ a ≠ '/' := by
    refine ⟨?_, ?_, ?_⟩ <;> rintro rfl <;> cases ha
  have hChars : (NoteName.mk letter .natural).chars ++ respell (a :: tail) =
      (NoteName.mk letter accidental).chars ++ respell tail := by
    rw [respell_cons hFirst.1 hFirst.2.1 hFirst.2.2, NoteName.chars, NoteName.chars,
      Accidental.chars_eq_of_ofChar? ha]
    rfl
  rw [hChars, spellChars_chars_append_eq_iff hTail]
  rintro rfl
  cases Accidental.chars_eq_of_ofChar? ha

end Root

/-- The tails whose spelling behind a root is not spelled as itself: a word that is left by one
pass, a flat behind a blank that makes the root a black key, and an accidental between blanks. -/
inductive Slips : NoteName → List Char → Prop
  | minor {root : NoteName} {tail : List Char} (h : "minin".toList <:+: tail) : Slips root tail
  | flat {letter : Letter} {tail : List Char}
      (h : (NoteName.mk letter .flat).sharpened ≠ ⟨letter, .flat⟩) :
      Slips ⟨letter, .natural⟩ (' ' :: 'b' :: tail)
  | gap {letter : Letter} {a : Char} {tail : List Char} (h : Accidental.ofChar? a ≠ none) :
      Slips ⟨letter, .natural⟩ (' ' :: a :: ' ' :: tail)

theorem slips_iff_of_apart {root : NoteName} {tail : List Char}
    (h : root.accidental = .natural → ∀ rest, tail = ' ' :: rest →
      ∀ a ∈ rest.head?, Accidental.ofChar? a = none) :
    Slips root tail ↔ "minin".toList <:+: tail := by
  refine ⟨fun hSlips => ?_, .minor⟩
  cases hSlips with
  | minor hMinor => exact hMinor
  | flat _ => cases h rfl _ rfl 'b' rfl
  | gap ha => exact absurd (h rfl _ rfl _ rfl) ha

theorem not_slips_iff_of_accidental {letter : Letter} {a : Char} {accidental : Accidental}
    {tail : List Char} (ha : Accidental.ofChar? a = some accidental) :
    ¬Slips ⟨letter, .natural⟩ (' ' :: a :: tail) ↔
      (NoteName.mk letter accidental).sharpened = ⟨letter, accidental⟩ ∧
        tail.head? ≠ some ' ' ∧ ¬"minin".toList <:+: tail := by
  constructor
  · intro hNot
    refine ⟨not_not.mp fun hFlat => hNot ?_, fun hGap => hNot ?_, fun hMinor => hNot ?_⟩
    · cases accidental with
      | natural => cases Accidental.chars_eq_of_ofChar? ha
      | sharp => exact absurd (by cases letter <;> rfl) hFlat
      | flat =>
        cases Accidental.chars_eq_of_ofChar? ha
        exact .flat hFlat
    · obtain ⟨rest, rfl⟩ := List.head?_eq_some_iff.mp hGap
      exact .gap (by rw [ha]; exact Option.some_ne_none _)
    · exact .minor (List.infix_cons (List.infix_cons hMinor))
  · rintro ⟨hSharp, hGap, hMinor⟩ hSlips
    cases hSlips with
    | minor h =>
      have hFirst : 'm' ∉ [' ', a] := by
        rw [List.mem_cons, List.mem_singleton, not_or]
        refine ⟨by decide, ?_⟩
        rintro rfl
        cases ha
      exact hMinor ((isInfix_append_iff hFirst).mp h)
    | flat h =>
      cases ha
      exact h hSharp
    | gap _ => exact hGap rfl

theorem spellChars_spellChars_eq_iff {cs tail : List Char} {root : NoteName}
    (h : NoteName.scan? (clean cs) = some (root, tail)) :
    spellChars (spellChars cs) = spellChars cs ↔ ¬Slips root tail := by
  have hTail := isSpaced_of_scan? h
  obtain ⟨l, -, hApart⟩ := NoteName.exists_letter_of_scan?_eq_some h
  rw [spellChars_of_scan? h]
  by_cases hSpace : tail.head? = some ' '
  · obtain ⟨rest, rfl⟩ := List.head?_eq_some_iff.mp hSpace
    rw [hTail.spellTail_space_cons]
    by_cases hRead : root.accidental = .natural → ∀ a ∈ rest.head?, Accidental.ofChar? a = none
    · have hMinor : "minin".toList <:+: ' ' :: rest ↔ "minin".toList <:+: rest := by
        have hFirst : 'm' ∉ [' '] := by decide
        exact isInfix_append_iff hFirst
      rw [spellChars_eq_iff_of_apart root.sharpened_sharpened hTail.of_cons
          (fun hNatural => hRead (root.accidental_sharpened.mp hNatural)),
        and_iff_right hTail.head?_ne_of_space_cons, slips_iff_of_apart, hMinor]
      intro hNatural other hEq
      cases hEq
      exact hRead hNatural
    · push Not at hRead
      obtain ⟨hNatural, a, ha, hSome⟩ := hRead
      obtain ⟨letter, accidental⟩ := root
      cases hNatural
      obtain ⟨z, rfl⟩ := List.head?_eq_some_iff.mp ha
      obtain ⟨accidental, hAccidental⟩ := Option.ne_none_iff_exists'.mp hSome
      have hNatural : (NoteName.mk letter .natural).sharpened = ⟨letter, .natural⟩ := by
        cases letter <;> rfl
      rw [hNatural, spellChars_eq_iff_of_accidental hAccidental hTail.of_cons.of_cons,
        not_slips_iff_of_accidental hAccidental]
  · rw [hTail.spellTail_eq hSpace,
      spellChars_eq_iff_of_apart root.sharpened_sharpened hTail
        (fun hNatural => hApart (root.accidental_sharpened.mp hNatural)),
      and_iff_right hSpace, slips_iff_of_apart]
    rintro - rest rfl
    exact absurd rfl hSpace

/-- A canonical spelling is spelled as itself, unless what follows its root slips. -/
theorem spell_spell_eq_iff (label : String) :
    spell (spell label) = spell label ↔ ∀ root tail,
      NoteName.scan? (clean label.toList) = some (root, tail) → ¬Slips root tail := by
  rw [spell, spell, String.toList_ofList, String.ofList_inj]
  cases hScan : NoteName.scan? (clean label.toList) with
  | none =>
    have hClean := spellChars_of_scan?_eq_none hScan
    rw [← clean_clean] at hScan
    rw [hClean, spellChars_of_scan?_eq_none hScan, clean_clean]
    refine iff_of_true rfl fun root tail hFound => ?_
    cases hFound
  | some found =>
    rw [spellChars_spellChars_eq_iff hScan]
    constructor
    · rintro hNot root tail hFound
      cases hFound
      exact hNot
    · exact fun hNot => hNot _ _ rfl

/-- The flat of `B b` is taken for a part of the tail, and is read as part of the root again. -/
example : spell "B b" = "Bb" ∧ spell "Bb" = "A#" := by decide

end Chord

end LeadSheet
