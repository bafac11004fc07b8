import LeadSheet.Proofs.Chord.Tail

/-!
# Labels and their canonical text

The text of an accepted label can be read as a label again. It gives the symbol it was written from,
with one exception: the fifth of an augmented chord is written `#5`, and behind a bare letter that
sharp is read as part of the root.
-/

namespace LeadSheet
set_option autoImplicit false

theorem Letter.not_blank_toChar (l : Letter) :
    Text.isBlank l.toChar = false ∧ Chord.plainGlyph l.toChar = l.toChar := by
  cases l <;> decide

namespace NoteName

theorem scan?_chars_append (n : NoteName) {rest : List Char}
    (h : n.accidental = .natural → ∀ c ∈ rest.head?, Accidental.ofChar? c = none) :
    scan? (n.chars ++ rest) = some (n, rest) := by
  obtain ⟨letter, accidental⟩ := n
  cases accidental with
  | sharp | flat => simp [scan?, chars, Accidental.chars, Letter.ofChar?_toChar, Accidental.ofChar?]
  | natural =>
    cases rest with
    | nil => simp [scan?, chars, Accidental.chars, Letter.ofChar?_toChar]
    | cons c cs =>
      simp [scan?, chars, Accidental.chars, Letter.ofChar?_toChar, h rfl c rfl]

theorem scan?_chars (n : NoteName) : scan? n.chars = some (n, []) := by
  have hScan : scan? (n.chars ++ []) = some (n, []) := scan?_chars_append n fun _ => nofun
  rwa [List.append_nil] at hScan

theorem exists_letter_of_scan?_eq_some {cs rest : List Char} {n : NoteName}
    (h : scan? cs = some (n, rest)) :
    ∃ l, cs = l :: (n.accidental.chars ++ rest) ∧
      (n.accidental = .natural → ∀ c ∈ rest.head?, Accidental.ofChar? c = none) := by
  unfold scan? at h
  split at h
  · cases h
  · rename_i l rest'
    split at h
    · cases h
    · cases h
      exact ⟨l, rfl, fun _ c hc => by cases hc⟩
    · rename_i letter a more _
      split at h
      · rename_i accidental hAccidental
        cases h
        refine ⟨l, ?_, ?_⟩
        · unfold Accidental.ofChar? at hAccidental
          split at hAccidental <;> cases hAccidental <;> rfl
        · rintro rfl
          unfold Accidental.ofChar? at hAccidental
          split at hAccidental <;> cases hAccidental
      · rename_i hNone
        cases h
        refine ⟨l, rfl, fun _ c hc => ?_⟩
        cases hc
        exact hNone

theorem not_blank_of_mem_chars {n : NoteName} :
    ∀ c ∈ n.chars, Text.isBlank c = false ∧ Chord.plainGlyph c = c := by
  obtain ⟨letter, accidental⟩ := n
  refine List.forall_mem_cons.mpr ⟨letter.not_blank_toChar, ?_⟩
  cases accidental with
  | natural => exact fun c hc => (List.not_mem_nil hc).elim
  | sharp | flat => exact List.forall_mem_singleton.mpr (by decide)

theorem accidental_sharpened (n : NoteName) :
    n.sharpened.accidental = .natural ↔ n.accidental = .natural := by
  obtain ⟨letter, accidental⟩ := n
  cases letter <;> cases accidental <;> decide

end NoteName

namespace Chord

theorem clean_eq_self {cs : List Char}
    (h : ∀ c ∈ cs, Text.isBlank c = false ∧ plainGlyph c = c) : clean cs = cs := by
  rw [clean, (Text.isTrim_of_not_blank fun c hc => (h c hc).1).trim_eq,
    List.map_congr_left fun c hc => (h c hc).2, List.map_id',
    Text.collapseBlanks_eq_self fun c hc => (h c hc).1]

end Chord

namespace ChordSymbol

open Chord (IsTail IsSpelt)

/-- A root letter with `aug` right behind it. -/
def AugOnLetter (label : String) : Prop :=
  "aug".toList <+: ((Chord.clean label.toList).filter (· ≠ ' ')).tail

/-- A natural root with a sharp right behind it. -/
def SharpOnLetter (s : ChordSymbol) : Prop :=
  s.root.accidental = .natural ∧ s.quality.toList.head? = some '#'

/-- What the text of a symbol reads as: a sharp behind a letter belongs to the root. -/
def reread (s : ChordSymbol) : ChordSymbol :=
  match s.root.accidental, s.quality.toList with
  | .natural, '#' :: rest => ⟨⟨s.root.letter, .sharp⟩, String.ofList rest, s.bass⟩
  | _, _ => s

/-- The symbols that labels give. -/
structure IsCanonical (s : ChordSymbol) : Prop where
  root : s.root.sharpened = s.root
  quality : IsSpelt s.quality.toList
  bass : s.bass.map NoteName.sharpened = s.bass
  flat : s.root.accidental = .natural → s.quality.toList.head? ≠ some 'b'

theorem exists_eq_of_sharpOnLetter {s : ChordSymbol} (h : SharpOnLetter s) :
    ∃ letter rest, s = ⟨⟨letter, .natural⟩, String.ofList ('#' :: rest), s.bass⟩ := by
  obtain ⟨⟨letter, accidental⟩, quality, bass⟩ := s
  obtain ⟨hNatural, hSharp⟩ := h
  obtain ⟨rest, hQuality⟩ := List.head?_eq_some_iff.mp hSharp
  refine ⟨letter, rest, ?_⟩
  rw [← hQuality, String.ofList_toList]
  cases hNatural
  rfl

theorem reread_eq_self {s : ChordSymbol} (h : ¬ SharpOnLetter s) : s.reread = s := by
  unfold reread
  split
  · rename_i hNatural hQuality
    exact absurd ⟨hNatural, by rw [hQuality]; rfl⟩ h
  · rfl

theorem reread_ne_self {s : ChordSymbol} (h : SharpOnLetter s) : s.reread ≠ s := by
  obtain ⟨letter, rest, hEq⟩ := exists_eq_of_sharpOnLetter h
  intro hSelf
  have hRoot := congrArg (fun t => t.root.accidental) hSelf
  rw [hEq] at hRoot
  simp [reread] at hRoot

theorem reread_inj {s t : ChordSymbol} (hKind : SharpOnLetter s ↔ SharpOnLetter t)
    (h : s.reread = t.reread) : s = t := by
  by_cases hSharp : SharpOnLetter s
  · obtain ⟨letter, rest, hS⟩ := exists_eq_of_sharpOnLetter hSharp
    obtain ⟨letter', rest', hT⟩ := exists_eq_of_sharpOnLetter (hKind.mp hSharp)
    rw [hS, hT] at h ⊢
    simpa [reread] using h
  · rwa [reread_eq_self hSharp, reread_eq_self (mt hKind.mpr hSharp)] at h

theorem text_reread (s : ChordSymbol) : s.reread.text = s.text := by
  by_cases h : SharpOnLetter s
  · obtain ⟨letter, rest, hEq⟩ := exists_eq_of_sharpOnLetter h
    rw [hEq]
    simp [reread, text, chars, NoteName.chars, Accidental.chars]
  · rw [reread_eq_self h]

theorem IsCanonical.reread {s : ChordSymbol} (h : s.IsCanonical) :
    s.reread.IsCanonical ∧ ¬ SharpOnLetter s.reread := by
  by_cases hSharp : SharpOnLetter s
  · obtain ⟨letter, rest, hEq⟩ := exists_eq_of_sharpOnLetter hSharp
    have hQuality := h.quality
    rw [hEq, String.toList_ofList] at hQuality
    rw [hEq]
    simp only [ChordSymbol.reread, String.toList_ofList]
    refine ⟨⟨by cases letter <;> rfl, ?_, h.bass, nofun⟩, fun hNot => ?_⟩
    · rw [String.toList_ofList]
      exact hQuality.of_cons_sharp
    · cases hNot.1
  · rw [reread_eq_self hSharp]
    exact ⟨h, hSharp⟩

def slashChars (bass : Option NoteName) : List Char :=
  match bass with
  | none => []
  | some bass => '/' :: bass.chars

theorem chars_eq_append_slashChars (s : ChordSymbol) :
    s.chars = s.root.chars ++ (s.quality.toList ++ slashChars s.bass) :=
  List.append_assoc _ _ _

theorem scanBass?_slashChars (bass : Option NoteName) :
    scanBass? (slashChars bass) = some bass := by
  cases bass with
  | none => rfl
  | some bass => simp only [slashChars, scanBass?, NoteName.scan?_chars]

theorem slashChars_eq_nil_or_cons (bass : Option NoteName) :
    slashChars bass = [] ∨ ∃ rest, slashChars bass = '/' :: rest := by
  cases bass with
  | none => exact .inl rfl
  | some bass => exact .inr ⟨bass.chars, rfl⟩

namespace IsCanonical

variable {s : ChordSymbol}

theorem not_blank_of_mem_chars (h : s.IsCanonical) :
    ∀ c ∈ s.chars, Text.isBlank c = false ∧ Chord.plainGlyph c = c := by
  have hQuality : ∀ c ∈ s.quality.toList, Text.isBlank c = false ∧ Chord.plainGlyph c = c :=
    fun c hc => (Chord.isPlain_of_mem_isTail h.quality.isTail c hc).imp_right And.left
  unfold chars
  rw [List.forall_mem_append, List.forall_mem_append]
  refine ⟨⟨fun _ => NoteName.not_blank_of_mem_chars _, hQuality⟩, ?_⟩
  cases s.bass with
  | none => exact fun c hc => (List.not_mem_nil hc).elim
  | some bass =>
    exact List.forall_mem_cons.mpr ⟨by decide, fun _ => NoteName.not_blank_of_mem_chars _⟩

theorem ofLabel?_text_eq_ofChars? (h : s.IsCanonical) : ofLabel? s.text = ofChars? s.chars := by
  have hChars := h.not_blank_of_mem_chars
  rw [ofLabel?, text, String.toList_ofList, Chord.clean_eq_self hChars, List.filter_eq_self.mpr]
  intro c hc
  rw [decide_eq_true_eq]
  rintro rfl
  exact absurd (hChars _ hc).1 (by decide)

theorem not_accidental (h : s.IsCanonical) (hSharp : ¬ SharpOnLetter s)
    (hNatural : s.root.accidental = .natural) :
    ∀ c ∈ s.quality.toList.head?, Accidental.ofChar? c = none := by
  intro c hc
  rw [Accidental.ofChar?.eq_3]
  · rintro rfl
    exact hSharp ⟨hNatural, hc⟩
  · rintro rfl
    exact h.flat hNatural hc

theorem ofLabel?_text_of_not_sharpOnLetter (h : s.IsCanonical) (hSharp : ¬ SharpOnLetter s) :
    ofLabel? s.text = some s := by
  have hChars := s.chars_eq_append_slashChars
  have hBass := scanBass?_slashChars s.bass
  have hSlash := slashChars_eq_nil_or_cons s.bass
  generalize slashChars s.bass = slash at hChars hBass hSlash
  have hQuality : ∀ c ∈ s.quality.toList, decide (c ≠ '/') = true := fun c hc =>
    decide_eq_true (Chord.isPlain_of_mem_isTail h.quality.isTail c hc).2.2
  have hScan : NoteName.scan? s.chars = some (s.root, s.quality.toList ++ slash) := by
    rw [hChars]
    apply NoteName.scan?_chars_append
    intro hNatural c hc
    cases hEq : s.quality.toList with
    | nil =>
      rw [hEq, List.nil_append] at hc
      rcases hSlash with rfl | ⟨rest, rfl⟩ <;> cases hc
      rfl
    | cons d ds =>
      apply h.not_accidental hSharp hNatural
      simpa [hEq] using hc
  have hTake : (s.quality.toList ++ slash).takeWhile (· ≠ '/') = s.quality.toList := by
    rw [List.takeWhile_append_of_pos hQuality]
    rcases hSlash with rfl | ⟨rest, rfl⟩ <;> simp
  have hDrop : (s.quality.toList ++ slash).dropWhile (· ≠ '/') = slash := by
    rw [List.dropWhile_append_of_pos hQuality]
    rcases hSlash with rfl | ⟨rest, rfl⟩ <;> simp
  have hLetter : s.chars.head? = some s.root.letter.toChar := by rw [hChars]; rfl
  rw [h.ofLabel?_text_eq_ofChars?]
  simp only [ofChars?, hScan, hTake, hDrop, hBass, hLetter, Option.bind_eq_bind, Option.bind_some,
    Chord.isQuality_of_isTail h.quality.isTail, h.quality.spellTail_eq, h.root, h.bass,
    String.ofList_toList]
  simp

theorem ofLabel?_text (h : s.IsCanonical) : ofLabel? s.text = some s.reread := by
  rw [← text_reread]
  exact h.reread.1.ofLabel?_text_of_not_sharpOnLetter h.reread.2

end IsCanonical

theorem aug_isPrefix_append_iff {accidental : Accidental} {rest : List Char} :
    "aug".toList <+: accidental.chars ++ rest ↔
      accidental = .natural ∧ "aug".toList <+: rest.takeWhile (· ≠ '/') := by
  constructor
  · intro h
    cases accidental with
    | sharp | flat => simp [Accidental.chars] at h
    | natural =>
      obtain ⟨more, rfl⟩ := h
      refine ⟨rfl, ?_⟩
      rw [List.takeWhile_append_of_pos (by simp)]
      exact List.prefix_append _ _
  · rintro ⟨rfl, h⟩
    exact h.trans (List.takeWhile_prefix _)

/-- What a label is made of, and the symbol that it gives. -/
theorem exists_of_ofChars? {cs : List Char} {s : ChordSymbol} (h : ofChars? cs = some s) :
    ∃ root rest bass, NoteName.scan? cs = some (root, rest) ∧
      IsTail (rest.takeWhile (· ≠ '/')) ∧
      scanBass? (rest.dropWhile (· ≠ '/')) = some bass ∧
      s = ⟨root.sharpened, String.ofList (Chord.spellTail (rest.takeWhile (· ≠ '/'))),
        bass.map NoteName.sharpened⟩ := by
  simp only [ofChars?, Option.bind_eq_bind, Option.bind_eq_some_iff, Prod.exists] at h
  obtain ⟨root, rest, hScan, bass, hBass, h⟩ := h
  split at h
  · cases h
  rename_i hQuality
  split at h
  · cases h
  cases h
  exact ⟨root, rest, bass, hScan, Chord.isTail_of_isQuality (by simpa using hQuality), hBass, rfl⟩

theorem isCanonical_of_ofLabel? {label : String} {s : ChordSymbol} (h : ofLabel? label = some s) :
    s.IsCanonical ∧ (SharpOnLetter s ↔ AugOnLetter label) := by
  obtain ⟨root, rest, bass, hScan, hTail, -, rfl⟩ := exists_of_ofChars? h
  obtain ⟨l, hLabel, hApart⟩ := NoteName.exists_letter_of_scan?_eq_some hScan
  have hHead := Chord.head?_respelled (rest.takeWhile (· ≠ '/'))
  rw [← Chord.spellTail_of_isTail hTail] at hHead
  have hFirst (hNatural : root.accidental = .natural) :
      ∀ c ∈ (rest.takeWhile (· ≠ '/')).head?, Accidental.ofChar? c = none := by
    intro c hc
    rw [List.head?_takeWhile, Option.mem_filter_iff] at hc
    exact hApart hNatural c hc.1
  constructor
  · constructor
    · exact root.sharpened_sharpened
    · rw [String.toList_ofList, Chord.spellTail_of_isTail hTail]
      exact Chord.isSpelt_respelled hTail
    · simp [Function.comp_def, NoteName.sharpened_sharpened]
    · intro hNatural hFlat
      rw [String.toList_ofList, hHead] at hFlat
      split at hFlat
      · cases hFlat
      · cases hFirst (root.accidental_sharpened.mp hNatural) _ hFlat
  · rw [SharpOnLetter, AugOnLetter, hLabel, String.toList_ofList, hHead,
      NoteName.accidental_sharpened, List.tail_cons, aug_isPrefix_append_iff]
    refine and_congr_right fun hNatural => ?_
    split
    · rename_i hAug
      exact iff_of_true rfl hAug
    · rename_i hNot
      refine ⟨fun hSharp => ?_, fun hAug => absurd hAug hNot⟩
      cases hFirst hNatural _ hSharp

theorem parse_eq_ok_iff {α : Type} {label : String} {s : ChordSymbol} :
    parse (α := α) label = .ok s ↔ ofLabel? label = some s := by
  unfold parse
  split <;> simp_all

/-- The text of an accepted label is accepted. It reads as the symbol of the label, unless the label
has `aug` right behind its letter. Labels of one text have one symbol if both or none are such. -/
theorem parse_text_of_parse {α : Type} {label : String} {s : ChordSymbol}
    (h : parse (α := α) label = .ok s) :
    parse (α := α) s.text = .ok s.reread ∧ (s.reread = s ↔ ¬ AugOnLetter label) ∧
      ∀ other t, parse (α := α) other = .ok t → t.text = s.text →
        (AugOnLetter other ↔ AugOnLetter label) → t = s := by
  obtain ⟨hCanonical, hSharp⟩ := isCanonical_of_ofLabel? (parse_eq_ok_iff.mp h)
  refine ⟨parse_eq_ok_iff.mpr hCanonical.ofLabel?_text, ?_, ?_⟩
  · rw [← hSharp]
    exact ⟨fun hSelf hOn => reread_ne_self hOn hSelf, reread_eq_self⟩
  · intro other t hOther hText hKind
    obtain ⟨hCanonical', hSharp'⟩ := isCanonical_of_ofLabel? (parse_eq_ok_iff.mp hOther)
    apply reread_inj (hSharp'.trans (hKind.trans hSharp.symm))
    have hRead := hCanonical'.ofLabel?_text
    rw [hText, hCanonical.ofLabel?_text] at hRead
    exact (Option.some.inj hRead).symm

theorem parse_text_flat_minor :
    parse (α := Rat) "ebmin7/Bb" = .ok ⟨⟨.d, .sharp⟩, "m7", some ⟨.a, .sharp⟩⟩ ∧
      parse (α := Rat) "D#m7/A#" = .ok ⟨⟨.d, .sharp⟩, "m7", some ⟨.a, .sharp⟩⟩ := by
  have h : parse (α := Rat) "ebmin7/Bb" = .ok ⟨⟨.d, .sharp⟩, "m7", some ⟨.a, .sharp⟩⟩ := by
    rfl
  exact ⟨h, (parse_text_of_parse h).1⟩

/-- `Caug` and `C#5` have one text and are an augmented chord on C and a fifth on C sharp. -/
theorem text_augmented_eq_text_fifth :
    ∃ s t, parse (α := Rat) "Caug" = .ok s ∧ parse (α := Rat) "C#5" = .ok t ∧
      s.text = "C#5" ∧ t.text = "C#5" ∧ s ≠ t ∧
      s.pitchClasses = [0, 4, 8] ∧ t.pitchClasses = [1, 8] :=
  ⟨⟨⟨.c, .natural⟩, "#5", none⟩, ⟨⟨.c, .sharp⟩, "5", none⟩, by rfl, by rfl, by rfl, by rfl,
    by decide, by rfl, by rfl⟩

end ChordSymbol
end LeadSheet
