import LeadSheet.Proofs.Chord.Spelling
import LeadSheet.Proofs.Chord.Steps

/-!
# Labels spelled as they are read

An accepted label can be spelled in two ways: by reading it as a symbol and writing that, and by
respelling its text. Without white space inside they agree.
-/

namespace LeadSheet
set_option autoImplicit false

namespace ChordSymbol

open Chord

theorem filter_clean_of_not_blank {cs : List Char}
    (h : ∀ c ∈ Text.trim cs, Text.isBlank c = false) : (clean cs).filter (· ≠ ' ') = clean cs := by
  have hGlyphs : ∀ c ∈ (Text.trim cs).map plainGlyph, Text.isBlank c = false := by
    simpa only [List.forall_mem_map, isBlank_plainGlyph] using h
  rw [clean, Text.collapseBlanks_eq_self hGlyphs, List.filter_eq_self]
  intro c hc
  rw [decide_eq_true_eq]
  rintro rfl
  exact absurd (hGlyphs _ hc) (by decide)

theorem respell_slash {slash : List Char} {bass : Option NoteName}
    (hBass : scanBass? slash = some bass) (hSlash : ∀ c ∈ slash.head?, c = '/') :
    respell slash = slashChars (bass.map NoteName.sharpened) := by
  cases slash with
  | nil =>
    cases hBass
    rfl
  | cons c cs =>
    cases hSlash c rfl
    rw [scanBass?] at hBass
    split at hBass
    · rename_i note hScan
      cases hBass
      obtain ⟨l, hcs, -⟩ := NoteName.exists_letter_of_scan?_eq_some hScan
      -- a note name has no room for a word that is replaced
      have hShort {p q r : Char} (hp : p ∉ ['/']) : ¬[p, q, r] <:+: '/' :: cs := by
        intro hWord
        have hLength := ((isInfix_append_iff hp).mp hWord).length_le
        rw [hcs] at hLength
        cases hAccidental : note.accidental <;> simp [hAccidental, Accidental.chars] at hLength
      rw [respell, shortenMinor_eq_replaceWord, replaceWord_eq_self (hShort (by decide)),
        raiseFifth_eq_replaceWord, replaceWord_eq_self (hShort (by decide)),
        sharpenBass_slash_of_some hScan, sharpenBass, List.append_nil]
      rfl
    · cases hBass

theorem respell_append_slash {quality slash : List Char} {bass : Option NoteName}
    (hQuality : IsTail quality) (hBass : scanBass? slash = some bass)
    (hSlash : ∀ c ∈ slash.head?, c = '/') :
    respell (quality ++ slash) =
      spellTail quality ++ slashChars (bass.map NoteName.sharpened) := by
  have hApart {d e : Char} (hd : '/' ≠ d) (he : '/' ≠ e) : ∀ c ∈ slash.head?, c ≠ d ∧ c ≠ e :=
    fun c hc => hSlash c hc ▸ ⟨hd, he⟩
  have hNoSlash : '/' ∉ raiseFifth (shortenMinor quality) := fun hMem =>
    (isPlain_of_mem_isTail (isSpelt_respelled hQuality).isTail _ hMem).2.2 rfl
  have hHead : ∀ c ∈ (shortenMinor slash).head?, c ≠ 'u' ∧ c ≠ 'g' := by
    rw [head?_shortenMinor]
    exact hApart (by decide) (by decide)
  rw [respell, shortenMinor_append (hApart (by decide) (by decide)), raiseFifth_append hHead,
    sharpenBass_append hNoSlash, spellTail_of_isTail hQuality, ← respell_slash hBass hSlash]
  rfl

theorem spellChars_of_ofChars? {cs : List Char} {s : ChordSymbol} (hCanonical : s.IsCanonical)
    (h : ofChars? (clean cs) = some s) : spellChars cs = s.chars := by
  obtain ⟨root, rest, bass, hScan, hTail, hBass, rfl⟩ := exists_of_ofChars? h
  have hSlash : ∀ c ∈ (rest.dropWhile (· ≠ '/')).head?, c = '/' := by
    intro c hc
    have hHead := List.head?_dropWhile_not (fun c => decide (c ≠ '/')) rest
    rw [hc] at hHead
    simpa using hHead
  have hRest := respell_append_slash hTail hBass hSlash
  rw [List.takeWhile_append_dropWhile] at hRest
  have hPlain := hCanonical.not_blank_of_mem_chars
  rw [chars_eq_append_slashChars, String.toList_ofList] at hPlain ⊢
  have hTrim := Text.isTrim_of_not_blank fun c hc => (hPlain c (List.mem_append_right _ hc)).1
  rw [← hRest] at hTrim hPlain ⊢
  rw [spellChars, hScan]
  dsimp only
  rw [spellTail_eq_trim_respell, hTrim.trim_eq,
    (Text.isTrim_of_not_blank fun c hc => (hPlain c hc).1).trim_eq]

/-- The text of the symbol of a label is its own canonical spelling. -/
theorem IsCanonical.spell_text {s : ChordSymbol} (h : s.IsCanonical) : spell s.text = s.text := by
  have hRead := h.ofLabel?_text
  rw [h.ofLabel?_text_eq_ofChars?, ← clean_eq_self h.not_blank_of_mem_chars] at hRead
  rw [spell, text, String.toList_ofList, spellChars_of_ofChars? h.reread.1 hRead]
  exact text_reread s

/-- An accepted label without white space inside is spelled as the text of its symbol. -/
theorem spell_eq_text_of_parse {α : Type} {label : String} {s : ChordSymbol}
    (h : parse (α := α) label = .ok s)
    (hInside : ∀ c ∈ Text.trim label.toList, Text.isBlank c = false) :
    spell label = s.text := by
  have hLabel := parse_eq_ok_iff.mp h
  have hCanonical := (isCanonical_of_ofLabel? hLabel).1
  rw [ofLabel?, filter_clean_of_not_blank hInside] at hLabel
  rw [spell, spellChars_of_ofChars? hCanonical hLabel, text]

/-- Glyphs, a small letter, an alias and a flat bass between blanks. -/
theorem spell_eq_text_of_flat_minor :
    parse (α := Rat) " e♭min7/B♭ " = .ok ⟨⟨.d, .sharp⟩, "m7", some ⟨.a, .sharp⟩⟩ ∧
      spell " e♭min7/B♭ " = "D#m7/A#" := by
  have h : parse (α := Rat) " e♭min7/B♭ " = .ok ⟨⟨.d, .sharp⟩, "m7", some ⟨.a, .sharp⟩⟩ := by
    rfl
  have hInside : (Text.trim " e♭min7/B♭ ".toList).all (!Text.isBlank ·) = true := by rfl
  refine ⟨h, spell_eq_text_of_parse h fun c hc => ?_⟩
  simpa using List.all_eq_true.mp hInside c hc

end ChordSymbol

end LeadSheet
