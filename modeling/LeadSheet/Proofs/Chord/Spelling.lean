import LeadSheet.Chord.Event
import LeadSheet.Proofs.Text.Blank

/-!
# Canonical symbols as text

A canonical symbol has no blanks at its ends and is not empty, so what reads it back finds the
symbol itself.
-/

namespace LeadSheet
set_option autoImplicit false

namespace Chord

theorem isBlank_plainGlyph (c : Char) : Text.isBlank (plainGlyph c) = Text.isBlank c := by
  unfold plainGlyph
  split <;> rfl

theorem isTrim_map_plainGlyph {cs : List Char} (h : Text.IsTrim cs) :
    Text.IsTrim (cs.map plainGlyph) := by
  constructor
  · intro c hc
    rw [List.head?_map] at hc
    obtain ⟨d, hd, rfl⟩ := Option.map_eq_some_iff.mp hc
    rw [isBlank_plainGlyph, h.head d hd]
  · intro c hc
    rw [List.getLast?_map] at hc
    obtain ⟨d, hd, rfl⟩ := Option.map_eq_some_iff.mp hc
    rw [isBlank_plainGlyph, h.last d hd]

theorem isTrim_clean (cs : List Char) : Text.IsTrim (clean cs) :=
  (isTrim_map_plainGlyph (Text.isTrim_trim cs)).collapseBlanks

theorem isTrim_spellChars (cs : List Char) : Text.IsTrim (spellChars cs) := by
  unfold spellChars
  simp only
  split
  · exact isTrim_clean cs
  · exact Text.isTrim_trim _

end Chord

namespace ChordEvent

theorem trimmed_symbol (e : ChordEvent) : Text.trimmed e.symbol = e.symbol := by
  rw [symbol, Chord.spellOrNone]
  split
  · rfl
  · rw [Chord.spell, Text.trimmed_ofList, (Chord.isTrim_spellChars _).trim_eq]

theorem isEmpty_symbol (e : ChordEvent) : e.symbol.isEmpty = false := by
  rw [symbol, Chord.spellOrNone]
  split
  · rfl
  · rename_i h
    simpa using h

end ChordEvent

end LeadSheet
