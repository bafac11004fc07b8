import LeadSheet.Export.Lyrics
import LeadSheet.Proofs.Lyric.Stamp
import LeadSheet.Proofs.Text.Line

/-!
# WebVTT written and read

A cue is three lines: the two stamps, the text and a blank line. The reader takes the text to the
cue whatever it says, finds no cue in a blank line, and so comes to the next cue with nothing left
over. One word comes back for each word row with a text.
-/

namespace LeadSheet.Lyric
set_option autoImplicit false

open Export

/-- A row whose cue stands on three lines and has hours of two digits. -/
structure FitsVtt (row : Row Rat) : Prop where
  start_lt : nearestPart 1000 row.start < 360000
  end_lt : nearestPart 1000 (cueEnd row) < 360000
  one_line : '\n' ∉ (lyricText row).toList

instance : DecidablePred FitsVtt := fun row =>
  decidable_of_iff (nearestPart 1000 row.start < 360000 ∧ nearestPart 1000 (cueEnd row) < 360000 ∧
      '\n' ∉ (lyricText row).toList) <| by
    constructor
    · rintro ⟨hStart, hEnd, hLine⟩
      exact ⟨hStart, hEnd, hLine⟩
    · rintro ⟨hStart, hEnd, hLine⟩
      exact ⟨hStart, hEnd, hLine⟩

/-- The word that a row writes, to the millisecond, unless its text is blank. -/
def cueWord? (row : Row Rat) : Option (Word Rat) :=
  let text := Text.trimmed (lyricText row)
  if text.isEmpty then none
  else some ⟨text, nearestPart 1000 row.start, some (nearestPart 1000 (cueEnd row)), none⟩

def cueLine (row : Row Rat) : List Char :=
  (vttStamp row.start).toList ++ " --> ".toList ++ (vttStamp (cueEnd row)).toList

def cueLines (row : Row Rat) : List (List Char) := [cueLine row, (lyricText row).toList, []]

section Stamps

variable {t : Rat}

theorem isDigit_or_mark_of_mem_vttStamp {c : Char} (h : c ∈ (vttStamp t).toList) :
    c.isDigit = true ∨ c = ':' ∨ c = '.' := by
  rw [toList_vttStamp] at h
  simp only [List.mem_append, List.mem_cons] at h
  rcases h with h | h | h | h | h | h | h
  · exact .inl (isDigit_of_mem_padded h)
  · exact .inr (.inl h)
  · exact .inl (isDigit_of_mem_padded h)
  · exact .inr (.inl h)
  · exact .inl (isDigit_of_mem_padded h)
  · exact .inr (.inr h)
  · exact .inl (isDigit_of_mem_padded h)

theorem toNat_bounds_of_mem_vttStamp {c : Char} (h : c ∈ (vttStamp t).toList) :
    46 ≤ c.toNat ∧ c.toNat < 59 := by
  rcases isDigit_or_mark_of_mem_vttStamp h with hDigit | rfl | rfl
  · have := Text.isDigit_bounds hDigit
    omega
  · decide
  · decide

theorem not_isBlank_of_mem_vttStamp {c : Char} (h : c ∈ (vttStamp t).toList) :
    Text.isBlank c = false := by
  have hBounds := toNat_bounds_of_mem_vttStamp h
  simp only [Text.isBlank, Bool.or_eq_false_iff, Bool.and_eq_false_iff, decide_eq_false_iff_not,
    beq_eq_false_iff_ne]
  omega

theorem vttStamp_ne_nil : (vttStamp t).toList ≠ [] := by
  rw [toList_vttStamp]
  exact List.append_ne_nil_of_right_ne_nil _ (List.cons_ne_nil _ _)

end Stamps

section Cue

variable {row : Row Rat}

theorem isTrim_cueLine : Text.IsTrim (cueLine row) :=
  Text.isTrim_append (Text.isTrim_of_not_blank fun _ => not_isBlank_of_mem_vttStamp) vttStamp_ne_nil
    (Text.isTrim_of_not_blank fun _ => not_isBlank_of_mem_vttStamp) vttStamp_ne_nil

theorem linefeed_not_mem_cueLine : '\n' ∉ cueLine row := by
  intro h
  rw [cueLine, List.mem_append, List.mem_append] at h
  rcases h with (h | h) | h
  · exact absurd (toNat_bounds_of_mem_vttStamp h).1 (by decide)
  · exact absurd h (by decide)
  · exact absurd (toNat_bounds_of_mem_vttStamp h).1 (by decide)

theorem linefeed_not_mem_of_mem_cueLines (h : FitsVtt row) : ∀ line ∈ cueLines row, '\n' ∉ line := by
  intro line hLine
  rw [cueLines, List.mem_cons, List.mem_cons, List.mem_singleton] at hLine
  rcases hLine with hLine | hLine | hLine
  · rw [hLine]
    exact linefeed_not_mem_cueLine
  · rw [hLine]
    exact h.one_line
  · rw [hLine]
    exact List.not_mem_nil

theorem map_dropReturn_cueLines (row : Row Rat) : (cueLines row).map Text.dropReturn =
    [cueLine row, Text.dropReturn (lyricText row).toList, []] := by
  have hCue : Text.dropReturn (cueLine row) = cueLine row := by
    apply Text.dropReturn_eq_self
    intro c hc hReturn
    have hBlank := isTrim_cueLine.last c hc
    rw [hReturn] at hBlank
    exact absurd hBlank (by decide)
  rw [cueLines, List.map_cons, List.map_cons, List.map_cons, List.map_nil, hCue]
  rfl

theorem scanCue?_cueLine (h : FitsVtt row) :
    scanCue? (cueLine row) =
      some (nearestPart 1000 row.start, nearestPart 1000 (cueEnd row)) := by
  have hSpace (cs : List Char) : Text.trimStart (' ' :: cs) = Text.trimStart cs := rfl
  have hArrow (cs : List Char) : Text.trimStart ('-' :: cs) = '-' :: cs := rfl
  have hEnd : Text.trimStart (vttStamp (cueEnd row)).toList = (vttStamp (cueEnd row)).toList ++ [] := by
    rw [List.append_nil, Text.trimStart, List.dropWhile_eq_self_iff]
    intro hl
    simp [not_isBlank_of_mem_vttStamp (List.getElem_mem hl)]
  have hMid : " --> ".toList ++ (vttStamp (cueEnd row)).toList =
      ' ' :: '-' :: '-' :: '>' :: ' ' :: (vttStamp (cueEnd row)).toList := rfl
  rw [cueLine, List.append_assoc, hMid, scanCue?, scanStamp?_vttStamp h.start_lt]
  simp only [Option.bind_eq_bind, Option.bind_some, hSpace, hArrow, scanArrow?]
  rw [hEnd, scanStamp?_vttStamp h.end_lt]
  rfl

theorem readCues_cue (h : FitsVtt row) (more : List (List Char)) :
    readCues (cueLine row :: Text.dropReturn (lyricText row).toList :: [] :: more) =
      (cueWord? row).toList ++ readCues more := by
  have hSkip : readCues ([] :: more) = (readCues more : List (Word Rat)) := by
    rw [readCues]
    rfl
  have hText : Text.trim (Text.dropReturn (lyricText row).toList) =
      Text.trim (lyricText row).toList := Text.trim_dropReturn _
  rw [readCues, isTrim_cueLine.trim_eq, scanCue?_cueLine h, cueWord?]
  simp only [Text.isEmpty_trimmed]
  by_cases hBlank : (Text.trim (lyricText row).toList).isEmpty = true
  · have hLine : isBlankLine (Text.dropReturn (lyricText row).toList) = true := by
      rw [isBlankLine, hText, hBlank]
    simp [hLine, hBlank, hSkip]
  · have hLine : isBlankLine (Text.dropReturn (lyricText row).toList) = false := by
      rw [isBlankLine, hText]
      simpa using hBlank
    have hNext : isBlankLine [] = true := rfl
    simp [hLine, hBlank, hNext, hText, Text.trimmed]

end Cue

theorem toList_vtt (rows : List (Row Rat)) :
    (vtt rows).toList =
      ("WEBVTT".toList :: [] :: (wordRows rows).flatMap cueLines).flatMap (· ++ ['\n']) := by
  simp [vtt, vttCue, cueLines, cueLine, String.toList_join, List.flatMap_assoc, List.flatMap_map]

theorem readCues_heading (more : List (List Char)) :
    readCues ("WEBVTT".toList :: [] :: more) = (readCues more : List (Word Rat)) := by
  rw [readCues]
  change readCues ([] :: more) = _
  rw [readCues]
  rfl

theorem readCues_cueLines {rows : List (Row Rat)} (h : ∀ row ∈ rows, FitsVtt row) :
    readCues ((rows.flatMap cueLines).map Text.dropReturn) = rows.filterMap cueWord? := by
  induction rows with
  | nil =>
    rw [List.flatMap_nil, List.map_nil, readCues]
    rfl
  | cons row rows ih =>
    obtain ⟨hRow, hRest⟩ := List.forall_mem_cons.mp h
    rw [List.flatMap_cons, List.map_append, map_dropReturn_cueLines, List.cons_append,
      List.cons_append, List.cons_append, List.nil_append, readCues_cue hRow, ih hRest,
      List.filterMap_cons]
    cases cueWord? row <;> rfl

/-- A WebVTT document reads back as one word for each word row that has a text, in row order. -/
theorem read_vtt {rows : List (Row Rat)} (h : ∀ row ∈ rows, row.kind = .lyric → FitsVtt row) :
    read (vtt rows) = (wordRows rows).filterMap cueWord? := by
  have hWords : ∀ row ∈ wordRows rows, FitsVtt row := by
    intro row hRow
    obtain ⟨hMem, hKind⟩ := List.mem_filter.mp hRow
    exact h row hMem (by simpa using hKind)
  have hHeading : "WEBVTT".toList.isPrefixOf (Text.trimStart (vtt rows).toList) = true := by
    rw [toList_vtt]
    rfl
  have hLines : ∀ line ∈ "WEBVTT".toList :: [] :: (wordRows rows).flatMap cueLines,
      '\n' ∉ line := by
    rw [List.forall_mem_cons, List.forall_mem_cons]
    refine ⟨by decide, List.not_mem_nil, ?_⟩
    intro line hLine
    obtain ⟨row, hRow, hLine⟩ := List.mem_flatMap.mp hLine
    exact linefeed_not_mem_of_mem_cueLines (hWords row hRow) line hLine
  rw [read, hHeading, Bool.true_or, if_pos rfl, readVtt, toList_vtt, Text.lines_flatMap hLines,
    List.map_cons, List.map_cons, ← readCues_cueLines hWords]
  exact readCues_heading _

/-- Rows with a lyric that looks like a cue line, a blank lyric and a word before the start. -/
def cueLikeRows : List (Row Rat) :=
  [{ Row.blank .lyric 1 1 0 1.5 with
      lyric := some " 00:01.000 --> 00:02.000 ", wordEnd := some 3661.9996 },
    Row.blank .chord 1 1 0 0,
    { Row.blank .lyric 1 1 0 3 with lyric := some " " },
    { Row.blank .lyric 1 1 0 (-1) with lyric := some "la", dur := some 2 }]

theorem read_vtt_cue_like :
    (∀ row ∈ cueLikeRows, row.kind = .lyric → FitsVtt row) ∧
      read (vtt cueLikeRows) =
        [⟨"00:01.000 --> 00:02.000", (3 / 2 : Rat), some 3662, none⟩,
          ⟨"la", (0 : Rat), some 1, none⟩] := by
  have hFits : ∀ row ∈ cueLikeRows, row.kind = .lyric → FitsVtt row := by
    decide +kernel
  refine ⟨hFits, ?_⟩
  rw [read_vtt hFits]
  decide +kernel

end LeadSheet.Lyric
