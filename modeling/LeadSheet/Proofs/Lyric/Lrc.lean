import LeadSheet.Export.Lyrics
import LeadSheet.Proofs.Lyric.Stamp
import LeadSheet.Proofs.Text.Line

/-!
# LRC written and read

A line is a tag and a text. Tags are searched for anywhere in a line, so a text that holds the
pattern of a tag would stamp its line again; one that does not comes back as it was. The reader then
sorts the words by their start.
-/

namespace LeadSheet.Lyric
set_option autoImplicit false

open Export

inductive IsTag : List Char → Prop
  | short {minutes seconds : List Char} (hMinutes : IsField 1 3 minutes)
      (hSeconds : IsField 2 2 seconds) : IsTag ('[' :: (minutes ++ ':' :: (seconds ++ [']'])))
  | long {minutes seconds parts : List Char} {mark : Char} (hMinutes : IsField 1 3 minutes)
      (hSeconds : IsField 2 2 seconds) (hMark : mark = '.' ∨ mark = ':')
      (hParts : IsField 1 3 parts) :
      IsTag ('[' :: (minutes ++ ':' :: (seconds ++ mark :: (parts ++ [']']))))

section Tags

variable {α : Type} [Scalar α] {cs rest : List Char}

theorem scanTagEnd?_eq_some_iff {parts : α} :
    scanTagEnd? cs = some (parts, rest) ↔
      (cs = ']' :: rest ∧ parts = 0) ∨
        ∃ mark digits, (mark = '.' ∨ mark = ':') ∧ IsField 1 3 digits ∧
          cs = mark :: (digits ++ ']' :: rest) ∧ parts = fraction digits := by
  have hField {ds : List Char} : (∃ digits after, scanField? 1 3 ds = some (digits, after) ∧
      ∃ tail, scanChar? ']' after = some tail ∧ fraction digits = parts ∧ tail = rest) ↔
        ∃ digits, IsField 1 3 digits ∧ ds = digits ++ ']' :: rest ∧ parts = fraction digits := by
    simp only [scanField?_eq_some_iff, scanChar?_eq_some_iff]
    constructor
    · rintro ⟨digits, after, ⟨hDigits, rfl, _⟩, tail, rfl, rfl, rfl⟩
      exact ⟨digits, hDigits, rfl, rfl⟩
    · rintro ⟨digits, hDigits, rfl, rfl⟩
      exact ⟨digits, _, ⟨hDigits, rfl, head?_cons_not_digit rfl rest⟩, rest, rfl, rfl, rfl⟩
  unfold scanTagEnd?
  split
  · simp [eq_comm, and_comm]
  · simp only [Option.bind_eq_bind, Option.bind_eq_some_iff, Option.some.injEq, Prod.mk.injEq,
      Prod.exists, hField]
    simp
  · simp only [Option.bind_eq_bind, Option.bind_eq_some_iff, Option.some.injEq, Prod.mk.injEq,
      Prod.exists, hField]
    simp
  · simp_all

theorem exists_isTag_of_scanTag? {time : α} (h : scanTag? cs = some (time, rest)) :
    ∃ tag, IsTag tag ∧ cs = tag ++ rest := by
  simp only [scanTag?, Option.bind_eq_bind, Option.bind_eq_some_iff, Option.some.injEq,
    Prod.mk.injEq] at h
  obtain ⟨afterOpen, hOpen, ⟨minutes, afterMinutes⟩, hScanMinutes, afterColon, hColon,
    ⟨seconds, afterSeconds⟩, hScanSeconds, ⟨parts, afterTag⟩, hEnd, _, rfl⟩ := h
  obtain rfl := scanChar?_eq_some_iff.mp hOpen
  obtain ⟨hMinutes, rfl, _⟩ := scanField?_eq_some_iff.mp hScanMinutes
  obtain rfl := scanChar?_eq_some_iff.mp hColon
  obtain ⟨hSeconds, rfl, _⟩ := scanField?_eq_some_iff.mp hScanSeconds
  rcases scanTagEnd?_eq_some_iff.mp hEnd with ⟨rfl, _⟩ | ⟨mark, digits, hMark, hParts, rfl, _⟩
  · exact ⟨_, .short hMinutes hSeconds, by simp⟩
  · exact ⟨_, .long hMinutes hSeconds hMark hParts, by simp⟩

theorem scanTag?_append {minutes seconds after : List Char} {parts : α}
    (hMinutes : IsField 1 3 minutes) (hSeconds : IsField 2 2 seconds)
    (hAfter : ∀ c ∈ after.head?, Text.isDigit c = false)
    (hEnd : scanTagEnd? after = some (parts, rest)) :
    scanTag? ('[' :: (minutes ++ ':' :: (seconds ++ after))) =
      some (whole minutes * 60 + whole seconds + parts, rest) := by
  have hScanMinutes := scanField?_eq_some_iff.mpr
    ⟨hMinutes, rfl, head?_cons_not_digit (c := ':') rfl (seconds ++ after)⟩
  have hScanSeconds := scanField?_eq_some_iff.mpr ⟨hSeconds, rfl, hAfter⟩
  simp only [scanTag?, scanChar?, if_true, Option.bind_eq_bind, Option.bind_some, hScanMinutes,
    hScanSeconds, hEnd]

theorem exists_scanTag?_of_isTag {tag : List Char} (h : IsTag tag) (rest : List Char) :
    ∃ time : α, scanTag? (tag ++ rest) = some (time, rest) := by
  cases h with
  | @short minutes seconds hMinutes hSeconds =>
    have hEnd : scanTagEnd? (']' :: rest) = some ((0 : α), rest) :=
      scanTagEnd?_eq_some_iff.mpr (.inl ⟨rfl, rfl⟩)
    have hScan := scanTag?_append hMinutes hSeconds (head?_cons_not_digit rfl rest) hEnd
    exact ⟨_, by simpa using hScan⟩
  | @long minutes seconds parts mark hMinutes hSeconds hMark hParts =>
    have hEnd : scanTagEnd? (mark :: (parts ++ ']' :: rest)) = some ((fraction parts : α), rest) :=
      scanTagEnd?_eq_some_iff.mpr (.inr ⟨mark, parts, hMark, hParts, rfl, rfl⟩)
    have hNotDigit : Text.isDigit mark = false := by
      rcases hMark with rfl | rfl <;> rfl
    have hScan := scanTag?_append hMinutes hSeconds (head?_cons_not_digit hNotDigit _) hEnd
    exact ⟨_, by simpa using hScan⟩

theorem splitTags_of_scanTag? {time : α} (h : scanTag? cs = some (time, rest)) :
    splitTags cs = (time :: (splitTags (α := α) rest).1, (splitTags (α := α) rest).2) := by
  cases cs with
  | nil => cases h
  | cons c cs =>
    rw [splitTags]
    split
    · rename_i found hFound
      rw [h] at hFound
      cases hFound
      rfl
    · rename_i hNone
      rw [h] at hNone
      cases hNone

theorem splitTags_cons {c : Char} (h : scanTag? (α := α) (c :: cs) = none) :
    splitTags (α := α) (c :: cs) =
      ((splitTags (α := α) cs).1, c :: (splitTags (α := α) cs).2) := by
  rw [splitTags]
  split
  · rename_i found hFound
    rw [h] at hFound
    cases hFound
  · rfl

/-- A text without the pattern has no times, and stays as it is. -/
theorem splitTags_of_no_tag (h : ∀ tag, tag <:+: cs → ¬IsTag tag) :
    splitTags (α := α) cs = ([], cs) := by
  induction cs with
  | nil => rw [splitTags]
  | cons c cs ih =>
    have hNone : scanTag? (α := α) (c :: cs) = none := by
      by_contra hSome
      obtain ⟨⟨time, rest⟩, hFound⟩ := Option.ne_none_iff_exists'.mp hSome
      obtain ⟨tag, hTag, hSplit⟩ := exists_isTag_of_scanTag? hFound
      exact h tag (hSplit ▸ (List.prefix_append tag rest).isInfix) hTag
    rw [splitTags_cons hNone, ih fun tag hTag => h tag (hTag.trans (List.suffix_cons c cs).isInfix)]

theorem exists_time_of_isTag {front tag back : List Char} (h : IsTag tag) :
    (splitTags (α := α) (front ++ tag ++ back)).1 ≠ [] := by
  induction front with
  | nil =>
    obtain ⟨time, hFound⟩ := exists_scanTag?_of_isTag (α := α) h back
    rw [List.nil_append, splitTags_of_scanTag? hFound]
    exact List.cons_ne_nil _ _
  | cons c front ih =>
    cases hFound : scanTag? (α := α) (c :: front ++ tag ++ back) with
    | some found =>
      rw [splitTags_of_scanTag? hFound]
      exact List.cons_ne_nil _ _
    | none =>
      rw [List.cons_append, List.cons_append] at hFound ⊢
      rw [splitTags_cons hFound]
      exact ih

theorem fst_splitTags_eq_nil_iff :
    (splitTags (α := α) cs).1 = [] ↔ ∀ tag, tag <:+: cs → ¬IsTag tag := by
  constructor
  · rintro h tag ⟨front, back, rfl⟩ hTag
    exact exists_time_of_isTag hTag h
  · intro h
    rw [splitTags_of_no_tag h]

end Tags

/-- A row whose tag has minutes of three digits at most and is the only one in its line. -/
structure FitsLrc (row : Row Rat) : Prop where
  start_lt : nearestPart 100 row.start < 60000
  one_line : '\n' ∉ (lyricText row).toList
  no_tag : ∀ tag, tag <:+: (lyricText row).toList → ¬IsTag tag

instance : DecidablePred FitsLrc := fun row =>
  decidable_of_iff (nearestPart 100 row.start < 60000 ∧ '\n' ∉ (lyricText row).toList ∧
      (splitTags (α := Rat) (lyricText row).toList).1 = []) <| by
    rw [fst_splitTags_eq_nil_iff]
    constructor
    · rintro ⟨hStart, hLine, hTag⟩
      exact ⟨hStart, hLine, hTag⟩
    · rintro ⟨hStart, hLine, hTag⟩
      exact ⟨hStart, hLine, hTag⟩

/-- The word that a row writes, to the hundredth, unless its text is blank. -/
def lineWord? (row : Row Rat) : Option (Word Rat) :=
  let text := Text.trimmed (lyricText row)
  if text.isEmpty then none else some ⟨text, nearestPart 100 row.start, none, none⟩

def taggedLine (row : Row Rat) : List Char := (lrcTag row.start).toList ++ (lyricText row).toList

section Line

variable {row : Row Rat}

theorem linefeed_not_mem_lrcTag (t : Rat) : '\n' ∉ (lrcTag t).toList := by
  have hPadded (width n : Nat) : '\n' ∉ (padded width n).toList := fun h =>
    absurd (isDigit_of_mem_padded h) (by decide)
  simp [toList_lrcTag, hPadded]

theorem linefeed_not_mem_taggedLine (h : FitsLrc row) : '\n' ∉ taggedLine row := by
  rw [taggedLine, List.mem_append]
  rintro (hTag | hText)
  · exact linefeed_not_mem_lrcTag _ hTag
  · exact h.one_line hText

theorem dropReturn_taggedLine (row : Row Rat) : Text.dropReturn (taggedLine row) =
    (lrcTag row.start).toList ++ Text.dropReturn (lyricText row).toList := by
  rw [taggedLine]
  by_cases hNil : (lyricText row).toList = []
  · have hTag : Text.dropReturn (lrcTag row.start).toList = (lrcTag row.start).toList := by
      apply Text.dropReturn_eq_self
      intro c hc
      have hLast : (lrcTag row.start).toList.getLast? = some ']' := by
        rw [lrcTag, String.toList_append]
        exact List.getLast?_concat
      rw [hLast] at hc
      cases hc
      decide
    rw [hNil, List.append_nil, hTag]
    exact (List.append_nil _).symm
  · exact Text.dropReturn_append hNil _

theorem lineWords_taggedLine (h : FitsLrc row) :
    lineWords (Text.dropReturn (taggedLine row)) = (lineWord? row).toList := by
  have hNoTag : ∀ tag, tag <:+: Text.dropReturn (lyricText row).toList → ¬IsTag tag := by
    intro tag hTag
    exact h.no_tag tag (hTag.trans (Text.dropReturn_prefix _).isInfix)
  rw [dropReturn_taggedLine, lineWords, splitTags_of_scanTag? (scanTag?_lrcTag h.start_lt _),
    splitTags_of_no_tag hNoTag, lineWord?]
  simp only [Text.trim_dropReturn, Text.isEmpty_trimmed]
  by_cases hBlank : (Text.trim (lyricText row).toList).isEmpty = true
  · rw [if_pos hBlank, if_pos hBlank]
    rfl
  · rw [if_neg hBlank, if_neg hBlank]
    rfl

end Line

theorem toList_lrc (rows : List (Row Rat)) :
    (lrc rows).toList = ((wordRows rows).map taggedLine).flatMap (· ++ ['\n']) := by
  simp [lrc, lrcLine, taggedLine, String.toList_join, List.flatMap_map]

/-- An LRC text reads back as one word for each word row that has a text, in order of their start;
words of one start stay in row order. -/
theorem readLrc_lrc {rows : List (Row Rat)} (h : ∀ row ∈ rows, row.kind = .lyric → FitsLrc row) :
    readLrc (lrc rows) =
      ((wordRows rows).filterMap lineWord?).mergeSort fun v w => v.start ≤ w.start := by
  have hWords : ∀ row ∈ wordRows rows, FitsLrc row := by
    intro row hRow
    obtain ⟨hMem, hKind⟩ := List.mem_filter.mp hRow
    exact h row hMem (by simpa using hKind)
  have hLines : ∀ line ∈ (wordRows rows).map taggedLine, '\n' ∉ line := by
    rw [List.forall_mem_map]
    intro row hRow
    exact linefeed_not_mem_taggedLine (hWords row hRow)
  have hRead : ((wordRows rows).map (Text.dropReturn ∘ taggedLine)).flatMap lineWords =
      (wordRows rows).filterMap lineWord? := by
    rw [List.flatMap_map, List.filterMap_eq_flatMap_toList]
    apply List.flatMap_congr
    intro row hRow
    rw [Function.comp_apply, lineWords_taggedLine (hWords row hRow)]
  rw [readLrc, toList_lrc, Text.lines_flatMap hLines, List.map_map, hRead]
  simp only [Scalar.atMost_eq_decide]

/-- Rows out of order, with a chord, a blank lyric and a lyric of brackets and digits among them. -/
def unorderedRows : List (Row Rat) :=
  [{ Row.blank .lyric 1 1 0 75.556 with lyric := some "two [2:1] " },
    Row.blank .chord 1 1 0 0,
    { Row.blank .lyric 1 1 0 3 with lyric := some " " },
    { Row.blank .lyric 1 1 0 60 with lyric := some "one", wordStart := some 59.996 }]

theorem readLrc_lrc_unordered :
    (∀ row ∈ unorderedRows, row.kind = .lyric → FitsLrc row) ∧
      readLrc (lrc unorderedRows) =
        [⟨"one", (60 : Rat), none, none⟩, ⟨"two [2:1]", (1889 / 25 : Rat), none, none⟩] := by
  have hFits : ∀ row ∈ unorderedRows, row.kind = .lyric → FitsLrc row := by
    decide +kernel
  have hWords : (wordRows unorderedRows).filterMap lineWord? =
      [⟨"two [2:1]", (1889 / 25 : Rat), none, none⟩, ⟨"one", (60 : Rat), none, none⟩] := by
    decide +kernel
  refine ⟨hFits, ?_⟩
  rw [readLrc_lrc hFits, hWords]
  have hLt : ¬ (1889 / 25 : Rat) ≤ 60 := by norm_num
  simp [List.mergeSort, List.MergeSort.Internal.splitInTwo, hLt]

end LeadSheet.Lyric
