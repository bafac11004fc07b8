import LeadSheet.Export.Chart
import LeadSheet.Proofs.Lyric.ChordScan
import LeadSheet.Proofs.Text.Blank
import LeadSheet.Scalar.Rational

/-!
# Chord names over words

The chord line of a bar is as wide as its words, and a name is written into it at the column of its
chord: what has no room is cut off, and what stands there already is lost. So a name is shown in
full if it ends within the line and no chord after it is written into it.
-/

namespace LeadSheet.Export
set_option autoImplicit false

section Line

variable {line name text : List Char} {column : Nat}

/-- The name stands in the line from a column on. -/
def Shows (line : List Char) (column : Nat) (name : List Char) : Prop :=
  ∃ front back, line = front ++ (name ++ back) ∧ front.length = column

theorem length_writeOver (line : List Char) (column : Nat) (text : List Char) :
    (writeOver line column text).length = line.length := by
  simp only [writeOver, List.length_append, List.length_take, List.length_drop]
  omega

theorem shows_writeOver (h : column + name.length ≤ line.length) :
    Shows (writeOver line column name) column name := by
  have hRoom : name.take (line.length - column) = name := List.take_of_length_le (by omega)
  refine ⟨line.take column, line.drop (column + name.length), ?_, ?_⟩
  · rw [writeOver, hRoom]
  · rw [List.length_take]
    omega

theorem Shows.writeOver_behind {at' : Nat} (h : Shows line column name)
    (hBehind : column + name.length ≤ at') : Shows (writeOver line at' text) column name := by
  obtain ⟨front, back, rfl, rfl⟩ := h
  have hTake : (front ++ (name ++ back)).take at' =
      front ++ (name ++ back.take (at' - (front.length + name.length))) := by
    rw [List.take_append, List.take_of_length_le (by omega), List.take_append,
      List.take_of_length_le (by omega), Nat.sub_sub]
  rw [writeOver, hTake]
  exact ⟨front, _, by simp only [List.append_assoc]; rfl, rfl⟩

theorem Shows.writeOver_before {at' : Nat} (h : Shows line column name)
    (hBefore : at' + text.length ≤ column) : Shows (writeOver line at' text) column name := by
  obtain ⟨front, back, rfl, rfl⟩ := h
  have hDrop : (front ++ (name ++ back)).drop (at' + text.length) =
      front.drop (at' + text.length) ++ (name ++ back) := List.drop_append_of_le_length hBefore
  have hRoom : text.take ((front ++ (name ++ back)).length - at') = text := by
    apply List.take_of_length_le
    rw [List.length_append]
    omega
  refine ⟨front.take at' ++ (text ++ front.drop (at' + text.length)), back, ?_, ?_⟩
  · rw [writeOver, hDrop, hRoom, List.take_append_of_le_length (by omega)]
    simp only [List.append_assoc]
  · simp only [List.length_append, List.length_take, List.length_drop]
    omega

theorem isInfix_trimEnd (h : Text.IsTrim name) (hNe : name ≠ []) (front back : List Char) :
    name <:+: Text.trimEnd (front ++ (name ++ back)) := by
  rw [Text.trimEnd_eq_rdropWhile]
  -- blanks are cut off from the back until the name is reached, which ends in none
  induction back using List.reverseRecOn with
  | nil =>
    have hLast : (front ++ name).rdropWhile Text.isBlank = front ++ name := by
      rw [List.rdropWhile_eq_self_iff]
      intro hNe'
      rw [List.getLast_append_of_ne_nil _ hNe]
      simp [h.last _ (List.getLast?_eq_getLast_of_ne_nil hNe)]
    rw [List.append_nil, hLast]
    exact (List.suffix_append front name).isInfix
  | append_singleton back c ih =>
    rw [← List.append_assoc name, ← List.append_assoc front]
    by_cases hc : Text.isBlank c = true
    · rwa [List.rdropWhile_concat_pos _ _ _ hc]
    · rw [List.rdropWhile_concat_neg _ _ _ hc]
      exact ⟨front, back ++ [c], by simp only [List.append_assoc]⟩

end Line

variable {α : Type} [Scalar α]

def chordName (chord : Row α) : List Char := Text.trim (chord.chord.getD "").toList

def lyricOf (bar : Row α) : List Char := Text.trimEnd (bar.lyric.getD "").toList

def lineWidth (bar : Row α) : Nat := barWidth (lyricOf bar) bar

def columnOf (bar chord : Row α) : Nat :=
  chordColumn (lineWidth bar) bar.time (bar.dur.getD 0) chord.time

def stopOf (bar chord : Row α) : Nat := columnOf bar chord + (chordName chord).length

structure StandsOver (bar chord : Row α) : Prop where
  start_le : bar.time ≤ chord.time
  lt_stop : chord.time < bar.time + bar.dur.getD 0
  named : chordName chord ≠ []

def Apart (bar c d : Row α) : Prop :=
  stopOf bar c ≤ columnOf bar d ∨ stopOf bar d ≤ columnOf bar c

def chordLine (chords : List (Row α)) (bar : Row α) : List Char :=
  chords.foldl (placeChord bar) (List.replicate (lineWidth bar) ' ')

variable {bar chord : Row α} {line : List Char}

theorem placeChord_of_standsOver (h : StandsOver bar chord) (hLine : line.length = lineWidth bar) :
    placeChord bar line chord = writeOver line (columnOf bar chord) (chordName chord) := by
  rw [columnOf, ← hLine]
  exact if_pos ⟨h.start_le, h.lt_stop, h.named⟩

theorem placeChord_of_not_standsOver (h : ¬StandsOver bar chord) :
    placeChord bar line chord = line :=
  if_neg fun hPlace => h ⟨hPlace.1, hPlace.2.1, hPlace.2.2⟩

theorem length_placeChord (bar : Row α) (line : List Char) (chord : Row α) :
    (placeChord bar line chord).length = line.length := by
  simp only [placeChord]
  split
  · exact length_writeOver _ _ _
  · rfl

theorem length_foldl_placeChord (bar : Row α) (chords : List (Row α)) (line : List Char) :
    (chords.foldl (placeChord bar) line).length = line.length := by
  induction chords generalizing line with
  | nil => rfl
  | cons chord chords ih => rw [List.foldl_cons, ih, length_placeChord]

/-- A chord apart from a name leaves it as it is. -/
theorem Shows.placeChord {later : Row α} (h : Shows line (columnOf bar chord) (chordName chord))
    (hLine : line.length = lineWidth bar) (hApart : StandsOver bar later → Apart bar chord later) :
    Shows (placeChord bar line later) (columnOf bar chord) (chordName chord) := by
  by_cases hOver : StandsOver bar later
  · rw [placeChord_of_standsOver hOver hLine]
    rcases hApart hOver with hBehind | hBefore
    · exact h.writeOver_behind hBehind
    · exact h.writeOver_before hBefore
  · rwa [placeChord_of_not_standsOver hOver]

theorem Shows.foldl_placeChord {back : List (Row α)}
    (h : Shows line (columnOf bar chord) (chordName chord))
    (hLine : line.length = lineWidth bar)
    (hApart : ∀ later ∈ back, StandsOver bar later → Apart bar chord later) :
    Shows (back.foldl (Export.placeChord bar) line) (columnOf bar chord) (chordName chord) := by
  induction back generalizing line with
  | nil => exact h
  | cons later back ih =>
    have hStep := h.placeChord hLine (hApart later List.mem_cons_self)
    exact ih hStep ((length_placeChord bar line later).trans hLine)
      fun d hd => hApart d (List.mem_cons_of_mem later hd)

theorem shows_chordLine (front : List (Row α)) {back : List (Row α)}
    (hOver : StandsOver bar chord) (hFits : stopOf bar chord ≤ lineWidth bar)
    (hApart : ∀ later ∈ back, StandsOver bar later → Apart bar chord later) :
    Shows (chordLine (front ++ chord :: back) bar) (columnOf bar chord) (chordName chord) := by
  have hFront := length_foldl_placeChord bar front (List.replicate (lineWidth bar) ' ')
  rw [List.length_replicate] at hFront
  rw [chordLine, List.foldl_append, List.foldl_cons, placeChord_of_standsOver hOver hFront]
  apply Shows.foldl_placeChord _ ((length_writeOver _ _ _).trans hFront) hApart
  apply shows_writeOver
  rw [hFront]
  exact hFits

theorem chartBar_eq (chords : List (Row α)) (bar : Row α) :
    chartBar chords bar =
      Text.trimEnd (chordLine chords bar) ++ '\n' :: (lyricOf bar ++ ['\n']) := by
  rw [← List.cons_append, ← List.append_assoc]
  rfl

/-- The two lines of each bar stand on their own in the chart. -/
theorem exists_chartBars_eq (chords : List (Row α)) {bars : List (Row α)} (hBar : bar ∈ bars)
    (current : Option String) :
    ∃ before after, '\n' :: chartBars chords current bars =
      before ++ '\n' :: (chartBar chords bar ++ after) := by
  induction bars generalizing current with
  | nil => cases hBar
  | cons b bars ih =>
    -- a heading ends a line, as the lines of a bar do
    obtain ⟨head, hHead⟩ : ∃ head, '\n' :: chartBars chords current (b :: bars) =
        head ++ '\n' :: (chartBar chords b ++ chartBars chords (some (heading b)) bars) := by
      rw [chartBars]
      split
      · exact ⟨[], by simp⟩
      · exact ⟨'\n' :: '\n' :: '[' :: (heading b).toList ++ [']'], by simp⟩
    rcases List.mem_cons.mp hBar with rfl | hBar
    · exact ⟨head, _, hHead⟩
    · obtain ⟨before, after, hRest⟩ := ih hBar (some (heading b))
      refine ⟨head ++ '\n' :: (Text.trimEnd (chordLine chords b) ++ '\n' :: lyricOf b) ++ before,
        after, ?_⟩
      rw [hHead, chartBar_eq]
      simp only [List.append_assoc, List.cons_append, List.nil_append, ← hRest]

theorem exists_chart_eq {rows : List (Row α)} (title : String) (hBar : bar ∈ rows)
    (hKind : bar.kind = .lyricBar) :
    ∃ before after, (chart rows title).toList = before ++ '\n' ::
      (Text.trimEnd (chordLine (inTime .chord rows) bar) ++
        '\n' :: (lyricOf bar ++ '\n' :: after)) := by
  have hMem : bar ∈ inTime .lyricBar rows := by
    rw [inTime, List.mem_mergeSort, List.mem_filter]
    exact ⟨hBar, decide_eq_true hKind⟩
  obtain ⟨before, after, hBars⟩ := exists_chartBars_eq (inTime .chord rows) hMem none
  refine ⟨"Chart: ".toList ++ title.toList ++ before, after, ?_⟩
  have hNe : (inTime .lyricBar rows).isEmpty = false := by
    rw [List.isEmpty_eq_false_iff]
    exact List.ne_nil_of_mem hMem
  have hLine : "\n".toList = ['\n'] := rfl
  rw [chartBar_eq] at hBars
  simp only [chart, hNe, Bool.false_eq_true, if_false, String.toList_append, String.toList_ofList,
    hLine, List.append_assoc, hBars, List.cons_append, List.nil_append]

theorem exists_split_inTime [Scalar.LawfulOrder α] {rows : List (Row α)} (hChord : chord ∈ rows)
    (hKind : chord.kind = .chord) :
    ∃ front back, inTime .chord rows = front ++ chord :: back ∧
      ∀ later ∈ back, later ≠ chord ∧ later ∈ rows ∧ later.kind = .chord ∧
        Lyric.startsBy chord later = true := by
  have hMem {c : Row α} : c ∈ inTime .chord rows ↔ c ∈ rows ∧ c.kind = .chord :=
    Lyric.mem_chordsInTime
  have hSorted : (inTime .chord rows).Pairwise fun c d => Lyric.startsBy c d = true :=
    Lyric.pairwise_chordsInTime rows
  -- a row that is listed twice is written twice, and its last name stays
  obtain ⟨front, c, back, hSplit, rfl, hBack⟩ :=
    Order.exists_last (p := (· = chord)) ⟨chord, hMem.mpr ⟨hChord, hKind⟩, rfl⟩
  refine ⟨front, back, hSplit, fun later hLater => ⟨hBack later hLater, ?_⟩⟩
  rw [hSplit] at hMem hSorted
  obtain ⟨hRow, hLaterKind⟩ := hMem.mp (List.mem_append_right front (List.mem_cons_of_mem c hLater))
  have hTime := (List.pairwise_cons.mp (List.pairwise_append.mp hSorted).2.1).1 later hLater
  exact ⟨hRow, hLaterKind, hTime⟩

/-- The name of a chord over a bar is shown in full, or is longer than the line has room for, or
another chord that does not start before it is written into it. -/
theorem chart_shows_name [Scalar.LawfulOrder α] {rows : List (Row α)} (title : String)
    (hBar : bar ∈ rows) (hBarKind : bar.kind = .lyricBar) (hChord : chord ∈ rows)
    (hKind : chord.kind = .chord) (hOver : StandsOver bar chord) :
    ∃ before line after, (chart rows title).toList =
        before ++ '\n' :: (line ++ '\n' :: (lyricOf bar ++ '\n' :: after)) ∧
      line = Text.trimEnd (chordLine (inTime .chord rows) bar) ∧
      (chordName chord <:+: line ∨ lineWidth bar < stopOf bar chord ∨
        ∃ later ∈ rows, later.kind = .chord ∧ later ≠ chord ∧
          Lyric.startsBy chord later = true ∧ StandsOver bar later ∧
          ¬Apart bar chord later) := by
  obtain ⟨before, after, hChart⟩ := exists_chart_eq title hBar hBarKind
  refine ⟨before, _, after, hChart, rfl, ?_⟩
  obtain ⟨front, back, hSplit, hBack⟩ := exists_split_inTime hChord hKind
  by_cases hFits : stopOf bar chord ≤ lineWidth bar
  · by_cases hApart : ∀ later ∈ back, StandsOver bar later → Apart bar chord later
    · left
      obtain ⟨ahead, behind, hLine, _⟩ := shows_chordLine front hOver hFits hApart
      rw [hSplit, hLine]
      exact isInfix_trimEnd (Text.isTrim_trim _) hOver.named ahead behind
    · right
      right
      push Not at hApart
      obtain ⟨later, hLater, hLaterOver, hInto⟩ := hApart
      obtain ⟨hne, hRow, hLaterKind, hTime⟩ := hBack later hLater
      exact ⟨later, hRow, hLaterKind, hne, hTime, hLaterOver, hInto⟩
  · exact .inr (.inl (not_le.mp hFits))

/-- Of a name of five characters over a word of two, two are left, and look like another chord. -/
theorem chart_shows_name_cut :
    let bar : Row Rat := { Row.blank .lyricBar 1 1 0 0 with
      lyric := some "hi", dur := some 2, sectionName := some .verse }
    let chord : Row Rat := { Row.blank .chord 1 1 0 0 with chord := some "Cmaj7" }
    StandsOver bar chord ∧
      (∃ before after, (chart [bar, chord] "T").toList =
        before ++ '\n' :: ("Cm".toList ++ '\n' :: ("hi".toList ++ '\n' :: after))) ∧
      ¬chordName chord <:+: "Cm".toList ∧ lineWidth bar < stopOf bar chord := by
  intro bar chord
  have hOver : StandsOver bar chord := ⟨by decide +kernel, by decide +kernel, by decide +kernel⟩
  have hLine : Text.trimEnd (chordLine (inTime .chord [bar, chord]) bar) = "Cm".toList := by
    have hChords : inTime .chord [bar, chord] = [chord] := List.mergeSort_singleton _
    rw [hChords]
    decide +kernel
  have hCut : ¬chordName chord <:+: "Cm".toList := by decide +kernel
  have hBar : bar ∈ [bar, chord] := List.mem_cons_self
  have hChord : chord ∈ [bar, chord] := List.mem_cons_of_mem _ (List.mem_singleton_self _)
  obtain ⟨before, line, after, hChart, rfl, hName⟩ :=
    chart_shows_name "T" hBar rfl hChord rfl hOver
  rw [hLine] at hChart hName
  have hLyric : lyricOf bar = "hi".toList := by decide +kernel
  rw [hLyric] at hChart
  refine ⟨hOver, ⟨before, after, hChart⟩, hCut, ?_⟩
  rcases hName with hShown | hLong | ⟨later, hLater, hKind, hne, _⟩
  · exact absurd hShown hCut
  · exact hLong
  · rcases List.mem_pair.mp hLater with rfl | rfl
    · cases hKind
    · exact absurd rfl hne

end LeadSheet.Export
