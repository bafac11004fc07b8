import LeadSheet.Proofs.Lyric.Bars
import LeadSheet.Proofs.Order.Stable
import LeadSheet.Proofs.Scalar.Word
import LeadSheet.Proofs.Song.Sections
import LeadSheet.Scalar.Binary64

/-!
# The rows of tracks

A chord track has rows of chords only. A lyric track has one row for each word, with the text of the
word, and if the words were aligned one row for each bar in which a word is not blank. On their way
rows get a chord, a section and a number for their bar, and nothing else of them changes. A sheet has
the rows of both tracks, and its rows of one kind are the rows that a track has of it, in the order
of time.
-/

namespace LeadSheet
set_option autoImplicit false

variable {α : Type}

section Kinds

variable {kind other : RowKind} {rows : List (Row α)}

theorem Row.filter_kind_eq_self (h : ∀ row ∈ rows, row.kind = kind) :
    rows.filter (·.kind = kind) = rows :=
  List.filter_eq_self.mpr fun row hRow => decide_eq_true (h row hRow)

theorem Row.filter_kind_eq_nil (h : ∀ row ∈ rows, row.kind = kind) (hOther : kind ≠ other) :
    rows.filter (·.kind = other) = [] := by
  refine List.filter_eq_nil_iff.mpr fun row hRow hKind => hOther ?_
  rw [← h row hRow]
  exact of_decide_eq_true hKind

end Kinds

section Stamping

def ChordTrack.finishRow (track : ChordTrack α) (sections : List SectionRange) (row : Row α) :
    Row α :=
  (Form.stampRow sections row).renumber track.barOffset

theorem LyricTrack.finish_eq (track : ChordTrack α) (sections : List SectionRange)
    (rows : List (Row α)) : finish track sections rows = rows.map (track.finishRow sections) :=
  List.map_map

theorem LyricTrack.mem_finish {track : ChordTrack α} {sections : List SectionRange}
    {rows : List (Row α)} {row : Row α} :
    row ∈ finish track sections rows ↔ ∃ placed ∈ rows, track.finishRow sections placed = row := by
  rw [finish_eq, List.mem_map]

namespace ChordTrack

variable (track : ChordTrack α) (sections : List SectionRange) (row : Row α)

@[simp] theorem kind_finishRow : (track.finishRow sections row).kind = row.kind := by
  obtain ⟨name, hName⟩ := Form.stampRow_eq sections row
  rw [finishRow, hName]
  rfl

@[simp] theorem lyric_finishRow : (track.finishRow sections row).lyric = row.lyric := by
  obtain ⟨name, hName⟩ := Form.stampRow_eq sections row
  rw [finishRow, hName]
  rfl

@[simp] theorem bar_finishRow :
    (track.finishRow sections row).bar = row.bar + track.barOffset := by
  obtain ⟨name, hName⟩ := Form.stampRow_eq sections row
  rw [finishRow, hName]
  rfl

@[simp] theorem hasText_finishRow : (track.finishRow sections row).HasText ↔ row.HasText := by
  rw [Row.HasText, Row.HasText, lyric_finishRow]

end ChordTrack

end Stamping

variable [Scalar α]

section Recording

def Recording.signatures (r : Recording α) (s : Settings α) : List String :=
  let found := Form.barSignatures (r.chordRows s) r.meter.beatsPerBar
  found ++ List.replicate (ChordTrack.recordedBars r - found.length) ""

namespace ChordTrack

theorem rows_build (r : Recording α) (s : Settings α) :
    (build r s).rows = ((r.chordRows s).map (Form.stampRow (build r s).sections)).map
      (Row.renumber s.midi.barOffset) := rfl

theorem kind_build (r : Recording α) (s : Settings α) :
    ∀ row ∈ (build r s).rows, row.kind = .chord := by
  intro row hRow
  rw [rows_build] at hRow
  obtain ⟨stamped, hStamped, rfl⟩ := List.mem_map.mp hRow
  obtain ⟨placed, hPlaced, rfl⟩ := List.mem_map.mp hStamped
  obtain ⟨name, hName⟩ := Form.stampRow_eq (build r s).sections placed
  rw [hName]
  exact Grid.forall_mem_rowsFrom (P := fun row => row.kind = .chord) (fun _ _ => rfl) placed hPlaced

/-- A recording has a chord track unless the settings are at fault or its bars have no beat. -/
theorem ofRecording_eq (r : Recording α) (s : Settings α) :
    ofRecording r s =
      match s.fault? with
      | some fault => .error (.invalidConfig fault)
      | none => if r.meter.numerator = 0 then .error .invalidTimeSignature else .ok (build r s) := by
  rw [ofRecording, Settings.check, Meter.check]
  cases s.fault? with
  | some fault => rfl
  | none =>
    by_cases hNumerator : r.meter.numerator = 0
    · simp only [if_pos hNumerator]
      rfl
    · simp only [if_neg hNumerator]
      rfl

end ChordTrack

theorem Settings.check_eq_ok_iff (s : Settings α) : s.check = .ok () ↔ s.fault? = none := by
  rw [check]
  cases s.fault? <;> simp

theorem Settings.check_default : (Settings.default : Settings Float).check = .ok () := by
  decide +kernel

end Recording

section Placing

/-- A row whose bar a build keeps as it is. -/
def Row.Kept (row : Row α) : Prop := Scalar.bar α row.bar = row.bar

theorem GridPosition.bar_split (beatAbs : α) (numerator : Nat) (pickup : α) :
    Scalar.bar α (split beatAbs numerator pickup).bar = (split beatAbs numerator pickup).bar := by
  simp only [split]
  split
  · exact Scalar.bar_zero
  · exact Scalar.bar_bar _

theorem Aligner.bar_snappedStart (a : Aligner α) (t : α) :
    Scalar.bar α (a.snappedStart t).1 = (a.snappedStart t).1 := by
  simp only [snappedStart]
  split
  · exact Scalar.bar_one
  · split
    · exact Scalar.bar_bar _
    · exact GridPosition.bar_split _ _ _

theorem Aligner.kept_align (a : Aligner α) (words : List (Word α)) :
    ∀ row ∈ (a.align words).2, row.Kept := by
  intro row hRow
  obtain ⟨w, _, rfl⟩ := List.mem_map.mp hRow
  exact a.bar_snappedStart w.start

end Placing

section Attaching

theorem Lyric.attachChord_eq (chords : List (Row α)) (row : Row α) :
    ∃ chord, Lyric.attachChord chords row = { row with chord := chord } := by
  rw [Lyric.attachChord]
  split
  · exact ⟨row.chord, rfl⟩
  · exact ⟨_, rfl⟩

variable (rows chordRows : List (Row α))

theorem Lyric.kind_attachChords {kind : RowKind} (h : ∀ row ∈ rows, row.kind = kind) :
    ∀ row ∈ Lyric.attachChords rows chordRows, row.kind = kind := by
  intro attached hAttached
  obtain ⟨row, hRow, rfl⟩ := List.mem_map.mp hAttached
  obtain ⟨chord, hChord⟩ := Lyric.attachChord_eq (Lyric.chordsInTime chordRows) row
  rw [hChord]
  exact h row hRow

theorem Lyric.kept_attachChords (h : ∀ row ∈ rows, row.Kept) :
    ∀ row ∈ Lyric.attachChords rows chordRows, row.Kept := by
  intro attached hAttached
  obtain ⟨row, hRow, rfl⟩ := List.mem_map.mp hAttached
  obtain ⟨chord, hChord⟩ := Lyric.attachChord_eq (Lyric.chordsInTime chordRows) row
  rw [hChord]
  exact h row hRow

theorem Lyric.map_lyric_attachChords :
    (Lyric.attachChords rows chordRows).map (·.lyric) = rows.map (·.lyric) := by
  rw [Lyric.attachChords, List.map_map]
  refine List.map_congr_left fun row _ => ?_
  obtain ⟨chord, hChord⟩ := Lyric.attachChord_eq (Lyric.chordsInTime chordRows) row
  rw [Function.comp_apply, hChord]

end Attaching

structure Lyric.Speaks (words : List (Word α)) (rows : List (Row α)) : Prop where
  kinds : ∀ row ∈ rows, row.kind = .lyric
  texts : rows.map (·.lyric) = words.map fun w => some w.text

namespace Lyric.Speaks

variable {words : List (Word α)} {rows : List (Row α)}

theorem attachChords (h : Speaks words rows) (chordRows : List (Row α)) :
    Speaks words (Lyric.attachChords rows chordRows) where
  kinds := kind_attachChords rows chordRows h.kinds
  texts := (map_lyric_attachChords rows chordRows).trans h.texts

omit [Scalar α] in
theorem finish (h : Speaks words rows) (track : ChordTrack α) (sections : List SectionRange) :
    Speaks words (LyricTrack.finish track sections rows) where
  kinds row hRow := by
    obtain ⟨placed, hPlaced, rfl⟩ := LyricTrack.mem_finish.mp hRow
    rw [ChordTrack.kind_finishRow]
    exact h.kinds placed hPlaced
  texts := by
    rw [LyricTrack.finish_eq, List.map_map, ← h.texts]
    exact List.map_congr_left fun row _ => ChordTrack.lyric_finishRow _ _ row

theorem align (a : Aligner α) (words : List (Word α)) : Speaks words (a.align words).2 := by
  constructor
  · intro row hRow
    obtain ⟨w, _, rfl⟩ := List.mem_map.mp hRow
    rfl
  · rw [Aligner.align, Aligner.snapWords, List.map_map, List.map_map]
    exact List.map_congr_left fun w _ => rfl

theorem liveRows (words : List (Word α)) (tempo : TempoMap α) {numerator : Nat}
    (hNumerator : numerator ≠ 0) (pickup beats : α) :
    ∃ rows, Lyric.liveRows words tempo numerator pickup beats = .ok rows ∧ Speaks words rows := by
  rw [Lyric.liveRows, if_neg fun h => hNumerator h.1]
  refine ⟨_, rfl, ?_, ?_⟩
  · intro row hRow
    obtain ⟨i, hi, rfl⟩ := List.getElem_of_mem hRow
    rw [List.getElem_zipWith, List.getElem_map]
    rfl
  · refine List.ext_getElem ?_ fun i hi _ => ?_
    · simp [subIndices]
    · rw [List.getElem_map, List.getElem_zipWith, List.getElem_map, List.getElem_map]
      rfl

end Lyric.Speaks

/-- The rows of a lyric track. Only aligned words are joined by bars. -/
structure LyricTrack.Holds (isLive : Bool) (words : List (Word α)) (lyrics : LyricTrack α) :
    Prop where
  words : Lyric.Speaks words lyrics.words
  barKinds : ∀ row ∈ lyrics.bars, row.kind = .lyricBar
  barsKept : ∃ offset, ∀ row ∈ lyrics.bars,
    ∃ bar, Scalar.bar α bar = bar ∧ row.bar = bar + offset
  barsOnce : (lyrics.bars.map (·.bar)).Nodup
  bars : ∀ bar, bar ∈ lyrics.bars.map (·.bar) ↔
    isLive = false ∧ ∃ row ∈ lyrics.words, row.bar = bar ∧ row.HasText

namespace LyricTrack

variable {track : ChordTrack α} {words : List (Word α)}

omit [Scalar α] in
theorem map_bar_finish (track : ChordTrack α) (sections : List SectionRange) (rows : List (Row α)) :
    (finish track sections rows).map (·.bar) =
      (rows.map (·.bar)).map (· + track.barOffset) := by
  rw [finish_eq, List.map_map, List.map_map]
  exact List.map_congr_left fun row _ => ChordTrack.bar_finishRow _ _ row

theorem holds_finish {rows : List (Row α)} (h : Lyric.Speaks words rows)
    (hKept : ∀ row ∈ rows, row.Kept) (a : Aligner α) (joiner : String) (track : ChordTrack α)
    (sections : List SectionRange) (offset : α) :
    Holds false words ⟨offset, finish track sections rows,
      finish track sections (a.groupByBar joiner rows), sections⟩ where
  words := h.finish track sections
  barKinds row hRow := by
    obtain ⟨placed, hPlaced, rfl⟩ := mem_finish.mp hRow
    rw [ChordTrack.kind_finishRow]
    exact Aligner.kind_of_mem_groupByBar hPlaced
  barsKept := by
    refine ⟨track.barOffset, fun row hRow => ?_⟩
    obtain ⟨placed, hPlaced, rfl⟩ := mem_finish.mp hRow
    refine ⟨placed.bar, ?_, ChordTrack.bar_finishRow _ _ placed⟩
    -- a bar of words is the bar of one of them
    obtain ⟨word, hWord, _, hBar, _⟩ := Aligner.mem_bars_groupByBar.mp (List.mem_map_of_mem hPlaced)
    rw [← hBar]
    exact hKept word hWord
  barsOnce := by
    rw [map_bar_finish]
    exact (Aligner.nodup_bars_groupByBar a joiner rows).map (add_left_injective _)
  bars bar := by
    -- a bar and the words in it are renumbered alike
    rw [map_bar_finish, List.mem_map]
    constructor
    · rintro ⟨placedBar, hPlaced, rfl⟩
      obtain ⟨row, hRow, _, rfl, hText⟩ := Aligner.mem_bars_groupByBar.mp hPlaced
      exact ⟨rfl, _, mem_finish.mpr ⟨row, hRow, rfl⟩, ChordTrack.bar_finishRow _ _ row,
        (ChordTrack.hasText_finishRow _ _ row).mpr hText⟩
    · rintro ⟨_, _, hFinished, rfl, hText⟩
      obtain ⟨row, hRow, rfl⟩ := mem_finish.mp hFinished
      refine ⟨row.bar, Aligner.mem_bars_groupByBar.mpr ?_, (ChordTrack.bar_finishRow _ _ row).symm⟩
      exact ⟨row, hRow, h.kinds row hRow, rfl, (ChordTrack.hasText_finishRow _ _ row).mp hText⟩

theorem holds_ofAligner (a : Aligner α) (words : List (Word α)) (track : ChordTrack α)
    (joiner : String) : Holds false words (ofAligner a words track joiner) :=
  holds_finish ((Lyric.Speaks.align a words).attachChords track.rows)
    (Lyric.kept_attachChords _ track.rows (a.kept_align words)) a joiner track _ _

def ofWords (isLive : Bool) (words : List (Word α)) (track : ChordTrack α) (s : Settings α) :
    Except (Error α) (LyricTrack α) :=
  if isLive then live words track s else align words track s

/-- Words are placed on every track with a beat in its bars, which gives them rows and may lengthen
the form. -/
theorem exists_ofWords (isLive : Bool) (words : List (Word α))
    (hNumerator : track.meter.numerator ≠ 0) (s : Settings α) :
    ∃ lyrics placed, ofWords isLive words track s = .ok lyrics ∧ Holds isLive words lyrics ∧
      lyrics.sections = sectionsFor track placed := by
  cases isLive with
  | true =>
    obtain ⟨rows, hRows, hWords⟩ := Lyric.Speaks.liveRows words track.tempo hNumerator track.pickup
      s.lyrics.melismaBeats
    have hLive : live words track s = .ok
        { offset := 0
          words := finish track (sectionsFor track (Lyric.attachChords rows track.rows))
            (Lyric.attachChords rows track.rows)
          bars := []
          sections := sectionsFor track (Lyric.attachChords rows track.rows) } := by
      rw [live, hRows]
      rfl
    refine ⟨_, _, hLive, ?_, rfl⟩
    constructor
    · exact (hWords.attachChords track.rows).finish track _
    -- live words are not joined
    · exact fun row hRow => (List.not_mem_nil hRow).elim
    · exact ⟨0, fun row hRow => (List.not_mem_nil hRow).elim⟩
    · exact List.nodup_nil
    · exact fun bar => ⟨fun hBar => (List.not_mem_nil hBar).elim, fun h => by cases h.1⟩
  | false =>
    have hAlign : ∃ a, align words track s = .ok (ofAligner a words track s.lyrics.joiner) := by
      rw [align, Aligner.create, dif_neg hNumerator]
      exact ⟨_, rfl⟩
    obtain ⟨a, hAlign⟩ := hAlign
    exact ⟨_, _, hAlign, holds_ofAligner a words track s.lyrics.joiner, rfl⟩

end LyricTrack

def Row.ordered (rows : List (Row α)) : List (Row α) :=
  rows.mergeSort fun row next => Scalar.atMost row.time next.time

section Ordered

variable [Scalar.LawfulOrder α] (rows : List (Row α))

theorem Row.pairwise_ordered :
    (Row.ordered rows).Pairwise fun row next => Scalar.atMost row.time next.time = true :=
  List.pairwise_mergeSort (fun a b c => Scalar.atMost_trans (x := a.time) (y := b.time) (z := c.time))
    (fun row next => Scalar.atMost_total row.time next.time) rows

theorem Row.filter_ordered (p : Row α → Bool) :
    (Row.ordered rows).filter p = Row.ordered (rows.filter p) :=
  Order.filter_mergeSort (fun a b c => Scalar.atMost_trans (x := a.time) (y := b.time) (z := c.time))
    (fun row next => Scalar.atMost_total row.time next.time) p rows

end Ordered

namespace Sheet

variable {isLive : Bool} {r : Recording α} {s : Settings α} {track : ChordTrack α}

theorem ofSong_of_error {words : Option (List (Word α))} {fault : Error α}
    (h : ChordTrack.ofRecording r s = .error fault) : ofSong isLive r words s = .error fault := by
  rw [ofSong, h]
  rfl

/-- The sheet of a recording with a chord track has the rows of that track, and if there are words
those of a lyric track. -/
theorem exists_ofSong (isLive : Bool) (words : Option (List (Word α)))
    (hTrack : ChordTrack.ofRecording r s = .ok track) (hNumerator : track.meter.numerator ≠ 0) :
    ((∀ ws ∈ words, ws = []) ∧ ofSong isLive r words s = .ok (assemble track none)) ∨
      ∃ ws ∈ words, ws ≠ [] ∧ ∃ lyrics placed,
        ofSong isLive r words s = .ok (assemble track (some lyrics)) ∧
        LyricTrack.Holds isLive ws lyrics ∧
        lyrics.sections = LyricTrack.sectionsFor track placed := by
  by_cases hEmpty : ∀ ws ∈ words, ws = []
  · exact .inl ⟨hEmpty, ofSong_of_no_words hTrack hEmpty⟩
  · push Not at hEmpty
    obtain ⟨ws, rfl, hWords⟩ := hEmpty
    obtain ⟨lyrics, placed, hLyrics, hHolds, hSections⟩ :=
      LyricTrack.exists_ofWords isLive ws hNumerator s
    refine .inr ⟨ws, rfl, hWords, lyrics, placed, ?_, hHolds, hSections⟩
    exact ofSong_of_words hTrack (List.isEmpty_eq_false_iff.mpr hWords) hLyrics

def trackRows (track : ChordTrack α) (lyrics : LyricTrack α) : RowKind → List (Row α)
  | .chord => track.rows
  | .lyric => lyrics.words
  | .lyricBar => lyrics.bars

theorem filter_kind_assemble [Scalar.LawfulOrder α] {words : List (Word α)}
    {lyrics : LyricTrack α} (hTrack : ∀ row ∈ track.rows, row.kind = .chord)
    (h : LyricTrack.Holds isLive words lyrics) (kind : RowKind) :
    (assemble track (some lyrics)).rows.filter (·.kind = kind) =
      Row.ordered (trackRows track lyrics kind) := by
  have hRows : (assemble track (some lyrics)).rows =
      Row.ordered (track.rows ++ lyrics.words ++ lyrics.bars) := rfl
  rw [hRows, Row.filter_ordered, List.filter_append, List.filter_append]
  cases kind with
  | chord =>
    rw [Row.filter_kind_eq_self hTrack, Row.filter_kind_eq_nil h.words.kinds (by decide),
      Row.filter_kind_eq_nil h.barKinds (by decide), List.append_nil, List.append_nil]
    rfl
  | lyric =>
    rw [Row.filter_kind_eq_nil hTrack (by decide), Row.filter_kind_eq_self h.words.kinds,
      Row.filter_kind_eq_nil h.barKinds (by decide), List.nil_append, List.append_nil]
    rfl
  | lyricBar =>
    rw [Row.filter_kind_eq_nil hTrack (by decide), Row.filter_kind_eq_nil h.words.kinds (by decide),
      Row.filter_kind_eq_self h.barKinds, List.nil_append, List.nil_append]
    rfl

end Sheet

end LeadSheet
