import LeadSheet.Proofs.Song.Bounds
import LeadSheet.Proofs.Song.Overflow
import LeadSheet.Proofs.Song.Tracks
import LeadSheet.Scalar.Rational

/-!
# What becomes of a song

A song has no sheet for two reasons only: its settings are at fault, or its bars have no beat. Every
other song has one, on the way to which nothing is looked up that is not there, and the sheet keeps
all that went in: the chords of the recording, the words, and for aligned words their bars. A build
comes to that sheet unless a number leaves its word on the way.
-/

namespace LeadSheet
set_option autoImplicit false

variable {α : Type} [Scalar α]

/-- A sheet in the order of time with the chords of a track, a row for each word, and for aligned
words one row for each bar with a word that is not blank. -/
structure Sheet.Keeps (isLive : Bool) (track : ChordTrack α) (words : Option (List (Word α)))
    (sheet : Sheet α) : Prop where
  inTime : sheet.rows.Pairwise fun row next => Scalar.atMost row.time next.time = true
  chords : sheet.rows.filter (·.kind = .chord) = Row.ordered track.rows
  lyrics : ((sheet.rows.filter (·.kind = .lyric)).map (·.lyric)).Perm
    ((words.getD []).map fun w => some w.text)
  barsOnce : ((sheet.rows.filter (·.kind = .lyricBar)).map (·.bar)).Nodup
  bars : ∀ bar, bar ∈ (sheet.rows.filter (·.kind = .lyricBar)).map (·.bar) ↔
    isLive = false ∧ ∃ row ∈ sheet.rows.filter (·.kind = .lyric), row.bar = bar ∧ row.HasText
  offset : sheet.offset.isSome = true ↔ ∃ ws ∈ words, ws ≠ []

theorem Row.ordered_perm (rows : List (Row α)) : (Row.ordered rows).Perm rows :=
  List.mergeSort_perm rows _

theorem Row.mem_ordered {rows : List (Row α)} {row : Row α} : row ∈ Row.ordered rows ↔ row ∈ rows :=
  (Row.ordered_perm rows).mem_iff

namespace Sheet

variable [Scalar.LawfulOrder α] {isLive : Bool} {track : ChordTrack α}

theorem keeps_assemble_none {words : Option (List (Word α))}
    (hTrack : ∀ row ∈ track.rows, row.kind = .chord) (hEmpty : ∀ ws ∈ words, ws = []) :
    (assemble track none).Keeps isLive track words := by
  have hRows : (assemble track none).rows = Row.ordered track.rows := rfl
  -- without words all rows are chords
  have hKind : ∀ row ∈ Row.ordered track.rows, row.kind = .chord :=
    fun row hRow => hTrack row (Row.mem_ordered.mp hRow)
  have hWords : words.getD [] = [] := by
    cases words with
    | none => rfl
    | some ws => exact hEmpty ws rfl
  constructor
  · exact Row.pairwise_ordered track.rows
  · exact Row.filter_kind_eq_self hKind
  · rw [hRows, Row.filter_kind_eq_nil hKind (by decide), hWords]
    exact .refl []
  · rw [hRows, Row.filter_kind_eq_nil hKind (by decide)]
    exact List.nodup_nil
  · intro bar
    rw [hRows, Row.filter_kind_eq_nil hKind (by decide), Row.filter_kind_eq_nil hKind (by decide)]
    simp
  · constructor
    · intro hSome
      cases hSome
    · rintro ⟨ws, hMem, hNe⟩
      exact (hNe (hEmpty ws hMem)).elim

theorem keeps_assemble_some {words : List (Word α)} {lyrics : LyricTrack α} (hNe : words ≠ [])
    (hTrack : ∀ row ∈ track.rows, row.kind = .chord)
    (hLyrics : LyricTrack.Holds isLive words lyrics) :
    (assemble track (some lyrics)).Keeps isLive track (some words) := by
  have hRows := filter_kind_assemble hTrack hLyrics
  constructor
  · exact Row.pairwise_ordered (track.rows ++ lyrics.words ++ lyrics.bars)
  · exact hRows .chord
  · rw [hRows, Option.getD_some, ← hLyrics.words.texts]
    exact (Row.ordered_perm lyrics.words).map _
  · rw [hRows]
    exact ((Row.ordered_perm lyrics.bars).map _).nodup_iff.mpr hLyrics.barsOnce
  · intro bar
    rw [hRows, hRows, ((Row.ordered_perm _).map _).mem_iff]
    simp only [Row.mem_ordered]
    exact hLyrics.bars bar
  · exact ⟨fun _ => ⟨words, rfl, hNe⟩, fun _ => rfl⟩

/-- Bars in which words are joined are kept as they are before they are renumbered. -/
def BarsKept (sheet : Sheet α) : Prop :=
  ∃ offset, ∀ row ∈ sheet.rows.filter (·.kind = .lyricBar),
    ∃ bar, Scalar.bar α bar = bar ∧ row.bar = bar + offset

theorem exists_keeps_ofSong (isLive : Bool) {r : Recording α} {s : Settings α}
    (words : Option (List (Word α))) (hTrack : ChordTrack.ofRecording r s = .ok track)
    (hKind : ∀ row ∈ track.rows, row.kind = .chord) (hNumerator : track.meter.numerator ≠ 0) :
    ∃ sheet, ofSong isLive r words s = .ok sheet ∧ sheet.Keeps isLive track words ∧
      sheet.BarsKept := by
  rcases exists_ofSong isLive words hTrack hNumerator with
    ⟨hEmpty, hSheet⟩ | ⟨ws, rfl, hNe, lyrics, placed, hSheet, hLyrics, _⟩
  · refine ⟨_, hSheet, keeps_assemble_none hKind hEmpty, 0, fun row hRow => ?_⟩
    have hNone : (assemble track none).rows.filter (·.kind = .lyricBar) = [] :=
      Row.filter_kind_eq_nil (fun row hRow => hKind row (Row.mem_ordered.mp hRow)) (by decide)
    rw [hNone] at hRow
    exact (List.not_mem_nil hRow).elim
  · obtain ⟨offset, hKept⟩ := hLyrics.barsKept
    refine ⟨_, hSheet, keeps_assemble_some hNe hKind hLyrics, offset, fun row hRow => ?_⟩
    rw [filter_kind_assemble hKind hLyrics] at hRow
    exact hKept row (Row.mem_ordered.mp hRow)

omit [Scalar.LawfulOrder α] in
theorem filter_kind_keepBars (sheet : Sheet α) (kind : RowKind) :
    sheet.keepBars.rows.filter (·.kind = kind) =
      (sheet.rows.filter (·.kind = kind)).map Row.keepBar := List.filter_map

omit [Scalar.LawfulOrder α] in
theorem Keeps.keepBars {sheet : Sheet α} {words : Option (List (Word α))}
    (h : sheet.Keeps isLive track words) (hKept : sheet.BarsKept) :
    sheet.keepBars.Keeps isLive track.keepBars words := by
  obtain ⟨offset, hKept⟩ := hKept
  constructor
  · exact List.pairwise_map.mpr h.inTime
  · rw [filter_kind_keepBars, h.chords]
    exact List.map_mergeSort fun _ _ _ _ => rfl
  · rw [filter_kind_keepBars, List.map_map]
    exact h.lyrics
  · have hBars : (sheet.keepBars.rows.filter (·.kind = .lyricBar)).map (·.bar) =
        ((sheet.rows.filter (·.kind = .lyricBar)).map (·.bar)).map (Scalar.bar α) := by
      rw [filter_kind_keepBars, List.map_map, List.map_map]
      rfl
    rw [hBars]
    refine h.barsOnce.map_on fun bar hBar other hOther hEq => ?_
    obtain ⟨row, hRow, rfl⟩ := List.mem_map.mp hBar
    obtain ⟨next, hNext, rfl⟩ := List.mem_map.mp hOther
    obtain ⟨placed, hPlaced, hSum⟩ := hKept row hRow
    obtain ⟨placedNext, hPlacedNext, hSumNext⟩ := hKept next hNext
    rw [hSum, hSumNext] at hEq ⊢
    rw [Scalar.eq_of_bar_add_eq hPlaced hPlacedNext hEq]
  · intro bar
    simp only [filter_kind_keepBars, List.map_map, List.mem_map, exists_exists_and_eq_and]
    constructor
    · rintro ⟨joined, hJoined, rfl⟩
      obtain ⟨hLive, row, hRow, hBar, hText⟩ := (h.bars joined.bar).mp (List.mem_map_of_mem hJoined)
      exact ⟨hLive, row, hRow, congrArg (Scalar.bar α) hBar, hText⟩
    · rintro ⟨hLive, row, hRow, rfl, hText⟩
      obtain ⟨joined, hJoined, hBar⟩ :=
        List.mem_map.mp ((h.bars row.bar).mpr ⟨hLive, row, hRow, rfl, hText⟩)
      exact ⟨joined, hJoined, congrArg (Scalar.bar α) hBar⟩
  · exact h.offset

end Sheet

end LeadSheet
