import LeadSheet.Proofs.Song.Tracks

/-!
# Words over chords

Words are laid over a song without a change to what is there: the chord rows of its sheet are the
sheet of the chords alone, in its order, and its form is that of the chords alone with bars after it
for the words that come later. The two sheets fail together.
-/

namespace LeadSheet
set_option autoImplicit false

variable {α : Type}

/-- A sheet with the rows of a plain one among others, and with its form at the start of a form that
goes on in outros if there is a chorus, and in verses if not. -/
structure Sheet.Overlays (sheet plain : Sheet α) : Prop where
  chords : sheet.rows.filter (·.kind = .chord) = plain.rows
  form : ∃ bars, Form.labelsOf sheet.sections = Form.labelsOf plain.sections ++
    List.replicate bars (if .chorus ∈ Form.labelsOf plain.sections then .outro else .verse)

theorem Form.exists_labelsOf_extend {sections : List SectionRange} {last : Nat}
    (h : Form.Partition sections last) (bars : Int) :
    ∃ more, Form.labelsOf (Form.extend sections bars) = Form.labelsOf sections ++
      List.replicate more (if .chorus ∈ Form.labelsOf sections then .outro else .verse) := by
  rw [← Form.nameAfter_eq h.tiles.start_le_end]
  exact ⟨_, (h.extend bars).2⟩

variable [Scalar α] [Scalar.LawfulOrder α]

namespace Sheet

omit [Scalar.LawfulOrder α] in
theorem Overlays.refl_assemble {track : ChordTrack α}
    (hTrack : ∀ row ∈ track.rows, row.kind = .chord) :
    (assemble track none).Overlays (assemble track none) where
  chords := Row.filter_kind_eq_self fun row hRow => hTrack row (List.mem_mergeSort.mp hRow)
  form := ⟨0, (List.append_nil _).symm⟩

theorem Overlays.assemble {track : ChordTrack α} {bars : Nat} {isLive : Bool}
    {words : List (Word α)} {lyrics : LyricTrack α} {placed : List (Row α)}
    (hTrack : ∀ row ∈ track.rows, row.kind = .chord) (hForm : track.Consistent bars)
    (hLyrics : LyricTrack.Holds isLive words lyrics)
    (hSections : lyrics.sections = LyricTrack.sectionsFor track placed) :
    (assemble track (some lyrics)).Overlays (assemble track none) where
  -- the sort is stable, so chords at one time stand as they do without words
  chords := filter_kind_assemble hTrack hLyrics .chord
  form := by
    obtain ⟨more, hMore⟩ := Form.exists_labelsOf_extend hForm.form (Form.lastBar placed)
    refine ⟨more, ?_⟩
    rw [← LyricTrack.sectionsFor, ← hSections] at hMore
    exact hMore

/-- Whatever the words of a song are and in whichever way they are placed, its chords and its form
are those that it has without them. -/
theorem overlays_ofSong (isLive : Bool) (r : Recording α) (words : List (Word α)) (s : Settings α)
    (hSettings : s.check = .ok ()) :
    (r.meter.numerator = 0 ∧ ofSong false r none s = .error .invalidTimeSignature ∧
      ofSong isLive r (some words) s = .error .invalidTimeSignature) ∨
    ∃ plain sheet, ofSong false r none s = .ok plain ∧ ofSong isLive r (some words) s = .ok sheet ∧
      sheet.Overlays plain := by
  have hTrack := ChordTrack.ofRecording_eq r s
  rw [s.check_eq_ok_iff.mp hSettings] at hTrack
  by_cases hNumerator : r.meter.numerator = 0
  · have hFault := hTrack.trans (if_pos hNumerator)
    exact .inl ⟨hNumerator, ofSong_of_error hFault, ofSong_of_error hFault⟩
  · have hBuild := hTrack.trans (if_neg hNumerator)
    have hKind := ChordTrack.kind_build r s
    have hPlain : ofSong false r none s = .ok (assemble (ChordTrack.build r s) none) :=
      ofSong_of_no_words hBuild fun ws hWs => nomatch hWs
    rcases exists_ofSong isLive (some words) hBuild hNumerator with
      ⟨_, hSheet⟩ | ⟨ws, _, _, lyrics, placed, hSheet, hLyrics, hSections⟩
    · exact .inr ⟨_, _, hPlain, hSheet, .refl_assemble hKind⟩
    · obtain ⟨bars, _, hForm⟩ := ChordTrack.exists_consistent_build r s
      exact .inr ⟨_, _, hPlain, hSheet, .assemble hKind hForm hLyrics hSections⟩

/-- A word caught far behind the only bar of a recording, and one at its start. -/
theorem overlays_ofSong_late_word :
    (Settings.default : Settings Float).check = .ok () ∧
      ∃ plain sheet : Sheet Float,
        ofSong false ⟨480, ⟨4, 4⟩, [], [⟨0, "C", .marker⟩], [], 1920, none⟩ none
          Settings.default = .ok plain ∧
        ofSong true ⟨480, ⟨4, 4⟩, [], [⟨0, "C", .marker⟩], [], 1920, none⟩
          (some [⟨"la", 10, none, none⟩, ⟨"so", 0, some 1, none⟩]) Settings.default = .ok sheet ∧
        sheet.Overlays plain := by
  refine ⟨Settings.check_default, ?_⟩
  rcases overlays_ofSong true ⟨480, ⟨4, 4⟩, [], [⟨0, "C", .marker⟩], [], 1920, none⟩
    [⟨"la", 10, none, none⟩, ⟨"so", 0, some 1, none⟩] Settings.default Settings.check_default with
    ⟨hNumerator, _⟩ | hSheets
  · cases hNumerator
  · exact hSheets

end Sheet

end LeadSheet
