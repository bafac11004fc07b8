import Mathlib.Order.Bounds.Basic
import LeadSheet.Form.Labels
import LeadSheet.Proofs.Form.Repeat

/-!
# The label of a bar

Two windows give the labels: that of the chorus and that of the verse, which rank first of all. A
bar is in the chorus when an occurrence of its window covers it, whatever the verse covers. Bars
before all that are covered are the intro, as long as it may be, and bars after them the outro.
-/

namespace LeadSheet.Form
set_option autoImplicit false

structure Ranking (signatures : List String) (size minOccurs : Nat)
    (windows : List (List String)) : Prop where
  mem : ∀ w, w ∈ windows ↔ Candidate signatures size minOccurs w
  order : windows.Pairwise fun v w => (blockOf signatures v).Outranks (blockOf signatures w)

/-- The windows of the chorus and of the verse, among windows in the order of their rank. Of two
that occur as often as each other the second is the chorus if the later goes first. -/
def leading (signatures : List String) (tieBreak : TieBreak) :
    List (List String) → Option (List String) × Option (List String)
  | [] => (none, none)
  | [only] => (some only, none)
  | top :: second :: _ =>
    if tieBreak = .laterFirst ∧
        (blockOf signatures top).count = (blockOf signatures second).count then
      (some second, some top)
    else (some top, some second)

/-- Whether an occurrence of a window covers a bar, counted from 0. -/
def OccursOver (signatures window : List String) (i : Nat) : Prop :=
  ∃ start, window <+: signatures.drop start ∧ start ≤ i ∧ i < start + window.length

def Covers (signatures : List String) (window : Option (List String)) (i : Nat) : Prop :=
  ∃ w ∈ window, OccursOver signatures w i

/-- Whether a bar is before all bars of a set, and not too late for the intro. -/
def InIntro (covered : Set Nat) (introMaxBars : Option Nat) (i : Nat) : Prop :=
  ∃ first, IsLeast covered first ∧ i < first ∧ ∀ cap ∈ introMaxBars, i < cap

def InOutro (covered : Set Nat) (i : Nat) : Prop := ∃ last, IsGreatest covered last ∧ last < i

def coveredBars (signatures : List String) (chorus verse : Option (List String)) : Set Nat :=
  {i | Covers signatures chorus i ∨ Covers signatures verse i}

/-- Whether a bar belongs to a part of the form. -/
def Belongs (signatures : List String) (chorus verse : Option (List String))
    (introMaxBars : Option Nat) (i : Nat) : SectionName → Prop
  | .chorus => Covers signatures chorus i
  | .intro => InIntro (coveredBars signatures chorus verse) introMaxBars i
  | .outro => i < signatures.length ∧ InOutro (coveredBars signatures chorus verse) i
  | .verse => i < signatures.length ∧ ¬ Covers signatures chorus i ∧
      ¬ InIntro (coveredBars signatures chorus verse) introMaxBars i ∧
      ¬ InOutro (coveredBars signatures chorus verse) i

section Cover

theorem OccursOver.lt_length {signatures window : List String} {i : Nat}
    (h : OccursOver signatures window i) : i < signatures.length := by
  obtain ⟨start, hPrefix, hFrom, hTo⟩ := h
  have hLength := hPrefix.length_le
  rw [List.length_drop] at hLength
  omega

theorem occursOver_cons_zero {s : String} {signatures window : List String} :
    OccursOver (s :: signatures) window 0 ↔ window <+: s :: signatures ∧ 0 < window.length := by
  constructor
  · rintro ⟨start, hPrefix, hFrom, hTo⟩
    obtain rfl := Nat.le_zero.mp hFrom
    exact ⟨hPrefix, by omega⟩
  · rintro ⟨hPrefix, hPos⟩
    exact ⟨0, hPrefix, le_rfl, by omega⟩

theorem occursOver_cons_succ {s : String} {signatures window : List String} {i : Nat} :
    OccursOver (s :: signatures) window (i + 1) ↔
      window <+: s :: signatures ∧ i + 1 < window.length ∨ OccursOver signatures window i := by
  constructor
  · rintro ⟨start, hPrefix, hFrom, hTo⟩
    cases start with
    | zero => exact .inl ⟨hPrefix, by omega⟩
    | succ start => exact .inr ⟨start, hPrefix, by omega, by omega⟩
  · rintro (⟨hPrefix, hTo⟩ | ⟨start, hPrefix, hFrom, hTo⟩)
    · exact ⟨0, hPrefix, by omega, by omega⟩
    · exact ⟨start + 1, hPrefix, by omega, by omega⟩

theorem getElem?_coverFrom {window : List String} {reach : Nat} (hReach : reach ≤ window.length)
    (signatures : List String) (i : Nat) :
    (coverFrom window reach signatures)[i]? = some true ↔
      i < signatures.length ∧ (i < reach ∨ OccursOver signatures window i) := by
  -- what the last occurrence before still reaches over, and what is covered from here on
  induction signatures generalizing reach i with
  | nil => simp [coverFrom]
  | cons s signatures ih =>
    rw [coverFrom]
    by_cases hPrefix : window <+: s :: signatures
    · rw [if_pos (List.isPrefixOf_iff_prefix.mpr hPrefix)]
      cases i with
      | zero =>
        simp [occursOver_cons_zero, hPrefix]
        omega
      | succ i =>
        have hWithin : i + 1 < reach → i + 1 < window.length := fun h => h.trans_le hReach
        rw [List.getElem?_cons_succ, ih (Nat.sub_le _ _), occursOver_cons_succ,
          Nat.lt_sub_iff_add_lt, List.length_cons, Nat.add_lt_add_iff_right]
        tauto
    · rw [if_neg (by rwa [List.isPrefixOf_iff_prefix])]
      cases i with
      | zero => simp [occursOver_cons_zero, hPrefix]
      | succ i =>
        rw [List.getElem?_cons_succ, ih (by omega), occursOver_cons_succ,
          Nat.lt_sub_iff_add_lt, List.length_cons, Nat.add_lt_add_iff_right]
        simp [hPrefix]

theorem length_coverFrom (window : List String) (reach : Nat) (signatures : List String) :
    (coverFrom window reach signatures).length = signatures.length := by
  induction signatures generalizing reach with
  | nil => rfl
  | cons s signatures ih => rw [coverFrom, List.length_cons, List.length_cons, ih]

theorem length_cover (block : Option Block) (signatures : List String) :
    (cover block signatures).length = signatures.length := by
  cases block with
  | none => exact List.length_map _
  | some b => exact length_coverFrom _ 0 signatures

theorem getElem?_cover (signatures : List String) (window : Option (List String)) (i : Nat) :
    (cover (window.map (blockOf signatures)) signatures)[i]? = some true ↔
      Covers signatures window i := by
  cases window with
  | none => simp [cover, Covers, List.getElem?_replicate]
  | some w =>
    have hCover : cover (some (blockOf signatures w)) signatures = coverFrom w 0 signatures := rfl
    have hWithin : OccursOver signatures w i → i < signatures.length := OccursOver.lt_length
    rw [Option.map_some, hCover, getElem?_coverFrom (Nat.zero_le _)]
    simpa [Covers] using hWithin

theorem Covers.lt_length {signatures : List String} {window : Option (List String)} {i : Nat}
    (h : Covers signatures window i) : i < signatures.length := by
  obtain ⟨w, _, hOver⟩ := h
  exact hOver.lt_length

end Cover

section Rank

variable {signatures : List String}

theorem ranking_windows (signatures : List String) (size minOccurs : Nat) :
    Ranking signatures size minOccurs ((repeatedBlocks signatures size minOccurs).map Block.window) where
  mem w := by
    constructor
    · intro hMem
      obtain ⟨b, hb, rfl⟩ := List.mem_map.mp hMem
      exact (mem_repeatedBlocks_iff.mp hb).1
    · intro hCandidate
      exact List.mem_map.mpr ⟨blockOf signatures w, mem_repeatedBlocks_iff.mpr ⟨hCandidate, rfl⟩, rfl⟩
  order := by
    refine List.pairwise_map.mpr ((pairwise_outranks signatures size minOccurs).imp_of_mem ?_)
    intro b c hb hc hOutranks
    rwa [← (mem_repeatedBlocks_iff.mp hb).2, ← (mem_repeatedBlocks_iff.mp hc).2]

theorem chorusAndVerse_eq {blocks : List Block} (tieBreak : TieBreak)
    (hBlocks : ∀ b ∈ blocks, b = blockOf signatures b.window)
    (hOrder : blocks.Pairwise Block.Outranks) : chorusAndVerse tieBreak blocks =
      Prod.map (Option.map (blockOf signatures)) (Option.map (blockOf signatures))
        (leading signatures tieBreak (blocks.map Block.window)) := by
  match blocks with
  | [] => rfl
  | [only] => simp [chorusAndVerse, leading, ← hBlocks only List.mem_cons_self]
  | top :: second :: rest =>
    have hTop := hBlocks top List.mem_cons_self
    have hSecond := hBlocks second (List.mem_cons_of_mem _ List.mem_cons_self)
    have hOutranks := (List.pairwise_cons.mp hOrder).1 second List.mem_cons_self
    simp only [chorusAndVerse, leading, List.map_cons, ← hTop, ← hSecond]
    rcases hOutranks with hMore | ⟨hSame, hEarlier⟩
    · have hne : top.count ≠ second.count := by omega
      simp [hne, hMore, ← hTop, ← hSecond]
    · -- of blocks that are equally frequent the first in rank starts earlier
      cases tieBreak with
      | laterFirst =>
        have hNot : ¬ second.first < top.first := by omega
        simp [hSame, hNot, ← hTop, ← hSecond]
      | earlierFirst => simp [hSame, hEarlier, ← hTop, ← hSecond]

theorem leading_cases (signatures : List String) (tieBreak : TieBreak)
    (windows : List (List String)) : leading signatures tieBreak windows = (none, none) ∨
      ∃ w ∈ windows, ∃ verse, leading signatures tieBreak windows = (some w, verse) := by
  match windows with
  | [] => exact .inl rfl
  | [only] => exact .inr ⟨only, List.mem_cons_self, none, rfl⟩
  | top :: second :: rest =>
    rw [leading]
    split
    · exact .inr ⟨second, List.mem_cons_of_mem _ List.mem_cons_self, some top, rfl⟩
    · exact .inr ⟨top, List.mem_cons_self, some second, rfl⟩

theorem Candidate.occursOver_first {size minOccurs : Nat} {window : List String}
    (h : Candidate signatures size minOccurs window) :
    OccursOver signatures window (blockOf signatures window).first := by
  obtain ⟨s, hs, _⟩ := h.chord
  have hLength : 0 < window.length := List.length_pos_of_mem hs
  exact ⟨_, (mem_startsBefore.mp h.first_mem).2, le_rfl, by omega⟩

end Rank

section Frame

def labelled (labels : List (Option SectionName)) : Set Nat :=
  {i | ∃ name, labels[i]? = some (some name)}

theorem isLeast_labelled {labels : List (Option SectionName)} {first : Nat}
    (h : labels.findIdx? Option.isSome = some first) : IsLeast (labelled labels) first := by
  obtain ⟨hLt, hSome, hBefore⟩ := List.findIdx?_eq_some_iff_getElem.mp h
  constructor
  · obtain ⟨name, hName⟩ := Option.isSome_iff_exists.mp hSome
    exact ⟨name, List.getElem?_eq_some_iff.mpr ⟨hLt, hName⟩⟩
  · rintro i ⟨name, hi⟩
    obtain ⟨_, hLabel⟩ := List.getElem?_eq_some_iff.mp hi
    by_contra hless
    refine hBefore i (by omega) ?_
    rw [hLabel]
    rfl

theorem isGreatest_labelled {labels : List (Option SectionName)} {last : Nat}
    (h : lastLabelled labels = some last) : IsGreatest (labelled labels) last := by
  obtain ⟨m, hm, rfl⟩ := Option.map_eq_some_iff.mp h
  obtain ⟨⟨name, hName⟩, hLeast⟩ := isLeast_labelled hm
  obtain ⟨hLt, _⟩ := List.getElem?_eq_some_iff.mp hName
  rw [List.length_reverse] at hLt
  constructor
  · exact ⟨name, (List.getElem?_reverse hLt).symm.trans hName⟩
  · rintro i ⟨name, hi⟩
    obtain ⟨hLt, _⟩ := List.getElem?_eq_some_iff.mp hi
    have hPlace : labels.length - 1 - (labels.length - 1 - i) = i := by omega
    have hMirror : labels.reverse[labels.length - 1 - i]? = some (some name) := by
      rw [List.getElem?_reverse (by omega), hPlace, hi]
    have hle := hLeast ⟨name, hMirror⟩
    omega

theorem eq_none_of_findIdx? {labels : List (Option SectionName)}
    (h : labels.findIdx? Option.isSome = none) : ∀ label ∈ labels, label = none := by
  intro label hLabel
  have hNone := List.findIdx?_eq_none_iff.mp h label hLabel
  exact Option.isNone_iff_eq_none.mp (Option.isSome_eq_false_iff.mp hNone)

theorem eq_none_of_lastLabelled {labels : List (Option SectionName)}
    (h : lastLabelled labels = none) : ∀ label ∈ labels, label = none := by
  have hNone := eq_none_of_findIdx? (Option.map_eq_none_iff.mp h)
  exact fun label hLabel => hNone label (List.mem_reverse.mpr hLabel)

theorem frame_of_none (introMaxBars : Option Nat) {labels : List (Option SectionName)}
    (h : ∀ label ∈ labels, label = none) : frame introMaxBars labels = labels := by
  have hFirst : labels.findIdx? Option.isSome = none :=
    List.findIdx?_eq_none_iff.mpr fun label hLabel => by rw [h label hLabel]; rfl
  rw [frame, hFirst]

theorem exists_frame (introMaxBars : Option Nat) {labels : List (Option SectionName)}
    (h : ¬ ∀ label ∈ labels, label = none) :
    ∃ first last, IsLeast (labelled labels) first ∧ IsGreatest (labelled labels) last ∧
      frame introMaxBars labels = labels.mapIdx fun i label =>
        if i < introMaxBars.elim first (min first) then some .intro
        else if last < i then some .outro else label := by
  cases hFirst : labels.findIdx? Option.isSome with
  | none => exact (h (eq_none_of_findIdx? hFirst)).elim
  | some first =>
    cases hLast : lastLabelled labels with
    | none => exact (h (eq_none_of_lastLabelled hLast)).elim
    | some last =>
      refine ⟨first, last, isLeast_labelled hFirst, isGreatest_labelled hLast, ?_⟩
      rw [frame, hFirst, hLast]
      cases introMaxBars <;> rfl

theorem length_frame (introMaxBars : Option Nat) (labels : List (Option SectionName)) :
    (frame introMaxBars labels).length = labels.length := by
  by_cases hNone : ∀ label ∈ labels, label = none
  · rw [frame_of_none introMaxBars hNone]
  · obtain ⟨_, _, _, _, hFrame⟩ := exists_frame introMaxBars hNone
    rw [hFrame, List.length_mapIdx]

variable {covered : Set Nat} {introMaxBars : Option Nat} {i : Nat}

theorem inIntro_iff {first : Nat} (h : IsLeast covered first) :
    InIntro covered introMaxBars i ↔ i < introMaxBars.elim first (min first) := by
  have hBound : i < introMaxBars.elim first (min first) ↔
      i < first ∧ ∀ cap ∈ introMaxBars, i < cap := by
    cases introMaxBars <;> simp
  rw [hBound]
  constructor
  · rintro ⟨other, hOther, hBefore⟩
    exact hOther.unique h ▸ hBefore
  · intro hBefore
    exact ⟨first, h, hBefore⟩

theorem inOutro_iff {last : Nat} (h : IsGreatest covered last) :
    InOutro covered i ↔ last < i := by
  constructor
  · rintro ⟨other, hOther, hAfter⟩
    exact hOther.unique h ▸ hAfter
  · intro hAfter
    exact ⟨last, h, hAfter⟩

theorem InIntro.notMem (h : InIntro covered introMaxBars i) : i ∉ covered := by
  obtain ⟨first, hFirst, hBefore, _⟩ := h
  exact fun hMem => absurd (hFirst.2 hMem) hBefore.not_ge

theorem InOutro.notMem (h : InOutro covered i) : i ∉ covered := by
  obtain ⟨last, hLast, hAfter⟩ := h
  exact fun hMem => absurd (hLast.2 hMem) hAfter.not_ge

theorem InIntro.mono {j : Nat} (h : InIntro covered introMaxBars j) (hle : i ≤ j) :
    InIntro covered introMaxBars i := by
  obtain ⟨first, hFirst, hBefore, hCap⟩ := h
  exact ⟨first, hFirst, hle.trans_lt hBefore, fun cap hMem => hle.trans_lt (hCap cap hMem)⟩

theorem InOutro.mono {j : Nat} (h : InOutro covered i) (hle : i ≤ j) : InOutro covered j := by
  obtain ⟨last, hLast, hAfter⟩ := h
  exact ⟨last, hLast, hAfter.trans_le hle⟩

theorem InIntro.not_inOutro (h : InIntro covered introMaxBars i) : ¬ InOutro covered i := by
  rintro ⟨last, hLast, hAfter⟩
  obtain ⟨first, hFirst, hBefore, _⟩ := h
  have hOrder := hFirst.2 hLast.1
  omega

theorem getElem?_frame {labels : List (Option SectionName)} {label : Option SectionName}
    (introMaxBars : Option Nat) (hi : labels[i]? = some label) :
    InIntro (labelled labels) introMaxBars i ∧
        (frame introMaxBars labels)[i]? = some (some .intro) ∨
      InOutro (labelled labels) i ∧ (frame introMaxBars labels)[i]? = some (some .outro) ∨
      ¬ InIntro (labelled labels) introMaxBars i ∧ ¬ InOutro (labelled labels) i ∧
        (frame introMaxBars labels)[i]? = some label := by
  by_cases hNone : ∀ l ∈ labels, l = none
  · have hEmpty : ∀ j, j ∉ labelled labels := by
      rintro j ⟨name, hName⟩
      cases hNone _ (List.mem_of_getElem? hName)
    rw [frame_of_none introMaxBars hNone]
    refine .inr (.inr ⟨?_, ?_, hi⟩)
    · rintro ⟨first, hFirst, _⟩
      exact hEmpty first hFirst.1
    · rintro ⟨last, hLast, _⟩
      exact hEmpty last hLast.1
  · obtain ⟨first, last, hFirst, hLast, hFrame⟩ := exists_frame introMaxBars hNone
    have hAt : (frame introMaxBars labels)[i]? =
        some (if i < introMaxBars.elim first (min first) then some .intro
          else if last < i then some .outro else label) := by
      rw [hFrame, List.getElem?_mapIdx, hi]
      rfl
    rw [inIntro_iff hFirst, inOutro_iff hLast, hAt]
    by_cases hIntro : i < introMaxBars.elim first (min first)
    · simp [hIntro]
    · by_cases hOutro : last < i
      · simp [hIntro, hOutro]
      · simp [hIntro, hOutro]

end Frame

section Bars

theorem coveredLabel_eq_some {inChorus inVerse : Bool} {name : SectionName}
    (h : coveredLabel inChorus inVerse = some name) : inChorus = true ∨ inVerse = true := by
  cases inChorus <;> cases inVerse <;> cases h <;> decide

def coveredLabels (signatures : List String) (chorus verse : Option (List String)) :
    List (Option SectionName) :=
  List.zipWith coveredLabel (cover (chorus.map (blockOf signatures)) signatures)
    (cover (verse.map (blockOf signatures)) signatures)

variable {signatures : List String} {chorus verse : Option (List String)} {i : Nat}

theorem length_coveredLabels :
    (coveredLabels signatures chorus verse).length = signatures.length := by
  rw [coveredLabels, List.length_zipWith, length_cover, length_cover, Nat.min_self]

theorem exists_coveredLabel (chorus verse : Option (List String)) (hi : i < signatures.length) :
    ∃ inChorus inVerse,
    (coveredLabels signatures chorus verse)[i]? = some (coveredLabel inChorus inVerse) ∧
      (inChorus = true ↔ Covers signatures chorus i) ∧
      (inVerse = true ↔ Covers signatures verse i) := by
  have hBit (window : Option (List String)) : ∃ bit,
      (cover (window.map (blockOf signatures)) signatures)[i]? = some bit ∧
        (bit = true ↔ Covers signatures window i) := by
    have hLess : i < (cover (window.map (blockOf signatures)) signatures).length := by
      rwa [length_cover]
    refine ⟨_, List.getElem?_eq_getElem hLess, ?_⟩
    rw [← getElem?_cover, List.getElem?_eq_getElem hLess, Option.some_inj]
  obtain ⟨inChorus, hChorus, hChorusIff⟩ := hBit chorus
  obtain ⟨inVerse, hVerse, hVerseIff⟩ := hBit verse
  refine ⟨inChorus, inVerse, ?_, hChorusIff, hVerseIff⟩
  rw [coveredLabels, List.getElem?_zipWith, hChorus, hVerse]

theorem labelled_coveredLabels :
    labelled (coveredLabels signatures chorus verse) = coveredBars signatures chorus verse := by
  ext j
  constructor
  · rintro ⟨name, hName⟩
    have hj : j < signatures.length := by
      rw [← length_coveredLabels]
      exact (List.getElem?_eq_some_iff.mp hName).1
    obtain ⟨inChorus, inVerse, hAt, hChorus, hVerse⟩ := exists_coveredLabel chorus verse hj
    rw [hAt, Option.some_inj] at hName
    exact (coveredLabel_eq_some hName).imp hChorus.mp hVerse.mp
  · intro hCovers
    have hj : j < signatures.length := hCovers.elim Covers.lt_length Covers.lt_length
    obtain ⟨inChorus, inVerse, hAt, hChorus, hVerse⟩ := exists_coveredLabel chorus verse hj
    have hEither : inChorus = true ∨ inVerse = true := hCovers.imp hChorus.mpr hVerse.mpr
    cases inChorus with
    | true => exact ⟨.chorus, hAt⟩
    | false =>
      cases inVerse with
      | true => exact ⟨.verse, hAt⟩
      | false => simp at hEither

variable {introMaxBars : Option Nat} {name other : SectionName}

theorem Belongs.lt_length (h : Belongs signatures chorus verse introMaxBars i name) :
    i < signatures.length := by
  cases name with
  | chorus => exact Covers.lt_length h
  | intro =>
    obtain ⟨first, hFirst, hBefore, _⟩ := h
    exact hBefore.trans (hFirst.1.elim Covers.lt_length Covers.lt_length)
  | outro => exact h.1
  | verse => exact h.1

theorem Belongs.unique (h : Belongs signatures chorus verse introMaxBars i name)
    (hOther : Belongs signatures chorus verse introMaxBars i other) : name = other := by
  have hIntro (hName : InIntro (coveredBars signatures chorus verse) introMaxBars i) :
      ¬ Covers signatures chorus i := fun hCovers => hName.notMem (.inl hCovers)
  have hOutro (hName : InOutro (coveredBars signatures chorus verse) i) :
      ¬ Covers signatures chorus i := fun hCovers => hName.notMem (.inl hCovers)
  have hApart (hName : InIntro (coveredBars signatures chorus verse) introMaxBars i) :
      ¬ InOutro (coveredBars signatures chorus verse) i := hName.not_inOutro
  cases name <;> cases other <;> first | rfl | (simp only [Belongs] at h hOther; tauto)

theorem Belongs.eq_verse (h : Belongs signatures none none introMaxBars i name) :
    name = .verse := by
  have hNothing : ∀ j, j ∉ coveredBars signatures none none := by
    rintro j (⟨w, hw, _⟩ | ⟨w, hw, _⟩) <;> cases hw
  cases name with
  | chorus => exact (hNothing i (.inl h)).elim
  | intro =>
    obtain ⟨first, hFirst, _⟩ := h
    exact (hNothing first hFirst.1).elim
  | outro =>
    obtain ⟨_, last, hLast, _⟩ := h
    exact (hNothing last hLast.1).elim
  | verse => rfl

theorem exists_label (chorus verse : Option (List String)) (introMaxBars : Option Nat)
    (hi : i < signatures.length) : ∃ name,
    ((frame introMaxBars (coveredLabels signatures chorus verse)).map (·.getD .verse))[i]? =
        some name ∧
      Belongs signatures chorus verse introMaxBars i name := by
  obtain ⟨inChorus, inVerse, hAt, hChorus, _⟩ := exists_coveredLabel chorus verse hi
  have hFrame := getElem?_frame introMaxBars hAt
  rw [labelled_coveredLabels] at hFrame
  rw [List.getElem?_map]
  rcases hFrame with ⟨hIntro, hLabel⟩ | ⟨hOutro, hLabel⟩ | ⟨hIntro, hOutro, hLabel⟩
  · rw [hLabel]
    exact ⟨.intro, rfl, hIntro⟩
  · rw [hLabel]
    exact ⟨.outro, rfl, hi, hOutro⟩
  · rw [hLabel]
    cases inChorus with
    | true => exact ⟨.chorus, rfl, hChorus.mp rfl⟩
    | false =>
      have hNot : ¬ Covers signatures chorus i := fun h => Bool.false_ne_true (hChorus.mpr h)
      exact ⟨.verse, by cases inVerse <;> rfl, hi, hNot, hIntro, hOutro⟩

/-- A bar has the label of the one part that it belongs to. -/
theorem label_eq_some_iff : ((frame introMaxBars (coveredLabels signatures chorus verse)).map
    (·.getD .verse))[i]? = some name ↔ Belongs signatures chorus verse introMaxBars i name := by
  constructor
  · intro hLabel
    have hi : i < signatures.length := by
      have hLess := (List.getElem?_eq_some_iff.mp hLabel).1
      rwa [List.length_map, length_frame, length_coveredLabels] at hLess
    obtain ⟨other, hOther, hBelongs⟩ := exists_label chorus verse introMaxBars hi
    rw [hLabel, Option.some_inj] at hOther
    exact hOther ▸ hBelongs
  · intro hBelongs
    obtain ⟨other, hOther, hElse⟩ := exists_label chorus verse introMaxBars hBelongs.lt_length
    rw [hOther, hElse.unique hBelongs]

end Bars

theorem length_inferLabels (signatures : List String) (settings : SectionSettings) :
    (inferLabels signatures settings).length = signatures.length := by
  rw [inferLabels, List.length_map, length_frame, List.length_zipWith, length_cover, length_cover,
    Nat.min_self]

def partsOf (signatures : List String) (settings : SectionSettings) :
    Option (List String) × Option (List String) :=
  leading signatures settings.tieBreak
    ((repeatedBlocks signatures settings.windowBars settings.chorusMinOccurs).map Block.window)

theorem label_inferLabels_iff (signatures : List String) (settings : SectionSettings) {i : Nat}
    {name : SectionName} : (inferLabels signatures settings)[i]? = some name ↔
      Belongs signatures (partsOf signatures settings).1 (partsOf signatures settings).2
        settings.introMaxBars i name := by
  have hBlocks : ∀ b ∈ repeatedBlocks signatures settings.windowBars settings.chorusMinOccurs,
      b = blockOf signatures b.window := fun b hb => (mem_repeatedBlocks_iff.mp hb).2
  have hParts := chorusAndVerse_eq settings.tieBreak hBlocks (pairwise_outranks _ _ _)
  have hLabels : inferLabels signatures settings = (frame settings.introMaxBars
      (coveredLabels signatures (partsOf signatures settings).1
        (partsOf signatures settings).2)).map (·.getD .verse) := by
    rw [inferLabels, hParts]
    rfl
  rw [hLabels]
  exact label_eq_some_iff

/-- The labels of a form. Chorus and verse are the windows of the two highest ranks, or there is
neither and all bars are verses; and every bar has the label of the part that it belongs to. -/
theorem inferLabels_belongs (signatures : List String) (settings : SectionSettings) :
    (inferLabels signatures settings).length = signatures.length ∧
      ∃ windows, Ranking signatures settings.windowBars settings.chorusMinOccurs windows ∧
        (windows = [] → ∀ name ∈ inferLabels signatures settings, name = .verse) ∧
        ∀ i name, (inferLabels signatures settings)[i]? = some name ↔
          Belongs signatures (leading signatures settings.tieBreak windows).1
            (leading signatures settings.tieBreak windows).2 settings.introMaxBars i name := by
  refine ⟨length_inferLabels signatures settings, _, ranking_windows _ _ _, ?_, ?_⟩
  · intro hNone name hName
    obtain ⟨i, hi⟩ := List.getElem?_of_mem hName
    have hBelongs := (label_inferLabels_iff signatures settings).mp hi
    rw [partsOf, hNone] at hBelongs
    exact hBelongs.eq_verse
  · intro i name
    exact label_inferLabels_iff signatures settings

end LeadSheet.Form
