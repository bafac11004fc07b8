import LeadSheet.Proofs.Form.Labels
import LeadSheet.Proofs.Form.Tiling

/-!
# The shape of a form

Intros stand before all other labels and outros after them, and neither stands without a chorus.
The labels that are found in signatures have this shape, and bars after them leave it as it is.
-/

namespace LeadSheet.Form
set_option autoImplicit false

/-- Labels of bars of which the intros come first and the outros last, around a chorus. -/
structure Shaped (labels : List SectionName) : Prop where
  introFirst : labels.Pairwise fun a b => b = .intro → a = .intro
  outroLast : labels.Pairwise fun a b => a = .outro → b = .outro
  chorus : .intro ∈ labels ∨ .outro ∈ labels → .chorus ∈ labels

section Infer

variable (signatures : List String) (settings : SectionSettings)

/-- The chorus is a window that occurs, so it is in every form in which something is covered. -/
theorem chorus_mem_inferLabels {i : Nat} (h : i ∈ coveredBars signatures
    (partsOf signatures settings).1 (partsOf signatures settings).2) :
    .chorus ∈ inferLabels signatures settings := by
  rcases leading_cases signatures settings.tieBreak ((repeatedBlocks signatures
    settings.windowBars settings.chorusMinOccurs).map Block.window) with
    hNone | ⟨w, hw, verse, hSome⟩
  · rw [partsOf, hNone] at h
    rcases h with ⟨w, hw, _⟩ | ⟨w, hw, _⟩ <;> cases hw
  · obtain ⟨b, hb, rfl⟩ := List.mem_map.mp hw
    have hOver := (mem_repeatedBlocks_iff.mp hb).1.occursOver_first
    have hChorus : Covers signatures (partsOf signatures settings).1
        (blockOf signatures b.window).first := by
      rw [partsOf, hSome]
      exact ⟨b.window, rfl, hOver⟩
    exact List.mem_of_getElem? ((label_inferLabels_iff signatures settings).mpr hChorus)

theorem shaped_inferLabels : Shaped (inferLabels signatures settings) := by
  have hLabel {i : Nat} {name : SectionName} (hi : i < (inferLabels signatures settings).length) :
      (inferLabels signatures settings)[i] = name ↔ Belongs signatures
        (partsOf signatures settings).1 (partsOf signatures settings).2 settings.introMaxBars i
        name := by
    rw [← label_inferLabels_iff signatures settings, List.getElem?_eq_getElem hi, Option.some_inj]
  constructor
  · refine List.pairwise_iff_getElem.mpr fun i j hi hj hij hName => ?_
    rw [hLabel] at hName ⊢
    exact InIntro.mono hName hij.le
  · refine List.pairwise_iff_getElem.mpr fun i j hi hj hij hName => ?_
    rw [hLabel] at hName ⊢
    exact ⟨length_inferLabels signatures settings ▸ hj, hName.2.mono hij.le⟩
  · rintro (hIntro | hOutro)
    · obtain ⟨i, hi, hName⟩ := List.getElem_of_mem hIntro
      obtain ⟨first, hFirst, _⟩ := (hLabel hi).mp hName
      exact chorus_mem_inferLabels signatures settings hFirst.1
    · obtain ⟨i, hi, hName⟩ := List.getElem_of_mem hOutro
      obtain ⟨_, last, hLast, _⟩ := (hLabel hi).mp hName
      exact chorus_mem_inferLabels signatures settings hLast.1

end Infer

/-- Bars after a form are outros if it has a chorus and verses if not. -/
theorem Shaped.append {labels : List SectionName} (h : Shaped labels) (bars : Nat) :
    Shaped (labels ++ List.replicate bars (if .chorus ∈ labels then .outro else .verse)) := by
  constructor
  · refine List.pairwise_append.mpr ⟨h.introFirst, List.pairwise_replicate.mpr (.inr id), ?_⟩
    intro a _ b hb hName
    obtain ⟨_, rfl⟩ := List.mem_replicate.mp hb
    split at hName <;> cases hName
  · refine List.pairwise_append.mpr ⟨h.outroLast, List.pairwise_replicate.mpr (.inr id), ?_⟩
    intro a ha b hb hName
    obtain ⟨_, rfl⟩ := List.mem_replicate.mp hb
    exact if_pos (h.chorus (.inr (hName ▸ ha)))
  · intro hEnds
    refine List.mem_append_left _ ?_
    by_contra hNone
    rw [if_neg hNone] at hEnds
    rcases hEnds with hIntro | hOutro
    · rcases List.mem_append.mp hIntro with hOld | hNew
      · exact hNone (h.chorus (.inl hOld))
      · cases (List.mem_replicate.mp hNew).2
    · rcases List.mem_append.mp hOutro with hOld | hNew
      · exact hNone (h.chorus (.inr hOld))
      · cases (List.mem_replicate.mp hNew).2

section Sections

/-- The form of a song of `bars` bars. Intro and outro are its first and its last range. -/
structure WellFormed (sections : List SectionRange) (bars : Int) : Prop
    extends Partition sections bars where
  introFirst : ∀ r ∈ sections.tail, r.name ≠ .intro
  outroLast : ∀ r ∈ sections.dropLast, r.name ≠ .outro
  chorus : ∀ r ∈ sections, r.name = .intro ∨ r.name = .outro → ∃ c ∈ sections, c.name = .chorus

variable {sections : List SectionRange} {bars : Int}

theorem ne_intro_of_mem_tail (hDistinct : sections.IsChain fun r s => r.name ≠ s.name)
    (hOrder : sections.Pairwise fun r s => s.name = .intro → r.name = .intro) :
    ∀ r ∈ sections.tail, r.name ≠ .intro := by
  match sections with
  | [] => exact fun r hr => (List.not_mem_nil hr).elim
  | [q] => exact fun r hr => (List.not_mem_nil hr).elim
  | q :: p :: rest =>
    intro r hr hName
    obtain ⟨hFirst, hRest⟩ := List.pairwise_cons.mp hOrder
    have hSecond : p.name = .intro := by
      rcases List.mem_cons.mp hr with rfl | hLater
      · exact hName
      · exact (List.pairwise_cons.mp hRest).1 r hLater hName
    exact (List.isChain_cons_cons.mp hDistinct).1
      ((hFirst p List.mem_cons_self hSecond).trans hSecond.symm)

theorem ne_outro_of_mem_dropLast (hDistinct : sections.IsChain fun r s => r.name ≠ s.name)
    (hOrder : sections.Pairwise fun r s => r.name = .outro → s.name = .outro) :
    ∀ r ∈ sections.dropLast, r.name ≠ .outro := by
  induction sections with
  | nil => exact fun r hr => (List.not_mem_nil hr).elim
  | cons q rest ih =>
    cases rest with
    | nil => exact fun r hr => (List.not_mem_nil hr).elim
    | cons p rest =>
      obtain ⟨hne, hDistinct⟩ := List.isChain_cons_cons.mp hDistinct
      obtain ⟨hFirst, hOrder⟩ := List.pairwise_cons.mp hOrder
      rw [List.dropLast_cons_cons]
      refine List.forall_mem_cons.mpr ⟨fun hName => ?_, ih hDistinct hOrder⟩
      exact hne (hName.trans (hFirst p List.mem_cons_self hName).symm)

theorem Partition.wellFormed (h : Partition sections bars) (hShape : Shaped (labelsOf sections)) :
    WellFormed sections bars where
  toPartition := h
  introFirst := ne_intro_of_mem_tail h.distinct
    (pairwise_name h.tiles.start_le_end hShape.introFirst)
  outroLast := ne_outro_of_mem_dropLast h.distinct
    (pairwise_name h.tiles.start_le_end hShape.outroLast)
  chorus r hr hName := by
    have hMem := mem_labelsOf_iff h.tiles.start_le_end
    refine (hMem .chorus).mp (hShape.chorus ?_)
    rcases hName with hIntro | hOutro
    · exact .inl ((hMem .intro).mpr ⟨r, hr, hIntro⟩)
    · exact .inr ((hMem .outro).mpr ⟨r, hr, hOutro⟩)

theorem nameAfter_eq (h : ∀ r ∈ sections, r.barStart ≤ r.barEnd) :
    nameAfter sections = if .chorus ∈ labelsOf sections then .outro else .verse := by
  rw [nameAfter]
  refine if_congr ?_ rfl rfl
  rw [mem_labelsOf_iff h, List.any_eq_true]
  simp only [decide_eq_true_eq]

theorem shaped_extend {last : Nat} (h : Partition sections last)
    (hShape : Shaped (labelsOf sections)) : Shaped (labelsOf (extend sections bars)) := by
  rw [(h.extend bars).2, nameAfter_eq h.tiles.start_le_end]
  exact hShape.append _

end Sections

end LeadSheet.Form
