import LeadSheet.Proofs.Chord.Spelling
import LeadSheet.Proofs.Chord.Steps

/-!
# Clean text and what respelling leaves of it

In clean text every blank is a single space with a character behind it, and every character is
plain. So is what follows a character of it, which may start with a space. Respelling keeps this,
and spelling what follows a root takes no more away than the space in front.
-/

namespace LeadSheet.Chord
set_option autoImplicit false

/-- What can follow a character in clean text. -/
inductive IsSpaced : List Char → Prop
  | nil : IsSpaced []
  | char {c : Char} {cs : List Char} (hBlank : Text.isBlank c = false) (hGlyph : plainGlyph c = c)
      (h : IsSpaced cs) : IsSpaced (c :: cs)
  | gap {cs : List Char} (hHead : ∃ c ∈ cs.head?, Text.isBlank c = false) (h : IsSpaced cs) :
      IsSpaced (' ' :: cs)

theorem plainGlyph_plainGlyph (c : Char) : plainGlyph (plainGlyph c) = plainGlyph c := by
  have hGlyph : plainGlyph c = '#' ∨ plainGlyph c = 'b' ∨ plainGlyph c = '-' ∨
      plainGlyph c = c := by
    unfold plainGlyph
    split <;> simp
  rcases hGlyph with h | h | h | h
  · rw [h]
    rfl
  · rw [h]
    rfl
  · rw [h]
    rfl
  · rw [h, h]

theorem isSpaced_collapseBlanks {cs : List Char} (hGlyph : ∀ c ∈ cs, plainGlyph c = c)
    (hLast : ∀ c ∈ cs.getLast?, Text.isBlank c = false) : IsSpaced (Text.collapseBlanks cs) := by
  fun_induction Text.collapseBlanks cs with
  | case1 => exact .nil
  | case2 c =>
    have hBlank := hLast c rfl
    rw [hBlank]
    exact .char hBlank (hGlyph c List.mem_cons_self) .nil
  | case3 c d cs hc hd ih =>
    exact ih (fun e he => hGlyph e (List.mem_cons_of_mem _ he)) hLast
  | case4 c d cs hc hd ih =>
    refine .gap ⟨d, ?_, by simpa using hd⟩
      (ih (fun e he => hGlyph e (List.mem_cons_of_mem _ he)) hLast)
    rw [Text.head?_collapseBlanks]
    simp [hd]
  | case5 c d cs hc ih =>
    exact .char (by simpa using hc) (hGlyph c List.mem_cons_self)
      (ih (fun e he => hGlyph e (List.mem_cons_of_mem _ he)) hLast)

theorem isSpaced_clean (cs : List Char) : IsSpaced (clean cs) := by
  apply isSpaced_collapseBlanks
  · simp only [List.forall_mem_map]
    exact fun c _ => plainGlyph_plainGlyph c
  · exact (isTrim_map_plainGlyph (Text.isTrim_trim cs)).last

theorem head?_respell_ne {cs : List Char} (hHead : cs.head? ≠ some ' ') :
    (respell cs).head? ≠ some ' ' := by
  rw [head?_respell]
  split
  · decide
  · exact hHead

namespace IsSpaced

variable {c : Char} {cs : List Char}

theorem of_cons (h : IsSpaced (c :: cs)) : IsSpaced cs := by
  cases h with
  | char _ _ h => exact h
  | gap _ h => exact h

theorem of_append {front back : List Char} (h : IsSpaced (front ++ back)) : IsSpaced back := by
  induction front with
  | nil => exact h
  | cons c front ih => exact ih h.of_cons

theorem append {front back : List Char} (hBack : IsSpaced back)
    (hFront : ∀ c ∈ front, Text.isBlank c = false ∧ plainGlyph c = c) :
    IsSpaced (front ++ back) := by
  induction front with
  | nil => exact hBack
  | cons c front ih =>
    obtain ⟨hHead, hFront⟩ := List.forall_mem_cons.mp hFront
    exact .char hHead.1 hHead.2 (ih hFront)

theorem plainGlyph_eq (h : IsSpaced cs) : ∀ c ∈ cs, plainGlyph c = c := by
  induction h with
  | nil => exact fun c hc => (List.not_mem_nil hc).elim
  | char _ hGlyph _ ih => exact List.forall_mem_cons.mpr ⟨hGlyph, ih⟩
  | gap _ _ ih => exact List.forall_mem_cons.mpr ⟨rfl, ih⟩

theorem last (h : IsSpaced cs) : ∀ c ∈ cs.getLast?, Text.isBlank c = false := by
  induction h with
  | nil => exact fun c hc => by cases hc
  | @char d cs hBlank _ _ ih =>
    intro c hc
    rw [List.getLast?_cons] at hc
    cases hLast : cs.getLast? with
    | none =>
      rw [hLast] at hc
      cases hc
      exact hBlank
    | some e =>
      rw [hLast] at hc
      cases hc
      exact ih _ hLast
  | @gap cs hHead _ ih =>
    obtain ⟨d, hd, -⟩ := hHead
    obtain ⟨ds, rfl⟩ := List.head?_eq_some_iff.mp hd
    rw [List.getLast?_cons_cons]
    exact ih

theorem isTrim (h : IsSpaced cs) (hHead : cs.head? ≠ some ' ') : Text.IsTrim cs := by
  refine ⟨fun c hc => ?_, h.last⟩
  cases h with
  | nil => cases hc
  | char hBlank _ _ => cases hc; exact hBlank
  | gap _ _ => exact absurd rfl hHead

theorem collapseBlanks_eq (h : IsSpaced cs) : Text.collapseBlanks cs = cs := by
  induction h with
  | nil => rfl
  | @char c cs hBlank _ _ ih =>
    cases cs with
    | nil => simp [Text.collapseBlanks, hBlank]
    | cons d ds => simp [Text.collapseBlanks, hBlank, ih]
  | @gap cs hHead _ ih =>
    obtain ⟨d, hd, hBlank⟩ := hHead
    obtain ⟨ds, rfl⟩ := List.head?_eq_some_iff.mp hd
    have hSpace : Text.isBlank ' ' = true := rfl
    simp [Text.collapseBlanks, hSpace, hBlank, ih]

theorem clean_eq (h : IsSpaced cs) (hHead : cs.head? ≠ some ' ') : clean cs = cs := by
  rw [clean, (h.isTrim hHead).trim_eq, List.map_congr_left h.plainGlyph_eq, List.map_id',
    h.collapseBlanks_eq]

theorem replaceWord {p q r : Char} {out : List Char} (hOut : out ≠ [])
    (hPlain : ∀ c ∈ out, Text.isBlank c = false ∧ plainGlyph c = c) (h : IsSpaced cs) :
    IsSpaced (replaceWord p q r out cs) := by
  fun_induction Chord.replaceWord p q r out cs with
  | case1 => exact .nil
  | case2 c cs hWord ih =>
    obtain ⟨rest, hRest⟩ := hWord
    cases hRest
    exact (ih h.of_cons.of_cons.of_cons).append hPlain
  | case3 c cs hWord ih =>
    cases h with
    | char hBlank hGlyph h => exact .char hBlank hGlyph (ih h)
    | gap hHead h =>
      refine .gap ?_ (ih h)
      rw [head?_replaceWord hOut]
      split
      · obtain ⟨e, es, rfl⟩ := List.exists_cons_of_ne_nil hOut
        exact ⟨e, rfl, (hPlain e List.mem_cons_self).1⟩
      · exact hHead

theorem sharpenBass (h : IsSpaced cs) : IsSpaced (sharpenBass cs) := by
  induction cs using sharpenBass_induction with
  | nil => exact .nil
  | char c cs hc ih =>
    rw [sharpenBass_cons hc]
    cases h with
    | char hBlank hGlyph h => exact .char hBlank hGlyph (ih h)
    | gap hHead h => exact .gap (by rwa [head?_sharpenBass]) (ih h)
  | slash cs hScan ih =>
    rw [sharpenBass_slash_of_none hScan]
    exact .char rfl rfl (ih h.of_cons)
  | bass cs n rest hScan ih =>
    obtain ⟨l, rfl, -⟩ := NoteName.exists_letter_of_scan?_eq_some hScan
    rw [sharpenBass_slash_of_some hScan]
    exact .char rfl rfl ((ih h.of_cons.of_cons.of_append).append
      NoteName.not_blank_of_mem_chars)

theorem respell (h : IsSpaced cs) : IsSpaced (respell cs) := by
  rw [Chord.respell, shortenMinor_eq_replaceWord, raiseFifth_eq_replaceWord]
  have hMinor : ∀ c ∈ ['m'], Text.isBlank c = false ∧ plainGlyph c = c :=
    List.forall_mem_singleton.mpr (by decide)
  have hFifth : ∀ c ∈ ['#', '5'], Text.isBlank c = false ∧ plainGlyph c = c :=
    List.forall_mem_cons.mpr ⟨by decide, List.forall_mem_singleton.mpr (by decide)⟩
  exact ((h.replaceWord (List.cons_ne_nil _ _) hMinor).replaceWord
    (List.cons_ne_nil _ _) hFifth).sharpenBass

theorem spellTail_eq (h : IsSpaced cs) (hHead : cs.head? ≠ some ' ') :
    spellTail cs = Chord.respell cs :=
  (h.respell.isTrim (head?_respell_ne hHead)).trim_eq

theorem head?_ne_of_space_cons (h : IsSpaced (' ' :: cs)) : cs.head? ≠ some ' ' := by
  intro hSpace
  cases h with
  | char hBlank _ _ => exact absurd hBlank (by decide)
  | gap hHead _ =>
    obtain ⟨c, hc, hBlank⟩ := hHead
    rw [hSpace] at hc
    cases hc
    exact absurd hBlank (by decide)

/-- The space behind a root is taken away. -/
theorem spellTail_space_cons (h : IsSpaced (' ' :: cs)) :
    spellTail (' ' :: cs) = Chord.respell cs := by
  rw [← h.of_cons.spellTail_eq h.head?_ne_of_space_cons, spellTail_eq_trim_respell,
    respell_cons (by decide) (by decide) (by decide)]
  rfl

theorem spellTail (h : IsSpaced cs) : IsSpaced (spellTail cs) := by
  by_cases hHead : cs.head? = some ' '
  · obtain ⟨ds, rfl⟩ := List.head?_eq_some_iff.mp hHead
    rw [h.spellTail_space_cons]
    exact h.of_cons.respell
  · rw [h.spellTail_eq hHead]
    exact h.respell

end IsSpaced

end LeadSheet.Chord
