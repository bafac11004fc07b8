import LeadSheet.Chord.Symbol
import LeadSheet.Proofs.Chord.Word
import LeadSheet.Proofs.Text.Blank

/-!
# Qualities as tokens

A quality is a run of words and single marks. Respelling goes token by token: `min` becomes the mark
`m`, `aug` becomes the marks `#` and `5`, and the others stay. What comes out is made of tokens
again and respelling does nothing more to it.
-/

namespace LeadSheet.Chord
set_option autoImplicit false

def keptWords : List (List Char) :=
  ["maj".toList, "dim".toList, "sus".toList, "add".toList, "alt".toList, "no".toList]

inductive IsTail : List Char → Prop
  | nil : IsTail []
  | word {w cs : List Char} (hw : w ∈ keptWords) (h : IsTail cs) : IsTail (w ++ cs)
  | minor {cs : List Char} (h : IsTail cs) : IsTail ('m' :: 'i' :: 'n' :: cs)
  | augmented {cs : List Char} (h : IsTail cs) : IsTail ('a' :: 'u' :: 'g' :: cs)
  | mark {c : Char} {cs : List Char} (hc : isQualityMark c = true) (h : IsTail cs) :
      IsTail (c :: cs)

theorem isTail_of_isQuality {cs : List Char} (h : isQuality cs = true) : IsTail cs := by
  fun_induction isQuality cs with
  | case1 cs ih => exact .word (w := "maj".toList) (by simp [keptWords]) (ih h)
  | case2 cs ih => exact .minor (ih h)
  | case3 cs ih => exact .word (w := "dim".toList) (by simp [keptWords]) (ih h)
  | case4 cs ih => exact .augmented (ih h)
  | case5 cs ih => exact .word (w := "sus".toList) (by simp [keptWords]) (ih h)
  | case6 cs ih => exact .word (w := "add".toList) (by simp [keptWords]) (ih h)
  | case7 cs ih => exact .word (w := "alt".toList) (by simp [keptWords]) (ih h)
  | case8 cs ih => exact .word (w := "no".toList) (by simp [keptWords]) (ih h)
  | case9 c cs _ _ _ _ _ _ _ _ ih =>
    rw [Bool.and_eq_true] at h
    exact .mark h.1 (ih h.2)
  | case10 => exact .nil

theorem bounds_or_mem_of_isQualityMark {c : Char} (h : isQualityMark c = true) :
    (48 ≤ c.toNat ∧ c.toNat ≤ 57) ∨
      c ∈ ['m', 'M', '#', 'b', '+', '-', '°', 'ø', '(', ')', ','] := by
  rw [isQualityMark, Bool.or_eq_true, Bool.and_eq_true, decide_eq_true_eq, decide_eq_true_eq,
    List.contains_iff_mem] at h
  rcases h with ⟨hLow, hHigh⟩ | hMem
  · have hLow : '0'.toNat ≤ c.toNat := hLow
    have hHigh : c.toNat ≤ '9'.toNat := hHigh
    exact .inl ⟨hLow, hHigh⟩
  · exact .inr hMem

theorem isQuality_cons {c : Char} {cs : List Char} (hc : isQualityMark c = true)
    (h : isQuality cs = true) : isQuality (c :: cs) = true := by
  unfold isQuality
  split <;> simp_all [isQualityMark, isQuality]

theorem isQuality_of_isTail {cs : List Char} (h : IsTail cs) : isQuality cs = true := by
  induction h with
  | nil => rfl
  | word hw _ ih =>
    simp only [keptWords, List.mem_cons, List.not_mem_nil, or_false] at hw
    rcases hw with rfl | rfl | rfl | rfl | rfl | rfl <;> exact ih
  | minor _ ih => exact ih
  | augmented _ ih => exact ih
  | mark hc _ ih => exact isQuality_cons hc ih

theorem head?_ne_of_isTail {cs : List Char} (h : IsTail cs) : cs.head? ≠ some 'i' := by
  cases h with
  | nil => simp
  | word hw _ =>
    simp only [keptWords, List.mem_cons, List.not_mem_nil, or_false] at hw
    rcases hw with rfl | rfl | rfl | rfl | rfl | rfl <;> simp
  | minor _ => simp
  | augmented _ => simp
  | mark hc _ =>
    intro hHead
    cases hHead
    exact absurd hc (by decide)

/-- Characters that trimming and cleaning pass over and that are no slash. -/
def IsPlain (c : Char) : Prop := Text.isBlank c = false ∧ plainGlyph c = c ∧ c ≠ '/'

instance : DecidablePred IsPlain := fun c =>
  inferInstanceAs (Decidable (Text.isBlank c = false ∧ plainGlyph c = c ∧ c ≠ '/'))

theorem plainGlyph_of_lt {c : Char} (h : c.toNat < 0x2000) : plainGlyph c = c := by
  unfold plainGlyph
  split
  all_goals first | rfl | exact absurd h (by decide)

theorem isPlain_of_isQualityMark {c : Char} (h : isQualityMark c = true) : IsPlain c := by
  rcases bounds_or_mem_of_isQualityMark h with hDigit | hMem
  · refine ⟨?_, plainGlyph_of_lt (by omega), ?_⟩
    · simp only [Text.isBlank, Bool.or_eq_false_iff, Bool.and_eq_false_iff,
        decide_eq_false_iff_not, beq_eq_false_iff_ne]
      omega
    · rintro rfl
      exact absurd hDigit (by decide)
  · simp only [List.mem_cons, List.not_mem_nil, or_false] at hMem
    rcases hMem with rfl | rfl | rfl | rfl | rfl | rfl | rfl | rfl | rfl | rfl | rfl <;> decide

theorem isPlain_of_mem_keptWords {w : List Char} (hw : w ∈ keptWords) : ∀ c ∈ w, IsPlain c := by
  have hAll : (keptWords.all fun w => w.all fun c => decide (IsPlain c)) = true := by decide
  have hWord := List.all_eq_true.mp hAll w hw
  exact fun c hc => of_decide_eq_true (List.all_eq_true.mp hWord c hc)

theorem isPlain_of_mem_isTail {cs : List Char} (h : IsTail cs) : ∀ c ∈ cs, IsPlain c := by
  induction h with
  | nil => exact fun c hc => (List.not_mem_nil hc).elim
  | word hw _ ih => exact List.forall_mem_append.mpr ⟨isPlain_of_mem_keptWords hw, ih⟩
  | minor _ ih =>
    simp only [List.forall_mem_cons]
    exact ⟨by decide, by decide, by decide, ih⟩
  | augmented _ ih =>
    simp only [List.forall_mem_cons]
    exact ⟨by decide, by decide, by decide, ih⟩
  | mark hc _ ih => exact List.forall_mem_cons.mpr ⟨isPlain_of_isQualityMark hc, ih⟩

theorem shortenMinor_cons {c : Char} {cs : List Char} (h : cs.head? ≠ some 'i') :
    shortenMinor (c :: cs) = c :: shortenMinor cs := by
  rw [shortenMinor]
  rintro rest rfl rfl
  exact h rfl

theorem raiseFifth_cons {c : Char} {cs : List Char} (h : c ≠ 'a') :
    raiseFifth (c :: cs) = c :: raiseFifth cs := by
  rw [raiseFifth_eq_replaceWord, replaceWord_cons_of_ne h, ← raiseFifth_eq_replaceWord]

theorem shortenMinor_word {w cs : List Char} (hw : w ∈ keptWords) (h : cs.head? ≠ some 'i') :
    shortenMinor (w ++ cs) = w ++ shortenMinor cs := by
  simp only [keptWords, List.mem_cons, List.not_mem_nil, or_false] at hw
  rcases hw with rfl | rfl | rfl | rfl | rfl | rfl
  case inr.inl =>
    -- the `m` of `dim` stands in front of the rest
    change 'd' :: 'i' :: shortenMinor ('m' :: cs) = _
    rw [shortenMinor_cons h]
    rfl
  all_goals rfl

theorem raiseFifth_word {w : List Char} (hw : w ∈ keptWords) (cs : List Char) :
    raiseFifth (w ++ cs) = w ++ raiseFifth cs := by
  simp only [keptWords, List.mem_cons, List.not_mem_nil, or_false] at hw
  rcases hw with rfl | rfl | rfl | rfl | rfl | rfl <;> rfl

theorem ne_of_isQualityMark {c : Char} (h : isQualityMark c = true) : c ≠ 'a' := by
  rintro rfl
  exact absurd h (by decide)

/-- Token runs in which respelling finds nothing to do. -/
structure IsSpelt (cs : List Char) : Prop where
  isTail : IsTail cs
  minor : shortenMinor cs = cs
  fifth : raiseFifth cs = cs

theorem IsSpelt.word {w cs : List Char} (hw : w ∈ keptWords) (h : IsSpelt cs) :
    IsSpelt (w ++ cs) where
  isTail := .word hw h.isTail
  minor := by rw [shortenMinor_word hw (head?_ne_of_isTail h.isTail), h.minor]
  fifth := by rw [raiseFifth_word hw, h.fifth]

theorem IsSpelt.mark {c : Char} {cs : List Char} (hc : isQualityMark c = true) (h : IsSpelt cs) :
    IsSpelt (c :: cs) where
  isTail := .mark hc h.isTail
  minor := by rw [shortenMinor_cons (head?_ne_of_isTail h.isTail), h.minor]
  fifth := by rw [raiseFifth_cons (ne_of_isQualityMark hc), h.fifth]

theorem IsSpelt.of_cons_sharp {cs : List Char} (h : IsSpelt ('#' :: cs)) : IsSpelt cs where
  isTail := isTail_of_isQuality
    (by simpa [isQuality, isQualityMark] using isQuality_of_isTail h.isTail)
  minor := List.tail_eq_of_cons_eq h.minor
  fifth := List.tail_eq_of_cons_eq h.fifth

theorem isSpelt_respelled {cs : List Char} (h : IsTail cs) :
    IsSpelt (raiseFifth (shortenMinor cs)) := by
  induction h with
  | nil => exact ⟨.nil, rfl, rfl⟩
  | word hw h ih =>
    rw [shortenMinor_word hw (head?_ne_of_isTail h), raiseFifth_word hw]
    exact ih.word hw
  | minor _ ih => exact ih.mark (by decide)
  | augmented _ ih => exact (ih.mark (by decide)).mark (by decide)
  | mark hc h ih =>
    rw [shortenMinor_cons (head?_ne_of_isTail h), raiseFifth_cons (ne_of_isQualityMark hc)]
    exact ih.mark hc

theorem sharpenBass_cons {c : Char} (h : c ≠ '/') (cs : List Char) :
    sharpenBass (c :: cs) = c :: sharpenBass cs := by
  rw [sharpenBass]
  · exact fun _ _ _ hEq _ => h hEq
  · exact fun _ hEq _ => h hEq

theorem sharpenBass_append {cs : List Char} (h : '/' ∉ cs) (rest : List Char) :
    sharpenBass (cs ++ rest) = cs ++ sharpenBass rest := by
  induction cs with
  | nil => rfl
  | cons c cs ih =>
    rw [List.mem_cons, not_or] at h
    rw [List.cons_append, sharpenBass_cons (Ne.symm h.1), ih h.2, List.cons_append]

theorem sharpenBass_eq_self {cs : List Char} (h : '/' ∉ cs) : sharpenBass cs = cs := by
  have hAppend := sharpenBass_append h []
  rwa [List.append_nil, sharpenBass, List.append_nil] at hAppend

theorem spellTail_of_isTail {cs : List Char} (h : IsTail cs) :
    spellTail cs = raiseFifth (shortenMinor cs) := by
  have hPlain := isPlain_of_mem_isTail (isSpelt_respelled h).isTail
  have hSlash : '/' ∉ raiseFifth (shortenMinor cs) := fun hMem => (hPlain _ hMem).2.2 rfl
  rw [spellTail, sharpenBass_eq_self hSlash]
  exact (Text.isTrim_of_not_blank fun c hc => (hPlain c hc).1).trim_eq

theorem IsSpelt.spellTail_eq {cs : List Char} (h : IsSpelt cs) : spellTail cs = cs := by
  rw [spellTail_of_isTail h.isTail, h.minor, h.fifth]

end LeadSheet.Chord
