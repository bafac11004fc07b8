import LeadSheet.Proofs.Chord.Label

/-!
# Slash basses, and all steps of respelling

A slash makes the note behind it a bass, which is spelled with a sharp. What is spelled so is read
again as it is, and words without the letters of notes are neither made nor undone. Together with
the words that are replaced these are the steps that respell what follows a root.
-/

namespace LeadSheet
set_option autoImplicit false

namespace NoteName

theorem length_chars_sharpened (n : NoteName) : n.sharpened.chars.length = n.chars.length := by
  obtain ⟨letter, accidental⟩ := n
  cases letter <;> cases accidental <;> rfl

theorem scan?_eq_none_iff {cs : List Char} :
    scan? cs = none ↔ ∀ c ∈ cs.head?, Letter.ofChar? c = none := by
  unfold scan?
  split
  · simp
  · split <;> simp_all
    split <;> simp

theorem ofChar?_of_scan? {l : Char} {cs rest : List Char} {n : NoteName}
    (h : scan? (l :: cs) = some (n, rest)) : Letter.ofChar? l = some n.letter := by
  cases hLetter : Letter.ofChar? l with
  | none => simp [scan?, hLetter] at h
  | some letter =>
    cases cs with
    | nil =>
      simp only [scan?, hLetter] at h
      cases h
      rfl
    | cons a cs =>
      cases hAccidental : Accidental.ofChar? a
      all_goals
        simp only [scan?, hLetter, hAccidental] at h
        cases h
        rfl

theorem not_mem_accidental_chars {c : Char} (h : Accidental.ofChar? c = none) (n : NoteName) :
    c ∉ n.accidental.chars := by
  cases n.accidental with
  | natural => exact List.not_mem_nil
  | sharp | flat =>
    rw [Accidental.chars, List.mem_singleton]
    rintro rfl
    cases h

end NoteName

namespace Chord

section Bass

variable {cs w : List Char}

theorem sharpenBass_slash (cs : List Char) :
    sharpenBass ('/' :: cs) = '/' :: match NoteName.scan? cs with
      | some (bass, rest) => bass.sharpened.chars ++ sharpenBass rest
      | none => sharpenBass cs := by
  have hNatural (letter : Letter) : (NoteName.mk letter .natural).sharpened.chars =
      [letter.toChar] := by
    cases letter <;> rfl
  match cs with
  | [] => rfl
  | [l] =>
    cases hLetter : Letter.ofChar? l <;> simp [sharpenBass, NoteName.scan?, hLetter, hNatural]
  | l :: a :: cs =>
    cases hLetter : Letter.ofChar? l with
    | none => simp [sharpenBass, NoteName.scan?, hLetter]
    | some letter =>
      cases hAccidental : Accidental.ofChar? a <;>
        simp [sharpenBass, NoteName.scan?, hLetter, hAccidental, hNatural]

theorem sharpenBass_slash_of_none (h : NoteName.scan? cs = none) :
    sharpenBass ('/' :: cs) = '/' :: sharpenBass cs := by
  rw [sharpenBass_slash, h]

theorem sharpenBass_slash_of_some {bass : NoteName} {rest : List Char}
    (h : NoteName.scan? cs = some (bass, rest)) :
    sharpenBass ('/' :: cs) = '/' :: (bass.sharpened.chars ++ sharpenBass rest) := by
  rw [sharpenBass_slash, h]

/-- A text is read from the left, a slash together with the note behind it. -/
@[elab_as_elim]
theorem sharpenBass_induction {motive : List Char → Prop} (nil : motive [])
    (char : ∀ c cs, c ≠ '/' → motive cs → motive (c :: cs))
    (slash : ∀ cs, NoteName.scan? cs = none → motive cs → motive ('/' :: cs))
    (bass : ∀ cs n rest, NoteName.scan? cs = some (n, rest) → motive rest → motive ('/' :: cs))
    (cs : List Char) : motive cs := by
  induction cs using (measure List.length).wf.induction with
  | h cs ih =>
    cases cs with
    | nil => exact nil
    | cons c cs =>
      by_cases hSlash : c = '/'
      · subst hSlash
        cases hScan : NoteName.scan? cs with
        | none => exact slash cs hScan (ih cs (Nat.lt_succ_self _))
        | some found =>
          obtain ⟨l, hcs, -⟩ := NoteName.exists_letter_of_scan?_eq_some hScan
          refine bass cs _ _ hScan (ih _ ?_)
          change found.2.length < ('/' :: cs).length
          rw [hcs]
          simp only [List.length_cons, List.length_append]
          omega
      · exact char c cs hSlash (ih cs (Nat.lt_succ_self _))

theorem head?_sharpenBass (cs : List Char) : (sharpenBass cs).head? = cs.head? := by
  cases cs with
  | nil => rfl
  | cons c cs =>
    by_cases hSlash : c = '/'
    · rw [hSlash, sharpenBass_slash]
      rfl
    · rw [sharpenBass_cons hSlash]
      rfl

theorem length_sharpenBass (cs : List Char) : (sharpenBass cs).length = cs.length := by
  induction cs using sharpenBass_induction with
  | nil => rfl
  | char c cs hc ih => rw [sharpenBass_cons hc, List.length_cons, ih, List.length_cons]
  | slash cs hScan ih =>
    rw [sharpenBass_slash_of_none hScan, List.length_cons, ih, List.length_cons]
  | bass cs n rest hScan ih =>
    obtain ⟨l, rfl, -⟩ := NoteName.exists_letter_of_scan?_eq_some hScan
    rw [sharpenBass_slash_of_some hScan, List.length_cons, List.length_cons, List.length_append, ih,
      NoteName.length_chars_sharpened, NoteName.chars, List.length_cons, List.length_cons,
      List.length_append]
    omega

theorem isPrefix_sharpenBass_iff (hw : '/' ∉ w) : w <+: sharpenBass cs ↔ w <+: cs := by
  induction w generalizing cs with
  | nil => simp
  | cons d w ih =>
    rw [List.mem_cons, not_or] at hw
    cases cs with
    | nil => rfl
    | cons c cs =>
      by_cases hSlash : c = '/'
      · rw [hSlash, sharpenBass_slash, List.cons_prefix_cons, List.cons_prefix_cons]
        exact iff_of_false (fun h => hw.1 h.1.symm) (fun h => hw.1 h.1.symm)
      · rw [sharpenBass_cons hSlash, List.cons_prefix_cons, List.cons_prefix_cons, ih hw.2]

/-- A word that no note name has the first character of is not made by respelling a bass. -/
theorem isInfix_of_isInfix_sharpenBass {d : Char} (hw : '/' ∉ d :: w)
    (hd : ∀ n : NoteName, d ∉ n.chars) (h : d :: w <:+: sharpenBass cs) : d :: w <:+: cs := by
  have hSlash : d ∉ ['/'] := fun hMem => hw (List.mem_singleton.mp hMem ▸ List.mem_cons_self)
  induction cs using sharpenBass_induction with
  | nil => exact h
  | char c cs hc ih =>
    have hPrefix : d :: w <+: sharpenBass (c :: cs) ↔ d :: w <+: c :: cs :=
      isPrefix_sharpenBass_iff hw
    rw [sharpenBass_cons hc] at h hPrefix
    exact List.infix_cons_iff.mpr ((List.infix_cons_iff.mp h).imp hPrefix.mp ih)
  | slash cs hScan ih =>
    rw [sharpenBass_slash_of_none hScan] at h
    exact List.infix_cons (ih ((isInfix_append_iff hSlash).mp h))
  | bass cs n rest hScan ih =>
    obtain ⟨l, rfl, -⟩ := NoteName.exists_letter_of_scan?_eq_some hScan
    rw [sharpenBass_slash_of_some hScan] at h
    have hRest := ih ((isInfix_append_iff (hd _)).mp ((isInfix_append_iff hSlash).mp h))
    exact hRest.trans (List.suffix_append ('/' :: l :: n.accidental.chars) rest).isInfix

theorem isInfix_sharpenBass {d : Char} (hw : '/' ∉ d :: w) (hLetter : Letter.ofChar? d = none)
    (hAccidental : Accidental.ofChar? d = none) (h : d :: w <:+: cs) :
    d :: w <:+: sharpenBass cs := by
  have hSlash : d ∉ ['/'] := fun hMem => hw (List.mem_singleton.mp hMem ▸ List.mem_cons_self)
  induction cs using sharpenBass_induction with
  | nil => exact h
  | char c cs hc ih =>
    have hPrefix : d :: w <+: sharpenBass (c :: cs) ↔ d :: w <+: c :: cs :=
      isPrefix_sharpenBass_iff hw
    rw [sharpenBass_cons hc] at hPrefix ⊢
    exact List.infix_cons_iff.mpr ((List.infix_cons_iff.mp h).imp hPrefix.mpr ih)
  | slash cs hScan ih =>
    rw [sharpenBass_slash_of_none hScan]
    exact List.infix_cons (ih ((isInfix_append_iff hSlash).mp h))
  | bass cs n rest hScan ih =>
    obtain ⟨l, rfl, -⟩ := NoteName.exists_letter_of_scan?_eq_some hScan
    have hName : d ∉ '/' :: l :: n.accidental.chars := by
      rw [List.mem_cons, List.mem_cons, not_or, not_or]
      refine ⟨List.mem_singleton.not.mp hSlash, ?_, NoteName.not_mem_accidental_chars hAccidental n⟩
      rintro rfl
      rw [NoteName.ofChar?_of_scan? hScan] at hLetter
      cases hLetter
    have hRest := ih ((isInfix_append_iff hName).mp h)
    rw [sharpenBass_slash_of_some hScan]
    exact hRest.trans
      (List.suffix_append ('/' :: n.sharpened.chars) (sharpenBass rest)).isInfix

theorem sharpenBass_sharpenBass (cs : List Char) :
    sharpenBass (sharpenBass cs) = sharpenBass cs := by
  induction cs using sharpenBass_induction with
  | nil => rfl
  | char c cs hc ih => rw [sharpenBass_cons hc, sharpenBass_cons hc, ih]
  | slash cs hScan ih =>
    have hScan' : NoteName.scan? (sharpenBass cs) = none := by
      rwa [NoteName.scan?_eq_none_iff, head?_sharpenBass, ← NoteName.scan?_eq_none_iff]
    rw [sharpenBass_slash_of_none hScan, sharpenBass_slash_of_none hScan', ih]
  | bass cs n rest hScan ih =>
    obtain ⟨l, rfl, hApart⟩ := NoteName.exists_letter_of_scan?_eq_some hScan
    -- the rest still starts as it did, so behind a natural note there is no accidental now either
    have hScan' : NoteName.scan? (n.sharpened.chars ++ sharpenBass rest) =
        some (n.sharpened, sharpenBass rest) := by
      apply NoteName.scan?_chars_append
      rw [head?_sharpenBass, n.accidental_sharpened]
      exact hApart
    rw [sharpenBass_slash_of_some hScan, sharpenBass_slash_of_some hScan', ih,
      NoteName.sharpened_sharpened]

end Bass

section Respell

variable {c : Char} {cs : List Char}

/-- The steps one after the other, before the blanks at the ends are taken away. -/
def respell (cs : List Char) : List Char := sharpenBass (raiseFifth (shortenMinor cs))

theorem spellTail_eq_trim_respell (cs : List Char) : spellTail cs = Text.trim (respell cs) := rfl

theorem respell_cons (hm : c ≠ 'm') (ha : c ≠ 'a') (hSlash : c ≠ '/') (cs : List Char) :
    respell (c :: cs) = c :: respell cs := by
  rw [respell, shortenMinor_eq_replaceWord, replaceWord_cons_of_ne hm,
    raiseFifth_eq_replaceWord, replaceWord_cons_of_ne ha, sharpenBass_cons hSlash,
    ← raiseFifth_eq_replaceWord, ← shortenMinor_eq_replaceWord, respell]

theorem head?_respell (cs : List Char) :
    (respell cs).head? = if "aug".toList <+: cs then some '#' else cs.head? := by
  rw [respell, head?_sharpenBass, head?_respelled]

end Respell

end Chord

end LeadSheet
