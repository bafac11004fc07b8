import Mathlib.Data.List.Infix
import LeadSheet.Chord.Spelling

/-!
# Words that are replaced

`min` and `aug` are replaced wherever they stand, from the left and in one pass. A text can be cut
anywhere but inside of such a word, and other words than these are neither made nor undone.
-/

namespace LeadSheet.Chord
set_option autoImplicit false

section Word

variable {p q r : Char} {out cs xs ys w : List Char}

def replaceWord (p q r : Char) (out : List Char) : List Char → List Char
  | [] => []
  | c :: cs =>
    if [p, q, r] <+: c :: cs then out ++ replaceWord p q r out (cs.drop 2)
    else c :: replaceWord p q r out cs
termination_by cs => cs.length

theorem shortenMinor_eq_replaceWord (cs : List Char) :
    shortenMinor cs = replaceWord 'm' 'i' 'n' ['m'] cs := by
  fun_induction shortenMinor cs with
  | case1 cs ih => simp [replaceWord, ih]
  | case2 c cs hNot ih =>
    rw [replaceWord, if_neg, ih]
    rintro ⟨rest, hRest⟩
    cases hRest
    exact hNot rest rfl rfl
  | case3 => rw [replaceWord]

theorem raiseFifth_eq_replaceWord (cs : List Char) :
    raiseFifth cs = replaceWord 'a' 'u' 'g' ['#', '5'] cs := by
  fun_induction raiseFifth cs with
  | case1 cs ih => simp [replaceWord, ih]
  | case2 c cs hNot ih =>
    rw [replaceWord, if_neg, ih]
    rintro ⟨rest, hRest⟩
    cases hRest
    exact hNot rest rfl rfl
  | case3 => rw [replaceWord]

theorem replaceWord_cons_of_ne {c : Char} (h : c ≠ p) (cs : List Char) :
    replaceWord p q r out (c :: cs) = c :: replaceWord p q r out cs := by
  rw [replaceWord, if_neg]
  rw [List.cons_prefix_cons]
  exact fun hWord => h hWord.1.symm

theorem isPrefix_append_iff {c : Char} (h : ∀ d ∈ ys.head?, d ≠ q ∧ d ≠ r) :
    [p, q, r] <+: c :: (xs ++ ys) ↔ [p, q, r] <+: c :: xs := by
  match xs, ys with
  | d :: e :: xs, ys => simp
  | xs, [] => simp
  | [], y :: ys => simp [((h y rfl).1).symm]
  | [d], y :: ys => simp [((h y rfl).2).symm]

theorem replaceWord_append (h : ∀ d ∈ ys.head?, d ≠ q ∧ d ≠ r) :
    replaceWord p q r out (xs ++ ys) = replaceWord p q r out xs ++ replaceWord p q r out ys := by
  fun_induction replaceWord p q r out xs with
  | case1 => rfl
  | case2 c cs hWord ih =>
    rw [List.cons_append, replaceWord, if_pos ((isPrefix_append_iff h).mpr hWord),
      List.append_assoc, ← ih, List.drop_append_of_le_length]
    have hLength := hWord.length_le
    simp only [List.length_cons, List.length_nil] at hLength
    omega
  | case3 c cs hWord ih =>
    rw [List.cons_append, replaceWord, if_neg (mt (isPrefix_append_iff h).mp hWord), ih,
      List.cons_append]

theorem shortenMinor_append (h : ∀ d ∈ ys.head?, d ≠ 'i' ∧ d ≠ 'n') :
    shortenMinor (xs ++ ys) = shortenMinor xs ++ shortenMinor ys := by
  simp only [shortenMinor_eq_replaceWord, replaceWord_append h]

theorem raiseFifth_append (h : ∀ d ∈ ys.head?, d ≠ 'u' ∧ d ≠ 'g') :
    raiseFifth (xs ++ ys) = raiseFifth xs ++ raiseFifth ys := by
  simp only [raiseFifth_eq_replaceWord, replaceWord_append h]

theorem head?_replaceWord (hOut : out ≠ []) (cs : List Char) :
    (replaceWord p q r out cs).head? = if [p, q, r] <+: cs then out.head? else cs.head? := by
  cases cs with
  | nil => simp [replaceWord]
  | cons c cs =>
    rw [replaceWord]
    split
    · rw [List.head?_append_of_ne_nil _ hOut]
    · rfl

theorem length_replaceWord_le (hOut : out.length ≤ 3) (cs : List Char) :
    (replaceWord p q r out cs).length ≤ cs.length := by
  fun_induction replaceWord p q r out cs with
  | case1 => exact Nat.le_refl _
  | case2 c cs hWord ih =>
    have hLength := hWord.length_le
    rw [List.length_drop] at ih
    simp only [List.length_append, List.length_cons, List.length_nil] at hLength ⊢
    omega
  | case3 c cs _ ih => exact Nat.succ_le_succ ih

theorem length_replaceWord_lt (hOut : out.length < 3) (h : [p, q, r] <:+: cs) :
    (replaceWord p q r out cs).length < cs.length := by
  fun_induction replaceWord p q r out cs with
  | case1 => simp at h
  | case2 c cs hWord ih =>
    have hLength := hWord.length_le
    have hRest := length_replaceWord_le (p := p) (q := q) (r := r) hOut.le (cs.drop 2)
    simp only [List.length_append, List.length_cons, List.length_nil, List.length_drop] at *
    omega
  | case3 c cs hWord ih =>
    exact Nat.succ_lt_succ (ih ((List.infix_cons_iff.mp h).resolve_left hWord))

theorem replaceWord_eq_self (h : ¬[p, q, r] <:+: cs) : replaceWord p q r out cs = cs := by
  fun_induction replaceWord p q r out cs with
  | case1 => rfl
  | case2 c cs hWord ih => exact absurd hWord.isInfix h
  | case3 c cs _ ih => rw [ih (mt List.infix_cons h)]

/-- A word cannot start in a text without its first character. -/
theorem isInfix_append_iff {d : Char} (h : d ∉ xs) : d :: w <:+: xs ++ ys ↔ d :: w <:+: ys := by
  induction xs with
  | nil => rfl
  | cons x xs ih =>
    rw [List.mem_cons, not_or] at h
    rw [List.cons_append, List.infix_cons_iff, ih h.2, or_iff_right]
    rw [List.cons_prefix_cons]
    exact fun hHead => h.1 hHead.1

theorem isPrefix_replaceWord_iff (hOut : out ≠ []) (hw : ∀ c ∈ w, c ∉ p :: out) :
    w <+: replaceWord p q r out cs ↔ w <+: cs := by
  induction w generalizing cs with
  | nil => simp
  | cons d w ih =>
    obtain ⟨hd, hw⟩ := List.forall_mem_cons.mp hw
    cases cs with
    | nil => rw [replaceWord]
    | cons c cs =>
      rw [replaceWord]
      split
      · rename_i hWord
        obtain ⟨e, es, rfl⟩ := List.exists_cons_of_ne_nil hOut
        obtain ⟨rfl, -⟩ := List.cons_prefix_cons.mp hWord
        rw [List.cons_append, List.cons_prefix_cons, List.cons_prefix_cons]
        refine iff_of_false (fun h => hd ?_) (fun h => hd ?_)
        · rw [h.1]
          exact List.mem_cons_of_mem _ List.mem_cons_self
        · rw [h.1]
          exact List.mem_cons_self
      · rw [List.cons_prefix_cons, List.cons_prefix_cons, ih hw]

/-- A word that shares no character with the one that is replaced is neither made nor undone. -/
theorem isInfix_replaceWord_iff (hOut : out ≠ []) {d : Char}
    (hw : ∀ c ∈ d :: w, c ∉ [p, q, r] ∧ c ∉ out) :
    d :: w <:+: replaceWord p q r out cs ↔ d :: w <:+: cs := by
  have hd := hw d List.mem_cons_self
  have hFirst : ∀ c ∈ d :: w, c ∉ p :: out := by
    intro c hc hMem
    rcases List.mem_cons.mp hMem with rfl | hMem
    · exact (hw c hc).1 List.mem_cons_self
    · exact (hw c hc).2 hMem
  fun_induction replaceWord p q r out cs with
  | case1 => rfl
  | case2 c cs hWord ih =>
    obtain ⟨rest, hRest⟩ := hWord
    cases hRest
    exact (isInfix_append_iff hd.2).trans (ih.trans (isInfix_append_iff hd.1).symm)
  | case3 c cs hWord ih =>
    have hPrefix : d :: w <+: replaceWord p q r out (c :: cs) ↔ d :: w <+: c :: cs :=
      isPrefix_replaceWord_iff hOut hFirst
    rw [replaceWord, if_neg hWord] at hPrefix
    rw [List.infix_cons_iff, List.infix_cons_iff]
    exact or_congr hPrefix ih

/-- A word whose first character occurs just there is gone. -/
theorem not_isInfix_replaceWord (hOut : out ≠ []) (hp : p ∉ out) (hq : q ∉ p :: out)
    (hr : r ∉ p :: out) (cs : List Char) : ¬[p, q, r] <:+: replaceWord p q r out cs := by
  fun_induction replaceWord p q r out cs with
  | case1 => simp
  | case2 c cs hWord ih => rwa [isInfix_append_iff hp]
  | case3 c cs hWord ih =>
    have hTail : ∀ c ∈ [q, r], c ∉ p :: out :=
      List.forall_mem_cons.mpr ⟨hq, List.forall_mem_singleton.mpr hr⟩
    rw [List.infix_cons_iff, or_iff_left ih, List.cons_prefix_cons,
      isPrefix_replaceWord_iff hOut hTail, ← List.cons_prefix_cons]
    exact hWord

end Word

section Minor

variable {cs : List Char}

theorem head?_shortenMinor (cs : List Char) : (shortenMinor cs).head? = cs.head? := by
  rw [shortenMinor_eq_replaceWord, head?_replaceWord (List.cons_ne_nil _ _)]
  split
  · rename_i hWord
    obtain ⟨rest, rfl⟩ := hWord
    rfl
  · rfl

theorem length_shortenMinor_le (cs : List Char) : (shortenMinor cs).length ≤ cs.length := by
  rw [shortenMinor_eq_replaceWord]
  exact length_replaceWord_le (by decide) cs

/-- One pass leaves a `min` where the text has an `in` behind one. -/
theorem min_isInfix_shortenMinor_iff :
    "min".toList <:+: shortenMinor cs ↔ "minin".toList <:+: cs := by
  have hIn (ds : List Char) : ['i', 'n'] <+: shortenMinor ds ↔ ['i', 'n'] <+: ds := by
    rw [shortenMinor_eq_replaceWord]
    exact isPrefix_replaceWord_iff (List.cons_ne_nil _ _) (by simp)
  fun_induction shortenMinor cs with
  | case1 cs ih =>
    change ['m', 'i', 'n'] <:+: _ ↔ ['m', 'i', 'n', 'i', 'n'] <:+: _ at ih ⊢
    simp [List.infix_cons_iff, List.cons_prefix_cons, hIn, ih]
  | case2 c cs hNot ih =>
    change ['m', 'i', 'n'] <:+: _ ↔ ['m', 'i', 'n', 'i', 'n'] <:+: _ at ih ⊢
    -- an `m` that stays has no `in` behind it, neither in the text nor in what is left of it
    have hNone : ¬('m' = c ∧ ['i', 'n'] <+: cs) := by
      rintro ⟨rfl, rest, rfl⟩
      exact hNot rest rfl rfl
    have hNone' : ¬('m' = c ∧ ['i', 'n', 'i', 'n'] <+: cs) := fun h =>
      hNone ⟨h.1, (List.prefix_append ['i', 'n'] ['i', 'n']).trans h.2⟩
    simp only [List.infix_cons_iff, List.cons_prefix_cons, hIn, ih]
    rw [or_iff_right hNone, or_iff_right hNone']
  | case3 => simp

end Minor

theorem head?_respelled (cs : List Char) :
    (raiseFifth (shortenMinor cs)).head? = if "aug".toList <+: cs then some '#' else cs.head? := by
  have hAug : ['a', 'u', 'g'] <+: shortenMinor cs ↔ "aug".toList <+: cs := by
    rw [shortenMinor_eq_replaceWord]
    exact isPrefix_replaceWord_iff (List.cons_ne_nil _ _) (by simp)
  rw [raiseFifth_eq_replaceWord, head?_replaceWord (List.cons_ne_nil _ _), head?_shortenMinor]
  simp only [hAug, List.head?_cons]

end LeadSheet.Chord
