import Mathlib.Data.List.DropRight
import LeadSheet.Text.Blank

/-!
# Text without blanks at its ends

Trimming leaves a text that neither starts nor ends with a blank, and does nothing to such a text.
So it can be done twice, and a blank behind a text makes no difference to it.
-/

namespace LeadSheet.Text
set_option autoImplicit false

structure IsTrim (cs : List Char) : Prop where
  head : ∀ c ∈ cs.head?, isBlank c = false
  last : ∀ c ∈ cs.getLast?, isBlank c = false

theorem trimEnd_eq_rdropWhile (cs : List Char) : trimEnd cs = cs.rdropWhile isBlank := rfl

theorem isTrim_of_not_blank {cs : List Char} (h : ∀ c ∈ cs, isBlank c = false) : IsTrim cs := by
  constructor
  · intro c hc
    exact h c (List.mem_of_head? hc)
  · intro c hc
    exact h c (List.mem_of_getLast? hc)

theorem isTrim_append {front mid back : List Char} (hFront : IsTrim front) (hNe : front ≠ [])
    (hBack : IsTrim back) (hNe' : back ≠ []) : IsTrim (front ++ mid ++ back) := by
  constructor
  · intro c hc
    rw [List.append_assoc, List.head?_append_of_ne_nil _ hNe] at hc
    exact hFront.head c hc
  · intro c hc
    rw [List.getLast?_append_of_ne_nil _ hNe'] at hc
    exact hBack.last c hc

theorem isTrim_trim (cs : List Char) : IsTrim (trim cs) := by
  constructor
  · intro c hc
    obtain ⟨tail, hTail⟩ := List.rdropWhile_prefix isBlank (trimStart cs)
    have hHead : (trimStart cs).head? = some c := by
      cases hTrim : trim cs with
      | nil =>
        rw [hTrim] at hc
        cases hc
      | cons d ds =>
        rw [hTrim] at hc
        change trim cs ++ tail = trimStart cs at hTail
        rw [← hTail, hTrim]
        exact hc
    have h := List.head?_dropWhile_not isBlank cs
    rw [trimStart] at hHead
    rw [hHead] at h
    exact h
  · intro c hc
    have hNe : (trimStart cs).rdropWhile isBlank ≠ [] := List.ne_nil_of_mem (List.mem_of_getLast? hc)
    have hLast := List.rdropWhile_last_not isBlank (trimStart cs) hNe
    rw [trim, trimEnd_eq_rdropWhile, List.getLast?_eq_getLast_of_ne_nil hNe] at hc
    cases hc
    simpa using hLast

theorem IsTrim.trim_eq {cs : List Char} (h : IsTrim cs) : trim cs = cs := by
  have hStart : trimStart cs = cs := by
    cases cs with
    | nil => rfl
    | cons c cs => exact List.dropWhile_cons_of_neg (by simp [h.head c rfl])
  rw [trim, hStart, trimEnd_eq_rdropWhile, List.rdropWhile_eq_self_iff]
  intro hNe
  simp [h.last _ (List.getLast?_eq_getLast_of_ne_nil hNe)]

theorem trim_concat_of_isBlank {c : Char} (hc : isBlank c = true) (cs : List Char) :
    trim (cs ++ [c]) = trim cs := by
  rw [trim, trim, trimStart, trimStart, List.dropWhile_append]
  split
  · rename_i hEmpty
    rw [List.isEmpty_iff.mp hEmpty, List.dropWhile_cons_of_pos hc, List.dropWhile_nil]
  · rw [trimEnd_eq_rdropWhile, trimEnd_eq_rdropWhile, List.rdropWhile_concat_pos _ _ _ hc]

theorem collapseBlanks_eq_self {cs : List Char} (h : ∀ c ∈ cs, isBlank c = false) :
    collapseBlanks cs = cs := by
  fun_induction collapseBlanks cs with
  | case1 => rfl
  | case2 c => simp [h c]
  | case3 c d cs hBlank | case4 c d cs hBlank => simp [h c] at hBlank
  | case5 c d cs _ ih => rw [ih fun e he => h e (List.mem_cons_of_mem _ he)]

theorem head?_collapseBlanks (cs : List Char) :
    (collapseBlanks cs).head? = cs.head?.map fun c => if isBlank c then ' ' else c := by
  fun_induction collapseBlanks cs with
  | case1 => rfl
  | case2 c => rfl
  | case3 c d cs hc hd ih => simp [ih, hc, hd]
  | case4 c d cs hc hd => simp [hc]
  | case5 c d cs hc => simp [hc]

theorem getLast?_collapseBlanks (cs : List Char) :
    (collapseBlanks cs).getLast? = cs.getLast?.map fun c => if isBlank c then ' ' else c := by
  fun_induction collapseBlanks cs with
  | case1 => rfl
  | case2 c => rfl
  | case3 c d cs hc hd ih => rw [ih, List.getLast?_cons_cons]
  | case4 c d cs hc hd ih =>
    rw [List.getLast?_cons, ih, List.getLast?_cons_cons, List.getLast?_cons]
    rfl
  | case5 c d cs hc ih =>
    rw [List.getLast?_cons, ih, List.getLast?_cons_cons, List.getLast?_cons]
    rfl

theorem IsTrim.collapseBlanks {cs : List Char} (h : IsTrim cs) : IsTrim (collapseBlanks cs) := by
  constructor
  · intro c hc
    rw [head?_collapseBlanks] at hc
    obtain ⟨d, hd, rfl⟩ := Option.map_eq_some_iff.mp hc
    simp [h.head d hd]
  · intro c hc
    rw [getLast?_collapseBlanks] at hc
    obtain ⟨d, hd, rfl⟩ := Option.map_eq_some_iff.mp hc
    simp [h.last d hd]

theorem trimmed_ofList (cs : List Char) : trimmed (String.ofList cs) = String.ofList (trim cs) := by
  rw [trimmed, String.toList_ofList]

theorem isEmpty_trimmed (s : String) : (trimmed s).isEmpty = (trim s.toList).isEmpty := by
  rw [Bool.eq_iff_iff, String.isEmpty_iff, List.isEmpty_iff, trimmed, String.ofList_eq_empty_iff]

theorem trim_eq_nil_iff (cs : List Char) : trim cs = [] ↔ ∀ c ∈ cs, isBlank c = true := by
  rw [trim, trimEnd_eq_rdropWhile, List.rdropWhile_eq_nil_iff, trimStart]
  constructor
  · intro h
    refine List.dropWhile_eq_nil_iff.mp (List.eq_nil_iff_forall_not_mem.mpr fun c hc => ?_)
    have hNe : cs.dropWhile isBlank ≠ [] := List.ne_nil_of_mem hc
    have hHead := List.head_dropWhile_not isBlank hNe
    rw [h _ (List.head_mem hNe)] at hHead
    cases hHead
  · exact fun h c hc => h c ((List.dropWhile_sublist isBlank).mem hc)

theorem isEmpty_trimmed_iff (s : String) :
    (trimmed s).isEmpty = true ↔ ∀ c ∈ s.toList, isBlank c = true := by
  rw [isEmpty_trimmed, List.isEmpty_iff, trim_eq_nil_iff]

end LeadSheet.Text
