import Mathlib.Data.List.Nodup
import Mathlib.Data.Nat.Init
import LeadSheet.Form.Repeat

/-!
# Where windows occur

A window occurs at each bar from which the signatures go on with it. The repeated blocks are the
windows that hold a chord and occur often enough, each with all bars at which it occurs. As a window
is known by its first bar, no two blocks are equal in rank: the order of the blocks does not depend
on the order in which their windows were found.
-/

namespace LeadSheet.Form
set_option autoImplicit false

def startsBefore (signatures : List String) (bound : Nat) (window : List String) : List Nat :=
  (List.range bound).filter fun start => window.isPrefixOf (signatures.drop start)

def blockOf (signatures window : List String) : Block :=
  ⟨window, startsBefore signatures signatures.length window⟩

/-- A window of `size` bars that holds a chord. -/
structure IsWindow (size : Nat) (window : List String) : Prop where
  length : window.length = size
  chord : ∃ s ∈ window, s ≠ ""

structure Candidate (signatures : List String) (size minOccurs : Nat) (window : List String) : Prop
    extends IsWindow size window where
  frequent : max minOccurs 1 ≤ (blockOf signatures window).count

/-- A block goes before those that occur less often, or as often but later. -/
def Block.Outranks (b c : Block) : Prop := c.count < b.count ∨ b.count = c.count ∧ b.first < c.first

section Starts

variable {signatures window : List String} {size : Nat}

theorem mem_startsBefore {bound start : Nat} : start ∈ startsBefore signatures bound window ↔
    start < bound ∧ window <+: signatures.drop start := by
  rw [startsBefore, List.mem_filter, List.mem_range, List.isPrefixOf_iff_prefix]

theorem startsBefore_succ (signatures : List String) (bound : Nat) (window : List String) :
    startsBefore signatures (bound + 1) window = startsBefore signatures bound window ++
      if window.isPrefixOf (signatures.drop bound) then [bound] else [] := by
  rw [startsBefore, List.range_succ, List.filter_append, List.filter_cons, List.filter_nil]
  rfl

theorem startsBefore_of_short {bound last : Nat} (hle : bound ≤ last)
    (hShort : (signatures.drop bound).length < window.length) :
    startsBefore signatures last window = startsBefore signatures bound window := by
  induction last, hle using Nat.le_induction with
  | base => rfl
  | succ last hle ih =>
    have hNone : ¬ window.isPrefixOf (signatures.drop last) = true := by
      rw [List.isPrefixOf_iff_prefix]
      intro hPrefix
      have hLength := hPrefix.length_le
      simp only [List.length_drop] at hLength hShort
      omega
    rw [startsBefore_succ, if_neg hNone, List.append_nil, ih]

theorem IsWindow.eq_of_prefix {v w rest : List String} (hv : IsWindow size v)
    (hw : IsWindow size w) (hvRest : v <+: rest) (hwRest : w <+: rest) : v = w := by
  rw [List.prefix_iff_eq_take.mp hvRest, List.prefix_iff_eq_take.mp hwRest, hv.length, hw.length]

end Starts

section Occurrences

variable {found : Occurrences} {window : List String}

theorem lookup_addOccurrence (window : List String) (start : Nat) (found : Occurrences)
    (w : List String) : (addOccurrence window start found).lookup w =
      if w = window then some (start :: (found.lookup window).getD []) else found.lookup w := by
  induction found with
  | nil =>
    by_cases hw : w = window
    · simp [addOccurrence, hw]
    · simp [addOccurrence, List.lookup_cons, hw, beq_false_of_ne hw]
  | cons o found ih =>
    obtain ⟨v, starts⟩ := o
    rw [addOccurrence]
    by_cases hv : v = window
    · subst hv
      by_cases hw : w = v
      · simp [hw]
      · simp [List.lookup_cons, hw, beq_false_of_ne hw]
    · rw [if_neg hv, List.lookup_cons, List.lookup_cons, List.lookup_cons, ih,
        beq_false_of_ne (Ne.symm hv)]
      by_cases hw : w = v
      · simp [hw, hv]
      · simp [beq_false_of_ne hw]

theorem windows_addOccurrence (window : List String) (start : Nat) (found : Occurrences) :
    (addOccurrence window start found).map Prod.fst =
      if window ∈ found.map Prod.fst then found.map Prod.fst
      else found.map Prod.fst ++ [window] := by
  induction found with
  | nil => rfl
  | cons o found ih =>
    obtain ⟨v, starts⟩ := o
    rw [addOccurrence]
    by_cases hv : v = window
    · simp [hv]
    · rw [if_neg hv, List.map_cons, ih]
      by_cases hw : window ∈ found.map Prod.fst
      · simp [hw]
      · simp [hw, Ne.symm hv]

theorem forall_mem_addOccurrence {P : List String × List Nat → Prop} {start : Nat}
    (hAdded : ∀ starts, P (window, start :: starts)) (hFound : ∀ o ∈ found, P o) :
    ∀ o ∈ addOccurrence window start found, P o := by
  induction found with
  | nil => exact List.forall_mem_singleton.mpr (hAdded [])
  | cons o found ih =>
    obtain ⟨hFirst, hRest⟩ := List.forall_mem_cons.mp hFound
    obtain ⟨v, starts⟩ := o
    rw [addOccurrence]
    split
    · rename_i hv
      exact List.forall_mem_cons.mpr ⟨hv ▸ hAdded starts, hRest⟩
    · exact List.forall_mem_cons.mpr ⟨hFirst, ih hRest⟩

theorem lookup_of_mem (hWindows : (found.map Prod.fst).Nodup) {starts : List Nat}
    (h : (window, starts) ∈ found) : found.lookup window = some starts := by
  obtain ⟨front, back, rfl⟩ := List.append_of_mem h
  refine List.lookup_eq_some_iff.mpr ⟨front, back, rfl, ?_⟩
  intro o ho
  rw [List.map_append, List.map_cons] at hWindows
  have hne := (List.nodup_append.mp hWindows).2.2 o.1 (List.mem_map_of_mem ho) window
    List.mem_cons_self
  exact bne_iff_ne.mpr hne.symm

end Occurrences

/-- What has been found before a bar: each window once, with the bars at which it occurs. -/
structure Records (signatures : List String) (size bound : Nat) (found : Occurrences) : Prop where
  nodup : (found.map Prod.fst).Nodup
  window : ∀ o ∈ found, IsWindow size o.1 ∧ o.2 ≠ []
  starts : ∀ w, IsWindow size w →
    (found.lookup w).getD [] = (startsBefore signatures bound w).reverse

namespace Records

variable {signatures : List String} {size bound : Nat} {found : Occurrences}

theorem nil (signatures : List String) (size : Nat) : Records signatures size 0 [] where
  nodup := List.nodup_nil
  window _ ho := (List.not_mem_nil ho).elim
  starts _ _ := rfl

theorem addOccurrence {window : List String} (h : Records signatures size bound found)
    (hWindow : IsWindow size window) (hHere : window <+: signatures.drop bound) :
    Records signatures size (bound + 1) (addOccurrence window bound found) where
  nodup := by
    rw [windows_addOccurrence]
    split
    · exact h.nodup
    · rename_i hNew
      rw [← List.concat_eq_append]
      exact h.nodup.concat hNew
  window := forall_mem_addOccurrence (fun _ => ⟨hWindow, List.cons_ne_nil _ _⟩) h.window
  starts w hw := by
    rw [lookup_addOccurrence, startsBefore_succ, List.reverse_append, ← h.starts w hw]
    by_cases hEq : w = window
    · subst hEq
      rw [if_pos rfl, if_pos (List.isPrefixOf_iff_prefix.mpr hHere)]
      rfl
    · have hElse : ¬ w.isPrefixOf (signatures.drop bound) = true := fun hPrefix =>
        hEq (hw.eq_of_prefix hWindow (List.isPrefixOf_iff_prefix.mp hPrefix) hHere)
      rw [if_neg hEq, if_neg hElse]
      rfl

theorem skip (h : Records signatures size bound found)
    (hNone : ∀ w, IsWindow size w → ¬ w <+: signatures.drop bound) :
    Records signatures size (bound + 1) found where
  nodup := h.nodup
  window := h.window
  starts w hw := by
    rw [startsBefore_succ, if_neg, List.append_nil, h.starts w hw]
    rw [List.isPrefixOf_iff_prefix]
    exact hNone w hw

theorem finish (h : Records signatures size bound found) (hle : bound ≤ signatures.length)
    (hShort : (signatures.drop bound).length < size) :
    Records signatures size signatures.length found where
  nodup := h.nodup
  window := h.window
  starts w hw := by
    rw [startsBefore_of_short hle (hw.length ▸ hShort), h.starts w hw]

/-- One bar adds the window that starts with it, if that is whole and holds a chord. -/
theorem step {window : List String} (h : Records signatures size bound found)
    (hWindow : window = (signatures.drop bound).take size) (hWhole : window.length = size) :
    Records signatures size (bound + 1)
      (if window.all String.isEmpty then found else Form.addOccurrence window bound found) := by
  split
  · rename_i hEmpty
    refine h.skip ?_
    intro w hw hHere
    have hEq : w = window := by
      rw [hWindow, List.prefix_iff_eq_take.mp hHere, hw.length]
    obtain ⟨s, hs, hne⟩ := hw.chord
    rw [hEq] at hs
    exact hne (String.isEmpty_iff.mp (List.all_eq_true.mp hEmpty s hs))
  · rename_i hChord
    refine h.addOccurrence ⟨hWhole, by simpa using hChord⟩ ?_
    rw [hWindow]
    exact List.take_prefix size _

theorem occurrencesFrom {rest : List String} (h : Records signatures size bound found)
    (hle : bound ≤ signatures.length) (hRest : signatures.drop bound = rest) :
    Records signatures size signatures.length (occurrencesFrom size found bound rest) := by
  induction rest generalizing bound found with
  | nil =>
    have hEnd : bound = signatures.length := Nat.le_antisymm hle (List.drop_eq_nil_iff.mp hRest)
    exact hEnd ▸ h
  | cons s rest ih =>
    have hLess : bound < signatures.length := by
      by_contra hEnd
      rw [List.drop_eq_nil_of_le (Nat.le_of_not_lt hEnd)] at hRest
      cases hRest
    have hNext : signatures.drop (bound + 1) = rest := by
      rw [← List.drop_drop, hRest]
      rfl
    rw [Form.occurrencesFrom]
    split
    · rename_i hShort
      refine h.finish hle ?_
      rw [List.length_take] at hShort
      rw [hRest]
      omega
    · rename_i hLong
      have hWhole : ((s :: rest).take size).length = size :=
        Nat.le_antisymm (List.length_take_le size _) (Nat.le_of_not_lt hLong)
      exact ih (h.step (by rw [hRest]) hWhole) hLess hNext

end Records

section Blocks

variable {signatures : List String} {size minOccurs : Nat}

theorem records_occurrences (signatures : List String) (size : Nat) :
    Records signatures size signatures.length (occurrences signatures size) :=
  (Records.nil signatures size).occurrencesFrom (Nat.zero_le _) List.drop_zero

theorem mem_occurrences_iff {window : List String} {starts : List Nat} :
    (window, starts) ∈ occurrences signatures size ↔ IsWindow size window ∧ starts ≠ [] ∧
      starts.reverse = startsBefore signatures signatures.length window := by
  have hRecords := records_occurrences signatures size
  constructor
  · intro hMem
    obtain ⟨hWindow, hne⟩ := hRecords.window _ hMem
    have hStarts := hRecords.starts window hWindow
    rw [lookup_of_mem hRecords.nodup hMem, Option.getD_some] at hStarts
    exact ⟨hWindow, hne, by rw [hStarts, List.reverse_reverse]⟩
  · rintro ⟨hWindow, hne, hEq⟩
    have hStarts := hRecords.starts window hWindow
    rw [← hEq, List.reverse_reverse] at hStarts
    cases hLookup : (occurrences signatures size).lookup window with
    | none =>
      rw [hLookup] at hStarts
      exact (hne hStarts.symm).elim
    | some found =>
      rw [hLookup, Option.getD_some] at hStarts
      obtain ⟨front, back, hSplit, _⟩ := List.lookup_eq_some_iff.mp hLookup
      rw [hSplit, hStarts]
      exact List.mem_append_right _ List.mem_cons_self

/-- The blocks are the candidates, each with all of its occurrences. -/
theorem mem_repeatedBlocks_iff {b : Block} : b ∈ repeatedBlocks signatures size minOccurs ↔
    Candidate signatures size minOccurs b.window ∧ b = blockOf signatures b.window := by
  rw [repeatedBlocks]
  split
  · rename_i hZero
    constructor
    · intro hMem
      cases hMem
    · rintro ⟨hCandidate, _⟩
      obtain ⟨s, hs, _⟩ := hCandidate.chord
      rw [List.eq_nil_of_length_eq_zero (hCandidate.length.trans hZero)] at hs
      cases hs
  · rw [List.mem_mergeSort, List.mem_map]
    constructor
    · rintro ⟨⟨window, starts⟩, hFound, rfl⟩
      obtain ⟨hMem, hOften⟩ := List.mem_filter.mp hFound
      obtain ⟨hWindow, _, hStarts⟩ := mem_occurrences_iff.mp hMem
      have hFrequent : max minOccurs 1 ≤ starts.length := of_decide_eq_true hOften
      rw [← List.length_reverse, hStarts] at hFrequent
      exact ⟨⟨hWindow, hFrequent⟩, congrArg (Block.mk window) hStarts⟩
    · rintro ⟨hCandidate, hBlock⟩
      have hFrequent : max minOccurs 1 ≤ b.starts.length := hBlock ▸ hCandidate.frequent
      refine ⟨(b.window, b.starts.reverse), List.mem_filter.mpr ⟨?_, ?_⟩, ?_⟩
      · refine mem_occurrences_iff.mpr ⟨hCandidate.toIsWindow, ?_, ?_⟩
        · rw [ne_eq, List.reverse_eq_nil_iff, ← List.length_eq_zero_iff]
          omega
        · rw [List.reverse_reverse]
          exact congrArg Block.starts hBlock
      · simpa using hFrequent
      · rw [List.reverse_reverse]

theorem Block.atMost_iff (b c : Block) : b.atMost c = true ↔
    c.count < b.count ∨ b.count = c.count ∧ b.first ≤ c.first := by
  simp [atMost]

theorem Candidate.first_mem {window : List String} (h : Candidate signatures size minOccurs window) :
    (blockOf signatures window).first ∈ startsBefore signatures signatures.length window := by
  have hFrequent := h.frequent
  rw [Block.count, blockOf] at hFrequent
  rw [Block.first, blockOf]
  cases hStarts : startsBefore signatures signatures.length window with
  | nil =>
    simp only [hStarts, List.length_nil] at hFrequent
    omega
  | cons start starts => exact List.mem_cons_self

theorem Candidate.eq_of_first {v w : List String} (hv : Candidate signatures size minOccurs v)
    (hw : Candidate signatures size minOccurs w)
    (h : (blockOf signatures v).first = (blockOf signatures w).first) : v = w := by
  have hvStart := (mem_startsBefore.mp hv.first_mem).2
  have hwStart := (mem_startsBefore.mp hw.first_mem).2
  exact hv.toIsWindow.eq_of_prefix hw.toIsWindow hvStart (h ▸ hwStart)

theorem nodup_windows (signatures : List String) (size minOccurs : Nat) :
    ((repeatedBlocks signatures size minOccurs).map Block.window).Nodup := by
  rw [repeatedBlocks]
  split
  · exact List.nodup_nil
  · refine ((List.mergeSort_perm _ _).map Block.window).nodup_iff.mpr ?_
    rw [List.map_map]
    exact (records_occurrences signatures size).nodup.sublist (List.filter_sublist.map Prod.fst)

theorem Block.atMost_trans (b c d : Block) (hbc : b.atMost c = true) (hcd : c.atMost d = true) :
    b.atMost d = true := by
  rw [Block.atMost_iff] at hbc hcd ⊢
  omega

theorem Block.atMost_total (b c : Block) : (b.atMost c || c.atMost b) = true := by
  rw [Bool.or_eq_true, Block.atMost_iff, Block.atMost_iff]
  omega

theorem pairwise_atMost (signatures : List String) (size minOccurs : Nat) :
    (repeatedBlocks signatures size minOccurs).Pairwise fun b c => b.atMost c = true := by
  rw [repeatedBlocks]
  split
  · exact List.Pairwise.nil
  · exact List.pairwise_mergeSort Block.atMost_trans Block.atMost_total _

theorem eq_of_first {b c : Block} (hb : b ∈ repeatedBlocks signatures size minOccurs)
    (hc : c ∈ repeatedBlocks signatures size minOccurs) (h : b.first = c.first) : b = c := by
  obtain ⟨hbCandidate, hbEq⟩ := mem_repeatedBlocks_iff.mp hb
  obtain ⟨hcCandidate, hcEq⟩ := mem_repeatedBlocks_iff.mp hc
  rw [hbEq, hcEq] at h
  rw [hbEq, hcEq, hbCandidate.eq_of_first hcCandidate h]

/-- No two blocks are equal in rank, as none starts first where another does. -/
theorem pairwise_outranks (signatures : List String) (size minOccurs : Nat) :
    (repeatedBlocks signatures size minOccurs).Pairwise Block.Outranks := by
  have hDistinct := List.pairwise_map.mp (nodup_windows signatures size minOccurs)
  refine ((pairwise_atMost signatures size minOccurs).and hDistinct).imp_of_mem ?_
  rintro b c hb hc ⟨hAtMost, hne⟩
  have hFirst : b.first ≠ c.first := fun h => hne (congrArg Block.window (eq_of_first hb hc h))
  rw [Block.atMost_iff] at hAtMost
  rw [Block.Outranks]
  omega

end Blocks

end LeadSheet.Form
