import Mathlib.Data.List.Sort
import LeadSheet.Proofs.Form.Labels

/-!
# One list of repeated blocks

The repeated blocks are determined by the signatures: each window that holds a chord and occurs
often enough is a block, with all bars at which it occurs, and their rank leaves one order for them.
So it is all one in which order a table of the windows is read.
-/

namespace LeadSheet.Form
set_option autoImplicit false

variable {signatures : List String} {size minOccurs : Nat} {blocks : List Block}

/-- The windows that are repeated, with all bars at which they occur, in the order of their rank. -/
structure Repeats (signatures : List String) (size minOccurs : Nat) (blocks : List Block) :
    Prop where
  windows : ∀ w, w ∈ blocks.map Block.window ↔ Candidate signatures size minOccurs w
  once : (blocks.map Block.window).Nodup
  starts : ∀ b ∈ blocks, ∀ start, start ∈ b.starts ↔ b.window <+: signatures.drop start
  ascending : ∀ b ∈ blocks, b.starts.Pairwise (· < ·)
  ranked : blocks.Pairwise Block.Outranks

/-- The blocks of a table of windows, whatever its order. -/
def rankedBlocks (minOccurs : Nat) (found : Occurrences) : List Block :=
  ((found.filter fun o => max minOccurs 1 ≤ o.2.length).map
    fun o => Block.mk o.1 o.2.reverse).mergeSort Block.atMost

instance : Std.Irrefl Block.Outranks where
  irrefl b h := by
    rw [Block.Outranks] at h
    omega

instance : Std.Antisymm Block.Outranks where
  antisymm b c hbc hcb := by
    rw [Block.Outranks] at hbc hcb
    omega

section Starts

variable {window : List String}

theorem pairwise_startsBefore (signatures : List String) (bound : Nat) (window : List String) :
    (startsBefore signatures bound window).Pairwise (· < ·) := List.pairwise_lt_range.filter _

theorem IsWindow.lt_length (h : IsWindow size window) {start : Nat}
    (hHere : window <+: signatures.drop start) : start < signatures.length := by
  obtain ⟨s, hs, _⟩ := h.chord
  have hPos := List.length_pos_of_mem hs
  have hLength := hHere.length_le
  rw [List.length_drop] at hLength
  omega

theorem IsWindow.mem_starts_iff (h : IsWindow size window) (start : Nat) :
    start ∈ (blockOf signatures window).starts ↔ window <+: signatures.drop start := by
  rw [blockOf, mem_startsBefore]
  exact and_iff_right_of_imp h.lt_length

end Starts

namespace Repeats

theorem candidate (h : Repeats signatures size minOccurs blocks) {b : Block} (hb : b ∈ blocks) :
    Candidate signatures size minOccurs b.window :=
  (h.windows b.window).mp (List.mem_map_of_mem hb)

theorem eq_blockOf (h : Repeats signatures size minOccurs blocks) {b : Block} (hb : b ∈ blocks) :
    b = blockOf signatures b.window := by
  have hStarts : b.starts = (blockOf signatures b.window).starts := by
    refine (h.ascending b hb).eq_of_mem_iff (pairwise_startsBefore _ _ _) fun start => ?_
    rw [h.starts b hb]
    exact ((h.candidate hb).mem_starts_iff start).symm
  exact congrArg (Block.mk b.window) hStarts

theorem mem_iff (h : Repeats signatures size minOccurs blocks) (b : Block) :
    b ∈ blocks ↔
      Candidate signatures size minOccurs b.window ∧ b = blockOf signatures b.window := by
  constructor
  · intro hb
    exact ⟨h.candidate hb, h.eq_blockOf hb⟩
  · rintro ⟨hCandidate, hEq⟩
    obtain ⟨c, hc, hWindow⟩ := List.mem_map.mp ((h.windows b.window).mpr hCandidate)
    rw [hEq, ← hWindow, ← h.eq_blockOf hc]
    exact hc

theorem unique {others : List Block} (h : Repeats signatures size minOccurs blocks)
    (hOthers : Repeats signatures size minOccurs others) : blocks = others :=
  h.ranked.eq_of_mem_iff hOthers.ranked fun b => (h.mem_iff b).trans (hOthers.mem_iff b).symm

end Repeats

theorem repeats_repeatedBlocks (signatures : List String) (size minOccurs : Nat) :
    Repeats signatures size minOccurs (repeatedBlocks signatures size minOccurs) where
  windows := (ranking_windows signatures size minOccurs).mem
  once := nodup_windows signatures size minOccurs
  starts b hb start := by
    obtain ⟨hCandidate, hEq⟩ := mem_repeatedBlocks_iff.mp hb
    rw [← hCandidate.mem_starts_iff, ← hEq]
  ascending b hb := by
    rw [(mem_repeatedBlocks_iff.mp hb).2]
    exact pairwise_startsBefore _ _ _
  ranked := pairwise_outranks signatures size minOccurs

section Order

variable {found : Occurrences}

theorem occurrences_zero (signatures : List String) : occurrences signatures 0 = [] := by
  refine List.eq_nil_iff_forall_not_mem.mpr fun o ho => ?_
  have hWindow := (mem_occurrences_iff.mp ho).1
  obtain ⟨s, hs, _⟩ := hWindow.chord
  rw [List.eq_nil_of_length_eq_zero hWindow.length] at hs
  cases hs

theorem repeatedBlocks_eq_rankedBlocks (signatures : List String) (size minOccurs : Nat) :
    repeatedBlocks signatures size minOccurs =
      rankedBlocks minOccurs (occurrences signatures size) := by
  rw [repeatedBlocks]
  split
  · rename_i hZero
    rw [hZero, occurrences_zero]
    exact List.mergeSort_nil.symm
  · rfl

theorem rankedBlocks_perm (minOccurs : Nat) {others : Occurrences} (h : found.Perm others) :
    (rankedBlocks minOccurs found).Perm (rankedBlocks minOccurs others) :=
  (List.mergeSort_perm _ _).trans (((h.filter _).map _).trans (List.mergeSort_perm _ _).symm)

theorem eq_of_atMost {b c : Block} (hb : b ∈ repeatedBlocks signatures size minOccurs)
    (hc : c ∈ repeatedBlocks signatures size minOccurs) (hbc : b.atMost c = true)
    (hcb : c.atMost b = true) : b = c := by
  rw [Block.atMost_iff] at hbc hcb
  exact eq_of_first hb hc (by omega)

/-- No two blocks tie, so sorting them leaves no trace of the order of the table. -/
theorem rankedBlocks_of_perm (h : found.Perm (occurrences signatures size)) :
    rankedBlocks minOccurs found = repeatedBlocks signatures size minOccurs := by
  have hPerm : (rankedBlocks minOccurs found).Perm (repeatedBlocks signatures size minOccurs) := by
    rw [repeatedBlocks_eq_rankedBlocks]
    exact rankedBlocks_perm minOccurs h
  refine List.Perm.eq_of_pairwise (fun b c hb hc => eq_of_atMost (hPerm.mem_iff.mp hb) hc) ?_
    (pairwise_atMost signatures size minOccurs) hPerm
  exact List.pairwise_mergeSort Block.atMost_trans Block.atMost_total _

end Order

/-- The repeated blocks are the one list of what is repeated, in whatever order it was found. -/
theorem repeats_iff_eq_repeatedBlocks (signatures : List String) (size minOccurs : Nat) :
    (∀ blocks, Repeats signatures size minOccurs blocks ↔
        blocks = repeatedBlocks signatures size minOccurs) ∧
      ∀ found : Occurrences, found.Perm (occurrences signatures size) →
        rankedBlocks minOccurs found = repeatedBlocks signatures size minOccurs := by
  have hRepeats := repeats_repeatedBlocks signatures size minOccurs
  refine ⟨fun blocks => ⟨fun h => h.unique hRepeats, ?_⟩, fun _ h => rankedBlocks_of_perm h⟩
  rintro rfl
  exact hRepeats

/-- Windows that overlap themselves and each other: equally frequent, so the earlier is first. -/
theorem repeats_iff_eq_repeatedBlocks_overlapping :
    let signatures := ["C", "G", "C", "G", "C", "", ""]
    let found := (occurrences signatures 2).reverse
    found.Perm (occurrences signatures 2) ∧
      rankedBlocks 2 found = [⟨["C", "G"], [0, 2]⟩, ⟨["G", "C"], [1, 3]⟩] ∧
      Repeats signatures 2 2 [⟨["C", "G"], [0, 2]⟩, ⟨["G", "C"], [1, 3]⟩] := by
  intro signatures found
  have hPerm : found.Perm (occurrences signatures 2) := List.reverse_perm _
  obtain ⟨hRepeats, hOrder⟩ := repeats_iff_eq_repeatedBlocks signatures 2 2
  have hBlocks : repeatedBlocks signatures 2 2 = [⟨["C", "G"], [0, 2]⟩, ⟨["G", "C"], [1, 3]⟩] :=
    List.mergeSort_of_pairwise (by decide +kernel)
  exact ⟨hPerm, (hOrder found hPerm).trans hBlocks, (hRepeats _).mpr hBlocks.symm⟩

end LeadSheet.Form
