import LeadSheet.Text.Line
import LeadSheet.Proofs.Text.Blank

/-!
# The lines of a written text

A text that ends each of its lines with a line feed has those lines again when it is read, up to the
carriage return that a line may end with. Trimming does not see the difference.
-/

namespace LeadSheet.Text
set_option autoImplicit false

theorem splitLineFeeds_append {line : List Char} (h : '\n' ∉ line) (rest : List Char) :
    splitLineFeeds (line ++ '\n' :: rest) = line :: splitLineFeeds rest := by
  induction line with
  | nil => rfl
  | cons c line ih =>
    have hc : c ≠ '\n' := fun hc => h (hc ▸ List.mem_cons_self)
    have hLine : '\n' ∉ line := fun hMem => h (List.mem_cons_of_mem c hMem)
    rw [List.cons_append, splitLineFeeds, ih hLine]
    exact hc

theorem splitLineFeeds_flatMap {ls : List (List Char)} (h : ∀ line ∈ ls, '\n' ∉ line) :
    splitLineFeeds (ls.flatMap (· ++ ['\n'])) = ls ++ [[]] := by
  induction ls with
  | nil => rfl
  | cons line ls ih =>
    obtain ⟨hLine, hRest⟩ := List.forall_mem_cons.mp h
    rw [List.flatMap_cons, List.append_assoc, List.singleton_append, splitLineFeeds_append hLine,
      ih hRest, List.cons_append]

theorem lines_flatMap {ls : List (List Char)} (h : ∀ line ∈ ls, '\n' ∉ line) :
    lines (ls.flatMap (· ++ ['\n'])) = ls.map dropReturn := by
  rw [lines, splitLineFeeds_flatMap h]
  simp

theorem dropReturn_prefix (line : List Char) : dropReturn line <+: line := by
  rw [dropReturn]
  split
  · exact List.dropLast_prefix line
  · exact List.prefix_rfl

theorem dropReturn_append {back : List Char} (h : back ≠ []) (front : List Char) :
    dropReturn (front ++ back) = front ++ dropReturn back := by
  rw [dropReturn, dropReturn, List.getLast?_append_of_ne_nil front h]
  split
  · exact List.dropLast_append_of_ne_nil h
  · rfl

theorem dropReturn_eq_self {line : List Char} (h : ∀ c ∈ line.getLast?, c ≠ '\r') :
    dropReturn line = line := by
  rw [dropReturn, if_neg]
  intro hLast
  exact h '\r' hLast rfl

theorem trim_dropReturn (line : List Char) : trim (dropReturn line) = trim line := by
  rw [dropReturn]
  split
  · rename_i hLast
    obtain ⟨front, rfl⟩ := List.getLast?_eq_some_iff.mp hLast
    rw [List.dropLast_concat, trim_concat_of_isBlank (by decide)]
  · rfl

end LeadSheet.Text
