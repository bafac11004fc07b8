import Mathlib.Data.List.GetD
import LeadSheet.Form.Signature

/-!
# What a bar signature lists

Every bar's entry of the table is filled from the rows that reach into that bar and from no others,
in the order of the rows, and a chord that repeats the one before it is left out. The table has no
more bars than the rows make necessary.
-/

namespace LeadSheet.Form
set_option autoImplicit false

variable {α : Type} [Scalar α]

def Reaches (beatsPerBar : α) (b : Nat) (row : Row α) : Prop :=
  row.bar.toNat ≤ b ∧ b ≤ row.bar.toNat + extraBars beatsPerBar row

instance (beatsPerBar : α) (b : Nat) : DecidablePred (Reaches beatsPerBar b) := fun row =>
  inferInstanceAs (Decidable (row.bar.toNat ≤ b ∧ b ≤ row.bar.toNat + extraBars beatsPerBar row))

def chordIn? (beatsPerBar : α) (b : Nat) (row : Row α) : Option String :=
  if Reaches beatsPerBar b row then soundingChord? row else none

def holdRow (perBar : α) (table : List (List String)) (row : Row α) : List (List String) :=
  match soundingChord? row with
  | some chord =>
    holdChord chord row.bar.toNat (row.bar.toNat + extraBars perBar row) table
  | none => table

theorem getD_replicate_nil (n i : Nat) : (List.replicate n ([] : List String)).getD i [] = [] := by
  rw [List.getD_eq_getElem?_getD, List.getElem?_getD_replicate_default_eq]

theorem getD_holdChord (chord : String) (first last : Nat) (table : List (List String)) (i : Nat) :
    (holdChord chord first last table).getD i [] =
      if first ≤ i + 1 ∧ i + 1 ≤ last then addChord chord (table.getD i [])
      else table.getD i [] := by
  have hGrown : (table ++ List.replicate (last - table.length) []).getD i [] = table.getD i [] := by
    by_cases hLt : i < table.length
    · rw [List.getD_append _ _ _ _ hLt]
    · rw [List.getD_append_right _ _ _ _ (Nat.not_lt.mp hLt), getD_replicate_nil,
        List.getD_eq_default _ _ (Nat.not_lt.mp hLt)]
  unfold holdChord
  simp only [List.getD_eq_getElem?_getD, List.getElem?_mapIdx] at hGrown ⊢
  rw [← hGrown]
  cases hGet : (table ++ List.replicate (last - table.length) [])[i]? with
  | some slot => rfl
  | none =>
    have hLength := List.getElem?_eq_none_iff.mp hGet
    rw [List.length_append, List.length_replicate] at hLength
    rw [if_neg (by omega)]
    rfl

theorem foldl_addChord_concat (chords front : List String) (x : String) :
    chords.foldl (fun slot chord => addChord chord slot) (front ++ [x]) =
      front ++ Order.keepFirst (· == ·) (x :: chords) := by
  induction chords generalizing front x with
  | nil => rw [List.foldl_nil, Order.keepFirst]
  | cons c chords ih =>
    rw [List.foldl_cons, addChord, List.getLast?_concat, Order.keepFirst]
    by_cases hEq : x = c
    · subst hEq
      rw [if_pos rfl, if_pos (beq_self_eq_true x), ih]
    · rw [if_neg (by simpa using hEq), if_neg (by simpa using hEq), ih, List.append_assoc]
      rfl

theorem foldl_addChord (chords : List String) :
    chords.foldl (fun slot chord => addChord chord slot) [] = Order.keepFirst (· == ·) chords := by
  cases chords with
  | nil => rw [List.foldl_nil, Order.keepFirst]
  | cons c chords => exact foldl_addChord_concat chords [] c

theorem getD_foldl_holdRow (perBar : α) (rows : List (Row α)) (table : List (List String))
    (i : Nat) :
    (rows.foldl (holdRow perBar) table).getD i [] =
      (rows.filterMap (chordIn? perBar (i + 1))).foldl (fun slot chord => addChord chord slot)
        (table.getD i []) := by
  induction rows generalizing table with
  | nil => rfl
  | cons row rows ih =>
    rw [List.foldl_cons, ih, List.filterMap_cons, chordIn?, holdRow]
    cases soundingChord? row with
    | none => rw [ite_self]
    | some chord =>
      simp only [getD_holdChord]
      by_cases hReach : Reaches perBar (i + 1) row
      · have hBars : row.bar.toNat ≤ i + 1 ∧ i + 1 ≤ row.bar.toNat + extraBars perBar row := hReach
        rw [if_pos hBars, if_pos hReach, List.foldl_cons]
      · have hBars : ¬(row.bar.toNat ≤ i + 1 ∧ i + 1 ≤ row.bar.toNat + extraBars perBar row) :=
          hReach
        rw [if_neg hBars, if_neg hReach]

theorem chordTable_eq_foldl (rows : List (Row α)) (beatsPerBar : α) :
    chordTable rows beatsPerBar =
      rows.foldl (holdRow (if 0 < beatsPerBar then beatsPerBar else 4))
        (List.replicate (lastBar rows) []) :=
  rfl

theorem chordTable_eq (rows : List (Row α)) {beatsPerBar : α} (h : 0 < beatsPerBar) :
    chordTable rows beatsPerBar =
      rows.foldl (holdRow beatsPerBar) (List.replicate (lastBar rows) []) := by
  rw [chordTable_eq_foldl, if_pos h]

/-- Entry `i` lists the chords of the rows that reach into bar `i + 1`, in order and without
repeats of neighbours. -/
theorem getD_barSignatures (rows : List (Row α)) {beatsPerBar : α} (h : 0 < beatsPerBar) (i : Nat) :
    (barSignatures rows beatsPerBar).getD i "" =
      String.intercalate " "
        (Order.keepFirst (· == ·) (rows.filterMap (chordIn? beatsPerBar (i + 1)))) := by
  have hEmpty : "" = String.intercalate " " [] := rfl
  rw [barSignatures, hEmpty, List.getD_map, chordTable_eq rows h, getD_foldl_holdRow,
    getD_replicate_nil, foldl_addChord]

section Length

omit [Scalar α] in
theorem foldl_bar_le_iff (rows : List (Row α)) (m n : Nat) :
    rows.foldl (fun n row => max n row.bar.toNat) m ≤ n ↔
      m ≤ n ∧ ∀ row ∈ rows, row.bar.toNat ≤ n := by
  induction rows generalizing m with
  | nil => simp
  | cons row rows ih => rw [List.foldl_cons, ih, Nat.max_le, List.forall_mem_cons, and_assoc]

omit [Scalar α] in
theorem lastBar_le_iff {rows : List (Row α)} {n : Nat} :
    lastBar rows ≤ n ↔ ∀ row ∈ rows, row.bar.toNat ≤ n := by
  rw [lastBar, foldl_bar_le_iff, and_iff_right (Nat.zero_le n)]

omit [Scalar α] in
theorem bar_le_lastBar {rows : List (Row α)} {row : Row α} (h : row ∈ rows) :
    row.bar ≤ lastBar rows := by
  have hle := lastBar_le_iff.mp (Nat.le_refl (lastBar rows)) row h
  omega

theorem length_holdChord (chord : String) (first last : Nat) (table : List (List String)) :
    (holdChord chord first last table).length = max table.length last := by
  rw [holdChord, List.length_mapIdx, List.length_append, List.length_replicate]
  omega

theorem length_holdRow_le_iff {perBar : α} {table : List (List String)} {row : Row α} {n : Nat} :
    (holdRow perBar table row).length ≤ n ↔ table.length ≤ n ∧
      ((soundingChord? row).isSome → row.bar.toNat + extraBars perBar row ≤ n) := by
  rw [holdRow]
  cases soundingChord? row with
  | none => simp
  | some chord => simp only [length_holdChord, Nat.max_le, Option.isSome_some, forall_const]

theorem length_foldl_holdRow_le_iff {perBar : α} {rows : List (Row α)}
    {table : List (List String)} {n : Nat} :
    (rows.foldl (holdRow perBar) table).length ≤ n ↔ table.length ≤ n ∧
      ∀ row ∈ rows, (soundingChord? row).isSome →
        row.bar.toNat + extraBars perBar row ≤ n := by
  induction rows generalizing table with
  | nil => simp
  | cons row rows ih =>
    rw [List.foldl_cons, ih, length_holdRow_le_iff, List.forall_mem_cons, and_assoc]

theorem lastBar_le_length_barSignatures (rows : List (Row α)) (beatsPerBar : α) :
    lastBar rows ≤ (barSignatures rows beatsPerBar).length := by
  have hTable := (length_foldl_holdRow_le_iff.mp
    (Nat.le_refl (chordTable rows beatsPerBar).length)).1
  rwa [List.length_replicate, ← List.length_map (String.intercalate " ")] at hTable

/-- There are as many bars as rows start in or chords sound in. -/
theorem length_barSignatures_le_iff {rows : List (Row α)} {beatsPerBar : α} (h : 0 < beatsPerBar)
    {n : Nat} : (barSignatures rows beatsPerBar).length ≤ n ↔ ∀ row ∈ rows,
      row.bar.toNat ≤ n ∧
        ((soundingChord? row).isSome → row.bar.toNat + extraBars beatsPerBar row ≤ n) := by
  rw [barSignatures, List.length_map, chordTable_eq rows h, length_foldl_holdRow_le_iff,
    List.length_replicate, lastBar_le_iff, ← forall₂_and]

end Length

end LeadSheet.Form
