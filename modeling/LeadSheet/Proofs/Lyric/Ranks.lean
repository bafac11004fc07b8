import Mathlib.Data.List.Dedup
import Mathlib.Data.List.Sort
import LeadSheet.Lyric.Live
import LeadSheet.Scalar.Rational
import LeadSheet.Proofs.Order.Stable

/-!
# Ranks within a place

Rows that share a bar and a beat are numbered by their start, and those that start together as they
are listed. So the number of a row says how many rows of its place come before it. Rows of other
places have no part in it: each place can be numbered alone, and the places in any order.
-/

namespace LeadSheet
set_option autoImplicit false

theorem Order.pairwise_zipIdx {β : Type} (xs : List β) :
    xs.zipIdx.Pairwise fun x y => x.2 < y.2 := by
  have hPositions : (xs.zipIdx.map Prod.snd).Pairwise (· < ·) := by
    rw [List.zipIdx_map_snd]
    exact List.pairwise_lt_range'
  exact List.pairwise_map.mp hPositions

/-- Writing the entries of a list at their positions gives the list, whatever the order is. -/
theorem Order.foldl_set_eq {β : Type} {target : List β} {writes : List (Nat × β)} {xs : List β}
    (hLength : xs.length = target.length) (hWrites : ∀ w ∈ writes, target[w.1]? = some w.2)
    (hRest : ∀ i < target.length, i ∉ writes.map Prod.fst → xs[i]? = target[i]?) :
    writes.foldl (fun xs w => xs.set w.1 w.2) xs = target := by
  induction writes generalizing xs with
  | nil =>
    refine List.ext_getElem? fun i => ?_
    by_cases hi : i < target.length
    · exact hRest i hi List.not_mem_nil
    · rw [List.foldl_nil, List.getElem?_eq_none (by omega), List.getElem?_eq_none (by omega)]
  | cons w writes ih =>
    have hw := hWrites w List.mem_cons_self
    rw [List.foldl_cons]
    refine ih (by rw [List.length_set, hLength])
      (fun v hv => hWrites v (List.mem_cons_of_mem w hv)) fun i hi hNone => ?_
    by_cases hiw : w.1 = i
    · subst hiw
      rw [hw, List.getElem?_set_self (by omega)]
    · rw [List.getElem?_set_ne hiw]
      exact hRest i hi (by simpa [Ne.symm hiw] using hNone)

namespace Lyric

variable {α : Type} [Scalar α]

def startCmp (r s : Row α × Nat) : Ordering := Scalar.totalCmp r.1.start s.1.start

/-- Rows compare by their start, and then by their position. -/
def rankCmp : Row α × Nat → Row α × Nat → Ordering := compareLex startCmp (compareOn Prod.snd)

/-- How many of the rows listed have the place of a row and come before it. -/
def rankIn (listed : List (Row α × Nat)) (r : Row α × Nat) : Nat :=
  listed.countP fun s => placeKey s.1 = placeKey r.1 && rankCmp s r = .lt

def rowsAt (rows : List (Row α)) (place : Int × Int) : List (Row α) :=
  rows.filter fun row => placeKey row = place

def listedAt (rows : List (Row α)) (place : Int × Int) : List (Row α × Nat) :=
  rows.zipIdx.filter fun r => placeKey r.1 = place

def numbersAt (rows : List (Row α)) (place : Int × Int) : List Nat :=
  ((rows.zip (subIndices rows)).filter fun e => placeKey e.1 = place).map Prod.snd

def bucketsOf (rows : List (Row α)) : List (List (Row α × Nat)) :=
  (rows.map placeKey).dedup.map (listedAt rows)

/-- The rows of a bucket are sorted and numbered; each number goes with the position of its row. -/
def numberBucket (bucket : List (Row α × Nat)) : List (Nat × Nat) :=
  ((bucket.mergeSort fun r s => (rankCmp r s).isLE).zipIdx).map fun e => (e.1.2, e.2)

def numbersOf (buckets : List (List (Row α × Nat))) (size : Nat) : List Nat :=
  buckets.foldl
    (fun numbers bucket =>
      (numberBucket bucket).foldl (fun numbers w => numbers.set w.1 w.2) numbers)
    (List.replicate size 0)

def numbered (rows : List (Row α)) : List (Nat × Nat) :=
  numberPlaces [] (rows.zipIdx.mergeSort fun r s => Scalar.atMost r.1.start s.1.start)

theorem subIndices_eq (rows : List (Row α)) :
    subIndices rows =
      (List.range rows.length).map fun i => ((numbered rows).lookup i).getD 0 := rfl

theorem map_fst_numberPlaces (seen : List (Int × Int)) (ordered : List (Row α × Nat)) :
    (numberPlaces seen ordered).map Prod.fst = ordered.map Prod.snd := by
  induction ordered generalizing seen with
  | nil => rfl
  | cons entry ordered ih => rw [numberPlaces, List.map_cons, List.map_cons, ih]

theorem exists_lookup_numbered (rows : List (Row α)) {i : Nat} (h : i < rows.length) :
    ∃ n, (numbered rows).lookup i = some n ∧ (subIndices rows)[i]? = some n := by
  -- numbers are given in the order of start, so every position occurs, but not at its own index
  have hPositions : i ∈ (numbered rows).map Prod.fst := by
    rw [numbered, map_fst_numberPlaces, List.mem_map]
    refine ⟨(rows[i], i), List.mem_mergeSort.mpr ?_, rfl⟩
    exact List.mk_mem_zipIdx_iff_getElem?.mpr (List.getElem?_eq_getElem h)
  obtain ⟨⟨j, m⟩, hMem, hj⟩ := List.mem_map.mp hPositions
  cases hLookup : (numbered rows).lookup i with
  | none =>
    have hNone := List.lookup_eq_none_iff.mp hLookup (j, m) hMem
    exact absurd hj.symm (by simpa using hNone)
  | some n =>
    refine ⟨n, rfl, ?_⟩
    rw [subIndices_eq, List.getElem?_map, List.getElem?_range h, Option.map_some, hLookup,
      Option.getD_some]

section Places

variable {rows : List (Row α)} {place : Int × Int} {r : Row α × Nat}

theorem mem_listedAt : r ∈ listedAt rows place ↔ r ∈ rows.zipIdx ∧ placeKey r.1 = place := by
  rw [listedAt, List.mem_filter, decide_eq_true_eq]

theorem map_fst_listedAt (rows : List (Row α)) (place : Int × Int) :
    (listedAt rows place).map Prod.fst = rowsAt rows place := by
  have hRows := List.zipIdx_map_fst 0 rows
  rw [rowsAt, ← hRows, List.filter_map, hRows]
  rfl

theorem pairwise_listedAt (rows : List (Row α)) (place : Int × Int) :
    (listedAt rows place).Pairwise fun r s => r.2 < s.2 :=
  (Order.pairwise_zipIdx rows).filter _

theorem rankIn_listedAt (hr : placeKey r.1 = place) :
    rankIn (listedAt rows place) r = rankIn rows.zipIdx r := by
  rw [rankIn, rankIn, listedAt, List.countP_filter]
  refine List.countP_congr fun s _ => ?_
  simp only [hr, Bool.and_eq_true, decide_eq_true_eq]
  tauto

theorem rankIn_perm {listed others : List (Row α × Nat)} (h : listed.Perm others) :
    rankIn listed = rankIn others := funext fun _ => h.countP_eq _

end Places

theorem rankCmp_eq_lt_iff {r s : Row α × Nat} :
    rankCmp r s = .lt ↔ startCmp r s = .lt ∨ startCmp r s = .eq ∧ r.2 < s.2 := by
  rw [rankCmp, compareLex, Ordering.then_eq_lt, compareOn, Nat.compare_eq_lt]

section Order

variable [Scalar.LawfulOrder α]

instance : Std.TransCmp (startCmp : Row α × Nat → Row α × Nat → Ordering) where
  eq_swap {r s} := @Std.OrientedCmp.eq_swap _ Scalar.totalCmp _ r.1.start s.1.start
  isLE_trans {r s t} :=
    @Std.TransCmp.isLE_trans _ Scalar.totalCmp _ r.1.start s.1.start t.1.start

instance : Std.TransCmp (rankCmp : Row α × Nat → Row α × Nat → Ordering) :=
  inferInstanceAs (Std.TransCmp (compareLex startCmp (compareOn Prod.snd)))

section Sorted

variable {listed : List (Row α × Nat)}

/-- Sorting by start puts rows in order, since those that start together stay as they are listed. -/
theorem pairwise_mergeSort_start (h : listed.Pairwise fun r s => r.2 < s.2) :
    (listed.mergeSort fun r s => (startCmp r s).isLE).Pairwise fun r s => rankCmp r s = .lt := by
  refine (Order.pairwise_mergeSort_of_pairwise (Order.isLE_total startCmp)
    (fun _ _ _ => Std.TransCmp.isLE_trans) h).imp ?_
  rintro r s ⟨hLe, hListed⟩
  rw [rankCmp_eq_lt_iff]
  cases hCmp : startCmp r s with
  | lt => exact .inl rfl
  | eq => exact .inr ⟨rfl, hListed (by rw [Std.OrientedCmp.eq_symm hCmp]; rfl)⟩
  | gt => rw [hCmp] at hLe; cases hLe

theorem pairwise_mergeSort_rank (h : listed.Pairwise fun r s => r.2 < s.2) :
    (listed.mergeSort fun r s => (rankCmp r s).isLE).Pairwise fun r s => rankCmp r s = .lt := by
  refine (Order.pairwise_mergeSort_of_pairwise (Order.isLE_total rankCmp)
    (fun _ _ _ => Std.TransCmp.isLE_trans) h).imp ?_
  rintro r s ⟨hLe, hListed⟩
  cases hCmp : rankCmp r s with
  | lt => rfl
  | eq =>
    -- no two rows have one position
    have hLess := hListed (by rw [Std.OrientedCmp.eq_symm hCmp]; rfl)
    rw [rankCmp, compareLex, Ordering.then_eq_eq, compareOn, Nat.compare_eq_eq] at hCmp
    omega
  | gt => rw [hCmp] at hLe; cases hLe

end Sorted

section Ranked

variable {front back : List (Row α × Nat)} {r : Row α × Nat}

theorem rankIn_append (p q : Row α → Bool) (hFront : ∀ s ∈ front, rankCmp s r = .lt ↔ p s.1 = true)
    (hBack : ∀ s ∈ back, rankCmp s r = .lt ↔ q s.1 = true) :
    rankIn (front ++ r :: back) r =
      (front.map Prod.fst).countP (fun row => placeKey row = placeKey r.1 && p row) +
        (back.map Prod.fst).countP (fun row => placeKey row = placeKey r.1 && q row) := by
  have hSelf : ¬rankCmp r r = .lt := by simp [@Std.ReflCmp.compare_self _ rankCmp]
  rw [rankIn, List.countP_append, List.countP_cons_of_neg (by simpa using hSelf),
    List.countP_map, List.countP_map]
  congr 1
  · exact List.countP_congr fun s hs => by simp [hFront s hs]
  · exact List.countP_congr fun s hs => by simp [hBack s hs]

theorem rankIn_of_ordered (h : (front ++ r :: back).Pairwise fun r s => rankCmp r s = .lt) :
    rankIn (front ++ r :: back) r =
      (front.map Prod.fst).countP fun row => placeKey row = placeKey r.1 := by
  rw [List.pairwise_append, List.pairwise_cons] at h
  rw [rankIn_append (fun _ => true) (fun _ => false)]
  · simp
  · intro s hs
    simpa using h.2.2 s hs r List.mem_cons_self
  · intro s hs
    simpa using Std.OrientedCmp.not_lt_of_lt (h.2.1.1 s hs)

/-- Listed by position, the rows in front of one come before it unless they start later, and those
behind it only if they start earlier. -/
theorem rankIn_of_listed (h : (front ++ r :: back).Pairwise fun r s => r.2 < s.2) :
    rankIn (front ++ r :: back) r =
      (front.map Prod.fst).countP
          (fun row => placeKey row = placeKey r.1 && Scalar.atMost row.start r.1.start) +
        (back.map Prod.fst).countP
          (fun row => placeKey row = placeKey r.1 &&
            Scalar.totalCmp row.start r.1.start = .lt) := by
  rw [List.pairwise_append, List.pairwise_cons] at h
  apply rankIn_append
  · intro s hs
    have hLess := h.2.2 s hs r List.mem_cons_self
    rw [rankCmp_eq_lt_iff, Scalar.atMost, startCmp, Ordering.isLE_iff_eq_lt_or_eq_eq]
    exact or_congr_right (and_iff_left hLess)
  · intro s hs
    have hLess := h.2.1.1 s hs
    rw [rankCmp_eq_lt_iff, startCmp, decide_eq_true_eq]
    exact or_iff_left fun hTie => by omega

end Ranked

section Front

variable (front : List (Row α × Nat)) {back : List (Row α × Nat)}

theorem numberPlaces_eq_map (h : (front ++ back).Pairwise fun r s => rankCmp r s = .lt) :
    numberPlaces ((front.map Prod.fst).map placeKey).reverse back =
      back.map fun r => (r.2, rankIn (front ++ back) r) := by
  induction back generalizing front with
  | nil => rfl
  | cons r back ih =>
    have hNext := List.append_cons front r back
    have hSeen : placeKey r.1 :: ((front.map Prod.fst).map placeKey).reverse =
        (((front ++ [r]).map Prod.fst).map placeKey).reverse := by simp
    have hCount : ((front.map Prod.fst).map placeKey).reverse.count (placeKey r.1) =
        rankIn (front ++ r :: back) r := by
      rw [rankIn_of_ordered h, List.count_reverse, List.count, List.countP_map]
      exact List.countP_congr fun row _ => by simp
    rw [numberPlaces, hSeen, ih _ (hNext ▸ h), ← hNext, hCount, List.map_cons]

theorem map_rankIn_eq_range' {place : Int × Int}
    (h : (front ++ back).Pairwise fun r s => rankCmp r s = .lt)
    (hPlace : ∀ r ∈ front ++ back, placeKey r.1 = place) :
    back.map (rankIn (front ++ back)) = List.range' front.length back.length := by
  induction back generalizing front with
  | nil => rfl
  | cons r back ih =>
    have hNext := List.append_cons front r back
    have hCount : rankIn (front ++ r :: back) r = front.length := by
      rw [rankIn_of_ordered h, List.countP_map, List.countP_eq_length]
      intro s hs
      rw [Function.comp_apply, decide_eq_true_eq, hPlace s (List.mem_append_left _ hs),
        hPlace r (List.mem_append_right _ List.mem_cons_self)]
    rw [List.map_cons, hCount, hNext, ih _ (hNext ▸ h) (hNext ▸ hPlace), List.length_append,
      List.length_singleton, List.length_cons, List.range'_succ]

/-- Ranks of rows listed by position do not depend on what the positions are. -/
theorem map_rankIn_congr (front' : List (Row α × Nat)) {back' : List (Row α × Nat)}
    (h : (front ++ back).Pairwise fun r s => r.2 < s.2)
    (h' : (front' ++ back').Pairwise fun r s => r.2 < s.2)
    (hFront : front.map Prod.fst = front'.map Prod.fst)
    (hBack : back.map Prod.fst = back'.map Prod.fst) :
    back.map (rankIn (front ++ back)) = back'.map (rankIn (front' ++ back')) := by
  induction back generalizing front front' back' with
  | nil =>
    rw [List.map_nil, eq_comm, List.map_eq_nil_iff] at hBack
    rw [hBack]
    rfl
  | cons r back ih =>
    cases back' with
    | nil => cases hBack
    | cons r' back' =>
      obtain ⟨hRow, hBack⟩ := List.cons.inj hBack
      have hNext := List.append_cons front r back
      have hNext' := List.append_cons front' r' back'
      rw [List.map_cons, List.map_cons, rankIn_of_listed h, rankIn_of_listed h', hRow, hFront,
        hBack, hNext, hNext', ih _ _ (hNext ▸ h) (hNext' ▸ h') (by simp [hFront, hRow]) hBack]

end Front

section Numbers

variable (rows : List (Row α)) (place : Int × Int)

theorem numbered_eq_map :
    numbered rows = (rows.zipIdx.mergeSort fun r s => (startCmp r s).isLE).map
      fun r => (r.2, rankIn rows.zipIdx r) := by
  have hSorted := pairwise_mergeSort_start (Order.pairwise_zipIdx rows)
  rw [← rankIn_perm (List.mergeSort_perm rows.zipIdx _)]
  exact numberPlaces_eq_map [] hSorted

theorem subIndices_eq_map : subIndices rows = rows.zipIdx.map (rankIn rows.zipIdx) := by
  have hLength : (subIndices rows).length = rows.length := by simp [subIndices]
  refine List.ext_getElem? fun i => ?_
  by_cases hi : i < rows.length
  · obtain ⟨n, hLookup, hNumber⟩ := exists_lookup_numbered rows hi
    obtain ⟨front, back, hSplit, -⟩ := List.lookup_eq_some_iff.mp hLookup
    have hMem : (i, n) ∈ numbered rows := hSplit ▸ List.mem_append_right front List.mem_cons_self
    rw [numbered_eq_map, List.mem_map] at hMem
    obtain ⟨⟨row, j⟩, hRow, hEq⟩ := hMem
    cases hEq
    have hRow := List.mk_mem_zipIdx_iff_getElem?.mp (List.mem_mergeSort.mp hRow)
    simp [hNumber, hRow]
  · rw [List.getElem?_eq_none (by omega), List.getElem?_eq_none (by simpa using hi)]

theorem numbersAt_eq_map :
    numbersAt rows place = (listedAt rows place).map (rankIn (listedAt rows place)) := by
  have hZip : rows.zip (subIndices rows) =
      rows.zipIdx.map fun r => (r.1, rankIn rows.zipIdx r) := by
    have hRows := List.zipIdx_map_fst 0 rows
    rw [subIndices_eq_map, ← List.zip_map', hRows]
  rw [numbersAt, hZip, List.filter_map, List.map_map]
  exact List.map_congr_left fun r hr => (rankIn_listedAt (mem_listedAt.mp hr).2).symm

theorem map_rankIn_mergeSort :
    let ordered := (listedAt rows place).mergeSort fun r s => (rankCmp r s).isLE
    ordered.map (rankIn (listedAt rows place)) = List.range ordered.length := by
  intro ordered
  have hPerm : ordered.Perm (listedAt rows place) := List.mergeSort_perm _ _
  have hSorted := pairwise_mergeSort_rank (pairwise_listedAt rows place)
  rw [← rankIn_perm hPerm, List.range_eq_range']
  exact map_rankIn_eq_range' [] hSorted fun r hr => (mem_listedAt.mp (hPerm.mem_iff.mp hr)).2

theorem numbersAt_perm : (numbersAt rows place).Perm (List.range (rowsAt rows place).length) := by
  have hPerm := List.mergeSort_perm (listedAt rows place) fun r s => (rankCmp r s).isLE
  rw [numbersAt_eq_map, ← map_fst_listedAt, List.length_map, ← hPerm.length_eq,
    ← map_rankIn_mergeSort]
  exact (hPerm.map _).symm

theorem numbersAt_eq_subIndices : numbersAt rows place = subIndices (rowsAt rows place) := by
  rw [numbersAt_eq_map, subIndices_eq_map]
  have hRows : (listedAt rows place).map Prod.fst = (rowsAt rows place).zipIdx.map Prod.fst := by
    rw [map_fst_listedAt, List.zipIdx_map_fst]
  exact map_rankIn_congr [] [] (pairwise_listedAt rows place) (Order.pairwise_zipIdx _) rfl hRows

theorem numberBucket_listedAt :
    numberBucket (listedAt rows place) =
      ((listedAt rows place).mergeSort fun r s => (rankCmp r s).isLE).map
        fun r => (r.2, rankIn (listedAt rows place) r) := by
  rw [numberBucket, List.zipIdx_eq_zip_range', ← List.range_eq_range', ← map_rankIn_mergeSort,
    ← List.map_prod_left_eq_zip, List.map_map]
  rfl

end Numbers

section Buckets

variable {rows : List (Row α)}

/-- What is written from the buckets is the rank of each row, at the position of the row. -/
theorem mem_numberBucket {w : Nat × Nat} :
    w ∈ (bucketsOf rows).flatMap numberBucket ↔
      ∃ r ∈ rows.zipIdx, w = (r.2, rankIn rows.zipIdx r) := by
  rw [List.mem_flatMap]
  constructor
  · rintro ⟨bucket, hBucket, hw⟩
    obtain ⟨place, -, rfl⟩ := List.mem_map.mp hBucket
    rw [numberBucket_listedAt, List.mem_map] at hw
    obtain ⟨r, hr, rfl⟩ := hw
    obtain ⟨hr, hPlace⟩ := mem_listedAt.mp (List.mem_mergeSort.mp hr)
    exact ⟨r, hr, by rw [rankIn_listedAt hPlace]⟩
  · rintro ⟨r, hr, rfl⟩
    have hPlace : placeKey r.1 ∈ (rows.map placeKey).dedup :=
      List.mem_dedup.mpr (List.mem_map_of_mem (List.fst_mem_of_mem_zipIdx hr))
    refine ⟨_, List.mem_map_of_mem hPlace, ?_⟩
    rw [numberBucket_listedAt, List.mem_map]
    exact ⟨r, List.mem_mergeSort.mpr (mem_listedAt.mpr ⟨hr, rfl⟩), by rw [rankIn_listedAt rfl]⟩

theorem numbersOf_perm {buckets : List (List (Row α × Nat))} (h : buckets.Perm (bucketsOf rows)) :
    numbersOf buckets rows.length = subIndices rows := by
  have hWrites (w : Nat × Nat) : w ∈ buckets.flatMap numberBucket ↔
      ∃ r ∈ rows.zipIdx, w = (r.2, rankIn rows.zipIdx r) :=
    (h.flatMap_right numberBucket).mem_iff.trans mem_numberBucket
  have hLength : (subIndices rows).length = rows.length := by simp [subIndices]
  rw [numbersOf, ← List.foldl_flatMap]
  refine Order.foldl_set_eq (by simp [hLength]) (fun w hw => ?_) fun i hi hNone => ?_
  · obtain ⟨r, hr, rfl⟩ := (hWrites w).mp hw
    rw [List.mem_zipIdx_iff_getElem?] at hr
    simp [subIndices_eq_map, hr]
  · -- every position is written
    rw [hLength] at hi
    have hr := List.mk_mem_zipIdx_iff_getElem?.mpr (List.getElem?_eq_getElem hi)
    have hWrite := (hWrites _).mpr ⟨_, hr, rfl⟩
    exact absurd (List.mem_map_of_mem hWrite) hNone

end Buckets

/-- The number of a row is its rank: how many rows of the same bar, and of the same beat to six
decimals, start before it, or start with it and are listed before it. So the rows of a place have
the numbers from 0 on, each once, whatever the other rows are and in whatever order the places are
numbered. -/
theorem subIndices_ranks (rows : List (Row α)) :
    subIndices rows = rows.zipIdx.map (rankIn rows.zipIdx) ∧
      (∀ place, (numbersAt rows place).Perm (List.range (rowsAt rows place).length) ∧
        numbersAt rows place = subIndices (rowsAt rows place)) ∧
      ∀ buckets, buckets.Perm (bucketsOf rows) →
        numbersOf buckets rows.length = subIndices rows :=
  ⟨subIndices_eq_map rows,
    fun place => ⟨numbersAt_perm rows place, numbersAt_eq_subIndices rows place⟩,
    fun _ => numbersOf_perm⟩

end Order

/-- Rows of two bars in turns, two of them with one start, and a beat that is near another. -/
theorem subIndices_ranks_interleaved :
    let rows : List (Row Rat) := [
      Row.blank .lyric 1 2 1 1.25, Row.blank .lyric 2 2 5 4.5, Row.blank .lyric 1 2.0000001 1 1,
      Row.blank .lyric 2 2 5 4, Row.blank .lyric 1 2 1 1.25, Row.blank .lyric 1 2.5 1.5 0.5]
    let buckets := (bucketsOf rows).reverse
    Scalar.LawfulOrder Rat ∧ buckets.Perm (bucketsOf rows) ∧
      numbersOf buckets rows.length = [1, 1, 0, 0, 2, 0] ∧
      subIndices rows = [1, 1, 0, 0, 2, 0] := by
  intro rows buckets
  have hPerm : buckets.Perm (bucketsOf rows) := List.reverse_perm _
  obtain ⟨hRanks, -, hBuckets⟩ := subIndices_ranks rows
  have hNumbers : subIndices rows = [1, 1, 0, 0, 2, 0] := hRanks.trans (by decide +kernel)
  exact ⟨inferInstance, hPerm, (hBuckets buckets hPerm).trans hNumbers, hNumbers⟩

end Lyric

end LeadSheet
