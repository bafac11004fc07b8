import Mathlib.Algebra.Ring.Int.Defs
import Mathlib.Data.Finset.Image
import Mathlib.Data.List.MinMax
import Mathlib.Data.Prod.Lex
import Mathlib.Data.String.Basic
import Mathlib.Data.ZMod.Defs
import LeadSheet.Chord.Template

/-!
# The best chord

What some pitches are taken for depends on their residues only. Of all templates that fit at a root
the best one is first by size, colour tones, suffix and root, so no two tie. When all pitches move
by one interval, each fitting template moves along with its root. The first three parts of the order
do not look at the root, so they stay as they are; the root itself does not always move along, since
a symmetric chord fits at several roots and the lowest of them is taken.
-/

namespace LeadSheet
set_option autoImplicit false

namespace PitchClass

theorem mem_members {ps : List PitchClass} {p : PitchClass} : p ∈ members ps ↔ p ∈ ps := by
  simp [members]

theorem nodup_members (ps : List PitchClass) : (members ps).Nodup :=
  (List.nodup_finRange 12).filter _

theorem toFinset_members (ps : List PitchClass) : (members ps).toFinset = ps.toFinset := by
  ext p
  rw [List.mem_toFinset, List.mem_toFinset, mem_members]

theorem length_members (ps : List PitchClass) : (members ps).length = ps.toFinset.card := by
  rw [← toFinset_members, List.toFinset_card_of_nodup (nodup_members ps)]

theorem members_congr {ps qs : List PitchClass} (h : ps.toFinset = qs.toFinset) :
    members ps = members qs := by
  refine List.filter_congr fun p _ => ?_
  have hMem : p ∈ ps ↔ p ∈ qs := by rw [← List.mem_toFinset, h, List.mem_toFinset]
  simpa using hMem

open Fin.CommRing in
theorem ofPitch_of_add {p q : Nat} {k : Int} (h : (q : Int) = p + k) :
    ofPitch q = ofPitch p + (k : PitchClass) := by
  have hCast := congrArg (Int.cast : Int → PitchClass) h
  rw [Int.cast_add, Int.cast_natCast, Int.cast_natCast] at hCast
  exact hCast

end PitchClass

namespace Chord

namespace Match

/-- The parts by which matches are compared. The larger template comes first. -/
def key (m : Match) : Int ×ₗ Nat ×ₗ String ×ₗ PitchClass :=
  toLex (-(m.templateSize : Int), toLex (m.colourExtras, toLex (m.suffix, m.root)))

theorem key_injective : Function.Injective key := by
  rintro ⟨root, suffix, size, extras⟩ ⟨root', suffix', size', extras'⟩ h
  simp only [key, EmbeddingLike.apply_eq_iff_eq, Prod.mk.injEq, neg_inj, Nat.cast_inj] at h
  obtain ⟨rfl, rfl, rfl, rfl⟩ := h
  rfl

theorem betterThan_iff (m n : Match) : m.betterThan n = true ↔ m.key < n.key := by
  simp only [key, Prod.Lex.toLex_lt_toLex, betterThan]
  split_ifs <;> grind

end Match

theorem best_eq_some_iff {ms : List Match} {m : Match} :
    best ms = some m ↔ m ∈ ms ∧ ∀ n ∈ ms, m.key ≤ n.key := by
  have hArgmin : best ms = ms.argmin Match.key := by
    cases ms with
    | nil => rfl
    | cons m ms =>
      refine (List.foldl_hom some fun b n => ?_).symm
      change (if n.key < b.key then some n else some b) = some (if n.betterThan b then n else b)
      simp only [Match.betterThan_iff]
      exact (apply_ite some _ _ _).symm
  rw [hArgmin, List.argmin_eq_some_iff]
  -- no two matches have one key, so the first of the least is the only one
  refine ⟨fun h => ⟨h.1, h.2.1⟩, fun h => ⟨h.1, h.2, fun n hn hle => ?_⟩⟩
  rw [Match.key_injective (le_antisymm hle (h.2 n hn))]

theorem best_eq_none_iff {ms : List Match} : best ms = none ↔ ms = [] := by
  cases ms with
  | nil => exact iff_of_true rfl rfl
  | cons m ms => exact iff_of_false (Option.some_ne_none _) (List.cons_ne_nil m ms)

def residues (pitches : List Nat) : Finset PitchClass :=
  (pitches.map PitchClass.ofPitch).toFinset

/-- All notes of a template sound above a root. -/
def Fits (notes : Finset PitchClass) (root : PitchClass) (t : Template) : Prop :=
  t ∈ templates ∧ ∀ i ∈ t.intervals, root + i ∈ notes

def colourExtras (notes : Finset PitchClass) (root : PitchClass) (t : Template) : Nat :=
  {i ∈ colourTones.toFinset | i ∉ t.intervals ∧ root + i ∈ notes}.card

def matchAt (notes : Finset PitchClass) (root : PitchClass) (t : Template) : Match :=
  ⟨root, t.suffix, t.intervals.length, colourExtras notes root t⟩

/-- The match of a template that fits, with the least key of all of them. -/
structure IsBest (notes : Finset PitchClass) (m : Match) : Prop where
  fits : ∃ t, Fits notes m.root t ∧ m = matchAt notes m.root t
  least : ∀ root t, Fits notes root t → m.key ≤ (matchAt notes root t).key

/-- The match `n` has the shape of `m`, whose own root still fits the notes when it moves by `k`. -/
structure KeepsShape (notes : Finset PitchClass) (k : PitchClass) (m n : Match) : Prop where
  templateSize : n.templateSize = m.templateSize
  colourExtras : n.colourExtras = m.colourExtras
  suffix : n.suffix = m.suffix
  fits : ∃ t, t.suffix = m.suffix ∧ Fits notes (m.root + k) t ∧
    Chord.colourExtras notes (m.root + k) t = m.colourExtras

section Sounding

variable {sounding : List PitchClass} {root : PitchClass} {t : Template}

theorem mem_map_sub_iff {i : PitchClass} : i ∈ sounding.map (· - root) ↔ root + i ∈ sounding := by
  simp only [List.mem_map, sub_eq_iff_eq_add', exists_eq_right]

theorem length_filter_map_sub (hNodup : sounding.Nodup) :
    ((sounding.map (· - root)).filter fun i =>
      !t.intervals.contains i && colourTones.contains i).length =
        colourExtras sounding.toFinset root t := by
  have hIntervals : (sounding.map (· - root)).Nodup := hNodup.map sub_left_injective
  rw [← List.toFinset_card_of_nodup (hIntervals.filter _)]
  refine congrArg Finset.card (Finset.ext fun i => ?_)
  rw [List.mem_toFinset, List.mem_filter, mem_map_sub_iff, Finset.mem_filter, List.mem_toFinset,
    List.mem_toFinset]
  simp [and_comm, and_left_comm]

theorem fit?_eq_some_iff (hNodup : sounding.Nodup) {m : Match} :
    fit? sounding root t = some m ↔
      (∀ i ∈ t.intervals, root + i ∈ sounding.toFinset) ∧ m = matchAt sounding.toFinset root t := by
  have hFits : t.intervals.all ((sounding.map (· - root)).contains ·) = true ↔
      ∀ i ∈ t.intervals, root + i ∈ sounding.toFinset := by
    simp only [List.all_eq_true, List.contains_iff_mem, mem_map_sub_iff, List.mem_toFinset]
  simp only [fit?, length_filter_map_sub hNodup, hFits, matchAt]
  split_ifs with h
  · exact ⟨fun hm => ⟨h, (Option.some.inj hm).symm⟩, fun hm => congrArg some hm.2.symm⟩
  · exact ⟨False.elim, fun hm => h hm.1⟩

theorem mem_fits_iff (hNodup : sounding.Nodup) {m : Match} :
    m ∈ fits sounding ↔
      ∃ root t, Fits sounding.toFinset root t ∧ m = matchAt sounding.toFinset root t := by
  simp only [fits, List.mem_flatMap, List.mem_finRange, true_and, List.mem_filterMap,
    fit?_eq_some_iff hNodup, Fits, and_assoc]

theorem best_fits_eq_some_iff (hNodup : sounding.Nodup) {m : Match} :
    best (fits sounding) = some m ↔ IsBest sounding.toFinset m := by
  simp only [best_eq_some_iff, mem_fits_iff hNodup]
  constructor
  · rintro ⟨⟨root, t, hFits, rfl⟩, hLeast⟩
    exact ⟨⟨t, hFits, rfl⟩, fun root' t' hFits' => hLeast _ ⟨root', t', hFits', rfl⟩⟩
  · rintro ⟨⟨t, hFits, hMatch⟩, hLeast⟩
    refine ⟨⟨m.root, t, hFits, hMatch⟩, ?_⟩
    rintro n ⟨root', t', hFits', rfl⟩
    exact hLeast root' t' hFits'

theorem best_fits_eq_none_iff (hNodup : sounding.Nodup) :
    best (fits sounding) = none ↔ ∀ root t, ¬ Fits sounding.toFinset root t := by
  rw [best_eq_none_iff, List.eq_nil_iff_forall_not_mem]
  simp only [mem_fits_iff hNodup]
  constructor
  · exact fun h root t hFits => h _ ⟨root, t, hFits, rfl⟩
  · rintro h m ⟨root, t, hFits, -⟩
    exact h root t hFits

end Sounding

section Transposition

variable {notes : Finset PitchClass} {root k : PitchClass} {t : Template} {m n : Match}

theorem add_mem_image_add_iff {i : PitchClass} :
    root + k + i ∈ notes.image (· + k) ↔ root + i ∈ notes := by
  rw [add_right_comm]
  exact (add_left_injective k).mem_finset_image

theorem fits_image_add_iff : Fits (notes.image (· + k)) (root + k) t ↔ Fits notes root t := by
  simp only [Fits, add_mem_image_add_iff]

theorem colourExtras_image_add :
    colourExtras (notes.image (· + k)) (root + k) t = colourExtras notes root t := by
  simp only [colourExtras, add_mem_image_add_iff]

theorem matchAt_image_add :
    matchAt (notes.image (· + k)) (root + k) t =
      { matchAt notes root t with root := root + k } := by
  rw [matchAt, colourExtras_image_add, matchAt]

theorem image_add_image_neg (notes : Finset PitchClass) (k : PitchClass) :
    (notes.image (· + k)).image (· + -k) = notes := by
  have hBack : (· + -k) ∘ (· + k) = (id : PitchClass → PitchClass) :=
    funext fun p => add_neg_cancel_right p k
  rw [Finset.image_image, hBack, Finset.image_id]

def Match.shape (m : Match) : Int ×ₗ Nat ×ₗ String :=
  toLex (-(m.templateSize : Int), toLex (m.colourExtras, m.suffix))

theorem Match.shape_le_of_key_le (h : m.key ≤ n.key) : m.shape ≤ n.shape := by
  simp only [key, shape, Prod.Lex.toLex_le_toLex] at h ⊢
  refine h.imp_right (And.imp_right (Or.imp_right (And.imp_right ?_)))
  exact fun h => h.elim le_of_lt fun hRoot => hRoot.1.le

theorem IsBest.shape_le_of_image_add (h : IsBest notes m) (h' : IsBest (notes.image (· + k)) n) :
    n.shape ≤ m.shape := by
  obtain ⟨t, hFits, hMatch⟩ := h.fits
  have hKey := h'.least (m.root + k) t (fits_image_add_iff.mpr hFits)
  have hShape : (matchAt (notes.image (· + k)) (m.root + k) t).shape = m.shape := by
    rw [matchAt_image_add, ← hMatch]
    rfl
  exact (Match.shape_le_of_key_le hKey).trans hShape.le

theorem IsBest.shape_eq_of_image_add (h : IsBest notes m) (h' : IsBest (notes.image (· + k)) n) :
    n.shape = m.shape := by
  have hBack : IsBest ((notes.image (· + k)).image (· + -k)) m := by
    rwa [image_add_image_neg]
  exact le_antisymm (h.shape_le_of_image_add h') (h'.shape_le_of_image_add hBack)

theorem IsBest.keepsShape_of_image_add (h : IsBest notes m)
    (h' : IsBest (notes.image (· + k)) n) : KeepsShape (notes.image (· + k)) k m n := by
  have hShape := h.shape_eq_of_image_add h'
  simp only [Match.shape, EmbeddingLike.apply_eq_iff_eq, Prod.mk.injEq, neg_inj, Nat.cast_inj]
    at hShape
  obtain ⟨hSize, hExtras, hSuffix⟩ := hShape
  obtain ⟨t, hFits, hMatch⟩ := h.fits
  exact ⟨hSize, hExtras, hSuffix, t, (congrArg Match.suffix hMatch).symm,
    fits_image_add_iff.mpr hFits,
    colourExtras_image_add.trans (congrArg Match.colourExtras hMatch).symm⟩

theorem forall_not_fits_image_add_iff :
    (∀ root t, ¬ Fits (notes.image (· + k)) root t) ↔ ∀ root t, ¬ Fits notes root t := by
  constructor
  · exact fun h root t hFits => h (root + k) t (fits_image_add_iff.mpr hFits)
  · intro h root t hFits
    rw [← sub_add_cancel root k] at hFits
    exact h (root - k) t (fits_image_add_iff.mp hFits)

end Transposition

section Recognise

variable {α : Type} (pitches : List Nat)

theorem recognise_eq : recognise (α := α) pitches =
    if (residues pitches).card < 2 then .error (.insufficientPitchInfo (residues pitches).card)
    else .ok (best (fits (PitchClass.members (pitches.map PitchClass.ofPitch)))) := by
  rw [recognise, PitchClass.length_members]
  rfl

theorem recognise_eq_some_iff {m : Match} :
    recognise (α := α) pitches = .ok (some m) ↔
      2 ≤ (residues pitches).card ∧ IsBest (residues pitches) m := by
  have hBest := best_fits_eq_some_iff (m := m) (PitchClass.nodup_members (pitches.map .ofPitch))
  rw [PitchClass.toFinset_members] at hBest
  rw [recognise_eq, residues, ← hBest, ← not_lt]
  split_ifs with hTwo <;> simp [hTwo]

theorem recognise_eq_none_iff :
    recognise (α := α) pitches = .ok none ↔
      2 ≤ (residues pitches).card ∧ ∀ root t, ¬ Fits (residues pitches) root t := by
  have hBest := best_fits_eq_none_iff (PitchClass.nodup_members (pitches.map .ofPitch))
  rw [PitchClass.toFinset_members] at hBest
  rw [recognise_eq, residues, ← hBest, ← not_lt]
  split_ifs with hTwo <;> simp [hTwo]

theorem recognise_eq_error_iff {e : Error α} :
    recognise pitches = .error e ↔
      (residues pitches).card < 2 ∧ e = .insufficientPitchInfo (residues pitches).card := by
  rw [recognise_eq]
  split_ifs with hTwo
  · simp [hTwo, eq_comm]
  · simp [hTwo]

variable {pitches}

theorem recognise_congr {other : List Nat} (h : residues pitches = residues other) :
    recognise (α := α) pitches = recognise other := by
  rw [recognise_eq, recognise_eq, h, PitchClass.members_congr h]

open Fin.CommRing in
theorem residues_of_forall₂ {k : Int} {shifted : List Nat}
    (h : List.Forall₂ (fun p q : Nat => (q : Int) = p + k) pitches shifted) :
    residues shifted = (residues pitches).image (· + (k : PitchClass)) := by
  induction h with
  | nil => rfl
  | cons hAdd _ ih =>
    unfold residues at ih ⊢
    rw [List.map_cons, List.map_cons, List.toFinset_cons, List.toFinset_cons, Finset.image_insert,
      ih, PitchClass.ofPitch_of_add hAdd]

open Fin.CommRing in
theorem recognise_transposed {k : Int} {shifted : List Nat}
    (h : List.Forall₂ (fun p q : Nat => (q : Int) = p + k) pitches shifted) :
    (∀ e : Error α, recognise shifted = .error e ↔ recognise pitches = .error e) ∧
      (recognise (α := α) shifted = .ok none ↔ recognise (α := α) pitches = .ok none) ∧
      ∀ m, recognise (α := α) pitches = .ok (some m) → ∃ n,
        recognise (α := α) shifted = .ok (some n) ∧ KeepsShape (residues shifted) k m n := by
  have hMoved := residues_of_forall₂ h
  have hCard : (residues shifted).card = (residues pitches).card :=
    hMoved ▸ Finset.card_image_of_injective _ (add_left_injective _)
  have hError (e : Error α) : recognise shifted = .error e ↔ recognise pitches = .error e := by
    rw [recognise_eq_error_iff, recognise_eq_error_iff, hCard]
  have hNone : recognise (α := α) shifted = .ok none ↔ recognise (α := α) pitches = .ok none := by
    rw [recognise_eq_none_iff, recognise_eq_none_iff, hCard, hMoved, forall_not_fits_image_add_iff]
  refine ⟨hError, hNone, fun m hm => ?_⟩
  match hFound : recognise (α := α) shifted with
  | .error e => exact absurd (hm.symm.trans ((hError e).mp hFound)) (by simp)
  | .ok none => exact absurd (hm.symm.trans (hNone.mp hFound)) (by simp)
  | .ok (some n) =>
    have hBest := (recognise_eq_some_iff pitches).mp hm
    have hBest' := (recognise_eq_some_iff shifted).mp hFound
    rw [hMoved] at hBest' ⊢
    exact ⟨n, rfl, hBest.2.keepsShape_of_image_add hBest'.2⟩

end Recognise

open Fin.CommRing in
/-- The chord of some pitches is the best of all that fit, or none does. It depends on the residues
only, and keeps its shape when all pitches move by one interval. -/
theorem recognise_best {α : Type} (pitches : List Nat) :
    (∀ e : Error α, recognise pitches = .error e ↔
      (residues pitches).card < 2 ∧ e = .insufficientPitchInfo (residues pitches).card) ∧
      (recognise (α := α) pitches = .ok none ↔
        2 ≤ (residues pitches).card ∧ ∀ root t, ¬ Fits (residues pitches) root t) ∧
      (∀ m, recognise (α := α) pitches = .ok (some m) ↔
        2 ≤ (residues pitches).card ∧ IsBest (residues pitches) m) ∧
      (∀ other, residues pitches = residues other →
        recognise (α := α) pitches = recognise other) ∧
      (∀ (k : Int) (shifted : List Nat),
        List.Forall₂ (fun p q : Nat => (q : Int) = p + k) pitches shifted →
        (∀ e : Error α, recognise shifted = .error e ↔ recognise pitches = .error e) ∧
          (recognise (α := α) shifted = .ok none ↔ recognise (α := α) pitches = .ok none) ∧
          ∀ m, recognise (α := α) pitches = .ok (some m) → ∃ n,
            recognise (α := α) shifted = .ok (some n) ∧ KeepsShape (residues shifted) k m n) :=
  ⟨fun _ => recognise_eq_error_iff pitches, recognise_eq_none_iff pitches,
    fun _ => recognise_eq_some_iff pitches, fun _ => recognise_congr,
    fun _ _ h => recognise_transposed h⟩

/-- All four notes of a diminished seventh are roots of it. -/
example : nameOf? [60, 63, 66, 69] = some "Cdim7" ∧ nameOf? [63, 66, 69, 72] = some "Cdim7" := by
  decide +kernel

end Chord
end LeadSheet
