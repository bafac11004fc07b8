import LeadSheet.Proofs.Order.Stable
import LeadSheet.Proofs.Scalar.Exact
import LeadSheet.Proofs.Scalar.Sign

/-!
# Numbers in order

What a search in a sorted list of times owes to the scalar: on numbers the total order refines `≤`,
and no two values look alike to it. The bits of a double below its sign count the doubles from zero
on, so numbers compare as their places on one line do, where only the two zeros share a place.
-/

namespace LeadSheet
set_option autoImplicit false

namespace Scalar

variable {α : Type} [Scalar α]

/-- A value whose distance from itself is a number. -/
def IsFinite (x : α) : Prop := isNumber (x - x) = true

instance (x : α) : Decidable (IsFinite x) :=
  inferInstanceAs (Decidable (isNumber (x - x) = true))

/-- How numbers compare, and the one value that is no number. -/
class LawfulNumbers (α : Type) [Scalar α] : Prop extends LawfulOrder α where
  eq_of_atMost : ∀ {x y : α}, atMost x y = true → atMost y x = true → x = y
  eq_of_not_isNumber : ∀ {x y : α}, isNumber x = false → isNumber y = false → x = y
  le_of_atMost : ∀ {x y : α}, isNumber x = true → isNumber y = true → atMost x y = true → x ≤ y
  le_trans : ∀ {x y z : α}, x ≤ y → y ≤ z → x ≤ z
  not_lt : ∀ {x y : α}, isNumber x = true → isNumber y = true → (¬x < y ↔ y ≤ x)
  isNumber_of_le : ∀ {x y : α}, x ≤ y → isNumber x = true ∧ isNumber y = true
  isNumber_of_lt : ∀ {x y : α}, x < y → isNumber x = true ∧ isNumber y = true
  isNumber_of_isFinite : ∀ {x : α}, IsFinite x → isNumber x = true
  isNumber_add : ∀ {x y : α}, IsFinite x → IsFinite y → isNumber (x + y) = true

section Clamp

variable [LawfulNumbers α] {x lo hi : α}

theorem clamp_of_not_isNumber (hx : isNumber x = false) : clamp x lo hi = x := by
  have hLo : ¬x < lo := fun h => by simp [(LawfulNumbers.isNumber_of_lt h).1] at hx
  have hHi : ¬hi < x := fun h => by simp [(LawfulNumbers.isNumber_of_lt h).2] at hx
  rw [clamp, if_neg hLo, if_neg hHi]

theorem le_refl_of_isNumber (hx : isNumber x = true) : x ≤ x :=
  LawfulNumbers.le_of_atMost hx hx (by simpa using atMost_total x x)

theorem clamp_bounds (hx : isNumber x = true) (h : lo ≤ hi) :
    lo ≤ clamp x lo hi ∧ clamp x lo hi ≤ hi := by
  obtain ⟨hLo, hHi⟩ := LawfulNumbers.isNumber_of_le h
  unfold clamp
  split
  · exact ⟨le_refl_of_isNumber hLo, h⟩
  · rename_i hxLo
    split
    · exact ⟨h, le_refl_of_isNumber hHi⟩
    · rename_i hxHi
      exact ⟨(LawfulNumbers.not_lt hx hLo).mp hxLo, (LawfulNumbers.not_lt hHi hx).mp hxHi⟩

end Clamp

theorem isNumber_rat (x : Rat) : isNumber x = true := beq_self_eq_true x

instance : LawfulNumbers Rat where
  eq_of_atMost hxy hyx := le_antisymm (isLE_cmpRat_iff.mp hxy) (isLE_cmpRat_iff.mp hyx)
  eq_of_not_isNumber {x _} hx _ := absurd (isNumber_rat x) (by rw [hx]; decide)
  le_of_atMost _ _ hxy := isLE_cmpRat_iff.mp hxy
  le_trans hxy hyz := hxy.trans hyz
  not_lt _ _ := ⟨le_of_not_gt, not_lt_of_ge⟩
  isNumber_of_le {x y} _ := ⟨isNumber_rat x, isNumber_rat y⟩
  isNumber_of_lt {x y} _ := ⟨isNumber_rat x, isNumber_rat y⟩
  isNumber_of_isFinite {x} _ := isNumber_rat x
  isNumber_add {x y} _ _ := isNumber_rat (x + y)

end Scalar

namespace Binary64

open Float.Model Float.Model.UnpackedFloat

/-- What a double with these bits may be. The bits below the sign count the doubles from zero on. -/
inductive Reads (bits : Nat) (s : Sign) : UnpackedFloat → Prop
  | notANumber : Reads bits s .notANumber
  | infinity : bits % signBit = 2047 * fractionSpan → Reads bits s (.infinity s)
  | zero : bits % signBit = 0 → Reads bits s (.zero s)
  | finite (m : Nat) (e : Int) (hm : 0 < m) : -1074 ≤ e → e < 972 → m < 2 * fractionSpan →
      (e = -1074 ∨ fractionSpan ≤ m) →
      (bits % signBit : Nat) = (e + 1074) * fractionSpan + m → Reads bits s (.finite s m e hm)

section Fields

variable (b : BitVec 64)

theorem toNat_unpackMantissa :
    (@unpackMantissa .binary64 b).toNat = b.toNat % fractionSpan := by
  simp only [unpackMantissa, BitVec.toNat_cast, BitVec.extractLsb, BitVec.extractLsb'_toNat,
    Nat.shiftRight_zero]
  rfl

theorem toNat_unpackExponent :
    (@unpackExponent .binary64 b).toNat = b.toNat / fractionSpan % 2048 := by
  simp only [unpackExponent, BitVec.toNat_cast, BitVec.extractLsb, BitVec.extractLsb'_toNat,
    Nat.shiftRight_eq_div_pow]
  rfl

theorem ofBitVec_unpackSign_eq : Sign.ofBitVec (@unpackSign .binary64 b) =
    if signBit ≤ b.toNat then .negative else .positive := by
  have hBit : (@unpackSign .binary64 b).toNat = b.toNat / signBit % 2 := by
    change (BitVec.extractLsb' 63 1 b).toNat = _
    rw [BitVec.extractLsb'_toNat, Nat.shiftRight_eq_div_pow]
    rfl
  have hZero : @unpackSign .binary64 b = 0#1 ↔ ¬signBit ≤ b.toNat := by
    have hLess := b.isLt
    rw [← BitVec.toNat_inj, hBit]
    change _ = 0 ↔ _
    simp only [signBit]
    omega
  unfold Sign.ofBitVec
  rw [ite_cond_congr (propext hZero), ite_not]

theorem reads_unpack :
    Reads b.toNat (if signBit ≤ b.toNat then .negative else .positive) (unpack .binary64 b) := by
  have hMantissa := toNat_unpackMantissa b
  have hExponent := toNat_unpackExponent b
  have hImplicit : (1#1 ++ @unpackMantissa .binary64 b).toNat =
      fractionSpan + b.toNat % fractionSpan := by
    rw [← hMantissa]
    change 2 ^ 52 ||| (@unpackMantissa .binary64 b).toNat = _
    rw [Nat.or_comm, Nat.or_two_pow_eq_add_of_lt (@unpackMantissa .binary64 b).isLt,
      Nat.add_comm]
    rfl
  have hBias : ((Format.exponentBias .binary64 : Int) +
      Format.mantissaBitsWithoutImplicit .binary64) = 1075 := rfl
  have hGreatest : @unpackExponent .binary64 b = -1#11 ↔ b.toNat / fractionSpan % 2048 = 2047 := by
    rw [← BitVec.toNat_inj, hExponent]
    rfl
  have hLeast : @unpackExponent .binary64 b = 0#11 ↔ b.toNat / fractionSpan % 2048 = 0 := by
    rw [← BitVec.toNat_inj, hExponent]
    rfl
  have hWhole : @unpackMantissa .binary64 b = 0#52 ↔ b.toNat % fractionSpan = 0 := by
    rw [← BitVec.toNat_inj, hMantissa]
    rfl
  have hLess := b.isLt
  -- the exponent field tells the kinds apart, and the bits below the sign are both fields
  rw [← ofBitVec_unpackSign_eq]
  delta UnpackedFloat.unpack
  dsimp only
  generalize Sign.ofBitVec (@unpackSign .binary64 b) = s
  by_cases hTop : b.toNat / fractionSpan % 2048 = 2047
  · rw [if_pos (hGreatest.mpr hTop)]
    by_cases hZero : b.toNat % fractionSpan = 0
    · rw [if_pos (hWhole.mpr hZero)]
      refine .infinity ?_
      simp only [fractionSpan, signBit] at *
      omega
    · rw [if_neg (hWhole.not.mpr hZero)]
      exact .notANumber
  · rw [if_neg (hGreatest.not.mpr hTop)]
    by_cases hBottom : b.toNat / fractionSpan % 2048 = 0
    · rw [if_pos (hLeast.mpr hBottom)]
      by_cases hZero : b.toNat % fractionSpan = 0
      · rw [dif_pos (hWhole.mpr hZero)]
        refine .zero ?_
        simp only [fractionSpan, signBit] at *
        omega
      · rw [dif_neg (hWhole.not.mpr hZero)]
        refine .finite _ _ _ ?_ ?_ ?_ ?_ ?_ <;> simp only [fractionSpan, signBit] at * <;> omega
    · rw [if_neg (hLeast.not.mpr hBottom)]
      refine .finite _ _ _ ?_ ?_ ?_ ?_ ?_ <;>
        simp only [fractionSpan, signBit, hImplicit] at * <;> omega

end Fields

/-- Exponents and then significands are in the order of the places. -/
theorem then_compare_eq {m n : Nat} {e f : Int} (he : -1074 ≤ e) (hf : -1074 ≤ f)
    (hm : m < 2 * fractionSpan) (hn : n < 2 * fractionSpan)
    (hLong : e = -1074 ∨ fractionSpan ≤ m) (hLong' : f = -1074 ∨ fractionSpan ≤ n) :
    (compare e f).then (compare m n) =
      compare ((e + 1074) * fractionSpan + m) ((f + 1074) * fractionSpan + n) := by
  simp only [fractionSpan] at *
  rcases lt_trichotomy e f with hlt | rfl | hgt
  · rw [Int.compare_eq_lt.mpr hlt, Int.compare_eq_lt.mpr (by omega)]
    rfl
  · have hCast : compare m n = compare (m : Int) n := by
      rcases lt_trichotomy m n with hlt | rfl | hgt
      · rw [Nat.compare_eq_lt.mpr hlt, Int.compare_eq_lt.mpr (by omega)]
      · rw [Nat.compare_eq_eq.mpr rfl, Int.compare_eq_eq.mpr rfl]
      · rw [Nat.compare_eq_gt.mpr hgt, Int.compare_eq_gt.mpr (by omega)]
    rw [Int.compare_eq_eq.mpr rfl, hCast]
    rcases lt_trichotomy (m : Int) n with hlt | heq | hgt
    · rw [Int.compare_eq_lt.mpr hlt, Int.compare_eq_lt.mpr (by omega)]
      rfl
    · rw [Int.compare_eq_eq.mpr heq, Int.compare_eq_eq.mpr (by omega)]
      rfl
    · rw [Int.compare_eq_gt.mpr hgt, Int.compare_eq_gt.mpr (by omega)]
      rfl
  · rw [Int.compare_eq_gt.mpr hgt, Int.compare_eq_gt.mpr (by omega)]
    rfl

theorem compare_neg_neg (x y : Int) : compare (-x) (-y) = (compare x y).swap := by
  rw [Int.compare_swap]
  rcases lt_trichotomy x y with hlt | heq | hgt
  · rw [Int.compare_eq_gt.mpr hlt, Int.compare_eq_gt.mpr (by omega)]
  · rw [Int.compare_eq_eq.mpr heq.symm, Int.compare_eq_eq.mpr (by omega)]
  · rw [Int.compare_eq_lt.mpr hgt, Int.compare_eq_lt.mpr (by omega)]

/-- Of two magnitudes the greater one decides. -/
theorem compare_apply_of_gt {p q : Nat} (h : q < p) (s t : Sign) :
    compare (s.apply p) (t.apply q) = match s with | .negative => .lt | .positive => .gt := by
  cases s with
  | negative =>
    rw [Int.compare_eq_lt]
    cases t <;> simp only [Sign.apply] <;> omega
  | positive =>
    rw [Int.compare_eq_gt]
    cases t <;> simp only [Sign.apply] <;> omega

theorem compare_apply_of_lt {p q : Nat} (h : p < q) (s t : Sign) :
    compare (s.apply p) (t.apply q) = match t with | .negative => .gt | .positive => .lt := by
  rw [← Int.compare_swap, compare_apply_of_gt h]
  cases t <;> rfl

/-- A finite double that is not zero lies between the zeros and the infinities. -/
theorem bounds_of_finite {bits m : Nat} {e : Int} (hm : 0 < m) (he : -1074 ≤ e)
    (hGreatest : e < 972) (hShort : m < 2 * fractionSpan)
    (hBits : (bits % signBit : Nat) = (e + 1074) * fractionSpan + m) :
    0 < bits % signBit ∧ bits % signBit < 2047 * fractionSpan := by
  simp only [fractionSpan] at *
  omega

/-- Two numbers compare as their places do, one case for each pair of kinds. -/
theorem compare_of_reads {a b : Nat} {s t : Sign} {u v : UnpackedFloat} (hu : Reads a s u)
    (hv : Reads b t v) (hu' : u ≠ .notANumber) (hv' : v ≠ .notANumber) :
    u.compare v = some (compare (s.apply (a % signBit : Nat)) (t.apply (b % signBit : Nat))) := by
  have hSpan : 0 < fractionSpan := by decide
  cases hu with
  | notANumber => exact absurd rfl hu'
  | infinity hBits =>
    cases hv with
    | notANumber => exact absurd rfl hv'
    | infinity hBits' =>
      rw [hBits, hBits']
      cases s <;> cases t <;> rfl
    | zero hBits' =>
      rw [compare_apply_of_gt (by omega)]
      cases s <;> rfl
    | finite n f hn hf hGreatest hShort hLong hBits' =>
      have hBounds := bounds_of_finite hn hf hGreatest hShort hBits'
      rw [compare_apply_of_gt (by omega)]
      cases s <;> rfl
  | zero hBits =>
    cases hv with
    | notANumber => exact absurd rfl hv'
    | infinity hBits' =>
      rw [compare_apply_of_lt (by omega)]
      cases t <;> rfl
    | zero hBits' =>
      rw [hBits, hBits']
      cases s <;> cases t <;> rfl
    | finite n f hn hf hGreatest hShort hLong hBits' =>
      have hBounds := bounds_of_finite hn hf hGreatest hShort hBits'
      rw [compare_apply_of_lt (by omega)]
      cases t <;> rfl
  | finite m e hm he hGreatest hShort hLong hBits =>
    have hBounds := bounds_of_finite hm he hGreatest hShort hBits
    cases hv with
    | notANumber => exact absurd rfl hv'
    | infinity hBits' =>
      rw [compare_apply_of_lt (by omega)]
      cases t <;> rfl
    | zero hBits' =>
      rw [compare_apply_of_gt (by omega)]
      cases s <;> rfl
    | finite n f hn hf hGreatest' hShort' hLong' hBits' =>
      have hOrder := then_compare_eq he hf hShort hShort' hLong hLong'
      rw [← hBits, ← hBits'] at hOrder
      cases s <;> cases t
      · exact congrArg some ((congrArg Ordering.swap hOrder).trans (compare_neg_neg _ _).symm)
      · have hLt : -(a % signBit : Nat) < ((b % signBit : Nat) : Int) := by omega
        exact congrArg some (Int.compare_eq_lt.mpr hLt).symm
      · have hGt : -(b % signBit : Nat) < ((a % signBit : Nat) : Int) := by omega
        exact congrArg some (Int.compare_eq_gt.mpr hGt).symm
      · exact congrArg some hOrder

/-- The place of a number on the line of all doubles, counted from zero. -/
def place (x : Float) : Int :=
  if x.toBits.toNat < signBit then x.toBits.toNat else signBit - x.toBits.toNat

theorem isNumber_iff {x : Float} :
    Scalar.isNumber x = true ↔ x.toModel.unpack ≠ .notANumber := by
  constructor
  · intro hNumber hUnpack
    change x.toModel.unpack.beq x.toModel.unpack = true at hNumber
    rw [hUnpack] at hNumber
    cases hNumber
  · intro hNumber
    have hReads := reads_unpack x.toBits.toBitVec
    have hSelf := compare_of_reads hReads hReads hNumber hNumber
    change (x.toModel.unpack.compare x.toModel.unpack == some .eq) = true
    rw [beq_iff_eq]
    exact hSelf.trans (congrArg some (Int.compare_eq_eq.mpr rfl))

theorem compare_eq_place {x y : Float} (hx : Scalar.isNumber x = true)
    (hy : Scalar.isNumber y = true) :
    x.toModel.unpack.compare y.toModel.unpack = some (compare (place x) (place y)) := by
  have hPlace (z : Float) : (if signBit ≤ z.toBits.toNat then Sign.negative else .positive).apply
      (z.toBits.toNat % signBit : Nat) = place z := by
    have hLess : z.toBits.toNat < 2 * signBit := z.toBits.toNat_lt
    unfold place
    by_cases hNegative : signBit ≤ z.toBits.toNat
    · rw [if_pos hNegative, if_neg (not_lt.mpr hNegative), Sign.apply,
        Nat.mod_eq_sub_mod hNegative, Nat.mod_eq_of_lt (by omega)]
      omega
    · rw [if_neg hNegative, if_pos (not_le.mp hNegative), Sign.apply,
        Nat.mod_eq_of_lt (not_le.mp hNegative)]
  have hCompare := compare_of_reads (reads_unpack x.toBits.toBitVec)
    (reads_unpack y.toBits.toBitVec) (isNumber_iff.mp hx) (isNumber_iff.mp hy)
  exact hCompare.trans (by rw [← hPlace, ← hPlace]; rfl)

theorem le_iff_compare {x y : Float} :
    x ≤ y ↔ (x.toModel.unpack.compare y.toModel.unpack).any (·.isLE) = true :=
  decide_eq_true_iff

theorem lt_iff_compare {x y : Float} :
    x < y ↔ (x.toModel.unpack.compare y.toModel.unpack == some .lt) = true :=
  decide_eq_true_iff

theorem isNumber_of_compare {x y : Float} {o : Ordering}
    (h : x.toModel.unpack.compare y.toModel.unpack = some o) :
    Scalar.isNumber x = true ∧ Scalar.isNumber y = true := by
  rw [isNumber_iff, isNumber_iff]
  constructor
  · intro hx
    rw [hx] at h
    cases h
  · intro hy
    rw [hy] at h
    cases hx : x.toModel.unpack <;> rw [hx] at h <;> cases h

theorem isNumber_of_le {x y : Float} (h : x ≤ y) :
    Scalar.isNumber x = true ∧ Scalar.isNumber y = true := by
  rw [le_iff_compare, Option.any_eq_true] at h
  obtain ⟨o, hCompare, _⟩ := h
  exact isNumber_of_compare hCompare

theorem le_iff {x y : Float} (hx : Scalar.isNumber x = true) (hy : Scalar.isNumber y = true) :
    x ≤ y ↔ place x ≤ place y := by
  rw [le_iff_compare, compare_eq_place hx hy, Option.any_some, Int.isLE_compare]

theorem lt_iff {x y : Float} (hx : Scalar.isNumber x = true) (hy : Scalar.isNumber y = true) :
    x < y ↔ place x < place y := by
  rw [lt_iff_compare, compare_eq_place hx hy, beq_iff_eq, Option.some_inj, Int.compare_eq_lt]

/-- The total order goes by places, and has the negative zero before the positive. -/
theorem orderKey_eq (x : Float) :
    orderKey x = place x ∧ 0 ≤ place x ∨ orderKey x = place x - 1 ∧ place x ≤ 0 := by
  unfold orderKey place
  simp only
  split <;> omega

theorem toBits_inj {x y : Float} (h : x.toBits = y.toBits) : x = y := by
  obtain ⟨⟨a, ha⟩⟩ := x
  obtain ⟨⟨b, hb⟩⟩ := y
  cases h
  rfl

theorem orderKey_inj {x y : Float} (h : orderKey x = orderKey y) : x = y := by
  apply toBits_inj
  apply UInt64.toNat_inj.mp
  unfold orderKey at h
  simp only at h
  split at h <;> split at h <;> omega

theorem eq_of_not_isNumber {x y : Float} (hx : Scalar.isNumber x = false)
    (hy : Scalar.isNumber y = false) : x = y := by
  have hBits (z : Float) (hz : Scalar.isNumber z = false) :
      z.toBits.toBitVec = packedNaN .binary64 := by
    have hUnpack : unpack .binary64 z.toBits.toBitVec = .notANumber := by
      rw [← Bool.not_eq_true, isNumber_iff, not_not] at hz
      exact hz
    have hFields : ¬(@unpackExponent .binary64 z.toBits.toBitVec = -1#11 →
        @unpackMantissa .binary64 z.toBits.toBitVec = 0#52) := by
      intro h
      have hSign := sign?_unpack _ h
      rw [hUnpack] at hSign
      cases hSign
    rw [Classical.not_imp] at hFields
    exact z.toModel.valid.eq_packedNaN hFields.1 hFields.2
  apply toBits_inj
  apply UInt64.toBitVec_inj.mp
  rw [hBits x hx, hBits y hy]

theorem sign?_eq_none_iff {u : UnpackedFloat} : sign? u = none ↔ u = .notANumber := by
  cases u with
  | notANumber => exact iff_of_true rfl rfl
  | infinity s | zero s | finite s m e hm => exact iff_of_false nofun nofun

theorem isNumber_pack_iff {u : UnpackedFloat} :
    Scalar.isNumber (Float.ofModel (Float.Model.pack u)) = true ↔ u ≠ .notANumber := by
  have hSign := sign?_unpack_pack u
  rw [isNumber_iff, ne_eq, ← sign?_eq_none_iff, ne_eq, ← sign?_eq_none_iff (u := u), ← hSign]
  rfl

theorem normalize_ne_notANumber (mantissa exponent : Int) (s : Sign) :
    UnpackedFloat.normalize .binary64 mantissa exponent s ≠ .notANumber := by
  have hRound (s : Sign) (m : Nat) (e : Int) :
      UnpackedFloat.round .binary64 s m e ≠ .notANumber := by
    delta UnpackedFloat.round roundWithAccuracy
    dsimp only
    rw [ne_eq, dite_eq_iff]
    rintro (⟨_, h⟩ | ⟨_, h⟩) <;> cases h
  unfold UnpackedFloat.normalize
  split
  · exact hRound _ _ _
  · exact nofun
  · exact hRound _ _ _

theorem isFinite_of_sub_self {x : Float} (h : Scalar.IsFinite x) :
    x.toModel.unpack ≠ .notANumber ∧ ∀ s, x.toModel.unpack ≠ .infinity s := by
  have hDifference := isNumber_pack_iff.mp h
  constructor
  · intro hUnpack
    rw [hUnpack] at hDifference
    exact hDifference rfl
  · intro s hUnpack
    rw [hUnpack] at hDifference
    apply hDifference
    cases s <;> rfl

theorem isNumber_add {x y : Float} (hx : Scalar.IsFinite x) (hy : Scalar.IsFinite y) :
    Scalar.isNumber (x + y) = true := by
  obtain ⟨hxNumber, hxFinite⟩ := isFinite_of_sub_self hx
  obtain ⟨hyNumber, hyFinite⟩ := isFinite_of_sub_self hy
  apply isNumber_pack_iff.mpr
  generalize x.toModel.unpack = u at hxNumber hxFinite
  generalize y.toModel.unpack = v at hyNumber hyFinite
  cases u with
  | notANumber => exact absurd rfl hxNumber
  | infinity s => exact absurd rfl (hxFinite s)
  | zero s =>
    cases v with
    | notANumber => exact absurd rfl hyNumber
    | infinity s => exact absurd rfl (hyFinite s)
    | zero t => cases s <;> cases t <;> exact nofun
    | finite t n f hn => exact nofun
  | finite s m e hm =>
    cases v with
    | notANumber => exact absurd rfl hyNumber
    | infinity s => exact absurd rfl (hyFinite s)
    | zero t => exact nofun
    | finite t n f hn => exact normalize_ne_notANumber _ _ _

/-- What is computed from no number is none. -/
theorem not_isNumber_sub {x y : Float}
    (h : Scalar.isNumber x = false ∨ Scalar.isNumber y = false) :
    Scalar.isNumber (x - y) = false := by
  simp only [← Bool.not_eq_true, isNumber_iff, not_not] at h
  rw [← Bool.not_eq_true]
  change ¬Scalar.isNumber (Float.ofModel (Float.Model.pack
    (.sub .binary64 x.toModel.unpack y.toModel.unpack))) = true
  rw [isNumber_pack_iff, not_not]
  rcases h with h | h
  · rw [h]
    rfl
  · rw [h]
    cases x.toModel.unpack <;> rfl

theorem not_isNumber_mul {x y : Float} (h : Scalar.isNumber x = false) :
    Scalar.isNumber (x * y) = false := by
  rw [← Bool.not_eq_true, isNumber_iff, not_not] at h
  rw [← Bool.not_eq_true]
  change ¬Scalar.isNumber (Float.ofModel (Float.Model.pack
    (.mul .binary64 x.toModel.unpack y.toModel.unpack))) = true
  rw [isNumber_pack_iff, not_not, h]
  rfl

end Binary64

instance : Scalar.LawfulNumbers Float where
  eq_of_atMost {x y} hxy hyx := by
    have hxy : Binary64.orderKey x ≤ Binary64.orderKey y := Int.isLE_compare.mp hxy
    have hyx : Binary64.orderKey y ≤ Binary64.orderKey x := Int.isLE_compare.mp hyx
    exact Binary64.orderKey_inj (le_antisymm hxy hyx)
  eq_of_not_isNumber := Binary64.eq_of_not_isNumber
  le_of_atMost {x y} hx hy hxy := by
    have hKey : Binary64.orderKey x ≤ Binary64.orderKey y := Int.isLE_compare.mp hxy
    rw [Binary64.le_iff hx hy]
    rcases Binary64.orderKey_eq x with ⟨hxKey, _⟩ | ⟨hxKey, _⟩ <;>
      rcases Binary64.orderKey_eq y with ⟨hyKey, _⟩ | ⟨hyKey, _⟩ <;> omega
  le_trans {x y z} hxy hyz := by
    obtain ⟨hx, hy⟩ := Binary64.isNumber_of_le hxy
    obtain ⟨_, hz⟩ := Binary64.isNumber_of_le hyz
    rw [Binary64.le_iff hx hy] at hxy
    rw [Binary64.le_iff hy hz] at hyz
    exact (Binary64.le_iff hx hz).mpr (hxy.trans hyz)
  not_lt hx hy := by rw [Binary64.lt_iff hx hy, Binary64.le_iff hy hx, not_lt]
  isNumber_of_le := Binary64.isNumber_of_le
  isNumber_of_lt hxy :=
    Binary64.isNumber_of_compare (beq_iff_eq.mp (Binary64.lt_iff_compare.mp hxy))
  isNumber_of_isFinite hx := Binary64.isNumber_iff.mpr (Binary64.isFinite_of_sub_self hx).1
  isNumber_add := Binary64.isNumber_add

end LeadSheet
