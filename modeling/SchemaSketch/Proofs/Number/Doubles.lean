import SchemaSketch.Geometry

/-!
The order of doubles, and where a sum is a number. Two doubles compare as soon as neither of them
is no number, and a finite double plus any number is a number again.
-/
namespace SchemaSketch.Doubles

open Float.Model UnpackedFloat

section Unpacked

variable {a b : UnpackedFloat}

theorem compare_swap (a b : UnpackedFloat) : b.compare a = (a.compare b).map Ordering.swap := by
  have hp {m m' : Nat} {e e' : Int} :
      (compare e' e).then (compare m' m) = ((compare e e').then (compare m m')).swap := by
    rw [Ordering.swap_then, Int.compare_swap, Nat.compare_swap]
  cases a with
  | notANumber => cases b <;> rfl
  | infinity s =>
    cases b with
    | notANumber | zero | finite => cases s <;> rfl
    | infinity t => cases s <;> cases t <;> rfl
  | zero s =>
    cases b with
    | notANumber | zero => rfl
    | infinity t | finite t => cases t <;> rfl
  | finite s m e h =>
    cases b with
    | notANumber | zero => cases s <;> rfl
    | infinity t => cases s <;> cases t <;> rfl
    | finite t m' e' h' =>
      cases s <;> cases t
      · exact congrArg (some ·.swap) hp
      · rfl
      · rfl
      · exact congrArg some hp

theorem compare_self (h : a.isNaN = false) : a.compare a = some .eq := by
  cases a with
  | notANumber => cases h
  | infinity s => cases s <;> rfl
  | zero s => rfl
  | finite s m e hm =>
    have hp : (compare e e).then (compare m m) = .eq := by simp
    cases s with
    | negative => exact congrArg (some ·.swap) hp
    | positive => exact congrArg some hp

theorem isSome_compare (a b : UnpackedFloat) :
    (a.compare b).isSome = (!a.isNaN && !b.isNaN) := by
  cases a with
  | notANumber => cases b <;> rfl
  | infinity s =>
    cases b with
    | notANumber | zero | finite => cases s <;> rfl
    | infinity t => cases s <;> cases t <;> rfl
  | zero s =>
    cases b with
    | notANumber | zero => rfl
    | infinity t | finite t => cases t <;> rfl
  | finite s m e h =>
    cases b with
    | notANumber | zero => cases s <;> rfl
    | infinity t | finite t => cases s <;> cases t <;> rfl

/-- Only the infinities lie beyond the finite numbers. -/
theorem isFinite_of_compare {lo hi : UnpackedFloat} (hl : lo.isFinite = true)
    (hh : hi.isFinite = true) (h : lo.le a = true) (h' : a.le hi = true) : a.isFinite = true := by
  cases a with
  | notANumber => cases lo <;> cases h
  | infinity s =>
    cases s with
    | negative =>
      cases lo with
      | notANumber | infinity => cases hl
      | zero t | finite t => cases t <;> cases h
    | positive =>
      cases hi with
      | notANumber | infinity => cases hh
      | zero t | finite t => cases t <;> cases h'
  | zero s => rfl
  | finite s m e hm => rfl

theorem isNaN_unpack_iff (bits : BitVec Format.binary64.numBits) :
    (UnpackedFloat.unpack Format.binary64 bits).isNaN = true ↔
      unpackExponent bits = -1#_ ∧ unpackMantissa bits ≠ 0#_ := by
  delta UnpackedFloat.unpack
  dsimp only
  by_cases he : unpackExponent bits = -1#_
  · rw [if_pos he]
    by_cases hm : unpackMantissa bits = 0#_
    · rw [if_pos hm]
      exact iff_of_false Bool.false_ne_true fun h => h.2 hm
    · rw [if_neg hm]
      exact iff_of_true rfl ⟨he, hm⟩
  · rw [if_neg he]
    have hn : ¬ (unpackExponent bits = -1#_ ∧ unpackMantissa bits ≠ 0#_) := fun h => he h.1
    by_cases hz : unpackExponent bits = 0#_
    · rw [if_pos hz]
      by_cases hm : unpackMantissa bits = 0#_
      · rw [dif_pos hm]
        exact iff_of_false Bool.false_ne_true hn
      · rw [dif_neg hm]
        exact iff_of_false Bool.false_ne_true hn
    · rw [if_neg hz]
      exact iff_of_false Bool.false_ne_true hn

/-- What is packed as a number is unpacked as a number. -/
theorem isNaN_pack (h : a.isNaN = false) : (Float.Model.pack a).isNaN = false := by
  rw [← Bool.not_eq_true, Float.Model.isNaN, Float.Model.unpack, Float.Model.pack,
    isNaN_unpack_iff]
  simp only
  fun_cases UnpackedFloat.pack Format.binary64 a with
  | case1 => cases h
  | case2 s => simp [packedInfinity]
  | case3 s => simp [packedZero]
  | case4 s m e hm biasedExponent h => simp [packedInfinity]
  | case5 s m e hm actualMantissaBits biasedExponent hsmall hnormal =>
    -- The exponent of a finite number stays below the one that marks infinities.
    have hbits : (2 : Nat) ^ Format.binary64.exponentBits = 2048 := rfl
    have hones : (-BitVec.ofNat Format.binary64.exponentBits 1).toNat = 2047 := rfl
    intro hc
    have he := congrArg BitVec.toNat hc.1
    simp only [unpackExponent_packComponents, BitVec.toNat_ofNat, hbits, hones] at he
    omega
  | case6 s m e hm actualMantissaBits biasedExponent hsmall hnormal => simp

theorem isNaN_dite {p : Prop} [Decidable p] {f : p → UnpackedFloat} {g : ¬ p → UnpackedFloat}
    (hf : ∀ h, (f h).isNaN = false) (hg : ∀ h, (g h).isNaN = false) :
    (dite p f g).isNaN = false := by
  split
  · exact hf _
  · exact hg _

theorem isNaN_round (s : Sign) (m : Nat) (e : Int) :
    (UnpackedFloat.round Format.binary64 s m e).isNaN = false := by
  delta UnpackedFloat.round roundWithAccuracy
  exact isNaN_dite (fun _ => rfl) fun _ => rfl

theorem isNaN_normalize (m : Int) (e : Int) (s : Sign) :
    (UnpackedFloat.normalize Format.binary64 m e s).isNaN = false := by
  unfold UnpackedFloat.normalize
  split
  · exact isNaN_round .negative _ e
  · rfl
  · exact isNaN_round .positive _ e

theorem isNaN_add_unpacked (ha : a.isFinite = true) (hb : b.isNaN = false) :
    (UnpackedFloat.add Format.binary64 a b).isNaN = false := by
  cases a with
  | notANumber | infinity => cases ha
  | zero s =>
    cases b with
    | notANumber => cases hb
    | infinity t | finite t => rfl
    | zero t => cases s <;> cases t <;> rfl
  | finite s m e hm =>
    cases b with
    | notANumber => cases hb
    | infinity t | zero t => rfl
    | finite t m' e' hm' => exact isNaN_normalize _ _ _

end Unpacked

variable {x y : Float}

theorem isNaN_add (hx : x.isFinite = true) (hy : y.isNaN = false) : (x + y).isNaN = false :=
  isNaN_pack (isNaN_add_unpacked hx hy)

theorem isNaN_neg (hx : x.isNaN = false) : (-x).isNaN = false := by
  refine isNaN_pack ?_
  have hx : x.toModel.unpack.isNaN = false := hx
  cases h : x.toModel.unpack with
  | notANumber =>
    rw [h] at hx
    cases hx
  | infinity s | zero s | finite s => rfl

theorem isNaN_of_isFinite (hx : x.isFinite = true) : x.isNaN = false := by
  have hx : x.toModel.unpack.isFinite = true := hx
  change x.toModel.unpack.isNaN = false
  cases h : x.toModel.unpack with
  | notANumber =>
    rw [h] at hx
    cases hx
  | infinity s | zero s | finite s => rfl

theorem le_iff : x ≤ y ↔ x.toModel.unpack.le y.toModel.unpack = true :=
  decide_eq_true_iff

theorem lt_iff : x < y ↔ x.toModel.unpack.lt y.toModel.unpack = true :=
  decide_eq_true_iff

theorem isFinite_of_between {lo hi : Float} (hl : lo.isFinite = true) (hh : hi.isFinite = true)
    (h : lo ≤ x) (h' : x ≤ hi) : x.isFinite = true :=
  isFinite_of_compare hl hh (le_iff.1 h) (le_iff.1 h')

theorem le_self (hx : x.isNaN = false) : x ≤ x := by
  have hc : x.toModel.unpack.compare x.toModel.unpack = some .eq := compare_self hx
  rw [le_iff, UnpackedFloat.le, hc]
  rfl

theorem isNaN_of_le (h : x ≤ y) : x.isNaN = false ∧ y.isNaN = false := by
  have hs := isSome_compare x.toModel.unpack y.toModel.unpack
  rw [le_iff, UnpackedFloat.le] at h
  cases hc : x.toModel.unpack.compare y.toModel.unpack with
  | none =>
    rw [hc] at h
    cases h
  | some o =>
    rw [hc] at hs
    obtain ⟨hx, hy⟩ := Bool.and_eq_true_iff.1 hs.symm
    exact ⟨(Bool.not_eq_true' _).mp hx, (Bool.not_eq_true' _).mp hy⟩

theorem le_of_not_lt (hx : x.isNaN = false) (hy : y.isNaN = false) (h : ¬ x < y) : y ≤ x := by
  have hs := isSome_compare x.toModel.unpack y.toModel.unpack
  have hn : (!x.toModel.unpack.isNaN && !y.toModel.unpack.isNaN) = true := by
    have hx : x.toModel.unpack.isNaN = false := hx
    have hy : y.toModel.unpack.isNaN = false := hy
    rw [hx, hy]
    rfl
  obtain ⟨o, ho⟩ := Option.isSome_iff_exists.1 (hs.trans hn)
  rw [lt_iff, UnpackedFloat.lt, ho] at h
  rw [le_iff, UnpackedFloat.le, compare_swap x.toModel.unpack, ho]
  cases o with
  | lt => exact absurd rfl h
  | eq | gt => rfl

end SchemaSketch.Doubles
