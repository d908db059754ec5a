import Mathlib.Algebra.Order.Field.Power
import Mathlib.Tactic.Linarith
import Mathlib.Tactic.Positivity
import Mathlib.Tactic.Ring
import SchemaSketch.Decimal.Binary

/-!
Doubles on the number line: how far apart they are, and which of them a rational is rounded to.
-/
namespace SchemaSketch.Decimal

/-- Only doubles with the least exponent may do without the leading bit. -/
structure Canonical (m : ℕ) (q : ℤ) : Prop where
  lt : m < 2 ^ 53
  low : -1074 ≤ q
  high : q ≤ 971
  full : q ≠ -1074 → 2 ^ 52 ≤ m

theorem canonical_ofFloat {x : Float} {negative : Bool} {m : ℕ} {q : ℤ}
    (h : Binary.ofFloat x = .finite negative m q) : Canonical m q := by
  have hf := Nat.mod_lt x.toBits.toNat (Nat.two_pow_pos 52)
  have he := Nat.mod_lt (x.toBits.toNat / 2 ^ 52) (Nat.two_pow_pos 11)
  simp only [Binary.ofFloat, Nat.pow_eq] at h
  generalize x.toBits.toNat % 2 ^ 52 = fraction at h hf
  generalize x.toBits.toNat / 2 ^ 52 % 2 ^ 11 = exponent at h he
  split at h
  · split at h <;> cases h
  · split at h
    · cases h
      exact ⟨by omega, by omega, by omega, fun hq => absurd rfl hq⟩
    · cases h
      exact ⟨by omega, by omega, by omega, fun _ => by omega⟩

section Bits

variable {x y : Float}

open Float.Model in
/-- All doubles that are no number have the same bits. -/
theorem toBits_of_notANumber (h : Binary.ofFloat x = .notANumber) :
    x.toBits.toNat = 0x7ff8000000000000 := by
  have hvalid := x.toModel.valid.eq_packedNaN
  change @UnpackedFloat.unpackExponent .binary64 x.toBits.toBitVec = _ →
    @UnpackedFloat.unpackMantissa .binary64 x.toBits.toBitVec ≠ _ → x.toBits.toBitVec = _ at hvalid
  simp only [Binary.ofFloat, Nat.pow_eq] at h
  split at h
  · next he =>
    split at h
    · cases h
    · next hf =>
      have hb := hvalid ?_ ?_
      · rw [← UInt64.toNat_toBitVec, hb]
        decide
      · rw [← BitVec.toNat_inj]
        simpa [UnpackedFloat.unpackExponent, Nat.shiftRight_eq_div_pow] using he
      · rw [ne_eq, ← BitVec.toNat_inj]
        simpa [UnpackedFloat.unpackMantissa] using hf
  · split at h <;> cases h

theorem eq_of_toNat_toBits_eq (h : x.toBits.toNat = y.toBits.toNat) : x = y := by
  obtain ⟨⟨bits, hx⟩⟩ := x
  obtain ⟨⟨bits', hy⟩⟩ := y
  obtain rfl : bits = bits' := UInt64.toNat_inj.1 h
  rfl

theorem ofFloat_injective (h : Binary.ofFloat x = Binary.ofFloat y) : x = y := by
  apply eq_of_toNat_toBits_eq
  have hx : x.toBits.toNat < 2 ^ 64 := x.toBits.toBitVec.isLt
  have hy : y.toBits.toNat < 2 ^ 64 := y.toBits.toBitVec.isLt
  by_cases hn : Binary.ofFloat x = .notANumber
  · rw [toBits_of_notANumber hn, toBits_of_notANumber (h ▸ hn)]
  · -- What is taken apart is the sign, the exponent and the fraction, and they are all the bits.
    have hn' : Binary.ofFloat y ≠ .notANumber := h ▸ hn
    simp only [Binary.ofFloat, Nat.pow_eq] at h hn hn'
    split_ifs at h hn hn' <;> simp at h hn hn' <;> omega

end Bits

section Steps

variable {m m' : ℕ} {q q' : ℤ}

theorem two_zpow_add_one (q : ℤ) : (2 : ℚ) ^ (q + 1) = 2 * 2 ^ q := by
  rw [zpow_add_one₀ two_ne_zero, mul_comm]

theorem two_mul_two_zpow_le (hq : q' < q) : (2 * 2 ^ q' : ℚ) ≤ 2 ^ q := by
  rw [← two_zpow_add_one]
  exact zpow_le_zpow_right₀ one_le_two (Int.add_one_le_of_lt hq)

theorem Canonical.full_le (h : Canonical m q) (hq : q ≠ -1074) :
    (2 ^ 52 * 2 ^ q : ℚ) ≤ m * 2 ^ q := by
  have hm : (2 ^ 52 : ℚ) ≤ m := by exact_mod_cast h.full hq
  gcongr

/-- With a smaller exponent all doubles lie a step of their own below the least that has its
leading bit. -/
theorem Canonical.le_of_lt (h' : Canonical m' q') (hq : q' < q) :
    (m' * 2 ^ q' + 2 ^ q' : ℚ) ≤ 2 ^ 52 * 2 ^ q := by
  have hm : (m' + 1 : ℚ) ≤ 2 ^ 53 := by exact_mod_cast h'.lt
  calc (m' * 2 ^ q' + 2 ^ q' : ℚ) = (m' + 1) * 2 ^ q' := by ring
    _ ≤ 2 ^ 53 * 2 ^ q' := by gcongr
    _ = 2 ^ 52 * (2 * 2 ^ q') := by ring
    _ ≤ 2 ^ 52 * 2 ^ q := by gcongr; exact two_mul_two_zpow_le hq

/-- From a double up to the next one it is a step. -/
theorem Canonical.step_le (h : Canonical m q) (h' : Canonical m' q')
    (hlt : (m * 2 ^ q : ℚ) < m' * 2 ^ q') : (m * 2 ^ q + 2 ^ q : ℚ) ≤ m' * 2 ^ q' := by
  have hpos : (0 : ℚ) < 2 ^ q := by positivity
  have hpos' : (0 : ℚ) < 2 ^ q' := by positivity
  by_cases hq : q' < q
  · have hlow := h'.low
    linarith [h'.le_of_lt hq, h.full_le (by omega)]
  · obtain ⟨n, rfl⟩ := Int.exists_add_of_le (Int.not_lt.1 hq)
    have hv : (m' * 2 ^ (q + n) : ℚ) = ((m' * 2 ^ n : ℕ) : ℚ) * 2 ^ q := by
      rw [zpow_add₀ two_ne_zero, zpow_natCast]
      push_cast
      ring
    rw [hv] at hlt ⊢
    have hm : m + 1 ≤ m' * 2 ^ n := by exact_mod_cast lt_of_mul_lt_mul_right hlt hpos.le
    have hm : (m + 1 : ℚ) ≤ (m' * 2 ^ n : ℕ) := by exact_mod_cast hm
    calc (m * 2 ^ q + 2 ^ q : ℚ) = (m + 1) * 2 ^ q := by ring
      _ ≤ _ := by gcongr

theorem Canonical.eq_of_value_eq (h : Canonical m q) (h' : Canonical m' q')
    (he : (m * 2 ^ q : ℚ) = m' * 2 ^ q') : m = m' ∧ q = q' := by
  have hpos : (0 : ℚ) < 2 ^ q := by positivity
  have hpos' : (0 : ℚ) < 2 ^ q' := by positivity
  have hlow := h.low
  have hlow' := h'.low
  obtain hq | rfl | hq := lt_trichotomy q q'
  · linarith [h.le_of_lt hq, h'.full_le (by omega)]
  · exact ⟨by exact_mod_cast mul_right_cancel₀ hpos.ne' he, rfl⟩
  · linarith [h'.le_of_lt hq, h.full_le (by omega)]

/-- The step from a double down to the next one. Below a power of two it is half as long. -/
def stepDown (m : ℕ) (q : ℤ) : ℚ :=
  if m = 2 ^ 52 ∧ q ≠ -1074 then 2 ^ (q - 1) else 2 ^ q

theorem Canonical.le_stepDown (h : Canonical m q) (h' : Canonical m' q')
    (hlt : (m' * 2 ^ q' : ℚ) < m * 2 ^ q) : (m' * 2 ^ q' : ℚ) ≤ m * 2 ^ q - stepDown m q := by
  have hstep := h'.step_le h hlt
  have hpos' : (0 : ℚ) < 2 ^ q' := by positivity
  have hhalf : (2 ^ q : ℚ) = 2 * 2 ^ (q - 1) := by rw [← two_zpow_add_one, Int.sub_add_cancel]
  by_cases hq : q' < q
  · have hq1 : q ≠ -1074 := by have := h'.low; omega
    unfold stepDown
    split
    · next hm =>
      have hm' : (m' + 1 : ℚ) ≤ 2 ^ 53 := by exact_mod_cast h'.lt
      have hle : (2 : ℚ) ^ q' ≤ 2 ^ (q - 1) := zpow_le_zpow_right₀ one_le_two (by omega)
      calc (m' * 2 ^ q' : ℚ) ≤ (2 ^ 53 - 1) * 2 ^ q' := by gcongr; linarith
        _ ≤ (2 ^ 53 - 1) * 2 ^ (q - 1) := by gcongr
        _ = m * 2 ^ q - 2 ^ (q - 1) := by
          rw [hm.1, hhalf]
          push_cast
          ring
    · next hm =>
      have hfull := h.full hq1
      have hm' : (2 ^ 52 + 1 : ℚ) ≤ m := by
        have : 2 ^ 52 + 1 ≤ m := by omega
        exact_mod_cast this
      calc (m' * 2 ^ q' : ℚ) ≤ 2 ^ 52 * 2 ^ q := by linarith [h'.le_of_lt hq]
        _ ≤ (m - 1) * 2 ^ q := by gcongr; linarith
        _ = m * 2 ^ q - 2 ^ q := by ring
  · have hle : (2 : ℚ) ^ q ≤ 2 ^ q' := zpow_le_zpow_right₀ one_le_two (Int.not_lt.1 hq)
    have hpos : (0 : ℚ) < 2 ^ (q - 1) := by positivity
    unfold stepDown
    split <;> linarith

end Steps

/-- A rational that is rounded to `m · 2 ^ q`: less than half a step away from it, or half a step
if it is even, and no double is nearer. -/
structure RoundsTo (v : ℚ) (m : ℕ) (q : ℤ) : Prop where
  close : |v - m * 2 ^ q| < 2 ^ q / 2 ∨ |v - m * 2 ^ q| = 2 ^ q / 2 ∧ m % 2 = 0
  nearest : ∀ x negative m' q', Binary.ofFloat x = .finite negative m' q' →
    |v - m * 2 ^ q| ≤ |v - m' * 2 ^ q'|

section Rounding

variable {v : ℚ} {m m' : ℕ} {q q' : ℤ}

theorem stepDown_le (m : ℕ) (q : ℤ) : stepDown m q ≤ 2 ^ q := by
  unfold stepDown
  split
  · exact zpow_le_zpow_right₀ one_le_two (by omega)
  · exact le_rfl

/-- What lies no farther from a double than half the way to its neighbours is rounded to it. The
half itself is, if the double is even. -/
theorem Canonical.roundsTo (h : Canonical m q) (hlow : m * 2 ^ q - stepDown m q / 2 ≤ v)
    (hhigh : v ≤ m * 2 ^ q + 2 ^ q / 2) (hodd : m % 2 = 1 → |v - m * 2 ^ q| < 2 ^ q / 2) :
    RoundsTo v m q := by
  refine ⟨?_, fun x negative m' q' hx => ?_⟩
  · obtain heven | h1 := Nat.mod_two_eq_zero_or_one m
    · have hle : |v - m * 2 ^ q| ≤ 2 ^ q / 2 :=
        abs_le.2 ⟨by linarith [stepDown_le m q], by linarith⟩
      exact hle.lt_or_eq.imp_right fun he => ⟨he, heven⟩
    · exact Or.inl (hodd h1)
  · have h' := canonical_ofFloat hx
    obtain hlt | heq | hgt := lt_trichotomy (m * 2 ^ q : ℚ) (m' * 2 ^ q')
    · have hstep := h.step_le h' hlt
      calc |v - m * 2 ^ q| ≤ m' * 2 ^ q' - v := abs_le.2 ⟨by linarith, by linarith⟩
        _ ≤ |v - m' * 2 ^ q'| := by rw [abs_sub_comm]; exact le_abs_self _
    · rw [heq]
    · have hstep := h.le_stepDown h' hgt
      calc |v - m * 2 ^ q| ≤ v - m' * 2 ^ q' := abs_le.2 ⟨by linarith, by linarith⟩
        _ ≤ |v - m' * 2 ^ q'| := le_abs_self _

/-- Of two doubles that a rational is rounded to, neither is the smaller one. If they were equally
near, they would be neighbours, and one of them odd. -/
theorem RoundsTo.not_value_lt (hr : RoundsTo v m q) (hr' : RoundsTo v m' q') (h : Canonical m q)
    (h' : Canonical m' q') (he : |v - m * 2 ^ q| = |v - m' * 2 ^ q'|) :
    ¬ (m * 2 ^ q : ℚ) < m' * 2 ^ q' := by
  intro hlt
  have hstep := h.step_le h' hlt
  have hmiddle : v - m * 2 ^ q = m' * 2 ^ q' - v := by
    obtain he | he := abs_eq_abs.1 he <;> linarith
  have habs : |v - m * 2 ^ q| = v - m * 2 ^ q := abs_of_nonneg (by linarith)
  obtain hc | ⟨hc, heven⟩ := hr.close
  · linarith
  · have hnext : m + 1 < 2 ^ 53 := by have := h.lt; omega
    have hcan : Canonical (m + 1) q :=
      ⟨hnext, h.low, h.high, fun hq => (h.full hq).trans (Nat.le_succ m)⟩
    have hval : ((m + 1 : ℕ) * 2 ^ q : ℚ) = m' * 2 ^ q' := by
      push_cast
      linarith
    obtain ⟨rfl, rfl⟩ := hcan.eq_of_value_eq h' hval
    obtain hc' | ⟨-, heven'⟩ := hr'.close
    · linarith
    · omega

theorem RoundsTo.eq {x y : Float} {s s' : Bool} (hx : Binary.ofFloat x = .finite s m q)
    (hy : Binary.ofFloat y = .finite s' m' q') (hr : RoundsTo v m q) (hr' : RoundsTo v m' q') :
    m = m' ∧ q = q' := by
  have h := canonical_ofFloat hx
  have h' := canonical_ofFloat hy
  have he := le_antisymm (hr.nearest y s' m' q' hy) (hr'.nearest x s m q hx)
  have hle := not_lt.1 (hr.not_value_lt hr' h h' he)
  have hge := not_lt.1 (hr'.not_value_lt hr h' h he.symm)
  exact h.eq_of_value_eq h' (le_antisymm hge hle)

end Rounding

end SchemaSketch.Decimal
