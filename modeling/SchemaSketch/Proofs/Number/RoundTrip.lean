import SchemaSketch.Decimal.Shortest
import SchemaSketch.Proofs.Number.Numerals
import SchemaSketch.Proofs.Number.Rounding

/-!
The text of a double reads back to that double, and to no other.
-/
namespace SchemaSketch.Decimal

open Text

def Numeral.value (n : Numeral) : ℚ :=
  n.significand * 10 ^ n.exponent

/-- What a text reads as: the double that its numeral is rounded to, with the sign in front of it,
or one of those that have a word of their own. -/
def ReadsAs (s : List Char) (x : Float) : Prop :=
  match Binary.ofFloat x with
  | .notANumber => s = "NaN".toList
  | .infinite negative => s = (if negative then "-inf" else "inf").toList
  | .finite negative m q => ∃ u n, s = (if negative then '-' :: u else u) ∧
      Numeral.read? u = some (n, []) ∧ RoundsTo n.value m q

section Unique

variable {s u : List Char} {n : Numeral} {x y : Float}

theorem head_of_read? (h : Numeral.read? u = some (n, [])) :
    ∃ c t, u = c :: t ∧ c.isAlpha = false ∧ c ≠ '-' := by
  obtain ⟨a, ha, rfl⟩ := read?_sound h
  obtain ⟨c, t, rfl, hc⟩ := head_of_magnitude ha
  refine ⟨c, t ++ [], rfl, ?_, ?_⟩
  · by_contra hl
    rw [Bool.not_eq_false] at hl
    rw [List.cons_append, read?_letter hl] at h
    cases h
  · rintro rfl
    exact absurd hc (by decide)

theorem not_word_of_read? (h : Numeral.read? u = some (n, [])) (negative : Bool) :
    (if negative then '-' :: u else u) ∉ ["NaN".toList, "inf".toList, "-inf".toList] := by
  obtain ⟨c, t, rfl, hc, hm⟩ := head_of_read? h
  intro hmem
  simp only [List.mem_cons, List.not_mem_nil, or_false] at hmem
  cases negative <;> obtain he | he | he := hmem <;> cases he <;> revert hc hm <;> decide

theorem eq_of_signed_eq {u' : List Char} {n' : Numeral} {negative negative' : Bool}
    (h : Numeral.read? u = some (n, [])) (h' : Numeral.read? u' = some (n', []))
    (he : (if negative then '-' :: u else u) = if negative' then '-' :: u' else u') :
    negative = negative' ∧ u = u' := by
  obtain ⟨c, t, rfl, -, hc⟩ := head_of_read? h
  obtain ⟨c', t', rfl, -, hc'⟩ := head_of_read? h'
  cases negative <;> cases negative'
  · exact ⟨rfl, he⟩
  · exact absurd (List.cons.inj he).1 hc
  · exact absurd (List.cons.inj he).1.symm hc'
  · exact ⟨rfl, (List.cons.inj he).2⟩

/-- No text reads as two doubles. -/
theorem ReadsAs.unique (hx : ReadsAs s x) (hy : ReadsAs s y) : x = y := by
  apply ofFloat_injective
  unfold ReadsAs at hx hy
  split at hx
  · next hbx =>
    subst hx
    split at hy
    · next hby => rw [hbx, hby]
    · next negative hby => cases negative <;> cases hy
    · next negative m q hby =>
      obtain ⟨u, n, he, hread, -⟩ := hy
      have hne := not_word_of_read? hread negative
      rw [← he] at hne
      exact absurd (by decide) hne
  · next negative hbx =>
    subst hx
    split at hy
    · cases negative <;> cases hy
    · next negative' hby =>
      rw [hbx, hby]
      cases negative <;> cases negative' <;> first | rfl | cases hy
    · next negative' m q hby =>
      obtain ⟨u, n, he, hread, -⟩ := hy
      have hne := not_word_of_read? hread negative'
      rw [← he] at hne
      cases negative <;> exact absurd (by decide) hne
  · next negative m q hbx =>
    obtain ⟨u, n, he, hread, hround⟩ := hx
    have hne := not_word_of_read? hread negative
    rw [← he] at hne
    split at hy
    · rw [hy] at hne
      exact absurd (by decide) hne
    · next negative' hby =>
      rw [hy] at hne
      cases negative' <;> exact absurd (by decide) hne
    · next negative' m' q' hby =>
      obtain ⟨u', n', he', hread', hround'⟩ := hy
      obtain ⟨rfl, rfl⟩ := eq_of_signed_eq hread hread' (he.symm.trans he')
      rw [hread, Option.some_inj, Prod.mk.injEq] at hread'
      obtain ⟨rfl, -⟩ := hread'
      obtain ⟨rfl, rfl⟩ := hround.eq hbx hby hround'
      rw [hbx, hby]

end Unique

section Stretch

variable {m d : ℕ} {q k : ℤ}

theorem zpow_toNat {b : ℚ} (hb : b ≠ 0) (z : ℤ) : b ^ z.toNat = b ^ (-z).toNat * b ^ z := by
  rw [← zpow_natCast, ← zpow_natCast, ← zpow_add₀ hb]
  congr 1
  omega

/-- The unit of a stretch is a quarter of a step, measured in powers of ten. -/
theorem numerator_mul (m : ℕ) (q k : ℤ) : ((Stretch.around m q k).numerator * 10 ^ k : ℚ) =
    (Stretch.around m q k).denominator * 2 ^ (q - 2) := by
  have h2 := zpow_toNat two_ne_zero (q - 2)
  have h10 : (10 : ℚ) ^ k.toNat = _ := zpow_toNat (by norm_num) k
  rw [Int.neg_sub] at h2
  simp only [Stretch.around, Nat.pow_eq]
  push_cast
  rw [h2, h10]
  ring

theorem denominator_pos (m : ℕ) (q k : ℤ) : 0 < (Stretch.around m q k).denominator := by
  simp only [Stretch.around, Nat.pow_eq]
  positivity

theorem cast_numerator_mul (a m : ℕ) (q k : ℤ) :
    ((a * (Stretch.around m q k).numerator : ℕ) * 10 ^ k : ℚ) =
      a * 2 ^ (q - 2) * (Stretch.around m q k).denominator := by
  push_cast
  rw [mul_assoc, numerator_mul]
  ring

theorem cast_denominator_mul (d m : ℕ) (q k : ℤ) :
    ((d * (Stretch.around m q k).denominator : ℕ) * 10 ^ k : ℚ) =
      d * 10 ^ k * (Stretch.around m q k).denominator := by
  push_cast
  ring

theorem scaled_le_iff {x y : ℕ} {a b : ℚ}
    (hx : (x * 10 ^ k : ℚ) = a * (Stretch.around m q k).denominator)
    (hy : (y * 10 ^ k : ℚ) = b * (Stretch.around m q k).denominator) : x ≤ y ↔ a ≤ b := by
  have hden : (0 : ℚ) < (Stretch.around m q k).denominator := by
    exact_mod_cast denominator_pos m q k
  have h10 : (0 : ℚ) < 10 ^ k := by positivity
  rw [← @Nat.cast_le ℚ, ← mul_le_mul_iff_left₀ h10, hx, hy, mul_le_mul_iff_left₀ hden]

theorem numerator_le_iff {a : ℕ} : a * (Stretch.around m q k).numerator ≤
    d * (Stretch.around m q k).denominator ↔ (a * 2 ^ (q - 2) : ℚ) ≤ d * 10 ^ k :=
  scaled_le_iff (cast_numerator_mul a m q k) (cast_denominator_mul d m q k)

theorem le_numerator_iff {a : ℕ} : d * (Stretch.around m q k).denominator ≤
    a * (Stretch.around m q k).numerator ↔ (d * 10 ^ k : ℚ) ≤ a * 2 ^ (q - 2) :=
  scaled_le_iff (cast_denominator_mul d m q k) (cast_numerator_mul a m q k)

theorem two_zpow_eq (q : ℤ) :
    (2 : ℚ) ^ q = 4 * 2 ^ (q - 2) ∧ (2 : ℚ) ^ (q - 1) = 2 * 2 ^ (q - 2) := by
  have hq := two_zpow_add_one (q - 1)
  have hq1 := two_zpow_add_one (q - 2)
  rw [Int.sub_add_cancel] at hq
  rw [show q - 2 + 1 = q - 1 by omega] at hq1
  exact ⟨by linarith, hq1⟩

theorem denominator_le_iff : (Stretch.around m q k).denominator ≤
    (Stretch.around m q k).numerator ↔ (10 ^ k : ℚ) ≤ 2 ^ (q - 2) := by
  have h := @le_numerator_iff m 1 q k 1
  rwa [Nat.one_mul, Nat.one_mul, Nat.cast_one, one_mul, one_mul] at h

/-- The ends of the stretch lie half the way to the neighbours. -/
theorem low_mul (h : 0 < m) (q k : ℤ) :
    ((Stretch.around m q k).low * 2 ^ (q - 2) : ℚ) = m * 2 ^ q - stepDown m q / 2 := by
  obtain ⟨hq, hq1⟩ := two_zpow_eq q
  simp only [Stretch.around, stepDown, Nat.pow_eq]
  split
  · rw [Nat.cast_sub (by omega)]
    push_cast
    rw [hq, hq1]
    ring
  · rw [Nat.cast_sub (by omega)]
    push_cast
    rw [hq]
    ring

theorem high_mul (m : ℕ) (q k : ℤ) :
    ((Stretch.around m q k).high * 2 ^ (q - 2) : ℚ) = m * 2 ^ q + 2 ^ q / 2 := by
  simp only [Stretch.around]
  push_cast
  rw [(two_zpow_eq q).1]
  ring

theorem roundsTo_of_contains (h : Canonical m q) (hm : 0 < m)
    (hc : (Stretch.around m q k).contains d = true) : RoundsTo (d * 10 ^ k) m q := by
  have hclosed : (Stretch.around m q k).closed = (m % 2 == 0) := rfl
  simp only [Stretch.contains, hclosed] at hc
  split at hc
  · next heven =>
    rw [beq_iff_eq] at heven
    simp only [Bool.and_eq_true, decide_eq_true_eq, numerator_le_iff, le_numerator_iff, low_mul hm,
      high_mul] at hc
    exact h.roundsTo hc.1 hc.2 fun hodd => by omega
  · simp only [Bool.and_eq_true, decide_eq_true_eq, ← Nat.not_le, numerator_le_iff,
      le_numerator_iff, low_mul hm, high_mul, not_le] at hc
    refine h.roundsTo hc.1.le hc.2.le fun _ => abs_lt.2 ⟨?_, ?_⟩
    · linarith [stepDown_le m q]
    · linarith

theorem Stretch.contains_of_nearest? {s : Stretch} (h : s.nearest? = some d) :
    s.contains d = true := by
  simp only [nearest?] at h
  split at h
  · next hd hd1 =>
    split at h
    · exact Option.some.inj h ▸ hd
    · exact Option.some.inj h ▸ hd1
  · next hd _ => exact Option.some.inj h ▸ hd
  · next _ hd1 => exact Option.some.inj h ▸ hd1
  · cases h

theorem Stretch.isSome_nearest? {s : Stretch}
    (h : s.contains (s.middle * s.numerator / s.denominator) = true) : s.nearest?.isSome := by
  simp only [nearest?, h]
  split
  · split <;> rfl
  · rfl
  · next hd _ => cases hd
  · next hd _ => cases hd

/-- If the unit is no longer than a quarter of a step, the stretch holds the units that fit below
its middle. -/
theorem contains_div (hm : 0 < m)
    (hk : (Stretch.around m q k).denominator ≤ (Stretch.around m q k).numerator) :
    (Stretch.around m q k).contains ((Stretch.around m q k).middle *
      (Stretch.around m q k).numerator / (Stretch.around m q k).denominator) = true := by
  have hden := denominator_pos m q k
  have hlow : (Stretch.around m q k).low + 1 ≤ (Stretch.around m q k).middle := by
    simp only [Stretch.around]
    split <;> omega
  have hhigh : (Stretch.around m q k).high = (Stretch.around m q k).middle + 2 := rfl
  simp only [Stretch.contains, hhigh]
  generalize (Stretch.around m q k).low = low at hlow ⊢
  generalize (Stretch.around m q k).middle = middle at hlow ⊢
  generalize (Stretch.around m q k).numerator = num at hk ⊢
  generalize (Stretch.around m q k).denominator = den at hk hden ⊢
  have hle := Nat.div_mul_le_self (middle * num) den
  have hlt := Nat.lt_div_mul_add hden (a := middle * num)
  have hstep : low * num + num ≤ middle * num := by
    rw [← Nat.succ_mul]
    exact Nat.mul_le_mul_right num hlow
  have hup : (middle + 2) * num = middle * num + 2 * num := Nat.add_mul middle 2 num
  split <;> simp only [Bool.and_eq_true, decide_eq_true_eq] <;> omega

end Stretch

section Shortest

variable {m d : ℕ} {q k : ℤ}

/-- The last unit that is tried is short enough, whatever the exponent is. -/
theorem last_unit_le : ∀ n ∈ List.range 2046,
    10 ^ (n * 30103 / 100000) * 2 ^ 1076 ≤ 2 ^ n * 10 ^ 325 := by
  decide +kernel

theorem ten_zpow_le (h : Canonical m q) :
    (10 : ℚ) ^ (decimalExponent m q - 19) ≤ 2 ^ (q - 2) := by
  have hlow := h.low
  have hhigh := h.high
  have hlog : m.log2 < 53 := by
    by_cases hm : m = 0
    · rw [hm]
      decide
    · exact (Nat.log2_lt hm).2 h.lt
  obtain ⟨n, hn⟩ := Int.eq_ofNat_of_zero_le (show 0 ≤ q + 1074 by omega)
  have hunit : (10 ^ (n * 30103 / 100000) * 2 ^ 1076 : ℚ) ≤ 2 ^ n * 10 ^ 325 := by
    exact_mod_cast last_unit_le n (List.mem_range.2 (by omega))
  have hq : q - 2 = (n : ℤ) - 1076 := by omega
  have hk : decimalExponent m q - 19 ≤ ((n * 30103 / 100000 : ℕ) : ℤ) - 325 := by
    unfold decimalExponent
    omega
  calc (10 : ℚ) ^ (decimalExponent m q - 19)
      ≤ 10 ^ (((n * 30103 / 100000 : ℕ) : ℤ) - 325) := zpow_le_zpow_right₀ (by norm_num) hk
    _ = 10 ^ (n * 30103 / 100000) / 10 ^ 325 := by
      rw [zpow_sub₀ (by norm_num), zpow_natCast]
      rfl
    _ ≤ 2 ^ n / 2 ^ 1076 := by
      rwa [div_le_div_iff₀ (by positivity) (by positivity)]
    _ = 2 ^ (q - 2) := by
      rw [hq, zpow_sub₀ (by norm_num), zpow_natCast]
      rfl

theorem exists_shortest (h : Canonical m q) (hm : 0 < m) :
    ∃ d k, shortest m q = (d, k) ∧ (Stretch.around m q k).contains d = true := by
  let digits? (i : ℕ) : Option (ℕ × ℤ) :=
    (Stretch.around m q (decimalExponent m q - i)).nearest?.map (·, decimalExponent m q - i)
  have hlast : (digits? 19).isSome := by
    rw [Option.isSome_map]
    exact Stretch.isSome_nearest? (contains_div hm (denominator_le_iff.2 (ten_zpow_le h)))
  have hsome : ((List.range 20).findSome? digits?).isSome :=
    List.findSome?_isSome_iff.2 ⟨19, List.mem_range.2 (by decide), hlast⟩
  obtain ⟨⟨d, k⟩, hd⟩ := Option.isSome_iff_exists.1 hsome
  obtain ⟨i, -, hi⟩ := List.exists_of_findSome?_eq_some hd
  obtain ⟨d', hn, he⟩ := Option.map_eq_some_iff.1 hi
  cases he
  refine ⟨d, _, ?_, Stretch.contains_of_nearest? hn⟩
  change ((List.range 20).findSome? digits?).getD (0, 0) = _
  rw [hd, Option.getD_some]

end Shortest

section Positional

variable {m d : ℕ} {q k : ℤ}

theorem digitsValue_append (s t : List Char) :
    digitsValue (s ++ t) = Nat.ofDigitChars 10 t (digitsValue s) :=
  List.foldl_append

theorem digitsValue_toDigits (d : ℕ) : digitsValue (Nat.toDigits 10 d) = d :=
  Nat.ofDigitChars_toDigits (by decide) (by decide)

theorem digitsValue_replicate (n : ℕ) : digitsValue (List.replicate n '0') = 0 :=
  Nat.ofDigitChars_replicate_zero

theorem isDigit_of_mem_toDigits : ∀ c ∈ Nat.toDigits 10 d, c.isDigit = true :=
  fun _ hc => Nat.isDigit_of_mem_toDigits (by decide) (by decide) hc

theorem isDigit_of_mem_replicate {n : ℕ} : ∀ c ∈ List.replicate n '0', c.isDigit = true :=
  fun _ hc => (List.eq_of_mem_replicate hc).symm ▸ rfl

/-- A point among digits moves their places behind it below one. -/
theorem read?_cut {s : List Char} {places : ℕ} (hs : ∀ c ∈ s, c.isDigit = true)
    (hp : places < s.length) :
    Numeral.read? (s.take (s.length - places) ++ '.' :: s.drop (s.length - places)) =
      some (⟨digitsValue s, -places⟩, []) := by
  have hsplit := List.take_append_drop (s.length - places) s
  have hne : s ≠ [] := List.ne_nil_of_length_pos (Nat.zero_lt_of_lt hp)
  have hread := read?_point (fun c hc => hs c (List.mem_of_mem_take hc))
    (fun c hc => hs c (List.mem_of_mem_drop hc)) (hsplit ▸ hne) .none stops_nil
  have hexp : (0 : ℤ) - ((s.drop (s.length - places)).length : ℤ) = -places := by
    rw [List.length_drop]
    omega
  rwa [List.append_nil, List.append_nil, hsplit, hexp] at hread

/-- Written out with all its places, a number reads as itself. -/
theorem read?_positional (d : ℕ) (k : ℤ) :
    ∃ n, Numeral.read? (positional d k) = some (n, []) ∧ n.value = d * 10 ^ k := by
  unfold positional
  split
  · next hk =>
    have hw : Nat.toDigits 10 d ++ List.replicate k.toNat '0' ∈ oneOrMore Char.isDigit :=
      ⟨fun h => Nat.toDigits_ne_nil (List.append_eq_nil_iff.1 h).1, fun c hc =>
        (List.mem_append.1 hc).elim (isDigit_of_mem_toDigits c) (isDigit_of_mem_replicate c)⟩
    have hread := read?_digits hw .none stops_nil
    rw [List.append_nil, List.append_nil] at hread
    refine ⟨_, hread, ?_⟩
    have hpow : (10 ^ k : ℚ) = 10 ^ k.toNat := by rw [← zpow_natCast, Int.toNat_of_nonneg hk]
    rw [Numeral.value, digitsValue_append, Nat.ofDigitChars_replicate_zero, digitsValue_toDigits,
      hpow]
    push_cast
    ring
  · next hk =>
    dsimp only
    generalize hd : List.replicate ((-k).toNat + 1 - (Nat.toDigits 10 d).length) '0' ++
      Nat.toDigits 10 d = padded
    have hdigit : ∀ c ∈ padded, c.isDigit = true := fun c hc =>
      (List.mem_append.1 (hd ▸ hc)).elim (isDigit_of_mem_replicate c) (isDigit_of_mem_toDigits c)
    have hlen : (-k).toNat < padded.length := by
      rw [← hd, List.length_append, List.length_replicate]
      omega
    refine ⟨_, read?_cut hdigit hlen, ?_⟩
    have hvalue : digitsValue padded = d := by
      rw [← hd, digitsValue_append, digitsValue_replicate]
      exact digitsValue_toDigits d
    have hexp : -((-k).toNat : ℤ) = k := by omega
    rw [Numeral.value, hvalue, hexp]

end Positional

theorem roundsTo_zero {q : ℤ} (h : Canonical 0 q) : RoundsTo 0 0 q := by
  have hdown : 0 ≤ stepDown 0 q := by
    unfold stepDown
    positivity
  have hpos : (0 : ℚ) < 2 ^ q := by positivity
  refine h.roundsTo ?_ ?_ fun hodd => absurd hodd (by decide) <;>
    simp only [Nat.cast_zero, zero_mul] <;> linarith

theorem exists_read?_finiteText {m : ℕ} {q : ℤ} (h : Canonical m q) (negative : Bool) :
    ∃ u n, finiteText negative m q = (if negative then '-' :: u else u) ∧
      Numeral.read? u = some (n, []) ∧ RoundsTo n.value m q := by
  by_cases hm : m = 0
  · subst hm
    have hvalue : Numeral.value ⟨0, 0⟩ = 0 := by simp [Numeral.value]
    exact ⟨['0'], ⟨0, 0⟩, rfl, by decide, hvalue ▸ roundsTo_zero h⟩
  · obtain ⟨d, k, hs, hc⟩ := exists_shortest h (Nat.pos_of_ne_zero hm)
    obtain ⟨n, hread, hvalue⟩ := read?_positional d k
    refine ⟨_, n, by rw [finiteText, if_neg hm, hs], hread, ?_⟩
    rw [hvalue]
    exact roundsTo_of_contains h (Nat.pos_of_ne_zero hm) hc

theorem readsAs_text (x : Float) : ReadsAs (text x).toList x := by
  unfold ReadsAs text
  cases hx : Binary.ofFloat x with
  | notANumber => rfl
  | infinite negative => cases negative <;> rfl
  | finite negative m q =>
    obtain ⟨u, n, hu, hread, hround⟩ := exists_read?_finiteText (canonical_ofFloat hx) negative
    exact ⟨u, n, by rw [← hu, String.toList_ofList], hread, hround⟩

theorem continues_of_mem_positional {d : ℕ} {k : ℤ} {c : Char} (hc : c ∈ positional d k) :
    continues c = true := by
  have hdigit : ∀ c ∈ Nat.toDigits 10 d, continues c = true := fun c hc =>
    continues_of_isDigit (isDigit_of_mem_toDigits c hc)
  have hzero {n : ℕ} : ∀ c ∈ List.replicate n '0', continues c = true := fun c hc =>
    continues_of_isDigit (isDigit_of_mem_replicate c hc)
  unfold positional at hc
  split at hc
  · exact (List.mem_append.1 hc).elim (hdigit c) (hzero c)
  · have hpad {n : ℕ} : ∀ c ∈ List.replicate n '0' ++ Nat.toDigits 10 d, continues c = true :=
      fun c hc => (List.mem_append.1 hc).elim (hzero c) (hdigit c)
    obtain hc | hc := List.mem_append.1 hc
    · exact hpad c (List.mem_of_mem_take hc)
    · obtain rfl | hc := List.mem_cons.1 hc
      · decide
      · exact hpad c (List.mem_of_mem_drop hc)

/-- The text of a double has letters, digits, points and hyphens only. -/
theorem continues_of_mem_text {x : Float} {c : Char} (hc : c ∈ (text x).toList) :
    continues c = true ∨ c = '-' := by
  have hword {s : String} (hs : s.toList.all (fun c => continues c || c == '-') = true)
      (hc : c ∈ s.toList) : continues c = true ∨ c = '-' := by
    have h := List.all_eq_true.1 hs c hc
    rwa [Bool.or_eq_true, beq_iff_eq] at h
  unfold text at hc
  split at hc
  · exact hword (by decide) hc
  · exact hword (by decide) hc
  · exact hword (by decide) hc
  · next negative m q _ =>
    have hmagnitude : ∀ c ∈ if m = 0 then ['0'] else
        positional (shortest m q).1 (shortest m q).2, continues c = true := by
      intro c hc
      split at hc
      · obtain rfl := List.mem_singleton.1 hc
        decide
      · exact continues_of_mem_positional hc
    rw [String.toList_ofList] at hc
    unfold finiteText at hc
    dsimp only at hc
    split at hc
    · exact (List.mem_cons.1 hc).elim Or.inr fun hc => Or.inl (hmagnitude c hc)
    · exact Or.inl (hmagnitude c hc)

end SchemaSketch.Decimal
