import SchemaSketch.Decimal.Numeral
import SchemaSketch.Proofs.Text.Languages

/-!
The grammar of numbers, and that the reader of numbers follows it: what it takes off a text is a
number, and it takes a number as a whole if no letter, digit or point comes next.
-/
namespace SchemaSketch.Decimal

open Text

inductive ExponentValue : Int → List Char → Prop
  | unsigned {d : List Char} : d ∈ oneOrMore Char.isDigit → ExponentValue (digitsValue d) d
  | positive {d : List Char} : d ∈ oneOrMore Char.isDigit → ExponentValue (digitsValue d) ('+' :: d)
  | negative {d : List Char} : d ∈ oneOrMore Char.isDigit →
      ExponentValue (-(digitsValue d : Int)) ('-' :: d)

inductive Exponent : Int → List Char → Prop
  | none : Exponent 0 []
  | some {letter : Char} {e : Int} {x : List Char} : letter = 'e' ∨ letter = 'E' →
      ExponentValue e x → Exponent e (letter :: x)

inductive Magnitude : Float → List Char → Prop
  | whole {w x : List Char} {e : Int} : w ∈ oneOrMore Char.isDigit → Exponent e x →
      Magnitude (Numeral.toFloat ⟨digitsValue w, e⟩) (w ++ x)
  | pointed {w f x : List Char} {e : Int} : w ∈ zeroOrMore Char.isDigit →
      f ∈ zeroOrMore Char.isDigit → w ++ f ≠ [] → Exponent e x →
      Magnitude (Numeral.toFloat ⟨digitsValue (w ++ f), e - (f.length : Int)⟩)
        (w ++ '.' :: (f ++ x))
  | infinity {s : List Char} : s ∈ word "INFINITY" ∨ s ∈ word "INF" → Magnitude infinity s

inductive Number : Float → List Char → Prop
  | unsigned {x : Float} {s : List Char} : Magnitude x s → Number x s
  | positive {x : Float} {s : List Char} : Magnitude x s → Number x ('+' :: s)
  | negative {x : Float} {s : List Char} : Magnitude x s → Number (-x) ('-' :: s)
  | notANumber {s : List Char} : s ∈ word "NAN" → Number notANumber s

def continues (c : Char) : Bool :=
  c.isAlphanum || c == '.'

theorem continues_of_isDigit {c : Char} (h : c.isDigit = true) : continues c = true := by
  simp [continues, Char.isAlphanum, h]

theorem isDigit_of_isAlpha {c : Char} (h : c.isAlpha = true) : c.isDigit = false := by
  have hc := toNat_of_isAlpha h
  have h9 : '9'.val.toNat = 57 := rfl
  have hn : c.val.toNat = c.toNat := rfl
  simp only [Char.isDigit, Bool.and_eq_false_iff, decide_eq_false_iff_not, ge_iff_le,
    UInt32.le_iff_toNat_le]
  omega

theorem continues_of_isAlpha {c : Char} (h : c.isAlpha = true) : continues c = true := by
  simp [continues, Char.isAlphanum, h]

theorem stops_isDigit {r : List Char} (hr : Stops continues r) : Stops Char.isDigit r := by
  intro c hc
  by_contra hd
  rw [Bool.not_eq_false] at hd
  exact absurd (hr c hc) (by simp [continues_of_isDigit hd])

section Exponent

variable {e : Int} {s x r : List Char}

theorem digitsValue?_eq_some_iff {f : Nat → Int} :
    (run1? Char.isDigit s).map (fun (d, r) => (f (digitsValue d), r)) = some (e, r) ↔
      ∃ d ∈ oneOrMore Char.isDigit, f (digitsValue d) = e ∧ Stops Char.isDigit r ∧ d ++ r = s := by
  simp only [Option.map_eq_some_iff, Prod.exists, run1?_eq_some_iff, Prod.mk.injEq]
  constructor
  · intro h
    obtain ⟨d, r, ⟨hd, hr, rfl⟩, rfl, rfl⟩ := h
    exact ⟨d, hd, rfl, hr, rfl⟩
  · intro h
    obtain ⟨d, hd, rfl, hr, rfl⟩ := h
    exact ⟨d, r, ⟨hd, hr, rfl⟩, rfl, rfl⟩

theorem exponentValue?_eq_some_iff :
    exponentValue? s = some (e, r) ↔
      ∃ x, ExponentValue e x ∧ Stops Char.isDigit r ∧ x ++ r = s := by
  constructor
  · intro h
    unfold exponentValue? at h
    split at h
    · obtain ⟨d, hd, rfl, hr, rfl⟩ := (digitsValue?_eq_some_iff (f := fun n => -(n : Int))).1 h
      exact ⟨_, .negative hd, hr, rfl⟩
    · obtain ⟨d, hd, rfl, hr, rfl⟩ := (digitsValue?_eq_some_iff (f := fun n => (n : Int))).1 h
      exact ⟨_, .positive hd, hr, rfl⟩
    · obtain ⟨d, hd, rfl, hr, rfl⟩ := (digitsValue?_eq_some_iff (f := fun n => (n : Int))).1 h
      exact ⟨_, .unsigned hd, hr, rfl⟩
  · intro h
    obtain ⟨x, hx, hr, rfl⟩ := h
    cases hx with
    | unsigned hd =>
      have hv := (digitsValue?_eq_some_iff (f := fun n => (n : Int))).2 ⟨x, hd, rfl, hr, rfl⟩
      cases x with
      | nil => exact absurd rfl hd.1
      | cons c d =>
        have hc := hd.2 c List.mem_cons_self
        rw [exponentValue?]
        · exact hv
        · intro t he
          cases he
          exact absurd hc (by decide)
        · intro t he
          cases he
          exact absurd hc (by decide)
    | positive hd =>
      exact (digitsValue?_eq_some_iff (f := fun n => (n : Int))).2 ⟨_, hd, rfl, hr, rfl⟩
    | negative hd =>
      exact (digitsValue?_eq_some_iff (f := fun n => -(n : Int))).2 ⟨_, hd, rfl, hr, rfl⟩

theorem exponentAfter_sound (s : List Char) :
    ∃ x, Exponent (exponentAfter s).1 x ∧ x ++ (exponentAfter s).2 = s := by
  unfold exponentAfter
  split
  · next c s =>
    split
    · next hl =>
      cases h : exponentValue? s with
      | none => exact ⟨[], .none, rfl⟩
      | some v =>
        obtain ⟨x, hx, -, he⟩ := exponentValue?_eq_some_iff.1 h
        exact ⟨c :: x, .some hl hx, congrArg (c :: ·) he⟩
    · exact ⟨[], .none, rfl⟩
  · exact ⟨[], .none, rfl⟩

theorem exponentAfter_append (h : Exponent e x) (hr : Stops continues r) :
    exponentAfter (x ++ r) = (e, r) := by
  cases h with
  | none =>
    cases r with
    | nil => rfl
    | cons c r =>
      have hc : ¬ (c = 'e' ∨ c = 'E') := by
        rintro (rfl | rfl) <;> exact absurd (hr _ rfl) (by decide)
      simp only [exponentAfter, List.nil_append, if_neg hc]
  | some hl hx =>
    have he := exponentValue?_eq_some_iff.2 ⟨_, hx, stops_isDigit hr, rfl⟩
    rw [List.cons_append, exponentAfter, if_pos hl, he, Option.getD_some]

end Exponent

theorem keyword?_of_stops {k : Char} {w s : List Char} (hk : k.isUpper = true)
    (hs : Stops continues s) : keyword? (k :: w) s = none := by
  cases s with
  | nil => rfl
  | cons c s =>
    rw [keyword?, if_neg]
    rintro rfl
    have hc := continues_of_isAlpha (isAlpha_of_toUpper hk)
    rw [hs c rfl] at hc
    cases hc

section Number

variable {x : Float} {n : Numeral} {s r : List Char}

theorem read?_sound (h : Numeral.read? s = some (n, r)) :
    ∃ a, Magnitude n.toFloat a ∧ a ++ r = s := by
  have hw : s.takeWhile Char.isDigit ∈ zeroOrMore Char.isDigit := fun c hc =>
    List.mem_takeWhile_imp hc
  have hs := List.takeWhile_append_dropWhile (p := Char.isDigit) (l := s)
  simp only [Numeral.read?] at h
  split at h
  · next t ht =>
    have hf : t.takeWhile Char.isDigit ∈ zeroOrMore Char.isDigit := fun c hc =>
      List.mem_takeWhile_imp hc
    have ht' := List.takeWhile_append_dropWhile (p := Char.isDigit) (l := t)
    obtain ⟨x, hx, he⟩ := exponentAfter_sound (t.dropWhile Char.isDigit)
    split at h
    · cases h
    · next hn =>
      simp only [Numeral.withExponent, Option.some.injEq, Prod.mk.injEq] at h
      obtain ⟨rfl, rfl⟩ := h
      refine ⟨_, .pointed hw hf ?_ hx, ?_⟩
      · simpa using hn
      · rw [List.append_assoc, List.cons_append, List.append_assoc, he, ht', ← ht, hs]
  · obtain ⟨x, hx, he⟩ := exponentAfter_sound (s.dropWhile Char.isDigit)
    split at h
    · cases h
    · next hn =>
      simp only [Numeral.withExponent, Option.some.injEq, Prod.mk.injEq] at h
      obtain ⟨rfl, rfl⟩ := h
      have hm := Magnitude.whole ⟨by simpa using hn, hw⟩ hx
      simp only [List.append_nil, List.length_nil, Int.cast_ofNat_Int, Int.sub_zero]
      exact ⟨_, hm, by rw [List.append_assoc, he, hs]⟩

theorem magnitude?_sound (h : magnitude? s = some (x, r)) : ∃ a, Magnitude x a ∧ a ++ r = s := by
  simp only [magnitude?] at h
  split at h
  · next n t hn =>
    cases h
    exact read?_sound hn
  · split at h
    · next t ht =>
      cases h
      obtain ⟨a, ha, he⟩ := keyword?_eq_some_iff.1 ht
      exact ⟨a, .infinity (Or.inl ha), he⟩
    · obtain ⟨t, ht, he⟩ := Option.map_eq_some_iff.1 h
      cases he
      obtain ⟨a, ha, he⟩ := keyword?_eq_some_iff.1 ht
      exact ⟨a, .infinity (Or.inr ha), he⟩

theorem number?_sound (h : number? s = some (x, r)) : ∃ a, Number x a ∧ a ++ r = s := by
  unfold number? at h
  split at h
  · obtain ⟨⟨y, t⟩, hy, he⟩ := Option.map_eq_some_iff.1 h
    cases he
    obtain ⟨a, ha, rfl⟩ := magnitude?_sound hy
    exact ⟨_, .negative ha, rfl⟩
  · obtain ⟨a, ha, rfl⟩ := magnitude?_sound h
    exact ⟨_, .positive ha, rfl⟩
  · obtain h | ⟨-, h⟩ := Option.or_eq_some_iff.1 h
    · obtain ⟨a, ha, rfl⟩ := magnitude?_sound h
      exact ⟨a, .unsigned ha, rfl⟩
    · obtain ⟨t, ht, he⟩ := Option.map_eq_some_iff.1 h
      cases he
      obtain ⟨a, ha, he⟩ := keyword?_eq_some_iff.1 ht
      exact ⟨a, .notANumber ha, he⟩

/-- A number begins with a character that could also go on with one. -/
theorem head_of_magnitude (h : Magnitude x s) : ∃ c t, s = c :: t ∧ continues c = true := by
  have hdigits {w t : List Char} (hw : w ∈ oneOrMore Char.isDigit) :
      ∃ c u, w ++ t = c :: u ∧ continues c = true := by
    cases w with
    | nil => exact absurd rfl hw.1
    | cons c w => exact ⟨c, w ++ t, rfl, continues_of_isDigit (hw.2 c List.mem_cons_self)⟩
  cases h with
  | whole hw hx => exact hdigits hw
  | @pointed w f x e hw hf hn hx =>
    cases w with
    | nil => exact ⟨_, _, rfl, by decide⟩
    | cons c w => exact hdigits ⟨by simp, hw⟩
  | infinity h =>
    obtain ⟨c, t, rfl, hc⟩ : ∃ c t, s = c :: t ∧ c.isAlpha = true := by
      obtain h | h := h <;> exact head_of_word (by decide) h
    exact ⟨c, t, rfl, continues_of_isAlpha hc⟩

theorem stops_exponent {x : List Char} {e : Int} (hx : Exponent e x) (hr : Stops continues r) :
    Stops (fun c => c.isDigit || c == '.') (x ++ r) := by
  cases hx with
  | none =>
    intro c hc
    have hc := hr c hc
    rw [continues, Char.isAlphanum, Bool.or_assoc, Bool.or_eq_false_iff] at hc
    exact hc.2
  | some hl hx =>
    apply stops_cons
    obtain rfl | rfl := hl <;> rfl

theorem read?_digits {w x : List Char} {e : Int} (hw : w ∈ oneOrMore Char.isDigit)
    (hx : Exponent e x) (hr : Stops continues r) :
    Numeral.read? (w ++ x ++ r) = some (⟨digitsValue w, e⟩, r) := by
  have hs := stops_exponent hx hr
  have hd : Stops Char.isDigit (x ++ r) := fun c hc => (Bool.or_eq_false_iff.1 (hs c hc)).1
  rw [List.append_assoc]
  simp only [Numeral.read?, takeWhile_append_of_stops hw.2 hd, dropWhile_append_of_stops hw.2 hd]
  split
  · next t ht =>
    rw [ht] at hs
    cases hs '.' rfl
  · have hn : w.isEmpty = false := List.isEmpty_eq_false_iff.2 hw.1
    simp [hn, Numeral.withExponent, exponentAfter_append hx hr]

theorem read?_point {w f x : List Char} {e : Int} (hw : w ∈ zeroOrMore Char.isDigit)
    (hf : f ∈ zeroOrMore Char.isDigit) (hn : w ++ f ≠ []) (hx : Exponent e x)
    (hr : Stops continues r) :
    Numeral.read? (w ++ '.' :: (f ++ x) ++ r) =
      some (⟨digitsValue (w ++ f), e - (f.length : Int)⟩, r) := by
  have hp : Stops Char.isDigit ('.' :: (f ++ (x ++ r))) := stops_cons rfl
  have hd : Stops Char.isDigit (x ++ r) := fun c hc =>
    (Bool.or_eq_false_iff.1 (stops_exponent hx hr c hc)).1
  have hn : ¬ (w.isEmpty && f.isEmpty) = true := by simpa using hn
  rw [List.append_assoc, List.cons_append, List.append_assoc]
  simp only [Numeral.read?, takeWhile_append_of_stops hw hp, dropWhile_append_of_stops hw hp,
    takeWhile_append_of_stops hf hd, dropWhile_append_of_stops hf hd, if_neg hn,
    Numeral.withExponent, exponentAfter_append hx hr]

theorem read?_letter {c : Char} (hc : c.isAlpha = true) (t : List Char) :
    Numeral.read? (c :: t) = none := by
  simp only [Numeral.read?, List.takeWhile_cons, List.dropWhile_cons, isDigit_of_isAlpha hc]
  split
  · next u hu =>
    cases hu
    cases hc
  · rfl

theorem magnitude?_append (h : Magnitude x s) (hr : Stops continues r) :
    magnitude? (s ++ r) = some (x, r) := by
  cases h with
  | whole hw hx => rw [magnitude?, read?_digits hw hx hr]
  | pointed hw hf hn hx => rw [magnitude?, read?_point hw hf hn hx hr]
  | infinity h =>
    obtain ⟨c, t, hs, hc⟩ : ∃ c t, s = c :: t ∧ c.isAlpha = true := by
      obtain h | h := h <;> exact head_of_word (by decide) h
    have hn : Numeral.read? (s ++ r) = none := hs ▸ read?_letter hc (t ++ r)
    simp only [magnitude?, hn]
    obtain h | h := h
    · rw [keyword?_eq_some_iff.2 ⟨s, h, rfl⟩]
    · -- The longer word is tried first, but the text does not go on with its end.
      have hlong : keyword? "INFINITY".toList (s ++ r) = none :=
        (keyword?_append h "INITY".toList r).trans (keyword?_of_stops (by decide) hr)
      rw [hlong, keyword?_eq_some_iff.2 ⟨s, h, rfl⟩]
      rfl

/-- A number is read as a whole where it ends for sure. -/
theorem number?_append (h : Number x s) (hr : Stops continues r) :
    number? (s ++ r) = some (x, r) := by
  have hunsigned {c : Char} (t : List Char) (hc : continues c = true) :
      number? (c :: t) = (magnitude? (c :: t)).or (nan? (c :: t)) := by
    rw [number?]
    · intro u he
      cases he
      exact absurd hc (by decide)
    · intro u he
      cases he
      exact absurd hc (by decide)
  cases h with
  | unsigned h =>
    obtain ⟨c, t, rfl, hc⟩ := head_of_magnitude h
    rw [List.cons_append, hunsigned _ hc, ← List.cons_append, magnitude?_append h hr]
    rfl
  | positive h => exact magnitude?_append h hr
  | negative h =>
    have hm := magnitude?_append h hr
    simp only [List.cons_append, number?, hm]
    rfl
  | notANumber h =>
    have hs : s.map Char.toUpper = "NAN".toList := h
    obtain ⟨c, t, rfl, hc⟩ := head_of_word (by decide) h
    have hN : c.toUpper = 'N' := (List.cons.inj hs).1
    have hm : magnitude? (c :: t ++ r) = none := by
      simp [magnitude?, read?_letter hc, keyword?, hN]
    rw [List.cons_append, hunsigned _ (continues_of_isAlpha hc), ← List.cons_append, hm, nan?,
      keyword?_eq_some_iff.2 ⟨c :: t, hs, rfl⟩]
    rfl

end Number

end SchemaSketch.Decimal
