import SchemaSketch.Proofs.Text.Shares

/-!
Which characters keep their columns in front of what follows them. As long as no joiner has come,
a character either adds its own columns, or it is a selector with its column to come, or columns
are lost: it has no width of its own, or it joins with what follows.
-/
namespace SchemaSketch.Text

def coversRange : List (Nat × Nat) → Nat → Nat → Bool
  | [], _, _ => false
  | (low, high) :: ranges, first, last =>
    if first < low then false
    else if last ≤ high then true
    else if high < first then coversRange ranges first last
    else false

section Tables

variable {ranges : List (Nat × Nat)} {n low high : Nat} {c : Char}

theorem exists_of_covers (h : covers ranges n = true) : ∃ r ∈ ranges, r.1 ≤ n ∧ n ≤ r.2 := by
  induction ranges with
  | nil => cases h
  | cons r ranges ih =>
    rw [covers] at h
    split at h
    · cases h
    split at h
    · exact ⟨r, List.mem_cons_self, by omega, by omega⟩
    · obtain ⟨q, hq, hn⟩ := ih h
      exact ⟨q, List.mem_cons_of_mem r hq, hn⟩

theorem bounds_of_covers (h : covers ranges n = true)
    (hr : ∀ r ∈ ranges, low ≤ r.1 ∧ r.2 ≤ high) : low ≤ n ∧ n ≤ high := by
  obtain ⟨r, hm, hl, hh⟩ := exists_of_covers h
  have hb := hr r hm
  omega

theorem not_covers (hr : ∀ r ∈ ranges, n < r.1 ∨ r.2 < n) : covers ranges n = false := by
  by_contra h
  obtain ⟨r, hm, hl, hh⟩ := exists_of_covers (Bool.of_not_eq_false h)
  have hb := hr r hm
  omega

theorem covers_of_coversRange (h : coversRange ranges low high = true) (hl : low ≤ n)
    (hh : n ≤ high) : covers ranges n = true := by
  induction ranges with
  | nil => cases h
  | cons r ranges ih =>
    rw [coversRange] at h
    rw [covers]
    split at h
    · cases h
    rw [if_neg (by omega)]
    split at h
    · exact if_pos (by omega)
    split at h
    · rw [if_neg (by omega)]
      exact ih h
    · cases h

theorem isAlef_bounds (h : isAlef n = true) : 0x622 ≤ n ∧ n ≤ 0x882 :=
  bounds_of_covers h (by decide)

theorem isLam_bounds (h : isLam n = true) : 0x644 ≤ n ∧ n ≤ 0x8C7 :=
  bounds_of_covers h (by decide)

theorem isSubscriptLetter_bounds (h : isSubscriptLetter n = true) : 0x1780 ≤ n ∧ n ≤ 0x17AF :=
  bounds_of_covers h (by decide)

theorem isConsonant_bounds (h : isConsonant n = true) : 0x2D31 ≤ n ∧ n ≤ 0x2D6F :=
  bounds_of_covers h (by decide)

theorem modifierBase_bounds (h : covers emojiModifierBase n = true) : 0x261D ≤ n ∧ n ≤ 0x1FAFA :=
  bounds_of_covers h (by decide)

/-- No character that a selector shows as an emoji joins with a character before it. -/
theorem variationBase_bounds (h : covers variationBase n = true) :
    0x23 ≤ n ∧ n ≤ 0xAE ∨ 0x203C ≤ n ∧ n ≤ 0x2B55 ∨ 0x3030 ≤ n ∧ n ≤ 0x3299 ∨
      0x1F004 ≤ n ∧ n ≤ 0x1F3F7 ∨ 0x1F408 ≤ n := by
  have hall : ∀ r ∈ variationBase, 0x23 ≤ r.1 ∧ r.2 ≤ 0xAE ∨ 0x203C ≤ r.1 ∧ r.2 ≤ 0x2B55 ∨
      0x3030 ≤ r.1 ∧ r.2 ≤ 0x3299 ∨ 0x1F004 ≤ r.1 ∧ r.2 ≤ 0x1F3F7 ∨ 0x1F408 ≤ r.1 := by
    decide +kernel
  obtain ⟨r, hm, hl, hh⟩ := exists_of_covers h
  have hb := hall r hm
  omega

theorem baseWidth_eq_zero (h : covers zeroWidth c.toNat = true) : baseWidth c = 0 := by
  rw [baseWidth]
  exact if_pos h

theorem baseWidth_eq_one (hz : covers zeroWidth c.toNat = false) (hw : covers wide c.toNat = false)
    (hn : c.toNat ≠ 0x17D8) : baseWidth c = 1 := by
  simp [baseWidth, hz, hw, hn]

theorem baseWidth_of_narrow (h : c.toNat ≤ 0xA0) : baseWidth c = 1 := by
  refine baseWidth_eq_one (not_covers fun r hr => ?_) (not_covers fun r hr => ?_) (by omega)
  · have hall : ∀ r ∈ zeroWidth, 0xA0 < r.1 := by decide +kernel
    have hr := hall r hr
    omega
  · have hall : ∀ r ∈ wide, 0xA0 < r.1 := by decide +kernel
    have hr := hall r hr
    omega

theorem charWidth_of_narrow (h : c.toNat ≤ 0xA0) : charWidth c = 1 := by
  rw [charWidth, baseWidth_of_narrow h]
  split <;> rfl

theorem isRegional_bounds (h : isRegional n = true) : 0x1F1E6 ≤ n ∧ n ≤ 0x1F1FF := by
  simpa [isRegional] using h

theorem isSkinTone_bounds (h : isSkinTone n = true) : 0x1F3FB ≤ n ∧ n ≤ 0x1F3FF := by
  simpa [isSkinTone] using h

theorem baseWidth_of_regional (h : isRegional c.toNat = true) : baseWidth c = 1 := by
  obtain ⟨hl, hh⟩ := isRegional_bounds h
  refine baseWidth_eq_one (not_covers fun r hr => ?_) (not_covers fun r hr => ?_) (by omega)
  · have hall : ∀ r ∈ zeroWidth, r.2 < 0x1F1E6 ∨ 0x1F1FF < r.1 := by decide +kernel
    have hr := hall r hr
    omega
  · have hall : ∀ r ∈ wide, r.2 < 0x1F1E6 ∨ 0x1F1FF < r.1 := by decide +kernel
    have hr := hall r hr
    omega

/-- Marks without a shape take no columns of their own. -/
theorem covers_of_isTransparent (h : isTransparent n = true) : covers zeroWidth n = true := by
  have hall : ∀ r ∈ [(0x34F, 0x34F), (0x17B4, 0x17B5), (0x180B, 0x180D), (0x180F, 0x180F),
      (0xFE00, 0xFE0F), (0xE0100, 0xE01EF)], coversRange zeroWidth r.1 r.2 = true := by
    decide +kernel
  obtain ⟨r, hm, hl, hh⟩ := exists_of_covers h
  exact covers_of_coversRange (hall r hm) hl hh

end Tables

def Context.unjoined : Context → Bool
  | .joinedEmoji | .joinedKeycap | .joinedRegional | .joinedPairs | .joinedPairsAndHalf | .tagEnd
  | .tagDigits _ | .tagLetters _ | .yaAfterVowel => false
  | .lamed joined | .ya joined | .consonant joined | .orkhonI joined => !joined
  | _ => true

inductive Shrinks (n : Nat) : Context → Prop
  | lineEnd : n = 0xD → Shrinks n .lineFeed
  | lamAlef : isLam n = true → Shrinks n .alef
  | skinTone : covers emojiModifierBase n = true → Shrinks n .skinTone
  | toneLetters : 0xA4F8 ≤ n → n ≤ 0xA4FB → Shrinks n .toneLetter
  | consonants : isConsonant n = true → Shrinks n .consonantAfterJoiner
  | vowelAi : n = 0x16D63 → Shrinks n .vowelAi
  | vowelE : n = 0x16D63 ∨ n = 0x16D67 ∨ n = 0x16D69 → Shrinks n .vowelE

inductive Extends (n : Nat) : Context → Context → Prop
  | consonant : n = 0x2D7F → Extends n (.consonant false) .consonantAfterJoiner
  | regional : isRegional n = true → Extends n .regional .regionals
  | regionals : isRegional n = true → Extends n .regionals .regionals
  | vowelE : n = 0x16D68 → Extends n .vowelE .vowelE

section Steps

variable {n : Nat} {c : Char} {context next : Context} {add : Int}

theorem Kind.unjoined (h : Kind n context) : context.unjoined = true := by
  cases h <;> rfl

theorem Extends.unjoined (h : Extends n context next) : next.unjoined = true := by
  cases h <;> rfl

theorem toCome_of_unjoined (h : context.unjoined = true) : context.toCome = 0 := by
  cases context with
  | joinedPairs => cases h
  | _ => rfl

theorem Shrinks.joinedShare? (h : Shrinks n context) (hn : n ≠ 0xD) :
    ∃ add next, joinedShare? context n = some (add, next) ∧ add ≤ 0 ∧ next.toCome = 0 := by
  cases h with
  | lineEnd h => exact absurd h hn
  | lamAlef h => exact ⟨0, .plain, if_pos h, by decide, rfl⟩
  | skinTone h => exact ⟨0, .emoji, if_pos h, by decide, rfl⟩
  | toneLetters hl hh => exact ⟨0, .plain, if_pos ⟨hl, hh⟩, by decide, rfl⟩
  | consonants h => exact ⟨-1, .plain, if_pos h, by decide, rfl⟩
  | vowelAi h => exact ⟨0, .plain, if_pos h, by decide, rfl⟩
  | vowelE h =>
    obtain rfl | rfl | rfl := h
    · exact ⟨0, .plain, rfl, by decide, rfl⟩
    · exact ⟨0, .vowelAi, rfl, by decide, rfl⟩
    · exact ⟨0, .plain, rfl, by decide, rfl⟩

/-- Without a joiner, what joins adds one column, or it shrinks, or it has no width at all. -/
theorem joinedShare?_cases (hc : context.unjoined = true)
    (h : joinedShare? context n = some (add, next)) :
    add = 1 ∧ Extends n context next ∨
      add ≤ 0 ∧ next.toCome = 0 ∧ (covers zeroWidth n = true ∨ Shrinks n context) := by
  have hjoiner : covers zeroWidth 0x200D = true := by decide +kernel
  cases context with
  | alef =>
    simp only [Text.joinedShare?] at h
    split at h
    · next hl => cases h; exact Or.inr ⟨by decide, rfl, Or.inr (.lamAlef hl)⟩
    split at h
    · next ht => cases h; exact Or.inr ⟨by decide, rfl, Or.inl (Bool.and_eq_true_iff.1 ht).1⟩
    · cases h
  | subscriptLetter =>
    simp only [Text.joinedShare?] at h
    split at h
    · next hn => cases h; exact Or.inr ⟨by decide, rfl, Or.inl (hn ▸ by decide +kernel)⟩
    · cases h
  | consonant joined =>
    obtain rfl : joined = false := by simpa [Context.unjoined] using hc
    simp only [Text.joinedShare?] at h
    split at h
    · next hn => cases h; exact Or.inl ⟨rfl, .consonant hn⟩
    · cases h
  | consonantAfterJoiner =>
    simp only [Text.joinedShare?] at h
    split at h
    · next hn => cases h; exact Or.inr ⟨by decide, rfl, Or.inr (.consonants hn)⟩
    · cases h
  | toneLetter =>
    simp only [Text.joinedShare?] at h
    split at h
    · next hn => cases h; exact Or.inr ⟨by decide, rfl, Or.inr (.toneLetters hn.1 hn.2)⟩
    · cases h
  | skinTone =>
    simp only [Text.joinedShare?] at h
    split at h
    · next hb => cases h; exact Or.inr ⟨by decide, rfl, Or.inr (.skinTone hb)⟩
    split at h
    · next hn => cases h; exact Or.inr ⟨by decide, rfl, Or.inl (hn ▸ hjoiner)⟩
    · cases h
  | regional =>
    simp only [Text.joinedShare?] at h
    split at h
    · next hr => cases h; exact Or.inl ⟨rfl, .regional hr⟩
    · cases h
  | regionals =>
    simp only [Text.joinedShare?] at h
    split at h
    · next hr => cases h; exact Or.inl ⟨rfl, .regionals hr⟩
    split at h
    · next hn => cases h; exact Or.inr ⟨by decide, rfl, Or.inl (hn ▸ hjoiner)⟩
    · cases h
  | emoji =>
    simp only [Text.joinedShare?] at h
    split at h
    · next hn => cases h; exact Or.inr ⟨by decide, rfl, Or.inl (hn ▸ hjoiner)⟩
    · cases h
  | vowelE =>
    simp only [Text.joinedShare?] at h
    split at h
    · next hn =>
      cases h
      have hn : n = 0x16D63 ∨ n = 0x16D69 := by simpa using hn
      exact Or.inr ⟨by decide, rfl, Or.inr (.vowelE (by omega))⟩
    split at h
    · next hn => cases h; exact Or.inr ⟨by decide, rfl, Or.inr (.vowelE (by omega))⟩
    split at h
    · next hn => cases h; exact Or.inl ⟨rfl, .vowelE hn⟩
    · cases h
  | vowelAi =>
    simp only [Text.joinedShare?] at h
    split at h
    · next hn => cases h; exact Or.inr ⟨by decide, rfl, Or.inr (.vowelAi hn)⟩
    · cases h
  | lamed joined | ya joined | orkhonI joined =>
    obtain rfl : joined = false := by simpa [Context.unjoined] using hc
    cases h
  | plain | lineFeed => cases h
  | _ => cases hc

end Steps

inductive Leads (n : Nat) (context : Context) : Context → Prop
  | lineFeed : n = 0xA → Leads n context .lineFeed
  | narrow : n ≠ 0xA → n ≤ 0xA0 → Leads n context .plain
  | joined {next : Context} : Extends n context next → Leads n context next
  | alone {next : Context} : 0xA0 < n → joinedShare? context n = none → contextOf n = .of next →
      Kind n next → Leads n context next

def Keeps (c : Char) (f : Following) : Prop :=
  (share c f).1 + (share c f).2.toCome = charWidth c + f.toCome

section Steps

variable {c : Char} {context next : Context}

theorem Leads.unjoined {n : Nat} (h : Leads n context next) : next.unjoined = true := by
  cases h with
  | lineFeed | narrow => rfl
  | joined h => exact h.unjoined
  | alone _ _ _ h => exact h.unjoined

theorem Extends.baseWidth (h : Extends c.toNat context next) : baseWidth c = 1 := by
  cases h with
  | consonant h => exact baseWidth_eq_one (h ▸ by decide +kernel) (h ▸ by decide +kernel) (by omega)
  | regional h | regionals h => exact baseWidth_of_regional h
  | vowelE h => exact baseWidth_eq_one (h ▸ by decide +kernel) (h ▸ by decide +kernel) (by omega)

theorem Extends.not_shrinks {n : Nat} (h : Extends n context next) : ¬ Shrinks n context := by
  intro hs
  cases h with
  | consonant | regional | regionals => cases hs
  | vowelE =>
    cases hs
    omega

theorem not_shrinks_of_narrow {n : Nat} (h : n ≤ 0xA0) (hr : ¬ (n = 0xD ∧ context = .lineFeed)) :
    ¬ Shrinks n context := by
  intro hs
  cases hs with
  | lineEnd hn => exact hr ⟨hn, rfl⟩
  | lamAlef hl =>
    have hb := isLam_bounds hl
    omega
  | skinTone hm =>
    have hb := modifierBase_bounds hm
    omega
  | consonants hc =>
    have hb := isConsonant_bounds hc
    omega
  | _ => omega

/-- What a character does in front of a settled context. It keeps its columns, or it is a selector
that has its column to come, or columns are lost: it has no width of its own, or it joins. -/
inductive Settles (c : Char) (context : Context) : Int × Following → Prop
  | keeps {next : Context} : baseWidth c ≠ 0 → ¬ Shrinks c.toNat context →
      Leads c.toNat context next → Settles c context (charWidth c, .of next)
  | emojiSelector : c.toNat = 0xFE0F → Settles c context (0, (Following.of context).selectEmoji)
  | wideSelector : c.toNat = 0xFE01 → Settles c context (0, (Following.of context).selectWide)
  | loses {add : Int} {f : Following} : baseWidth c = 0 ∨ Shrinks c.toNat context →
      add + f.toCome < charWidth c → Settles c context (add, f)

theorem settles_share (c : Char) (hc : context.unjoined = true) :
    Settles c context (share c (.of context)) := by
  have hpos := charWidth_pos c
  have hlost {add : Int} {next : Context} (ha : add ≤ 0) (hnext : next.toCome = 0) :
      add + (Following.of next).toCome < charWidth c := by
    rw [Following.toCome_of]
    omega
  have h := shares_share (c := c) (f := .of context) rfl
  generalize share c (.of context) = r at h ⊢
  cases h with
  | lineFeed h =>
    subst h
    have hbase := baseWidth_of_narrow (c := '\n') (by decide)
    have hwidth := charWidth_of_narrow (c := '\n') (by decide)
    have hkeeps : Settles '\n' context (charWidth '\n', .of .lineFeed) :=
      .keeps (by omega) (not_shrinks_of_narrow (by decide) fun h => absurd h.1 (by decide))
        (.lineFeed rfl)
    rwa [hwidth] at hkeeps
  | carriageReturn h hl =>
    subst h
    obtain rfl : context = .lineFeed := hl
    exact .loses (Or.inr (.lineEnd rfl)) (hlost (Int.le_refl 0) rfl)
  | narrow hn hr hle =>
    have hbase := baseWidth_of_narrow hle
    have hkeeps : Settles c context (charWidth c, .of .plain) :=
      .keeps (by omega)
        (not_shrinks_of_narrow hle fun h => hr ⟨Char.toNat_inj.1 h.1, h.2⟩)
        (.narrow (fun h => hn (Char.toNat_inj.1 h)) hle)
    rwa [charWidth_of_narrow hle] at hkeeps
  | selectEmoji h => exact .emojiSelector h
  | selectText h =>
    have hle := (Following.of context).toCome_selectText
    rw [Following.toCome_of, toCome_of_unjoined hc] at hle
    exact .loses (Or.inl (baseWidth_eq_zero (h ▸ by decide +kernel))) (by omega)
  | selectWide h => exact .wideSelector h
  | textStyle h => cases h
  | wideStyle h => cases h
  | joiner hl h =>
    exact .loses (Or.inl (baseWidth_eq_zero (h ▸ by decide +kernel)))
      (hlost (Int.le_refl 0) (Context.toCome_join hl))
  | transparent hl h =>
    exact .loses (Or.inl (baseWidth_eq_zero (covers_of_isTransparent h)))
      (hlost (Int.le_refl 0) (Context.toCome_of_isLetter hl))
  | joined hgt h =>
    obtain ⟨rfl, he⟩ | ⟨ha, hnext, hzero⟩ := joinedShare?_cases hc h
    · have hbase := he.baseWidth
      have hkeeps := Settles.keeps (by omega) he.not_shrinks (.joined he)
      rwa [charWidth_eq hgt, hbase] at hkeeps
    · exact .loses (hzero.imp_left baseWidth_eq_zero) (hlost ha hnext)
  | alone hgt h hk hkind =>
    by_cases hbase : baseWidth c = 0
    · exact .loses (Or.inl hbase) (hlost (by omega) hkind.toCome)
    · have hshrinks : ¬ Shrinks c.toNat context := by
        intro hs
        obtain ⟨add, next, hj, -⟩ := hs.joinedShare? (by omega)
        have hj' := h.symm.trans hj
        cases hj'
      have hkeeps := Settles.keeps hbase hshrinks (.alone hgt h hk hkind)
      rwa [charWidth_eq hgt, Nat.max_eq_right (by omega)] at hkeeps

end Steps

end SchemaSketch.Text
