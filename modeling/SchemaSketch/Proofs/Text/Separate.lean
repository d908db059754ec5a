import SchemaSketch.Proofs.Text.Joining

/-!
When a text is as wide as its characters together: each character has to have a width of its own and
to keep it in front of what follows it. Selectors may stand where they widen a character by the
column that they are counted with themselves.
-/
namespace SchemaSketch.Text

open Grid (width)

inductive Joins : Char → List Char → Prop
  | lineEnd {c d : Char} (s : List Char) : c = '\r' → d = '\n' → Joins c (d :: s)
  | lamAlef {c d : Char} (s : List Char) :
      isLam c.toNat = true → isAlef d.toNat = true → Joins c (d :: s)
  | skinTone {c d : Char} (s : List Char) :
      covers emojiModifierBase c.toNat = true → isSkinTone d.toNat = true → Joins c (d :: s)
  | toneLetters {c d : Char} (s : List Char) : 0xA4F8 ≤ c.toNat → c.toNat ≤ 0xA4FB →
      d.toNat = 0xA4FC ∨ d.toNat = 0xA4FD → Joins c (d :: s)
  | consonants {c d e : Char} (s : List Char) : isConsonant c.toNat = true → d.toNat = 0x2D7F →
      isConsonant e.toNat = true → Joins c (d :: e :: s)
  | vowelAi {c d : Char} (s : List Char) :
      c.toNat = 0x16D63 → d.toNat = 0x16D68 → Joins c (d :: s)
  | vowelE {c e : Char} {ds : List Char} (s : List Char) :
      c.toNat = 0x16D63 ∨ c.toNat = 0x16D67 ∨ c.toNat = 0x16D69 →
      (∀ d ∈ ds, d.toNat = 0x16D68) → e.toNat = 0x16D67 → Joins c (ds ++ e :: s)

def isQuotationMark (n : Nat) : Prop :=
  n = 0x2018 ∨ n = 0x2019 ∨ n = 0x201C ∨ n = 0x201D

inductive Separate : List Char → Prop
  | nil : Separate []
  | cons {c : Char} {s : List Char} :
      baseWidth c ≠ 0 → ¬ Joins c s → Separate s → Separate (c :: s)
  | emoji {c v : Char} {s : List Char} : covers variationBase c.toNat = true → charWidth c = 1 →
      v.toNat = 0xFE0F → Separate s → Separate (c :: v :: s)
  | quotationMark {c v : Char} {s : List Char} : isQuotationMark c.toNat → v.toNat = 0xFE01 →
      Separate s → Separate (c :: v :: s)

inductive Front : List Char → Context → Prop
  | nil : Front [] .plain
  | cons {d : Char} {s : List Char} {context next : Context} :
      Leads d.toNat context next → Front s context → Front (d :: s) next
  | emoji {d : Char} (s : List Char) : covers variationBase d.toNat = true → Front (d :: s) .emoji
  | quotationMark {d : Char} (s : List Char) : isQuotationMark d.toNat → Front (d :: s) .plain

section Front

variable {n : Nat} {c d : Char} {s : List Char} {context next : Context}

theorem Front.unjoined (h : Front s context) : context.unjoined = true := by
  cases h with
  | cons h => exact h.unjoined
  | _ => rfl

theorem contextOf_of_isAlef (h : isAlef n = true) : contextOf n = .of .alef := by
  have hb := isAlef_bounds h
  rw [contextOf, if_neg (by omega), if_neg (by omega), if_neg (by omega), if_neg (by omega),
    if_pos h]

/-- Beyond the Khmer letters the context is told by the classes from the consonants on. -/
theorem contextOf_of_lt (h : 0x1A10 < n) (hs : n < 0xFE00 ∨ 0xFE0F < n) : contextOf n =
    if isConsonant n then .of (.consonant false)
    else if n = 0xA4FC || n = 0xA4FD then .of .toneLetter
    else if n = 0x10C03 then .of (.orkhonI false)
    else if n = 0x16D67 then .of .vowelE
    else if n = 0x16D68 then .of .vowelAi
    else if isRegional n then .of .regional
    else if isSkinTone n then .of .skinTone
    else if isEmoji n then .of .emoji
    else .of .plain := by
  have halef : ¬ isAlef n = true := fun ha => by
    have hb := isAlef_bounds ha
    omega
  have hsubscript : ¬ isSubscriptLetter n = true := fun ha => by
    have hb := isSubscriptLetter_bounds ha
    omega
  rw [contextOf, if_neg (by omega), if_neg (by omega), if_neg (by omega), if_neg (by omega),
    if_neg halef, if_neg hsubscript, if_neg (by omega)]

theorem contextOf_of_isConsonant (h : isConsonant n = true) :
    contextOf n = .of (.consonant false) := by
  have hb := isConsonant_bounds h
  rw [contextOf_of_lt (by omega) (by omega), if_pos h]

theorem contextOf_of_isSkinTone (h : isSkinTone n = true) : contextOf n = .of .skinTone := by
  have hb := isSkinTone_bounds h
  have hconsonant : ¬ isConsonant n = true := fun hc => by
    have hb := isConsonant_bounds hc
    omega
  have hregional : ¬ isRegional n = true := fun hr => by
    have hb := isRegional_bounds hr
    omega
  have htone : ¬ (n = 0xA4FC || n = 0xA4FD) = true := fun ht => by
    have ht : n = 0xA4FC ∨ n = 0xA4FD := by simpa using ht
    omega
  rw [contextOf_of_lt (by omega) (by omega), if_neg hconsonant, if_neg htone, if_neg (by omega),
    if_neg (by omega), if_neg (by omega), if_neg hregional, if_pos h]

theorem contextOf_of_toneLetter (h : n = 0xA4FC ∨ n = 0xA4FD) : contextOf n = .of .toneLetter := by
  obtain rfl | rfl := h <;> decide +kernel

theorem Extends.eq_or (h : Extends n context next) :
    n = 0x2D7F ∨ 0x1F1E6 ≤ n ∧ n ≤ 0x1F1FF ∨ n = 0x16D68 := by
  cases h with
  | consonant h => exact Or.inl h
  | regional h | regionals h => exact Or.inr (Or.inl (isRegional_bounds h))
  | vowelE h => exact Or.inr (Or.inr h)

/-- A letter or a skin tone that keeps its columns is to the character before it what it is alone,
or it extends what follows it. -/
theorem Front.of_head {kind : Context} (h : Front (d :: s) next)
    (hd : 0x622 ≤ d.toNat ∧ d.toNat ≤ 0x882 ∨ 0x2D31 ≤ d.toNat ∧ d.toNat ≤ 0x2D7F ∨
      0xA4FC ≤ d.toNat ∧ d.toNat ≤ 0xA4FD ∨ 0x16D67 ≤ d.toNat ∧ d.toNat ≤ 0x16D68 ∨
      0x1F3FB ≤ d.toNat ∧ d.toNat ≤ 0x1F3FF) (hk : contextOf d.toNat = .of kind) :
    ∃ context, Front s context ∧ (joinedShare? context d.toNat = none ∧ next = kind ∨
      Extends d.toNat context next) := by
  cases h with
  | emoji _ hbase =>
    have hb := variationBase_bounds hbase
    omega
  | quotationMark _ hq =>
    rw [isQuotationMark] at hq
    omega
  | @cons _ _ context _ hl hs =>
    refine ⟨context, hs, ?_⟩
    cases hl with
    | lineFeed => omega
    | narrow => omega
    | joined he => exact Or.inr he
    | alone _ hj hnext =>
      rw [hk] at hnext
      exact Or.inl ⟨hj, congrArg Following.context hnext.symm⟩

theorem Front.eq_alef (h : Front (d :: s) context) (hd : isAlef d.toNat = true) :
    context = .alef := by
  have hb := isAlef_bounds hd
  obtain ⟨_, -, ⟨-, hc⟩ | he⟩ := h.of_head (by omega) (contextOf_of_isAlef hd)
  · exact hc
  · have hn := he.eq_or
    omega

theorem Front.eq_consonant (h : Front (d :: s) context) (hd : isConsonant d.toNat = true) :
    context = .consonant false := by
  have hb := isConsonant_bounds hd
  obtain ⟨_, -, ⟨-, hc⟩ | he⟩ := h.of_head (by omega) (contextOf_of_isConsonant hd)
  · exact hc
  · have hn := he.eq_or
    omega

theorem Front.eq_skinTone (h : Front (d :: s) context) (hd : isSkinTone d.toNat = true) :
    context = .skinTone := by
  have hb := isSkinTone_bounds hd
  obtain ⟨_, -, ⟨-, hc⟩ | he⟩ := h.of_head (by omega) (contextOf_of_isSkinTone hd)
  · exact hc
  · have hn := he.eq_or
    omega

theorem Front.eq_toneLetter (h : Front (d :: s) context)
    (hd : d.toNat = 0xA4FC ∨ d.toNat = 0xA4FD) : context = .toneLetter := by
  obtain ⟨_, -, ⟨-, hc⟩ | he⟩ := h.of_head (by omega) (contextOf_of_toneLetter hd)
  · exact hc
  · have hn := he.eq_or
    omega

theorem Front.eq_lineFeed (h : Front (d :: s) context) (hd : d = '\n') : context = .lineFeed := by
  subst hd
  cases h with
  | emoji _ hbase => exact absurd hbase (by decide +kernel)
  | quotationMark _ hq => exact absurd hq (by unfold isQuotationMark; decide)
  | cons hl =>
    cases hl with
    | lineFeed => rfl
    | narrow hn => exact absurd rfl hn
    | joined he => exact absurd he.eq_or (by decide)
    | alone hgt => exact absurd hgt (by decide)

/-- Two consonants that a joiner stands between. -/
theorem Front.eq_consonantAfterJoiner {e : Char} (h : Front (d :: e :: s) context)
    (hd : d.toNat = 0x2D7F) (he : isConsonant e.toNat = true) :
    context = .consonantAfterJoiner := by
  have hk : contextOf d.toNat = .of .plain := by rw [hd]; decide +kernel
  obtain ⟨next, hs, ⟨hj, -⟩ | hext⟩ := h.of_head (by omega) hk
  · rw [hs.eq_consonant he, hd] at hj
    cases hj
  · cases hext with
    | consonant => rfl
    | regional hr | regionals hr =>
      have hb := isRegional_bounds hr
      omega
    | vowelE => omega

theorem Front.eq_vowelAi (h : Front (d :: s) context) (hd : d.toNat = 0x16D68) :
    context = .vowelAi ∨ context = .vowelE := by
  have hk : contextOf d.toNat = .of .vowelAi := by rw [hd]; decide +kernel
  obtain ⟨next, -, ⟨-, hc⟩ | hext⟩ := h.of_head (by omega) hk
  · exact Or.inl hc
  · cases hext with
    | vowelE => exact Or.inr rfl
    | consonant => omega
    | regional hr | regionals hr =>
      have hb := isRegional_bounds hr
      omega

/-- Any number of signs of one kind may stand in front of the other one. -/
theorem Front.eq_vowelE {e : Char} {ds : List Char} (h : Front (ds ++ e :: s) context)
    (hds : ∀ d ∈ ds, d.toNat = 0x16D68) (he : e.toNat = 0x16D67) : context = .vowelE := by
  induction ds generalizing context with
  | nil =>
    have hk : contextOf e.toNat = .of .vowelE := by rw [he]; decide +kernel
    obtain ⟨_, -, ⟨-, hc⟩ | hext⟩ := h.of_head (by omega) hk
    · exact hc
    · have hn := hext.eq_or
      omega
  | cons d ds ih =>
    rw [List.forall_mem_cons] at hds
    have hk : contextOf d.toNat = .of .vowelAi := by rw [hds.1]; decide +kernel
    obtain ⟨next, hs, ⟨hj, -⟩ | hext⟩ := h.of_head (by omega) hk
    · rw [ih hs hds.2, hds.1] at hj
      cases hj
    · rw [ih hs hds.2] at hext
      cases hext
      rfl

/-- What joins with a separate text loses columns in front of it. -/
theorem Front.shrinks_of_joins (h : Front s context) (hj : Joins c s) :
    Shrinks c.toNat context := by
  cases hj with
  | lineEnd _ hc hd =>
    rw [h.eq_lineFeed hd, hc]
    exact .lineEnd rfl
  | lamAlef _ hc hd =>
    rw [h.eq_alef hd]
    exact .lamAlef hc
  | skinTone _ hc hd =>
    rw [h.eq_skinTone hd]
    exact .skinTone hc
  | toneLetters _ hl hh hd =>
    rw [h.eq_toneLetter hd]
    exact .toneLetters hl hh
  | consonants _ hc hd he =>
    rw [h.eq_consonantAfterJoiner hd he]
    exact .consonants hc
  | vowelAi _ hc hd =>
    obtain rfl | rfl := h.eq_vowelAi hd
    · exact .vowelAi hc
    · exact .vowelE (Or.inl hc)
  | vowelE _ hc hds he =>
    rw [h.eq_vowelE hds he]
    exact .vowelE hc

theorem Front.exists_leads (h : Front s next) (hplain : next ≠ .plain) (hemoji : next ≠ .emoji) :
    ∃ d t context, s = d :: t ∧ Leads d.toNat context next ∧ Front t context := by
  cases h with
  | nil => exact absurd rfl hplain
  | cons hl hs => exact ⟨_, _, _, rfl, hl, hs⟩
  | emoji => exact absurd rfl hemoji
  | quotationMark => exact absurd rfl hplain

theorem Front.exists_vowelE (h : Front s .vowelE) : ∃ ds e t, s = ds ++ e :: t ∧
    (∀ d ∈ ds, d.toNat = 0x16D68) ∧ e.toNat = 0x16D67 := by
  induction s with
  | nil => cases h
  | cons d s ih =>
    obtain ⟨d, t, context, heq, hl, hs⟩ := h.exists_leads (by decide) (by decide)
    cases heq
    cases hl with
    | joined hext =>
      cases hext with
      | vowelE hd =>
        obtain ⟨ds, e, t, rfl, hds, he⟩ := ih hs
        exact ⟨d :: ds, e, t, rfl, List.forall_mem_cons.2 ⟨hd, hds⟩, he⟩
    | alone _ _ _ hk =>
      cases hk with
      | vowelE hd => exact ⟨[], d, s, rfl, List.forall_mem_nil _, hd⟩

/-- These contexts are due to one letter, or to one skin tone, that stands first in the text. -/
theorem Front.exists_kind (h : Front s next)
    (hnext : next ∈ [.alef, .skinTone, .toneLetter, .vowelAi, .consonant false]) :
    ∃ d t, s = d :: t ∧ Kind d.toNat next := by
  have hplain : next ≠ .plain := fun h => absurd (h ▸ hnext) (by decide)
  have hemoji : next ≠ .emoji := fun h => absurd (h ▸ hnext) (by decide)
  obtain ⟨d, t, context, rfl, hl, -⟩ := h.exists_leads hplain hemoji
  refine ⟨d, t, rfl, ?_⟩
  cases hl with
  | lineFeed => exact absurd hnext (by decide)
  | narrow => exact absurd rfl hplain
  | joined hext => cases hext <;> exact absurd hnext (by decide)
  | alone _ _ _ hk => exact hk

/-- What loses columns in front of a separate text joins with it. -/
theorem Front.joins_of_shrinks (h : Front s context) (hs : Shrinks c.toNat context) :
    Joins c s := by
  cases hs with
  | lineEnd hc =>
    obtain ⟨d, t, _, rfl, hl, -⟩ := h.exists_leads (by decide) (by decide)
    cases hl with
    | lineFeed hd => exact .lineEnd t (Char.toNat_inj.1 hc) (Char.toNat_inj.1 hd)
    | joined hext => cases hext
    | alone _ _ _ hk => cases hk
  | lamAlef hc =>
    obtain ⟨d, t, rfl, hk⟩ := h.exists_kind (by decide)
    cases hk with
    | alef hd => exact .lamAlef t hc hd
  | skinTone hc =>
    obtain ⟨d, t, rfl, hk⟩ := h.exists_kind (by decide)
    cases hk with
    | skinTone hd => exact .skinTone t hc hd
  | toneLetters hlow hhigh =>
    obtain ⟨d, t, rfl, hk⟩ := h.exists_kind (by decide)
    cases hk with
    | toneLetter hd => exact .toneLetters t hlow hhigh hd
  | consonants hc =>
    obtain ⟨d, t, _, rfl, hl, ht⟩ := h.exists_leads (by decide) (by decide)
    cases hl with
    | alone _ _ _ hk => cases hk
    | joined hext =>
      cases hext with
      | consonant hd =>
        obtain ⟨e, t, rfl, hk⟩ := ht.exists_kind (by decide)
        cases hk with
        | consonant he => exact .consonants t hc hd he
  | vowelAi hc =>
    obtain ⟨d, t, rfl, hk⟩ := h.exists_kind (by decide)
    cases hk with
    | vowelAi hd => exact .vowelAi t hc hd
  | vowelE hc =>
    obtain ⟨ds, e, t, rfl, hds, he⟩ := h.exists_vowelE
    exact .vowelE t hc hds he

theorem Front.joins_iff (h : Front s context) : Joins c s ↔ Shrinks c.toNat context :=
  ⟨h.shrinks_of_joins, h.joins_of_shrinks⟩

end Front

section Selectors

variable {c v : Char} {s : List Char} {context : Context} {f : Following}

/-- A selector for emoji in front of a settled context waits for its base. -/
theorem selectEmoji_of (h : context.unjoined = true) : ∃ kept : Context, kept.unjoined = true ∧
    (Following.of context).selectEmoji = ⟨kept, true, false, false⟩ := by
  unfold Following.selectEmoji
  split
  · exact ⟨context, h, rfl⟩
  · exact ⟨.plain, rfl, rfl⟩

theorem selectWide_of (h : context.unjoined = true) : ∃ kept : Context, kept.unjoined = true ∧
    (Following.of context).selectWide = ⟨kept, false, false, true⟩ := by
  unfold Following.selectWide
  split
  · exact ⟨context, h, rfl⟩
  · exact ⟨.plain, rfl, rfl⟩

theorem share_of_letter (h : 0xA0 < c.toNat) (hf : f.emojiStyle = false) :
    share c f = shareOfLetter c f := by
  have hfeed : c ≠ '\n' := fun hc => absurd (hc ▸ h) (by decide)
  have hreturn : c ≠ '\r' := fun hc => absurd (hc ▸ h) (by decide)
  simp [share, hf, hfeed, hreturn, Nat.not_le.2 h]

theorem share_emojiSelector (h : c.toNat = 0xFE0F) (hf : f.emojiStyle = false) :
    share c f = (0, f.selectEmoji) := by
  rw [share_of_letter (by omega) hf, shareOfLetter]
  exact if_pos h

theorem share_wideSelector (h : c.toNat = 0xFE01) (hf : f.emojiStyle = false) :
    share c f = (0, f.selectWide) := by
  rw [share_of_letter (by omega) hf]
  simp [shareOfLetter, h]

/-- In front of a selector that has its column to come, a base takes that column as well. -/
theorem share_base_of_unjoined (h : context.unjoined = true)
    (hc : covers variationBase c.toNat = true) :
    share c ⟨context, true, false, false⟩ = (2, .of .emoji) := by
  have hjoined : ¬ (context = .joinedEmoji ∨ context = .joinedKeycap) := by
    rintro (rfl | rfl) <;> cases h
  rw [share_of_base rfl hc, if_neg hjoined]

theorem share_quotationMark (h : isQuotationMark c.toNat) (context : Context) :
    share c ⟨context, false, false, true⟩ = (2, .of .plain) := by
  obtain h | h | h | h := h <;>
    · rw [share_of_letter (by omega) rfl]
      simp [shareOfLetter, h]

theorem charWidth_quotationMark (h : isQuotationMark c.toNat) : charWidth c = 1 := by
  have hbase : baseWidth c = 1 := by
    obtain h | h | h | h := h <;>
      exact baseWidth_eq_one (h ▸ by decide +kernel) (h ▸ by decide +kernel) (by omega)
  rw [isQuotationMark] at h
  rw [charWidth_eq (by omega), hbase]
  rfl

theorem charWidth_selector (h : c.toNat = 0xFE0F ∨ c.toNat = 0xFE01) : charWidth c = 1 := by
  have hzero : baseWidth c = 0 := by
    obtain h | h := h <;> exact baseWidth_eq_zero (h ▸ by decide +kernel)
  rw [charWidth_eq (by omega), hzero]
  rfl

/-- A selector that widens is lost, unless a quotation mark follows, or another selector that the
column goes along with. -/
theorem keeps_wide (h : context.unjoined = true) (hk : Keeps c ⟨context, false, false, true⟩) :
    isQuotationMark c.toNat ∨ (share c ⟨context, false, false, true⟩).2.emojiStyle = true ∧
      (share c ⟨context, false, false, true⟩).2.wideStyle = true := by
  have hpos := charWidth_pos c
  have hcome : (Following.mk context false false true).toCome = 1 := by
    simp [Following.toCome, toCome_of_unjoined h]
  have hs := shares_share (c := c) (f := ⟨context, false, false, true⟩) rfl
  rw [Keeps, hcome] at hk
  generalize share c ⟨context, false, false, true⟩ = r at hs hk ⊢
  have hlost {add : Int} {next : Context} (hle : add + next.toCome ≤ charWidth c) :
      ¬ add + (Following.of next).toCome = charWidth c + ((1 : Nat) : Int) := by
    rw [Following.toCome_of]
    omega
  have hnone {add : Int} {f : Following} (ha : add ≤ 0) (hf : f.toCome ≤ 1) :
      ¬ add + f.toCome = charWidth c + ((1 : Nat) : Int) := by
    omega
  cases hs with
  | lineFeed | narrow =>
    exact absurd hk (hlost (Int.ofNat_le.2 hpos))
  | carriageReturn => exact absurd hk (hlost (Int.natCast_nonneg _))
  | selectEmoji hc =>
    unfold Following.selectEmoji at hk ⊢
    split
    · exact Or.inr ⟨rfl, rfl⟩
    · next hl =>
      rw [if_neg hl] at hk
      exact absurd hk (hnone (Int.le_refl 0) (Nat.le_refl 1))
  | selectText hc =>
    have hle := (Following.mk context false false true).toCome_selectText
    exact absurd hk (hnone (Int.le_refl 0) (Nat.le_trans hle (Nat.le_of_eq hcome)))
  | selectWide hc =>
    obtain ⟨kept, hkept, heq⟩ := selectWide_of h
    have hsame : (Following.mk context false false true).selectWide =
        (Following.of context).selectWide := rfl
    rw [hsame, heq] at hk
    refine absurd hk (hnone (Int.le_refl 0) ?_)
    simp [Following.toCome, toCome_of_unjoined hkept]
  | textStyle hs => cases hs
  | wideStyle _ hq => exact Or.inl hq
  | joiner hl =>
    exact absurd hk (hnone (Int.le_refl 0) (by
      rw [Following.toCome_of, Context.toCome_join hl]
      exact Nat.zero_le 1))
  | transparent =>
    exact absurd hk (hnone (Int.le_refl 0) (by
      rw [Following.toCome_of, toCome_of_unjoined h]
      exact Nat.zero_le 1))
  | joined _ hj =>
    have hle := joinedShare?_le hj
    rw [toCome_of_unjoined h] at hle
    exact absurd hk (hlost (by omega))
  | alone hgt _ _ hkind =>
    refine absurd hk (hlost ?_)
    rw [hkind.toCome, charWidth_eq hgt]
    omega

/-- What a text whose characters all keep their columns is to the character before it. A selector
in front still has its column to come, and two of them have one too many. -/
inductive Kept : List Char → Following → Prop
  | settled {s : List Char} {context : Context} :
      Separate s → Front s context → Kept s (.of context)
  | emoji {v : Char} {s : List Char} {context : Context} : v.toNat = 0xFE0F → Separate s →
      context.unjoined = true → Kept (v :: s) ⟨context, true, false, false⟩
  | wide {v : Char} {s : List Char} {context : Context} : v.toNat = 0xFE01 → Separate s →
      context.unjoined = true → Kept (v :: s) ⟨context, false, false, true⟩
  | lost {s : List Char} {f : Following} :
      f.emojiStyle = true → f.wideStyle = true → Kept s f

/-- One more character in front keeps its columns in these ways only. -/
theorem Kept.cons (h : Kept s f) (hk : Keeps c f) : Kept (c :: s) (share c f).2 := by
  cases h with
  | @settled _ context hs hf =>
    have hcome := Following.toCome_of context
    rw [toCome_of_unjoined hf.unjoined] at hcome
    have hstep := settles_share c hf.unjoined
    rw [Keeps, hcome] at hk
    generalize share c (.of context) = r at hk hstep ⊢
    cases hstep with
    | keeps hbase hn hl => exact .settled (.cons hbase (mt hf.joins_iff.1 hn) hs) (.cons hl hf)
    | emojiSelector hc =>
      obtain ⟨kept, hkept, hselect⟩ := selectEmoji_of hf.unjoined
      rw [hselect]
      exact .emoji hc hs hkept
    | wideSelector hc =>
      obtain ⟨kept, hkept, hselect⟩ := selectWide_of hf.unjoined
      rw [hselect]
      exact .wide hc hs hkept
    | loses _ hlt => exact absurd hk (by dsimp only; omega)
  | @emoji v t context hv hs hc =>
    cases hbase : covers variationBase c.toNat with
    | false => exact absurd hk (Int.ne_of_lt (share_lt_of_not_base rfl hbase))
    | true =>
      have hcome : (Following.mk context true false false).toCome = 1 := by
        simp [Following.toCome, toCome_of_unjoined hc]
      have hnone : (Following.of .emoji).toCome = 0 := rfl
      rw [Keeps, share_base_of_unjoined hc hbase, hcome, hnone] at hk
      rw [share_base_of_unjoined hc hbase]
      exact .settled (.emoji hbase (by omega) hv hs) (.emoji _ hbase)
  | @wide v t context hv hs hc =>
    obtain hq | ⟨he, hw⟩ := keeps_wide hc hk
    · rw [share_quotationMark hq]
      exact .settled (.quotationMark hq hv hs) (.quotationMark _ hq)
    · exact .lost he hw
  | lost he hw =>
    cases hbase : covers variationBase c.toNat with
    | false => exact absurd hk (Int.ne_of_lt (share_lt_of_not_base he hbase))
    | true =>
      have hpos := charWidth_pos c
      have hnone : (Following.of .emoji).toCome = 0 := rfl
      rw [Keeps, share_of_base he hbase, hnone, Following.toCome, he, hw] at hk
      simp only [Bool.toNat_true] at hk
      split at hk <;> omega

end Selectors

/-- A text keeps the columns of all its characters only if each is kept when it is put in front. -/
theorem keeps_of_columns {c : Char} {s : List Char}
    (h : columns (c :: s) + (following (c :: s)).toCome = width (c :: s)) :
    columns s + (following s).toCome = width s ∧ Keeps c (following s) := by
  have hshare := share_le c (following s)
  have htail := columns_le s
  simp only [columns, following, width] at h
  unfold Keeps
  omega

theorem kept_of_columns {s : List Char} (h : columns s + (following s).toCome = width s) :
    Kept s (following s) := by
  induction s with
  | nil => exact .settled .nil .nil
  | cons c s ih =>
    obtain ⟨hs, hk⟩ := keeps_of_columns h
    exact (ih hs).cons hk

theorem Separate.columns_eq {s : List Char} (h : Separate s) :
    ∃ context, following s = .of context ∧ Front s context ∧ columns s = width s := by
  induction h with
  | nil => exact ⟨.plain, rfl, .nil, rfl⟩
  | @cons c s hbase hj _ ih =>
    obtain ⟨context, hf, hfront, hcolumns⟩ := ih
    have hstep := settles_share c hfront.unjoined
    rw [following, columns, hf, hcolumns, width]
    generalize share c (.of context) = r at hstep ⊢
    cases hstep with
    | keeps _ _ hl => exact ⟨_, rfl, .cons hl hfront, by omega⟩
    | emojiSelector hc => exact absurd (baseWidth_eq_zero (hc ▸ by decide +kernel)) hbase
    | wideSelector hc => exact absurd (baseWidth_eq_zero (hc ▸ by decide +kernel)) hbase
    | loses h => exact absurd h (not_or.2 ⟨hbase, mt hfront.joins_iff.2 hj⟩)
  | @emoji c v s hc hwidth hv _ ih =>
    obtain ⟨context, hf, hfront, hcolumns⟩ := ih
    obtain ⟨kept, hkept, hselect⟩ := selectEmoji_of hfront.unjoined
    have hv' : share v (following s) = (0, ⟨kept, true, false, false⟩) := by
      rw [hf, share_emojiSelector hv rfl, hselect]
    have hc' : share c (following (v :: s)) = (2, .of .emoji) := by
      rw [following, hv', share_base_of_unjoined hkept hc]
    refine ⟨.emoji, congrArg Prod.snd hc', .emoji _ hc, ?_⟩
    rw [columns, hc', columns, hv', hcolumns, width, width, hwidth, charWidth_selector (Or.inl hv)]
    omega
  | @quotationMark c v s hc hv _ ih =>
    obtain ⟨context, hf, hfront, hcolumns⟩ := ih
    obtain ⟨kept, -, hselect⟩ := selectWide_of hfront.unjoined
    have hv' : share v (following s) = (0, ⟨kept, false, false, true⟩) := by
      rw [hf, share_wideSelector hv rfl, hselect]
    have hc' : share c (following (v :: s)) = (2, .of .plain) := by
      rw [following, hv', share_quotationMark hc]
    refine ⟨.plain, congrArg Prod.snd hc', .quotationMark _ hc, ?_⟩
    rw [columns, hc', columns, hv', hcolumns, width, width, charWidth_quotationMark hc,
      charWidth_selector (Or.inr hv)]
    omega

/-- A text is as wide as its characters together exactly if it is separate. -/
theorem displayWidth_eq_width_iff (s : List Char) : displayWidth s = width s ↔ Separate s := by
  constructor
  · intro h
    have hle := columns_le s
    rw [displayWidth_eq] at h
    cases s with
    | nil => exact .nil
    | cons c s =>
      have hpos : 1 ≤ width (c :: s) := Nat.le_trans (charWidth_pos c) (Nat.le_add_right _ _)
      generalize c :: s = s at *
      have hnone : (following s).toCome = 0 := by omega
      have hkept := kept_of_columns (s := s) (by omega)
      generalize following s = f at hnone hkept
      cases hkept with
      | settled hs => exact hs
      | _ => simp_all [Following.toCome]
  · intro h
    obtain ⟨-, -, -, hcolumns⟩ := h.columns_eq
    rw [displayWidth_eq, hcolumns]
    rfl

end SchemaSketch.Text
