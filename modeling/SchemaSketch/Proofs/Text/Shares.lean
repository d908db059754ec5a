import SchemaSketch.Proofs.Surface.Columns

/-!
What a text takes against what its characters take one by one. A character never adds more to the
text than its own columns and those that what follows it still has to come: a selector has a column
to come, and so has every flag of two pairs behind a joiner. So no text is wider than its
characters together.
-/
namespace SchemaSketch.Text

open Grid (width)

variable {c : Char} {s : List Char} {f : Following}

def following : List Char → Following
  | [] => .of .plain
  | c :: s => (share c (following s)).2

def columns : List Char → Int
  | [] => 0
  | c :: s => columns s + (share c (following s)).1

theorem displayWidth_eq (s : List Char) : displayWidth s = (columns s).toNat := by
  have hfold : s.foldr (fun c r => (r.1 + (share c r.2).1, (share c r.2).2))
      ((0 : Int), Following.of .plain) = (columns s, following s) := by
    induction s with
    | nil => rfl
    | cons c s ih => rw [List.foldr_cons, ih, columns, following]
  exact congrArg (fun r => r.1.toNat) hfold

def Context.toCome : Context → Nat
  | .joinedPairs => 2
  | _ => 0

namespace Context

variable {context : Context}

theorem toCome_of_isLetter (h : context.isLetter = true) : context.toCome = 0 := by
  cases context with
  | joinedPairs => cases h
  | _ => rfl

theorem toCome_join (h : context.isLetter = true) : context.join.toCome = 0 := by
  cases context with
  | joinedPairs => cases h
  | _ => rfl

end Context

/-- The columns that are still to come, should the right character stand in front. -/
def Following.toCome (f : Following) : Nat :=
  f.emojiStyle.toNat + f.wideStyle.toNat + f.context.toCome

namespace Following

theorem toCome_of (context : Context) : (of context).toCome = context.toCome := by
  simp [toCome, of]

theorem emojiStyle_dropEmojiStyle (f : Following) : f.dropEmojiStyle.emojiStyle = false := by
  unfold dropEmojiStyle
  split <;> rfl

/-- Dropping a selector loses its column. -/
theorem toCome_dropEmojiStyle (h : f.emojiStyle = true) :
    f.dropEmojiStyle.toCome + 1 ≤ f.toCome := by
  unfold dropEmojiStyle
  split
  · simp only [toCome, h, Bool.toNat_true, Bool.toNat_false]
    omega
  · have hplain : (of .plain).toCome = 0 := rfl
    rw [hplain, toCome, h, Bool.toNat_true]
    omega

theorem toCome_selectEmoji (f : Following) : f.selectEmoji.toCome ≤ f.toCome + 1 := by
  unfold selectEmoji
  split
  · simp only [toCome, Bool.toNat_true]
    omega
  · simp [toCome, Context.toCome]

theorem toCome_selectText (f : Following) : f.selectText.toCome ≤ f.toCome := by
  unfold selectText
  split
  · exact Nat.le_refl _
  · simp [toCome, Context.toCome]

theorem toCome_selectWide (f : Following) : f.selectWide.toCome ≤ f.toCome + 1 := by
  unfold selectWide
  split
  · simp only [toCome, Bool.toNat_true]
    omega
  · simp [toCome, Context.toCome]

end Following

inductive Kind (n : Nat) : Context → Prop
  | lamed : n = 0x5DC → Kind n (.lamed false)
  | alef : isAlef n = true → Kind n .alef
  | subscriptLetter : isSubscriptLetter n = true → Kind n .subscriptLetter
  | ya : n = 0x1A10 → Kind n (.ya false)
  | consonant : isConsonant n = true → Kind n (.consonant false)
  | toneLetter : n = 0xA4FC ∨ n = 0xA4FD → Kind n .toneLetter
  | orkhonI : n = 0x10C03 → Kind n (.orkhonI false)
  | vowelE : n = 0x16D67 → Kind n .vowelE
  | vowelAi : n = 0x16D68 → Kind n .vowelAi
  | regional : isRegional n = true → Kind n .regional
  | skinTone : isSkinTone n = true → Kind n .skinTone
  | emoji : isEmoji n = true → Kind n .emoji
  | plain : Kind n .plain

theorem contextOf_cases {n : Nat} (hemoji : n ≠ 0xFE0F) (htext : n ≠ 0xFE0E)
    (hwide : n ≠ 0xFE01) : ∃ context, contextOf n = .of context ∧ Kind n context := by
  have hite {p : Prop} [Decidable p] {context : Context} {f : Following}
      (hp : p → Kind n context) (hf : ∃ context, f = .of context ∧ Kind n context) :
      ∃ context', (if p then .of context else f) = .of context' ∧ Kind n context' := by
    split
    · next h => exact ⟨context, rfl, hp h⟩
    · exact hf
  rw [contextOf, if_neg hemoji, if_neg htext, if_neg hwide]
  refine hite .lamed (hite .alef (hite .subscriptLetter (hite .ya (hite .consonant
    (hite (fun h => .toneLetter ?_) (hite .orkhonI (hite .vowelE (hite .vowelAi
      (hite .regional (hite .skinTone (hite .emoji ⟨_, rfl, .plain⟩)))))))))))
  simpa using h

theorem Kind.toCome {n : Nat} {context : Context} (h : Kind n context) : context.toCome = 0 := by
  cases h <;> rfl

/-- What joins with what follows it adds at most one column to what was to come. -/
theorem joinedShare?_le {context next : Context} {n : Nat} {add : Int}
    (h : joinedShare? context n = some (add, next)) : add + next.toCome ≤ context.toCome + 1 := by
  unfold joinedShare? at h
  repeat' split at h
  all_goals cases h
  all_goals simp [Context.toCome]

/-- What a character adds to what follows it, if no selector for emoji waits for its base. -/
inductive Shares (c : Char) (f : Following) : Int × Following → Prop
  | lineFeed : c = '\n' → Shares c f (1, .of .lineFeed)
  | carriageReturn : c = '\r' → f.context = .lineFeed → Shares c f (0, .of .plain)
  | narrow : c ≠ '\n' → ¬ (c = '\r' ∧ f.context = .lineFeed) → c.toNat ≤ 0xA0 →
      Shares c f (1, .of .plain)
  | selectEmoji : c.toNat = 0xFE0F → Shares c f (0, f.selectEmoji)
  | selectText : c.toNat = 0xFE0E → Shares c f (0, f.selectText)
  | selectWide : c.toNat = 0xFE01 → Shares c f (0, f.selectWide)
  | textStyle : f.textStyle = true → Shares c f (1, .of .plain)
  | wideStyle : f.wideStyle = true →
      c.toNat = 0x2018 ∨ c.toNat = 0x2019 ∨ c.toNat = 0x201C ∨ c.toNat = 0x201D →
      Shares c f (2, .of .plain)
  | joiner : f.context.isLetter = true → c.toNat = 0x200D → Shares c f (0, .of f.context.join)
  | transparent : f.context.isLetter = true → isTransparent c.toNat = true →
      Shares c f (0, .of f.context)
  | joined {add : Int} {next : Context} : 0xA0 < c.toNat →
      joinedShare? f.context c.toNat = some (add, next) → Shares c f (add, .of next)
  | alone {next : Context} : 0xA0 < c.toNat → joinedShare? f.context c.toNat = none →
      contextOf c.toNat = .of next → Kind c.toNat next → Shares c f (baseWidth c, .of next)

theorem shares_shareOfLetter (h : 0xA0 < c.toNat) (f : Following) :
    Shares c f (shareOfLetter c f) := by
  unfold shareOfLetter
  dsimp only
  split
  · next he => exact .selectEmoji he
  split
  · next he => exact .selectText he
  split
  · next he => exact .selectWide he
  split
  · next hs => exact .textStyle (Bool.and_eq_true_iff.1 hs).1
  split
  · next hs =>
    obtain ⟨hs, hc⟩ := Bool.and_eq_true_iff.1 hs
    exact .wideStyle hs (by simpa [or_assoc] using hc)
  split
  · next hs => exact .joiner (by simp_all) (by simpa using (Bool.and_eq_true_iff.1 hs).2)
  split
  · next hs => exact .transparent (by simp_all) (Bool.and_eq_true_iff.1 hs).2
  split
  · next he => exact .joined h he
  · next hemoji htext hwide _ _ _ _ _ hn =>
    obtain ⟨next, hc, hk⟩ := contextOf_cases hemoji htext hwide
    rw [hc]
    exact .alone h hn hc hk

theorem shares_share (h : f.emojiStyle = false) : Shares c f (share c f) := by
  unfold share
  simp only [h, Bool.false_and, Bool.false_eq_true, if_false]
  split
  · next hc => exact .lineFeed hc
  split
  · next hc =>
    obtain ⟨hc, hl⟩ := Bool.and_eq_true_iff.1 hc
    exact .carriageReturn (by simpa using hc) (by simpa using hl)
  split
  · next hn hr hle => exact .narrow hn (by simpa using hr) hle
  · next hle => exact shares_shareOfLetter (Nat.lt_of_not_le hle) f

theorem share_of_base (h : f.emojiStyle = true) (hc : covers variationBase c.toNat = true) :
    share c f = (if f.context = .joinedEmoji ∨ f.context = .joinedKeycap then 0 else 2,
      .of .emoji) := by
  rw [share, h, hc]
  simp

theorem share_of_not_base (h : f.emojiStyle = true) (hc : covers variationBase c.toNat = false) :
    share c f = share c f.dropEmojiStyle := by
  simp [share, h, hc, f.emojiStyle_dropEmojiStyle]

theorem charWidth_eq (h : 0xA0 < c.toNat) : charWidth c = max 1 (baseWidth c) := by
  have hcontrol : isControl c = false := by
    simp only [isControl, Bool.or_eq_false_iff, Bool.and_eq_false_iff, decide_eq_false_iff_not]
    omega
  rw [charWidth, hcontrol]
  rfl

/-- A character adds no more than its own columns and those that were to come. -/
theorem Shares.le {r : Int × Following} (h : Shares c f r) :
    r.1 + r.2.toCome ≤ charWidth c + f.toCome := by
  have hpos := charWidth_pos c
  have hcontext : f.context.toCome ≤ f.toCome := Nat.le_add_left _ _
  have hof {context : Context} (hc : context.toCome = 0) : (Following.of context).toCome = 0 := by
    rw [Following.toCome_of, hc]
  cases h with
  | lineFeed | carriageReturn | narrow | textStyle =>
    rw [hof rfl]
    omega
  | selectEmoji =>
    have hle := f.toCome_selectEmoji
    dsimp only
    omega
  | selectText =>
    have hle := f.toCome_selectText
    dsimp only
    omega
  | selectWide =>
    have hle := f.toCome_selectWide
    dsimp only
    omega
  | wideStyle hw =>
    have hwide : 1 ≤ f.toCome := by
      rw [Following.toCome, hw, Bool.toNat_true]
      omega
    rw [hof rfl]
    omega
  | joiner hl =>
    rw [hof (Context.toCome_join hl)]
    omega
  | transparent hl =>
    rw [hof (Context.toCome_of_isLetter hl)]
    omega
  | joined _ he =>
    have hle := joinedShare?_le he
    rw [Following.toCome_of]
    omega
  | alone hc _ _ hk =>
    rw [hof hk.toCome, charWidth_eq hc]
    omega

/-- A selector that finds no base is lost. -/
theorem share_lt_of_not_base (h : f.emojiStyle = true)
    (hc : covers variationBase c.toNat = false) :
    (share c f).1 + (share c f).2.toCome < charWidth c + f.toCome := by
  have hd := Following.toCome_dropEmojiStyle h
  have hle := (shares_share (c := c) (Following.emojiStyle_dropEmojiStyle f)).le
  rw [share_of_not_base h hc]
  omega

theorem share_le (c : Char) (f : Following) :
    (share c f).1 + (share c f).2.toCome ≤ charWidth c + f.toCome := by
  cases he : f.emojiStyle with
  | false => exact (shares_share he).le
  | true =>
    cases hc : covers variationBase c.toNat with
    | false => exact Int.le_of_lt (share_lt_of_not_base he hc)
    | true =>
      have hpos := charWidth_pos c
      have hstyle : 1 ≤ f.toCome := by
        rw [Following.toCome, he, Bool.toNat_true]
        omega
      have hemoji : (Following.of .emoji).toCome = 0 := rfl
      rw [share_of_base he hc, hemoji]
      split <;> omega

theorem columns_le (s : List Char) : columns s + (following s).toCome ≤ width s := by
  induction s with
  | nil => exact Int.le_refl _
  | cons c s ih =>
    have hle := share_le c (following s)
    simp only [columns, following, width]
    omega

/-- No text is wider than its characters together. -/
theorem displayWidth_le (s : List Char) : displayWidth s ≤ width s := by
  have hle := columns_le s
  rw [displayWidth_eq]
  omega

end SchemaSketch.Text
