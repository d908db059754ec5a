import SchemaSketch.Text.CharTables

/-!
How many columns a character and a text take on a character grid. A character's share of a text
depends on what follows it: emoji, flags and some letters join into one shape, and a selector after
a character changes how it is shown. The width of a text is therefore summed up from its end.
-/
namespace SchemaSketch.Text

def baseWidth (c : Char) : Nat :=
  let n := c.toNat
  if covers zeroWidth n then 0
  else if covers wide n then 2
  else if n = 0x17D8 then 3
  else 1

def isControl (c : Char) : Bool :=
  c.toNat < 0x20 || (0x7F ≤ c.toNat && c.toNat < 0xA0)

def charWidth (c : Char) : Nat :=
  if isControl c then 1 else max 1 (baseWidth c)

theorem charWidth_pos (c : Char) : 1 ≤ charWidth c := by
  unfold charWidth
  split
  · exact Nat.le_refl 1
  · exact Nat.le_max_left 1 _

/-- What stands to the right of a character, as far as it can change the character's width. The
flag `joined` says that a zero-width joiner stands in between. -/
inductive Context
  | plain
  | lineFeed
  | skinTone
  | regional
  | regionals
  | emoji
  | joinedEmoji
  | joinedKeycap
  | joinedRegional
  | joinedPairs
  | joinedPairsAndHalf
  | tagEnd
  | tagDigits (count : Nat)
  | tagLetters (count : Nat)
  | vowelE
  | vowelAi
  | alef
  | lamed (joined : Bool)
  | ya (joined : Bool)
  | yaAfterVowel
  | consonant (joined : Bool)
  | consonantAfterJoiner
  | toneLetter
  | orkhonI (joined : Bool)
  | subscriptLetter
  deriving DecidableEq

/-- A context together with the selector that stands nearest, if it still waits for its base. -/
structure Following where
  context : Context
  emojiStyle : Bool
  textStyle : Bool
  wideStyle : Bool
  deriving DecidableEq

def Following.of (context : Context) : Following :=
  ⟨context, false, false, false⟩

def Context.isLetter : Context → Bool
  | .alef | .lamed _ | .ya _ | .yaAfterVowel | .consonant _ | .consonantAfterJoiner
  | .toneLetter | .orkhonI _ | .subscriptLetter => true
  | _ => false

def Following.selectEmoji (f : Following) : Following :=
  if f.context.isLetter || f.context = .joinedEmoji || f.context = .joinedKeycap then
    { f with emojiStyle := true }
  else ⟨.plain, true, false, false⟩

def Following.dropEmojiStyle (f : Following) : Following :=
  if f.context.isLetter then { f with emojiStyle := false } else .of .plain

def Following.selectText (f : Following) : Following :=
  if f.context.isLetter then { f with textStyle := true } else ⟨.plain, false, true, false⟩

def Following.selectWide (f : Following) : Following :=
  if f.context.isLetter then { f with wideStyle := true } else ⟨.plain, false, false, true⟩

def Context.join : Context → Context
  | .lamed _ => .lamed true
  | .ya _ => .ya true
  | .consonant _ => .consonant true
  | .orkhonI _ => .orkhonI true
  | context => context

def isRegional (n : Nat) : Bool :=
  0x1F1E6 ≤ n && n ≤ 0x1F1FF

def isSkinTone (n : Nat) : Bool :=
  0x1F3FB ≤ n && n ≤ 0x1F3FF

def isEmoji (n : Nat) : Bool :=
  covers emojiPresentation n

def isAlef (n : Nat) : Bool :=
  covers [(0x622, 0x623), (0x625, 0x625), (0x627, 0x627), (0x671, 0x673), (0x675, 0x675),
    (0x773, 0x774), (0x870, 0x882)] n

def isLam (n : Nat) : Bool :=
  covers [(0x644, 0x644), (0x6B5, 0x6B8), (0x76A, 0x76A), (0x8A6, 0x8A6), (0x8C7, 0x8C7)] n

def isConsonant (n : Nat) : Bool :=
  covers [(0x2D31, 0x2D65), (0x2D6F, 0x2D6F)] n

def isSubscriptLetter (n : Nat) : Bool :=
  covers [(0x1780, 0x1782), (0x1784, 0x1787), (0x1789, 0x178C), (0x178E, 0x1793),
    (0x1795, 0x1798), (0x179B, 0x179D), (0x17A0, 0x17A0), (0x17A2, 0x17A2), (0x17A7, 0x17A7),
    (0x17AB, 0x17AC), (0x17AF, 0x17AF)] n

def isTransparent (n : Nat) : Bool :=
  covers [(0x34F, 0x34F), (0x17B4, 0x17B5), (0x180B, 0x180D), (0x180F, 0x180F),
    (0xFE00, 0xFE0F), (0xE0100, 0xE01EF)] n

def isJoiningTransparent (n : Nat) : Bool :=
  covers zeroWidth n && !covers joiningOpaque n

def contextOf (n : Nat) : Following :=
  if n = 0xFE0F then ⟨.plain, true, false, false⟩
  else if n = 0xFE0E then ⟨.plain, false, true, false⟩
  else if n = 0xFE01 then ⟨.plain, false, false, true⟩
  else if n = 0x5DC then .of (.lamed false)
  else if isAlef n then .of .alef
  else if isSubscriptLetter n then .of .subscriptLetter
  else if n = 0x1A10 then .of (.ya false)
  else if isConsonant n then .of (.consonant false)
  else if n = 0xA4FC || n = 0xA4FD then .of .toneLetter
  else if n = 0x10C03 then .of (.orkhonI false)
  else if n = 0x16D67 then .of .vowelE
  else if n = 0x16D68 then .of .vowelAi
  else if isRegional n then .of .regional
  else if isSkinTone n then .of .skinTone
  else if isEmoji n then .of .emoji
  else .of .plain

/-- The share of a character that forms one shape with what follows it. A share is negative where
the shape is narrower than what follows. -/
def joinedShare? (context : Context) (n : Nat) : Option (Int × Context) :=
  match context with
  | .alef =>
    if isLam n then some (0, .plain)
    else if isJoiningTransparent n then some (0, .alef)
    else none
  | .lamed true => if n = 0x5D0 then some (0, .plain) else none
  | .subscriptLetter => if n = 0x17D2 then some (-1, .plain) else none
  | .ya true => if n = 0x1A17 then some (0, .yaAfterVowel) else none
  | .yaAfterVowel => if n = 0x1A15 then some (0, .plain) else none
  | .consonant joined =>
    if n = 0x2D7F then some (1, .consonantAfterJoiner)
    else if joined && isConsonant n then some (0, .plain)
    else none
  | .consonantAfterJoiner => if isConsonant n then some (-1, .plain) else none
  | .toneLetter => if 0xA4F8 ≤ n ∧ n ≤ 0xA4FB then some (0, .plain) else none
  | .orkhonI true => if n = 0x10C32 then some (0, .plain) else none
  | .skinTone =>
    if covers emojiModifierBase n then some (0, .emoji)
    else if n = 0x200D then some (0, .joinedEmoji)
    else none
  | .regional => if isRegional n then some (1, .regionals) else none
  | .regionals =>
    if isRegional n then some (1, .regionals)
    else if n = 0x200D then some (0, .joinedEmoji)
    else none
  | .emoji => if n = 0x200D then some (0, .joinedEmoji) else none
  | .joinedEmoji =>
    if n = 0x20E3 then some (0, .joinedKeycap)
    else if isRegional n then some (1, .joinedRegional)
    else if isSkinTone n then some (0, .skinTone)
    else if n = 0xE007F then some (0, .tagEnd)
    else if isEmoji n then some (0, .emoji)
    else none
  | .joinedRegional => if isRegional n then some (-1, .joinedPairs) else none
  | .joinedPairs =>
    if isRegional n then some (3, .joinedPairsAndHalf)
    else if n = 0x200D then some (0, .joinedEmoji)
    else none
  | .joinedPairsAndHalf =>
    if isRegional n then some (-1, .joinedPairs)
    else if n = 0x200D then some (0, .joinedEmoji)
    else none
  | .tagEnd =>
    if 0xE0061 ≤ n ∧ n ≤ 0xE007A then some (0, .tagLetters 1)
    else if 0xE0030 ≤ n ∧ n ≤ 0xE0039 then some (0, .tagDigits 1)
    else none
  | .tagLetters count =>
    if 0xE0061 ≤ n ∧ n ≤ 0xE007A ∧ count < 6 then some (0, .tagLetters (count + 1))
    else if 0xE0030 ≤ n ∧ n ≤ 0xE0039 ∧ count < 5 then some (0, .tagDigits 1)
    else if n = 0x1F3F4 ∧ 3 ≤ count then some (0, .emoji)
    else none
  | .tagDigits count =>
    if 0xE0030 ≤ n ∧ n ≤ 0xE0039 ∧ count < 3 then some (0, .tagDigits (count + 1))
    else if n = 0x1F3F4 ∧ count = 3 then some (0, .emoji)
    else none
  | .vowelE =>
    if n = 0x16D63 || n = 0x16D69 then some (0, .plain)
    else if n = 0x16D67 then some (0, .vowelAi)
    else if n = 0x16D68 then some (1, .vowelE)
    else none
  | .vowelAi => if n = 0x16D63 then some (0, .plain) else none
  | _ => none

def shareOfLetter (c : Char) (f : Following) : Int × Following :=
  let n := c.toNat
  if n = 0xFE0F then (0, f.selectEmoji)
  else if n = 0xFE0E then (0, f.selectText)
  else if n = 0xFE01 then (0, f.selectWide)
  else if f.textStyle && covers textVariationBase n then (1, .of .plain)
  else if f.wideStyle && (n = 0x2018 || n = 0x2019 || n = 0x201C || n = 0x201D) then
    (2, .of .plain)
  else if f.context.isLetter && f.context ≠ .alef && n = 0x200D then (0, .of f.context.join)
  else if f.context.isLetter && f.context ≠ .alef && isTransparent n then (0, .of f.context)
  else
    match joinedShare? f.context n with
    | some (share, context) => (share, .of context)
    | none => ((baseWidth c : Int), contextOf n)

def share (c : Char) (f : Following) : Int × Following :=
  if f.emojiStyle && covers variationBase c.toNat then
    (if f.context = .joinedEmoji || f.context = .joinedKeycap then 0 else 2, .of .emoji)
  else
    let f := if f.emojiStyle then f.dropEmojiStyle else f
    if c = '\n' then (1, .of .lineFeed)
    else if c = '\r' && f.context = .lineFeed then (0, .of .plain)
    else if c.toNat ≤ 0xA0 then (1, .of .plain)
    else shareOfLetter c f

def displayWidth (s : List Char) : Nat :=
  (s.foldr (fun c (sum, f) =>
    let (add, f) := share c f
    (sum + add, f)) ((0 : Int), Following.of .plain)).1.toNat

end SchemaSketch.Text
