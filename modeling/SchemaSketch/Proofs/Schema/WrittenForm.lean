import SchemaSketch.Proofs.Schema.Cleaning
import SchemaSketch.Proofs.Schema.Grammar

/-!
Schemas as they are written. Every table is listed column by column and can be written in many
ways; cleaning leaves the plain way, without quotes and lengths.
-/
namespace SchemaSketch.Schema

open Text

def isNameChar (c : Char) : Bool :=
  !(isSpace c || isQuote c || c == '(' || c == ')' || c == ',')

structure Field where
  column : Column
  reference : Option (String × String)

def Field.foreignKey? (f : Field) : Option ForeignKey :=
  f.reference.map fun (table, target) => ⟨f.column.name, table, target⟩

/-- A column named `PRIMARY` would be read as a constraint, and `t(1)` as a length behind `t`. -/
structure Field.Legible (f : Field) : Prop where
  name : f.column.name.toList ∈ oneOrMore isNameChar
  not_constraint : f.column.name.toList ∉ word "PRIMARY"
  dataType : f.column.dataType.toList ∈ oneOrMore isNameChar
  reference : ∀ table target, f.reference = some (table, target) →
    table.toList ∈ oneOrMore isNameChar ∧ target.toList ∈ oneOrMore isNameChar ∧
      ∃ c ∈ target.toList, c.isDigit = false

structure Listing where
  name : String
  fields : List Field

def Listing.table (d : Listing) : Table :=
  ⟨d.name, d.fields.map Field.column, d.fields.filterMap Field.foreignKey?⟩

structure Listing.Legible (d : Listing) : Prop where
  name : d.name.toList ∈ oneOrMore isNameChar
  fields : ∀ f ∈ d.fields, f.Legible

def parens (l : Language Char) : Language Char :=
  {['(']} * l * {[')']}

def lengthMark : Language Char :=
  zeroOrMore isSpace * parens (spacing * oneOrMore Char.isDigit * spacing)

def heading : Language Char :=
  word "CREATE" * gap * word "TABLE" * gap

structure Spelling where
  name : List Char → Language Char
  length : Language Char

namespace Spelling

def free : Spelling where
  name w := zeroOrMore isQuote * {w} * zeroOrMore isQuote
  length := 1 + lengthMark

def plain : Spelling where
  name w := {w}
  length := 1

variable (S : Spelling)

def reference : Option (String × String) → Language Char
  | none => 1
  | some (table, target) =>
    gap * word "REFERENCES" * gap * S.name table.toList * spacing *
      parens (spacing * S.name target.toList * spacing)

def field (f : Field) : Language Char :=
  S.name f.column.name.toList * gap * (S.name f.column.dataType.toList * S.length) *
    (if f.column.primaryKey then keyMark else 1) * S.reference f.reference

def body : List Field → Language Char
  | [] => spacing
  | [f] => spacing * S.field f * spacing
  | f :: fs => spacing * S.field f * spacing * ({[',']} * body fs)

def statement (d : Listing) : Language Char :=
  heading * (1 + condition) * S.name d.name.toList * spacing * parens (S.body d.fields)

theorem plain_name (w : List Char) : plain.name w = {w} := rfl

theorem plain_length : plain.length = 1 := rfl

end Spelling

/-- What may stand around statements: texts in which no heading is left once they are clean. -/
def aside : Language Char :=
  {g | ∀ u v, cleanup g = u ++ v → v ∉ heading * ⊤}

def written (ds : List Listing) : Language Char :=
  aside * (ds.map fun d => Spelling.free.statement d * aside).prod

theorem mem_parens {l : Language Char} {s : List Char} :
    s ∈ parens l ↔ ∃ a ∈ l, '(' :: (a ++ [')']) = s := by
  rw [parens, mul_assoc, singleton_mul_eq]
  constructor
  · intro h
    obtain ⟨x, hx, rfl⟩ := h
    obtain ⟨a, ha, rfl⟩ := mem_mul_singleton.1 hx
    exact ⟨a, ha, rfl⟩
  · intro h
    obtain ⟨a, ha, rfl⟩ := h
    exact ⟨a ++ [')'], mem_mul_singleton.2 ⟨a, ha, rfl⟩, rfl⟩

theorem isNameChar_iff {c : Char} : isNameChar c = true ↔
    isSpace c = false ∧ isQuote c = false ∧ c ≠ '(' ∧ c ≠ ')' ∧ c ≠ ',' := by
  simp [isNameChar, and_assoc]

theorem isGap_of_isNameChar {c : Char} (h : isNameChar c = true) : isGap c = false := by
  by_contra hc
  have hs := isSpace_of_isGap (Bool.of_not_eq_false hc)
  rw [(isNameChar_iff.1 h).1] at hs
  cases hs

/-- The letters of a keyword could stand in a name. -/
theorem isNameChar_of_toUpper {c : Char} (h : c.toUpper.isUpper = true) : isNameChar c = true := by
  have hl := toNat_of_isAlpha (isAlpha_of_toUpper h)
  have hne {d : Char} (hd : d.toNat < 65 ∨ 90 < d.toNat ∧ d.toNat < 97) : c ≠ d := by
    rintro rfl
    omega
  rw [isNameChar_iff]
  refine ⟨?_, ?_, hne (by decide), hne (by decide), hne (by decide)⟩
  · simp only [isSpace, Bool.or_eq_false_iff, Bool.and_eq_false_iff, decide_eq_false_iff_not,
      beq_eq_false_iff_ne]
    omega
  · simp only [isQuote, Bool.or_eq_false_iff, beq_eq_false_iff_ne]
    exact ⟨⟨⟨by omega, by omega⟩, hne (by decide)⟩, hne (by decide)⟩

theorem isNameChar_of_mem_word {w : String} (hw : w.toList.all Char.isUpper = true) :
    ∀ s ∈ word w, ∀ c ∈ s, isNameChar c = true := by
  intro s hs c hc
  have hs : s.map Char.toUpper = w.toList := hs
  apply isNameChar_of_toUpper
  exact List.all_eq_true.1 hw _ (hs ▸ List.mem_map_of_mem hc)

section Cleans

variable {w : List Char} {l m : Language Char} {f : Field} {fs : List Field} {d : Listing}

theorem dropQuotes_gaps {g : List Char} (hg : g ∈ spacing) : dropQuotes g = g :=
  dropQuotes_of_not_quote fun c hc => (isQuote_of_isGap (hg c hc)).1

theorem cleans_gap : Cleans gap gap :=
  cleans_oneOrMore fun _ => isQuote_of_isGap

theorem cleans_spacing : Cleans spacing spacing :=
  cleans_zeroOrMore fun _ => isQuote_of_isGap

theorem isQuote_of_isNameChar {c : Char} (h : isNameChar c = true) :
    isQuote c = false ∧ c ≠ '(' := by
  obtain ⟨-, hq, ho, -, -⟩ := isNameChar_iff.1 h
  exact ⟨hq, ho⟩

theorem cleans_word {w : String} (hw : w.toList.all Char.isUpper = true) :
    Cleans (word w) (word w) := by
  apply cleans_self
  intro s hs c hc
  exact isQuote_of_isNameChar (isNameChar_of_mem_word hw s hs c hc)

theorem cleans_keyMark : Cleans keyMark keyMark :=
  ((cleans_gap.mul (cleans_word rfl)).mul cleans_gap).mul (cleans_word rfl)

theorem cleans_condition : Cleans condition condition :=
  (((((cleans_word rfl).mul cleans_gap).mul (cleans_word rfl)).mul cleans_gap).mul
    (cleans_word rfl)).mul cleans_gap

theorem cleans_parens (h : Cleans l m)
    (hn : ∀ s ∈ l, ∀ r, lengthTail? (dropQuotes s ++ ')' :: r) = none) :
    Cleans (parens l) (parens m) := by
  intro s hs
  obtain ⟨a, ha, rfl⟩ := mem_parens.1 hs
  obtain ⟨t, ht, hat⟩ := h a ha
  have hclose : Strips [')'] [')'] := strips_of_not_mem (by decide)
  refine ⟨_, mem_parens.2 ⟨t, ht, rfl⟩, ?_⟩
  have hq : dropQuotes ('(' :: (a ++ [')'])) = '(' :: (dropQuotes a ++ [')']) := by
    simp [dropQuotes, isQuote]
  rw [hq]
  apply (hat.append hclose).opening
  intro r
  rw [List.append_assoc]
  exact hn a ha r

theorem dropQuotes_name {s : List Char} (hw : w ∈ oneOrMore isNameChar)
    (hs : s ∈ Spelling.free.name w) : dropQuotes s = w := by
  obtain ⟨a, ha, q', hq', rfl⟩ := Language.mem_mul.1 hs
  obtain ⟨q, hq, rfl⟩ := mem_mul_singleton.1 ha
  have hn : dropQuotes w = w := dropQuotes_of_not_quote fun c hc =>
    (isQuote_of_isNameChar (hw.2 c hc)).1
  rw [dropQuotes_append, dropQuotes_append, dropQuotes_of_quote hq, dropQuotes_of_quote hq', hn,
    List.append_nil, List.nil_append]

theorem strips_name (hw : w ∈ oneOrMore isNameChar) : Strips w w :=
  strips_of_not_mem fun hc => (isQuote_of_isNameChar (hw.2 _ hc)).2 rfl

theorem cleans_name (hw : w ∈ oneOrMore isNameChar) :
    Cleans (Spelling.free.name w) (Spelling.plain.name w) := by
  intro s hs
  refine ⟨w, rfl, ?_⟩
  rw [dropQuotes_name hw hs]
  exact strips_name hw

theorem stops_reverse_name (hw : w ∈ oneOrMore isNameChar) : Stops isSpace w.reverse :=
  stops_of_forall fun c hc => (isNameChar_iff.1 (hw.2 c (List.mem_reverse.1 hc))).1

theorem toNat_of_isDigit {c : Char} (h : c.isDigit = true) : 48 ≤ c.toNat ∧ c.toNat ≤ 57 := by
  simp only [Char.isDigit, Bool.and_eq_true, decide_eq_true_eq] at h
  exact h

theorem isQuote_of_isDigit {c : Char} (h : c.isDigit = true) : isQuote c = false := by
  have hd := toNat_of_isDigit h
  by_contra hq
  simp only [Bool.not_eq_false, isQuote, Bool.or_eq_true, beq_iff_eq] at hq
  obtain ((hq | hq) | rfl) | rfl := hq
  · omega
  · omega
  · cases h
  · cases h

theorem isQuote_of_mem_lengthMark : ∀ s ∈ lengthMark, ∀ c ∈ s, isQuote c = false := by
  have hspacing : ∀ s ∈ spacing, ∀ c ∈ s, isQuote c = false := by
    intro s hs c hc
    exact (isQuote_of_isGap (hs c hc)).1
  have hdigits : ∀ s ∈ oneOrMore Char.isDigit, ∀ c ∈ s, isQuote c = false := by
    intro s hs c hc
    exact isQuote_of_isDigit (hs.2 c hc)
  have hbracket {b : Char} (hb : isQuote b = false) :
      ∀ s ∈ ({[b]} : Language Char), ∀ c ∈ s, isQuote c = false := by
    intro s hs c hc
    obtain rfl : s = [b] := hs
    obtain rfl := List.mem_singleton.1 hc
    exact hb
  have hinner := forall_mem_mul (forall_mem_mul hspacing hdigits) hspacing
  apply forall_mem_mul
  · intro s hs c hc
    exact (isQuote_of_isSpace (hs c hc)).1
  · exact forall_mem_mul (forall_mem_mul (hbracket rfl) hinner) (hbracket rfl)

theorem lengthTail?_of_digits {s : List Char}
    (hs : s ∈ spacing * oneOrMore Char.isDigit * spacing) (r : List Char) :
    lengthTail? (s ++ [')'] ++ r) = some r := by
  obtain ⟨y, hy, g₂, hg₂, rfl⟩ := Language.mem_mul.1 hs
  obtain ⟨g₁, hg₁, digits, hd, rfl⟩ := Language.mem_mul.1 hy
  have hstop : Stops Char.isDigit (g₂ ++ ')' :: r) := by
    cases g₂ with
    | nil => exact stops_cons rfl
    | cons c g => exact stops_cons (isDigit_of_isGap (hg₂ c List.mem_cons_self))
  have h := lengthTail?_digits (r := ')' :: r) hg₁ hd hg₂ hstop (stops_cons rfl)
  simpa [List.append_assoc, exactly?] using h

theorem mem_lengthMark {s : List Char} (hs : s ∈ lengthMark) :
    ∃ g t, g ∈ zeroOrMore isSpace ∧ (∀ r, lengthTail? (t ++ r) = some r) ∧
      g ++ '(' :: t = s := by
  obtain ⟨g, hg, x, hx, rfl⟩ := Language.mem_mul.1 hs
  obtain ⟨t, ht, rfl⟩ := mem_parens.1 hx
  exact ⟨g, _, hg, lengthTail?_of_digits ht, rfl⟩

/-- A length goes with its white space, whatever digits are in it. -/
theorem cleans_type (hw : w ∈ oneOrMore isNameChar) :
    Cleans (Spelling.free.name w * Spelling.free.length)
      (Spelling.plain.name w * Spelling.plain.length) := by
  intro s hs
  obtain ⟨a, ha, b, hb, rfl⟩ := Language.mem_mul.1 hs
  refine ⟨w, ?_, ?_⟩
  · rw [Spelling.plain_length, mul_one]
    rfl
  rw [dropQuotes_append, dropQuotes_name hw ha]
  obtain rfl | hb := hb
  · rw [dropQuotes_of_not_quote (s := []) (by simp), List.append_nil]
    exact strips_name hw
  · rw [dropQuotes_of_not_quote (isQuote_of_mem_lengthMark b hb)]
    obtain ⟨g, t, hg, ht, rfl⟩ := mem_lengthMark hb
    exact (strips_name hw).length (stops_reverse_name hw) hw.1 hg ht

theorem lengthTail?_name {s : List Char} (hw : w ∈ oneOrMore isNameChar)
    (hn : ∃ c ∈ w, c.isDigit = false) (hs : s ∈ spacing * (Spelling.free.name w * l))
    (r : List Char) : lengthTail? (dropQuotes s ++ r) = none := by
  obtain ⟨g, hg, x, hx, rfl⟩ := Language.mem_mul.1 hs
  obtain ⟨a, ha, y, -, rfl⟩ := Language.mem_mul.1 hx
  rw [dropQuotes_append, dropQuotes_append, dropQuotes_name hw ha, dropQuotes_gaps hg,
    List.append_assoc, List.append_assoc]
  refine lengthTail?_word hg (fun c hc => ?_) hn
  exact ⟨isGap_of_isNameChar (hw.2 c hc), (isNameChar_iff.1 (hw.2 c hc)).2.2.2.1⟩

/-- No two words make a length, even if the first is a number. -/
theorem lengthTail?_names {w' s : List Char} (hw : w ∈ oneOrMore isNameChar)
    (hw' : w' ∈ oneOrMore isNameChar)
    (hs : s ∈ spacing * (Spelling.free.name w * (gap * (Spelling.free.name w' * l))))
    (r : List Char) : lengthTail? (dropQuotes s ++ r) = none := by
  by_cases hn : ∃ c ∈ w, c.isDigit = false
  · exact lengthTail?_name hw hn hs r
  · obtain ⟨g, hg, x, hx, rfl⟩ := Language.mem_mul.1 hs
    obtain ⟨a, ha, y, hy, rfl⟩ := Language.mem_mul.1 hx
    obtain ⟨g', hg', z, hz, rfl⟩ := Language.mem_mul.1 hy
    obtain ⟨b, hb, u, -, rfl⟩ := Language.mem_mul.1 hz
    have hdigits : w ∈ oneOrMore Char.isDigit := by
      refine ⟨hw.1, fun c hc => ?_⟩
      by_contra hd
      exact hn ⟨c, hc, Bool.eq_false_of_not_eq_true hd⟩
    simp only [dropQuotes_append, dropQuotes_name hw ha, dropQuotes_name hw' hb,
      dropQuotes_gaps hg, dropQuotes_gaps hg'.2, List.append_assoc]
    obtain ⟨hne, hw'⟩ := hw'
    cases w' with
    | nil => exact absurd rfl hne
    | cons c w' =>
      have hc := hw' c List.mem_cons_self
      have hdigit : Stops Char.isDigit g' :=
        stops_of_forall fun d hd => isDigit_of_isGap (hg'.2 d hd)
      have hgap : Stops isGap (c :: w' ++ (dropQuotes u ++ r)) :=
        stops_cons (isGap_of_isNameChar hc)
      rw [lengthTail?_digits hg hdigits hg'.2 (hdigit.append hg'.1) hgap]
      simp [exactly?, (isNameChar_iff.1 hc).2.2.2.1]

theorem cleans_reference (hf : f.Legible) :
    Cleans (Spelling.free.reference f.reference) (Spelling.plain.reference f.reference) := by
  cases hr : f.reference with
  | none => exact cleans_one
  | some x =>
    obtain ⟨ht, hx, hn⟩ := hf.reference x.1 x.2 hr
    refine (((((cleans_gap.mul (cleans_word rfl)).mul cleans_gap).mul (cleans_name ht)).mul
      cleans_spacing).mul (cleans_parens ((cleans_spacing.mul (cleans_name hx)).mul
        cleans_spacing) ?_))
    intro s hs r
    rw [mul_assoc] at hs
    exact lengthTail?_name hx hn hs _

theorem cleans_field (hf : f.Legible) :
    Cleans (Spelling.free.field f) (Spelling.plain.field f) := by
  have hkey : Cleans (if f.column.primaryKey then keyMark else 1)
      (if f.column.primaryKey then keyMark else 1) := by
    split
    · exact cleans_keyMark
    · exact cleans_one
  exact ((((cleans_name hf.name).mul cleans_gap).mul (cleans_type hf.dataType)).mul hkey).mul
    (cleans_reference hf)

theorem cleans_body (hf : ∀ f ∈ fs, f.Legible) :
    Cleans (Spelling.free.body fs) (Spelling.plain.body fs) := by
  induction fs with
  | nil => exact cleans_spacing
  | cons f fs ih =>
    have h := (cleans_spacing.mul (cleans_field (hf f List.mem_cons_self))).mul cleans_spacing
    cases fs with
    | nil => exact h
    | cons f' fs =>
      have hcomma : Cleans {[',']} {[',']} := cleans_singleton rfl (by decide)
      exact h.mul (hcomma.mul (ih fun f hf' => hf f (List.mem_cons_of_mem _ hf')))

theorem mem_of_mem_body (S : Spelling) : ∀ s ∈ S.body (f :: fs), s ∈ spacing *
    (S.name f.column.name.toList * (gap * (S.name f.column.dataType.toList * ⊤))) := by
  cases fs with
  | nil =>
    simp only [Spelling.body, Spelling.field, mul_assoc]
    exact mul_mono_right (mul_mono_right (mul_mono_right (mul_mono_right fun _ _ => trivial)))
  | cons f' fs =>
    simp only [Spelling.body, Spelling.field, mul_assoc]
    exact mul_mono_right (mul_mono_right (mul_mono_right (mul_mono_right fun _ _ => trivial)))

theorem cleans_statement (hd : d.Legible) :
    Cleans (Spelling.free.statement d) (Spelling.plain.statement d) := by
  have hparens : Cleans (parens (Spelling.free.body d.fields))
      (parens (Spelling.plain.body d.fields)) := by
    apply cleans_parens (cleans_body hd.fields)
    intro s hs r
    have hf := hd.fields
    cases hfs : d.fields with
    | nil =>
      rw [hfs] at hs
      rw [dropQuotes_gaps hs]
      exact lengthTail?_of_stops hs (stops_cons rfl) (stops_cons rfl)
    | cons f fs =>
      rw [hfs] at hs hf
      have hl := hf f List.mem_cons_self
      exact lengthTail?_names hl.name hl.dataType (mem_of_mem_body _ s hs) _
  have hheading : Cleans heading heading :=
    (((cleans_word rfl).mul cleans_gap).mul (cleans_word rfl)).mul cleans_gap
  exact (((hheading.mul (cleans_one.add cleans_condition)).mul (cleans_name hd.name)).mul
    cleans_spacing).mul hparens

end Cleans

end SchemaSketch.Schema
