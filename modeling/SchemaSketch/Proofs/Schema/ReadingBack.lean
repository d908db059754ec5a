import SchemaSketch.Proofs.Schema.PlainForm

/-!
Schemas are read back as they were written. Cleaning leaves plain statements, and nothing between
them can be taken for a part of one.
-/
namespace SchemaSketch.Schema

open Text

def Headed (s : List Char) : Prop :=
  ∀ c ∈ s.head?, c.toUpper = 'C'

section Texts

variable {g behind kept s : List Char} {l : Language Char} {d : Listing} {ds : List Listing}

theorem headed_cons {c : Char} (h : c.toUpper = 'C') : Headed (c :: s) :=
  fun _ hd => Option.some.inj hd ▸ h

theorem head_of_heading (hs : s ∈ heading * l) : ∃ c s', s = c :: s' ∧ c.toUpper = 'C' := by
  simp only [heading, mul_assoc] at hs
  obtain ⟨a, ha, x, -, rfl⟩ := Language.mem_mul.1 hs
  have ha : a.map Char.toUpper = "CREATE".toList := ha
  cases a with
  | nil => cases ha
  | cons c a => exact ⟨c, a ++ x, rfl, (List.cons.inj ha).1⟩

/-- The first letter of a heading does not come again in it. -/
theorem tail_of_heading (hs : s ∈ heading) : ∀ c ∈ s.tail, c.toUpper ≠ 'C' := by
  have hword {w : String} (hw : 'C' ∉ w.toList) : ∀ s ∈ word w, ∀ c ∈ s, c.toUpper ≠ 'C' := by
    intro s hs c hc hu
    have hs : s.map Char.toUpper = w.toList := hs
    exact hw (hu ▸ hs ▸ List.mem_map_of_mem hc)
  have hgap : ∀ s ∈ gap, ∀ c ∈ s, c.toUpper ≠ 'C' := by
    intro s hs c hc hu
    have hg := isGap_toUpper (hs.2 c hc)
    rw [hu] at hg
    cases hg
  rw [heading, mul_assoc, mul_assoc] at hs
  obtain ⟨a, ha, x, hx, rfl⟩ := Language.mem_mul.1 hs
  have ha : a.map Char.toUpper = "CREATE".toList := ha
  cases a with
  | nil => cases ha
  | cons b a =>
    intro c hc
    obtain hc | hc := List.mem_append.1 hc
    · exact hword (w := "REATE") (by decide) a (List.cons.inj ha).2 c hc
    · exact forall_mem_mul hgap (forall_mem_mul (hword (by decide)) hgap) x hx c hc

/-- A heading that begins in one text cannot end in another that begins like a heading itself. -/
theorem barren_of_headed (hg : ∀ u v, g = u ++ v → v ∉ heading * ⊤) (hb : Headed behind) :
    Barren g behind := by
  intro u v name body he hv h
  rw [clause_mul, ← mul_assoc, ← mul_assoc, ← mul_assoc, ← heading] at h
  obtain ⟨a, ha, x, -, hx⟩ := Language.mem_mul.1 h
  obtain ⟨y, rfl, rfl⟩ | ⟨y, rfl, rfl⟩ := List.append_eq_append_iff.1 hx
  · exact hg u _ he (mem_mul_top.2 ⟨a, ha, y, rfl⟩)
  · cases y with
    | nil =>
      rw [List.append_nil] at ha
      exact hg u v he (mem_mul_top.2 ⟨v, ha, [], List.append_nil v⟩)
    | cons c y =>
      apply tail_of_heading ha c _ (hb c rfl)
      rw [List.tail_append_of_ne_nil hv]
      exact List.mem_append_right _ List.mem_cons_self

theorem Headed.endsLength (h : Headed s) : EndsLength s := by
  intro c hc
  have hu : c.toUpper.isUpper = true := by
    rw [h c hc]
    rfl
  have hn := isNameChar_of_toUpper hu
  refine ⟨isGap_of_isNameChar hn, ?_, (isNameChar_iff.1 hn).2.2.2.1⟩
  by_contra hd
  have hl := toNat_of_isAlpha (isAlpha_of_toUpper hu)
  have hr := toNat_of_isDigit (Bool.of_not_eq_false hd)
  omega

theorem head_of_statement {S : Spelling} (hs : s ∈ S.statement d) :
    ∃ c s', s = c :: s' ∧ c.toUpper = 'C' := by
  rw [Spelling.statement, mul_assoc, mul_assoc, mul_assoc] at hs
  exact head_of_heading hs

/-- Quotes are no letters, so a statement still begins with its first letter without them. -/
theorem headed_statement {r : List Char} (hs : s ∈ Spelling.free.statement d) :
    Headed (dropQuotes (s ++ r)) := by
  obtain ⟨c, s, rfl, hc⟩ := head_of_statement hs
  have hn : isNameChar c = true := isNameChar_of_toUpper (hc ▸ rfl)
  have hq : dropQuotes (c :: (s ++ r)) = c :: dropQuotes (s ++ r) := by
    apply List.filter_cons_of_pos
    rw [(isQuote_of_isNameChar hn).1]
    rfl
  rw [List.cons_append, hq]
  exact headed_cons hc

theorem stops_reverse_statement {S : Spelling} (hs : s ∈ S.statement d) :
    Stops isSpace (s.reverse ++ kept) := by
  obtain ⟨x, -, y, hy, rfl⟩ := Language.mem_mul.1 hs
  obtain ⟨z, -, rfl⟩ := mem_mul_singleton.1 hy
  rw [← List.append_assoc, List.reverse_append]
  exact stops_cons rfl

/-- What stands in front of a statement is cleaned on its own. -/
theorem dropLengthsFrom_aside (hk : Stops isSpace kept) (hs : Headed s) :
    dropLengthsFrom kept (dropQuotes g ++ s) =
      dropLengthsFrom ((cleanup g).reverse ++ kept) s :=
  dropLengthsFrom_append (k := []) hk hs.endsLength

/-- What is left of a series of statements is read as their tables. It begins with the first
letter of a statement, so that no length or statement before it can go on in it. -/
theorem tables_of_statements (hd : ∀ d ∈ ds, d.Legible)
    (hs : s ∈ (ds.map fun d => Spelling.free.statement d * aside).prod) :
    Headed (dropQuotes s) ∧
      ∃ t, (∀ kept, dropLengthsFrom kept (dropQuotes s) = kept.reverse ++ t) ∧
        Headed t ∧ tables t = ds.map Listing.table := by
  induction ds generalizing s with
  | nil =>
    obtain rfl : s = [] := hs
    have hnil : Headed [] := fun c hc => nomatch hc
    refine ⟨hnil, [], fun kept => ?_, hnil, ?_⟩
    · rw [dropQuotes, List.filter_nil, dropLengthsFrom, List.append_nil]
    · rw [tables]
      rfl
  | cons d ds ih =>
    rw [List.map_cons, List.prod_cons] at hs
    obtain ⟨x, hx, s', hs', rfl⟩ := Language.mem_mul.1 hs
    obtain ⟨a, ha, g, hg, rfl⟩ := Language.mem_mul.1 hx
    obtain ⟨hhead, t, ht, hthead, htables⟩ := ih (fun d hm => hd d (List.mem_cons_of_mem _ hm)) hs'
    have hl := hd d List.mem_cons_self
    obtain ⟨p, hp, hap⟩ := cleans_statement hl a ha
    -- A statement ends in a parenthesis: no length behind it takes white space out of it.
    refine ⟨?_, p ++ (cleanup g ++ t), fun kept => ?_, ?_, ?_⟩
    · rw [List.append_assoc]
      exact headed_statement ha
    · calc
        dropLengthsFrom kept (dropQuotes (a ++ g ++ s'))
            = dropLengthsFrom (p.reverse ++ kept) (dropQuotes g ++ dropQuotes s') := by
              rw [dropQuotes_append, dropQuotes_append, List.append_assoc, hap]
          _ = dropLengthsFrom ((cleanup g).reverse ++ (p.reverse ++ kept)) (dropQuotes s') :=
              dropLengthsFrom_aside (stops_reverse_statement hp) hhead
          _ = kept.reverse ++ (p ++ (cleanup g ++ t)) := by
              rw [ht]
              simp
    · obtain ⟨c, p, rfl, hc⟩ := head_of_statement hp
      exact headed_cons hc
    · rw [tables_of_statement (statement?_of_plain hl hp), tables_gap (barren_of_headed hg hthead),
        htables, List.map_cons]

/-- Every schema is read back from every text that it can be written as. -/
theorem ofText_of_written {ds : List Listing} (hd : ∀ d ∈ ds, d.Legible) {text : String}
    (ht : text.toList ∈ written ds) : ofText text = ds.map Listing.table := by
  obtain ⟨g, hg, s, hs, he⟩ := Language.mem_mul.1 ht
  obtain ⟨hhead, t, ht, hthead, htables⟩ := tables_of_statements hd hs
  have hclean : cleanup (g ++ s) = dropLengthsFrom ((cleanup g).reverse ++ []) (dropQuotes s) := by
    rw [cleanup, dropQuotes_append]
    exact dropLengthsFrom_aside stops_nil hhead
  rw [ofText, ← he, hclean, ht, List.append_nil, List.reverse_reverse,
    tables_gap (barren_of_headed hg hthead), htables]

/-- A text whose clean form lacks the first letter of a heading can stand anywhere between
statements. -/
theorem mem_aside (h : ∀ c ∈ cleanup g, c.toUpper ≠ 'C') : g ∈ aside := by
  intro u v he hv
  obtain ⟨c, v, rfl, hc⟩ := head_of_heading hv
  apply h c _ hc
  rw [he]
  exact List.mem_append_right u List.mem_cons_self

/-- A table named like a keyword, with quotes, a length and a reference to itself. -/
theorem ofText_of_written_itself :
    let id : Field := ⟨⟨"id", "INT", true⟩, some ("IF", "id")⟩
    let text := "create table [IF] (id INT (5) Primary Key references IF(id));"
    (∀ d ∈ [Listing.mk "IF" [id]], d.Legible) ∧ text.toList ∈ written [⟨"IF", [id]⟩] ∧
      ofText text = [⟨"IF", [⟨"id", "INT", true⟩], [⟨"id", "IF", "id"⟩]⟩] := by
  intro id text
  have hid : id.Legible := by
    refine ⟨by decide, by decide, by decide, fun table target h => ?_⟩
    obtain ⟨rfl, rfl⟩ := Prod.mk.inj (Option.some.inj h)
    exact ⟨by decide, by decide, 'i', by decide, rfl⟩
  have hd : ∀ d ∈ [Listing.mk "IF" [id]], d.Legible := by
    intro d hm
    obtain rfl := List.mem_singleton.1 hm
    refine ⟨by decide, fun f hf => ?_⟩
    obtain rfl := List.mem_singleton.1 hf
    exact hid
  have mul {l m : Language Char} {a b : List Char} (ha : a ∈ l) (hb : b ∈ m) : a ++ b ∈ l * m :=
    Language.append_mem_mul ha hb
  have hgap : [' '] ∈ gap := (by decide : [' '] ∈ oneOrMore isGap)
  have hspacing : [' '] ∈ spacing ∧ [] ∈ spacing := ⟨hgap.2, fun _ h => nomatch h⟩
  have hname (w : String) : [] ++ w.toList ++ [] ∈ Spelling.free.name w.toList :=
    mul (mul (by decide) rfl) (by decide)
  have hquoted : ['['] ++ "IF".toList ++ [']'] ∈ Spelling.free.name "IF".toList :=
    mul (mul (by decide) rfl) (by decide)
  have hparens {l : Language Char} {s : List Char} (h : s ∈ l) : '(' :: (s ++ [')']) ∈ parens l :=
    mem_parens.2 ⟨s, h, rfl⟩
  have hlength : [' '] ++ ('(' :: (([] ++ ['5'] ++ []) ++ [')'])) ∈ Spelling.free.length := by
    right
    exact mul (by decide) (hparens (mul (mul hspacing.2 (by decide)) hspacing.2))
  have hkey : [' '] ++ "Primary".toList ++ [' '] ++ "Key".toList ∈ keyMark :=
    mul (mul (mul hgap (by decide)) hgap) (by decide)
  have hreference : " references IF(id)".toList ∈ Spelling.free.reference (some ("IF", "id")) := by
    have hword : "references".toList ∈ word "REFERENCES" := by decide
    have htarget := hparens (mul (mul hspacing.2 (hname "id")) hspacing.2)
    exact mul (mul (mul (mul (mul hgap hword) hgap) (hname "IF")) hspacing.2) htarget
  have hfield : "id INT (5) Primary Key references IF(id)".toList ∈ Spelling.free.field id :=
    mul (mul (mul (mul (hname "id") hgap) (mul (hname "INT") hlength)) hkey) hreference
  have hheading : "create".toList ++ [' '] ++ "table".toList ++ [' '] ∈ heading :=
    mul (mul (mul (by decide) hgap) (by decide)) hgap
  have hstatement : "create table [IF] (id INT (5) Primary Key references IF(id))".toList ∈
      Spelling.free.statement ⟨"IF", [id]⟩ := by
    have hplain : [] ∈ 1 + condition := Or.inl rfl
    have hbody := hparens (mul (mul hspacing.2 hfield) hspacing.2)
    exact mul (mul (mul (mul hheading hplain) hquoted) hspacing.1) hbody
  have haside : [';'] ∈ aside ∧ [] ∈ aside := by
    constructor <;> apply mem_aside <;>
      simp [cleanup, dropQuotes, isQuote, dropLengths, dropLengthsFrom]
  have ht : text.toList ∈ written [⟨"IF", [id]⟩] := by
    have he : text.toList =
        [] ++ ("create table [IF] (id INT (5) Primary Key references IF(id))".toList ++ [';']) := by
      decide
    rw [written, List.map_singleton, List.prod_singleton, he]
    exact mul haside.2 (mul hstatement haside.1)
  exact ⟨hd, ht, ofText_of_written hd ht⟩

end Texts

end SchemaSketch.Schema
