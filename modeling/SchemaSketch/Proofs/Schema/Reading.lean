import SchemaSketch.Proofs.Schema.Grammar
import SchemaSketch.Proofs.Text.Lines

/-!
The readers of statements recognise the grammar: what a reader accepts is what its language
contains, and no text can be read in two ways.
-/
namespace SchemaSketch.Schema

open Text

theorem stops_keyword {w : String} {first : Char} {others : List Char} (l : Language Char)
    (hw : w.toList = first :: others) (hf : isGap first = false) :
    ∀ s ∈ word w * l, Stops isGap s :=
  stops_word hw hf fun _ => isGap_toUpper

theorem stops_run {p : Char → Bool} (hp : ∀ c, isSpace c = true → p c = false) {w : List Char}
    {l : Language Char} : ∀ s ∈ longest p w l, Stops isGap s := by
  refine stops_longest fun c hc => ?_
  by_contra hg
  have hs := isSpace_of_isGap (Bool.of_not_eq_false hg)
  rw [hp c hs] at hc
  cases hc

theorem isWordChar_of_isSpace (c : Char) (h : isSpace c = true) : isWordChar c = false := by
  simp [isWordChar, h]

theorem isTableNameChar_of_isSpace (c : Char) (h : isSpace c = true) :
    isTableNameChar c = false := by
  simp [isTableNameChar, h]

theorem isTargetChar_of_isSpace (c : Char) (h : isSpace c = true) : isTargetChar c = false := by
  simp [isTargetChar, h]

theorem recognises_primaryKey : Recognises primaryKey? id fun r => keyMark * {r} := by
  have h3 := (recognises_keyword "KEY").skip1 (p := isGap) fun r => stops_keyword _ rfl rfl
  have h2 := h3.keyword "PRIMARY"
  have h1 := h2.skip1 (p := isGap) fun r => stops_keyword _ rfl rfl
  simp only [keyMark, gap, mul_assoc]
  exact h1

theorem nil_not_mem_spacing_mul {c : Char} {l : Language Char} :
    [] ∉ spacing * ({[c]} * l) := by
  intro h
  have hc : [] ∈ ({[c]} : Language Char) := (nil_mem_mul.1 (nil_mem_mul.1 h).2).1
  cases hc

theorem referenceMark_mul (table target : List Char) (n : Language Char) :
    referenceMark table target * n =
      gap * (word "REFERENCES" * (gap * longest isTableNameChar table
        (spacing * ({['(']} * (spacing * longest isTargetChar target
          (spacing * ({[')']} * n))))))) := by
  have hc : [] ∉ spacing * ({[')']} : Language Char) := by
    simpa using nil_not_mem_spacing_mul (c := ')') (l := 1)
  simp only [referenceMark, mul_assoc]
  rw [← longest_mul nil_not_mem_spacing_mul]
  simp only [mul_assoc]
  rw [← longest_mul hc, mul_assoc]

theorem recognises_reference :
    Recognises reference? (fun x : List Char × List Char × Unit => (x.1, x.2.1))
      fun x => referenceMark x.1 x.2.1 * ⊤ := by
  -- The chain is built from its end, one reader at a time.
  have h10 (x : List Char × List Char) := (recognises_any x).exactly [')']
  have h9 (x : List Char × List Char) :=
    (h10 x).dropWhile (p := isGap) fun _ => stops_singleton rfl
  have h8 (table : List Char) := Recognises.run1 (p := isTargetChar) fun target => h9 (table, target)
  have h7 (table : List Char) := (h8 table).dropWhile (p := isGap) fun _ =>
    stops_run isTargetChar_of_isSpace
  have h6 (table : List Char) := (h7 table).exactly ['(']
  have h5 (table : List Char) := (h6 table).dropWhile (p := isGap) fun _ => stops_singleton rfl
  have h4 := Recognises.run1 (p := isTableNameChar) h5
  have h3 := h4.skip1 (p := isGap) fun _ => stops_run isTableNameChar_of_isSpace
  have h2 := h3.keyword "REFERENCES"
  have h1 := h2.skip1 (p := isGap) fun _ => stops_keyword _ rfl rfl
  exact h1.congr fun x => referenceMark_mul x.1 x.2.1 ⊤

theorem reference?_eq_iff {s : List Char} {reference : Option (List Char × List Char)} :
    reference? s = reference ↔ s ∈ afterKey reference := by
  cases reference with
  | none =>
    rw [recognises_reference.eq_none_iff]
    exact ⟨fun h table target => h (table, target, ()), fun h x => h x.1 x.2.1⟩
  | some x =>
    rw [recognises_reference s x]
    constructor
    · intro h
      obtain ⟨y, hs, rfl⟩ := h
      exact hs
    · intro h
      exact ⟨(x.1, x.2, ()), h, rfl⟩

/-- The end of an entry, where `name` and `dataType` have been read. -/
theorem recognises_marks (name dataType : List Char) :
    Recognises
      (fun s => match primaryKey? s with
        | some s => some (⟨name, dataType, true, reference? s⟩ : Entry)
        | none => some ⟨name, dataType, false, reference? s⟩)
      (fun x : Bool × Option (List Char × List Char) => ⟨name, dataType, x.1, x.2⟩)
      fun x => afterType x.1 x.2 := by
  intro s e
  cases h : primaryKey? s with
  | some r =>
    obtain ⟨r, hr, rfl⟩ := (recognises_primaryKey s r).1 h
    obtain ⟨a, ha, rfl⟩ := mem_mul_singleton.1 hr
    simp only [h, Option.some_inj]
    constructor
    · intro he
      refine ⟨(true, reference? r), ?_, he⟩
      exact Language.append_mem_mul ha (reference?_eq_iff.1 rfl)
    · intro he
      obtain ⟨⟨pk, reference⟩, hs, rfl⟩ := he
      cases pk with
      | false => exact absurd (mem_mul_top.2 ⟨a, ha, r, rfl⟩) hs.2
      | true =>
        obtain ⟨a', ha', r', hr', he⟩ := Language.mem_mul.1 hs
        have h' := recognises_primaryKey.read (mem_mul_singleton.2 ⟨a', ha', he⟩)
        rw [h, Option.some_inj] at h'
        obtain rfl : r = r' := h'
        rw [id, reference?_eq_iff.2 hr']
  | none =>
    have hn : s ∉ keyMark * ⊤ := by
      intro hs
      obtain ⟨a, ha, r, he⟩ := mem_mul_top.1 hs
      exact recognises_primaryKey.eq_none_iff.1 h r (mem_mul_singleton.2 ⟨a, ha, he⟩)
    simp only [h, Option.some_inj]
    constructor
    · intro he
      exact ⟨(false, reference? s), ⟨reference?_eq_iff.1 rfl, hn⟩, he⟩
    · intro he
      obtain ⟨⟨pk, reference⟩, hs, rfl⟩ := he
      cases pk with
      | false => rw [reference?_eq_iff.2 hs.1]
      | true =>
        obtain ⟨a, ha, r, -, he⟩ := Language.mem_mul.1 hs
        exact absurd (mem_mul_top.2 ⟨a, ha, r, he⟩) hn

theorem recognises_entry : Recognises entryOf? id fun e => spacing * declaration e := by
  have h4 (name : List Char) := Recognises.run1 (p := isWordChar) (recognises_marks name)
  have h3 (name : List Char) := (h4 name).skip1 (p := isGap) fun _ =>
    stops_run isWordChar_of_isSpace
  have h2 := Recognises.run1 (p := isWordChar) h3
  have h1 := h2.dropWhile (p := isGap) fun _ => stops_run isWordChar_of_isSpace
  intro s e
  refine (h1 s e).trans ⟨fun h => ?_, fun h => ?_⟩
  · obtain ⟨x, hs, rfl⟩ := h
    exact ⟨⟨x.1, x.2.1, x.2.2.1, x.2.2.2⟩, hs, rfl⟩
  · obtain ⟨e, hs, rfl⟩ := h
    exact ⟨(e.name, e.dataType, e.primaryKey, e.reference), hs, rfl⟩

theorem entryOf?_trim {p : List Char} {e : Entry} :
    entryOf? (trim p) = some e ↔ trim p ∈ declaration e := by
  rw [recognises_entry]
  constructor
  · intro h
    obtain ⟨e, h, rfl⟩ := h
    obtain ⟨g, hg, r, hr, he⟩ := Language.mem_mul.1 h
    cases g with
    | nil => rwa [← he]
    | cons c g =>
      have hc := stops_trim p c (by rw [← he]; rfl)
      rw [isSpace_of_isGap (hg c (by simp))] at hc
      cases hc
  · intro h
    have hn : [] ∈ spacing := fun c hc => absurd hc List.not_mem_nil
    exact ⟨e, Language.append_mem_mul hn h, rfl⟩

theorem recognises_parenthesized :
    Recognises parenthesized? id fun x : List Char × List Char => bracketed x.1 * {x.2} := by
  intro s x
  have hsplit : '(' :: x.1 ++ ')' :: x.2 = '(' :: x.1 ++ [')'] ++ x.2 := by simp
  rw [parenthesized?_eq_some_iff, hsplit]
  constructor
  · intro h
    exact ⟨x, mem_mul_singleton.2 ⟨_, ⟨h.1, rfl⟩, h.2⟩, rfl⟩
  · intro h
    obtain ⟨x, hx, rfl⟩ := h
    obtain ⟨a, ⟨hb, rfl⟩, he⟩ := mem_mul_singleton.1 hx
    exact ⟨hb, he⟩

theorem recognises_ifNotExists :
    Recognises ifNotExists? id fun r => condition * stopped isGap r := by
  have h5 := (recognises_skip1 (p := isGap)).keyword "EXISTS"
  have h4 := h5.skip1 (p := isGap) fun _ => stops_keyword _ rfl rfl
  have h3 := h4.keyword "NOT"
  have h2 := h3.skip1 (p := isGap) fun _ => stops_keyword _ rfl rfl
  have h1 := h2.keyword "IF"
  simp only [condition, gap, mul_assoc]
  exact h1

theorem stops_bracketed {body : List Char} {l : Language Char} :
    ∀ s ∈ bracketed body * l, Stops isGap s := by
  intro s hs c hc
  obtain ⟨a, ⟨-, rfl⟩, r, -, rfl⟩ := Language.mem_mul.1 hs
  obtain rfl : '(' = c := by simpa using hc
  rfl

theorem nil_not_mem_spacing_bracketed {body : List Char} : [] ∉ spacing * bracketed body := by
  intro h
  obtain ⟨-, he⟩ := (nil_mem_mul.1 h).2
  cases he

theorem not_mem_condition : ∀ a ∈ condition, '(' ∉ a := by
  have hg := not_mem_oneOrMore (p := isGap) (c := '(') rfl
  have h1 := not_mem_mul (not_mem_word (w := "IF") (c := '(') (by decide)) hg
  have h2 := not_mem_mul (not_mem_mul h1 (not_mem_word (w := "NOT") (by decide))) hg
  exact not_mem_mul (not_mem_mul h2 (not_mem_word (w := "EXISTS") (by decide))) hg

theorem opening_mem_named {name body : List Char} :
    ∀ a ∈ longest isTableNameChar name (spacing * bracketed body), '(' ∈ a := by
  intro a ha
  obtain ⟨-, r, hr, -, rfl⟩ := ha
  obtain ⟨g, -, b, ⟨-, rfl⟩, rfl⟩ := Language.mem_mul.1 hr
  simp

theorem clause_mul (name body : List Char) (n : Language Char) :
    clause name body * n = word "CREATE" * (gap * (word "TABLE" * (gap *
      optionally condition (longest isTableNameChar name (spacing * (bracketed body * n)))))) := by
  rw [← mul_assoc spacing, longest_mul nil_not_mem_spacing_bracketed,
    optionally_mul not_mem_condition opening_mem_named]
  simp only [clause, mul_assoc]

theorem recognises_statement :
    Recognises statement?
      (fun x : List Char × List Char × List Char => (table x.1 x.2.1, x.2.2))
      fun x => clause x.1 x.2.1 * {x.2.2} := by
  have h7 (name : List Char) :=
    recognises_parenthesized.map fun x : List Char × List Char => (table name x.1, x.2)
  have h6 (name : List Char) := (h7 name).dropWhile (p := isGap) fun _ => stops_bracketed
  have hn {name : List Char} {l : Language Char} : ∀ s ∈ longest isTableNameChar name l,
      Stops isGap s :=
    stops_run isTableNameChar_of_isSpace
  have h5 := Recognises.run1 (p := isTableNameChar) h6
  have h4 := Recognises.optional recognises_ifNotExists h5 fun _ => hn
  have hc {l : Language Char} : ∀ s ∈ condition * l, Stops isGap s := by
    simp only [condition, mul_assoc]
    exact stops_keyword _ rfl rfl
  have h3 := h4.skip1 (p := isGap) fun _ => stops_optionally hc hn
  have h2 := h3.keyword "TABLE"
  have h1 := h2.skip1 (p := isGap) fun _ => stops_keyword _ rfl rfl
  have h0 := h1.keyword "CREATE"
  exact h0.congr fun x => clause_mul x.1 x.2.1 {x.2.2}

end SchemaSketch.Schema
