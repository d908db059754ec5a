import SchemaSketch.Proofs.Schema.Factorisation
import SchemaSketch.Proofs.Schema.WrittenForm

/-!
Plain statements follow the grammar. They are clauses, and what is read from a clause is the table
that was written, whatever its names are.
-/
namespace SchemaSketch.Schema

open Text

def Field.entry (f : Field) : Entry where
  name := f.column.name.toList
  dataType := f.column.dataType.toList
  primaryKey := f.column.primaryKey
  reference := f.reference.map fun (table, target) => (table.toList, target.toList)

section Marks

variable {p : Char → Bool} {l : Language Char} {f : Field}

theorem stops_gap (hp : ∀ c, isSpace c = true → p c = false) : ∀ s ∈ gap * l, Stops p s := by
  intro s hs
  obtain ⟨g, ⟨hn, hg⟩, x, -, rfl⟩ := Language.mem_mul.1 hs
  exact (stops_of_forall fun c hc => hp c (isSpace_of_isGap (hg c hc))).append hn

theorem stops_spacing (hp : ∀ c, isSpace c = true → p c = false) (hl : ∀ s ∈ l, Stops p s) :
    ∀ s ∈ spacing * l, Stops p s := by
  intro s hs
  obtain ⟨g, hg, x, hx, rfl⟩ := Language.mem_mul.1 hs
  by_cases hn : g = []
  · rw [hn]
    exact hl x hx
  · exact stops_gap hp (g ++ x) (Language.append_mem_mul ⟨hn, hg⟩ hx)

theorem isTableNameChar_of_isNameChar (c : Char) (h : isNameChar c = true) :
    isTableNameChar c = true := by
  obtain ⟨hs, -, ho, -, -⟩ := isNameChar_iff.1 h
  simp [isTableNameChar, hs, ho]

theorem isTargetChar_of_isNameChar (c : Char) (h : isNameChar c = true) :
    isTargetChar c = true := by
  obtain ⟨hs, -, -, hc, -⟩ := isNameChar_iff.1 h
  simp [isTargetChar, hs, hc]

theorem isWordChar_of_isNameChar (c : Char) (h : isNameChar c = true) : isWordChar c = true := by
  simp [isWordChar, (isNameChar_iff.1 h).1]

theorem mem_referenceMark {table target : String}
    (ht : table.toList ∈ oneOrMore isNameChar) (hx : target.toList ∈ oneOrMore isNameChar) :
    ∀ s ∈ Spelling.plain.reference (some (table, target)),
      s ∈ referenceMark table.toList target.toList := by
  have hclose : ∀ s ∈ spacing * {[')']}, Stops isTargetChar s := by
    apply stops_spacing isTargetChar_of_isSpace
    rw [← mul_one ({[')']} : Language Char)]
    exact stops_singleton rfl
  have htarget := mem_longest_of_mem_mul (oneOrMore_mono isTargetChar_of_isNameChar hx) hclose
  have hopen (l : Language Char) : ∀ s ∈ spacing * ({['(']} * l), Stops isTableNameChar s :=
    stops_spacing isTableNameChar_of_isSpace (stops_singleton rfl)
  have htable (l : Language Char) :=
    mem_longest_of_mem_mul (oneOrMore_mono isTableNameChar_of_isNameChar ht) (hopen l)
  simp only [Spelling.reference, Spelling.plain_name, parens, referenceMark, mul_assoc]
  refine mul_mono_right (mul_mono_right (mul_mono_right fun s hs => htable _ s ?_))
  exact mul_mono_right (mul_mono_right (mul_mono_right (mul_mono_right htarget))) s hs

/-- Behind a gap stands the keyword, in either case of its letters. -/
theorem head_of_gap_word {w : String} {first : Char} {others s : List Char}
    (hw : w.toList = first :: others) (hf : isGap first = false) (hs : s ∈ gap * (word w * l)) :
    ∃ c ∈ (s.dropWhile isGap).head?, c.toUpper = first := by
  obtain ⟨g, hg, x, hx, rfl⟩ := Language.mem_mul.1 hs
  rw [dropWhile_append_of_stops hg.2 (stops_keyword l hw hf x hx)]
  obtain ⟨a, ha, y, -, rfl⟩ := Language.mem_mul.1 hx
  have ha : a.map Char.toUpper = first :: others := hw ▸ ha
  cases a with
  | nil => cases ha
  | cons c a => exact ⟨c, rfl, (List.cons.inj ha).1⟩

theorem not_mem_keyMark {s : List Char}
    (hs : s ∈ Spelling.plain.reference f.reference) : s ∉ keyMark * ⊤ := by
  intro hk
  simp only [keyMark, mul_assoc] at hk
  obtain ⟨c, hc, hp⟩ := head_of_gap_word rfl rfl hk
  cases hr : f.reference with
  | none =>
    rw [hr] at hs
    obtain rfl : s = [] := hs
    cases hc
  | some x =>
    rw [hr] at hs
    simp only [Spelling.reference, mul_assoc] at hs
    obtain ⟨d, hd, hq⟩ := head_of_gap_word rfl rfl hs
    obtain rfl := Option.mem_unique hc hd
    rw [hp] at hq
    revert hq
    decide

theorem mem_afterKey {s : List Char} (hf : f.Legible)
    (hs : s ∈ Spelling.plain.reference f.reference) : s ∈ afterKey f.entry.reference := by
  rw [Field.entry]
  cases hr : f.reference with
  | none =>
    rw [hr] at hs
    obtain rfl : s = [] := hs
    intro table target h
    rw [referenceMark_mul] at h
    exact (nil_mem_mul.1 h).1.1 rfl
  | some x =>
    rw [hr] at hs
    obtain ⟨ht, hx, -⟩ := hf.reference x.1 x.2 hr
    exact mem_mul_top.2 ⟨s, mem_referenceMark ht hx s hs, [], List.append_nil s⟩

theorem mem_afterType {s : List Char} (hf : f.Legible)
    (hs : s ∈ (if f.column.primaryKey then keyMark else 1) *
      Spelling.plain.reference f.reference) :
    s ∈ afterType f.entry.primaryKey f.entry.reference := by
  obtain ⟨a, ha, b, hb, rfl⟩ := Language.mem_mul.1 hs
  rw [afterType, Field.entry]
  cases hk : f.column.primaryKey with
  | true =>
    rw [hk] at ha
    exact Language.append_mem_mul ha (mem_afterKey hf hb)
  | false =>
    rw [hk] at ha
    obtain rfl : a = [] := ha
    exact ⟨mem_afterKey hf hb, not_mem_keyMark hb⟩

theorem stops_marks : ∀ s ∈ (if f.column.primaryKey then keyMark else 1) *
    Spelling.plain.reference f.reference, Stops isWordChar s := by
  have hgap {l : Language Char} : ∀ s ∈ gap * l, Stops isWordChar s :=
    stops_gap isWordChar_of_isSpace
  cases f.column.primaryKey with
  | true =>
    simp only [if_true, keyMark, mul_assoc]
    exact hgap
  | false =>
    simp only [Bool.false_eq_true, if_false, one_mul]
    cases f.reference with
    | none =>
      intro s hs c hc
      obtain rfl : s = [] := hs
      cases hc
    | some x =>
      simp only [Spelling.reference, mul_assoc]
      exact hgap

theorem mem_declaration (hf : f.Legible) :
    ∀ s ∈ Spelling.plain.field f, s ∈ declaration f.entry := by
  have hmarks : ∀ s ∈ {f.column.dataType.toList} * ((if f.column.primaryKey then keyMark else 1) *
      Spelling.plain.reference f.reference), s ∈ longest isWordChar f.entry.dataType
        (afterType f.entry.primaryKey f.entry.reference) := by
    intro s hs
    obtain ⟨r, hr, rfl⟩ := singleton_mul_eq.1 hs
    exact ⟨oneOrMore_mono isWordChar_of_isNameChar hf.dataType, r, mem_afterType hf hr,
      stops_marks r hr, rfl⟩
  simp only [Spelling.field, Spelling.plain_name, Spelling.plain_length, mul_one, mul_assoc]
  intro s hs
  exact mem_longest_of_mem_mul (oneOrMore_mono isWordChar_of_isNameChar hf.name)
    (stops_gap isWordChar_of_isSpace) s (mul_mono_right (mul_mono_right hmarks) s hs)

end Marks

section Entries

variable {g g' s : List Char} {l m : Language Char} {f : Field} {fs : List Field}

theorem ends_append (h : s ≠ [] ∧ Stops isSpace s.reverse) :
    g ++ s ≠ [] ∧ Stops isSpace (g ++ s).reverse := by
  obtain ⟨hn, hr⟩ := h
  refine ⟨List.append_ne_nil_of_right_ne_nil g hn, ?_⟩
  rw [List.reverse_append]
  exact hr.append (List.reverse_ne_nil_iff.2 hn)

theorem ends_mul (hm : ∀ s ∈ m, s ≠ [] ∧ Stops isSpace s.reverse) :
    ∀ s ∈ l * m, s ≠ [] ∧ Stops isSpace s.reverse := by
  intro s hs
  obtain ⟨a, -, b, hb, rfl⟩ := Language.mem_mul.1 hs
  exact ends_append (hm b hb)

theorem ends_name {w : List Char} (hw : w ∈ oneOrMore isNameChar) :
    w ≠ [] ∧ Stops isSpace w.reverse :=
  ⟨hw.1, stops_reverse_name hw⟩

theorem ends_word {w : String} (hw : w.toList.all Char.isUpper = true) (hn : w.toList ≠ []) :
    ∀ s ∈ word w, s ≠ [] ∧ Stops isSpace s.reverse := by
  intro s hs
  refine ends_name ⟨?_, isNameChar_of_mem_word hw s hs⟩
  rintro rfl
  exact hn hs.symm

theorem ends_field (hf : f.Legible) :
    ∀ s ∈ Spelling.plain.field f, s ≠ [] ∧ Stops isSpace s.reverse := by
  have hreference : Spelling.plain.reference f.reference = 1 ∨
      ∀ s ∈ Spelling.plain.reference f.reference, s ≠ [] ∧ Stops isSpace s.reverse := by
    cases f.reference with
    | none => exact Or.inl rfl
    | some x =>
      right
      apply ends_mul
      apply ends_mul
      intro s hs
      obtain rfl : s = [')'] := hs
      exact ⟨List.cons_ne_nil _ _, stops_cons rfl⟩
  obtain hr | hr := hreference
  · rw [Spelling.field, hr, mul_one]
    cases f.column.primaryKey with
    | true =>
      apply ends_mul
      apply ends_mul
      exact ends_word rfl (by decide)
    | false =>
      simp only [Bool.false_eq_true, if_false, Spelling.plain_length, mul_one]
      apply ends_mul
      intro s hs
      obtain rfl : s = f.column.dataType.toList := hs
      exact ends_name hf.dataType
  · exact ends_mul hr

def Whole (s : List Char) : Prop :=
  Closes 0 s ∧ ',' ∉ s

theorem whole_mul (hl : ∀ s ∈ l, Whole s) (hm : ∀ s ∈ m, Whole s) : ∀ s ∈ l * m, Whole s := by
  intro s hs
  obtain ⟨a, ha, b, hb, rfl⟩ := Language.mem_mul.1 hs
  obtain ⟨hac, han⟩ := hl a ha
  obtain ⟨hbc, hbn⟩ := hm b hb
  exact ⟨(closes_append hac).2 hbc, List.not_mem_append han hbn⟩

theorem whole_of_forall (h : ∀ c ∈ s, c ≠ '(' ∧ c ≠ ')' ∧ c ≠ ',') : Whole s :=
  ⟨closes_of_not_mem (fun hc => (h _ hc).1 rfl) fun hc => (h _ hc).2.1 rfl,
    fun hc => (h _ hc).2.2 rfl⟩

theorem whole_of_names (h : ∀ c ∈ s, isNameChar c = true) : Whole s :=
  whole_of_forall fun c hc => (isNameChar_iff.1 (h c hc)).2.2

theorem whole_spacing : ∀ s ∈ spacing, Whole s := by
  intro s hs
  refine whole_of_forall fun c hc => ?_
  have hg : isGap c = true := hs c hc
  simp only [isGap, Bool.or_eq_true, beq_iff_eq] at hg
  obtain ((rfl | rfl) | rfl) | rfl := hg <;> decide

theorem whole_gap : ∀ s ∈ gap, Whole s :=
  fun s hs => whole_spacing s hs.2

theorem whole_one : ∀ s ∈ (1 : Language Char), Whole s := by
  intro s hs
  obtain rfl : s = [] := hs
  exact ⟨closes_nil.2 rfl, List.not_mem_nil⟩

theorem whole_parens (hl : ∀ s ∈ l, Whole s) : ∀ s ∈ parens l, Whole s := by
  intro s hs
  obtain ⟨a, ha, rfl⟩ := mem_parens.1 hs
  obtain ⟨hc, hn⟩ := hl a ha
  refine ⟨closes_opening.2 ((closes_append hc).2 ?_), ?_⟩
  · exact closes_closing.2 (closes_nil.2 rfl)
  · simp [hn]

theorem whole_field (hf : f.Legible) : ∀ s ∈ Spelling.plain.field f, Whole s := by
  have hname {w : List Char} (hw : w ∈ oneOrMore isNameChar) :
      ∀ s ∈ Spelling.plain.name w, Whole s := by
    intro s hs
    obtain rfl : s = w := hs
    exact whole_of_names hw.2
  have hword {w : String} (hw : w.toList.all Char.isUpper = true) : ∀ s ∈ word w, Whole s :=
    fun s hs => whole_of_names (isNameChar_of_mem_word hw s hs)
  apply whole_mul
  · apply whole_mul
    · exact whole_mul (whole_mul (hname hf.name) whole_gap)
        (whole_mul (hname hf.dataType) whole_one)
    · split
      · exact whole_mul (whole_mul (whole_mul whole_gap (hword rfl)) whole_gap) (hword rfl)
      · exact whole_one
  · cases hr : f.reference with
    | none => exact whole_one
    | some x =>
      obtain ⟨ht, hx, -⟩ := hf.reference x.1 x.2 hr
      exact whole_mul (whole_mul (whole_mul (whole_mul (whole_mul whole_gap (hword rfl)) whole_gap)
        (hname ht)) whole_spacing)
        (whole_parens (whole_mul (whole_mul whole_spacing (hname hx)) whole_spacing))

/-- A piece of a body is whole, and declares its column. -/
theorem whole_piece (hf : f.Legible) (hs : s ∈ spacing * Spelling.plain.field f * spacing) :
    Whole s ∧ entryOf? (trim s) = some f.entry := by
  constructor
  · exact whole_mul (whole_mul whole_spacing (whole_field hf)) whole_spacing s hs
  · obtain ⟨x, hx, g', hg', rfl⟩ := Language.mem_mul.1 hs
    obtain ⟨g, hg, t, ht, rfl⟩ := Language.mem_mul.1 hx
    have hspace {g : List Char} (hg : g ∈ spacing) : g ∈ zeroOrMore isSpace :=
      fun c hc => isSpace_of_isGap (hg c hc)
    have hd := mem_declaration hf t ht
    have hstop : Stops isSpace t := by
      refine stops_longest (fun c hc => ?_) t hd
      simpa [isWordChar] using hc
    obtain ⟨hn, hr⟩ := ends_field hf t ht
    have htrim := trim_of_stops (hspace hg) (hspace hg') hn hstop hr
    rw [entryOf?_trim, htrim]
    exact hd

theorem cutAtCommas_whole (h : Whole s) : cutAtCommas 0 s = [s] := by
  have hs := cutAtCommas_append h.1 (commasWithin_of_not_mem h.2) (r := []) rfl
  rwa [List.append_nil] at hs

theorem declared_body (hf : ∀ f ∈ fs, f.Legible) (hs : s ∈ Spelling.plain.body fs) :
    Closes 0 s ∧ declared (cutAtCommas 0 s) = fs.map Field.entry := by
  induction fs generalizing s with
  | nil =>
    have hw := whole_spacing s hs
    have ht : trim s = [] := trim_of_spaces fun c hc => isSpace_of_isGap (hs c hc)
    refine ⟨hw.1, ?_⟩
    rw [cutAtCommas_whole hw, declared_cons, ht]
    rfl
  | cons f fs ih =>
    have hl := hf f List.mem_cons_self
    cases fs with
    | nil =>
      obtain ⟨hw, he⟩ := whole_piece hl hs
      refine ⟨hw.1, ?_⟩
      rw [cutAtCommas_whole hw, declared_cons, he]
      rfl
    | cons f' fs =>
      -- The first piece is whole, so it is cut off at the comma behind it.
      obtain ⟨p, hp, x, hx, rfl⟩ := Language.mem_mul.1 hs
      obtain ⟨t, ht, rfl⟩ := singleton_mul_eq.1 hx
      obtain ⟨hw, he⟩ := whole_piece hl hp
      obtain ⟨hc, hd⟩ := ih (fun f hm => hf f (List.mem_cons_of_mem _ hm)) ht
      have hcut := cutAtCommas_append hw.1 (commasWithin_of_not_mem hw.2) (r := ',' :: t) rfl
      constructor
      · exact (closes_append hw.1).2 ((closes_other (by decide) (by decide)).2 hc)
      · rw [List.singleton_append, hcut, declared_cons, he, hd]
        rfl

end Entries

section Statements

variable {s body : List Char} {d : Listing} {fs : List Field}

theorem columns_of_entries (hf : ∀ f ∈ fs, f.Legible) :
    (fs.map Field.entry).filterMap Entry.column? = fs.map Field.column := by
  induction fs with
  | nil => rfl
  | cons f fs ih =>
    rw [List.map_cons, columns_of_column (hf f List.mem_cons_self).not_constraint,
      ih fun f hm => hf f (List.mem_cons_of_mem _ hm), List.map_cons]
    simp [Field.entry]

theorem foreignKeys_of_entries (fs : List Field) :
    (fs.map Field.entry).filterMap Entry.foreignKey? = fs.filterMap Field.foreignKey? := by
  rw [List.filterMap_map]
  congr 1
  funext f
  cases h : f.reference <;> simp [Field.entry, Entry.foreignKey?, Field.foreignKey?, h]

theorem table_of_body (hd : d.Legible) (hb : body ∈ Spelling.plain.body d.fields) :
    table d.name.toList body = d.table := by
  have he : (entries body).filterMap entryOf? = d.fields.map Field.entry :=
    (declared_body hd.fields hb).2
  rw [table, he, columns_of_entries hd.fields, foreignKeys_of_entries, String.ofList_toList]
  rfl

/-- A name in front of a parenthesis is no condition, even if it is `IF`. -/
theorem not_mem_condition_of_name {name g r : List Char} (hn : name ∈ oneOrMore isTableNameChar)
    (hs : Stops isTableNameChar (g ++ '(' :: r)) (hg : g ∈ spacing) :
    name ++ (g ++ '(' :: r) ∉ condition * ⊤ := by
  intro h
  simp only [condition, mul_assoc] at h
  obtain ⟨a, ha, x, hx, he⟩ := Language.mem_mul.1 h
  have haw : ∀ c ∈ a, isTableNameChar c = true := fun c hc =>
    isTableNameChar_of_isNameChar c (isNameChar_of_mem_word rfl a ha c hc)
  have hxs := stops_gap isTableNameChar_of_isSpace x hx
  have hrest := congrArg (List.dropWhile isTableNameChar) he
  rw [dropWhile_append_of_stops haw hxs, dropWhile_append_of_stops hn.2 hs] at hrest
  obtain ⟨c, hc, hu⟩ := head_of_gap_word rfl rfl hx
  rw [hrest, dropWhile_append_of_stops hg (stops_cons rfl)] at hc
  obtain rfl : '(' = c := Option.some.inj hc
  revert hu
  decide

theorem clause_of_statement (hd : d.Legible) (hs : s ∈ Spelling.plain.statement d) :
    ∃ body ∈ Spelling.plain.body d.fields, s ∈ clause d.name.toList body := by
  obtain ⟨x₁, hx₁, y, hy, rfl⟩ := Language.mem_mul.1 hs
  obtain ⟨x₂, hx₂, g, hg, rfl⟩ := Language.mem_mul.1 hx₁
  obtain ⟨x₃, hx₃, rfl⟩ := mem_mul_singleton.1 hx₂
  obtain ⟨a, ha, c, hc, rfl⟩ := Language.mem_mul.1 hx₃
  obtain ⟨body, hb, rfl⟩ := mem_parens.1 hy
  refine ⟨body, hb, ?_⟩
  have hname := oneOrMore_mono isTableNameChar_of_isNameChar hd.name
  have hbracketed : '(' :: (body ++ [')']) ∈ bracketed body :=
    ⟨closes_zero_iff.1 (declared_body hd.fields hb).1, rfl⟩
  have hrest : g ++ '(' :: (body ++ [')']) ∈ spacing * bracketed body :=
    Language.append_mem_mul hg hbracketed
  have hstop : Stops isTableNameChar (g ++ '(' :: (body ++ [')'])) := by
    refine stops_spacing isTableNameChar_of_isSpace (fun s hs => ?_) _ hrest
    obtain ⟨-, rfl⟩ := hs
    exact stops_cons rfl
  have hnamed : d.name.toList ++ (g ++ '(' :: (body ++ [')'])) ∈
      longest isTableNameChar d.name.toList (spacing * bracketed body) :=
    ⟨hname, _, hrest, hstop, rfl⟩
  simp only [List.append_assoc]
  refine Language.append_mem_mul ha ?_
  obtain rfl | hc := hc
  · exact Or.inr ⟨hnamed, not_mem_condition_of_name hname hstop hg⟩
  · exact Or.inl (Language.append_mem_mul hc hnamed)

theorem statement?_of_plain {r : List Char} (hd : d.Legible) (hs : s ∈ Spelling.plain.statement d) :
    statement? (s ++ r) = some (d.table, r) := by
  obtain ⟨body, hb, hc⟩ := clause_of_statement hd hs
  rw [statement?_append hc, table_of_body hd hb]

end Statements

end SchemaSketch.Schema
