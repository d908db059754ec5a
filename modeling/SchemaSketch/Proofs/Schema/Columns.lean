import SchemaSketch.Proofs.Schema.PlainForm

/-!
The columns of a table, entry by entry. An entry with two words declares a column of that name and
type whatever follows them, if the white space between them is a gap. The readers of words end them
at any white space, but what they skip between them is a gap only.
-/
namespace SchemaSketch.Schema

open Text

def words (s : List Char) : List (List Char) :=
  (s.splitOnP isSpace).filter (!·.isEmpty)

def separator (s : List Char) : List Char :=
  (s.dropWhile isWordChar).takeWhile isSpace

def Spaced (s : List Char) : Prop :=
  separator s ∈ zeroOrMore isGap

instance (s : List Char) : Decidable (Spaced s) :=
  inferInstanceAs (Decidable (separator s ∈ zeroOrMore isGap))

def nameAndType? (s : List Char) : Option (String × String) :=
  match words s with
  | name :: dataType :: _ =>
    if name ∈ word "PRIMARY" then none else some (String.ofList name, String.ofList dataType)
  | _ => none

def columnWords (column : Column) : String × String :=
  (column.name, column.dataType)

def ClauseEntries (c : List Char) (es : List (List Char)) : Prop :=
  ∃ name body pieces, c ∈ clause name body ∧ IsCut body pieces ∧
    (pieces.map trim).filter (!·.isEmpty) = es

def TextEntries (text : String) (ess : List (List (List Char))) : Prop :=
  ∃ f : Factorisation, f.text = cleanup text.toList ∧ f.Valid ∧
    List.Forall₂ ClauseEntries f.clauses ess

variable {c r s w name body : List Char} {es : List (List Char)} {e : Entry} {t : Table}

section Words

theorem words_append_space {x : Char} (hx : isSpace x = true) (s r : List Char) :
    words (s ++ x :: r) = words s ++ words r := by
  rw [words, List.splitOnP_append_cons s r hx, List.filter_append]
  rfl

theorem words_space_cons {x : Char} (hx : isSpace x = true) (r : List Char) :
    words (x :: r) = words r :=
  words_append_space hx [] r

theorem words_dropWhile (s : List Char) : words (s.dropWhile isSpace) = words s := by
  induction s with
  | nil => rfl
  | cons x s ih =>
    cases hx : isSpace x with
    | true => rw [List.dropWhile_cons_of_pos hx, ih, words_space_cons hx]
    | false => rw [List.dropWhile_cons_of_neg (by simp [hx])]

theorem words_of_word (hw : w ∈ oneOrMore isWordChar) : words w = [w] := by
  have hsplit : w.splitOnP isSpace = [w] :=
    List.splitOnP_eq_singleton fun c hc => by simpa [isWordChar] using hw.2 c hc
  rw [words, hsplit]
  simpa using hw.1

/-- A longest run of word characters is a word. -/
theorem words_run (hw : w ∈ oneOrMore isWordChar) (hr : Stops isWordChar r) :
    words (w ++ r) = w :: words r := by
  cases r with
  | nil => rw [List.append_nil, words_of_word hw]; rfl
  | cons x r =>
    have hx : isSpace x = true := by simpa [isWordChar] using hr x rfl
    rw [words_append_space hx, words_space_cons hx, words_of_word hw]
    rfl

theorem exists_first_word {ws : List (List Char)} (hs : Stops isSpace s)
    (h : words s = w :: ws) :
    ∃ r, w ++ r = s ∧ w ∈ oneOrMore isWordChar ∧ Stops isWordChar r ∧ words r = ws := by
  have hsplit : s.takeWhile isWordChar ++ s.dropWhile isWordChar = s :=
    List.takeWhile_append_dropWhile
  have hstop := stops_dropWhile isWordChar s
  have hne : s.takeWhile isWordChar ≠ [] := by
    intro hn
    cases s with
    | nil => cases h
    | cons c s =>
      have hc : isWordChar c = true := by simpa [isWordChar] using hs c rfl
      simp [hc] at hn
  have hw : s.takeWhile isWordChar ∈ oneOrMore isWordChar :=
    ⟨hne, fun c hc => List.mem_takeWhile_imp hc⟩
  rw [← hsplit, words_run hw hstop, List.cons.injEq] at h
  obtain ⟨rfl, hws⟩ := h
  exact ⟨_, hsplit, hw, hstop, hws⟩

/-- White space separates the first two words. -/
theorem exists_two_words {w' : List Char} {ws : List (List Char)} (hs : Stops isSpace s)
    (h : words s = w :: w' :: ws) :
    ∃ r, w ++ (separator s ++ (w' ++ r)) = s ∧ w ∈ oneOrMore isWordChar ∧ separator s ≠ [] ∧
      w' ∈ oneOrMore isWordChar ∧ Stops isWordChar r := by
  obtain ⟨r, rfl, hw, hr, hws⟩ := exists_first_word hs h
  have hsep : separator (w ++ r) = r.takeWhile isSpace := by
    rw [separator, dropWhile_append_of_stops hw.2 hr]
  rw [← words_dropWhile] at hws
  obtain ⟨r', he, hw', hr', -⟩ := exists_first_word (stops_dropWhile isSpace r) hws
  have hsplit : r.takeWhile isSpace ++ (w' ++ r') = r := by
    rw [he]
    exact List.takeWhile_append_dropWhile
  refine ⟨r', ?_, hw, ?_, hw', hr'⟩
  · rw [hsep, hsplit]
  · intro hn
    rw [hsep] at hn
    rw [hn, List.nil_append] at hsplit
    -- The second word would go on with the first.
    obtain ⟨c, u, rfl⟩ := List.exists_cons_of_ne_nil hw'.1
    have hc := hr c (by rw [← hsplit]; rfl)
    rw [hw'.2 c List.mem_cons_self] at hc
    cases hc

end Words

section Entries

/-- A name and a type with a gap between them are enough for an entry. -/
theorem exists_entry {g w' : List Char} (hw : w ∈ oneOrMore isWordChar)
    (hg : g ∈ oneOrMore isGap) (hw' : w' ∈ oneOrMore isWordChar) (hr : Stops isWordChar r) :
    ∃ e, entryOf? (w ++ (g ++ (w' ++ r))) = some e := by
  have hgap : Stops isWordChar (g ++ (w' ++ r)) :=
    (stops_of_forall fun c hc => isWordChar_of_isSpace c (isSpace_of_isGap (hg.2 c hc))).append hg.1
  have hfront : ∀ s ∈ longest isWordChar w ⊤, Stops isGap s := stops_run isWordChar_of_isSpace
  have hfront' : ∀ s ∈ longest isWordChar w' ⊤, Stops isGap s := stops_run isWordChar_of_isSpace
  have hname : run1? isWordChar ((w ++ (g ++ (w' ++ r))).dropWhile isGap) =
      some (w, g ++ (w' ++ r)) := by
    rw [dropWhile_of_stops (hfront _ ⟨hw, _, trivial, hgap, rfl⟩)]
    exact run1?_eq_some_iff.2 ⟨hw, hgap, rfl⟩
  have hskip : skip1? isGap (g ++ (w' ++ r)) = some (w' ++ r) :=
    skip1?_eq_some_iff.2 ⟨hfront' _ ⟨hw', _, trivial, hr, rfl⟩, g, hg, rfl⟩
  have htype : run1? isWordChar (w' ++ r) = some (w', r) :=
    run1?_eq_some_iff.2 ⟨hw', hr, rfl⟩
  simp only [entryOf?, hname, hskip, htype, Option.bind_eq_bind, Option.bind_some]
  cases primaryKey? r with
  | none => exact ⟨_, rfl⟩
  | some r => exact ⟨_, rfl⟩

/-- What is read as an entry is spaced, and has its name and its type in front. -/
theorem words_of_mem_declaration (h : s ∈ declaration e) :
    Spaced s ∧ ∃ ws, words s = e.name :: e.dataType :: ws := by
  obtain ⟨hw, x, hx, hstop, rfl⟩ := h
  obtain ⟨g, hg, y, ⟨hw', r, -, hr, rfl⟩, rfl⟩ := Language.mem_mul.1 hx
  have hspace : ∀ c ∈ g, isSpace c = true := fun c hc => isSpace_of_isGap (hg.2 c hc)
  have hstop' : Stops isSpace (e.dataType ++ r) := by
    refine (stops_of_forall fun c hc => ?_).append hw'.1
    simpa [isWordChar] using hw'.2 c hc
  constructor
  · rw [Spaced, separator, dropWhile_append_of_stops hw.2 hstop,
      takeWhile_append_of_stops hspace hstop']
    exact hg.2
  · refine ⟨words r, ?_⟩
    rw [words_run hw hstop, ← words_dropWhile, dropWhile_append_of_stops hspace hstop',
      words_run hw' hr]

theorem columnWords_trim (p : List Char) :
    ((entryOf? (trim p)).bind Entry.column?).map columnWords =
      if Spaced (trim p) then nameAndType? (trim p) else none := by
  cases h : entryOf? (trim p) with
  | some e =>
    obtain ⟨hspaced, ws, hws⟩ := words_of_mem_declaration (entryOf?_trim.1 h)
    rw [if_pos hspaced, nameAndType?, hws, Option.bind_some]
    simp only [Entry.column?, isConstraint_iff]
    split <;> rfl
  | none =>
    rw [Option.bind_none, Option.map_none, eq_comm, ite_eq_right_iff]
    intro hspaced
    rw [nameAndType?]
    split
    · next name dataType ws hws =>
      obtain ⟨r, hs, hw, hn, hw', hr⟩ := exists_two_words (stops_trim p) hws
      obtain ⟨e, he⟩ := exists_entry hw ⟨hn, hspaced⟩ hw' hr
      rw [hs, h] at he
      cases he
    · rfl

end Entries

section Clauses

/-- The columns of a table are the spaced entries, each with its first two words. -/
theorem columns_of_clause (h : ClauseEntries c es) (hd : Denotes c t) :
    t.columns.map columnWords = (es.filter (Spaced ·)).filterMap nameAndType? := by
  obtain ⟨name, body, pieces, hc, hcut, rfl⟩ := h
  obtain rfl := (isCut_iff (balanced_of_mem_clause hc)).1 hcut
  have hread := statement?_append (r := []) hc
  rw [List.append_nil, denotes_iff.1 hd, Option.some_inj, Prod.mk.injEq] at hread
  obtain rfl := hread.1
  rw [List.filterMap_filter (p := (Spaced ·)), table, entries, List.filterMap_filterMap,
    List.map_filterMap]
  refine List.filterMap_congr fun s hs => ?_
  obtain ⟨p, -, rfl⟩ := List.mem_map.1 (List.mem_filter.1 hs).1
  simpa using columnWords_trim p

/-- All entries give their columns if all that have some are spaced. -/
theorem filterMap_spaced_iff :
    (es.filter (Spaced ·)).filterMap nameAndType? = es.filterMap nameAndType? ↔
      ∀ s ∈ es, nameAndType? s ≠ none → Spaced s := by
  induction es with
  | nil => simp
  | cons s es ih =>
    rw [List.forall_mem_cons, ← ih]
    cases h : nameAndType? s with
    | none => by_cases hs : Spaced s <;> simp [hs, h]
    | some x =>
      by_cases hs : Spaced s
      · simp [hs, h]
      · have hle := (List.filter_sublist (p := (Spaced ·)) (l := es)).filterMap nameAndType?
        refine iff_of_false (fun he => ?_) fun hn => hs (hn.1 (Option.some_ne_none x))
        have hlength := congrArg List.length he
        rw [List.filter_cons_of_neg (by simpa using hs), List.filterMap_cons_some h,
          List.length_cons] at hlength
        have := hle.length_le
        omega

theorem Factorisation.Valid.exists_entries {f : Factorisation} (h : f.Valid) :
    ∃ ess, List.Forall₂ ClauseEntries f.clauses ess := by
  induction f with
  | last g => exact ⟨[], .nil⟩
  | next g c f ih =>
    obtain ⟨-, ⟨name, body, hc⟩, hf⟩ := h
    obtain ⟨ess, hess⟩ := ih hf
    have hcut := (isCut_iff (balanced_of_mem_clause hc)).2 rfl
    exact ⟨entries body :: ess, .cons ⟨name, body, _, hc, hcut, rfl⟩ hess⟩

theorem exists_textEntries (text : String) : ∃ ess, TextEntries text ess := by
  obtain ⟨f, hs, hf⟩ := Factorisation.exists_valid (cleanup text.toList)
  obtain ⟨ess, hess⟩ := hf.exists_entries
  exact ⟨ess, f, hs, hf, hess⟩

theorem TextEntries.columns {text : String} {ess : List (List (List Char))}
    (h : TextEntries text ess) :
    List.Forall₂ (fun es t => t.columns.map columnWords =
      (es.filter (Spaced ·)).filterMap nameAndType?) ess (ofText text) := by
  obtain ⟨f, hs, hf, hess⟩ := h
  have hdenotes := hf.tables_text
  rw [hs, ← ofText] at hdenotes
  generalize f.clauses = cs at hess hdenotes
  generalize ofText text = ts at hdenotes
  induction hess generalizing ts with
  | nil =>
    cases hdenotes
    exact .nil
  | cons hc _ ih =>
    cases hdenotes with
    | cons hd hds => exact .cons (columns_of_clause hc hd) (ih _ hds)

end Clauses

/-- The columns of a table are the first two words of each spaced entry of its clause, whatever
follows them. So no entry with a name and a type is lost exactly if the white space between these
two is a gap in all of them. -/
theorem columns_kept_iff (text : String) :
    (∃ ess, TextEntries text ess) ∧ ∀ ess, TextEntries text ess →
      List.Forall₂ (fun es t => t.columns.map columnWords =
        (es.filter (Spaced ·)).filterMap nameAndType?) ess (ofText text) ∧
      (List.Forall₂ (fun es t => t.columns.map columnWords = es.filterMap nameAndType?) ess
          (ofText text) ↔
        ∀ es ∈ ess, ∀ s ∈ es, nameAndType? s ≠ none → Spaced s) := by
  refine ⟨exists_textEntries text, fun ess hess => ⟨hess.columns, ?_⟩⟩
  have h := hess.columns
  clear hess
  generalize ofText text = ts at h
  induction h with
  | nil => simp
  | cons hcolumns _ ih =>
    rw [List.forall₂_cons, List.forall_mem_cons, hcolumns, filterMap_spaced_iff]
    exact and_congr_right fun _ => ih

/-- A no-break space separates words, but it is no gap: the column is lost. -/
theorem column_lost_at_no_break_space :
    let text := "CREATE TABLE t (a\u00a0INT)"
    ∃ ess, TextEntries text ess ∧
      ess.map (List.filterMap nameAndType?) = [[("a", "INT")]] ∧ ofText text = [⟨"t", [], []⟩] ∧
      ¬ List.Forall₂ (fun es t => t.columns.map columnWords = es.filterMap nameAndType?) ess
        (ofText text) := by
  intro text
  let body := "a\u00a0INT".toList
  have hgap : [' '] ∈ oneOrMore isGap := by decide
  have hname : ['t'] ∈ oneOrMore isTableNameChar := by decide
  have hstop : Stops isTableNameChar ([' '] ++ '(' :: (body ++ [')'])) := stops_cons rfl
  have hnamed : ['t'] ++ ([' '] ++ '(' :: (body ++ [')'])) ∈
      longest isTableNameChar ['t'] (spacing * bracketed body) := by
    have hbody : '(' :: body ++ [')'] ∈ bracketed body :=
      ⟨closes_zero_iff.1 (closes_of_not_mem (by decide) (by decide)), rfl⟩
    exact ⟨hname, _, Language.append_mem_mul hgap.2 hbody, hstop, rfl⟩
  have hclause : text.toList ∈ clause ['t'] body := by
    have hcreate : "CREATE".toList ∈ word "CREATE" := by decide
    have htable : "TABLE".toList ∈ word "TABLE" := by decide
    have hheading := Language.append_mem_mul (Language.append_mem_mul
      (Language.append_mem_mul hcreate hgap) htable) hgap
    have htext : text.toList = "CREATE".toList ++ [' '] ++ "TABLE".toList ++ [' '] ++
        (['t'] ++ ([' '] ++ '(' :: (body ++ [')']))) := by decide +kernel
    rw [htext]
    refine Language.append_mem_mul hheading ?_
    exact Or.inr ⟨hnamed, not_mem_condition_of_name hname hstop hgap.2⟩
  have hentries : ClauseEntries text.toList [body] := by
    have hcut := (isCut_iff (balanced_of_mem_clause hclause)).2 rfl
    exact ⟨_, _, _, hclause, hcut, by decide +kernel⟩
  have hvalid : (Factorisation.next [] text.toList (.last [])).Valid :=
    ⟨barren_nil, ⟨['t'], body, hclause⟩, barren_nil⟩
  have htables : ofText text = [⟨"t", [], []⟩] := by decide +kernel
  have hwords : nameAndType? body = some ("a", "INT") := by decide +kernel
  have hmap : [body].filterMap nameAndType? = [("a", "INT")] := List.filterMap_cons_some hwords
  have htext : TextEntries text [[body]] := ⟨_, by decide +kernel, hvalid, .cons hentries .nil⟩
  refine ⟨_, htext, congrArg (fun x => [x]) hmap, htables, fun h => ?_⟩
  rw [htables, List.forall₂_cons, hmap] at h
  cases h.1

end SchemaSketch.Schema
