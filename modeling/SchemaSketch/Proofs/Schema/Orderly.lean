import SchemaSketch.Proofs.Schema.Cleaning
import SchemaSketch.Proofs.Schema.Factorisation

/-!
What every table is like that is read from a text, however little of the text makes sense. Its
words are neither empty nor broken by white space or quotes, and its foreign keys belong to its
columns, in their order.
-/
namespace SchemaSketch.Schema

open Text

def IsWord (w : List Char) : Prop :=
  w ≠ [] ∧ ∀ c ∈ w, isSpace c = false ∧ isQuote c = false

def OfConstraint (name : String) : Prop :=
  name.toList ∈ word "PRIMARY"

instance (name : String) : Decidable (OfConstraint name) :=
  inferInstanceAs (Decidable (name.toList ∈ word "PRIMARY"))

structure OrderlyColumn (column : Column) : Prop where
  name : IsWord column.name.toList
  not_constraint : ¬ OfConstraint column.name
  dataType : IsWord column.dataType.toList

structure OrderlyKey (key : ForeignKey) : Prop where
  table : IsWord key.table.toList
  no_opening : '(' ∉ key.table.toList
  target : IsWord key.target.toList
  no_closing : ')' ∉ key.target.toList

/-- All words are words, and the columns that declare foreign keys come in the order of the
columns, none of them twice. -/
structure Orderly (t : Table) : Prop where
  name : IsWord t.name.toList
  no_opening : '(' ∉ t.name.toList
  columns : ∀ column ∈ t.columns, OrderlyColumn column
  foreignKeys : ∀ key ∈ t.foreignKeys, OrderlyKey key
  declared : ((t.foreignKeys.map ForeignKey.column).filter (¬ OfConstraint ·)).Sublist
    (t.columns.map Column.name)

def Unquoted (s : List Char) : Prop :=
  ∀ c ∈ s, isQuote c = false

variable {p : Char → Bool} {c r s w table target name body : List Char}
  {pieces : List (List Char)} {l m : Language Char} {e : Entry} {t : Table} {cs : List Column}
  {ks : List ForeignKey} {f : Factorisation}

section Words

/-- Both parts of an unquoted text are unquoted. -/
theorem unquoted_of_mul (h : Unquoted s) (hs : s ∈ l * m) :
    (∃ a ∈ l, Unquoted a) ∧ ∃ b ∈ m, Unquoted b := by
  obtain ⟨a, ha, b, hb, rfl⟩ := Language.mem_mul.1 hs
  obtain ⟨hqa, hqb⟩ := List.forall_mem_append.1 h
  exact ⟨⟨a, ha, hqa⟩, b, hb, hqb⟩

theorem isWord_of_longest (hp : ∀ c, isSpace c = true → p c = false) (h : Unquoted s)
    (hs : s ∈ longest p w l) : IsWord w ∧ (∀ c, p c = false → c ∉ w) ∧ ∃ r ∈ l, Unquoted r := by
  obtain ⟨⟨hn, hw⟩, r, hr, -, rfl⟩ := hs
  obtain ⟨hq, hrest⟩ := List.forall_mem_append.1 h
  have hp' : ∀ c, p c = false → c ∉ w := by
    intro c hc hm
    rw [hw c hm] at hc
    cases hc
  refine ⟨⟨hn, fun c hc => ⟨?_, hq c hc⟩⟩, hp', r, hr, hrest⟩
  by_contra hs
  exact hp' c (hp c (Bool.of_not_eq_false hs)) hc

theorem words_of_referenceMark (h : Unquoted s) (hs : s ∈ referenceMark table target) :
    IsWord table ∧ '(' ∉ table ∧ IsWord target ∧ ')' ∉ target := by
  obtain ⟨-, x, hx, hqx⟩ := unquoted_of_mul h hs
  obtain ⟨htable, ho, y, hy, hqy⟩ := isWord_of_longest isTableNameChar_of_isSpace hqx hx
  obtain ⟨-, z, hz, hqz⟩ := unquoted_of_mul hqy hy
  obtain ⟨htarget, hc, -⟩ := isWord_of_longest isTargetChar_of_isSpace hqz hz
  exact ⟨htable, ho '(' rfl, htarget, hc ')' rfl⟩

theorem words_of_afterType {primaryKey : Bool} {reference : Option (List Char × List Char)}
    (h : Unquoted s) (hs : s ∈ afterType primaryKey reference) :
    ∀ table target, reference = some (table, target) →
      IsWord table ∧ '(' ∉ table ∧ IsWord target ∧ ')' ∉ target := by
  rintro table target rfl
  have hafter {s : List Char} (h : Unquoted s) (hs : s ∈ afterKey (some (table, target))) :
      IsWord table ∧ '(' ∉ table ∧ IsWord target ∧ ')' ∉ target := by
    obtain ⟨⟨a, ha, hqa⟩, -⟩ := unquoted_of_mul h hs
    exact words_of_referenceMark hqa ha
  cases primaryKey with
  | true =>
    obtain ⟨-, r, hr, hqr⟩ := unquoted_of_mul h hs
    exact hafter hqr hr
  | false => exact hafter h hs.1

/-- The words of a declaration. -/
theorem words_of_declaration (h : Unquoted s) (hs : s ∈ declaration e) :
    IsWord e.name ∧ IsWord e.dataType ∧ ∀ key ∈ keysOf e, OrderlyKey key := by
  obtain ⟨hname, -, x, hx, hqx⟩ := isWord_of_longest isWordChar_of_isSpace h hs
  obtain ⟨-, y, hy, hqy⟩ := unquoted_of_mul hqx hx
  obtain ⟨htype, -, z, hz, hqz⟩ := isWord_of_longest isWordChar_of_isSpace hqy hy
  refine ⟨hname, htype, fun key hk => ?_⟩
  cases hr : e.reference with
  | none =>
    rw [keysOf, hr] at hk
    cases hk
  | some x =>
    obtain ⟨htable, ho, htarget, hc⟩ := words_of_afterType hqz hz x.1 x.2 hr
    rw [keysOf, hr, List.mem_singleton] at hk
    subst hk
    constructor <;> rwa [String.toList_ofList]

end Words

section Keys

theorem column_of_mem_keysOf {key : ForeignKey} (h : key ∈ keysOf e) :
    key.column = String.ofList e.name := by
  unfold keysOf at h
  split at h
  · rw [List.mem_singleton.1 h]
  · cases h

/-- A column declares at most one foreign key. -/
theorem keysOf_sublist (e : Entry) :
    ((keysOf e).map ForeignKey.column).Sublist [String.ofList e.name] := by
  unfold keysOf
  split
  · exact List.Sublist.refl _
  · exact List.nil_sublist _

theorem Declares.sublist (h : Declares pieces cs ks) :
    ((ks.map ForeignKey.column).filter (¬ OfConstraint ·)).Sublist (cs.map Column.name) := by
  induction h with
  | nil => exact List.Sublist.refl _
  | other _ _ ih => exact ih
  | @constraint e p ps cs ks _ hc _ ih =>
    have hnone : ((keysOf e).map ForeignKey.column).filter (¬ OfConstraint ·) = [] := by
      refine List.filter_eq_nil_iff.2 fun name hn => ?_
      obtain ⟨key, hk, rfl⟩ := List.mem_map.1 hn
      have hof : OfConstraint (String.ofList e.name) := by
        rw [OfConstraint, String.toList_ofList]
        exact hc
      simpa [column_of_mem_keysOf hk] using hof
    rw [List.map_append, List.filter_append, hnone]
    exact ih
  | @column e p ps cs ks _ _ _ ih =>
    rw [List.map_append, List.filter_append]
    exact (List.filter_sublist.trans (keysOf_sublist e)).append ih

end Keys

theorem orderly_of_declares (h : Declares pieces cs ks) (hq : ∀ p ∈ pieces, Unquoted p) :
    (∀ column ∈ cs, OrderlyColumn column) ∧ ∀ key ∈ ks, OrderlyKey key := by
  have htrim {p : List Char} (h : Unquoted p) : Unquoted (trim p) :=
    fun c hc => h c (mem_of_mem_trim hc)
  induction h with
  | nil => exact ⟨nofun, nofun⟩
  | other _ _ ih => exact ih (List.forall_mem_cons.1 hq).2
  | constraint hp _ _ ih =>
    obtain ⟨hqp, hqs⟩ := List.forall_mem_cons.1 hq
    obtain ⟨-, -, hkeys⟩ := words_of_declaration (htrim hqp) hp
    obtain ⟨hcs, hks⟩ := ih hqs
    exact ⟨hcs, List.forall_mem_append.2 ⟨hkeys, hks⟩⟩
  | column hp hn _ ih =>
    obtain ⟨hqp, hqs⟩ := List.forall_mem_cons.1 hq
    obtain ⟨hname, htype, hkeys⟩ := words_of_declaration (htrim hqp) hp
    obtain ⟨hcs, hks⟩ := ih hqs
    refine ⟨List.forall_mem_cons.2 ⟨⟨?_, ?_, ?_⟩, hcs⟩, List.forall_mem_append.2 ⟨hkeys, hks⟩⟩
    · rwa [String.toList_ofList]
    · rwa [OfConstraint, String.toList_ofList]
    · rwa [String.toList_ofList]

section Clauses

theorem subset_intercalate (h : w ∈ pieces) : w ⊆ s.intercalate pieces := by
  induction pieces with
  | nil => cases h
  | cons p ps ih =>
    cases ps with
    | nil =>
      obtain rfl := List.mem_singleton.1 h
      rw [List.intercalate_singleton]
      exact List.Subset.refl w
    | cons q qs =>
      rw [List.intercalate_cons_cons]
      obtain rfl | h := List.mem_cons.1 h
      · exact fun c hc => List.mem_append_left _ (List.mem_append_left _ hc)
      · exact fun c hc => List.mem_append_right _ (ih h hc)

theorem words_of_clause (h : Unquoted c) (hc : c ∈ clause name body) :
    IsWord name ∧ '(' ∉ name ∧ Unquoted body := by
  obtain ⟨-, x, hx, hqx⟩ := unquoted_of_mul h hc
  have hnamed : ∃ y ∈ longest isTableNameChar name (spacing * bracketed body), Unquoted y := by
    obtain hx | hx := hx
    · exact (unquoted_of_mul hqx hx).2
    · exact ⟨x, hx.1, hqx⟩
  obtain ⟨y, hy, hqy⟩ := hnamed
  obtain ⟨hname, ho, z, hz, hqz⟩ := isWord_of_longest isTableNameChar_of_isSpace hqy hy
  obtain ⟨-, b, ⟨-, rfl⟩, hqb⟩ := unquoted_of_mul hqz hz
  refine ⟨hname, ho '(' rfl, fun c hc => hqb c ?_⟩
  exact List.mem_cons_of_mem _ (List.mem_append_left _ hc)

theorem orderly_of_denotes (h : Unquoted c) (hd : Denotes c t) : Orderly t := by
  obtain ⟨name, body, pieces, hc, ⟨-, -, rfl⟩, hn, hd⟩ := hd
  obtain ⟨hname, ho, hbody⟩ := words_of_clause h hc
  have hq : ∀ p ∈ pieces, Unquoted p := fun p hp c hc => hbody c (subset_intercalate hp hc)
  obtain ⟨hcs, hks⟩ := orderly_of_declares hd hq
  refine ⟨?_, ?_, hcs, hks, hd.sublist⟩ <;> rwa [hn, String.toList_ofList]

theorem Factorisation.subset_text (hc : c ∈ f.clauses) : c ⊆ f.text := by
  induction f with
  | last g => cases hc
  | next g a f ih =>
    obtain rfl | hc := List.mem_cons.1 hc
    · exact fun d hd => List.mem_append_right _ (List.mem_append_left _ hd)
    · exact fun d hd => List.mem_append_right _ (List.mem_append_right _ (ih hc hd))

theorem Factorisation.Valid.orderly (h : f.Valid) (hq : Unquoted f.text) :
    ∀ t ∈ tables f.text, Orderly t := by
  have hclauses : ∀ c ∈ f.clauses, Unquoted c := fun c hc d hd => hq d (subset_text hc hd)
  have hd := (List.forall₂_and_left _ _).2 ⟨hclauses, h.tables_text⟩
  have ho : List.Forall₂ (fun t _ => Orderly t ∧ True) (tables f.text) f.clauses :=
    hd.flip.imp fun t c h => ⟨orderly_of_denotes h.1 h.2, trivial⟩
  exact ((List.forall₂_and_left _ _).1 ho).1

theorem suffix_of_lengthTail? (h : lengthTail? s = some r) : r <:+ s := by
  simp only [lengthTail?, Option.bind_eq_bind, Option.bind_eq_some_iff] at h
  obtain ⟨⟨w, t⟩, hw, hr⟩ := h
  have ht : t <:+ s := by
    obtain ⟨-, -, hs⟩ := run1?_eq_some_iff.1 hw
    exact (List.suffix_append w t).trans (hs ▸ List.dropWhile_suffix isGap)
  have hr : r <:+ t.dropWhile isGap := ⟨[')'], exactly?_eq_some_iff.1 hr⟩
  exact (hr.trans (List.dropWhile_suffix isGap)).trans ht

theorem mem_of_mem_dropLengthsFrom {kept : List Char} {d : Char}
    (h : d ∈ dropLengthsFrom kept s) : d ∈ kept ∨ d ∈ s := by
  have hcons {k : Char} {kept s : List Char} (h : d ∈ k :: kept ∨ d ∈ s) :
      d ∈ kept ∨ d ∈ k :: s := by
    obtain h | h := h
    · exact (List.mem_cons.1 h).elim (fun h => Or.inr (h ▸ List.mem_cons_self)) Or.inl
    · exact Or.inr (List.mem_cons_of_mem k h)
  induction kept, s using dropLengthsFrom.induct with
  | case1 kept =>
    rw [dropLengthsFrom] at h
    exact Or.inl (List.mem_reverse.1 h)
  | case2 kept s r hr ih =>
    rw [dropLengthsFrom_length hr] at h
    obtain h | h := ih h
    · exact Or.inl ((List.dropWhile_suffix isSpace).subset h)
    · exact Or.inr (List.mem_cons_of_mem _ ((suffix_of_lengthTail? hr).subset h))
  | case3 kept s hs ih =>
    rw [dropLengthsFrom_opening hs] at h
    exact hcons (ih h)
  | case4 kept c s hc ih =>
    rw [dropLengthsFrom_cons hc] at h
    exact hcons (ih h)

theorem unquoted_cleanup (s : List Char) : Unquoted (cleanup s) := by
  intro c hc
  obtain hc | hc := mem_of_mem_dropLengthsFrom hc
  · cases hc
  · simpa using (List.mem_filter.1 hc).2

end Clauses

/-- Every table that is read from a text is orderly, whatever the text is. -/
theorem orderly_of_mem_ofText (text : String) : ∀ t ∈ ofText text, Orderly t := by
  obtain ⟨f, hs, hf⟩ := Factorisation.exists_valid (cleanup text.toList)
  have h := hf.orderly (hs ▸ unquoted_cleanup text.toList)
  rwa [hs] at h

/-- The constraint leaves a foreign key without a column, and quotes are gone from a type. -/
theorem orderly_of_constraint_with_key :
    let t : Table := ⟨"a", [⟨"id", "int", false⟩, ⟨"b", "x", false⟩],
      [⟨"Primary", "c", "d"⟩, ⟨"b", "e", "f"⟩]⟩
    t ∈ ofText "create table [a] (id int, Primary key references c(d), b `x` references e(f))" ∧
      Orderly t := by
  intro t
  have ht : t ∈ ofText
      "create table [a] (id int, Primary key references c(d), b `x` references e(f))" := by
    decide +kernel
  exact ⟨ht, orderly_of_mem_ofText _ t ht⟩

end SchemaSketch.Schema
