import SchemaSketch.Proofs.Schema.Cleaning
import SchemaSketch.Proofs.Schema.Factorisation
import SchemaSketch.Proofs.Text.Respelling

/-!
Reading takes no account of white space and of the case of letters. Texts that differ in nothing
else are cleaned, cut into statements and read in the same way, step by step, and what is read from
them differs at most in the case of letters.
-/
namespace SchemaSketch

def Column.respell (f : Char → Char) (column : Column) : Column :=
  ⟨column.name.map f, column.dataType.map f, column.primaryKey⟩

def ForeignKey.respell (f : Char → Char) (key : ForeignKey) : ForeignKey :=
  ⟨key.column.map f, key.table.map f, key.target.map f⟩

def Table.respell (f : Char → Char) (table : Table) : Table :=
  ⟨table.name.map f, table.columns.map (Column.respell f),
    table.foreignKeys.map (ForeignKey.respell f)⟩

theorem Column.respell_id : respell id = id := by
  funext column
  rw [respell, String.map_id, String.map_id]
  rfl

theorem ForeignKey.respell_id : respell id = id := by
  funext key
  rw [respell, String.map_id, String.map_id, String.map_id]
  rfl

theorem Table.respell_id : respell id = id := by
  funext table
  rw [respell, String.map_id, Column.respell_id, ForeignKey.respell_id, List.map_id, List.map_id]
  rfl

end SchemaSketch

namespace SchemaSketch.Schema

open Text

variable {f : Char → Char} {depth : Nat} {g k k' p s t w w' : List Char} {ps : List (List Char)}

section Cleaning

theorem coarse_isQuote : Coarse isQuote := by
  refine ⟨⟨false, fun c hc => ?_⟩, ⟨false, fun c hc => (isQuote_of_isGap hc).1⟩⟩
  have hn := toNat_of_isAlpha hc
  by_contra hq
  simp only [Bool.not_eq_false, isQuote, Bool.or_eq_true, beq_iff_eq] at hq
  obtain ((hq | hq) | rfl) | rfl := hq
  · omega
  · omega
  · cases hc
  · cases hc

theorem rel_lengthTail? (hf : ForgetsCase f) (h : Respelled f s t) :
    Option.Rel (Respelled f) (lengthTail? s) (lengthTail? t) := by
  have hgap := h.dropWhile hf coarse_isGap
  refine rel_bind (hgap.run1? hf coarse_isDigit fun _ => isDigit_of_isGap) fun x y hxy => ?_
  exact (hxy.2.dropWhile hf coarse_isGap).exactly? hf rfl rfl

theorem respelled_dropLengthsFrom (hf : ForgetsCase f) (hk : Respelled f k k')
    (h : Respelled f s t) : Respelled f (dropLengthsFrom k s) (dropLengthsFrom k' t) := by
  -- A gap is passed in one step and a length in another, so that the induction is on the length
  -- of what is left.
  induction hn : s.length using Nat.strong_induction_on generalizing k k' s t with
  | h n ih =>
  cases h with
  | nil =>
    rw [dropLengthsFrom, dropLengthsFrom]
    exact hk.reverse
  | @cons c d s t hc hd he h =>
    have hkept : Respelled f (c :: k) (d :: k') := .cons hc hd he hk
    rw [List.length_cons] at hn
    by_cases ho : c = '('
    · obtain rfl := ho
      obtain rfl := (hf.eq_iff he rfl).1 rfl
      have hl := rel_lengthTail? hf h
      generalize hs : lengthTail? s = x, ht : lengthTail? t = y at hl
      cases hl with
      | none =>
        rw [dropLengthsFrom_opening hs, dropLengthsFrom_opening ht]
        exact ih s.length (by omega) hkept h rfl
      | @some r r' hr =>
        rw [dropLengthsFrom_length hs, dropLengthsFrom_length ht]
        have hlt := length_of_lengthTail? hs
        exact ih r.length (by omega) (hk.dropWhile hf coarse_isSpace) hr rfl
    · have hod : d ≠ '(' := mt (hf.eq_iff he rfl).2 ho
      rw [dropLengthsFrom_cons ho, dropLengthsFrom_cons hod]
      exact ih s.length (by omega) hkept h rfl
  | @gap g g' s t hg hg' h =>
    have hgap {g : List Char} (hg : g ∈ oneOrMore isGap) : Strips g g :=
      strips_of_not_mem fun hm => absurd (hg.2 _ hm) (by decide)
    rw [hgap hg, hgap hg']
    have hkept := (respelled_gap hg hg').reverse.append hk
    exact ih s.length (hn ▸ length_lt_append hg.1 s) hkept h rfl

theorem respelled_cleanup (hf : ForgetsCase f) (h : Respelled f s t) :
    Respelled f (cleanup s) (cleanup t) :=
  respelled_dropLengthsFrom hf .nil (h.filter hf coarse_isQuote.not)

end Cleaning

section Entries

theorem coarse_isWordChar : Coarse isWordChar :=
  coarse_isSpace.not

theorem coarse_isTableNameChar : Coarse isTableNameChar :=
  (coarse_isSpace.or (coarse_beq rfl rfl)).not

theorem coarse_isTargetChar : Coarse isTargetChar :=
  (coarse_isSpace.or (coarse_beq rfl rfl)).not

theorem rel_word? (hf : ForgetsCase f) (h : Respelled f s t) :
    Option.Rel (WordRespelled f) (run1? isWordChar s) (run1? isWordChar t) :=
  h.run1? hf coarse_isWordChar fun c hc => isWordChar_of_isSpace c (isSpace_of_isGap hc)

theorem rel_tableName? (hf : ForgetsCase f) (h : Respelled f s t) :
    Option.Rel (WordRespelled f) (run1? isTableNameChar s) (run1? isTableNameChar t) :=
  h.run1? hf coarse_isTableNameChar fun c hc => isTableNameChar_of_isSpace c (isSpace_of_isGap hc)

theorem rel_target? (hf : ForgetsCase f) (h : Respelled f s t) :
    Option.Rel (WordRespelled f) (run1? isTargetChar s) (run1? isTargetChar t) :=
  h.run1? hf coarse_isTargetChar fun c hc => isTargetChar_of_isSpace c (isSpace_of_isGap hc)

theorem rel_primaryKey? (hf : ForgetsCase f) (h : Respelled f s t) :
    Option.Rel (Respelled f) (primaryKey? s) (primaryKey? t) := by
  refine rel_bind (h.skip1? hf) fun s t h => ?_
  refine rel_bind (h.keyword? hf rfl) fun s t h => ?_
  refine rel_bind (h.skip1? hf) fun s t h => ?_
  exact h.keyword? hf rfl

def respellPair (f : Char → Char) (x : List Char × List Char) : List Char × List Char :=
  (x.1.map f, x.2.map f)

theorem rel_reference? (hf : ForgetsCase f) (h : Respelled f s t) :
    Option.Rel (fun x y => respellPair f x = respellPair f y) (reference? s) (reference? t) := by
  refine rel_bind (h.skip1? hf) fun s t h => ?_
  refine rel_bind (h.keyword? hf rfl) fun s t h => ?_
  refine rel_bind (h.skip1? hf) fun s t h => ?_
  refine rel_bind (rel_tableName? hf h) fun x y hxy => ?_
  refine rel_bind ((hxy.2.dropWhile hf coarse_isGap).exactly? hf rfl rfl) fun s t h => ?_
  refine rel_bind (rel_target? hf (h.dropWhile hf coarse_isGap)) fun x' y' hxy' => ?_
  refine rel_bind ((hxy'.2.dropWhile hf coarse_isGap).exactly? hf rfl rfl) fun _ _ _ => ?_
  exact .some (Prod.ext hxy.1 hxy'.1)

def Entry.respell (f : Char → Char) (e : Entry) : Entry :=
  ⟨e.name.map f, e.dataType.map f, e.primaryKey, e.reference.map (respellPair f)⟩

theorem rel_entryOf? (hf : ForgetsCase f) (h : Respelled f s t) :
    Option.Rel (fun e e' => e.respell f = e'.respell f) (entryOf? s) (entryOf? t) := by
  refine rel_bind (rel_word? hf (h.dropWhile hf coarse_isGap)) fun x y hname => ?_
  refine rel_bind (hname.2.skip1? hf) fun s t h => ?_
  refine rel_bind (rel_word? hf h) fun x' y' htype => ?_
  have hentry {u v : List Char} {b : Bool} (h : Respelled f u v) :
      Entry.respell f ⟨x.1, x'.1, b, reference? u⟩ =
        Entry.respell f ⟨y.1, y'.1, b, reference? v⟩ := by
    rw [Entry.respell, Entry.respell, hname.1, htype.1, map_eq_of_rel (rel_reference? hf h)]
  have hkey := rel_primaryKey? hf htype.2
  generalize hx : primaryKey? x'.2 = u, hy : primaryKey? y'.2 = v at hkey
  cases hkey with
  | none =>
    simp only [hx, hy]
    exact .some (hentry htype.2)
  | some h =>
    simp only [hx, hy]
    exact .some (hentry h)

theorem map_ofList (f : Char → Char) (w : List Char) :
    (String.ofList w).map f = String.ofList (w.map f) := by
  apply String.toList_inj.1
  rw [String.toList_map, String.toList_ofList, String.toList_ofList]

variable {e e' : Entry}

theorem rel_column? (hf : ForgetsCase f) (h : e.respell f = e'.respell f) :
    Option.Rel (fun c c' => Column.respell f c = Column.respell f c') e.column? e'.column? := by
  simp only [Entry.respell, Entry.mk.injEq] at h
  obtain ⟨hname, htype, hkey, -⟩ := h
  have hc : e.isConstraint = e'.isConstraint := by
    rw [Entry.isConstraint, Entry.isConstraint, hf.map_toUpper_eq hname]
  rw [Entry.column?, Entry.column?, hc]
  split
  · exact .none
  · refine .some ?_
    simp only [Column.respell, map_ofList, hname, htype, hkey]

theorem rel_foreignKey? (h : e.respell f = e'.respell f) :
    Option.Rel (fun k k' => ForeignKey.respell f k = ForeignKey.respell f k')
      e.foreignKey? e'.foreignKey? := by
  simp only [Entry.respell, Entry.mk.injEq] at h
  obtain ⟨hname, -, -, href⟩ := h
  rw [Entry.foreignKey?, Entry.foreignKey?]
  cases hr : e.reference with
  | none =>
    rw [hr, Option.map_none, eq_comm, Option.map_eq_none_iff] at href
    rw [href]
    exact .none
  | some x =>
    rw [hr, Option.map_some, eq_comm, Option.map_eq_some_iff] at href
    obtain ⟨y, hy, hxy⟩ := href
    rw [hy]
    refine .some ?_
    simp only [respellPair, Prod.mk.injEq] at hxy
    simp only [ForeignKey.respell, map_ofList, hname, hxy.1, hxy.2]

/-- A gap that begins a text stands in front of its first piece. -/
theorem cutAtCommas_gap (hg : g ∈ zeroOrMore isGap) (hs : cutAtCommas depth s = p :: ps) :
    cutAtCommas depth (g ++ s) = (g ++ p) :: ps := by
  induction g with
  | nil => exact hs
  | cons c g ih =>
    obtain ⟨hc, hg⟩ := List.forall_mem_cons.1 hg
    have hne {d : Char} (hd : isGap d = false) : c ≠ d := ne_of_class hc hd
    rw [List.cons_append, cutAtCommas, if_neg (hne rfl), if_neg (hne rfl),
      if_neg fun h => hne rfl h.1, ih hg]
    rfl

theorem forall₂_consHead {R : List Char → List Char → Prop} {qs : List (List Char)} {c d : Char}
    (hcons : ∀ p q, R p q → R (c :: p) (d :: q)) (hnil : R [] []) (h : List.Forall₂ R ps qs) :
    List.Forall₂ R (consHead c ps) (consHead d qs) := by
  cases h with
  | nil => exact .cons (hcons _ _ hnil) .nil
  | cons h hs => exact .cons (hcons _ _ h) hs

theorem forall₂_cutAtCommas (hf : ForgetsCase f) (h : Respelled f s t) :
    List.Forall₂ (Respelled f) (cutAtCommas depth s) (cutAtCommas depth t) := by
  induction h generalizing depth with
  | nil => exact .cons .nil .nil
  | @cons c d s t hc hd he _ ih =>
    have hhead {depth : Nat} := forall₂_consHead (fun _ _ h => .cons hc hd he h) .nil
      (@ih depth)
    rw [cutAtCommas, cutAtCommas]
    simp only [hf.eq_iff he (k := '(') rfl, hf.eq_iff he (k := ')') rfl,
      hf.eq_iff he (k := ',') rfl]
    split
    · exact hhead
    · split
      · exact hhead
      · split
        · exact .cons .nil ih
        · exact hhead
  | @gap g g' s t hg hg' _ ih =>
    obtain ⟨p, ps, hs⟩ := List.exists_cons_of_ne_nil (cutAtCommas_ne_nil depth s)
    obtain ⟨q, qs, ht⟩ := List.exists_cons_of_ne_nil (cutAtCommas_ne_nil depth t)
    have hpq := @ih depth
    rw [hs, ht] at hpq
    rw [cutAtCommas_gap hg.2 hs, cutAtCommas_gap hg'.2 ht]
    cases hpq with
    | cons h hrest => exact .cons (.gap hg hg' h) hrest

theorem forall₂_entries (hf : ForgetsCase f) (h : Respelled f s t) :
    List.Forall₂ (Respelled f) (entries s) (entries t) := by
  refine List.rel_filter ?_ (List.rel_map ?_ (forall₂_cutAtCommas hf h))
  · intro p q hpq
    show (!p.isEmpty) = true ↔ (!q.isEmpty) = true
    rw [hpq.isEmpty_eq]
  · intro p q hpq
    exact hpq.trim hf

theorem respell_table (hf : ForgetsCase f) (hw : w.map f = w'.map f) (h : Respelled f s t) :
    (table w s).respell f = (table w' t).respell f := by
  have hentries := List.rel_filterMap (fun _ _ h => rel_entryOf? hf h) (forall₂_entries hf h)
  have hcolumns := List.rel_filterMap (fun _ _ h => rel_column? hf h) hentries
  have hkeys := List.rel_filterMap (fun _ _ h => rel_foreignKey? h) hentries
  simp only [Table.respell, table, map_ofList, hw]
  rw [map_eq_of_forall₂ hcolumns, map_eq_of_forall₂ hkeys]

end Entries

section Statements

def BodyRespelled (f : Char → Char) (x y : List Char × List Char) : Prop :=
  Respelled f x.1 y.1 ∧ Respelled f x.2 y.2

theorem body?_gap (hg : g ∈ zeroOrMore isGap) :
    body? depth (g ++ s) = (body? depth s).map fun x => (g ++ x.1, x.2) := by
  induction g with
  | nil => exact Option.map_id'.symm
  | cons c g ih =>
    obtain ⟨hc, hg⟩ := List.forall_mem_cons.1 hg
    have hne {d : Char} (hd : isGap d = false) : c ≠ d := ne_of_class hc hd
    simp only [List.cons_append, body?, if_neg (hne (d := '(') rfl), if_neg (hne (d := ')') rfl)]
    rw [ih hg, Option.map_map]
    rfl

theorem rel_body? (hf : ForgetsCase f) (h : Respelled f s t) :
    Option.Rel (BodyRespelled f) (body? depth s) (body? depth t) := by
  induction h generalizing depth with
  | nil => exact .none
  | @cons c d s t hc hd he h ih =>
    have hnext {depth : Nat} : Option.Rel (BodyRespelled f)
        ((body? depth s).map fun x => (c :: x.1, x.2))
        ((body? depth t).map fun x => (d :: x.1, x.2)) :=
      rel_map ih fun _ _ hxy => ⟨.cons hc hd he hxy.1, hxy.2⟩
    simp only [body?, hf.eq_iff he (k := '(') rfl, hf.eq_iff he (k := ')') rfl]
    split
    · exact hnext
    · split
      · cases depth with
        | zero => exact .some ⟨.nil, h⟩
        | succ depth => exact hnext
      · exact hnext
  | @gap g g' s t hg hg' _ ih =>
    rw [body?_gap hg.2, body?_gap hg'.2]
    exact rel_map ih fun _ _ hxy => ⟨.gap hg hg' hxy.1, hxy.2⟩

theorem rel_parenthesized? (hf : ForgetsCase f) (h : Respelled f s t) :
    Option.Rel (BodyRespelled f) (parenthesized? s) (parenthesized? t) := by
  cases h with
  | nil => exact .none
  | @cons c d s t hc hd he h =>
    rw [parenthesized?, parenthesized?]
    simp only [hf.eq_iff he (k := '(') rfl]
    split
    · exact rel_body? hf h
    · exact .none
  | @gap g g' s t hg hg' h =>
    have hnone {g s : List Char} (hg : g ∈ oneOrMore isGap) : parenthesized? (g ++ s) = none := by
      obtain ⟨c, r, hc, he⟩ := exists_cons_of_oneOrMore hg s
      rw [he]
      exact if_neg (ne_of_class hc rfl)
    rw [hnone hg, hnone hg']
    exact .none

theorem rel_ifNotExists? (hf : ForgetsCase f) (h : Respelled f s t) :
    Option.Rel (Respelled f) (ifNotExists? s) (ifNotExists? t) := by
  refine rel_bind (h.keyword? hf rfl) fun s t h => ?_
  refine rel_bind (h.skip1? hf) fun s t h => ?_
  refine rel_bind (h.keyword? hf rfl) fun s t h => ?_
  refine rel_bind (h.skip1? hf) fun s t h => ?_
  refine rel_bind (h.keyword? hf rfl) fun s t h => ?_
  exact h.skip1? hf

theorem rel_statement? (hf : ForgetsCase f) (h : Respelled f s t) :
    Option.Rel (fun x y => x.1.respell f = y.1.respell f ∧ Respelled f x.2 y.2)
      (statement? s) (statement? t) := by
  refine rel_bind (h.keyword? hf rfl) fun s t h => ?_
  refine rel_bind (h.skip1? hf) fun s t h => ?_
  refine rel_bind (h.keyword? hf rfl) fun s t h => ?_
  refine rel_bind (h.skip1? hf) fun s t h => ?_
  have hafter := rel_getD (rel_ifNotExists? hf h) h
  refine rel_bind (rel_tableName? hf hafter) fun x y hxy => ?_
  refine rel_bind (rel_parenthesized? hf (hxy.2.dropWhile hf coarse_isGap)) fun x' y' hbody => ?_
  exact .some ⟨respell_table hf hxy.1 hbody.1, hbody.2⟩

/-- No statement begins in a gap. -/
theorem barren_of_gap (hg : g ∈ zeroOrMore isGap) : Barren g s := by
  induction g with
  | nil => exact barren_nil
  | cons c g ih =>
    obtain ⟨hc, hg⟩ := List.forall_mem_cons.1 hg
    have hword : keyword? "CREATE".toList (c :: (g ++ s)) = none :=
      if_neg (ne_of_class (isGap_toUpper hc) rfl)
    have hnone : statement? (c :: (g ++ s)) = none := by
      rw [statement?, hword]
      rfl
    exact barren_cons.2 ⟨hnone, ih hg⟩

theorem respell_tables (hf : ForgetsCase f) (h : Respelled f s t) :
    (tables s).map (Table.respell f) = (tables t).map (Table.respell f) := by
  induction hn : s.length using Nat.strong_induction_on generalizing s t with
  | h n ih =>
  cases h with
  | nil => rfl
  | @cons c d s t hc hd he h =>
    have hs := rel_statement? hf (.cons hc hd he h)
    generalize hx : statement? (c :: s) = x, hy : statement? (d :: t) = y at hs
    cases hs with
    | none =>
      rw [tables_of_none hx, tables_of_none hy]
      rw [List.length_cons] at hn
      exact ih s.length (by omega) h rfl
    | @some x y hxy =>
      have hlt := length_of_statement? hx
      rw [tables_of_statement hx, tables_of_statement hy, List.map_cons, List.map_cons, hxy.1,
        ih x.2.length (by omega) hxy.2 rfl]
  | @gap g g' s t hg hg' h =>
    rw [tables_gap (barren_of_gap hg.2), tables_gap (barren_of_gap hg'.2)]
    exact ih s.length (hn ▸ length_lt_append hg.1 s) h rfl

end Statements

/-- Texts that differ in their gaps and in the case of their letters describe the same tables, up to
the case of letters; if they differ in their gaps alone, the same tables. -/
theorem ofText_respelled (x y : String) :
    (Respelled Char.toUpper x.toList y.toList →
      (ofText x).map (Table.respell Char.toUpper) = (ofText y).map (Table.respell Char.toUpper)) ∧
    (Respelled id x.toList y.toList → ofText x = ofText y) := by
  constructor
  · intro h
    exact respell_tables forgetsCase_toUpper (respelled_cleanup forgetsCase_toUpper h)
  · intro h
    have hmap := respell_tables forgetsCase_id (respelled_cleanup forgetsCase_id h)
    rwa [Table.respell_id, List.map_id, List.map_id] at hmap

/-- A gap in front of a length, which goes with it, and the name of a table between brackets. -/
theorem ofText_respelled_length :
    let x := "CREATE TABLE [t](id INT (5))"
    let y := "CREATE TABLE [T](id INT\t\n(5))"
    let z := "CREATE TABLE [t](id INT\t\n(5))"
    Respelled Char.toUpper x.toList y.toList ∧ Respelled id x.toList z.toList ∧
      (ofText x).map (Table.respell Char.toUpper) = (ofText y).map (Table.respell Char.toUpper) ∧
      ofText x = ofText z ∧ ofText y = [⟨"T", [⟨"id", "INT", false⟩], []⟩] := by
  intro x y z
  have htext (name gap : String) :
      ("CREATE TABLE [" ++ name ++ "](id INT" ++ gap ++ "(5))").toList =
        "CREATE TABLE [".toList ++ (name.toList ++ ("](id INT".toList ++
          (gap.toList ++ "(5))".toList))) := by
    simp only [String.toList_append, List.append_assoc]
  have hgap {f : Char → Char} : Respelled f " ".toList "\t\n".toList :=
    respelled_gap (by decide) (by decide)
  have hname : Respelled Char.toUpper "t".toList "T".toList := .cons rfl rfl rfl .nil
  have hcase : Respelled Char.toUpper x.toList y.toList := by
    rw [show x.toList = _ from htext "t" " ", show y.toList = _ from htext "T" "\t\n"]
    exact (Respelled.refl _).append (hname.append ((Respelled.refl _).append
      (hgap.append (.refl _))))
  have hspace : Respelled id x.toList z.toList := by
    rw [show x.toList = _ from htext "t" " ", show z.toList = _ from htext "t" "\t\n"]
    exact (Respelled.refl _).append ((Respelled.refl _).append ((Respelled.refl _).append
      (hgap.append (.refl _))))
  exact ⟨hcase, hspace, (ofText_respelled x y).1 hcase, (ofText_respelled x z).2 hspace,
    by decide +kernel⟩

end SchemaSketch.Schema
