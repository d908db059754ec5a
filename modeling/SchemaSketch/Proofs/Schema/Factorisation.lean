import SchemaSketch.Proofs.Schema.Reading

/-!
Reading a schema follows its grammar. Every text has one valid factorisation, and the tables that
are read are those that its clauses denote.
-/
namespace SchemaSketch.Schema

open Text

section Clauses

variable {c r s name body : List Char} {t : Table}

theorem balanced_of_mem_clause (hc : c ∈ clause name body) : Balanced body := by
  have hl {x : List Char} (hx : x ∈ longest isTableNameChar name (spacing * bracketed body)) :
      Balanced body := by
    obtain ⟨-, y, hy, -, -⟩ := hx
    obtain ⟨g, -, b, ⟨hb, -⟩, -⟩ := Language.mem_mul.1 hy
    exact hb
  obtain ⟨a, -, x, hx, -⟩ := Language.mem_mul.1 hc
  obtain hx | hx := hx
  · obtain ⟨b, -, y, hy, -⟩ := Language.mem_mul.1 hx
    exact hl hy
  · exact hl hx.1

theorem statement?_append (hc : c ∈ clause name body) :
    statement? (c ++ r) = some (table name body, r) :=
  recognises_statement.read (i := (name, body, r)) (mem_mul_singleton.2 ⟨c, hc, rfl⟩)

theorem statement?_eq_some_iff : statement? s = some (t, r) ↔
    ∃ name body c, c ∈ clause name body ∧ c ++ r = s ∧ table name body = t := by
  rw [recognises_statement s (t, r)]
  constructor
  · intro h
    obtain ⟨x, hx, he⟩ := h
    obtain ⟨c, hc, hs⟩ := mem_mul_singleton.1 hx
    simp only [Prod.mk.injEq] at he
    exact ⟨x.1, x.2.1, c, hc, he.2 ▸ hs, he.1⟩
  · intro h
    obtain ⟨name, body, c, hc, hs, he⟩ := h
    exact ⟨(name, body, r), mem_mul_singleton.2 ⟨c, hc, hs⟩, congrArg (·, r) he⟩

theorem statement?_eq_none_iff :
    statement? s = none ↔ ∀ name body, s ∉ clause name body * ⊤ := by
  rw [recognises_statement.eq_none_iff]
  constructor
  · intro h name body hs
    obtain ⟨c, hc, r, he⟩ := mem_mul_top.1 hs
    exact h (name, body, r) (mem_mul_singleton.2 ⟨c, hc, he⟩)
  · intro h x hx
    obtain ⟨c, hc, he⟩ := mem_mul_singleton.1 hx
    exact h x.1 x.2.1 (mem_mul_top.2 ⟨c, hc, x.2.2, he⟩)

theorem ne_nil_of_mem_clause (hc : c ∈ clause name body) : c ≠ [] := by
  have h := length_of_statement? (statement?_append (r := []) hc)
  rw [List.append_nil] at h
  exact List.ne_nil_of_length_pos h

end Clauses

section Pieces

variable {p : List Char} {pieces ps : List (List Char)} {cs : List Column} {ks : List ForeignKey}
  {e : Entry} {es : List Entry}

def declared (pieces : List (List Char)) : List Entry :=
  ((pieces.map trim).filter (!·.isEmpty)).filterMap entryOf?

theorem declared_cons : declared (p :: ps) = (entryOf? (trim p)).toList ++ declared ps := by
  cases h : trim p with
  | nil => simp [declared, h, entryOf?, run1?]
  | cons c s => cases he : entryOf? (c :: s) <;> simp [declared, h, he]

theorem isConstraint_iff : e.isConstraint = true ↔ e.name ∈ word "PRIMARY" := by
  simp only [Entry.isConstraint, beq_iff_eq]
  rfl

theorem columns_of_constraint (h : e.name ∈ word "PRIMARY") :
    (e :: es).filterMap Entry.column? = es.filterMap Entry.column? := by
  have he : e.column? = none := if_pos (isConstraint_iff.2 h)
  rw [List.filterMap_cons_none he]

theorem columns_of_column (h : e.name ∉ word "PRIMARY") :
    (e :: es).filterMap Entry.column? =
      ⟨String.ofList e.name, String.ofList e.dataType, e.primaryKey⟩ ::
        es.filterMap Entry.column? := by
  have he : e.column? = some ⟨String.ofList e.name, String.ofList e.dataType, e.primaryKey⟩ :=
    if_neg fun hc => h (isConstraint_iff.1 hc)
  rw [List.filterMap_cons_some he]

theorem foreignKeys_cons : (e :: es).filterMap Entry.foreignKey? =
    keysOf e ++ es.filterMap Entry.foreignKey? := by
  cases h : e.reference with
  | none =>
    have hk : e.foreignKey? = none := by rw [Entry.foreignKey?, h, Option.map_none]
    rw [List.filterMap_cons_none hk, keysOf, h, List.nil_append]
  | some x =>
    have hk : e.foreignKey? = some ⟨String.ofList e.name, String.ofList x.1,
        String.ofList x.2⟩ := by rw [Entry.foreignKey?, h, Option.map_some]
    rw [List.filterMap_cons_some hk, keysOf, h, List.singleton_append]

theorem declares_iff : Declares pieces cs ks ↔
    (declared pieces).filterMap Entry.column? = cs ∧
      (declared pieces).filterMap Entry.foreignKey? = ks := by
  constructor
  · intro h
    induction h with
    | nil => exact ⟨rfl, rfl⟩
    | other hp _ ih =>
      have hn := Option.eq_none_iff_forall_ne_some.2 fun e he => hp e (entryOf?_trim.1 he)
      rw [declared_cons, hn]
      exact ih
    | constraint hp hc _ ih =>
      rw [declared_cons, entryOf?_trim.2 hp, Option.toList_some, List.singleton_append,
        columns_of_constraint hc, foreignKeys_cons, ih.1, ih.2]
      exact ⟨rfl, rfl⟩
    | column hp hc _ ih =>
      rw [declared_cons, entryOf?_trim.2 hp, Option.toList_some, List.singleton_append,
        columns_of_column hc, foreignKeys_cons, ih.1, ih.2]
      exact ⟨rfl, rfl⟩
  · intro h
    obtain ⟨rfl, rfl⟩ := h
    induction pieces with
    | nil => exact .nil
    | cons p ps ih =>
      cases h : entryOf? (trim p) with
      | none =>
        rw [declared_cons, h]
        refine .other (fun e he => ?_) ih
        rw [entryOf?_trim.2 he] at h
        cases h
      | some e =>
        rw [declared_cons, h, Option.toList_some, List.singleton_append, foreignKeys_cons]
        by_cases hc : e.name ∈ word "PRIMARY"
        · rw [columns_of_constraint hc]
          exact .constraint (entryOf?_trim.1 h) hc ih
        · rw [columns_of_column hc]
          exact .column (entryOf?_trim.1 h) hc ih

end Pieces

/-- What a clause denotes is what is read from it. -/
theorem denotes_iff {c : List Char} {t : Table} : Denotes c t ↔ statement? c = some (t, []) := by
  rw [statement?_eq_some_iff]
  constructor
  · intro h
    obtain ⟨name, body, pieces, hc, hcut, hn, hd⟩ := h
    obtain rfl := (isCut_iff (balanced_of_mem_clause hc)).1 hcut
    obtain ⟨hcs, hks⟩ := declares_iff.1 hd
    refine ⟨name, body, c, hc, List.append_nil c, ?_⟩
    cases t
    simp only [table, Table.mk.injEq]
    exact ⟨hn.symm, hcs, hks⟩
  · intro h
    obtain ⟨name, body, c', hc, rfl, rfl⟩ := h
    rw [List.append_nil]
    have hb := balanced_of_mem_clause hc
    exact ⟨name, body, _, hc, (isCut_iff hb).2 rfl, rfl, declares_iff.2 ⟨rfl, rfl⟩⟩

section Tables

variable {c : Char} {g r s behind name body : List Char} {t : Table}

theorem tables_of_statement (h : statement? s = some (t, r)) : tables s = t :: tables r := by
  have hl := length_of_statement? h
  cases s with
  | nil => simp at hl
  | cons c s =>
    rw [tables]
    split
    · next t' r' h' =>
      rw [h, Option.some_inj, Prod.mk.injEq] at h'
      rw [h'.1, h'.2]
    · next h' => simp [h] at h'

theorem tables_of_none (h : statement? (c :: s) = none) : tables (c :: s) = tables s := by
  rw [tables]
  split
  · next h' => simp [h] at h'
  · rfl

theorem barren_nil : Barren [] behind := by
  intro u v name body h hv
  exact absurd (List.append_eq_nil_iff.1 h.symm).2 hv

theorem barren_cons : Barren (c :: g) behind ↔
    statement? (c :: (g ++ behind)) = none ∧ Barren g behind := by
  rw [statement?_eq_none_iff]
  constructor
  · intro h
    refine ⟨fun name body => h [] (c :: g) name body rfl (by simp), fun u v name body he => ?_⟩
    exact h (c :: u) v name body (congrArg (c :: ·) he)
  · intro h u v name body he hv
    cases u with
    | nil =>
      obtain rfl : c :: g = v := he
      exact h.1 name body
    | cons d u =>
      rw [List.cons_append, List.cons.injEq] at he
      exact h.2 u v name body he.2 hv

theorem tables_gap (h : Barren g behind) : tables (g ++ behind) = tables behind := by
  induction g with
  | nil => rfl
  | cons c g ih =>
    obtain ⟨hn, hg⟩ := barren_cons.1 h
    rw [List.cons_append, tables_of_none hn, ih hg]

/-- A gap ends at the first clause. -/
theorem Barren.length_le {g' behind' : List Char} (h : Barren g behind)
    (he : g ++ behind = g' ++ behind') (hb : behind' ∈ clause name body * ⊤) :
    g.length ≤ g'.length := by
  by_contra hl
  obtain ⟨v, rfl, hv⟩ | ⟨v, rfl, hv⟩ := List.append_eq_append_iff.1 he
  · simp at hl
  · refine h g' v name body rfl (fun hn => hl (by simp [hn])) ?_
    rw [← hv]
    exact hb

end Tables

namespace Factorisation

variable {f f' : Factorisation} {s : List Char}

theorem Valid.tables_text (h : f.Valid) : List.Forall₂ Denotes f.clauses (tables f.text) := by
  induction f with
  | last g =>
    have hg : tables (g ++ []) = tables [] := tables_gap h
    rw [text, ← List.append_nil g, hg, tables]
    exact .nil
  | next g c f ih =>
    obtain ⟨hg, ⟨name, body, hc⟩, hf⟩ := h
    rw [text, tables_gap hg, tables_of_statement (statement?_append hc)]
    refine .cons (denotes_iff.2 ?_) (ih hf)
    have h := statement?_append (r := []) hc
    rwa [List.append_nil] at h

theorem exists_valid (s : List Char) : ∃ f : Factorisation, f.text = s ∧ f.Valid := by
  induction s using tables.induct with
  | case1 => exact ⟨last [], rfl, barren_nil⟩
  | case2 c s t r h ih =>
    obtain ⟨f, rfl, hf⟩ := ih
    obtain ⟨name, body, a, ha, he, -⟩ := statement?_eq_some_iff.1 h
    exact ⟨next [] a f, he, barren_nil, ⟨name, body, ha⟩, hf⟩
  | case3 c s h ih =>
    -- The character goes to the gap that comes first.
    obtain ⟨f, rfl, hf⟩ := ih
    cases f with
    | last g =>
      refine ⟨last (c :: g), rfl, barren_cons.2 ⟨?_, hf⟩⟩
      rw [List.append_nil]
      exact h
    | next g a f => exact ⟨next (c :: g) a f, rfl, barren_cons.2 ⟨h, hf.1⟩, hf.2⟩

theorem Valid.text_ne {g g' c : List Char} (h : (last g).Valid) (h' : (next g' c f).Valid) :
    (last g).text ≠ (next g' c f).text := by
  intro he
  obtain ⟨-, ⟨name, body, hc⟩, -⟩ := h'
  have he : g ++ [] = g' ++ (c ++ f.text) := (List.append_nil g).trans he
  have hl := Barren.length_le h he (mem_mul_top.2 ⟨c, hc, f.text, rfl⟩)
  have hg := congrArg List.length he
  have hn := List.length_pos_of_ne_nil (ne_nil_of_mem_clause hc)
  simp only [List.length_append, List.length_nil] at hg
  omega

theorem Valid.eq_of_text_eq (h : f.Valid) (h' : f'.Valid) (he : f.text = f'.text) : f = f' := by
  induction f generalizing f' with
  | last g =>
    cases f' with
    | last g' => exact congrArg last he
    | next g' c' f' => exact absurd he (h.text_ne h')
  | next g c f ih =>
    cases f' with
    | last g' => exact absurd he.symm (h'.text_ne h)
    | next g' c' f' =>
      obtain ⟨hg, ⟨name, body, hc⟩, hf⟩ := h
      obtain ⟨hg', ⟨name', body', hc'⟩, hf'⟩ := h'
      have hl := hg.length_le he (mem_mul_top.2 ⟨c', hc', f'.text, rfl⟩)
      have hl' := hg'.length_le he.symm (mem_mul_top.2 ⟨c, hc, f.text, rfl⟩)
      obtain ⟨rfl, hs⟩ := List.append_inj he (Nat.le_antisymm hl hl')
      -- Both clauses are what is read from here.
      have hr := statement?_append (r := f.text) hc
      rw [hs, statement?_append hc', Option.some_inj, Prod.mk.injEq] at hr
      obtain rfl := ih hf hf' hr.2.symm
      rw [List.append_cancel_right hs]

end Factorisation

/-- Every text falls into clauses and barren gaps in one way, and the tables read from it are the
tables that the clauses denote, in their order. -/
theorem ofText_follows_grammar (text : String) :
    ∃ f : Factorisation, f.text = dropLengths (dropQuotes text.toList) ∧ f.Valid ∧
      (∀ f' : Factorisation, f'.text = dropLengths (dropQuotes text.toList) → f'.Valid → f' = f) ∧
      List.Forall₂ (fun c t => ∀ t', Denotes c t' ↔ t' = t) f.clauses (ofText text) := by
  obtain ⟨f, hs, hf⟩ := Factorisation.exists_valid (dropLengths (dropQuotes text.toList))
  refine ⟨f, hs, hf, fun f' hs' hf' => hf'.eq_of_text_eq hf (hs'.trans hs.symm), ?_⟩
  rw [ofText, cleanup, ← hs]
  refine hf.tables_text.imp fun c t h t' => ?_
  rw [denotes_iff] at h
  rw [denotes_iff, h, Option.some_inj, Prod.mk.injEq]
  exact ⟨fun ht => ht.1.symm, fun ht => ⟨ht.symm, rfl⟩⟩

end SchemaSketch.Schema
