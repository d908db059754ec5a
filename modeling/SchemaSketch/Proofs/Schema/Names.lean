import SchemaSketch.Proofs.Diagram.Names
import SchemaSketch.Proofs.Text.Languages
import SchemaSketch.Schema.Statement

/-!
Names that are read out of a text. A name is one word: it ends where white space begins.
-/
namespace SchemaSketch.Schema

open Text

def Solid (name : String) : Prop :=
  ∀ c ∈ name.toList, isSpace c = false

theorem solid_of_run1? {p : Char → Bool} {s w r : List Char} (h : run1? p s = some (w, r))
    (hp : ∀ c, p c = true → isSpace c = false) : Solid (String.ofList w) := by
  intro c hc
  rw [String.toList_ofList] at hc
  exact hp c ((run1?_eq_some_iff.1 h).1.2 c hc)

theorem solid_of_entryOf? {s : List Char} {e : Entry} (h : entryOf? s = some e) :
    Solid (String.ofList e.name) := by
  simp only [entryOf?, Option.bind_eq_bind, Option.bind_eq_some_iff] at h
  obtain ⟨⟨name, s₁⟩, hn, s₂, -, ⟨dataType, s₃⟩, -, he⟩ := h
  have hname : e.name = name := by
    split at he <;> exact (congrArg Entry.name (Option.some_inj.1 he)).symm
  rw [hname]
  exact solid_of_run1? hn fun c hc => by simpa [isWordChar] using hc

theorem column?_name {e : Entry} {column : Column} (h : e.column? = some column) :
    column.name = String.ofList e.name := by
  unfold Entry.column? at h
  split at h
  · cases h
  · cases h
    rfl

theorem solid_table {name : List Char} (hn : Solid (String.ofList name)) (body : List Char) :
    (table name body).Named Solid := by
  refine ⟨hn, fun column hc => ?_⟩
  obtain ⟨e, he, hcolumn⟩ := List.mem_filterMap.1 hc
  obtain ⟨s, -, hs⟩ := List.mem_filterMap.1 he
  rw [column?_name hcolumn]
  exact solid_of_entryOf? hs

theorem solid_statement? {s r : List Char} {t : Table} (h : statement? s = some (t, r)) :
    t.Named Solid := by
  simp only [statement?, Option.bind_eq_bind, Option.bind_eq_some_iff] at h
  obtain ⟨s₁, -, s₂, -, s₃, -, s₄, -, ⟨name, s₅⟩, hn, ⟨body, s₆⟩, -, he⟩ := h
  cases he
  refine solid_table (solid_of_run1? hn fun c hc => ?_) body
  simp only [isTableNameChar, Bool.not_eq_true', Bool.or_eq_false_iff] at hc
  exact hc.1

theorem solid_tables (s : List Char) : ∀ t ∈ tables s, t.Named Solid := by
  induction s using tables.induct with
  | case1 => simp [tables]
  | case2 c s t rest h ih =>
    rw [tables]
    split
    · next h' =>
      rw [h] at h'
      cases h'
      exact List.forall_mem_cons.2 ⟨solid_statement? h, ih⟩
    · next h' => rw [h] at h'; cases h'
  | case3 c s h ih =>
    rw [tables]
    split
    · next h' => rw [h] at h'; cases h'
    · exact ih

theorem solid_ofText (source : String) : ∀ t ∈ ofText source, t.Named Solid :=
  solid_tables _

end SchemaSketch.Schema
