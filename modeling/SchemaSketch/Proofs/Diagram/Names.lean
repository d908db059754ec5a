import SchemaSketch.Frame
import SchemaSketch.Layout
import SchemaSketch.Proofs.Diagram.Locality

/-!
Names on their way from tables to labels. What holds of the names of the tables holds of the names
in their layout, and what holds of the names in a diagram holds of the labels of its frame.
-/
namespace SchemaSketch

variable {P Q : String → Prop}

def Table.Named (P : String → Prop) (t : Table) : Prop :=
  P t.name ∧ ∀ column ∈ t.columns, P column.name

theorem Table.Named.mono {t : Table} (h : t.Named P) (hPQ : ∀ name, P name → Q name) :
    t.Named Q :=
  ⟨hPQ _ h.1, fun column hc => hPQ _ (h.2 column hc)⟩

namespace Diagram

def Named (P : String → Prop) (d : Diagram) : Prop :=
  ∀ n ∈ d.nodes, P n.2.name

variable {d d' : Diagram} {address : Address}

theorem named_iff :
    d.Named P ↔ ∀ e ∈ d.entities, P e.node.name ∧ ∀ a ∈ e.attributes, P a.node.name := by
  constructor
  · intro h e he
    exact ⟨h _ (mem_nodes.2 (Or.inl ⟨e, he, rfl⟩)),
      fun a ha => h _ (mem_nodes.2 (Or.inr ⟨e, he, a, ha, rfl⟩))⟩
  · intro h n hn
    obtain ⟨e, he, rfl⟩ | ⟨e, he, a, ha, rfl⟩ := mem_nodes.1 hn
    · exact (h e he).1
    · exact (h e he).2 a ha

theorem named_empty : empty.Named P :=
  named_iff.2 nofun

theorem Changes.named {f : Node → Node} (hc : Changes f address d d') (h : d.Named P)
    (hf : ∀ node, P node.name → P (f node).name) : d'.Named P := by
  rw [named_iff] at h ⊢
  obtain ⟨before, after, node, attributes, keys, next⟩ |
    ⟨before, after, node, first, last, a, keys, next⟩ := hc
  · simp only [List.forall_mem_append, List.forall_mem_cons] at h ⊢
    exact ⟨h.1, ⟨hf node h.2.1.1, h.2.1.2⟩, h.2.2⟩
  · simp only [List.forall_mem_append, List.forall_mem_cons] at h ⊢
    obtain ⟨hbefore, ⟨hnode, hfirst, ha, hlast⟩, hafter⟩ := h
    exact ⟨hbefore, ⟨hnode, hfirst, hf a.node ha, hlast⟩, hafter⟩

theorem Loses.named (hl : Loses address d d') (h : d.Named P) : d'.Named P := by
  rw [named_iff] at h ⊢
  obtain ⟨before, after, e, next⟩ | ⟨before, after, node, first, last, a, keys, next⟩ := hl
  · simp only [List.forall_mem_append, List.forall_mem_cons] at h ⊢
    exact ⟨h.1, h.2.2⟩
  · simp only [List.forall_mem_append, List.forall_mem_cons] at h ⊢
    obtain ⟨hbefore, ⟨hnode, hfirst, -, hlast⟩, hafter⟩ := h
    exact ⟨hbefore, ⟨hnode, hfirst, hlast⟩, hafter⟩

end Diagram

namespace Layout

variable (settings : LayoutSettings)

theorem named_attributesFrom {owner : NodeId} {center : Point} {ring : Float} {count index : Nat}
    {columns : List Column} (h : ∀ column ∈ columns, P column.name) :
    ∀ a ∈ attributesFrom settings owner center ring count index columns, P a.node.name := by
  induction columns generalizing index with
  | nil => exact nofun
  | cons column columns ih =>
    rw [List.forall_mem_cons] at h
    exact List.forall_mem_cons.2 ⟨h.1, ih h.2⟩

theorem named_entitiesFrom {middle : Point} {ring : Float} {count index : Nat} {id : NodeId}
    {tables : List Table} (h : ∀ table ∈ tables, table.Named P) :
    ∀ e ∈ (entitiesFrom settings middle ring count index id tables).1,
      P e.node.name ∧ ∀ a ∈ e.attributes, P a.node.name := by
  induction tables generalizing index id with
  | nil => exact nofun
  | cons table tables ih =>
    rw [List.forall_mem_cons] at h
    exact List.forall_mem_cons.2 ⟨⟨h.1.1, named_attributesFrom settings h.1.2⟩, ih h.2⟩

theorem named_radial (width height : Float) {tables : List Table}
    (h : ∀ table ∈ tables, table.Named P) : (radial settings width height tables).Named P :=
  Diagram.named_iff.2 (named_entitiesFrom settings h)

end Layout

namespace Frame

theorem label_of_nodeMarks {node : Node} {position : Point} {label : String}
    (h : .text position label ∈ nodeMarks node) : label = node.name := by
  simp only [nodeMarks, List.mem_cons, List.not_mem_nil, or_false] at h
  obtain h | h | h := h
  · cases h
  · cases h
  · cases h
    rfl

theorem no_label_of_edgeMarks {arrowLength : Float} {source target : Node} {position : Point}
    {label : String} : .text position label ∉ edgeMarks arrowLength source target := by
  simp [edgeMarks, arrowhead]

/-- Every label of a frame is the name of a node. -/
theorem label_named {d : Diagram} (h : d.Named P) {arrowLength : Float} {position : Point}
    {label : String} (hm : .text position label ∈ marks arrowLength d) : P label := by
  rw [Diagram.named_iff] at h
  simp only [marks, List.mem_append, List.mem_flatMap] at hm
  obtain (⟨e, he, hm⟩ | ⟨e, he, hm⟩) | ⟨e, he, hm⟩ := hm
  · obtain hm | hm := List.mem_append.1 hm
    · exact label_of_nodeMarks hm ▸ (h e he).1
    · obtain ⟨a, ha, hm⟩ := List.mem_flatMap.1 hm
      exact label_of_nodeMarks hm ▸ (h e he).2 a ha
  · obtain ⟨a, -, hm⟩ := List.mem_flatMap.1 hm
    exact absurd hm no_label_of_edgeMarks
  · obtain ⟨key, -, hm⟩ := List.mem_flatMap.1 hm
    split at hm
    · exact absurd hm no_label_of_edgeMarks
    · cases hm

end Frame

end SchemaSketch
