import Mathlib.Data.List.Flatten
import Mathlib.Data.List.Nodup
import Mathlib.Data.List.Perm.Basic
import SchemaSketch.Diagram

/-!
Which nodes a diagram holds, as told by their numbers alone. Main statement: in a well-formed
diagram every node stands at its own address, and at no other address of the diagram.
-/
namespace SchemaSketch

theorem map_modifyFirst {α β : Type} {p : α → Bool} {f : α → α} {g : α → β}
    (h : ∀ a, g (f a) = g a) (as : List α) : (modifyFirst p f as).map g = as.map g := by
  induction as with
  | nil => rfl
  | cons a as ih => by_cases hp : p a <;> simp [modifyFirst, hp, h, ih]

theorem mem_modifyFirst {α : Type} {p : α → Bool} {f : α → α} {as : List α} {b : α}
    (h : b ∈ modifyFirst p f as) : b ∈ as ∨ ∃ a ∈ as, b = f a := by
  induction as with
  | nil => simp [modifyFirst] at h
  | cons a as ih =>
    by_cases hp : p a
    · simp only [modifyFirst, hp, if_true, List.mem_cons] at h
      obtain rfl | hb := h
      · exact Or.inr ⟨a, by simp, rfl⟩
      · exact Or.inl (List.mem_cons_of_mem a hb)
    · simp only [modifyFirst, hp, Bool.false_eq_true, if_false, List.mem_cons] at h
      obtain rfl | hb := h
      · exact Or.inl (by simp)
      · obtain hb | ⟨c, hc, he⟩ := ih hb
        · exact Or.inl (List.mem_cons_of_mem a hb)
        · exact Or.inr ⟨c, List.mem_cons_of_mem a hc, he⟩

theorem flatMap_modifyFirst_sublist {α β : Type} {p : α → Bool} {f : α → α} {g : α → List β}
    (h : ∀ a, (g (f a)).Sublist (g a)) (as : List α) :
    ((modifyFirst p f as).flatMap g).Sublist (as.flatMap g) := by
  induction as with
  | nil => exact List.Sublist.refl _
  | cons a as ih =>
    by_cases hp : p a
    · simpa [modifyFirst, hp] using (h a).append_right (as.flatMap g)
    · simpa [modifyFirst, hp] using ih.append_left (g a)

/-- A member of a list is the first with its key if no two members share a key. -/
theorem find?_key {α κ : Type} [DecidableEq κ] (key : α → κ) {as : List α} {a : α}
    (hn : (as.map key).Nodup) (ha : a ∈ as) : as.find? (fun b => key b == key a) = some a := by
  induction as with
  | nil => simp at ha
  | cons b as ih =>
    rw [List.map_cons, List.nodup_cons] at hn
    obtain rfl | ha := List.mem_cons.1 ha
    · simp
    · have hb : key b ≠ key a := fun he => hn.1 (he ▸ List.mem_map_of_mem ha)
      rw [List.find?_cons_of_neg (by simpa using hb)]
      exact ih hn.2 ha

def Entity.outline (e : Entity) : NodeId × List (NodeId × NodeId) :=
  (e.node.id, e.attributes.map fun a => (a.owner, a.node.id))

def Entity.ids (e : Entity) : List NodeId :=
  e.node.id :: e.attributes.map (·.node.id)

namespace Diagram

def outline (d : Diagram) : List (NodeId × List (NodeId × NodeId)) :=
  d.entities.map Entity.outline

def ids (d : Diagram) : List NodeId :=
  d.entities.flatMap Entity.ids

/-- No number is given twice, and every attribute names the entity that holds it. -/
structure WellFormed (d : Diagram) : Prop where
  ids_nodup : d.ids.Nodup
  owner_eq : ∀ e ∈ d.entities, ∀ a ∈ e.attributes, a.owner = e.node.id

theorem wellFormed_empty : WellFormed empty :=
  ⟨List.nodup_nil, by simp [empty]⟩

theorem map_id_nodes (d : Diagram) :
    d.nodes.map (·.2.id) =
      d.entities.map (·.node.id) ++ d.entities.flatMap fun e => e.attributes.map (·.node.id) := by
  simp [nodes, List.map_flatMap, Function.comp_def]

theorem map_id_nodes_perm (d : Diagram) : (d.nodes.map (·.2.id)).Perm d.ids := by
  rw [map_id_nodes]
  exact List.map_append_flatMap_perm d.entities _ _

theorem ids_eq_outline (d : Diagram) :
    d.ids = d.outline.flatMap fun o => o.1 :: o.2.map (·.2) := by
  simp only [ids, outline, List.flatMap_map, Entity.outline, List.map_map, Function.comp_def]
  rfl

theorem owners_iff_outline (d : Diagram) :
    (∀ e ∈ d.entities, ∀ a ∈ e.attributes, a.owner = e.node.id) ↔
      ∀ o ∈ d.outline, ∀ a ∈ o.2, a.1 = o.1 := by
  simp only [outline, Entity.outline, List.forall_mem_map]

theorem WellFormed.of_outline {d d' : Diagram} (h : d.WellFormed) (ho : d'.outline = d.outline) :
    d'.WellFormed := by
  constructor
  · rw [ids_eq_outline, ho, ← ids_eq_outline]
    exact h.ids_nodup
  · rw [owners_iff_outline, ho, ← owners_iff_outline]
    exact h.owner_eq

theorem mem_nodes {d : Diagram} {n : Address × Node} :
    n ∈ d.nodes ↔ (∃ e ∈ d.entities, n = (e.address, e.node)) ∨
      ∃ e ∈ d.entities, ∃ a ∈ e.attributes, n = (a.address, a.node) := by
  simp [nodes, eq_comm]

namespace WellFormed

variable {d : Diagram}

theorem nodes_nodup (h : d.WellFormed) : (d.nodes.map (·.2.id)).Nodup :=
  d.map_id_nodes_perm.nodup_iff.2 h.ids_nodup

theorem entity?_eq (h : d.WellFormed) {e : Entity} (he : e ∈ d.entities) :
    d.entity? e.node.id = some e := by
  have hn := h.nodes_nodup
  rw [map_id_nodes] at hn
  exact find?_key (fun e => e.node.id) hn.of_append_left he

theorem find?_attribute (h : d.WellFormed) {e : Entity} (he : e ∈ d.entities) {a : Attribute}
    (ha : a ∈ e.attributes) : e.attributes.find? (Attribute.hasId a.node.id) = some a := by
  have hn : e.ids.Nodup := (List.nodup_flatMap.1 h.ids_nodup).1 e he
  exact find?_key (fun a => a.node.id) (List.nodup_cons.1 hn).2 ha

/-- Every node is found at the address it is listed with. -/
theorem node?_of_mem (h : d.WellFormed) {n : Address × Node} (hn : n ∈ d.nodes) :
    d.node? n.1 = some n.2 := by
  obtain ⟨e, he, rfl⟩ | ⟨e, he, a, ha, rfl⟩ := mem_nodes.1 hn
  · simp [node?, Entity.address, h.entity?_eq he]
  · simp [node?, Attribute.address, h.owner_eq e he a ha, h.entity?_eq he,
      h.find?_attribute he ha]

/-- No node is found at the address of another one. -/
theorem eq_of_node? (h : d.WellFormed) {n m : Address × Node} (hn : n ∈ d.nodes)
    (hm : m ∈ d.nodes) (he : d.node? m.1 = some n.2) : m = n := by
  rw [h.node?_of_mem hm, Option.some.injEq] at he
  exact List.inj_on_of_nodup_map h.nodes_nodup hm hn (congrArg Node.id he)

/-- What is hit is there. -/
theorem node?_of_hit? (h : d.WellFormed) {p : Point} {address : Address}
    (hp : d.hit? p = some address) : ∃ node, d.node? address = some node := by
  obtain ⟨n, hn, rfl⟩ := Option.map_eq_some_iff.1 hp
  exact ⟨n.2, h.node?_of_mem (List.mem_of_find?_eq_some hn)⟩

end WellFormed

def outlineHolds (outline : List (NodeId × List (NodeId × NodeId))) : Address → Bool
  | .ofEntity id => (outline.find? (·.1 == id)).isSome
  | .ofAttribute owner id => ((outline.find? (·.1 == owner)).map (·.2.any (·.2 == id))).getD false

theorem find?_outline (d : Diagram) (id : NodeId) :
    d.outline.find? (·.1 == id) = (d.entity? id).map Entity.outline := by
  rw [outline, List.find?_map]
  rfl

theorem holds_eq_outline (d : Diagram) (address : Address) :
    d.holds address = outlineHolds d.outline address := by
  cases address with
  | ofEntity id => simp [holds, node?, outlineHolds, find?_outline]
  | ofAttribute owner id =>
    rw [holds, node?, outlineHolds, find?_outline]
    cases d.entity? owner with
    | none => rfl
    | some e =>
      simp only [Entity.outline, List.any_map, Option.map_some, Option.getD_some,
        Option.bind_eq_bind, Option.bind_some, Option.isSome_map, List.isSome_find?]
      rfl

theorem outline_modify (d : Diagram) (address : Address) {f : Node → Node}
    (hf : ∀ node, (f node).id = node.id) : (d.modify address f).outline = d.outline := by
  cases address with
  | ofEntity id => exact map_modifyFirst (fun e => by simp [Entity.outline, Entity.modifyNode, hf]) _
  | ofAttribute owner id =>
    refine map_modifyFirst (fun e => ?_) _
    have ha : ∀ a : Attribute, ((a.modifyNode f).owner, (a.modifyNode f).node.id) =
        (a.owner, a.node.id) := fun a => by simp [Attribute.modifyNode, hf]
    exact congrArg (Prod.mk e.node.id)
      (map_modifyFirst (g := fun a : Attribute => (a.owner, a.node.id)) ha e.attributes)

theorem holds_modify (d : Diagram) (address other : Address) {f : Node → Node}
    (hf : ∀ node, (f node).id = node.id) :
    (d.modify address f).holds other = d.holds other := by
  rw [holds_eq_outline, outline_modify d address hf, ← holds_eq_outline]

theorem WellFormed.modify {d : Diagram} (h : d.WellFormed) (address : Address) {f : Node → Node}
    (hf : ∀ node, (f node).id = node.id) : (d.modify address f).WellFormed :=
  h.of_outline (outline_modify d address hf)

theorem ids_removeAttribute_sublist (id : NodeId) (e : Entity) :
    (e.removeAttribute id).ids.Sublist e.ids :=
  (List.filter_sublist.map _).cons_cons e.node.id

theorem ids_remove_sublist (d : Diagram) (address : Address) :
    (d.remove address).ids.Sublist d.ids := by
  cases address with
  | ofEntity id => exact List.Sublist.flatMap List.filter_sublist Entity.ids
  | ofAttribute owner id => exact flatMap_modifyFirst_sublist (ids_removeAttribute_sublist id) _

theorem WellFormed.remove {d : Diagram} (h : d.WellFormed) (address : Address) :
    (d.remove address).WellFormed := by
  refine ⟨h.ids_nodup.sublist (ids_remove_sublist d address), fun e he a ha => ?_⟩
  cases address with
  | ofEntity id => exact h.owner_eq e (List.mem_filter.1 he).1 a ha
  | ofAttribute owner id =>
    obtain he | ⟨before, hb, rfl⟩ := mem_modifyFirst he
    · exact h.owner_eq e he a ha
    · exact h.owner_eq before hb a (List.mem_filter.1 ha).1

def loses (d : Diagram) : Address → Bool
  | .ofEntity id => (d.remove (.ofEntity id)).entities.length != d.entities.length
  | .ofAttribute owner id =>
    match d.entity? owner with
    | none => false
    | some e => (e.removeAttribute id).attributes.length != e.attributes.length

theorem length_filter_not_ne {α : Type} (p : α → Bool) (as : List α) :
    ((as.filter (!p ·)).length != as.length) = (as.find? p).isSome := by
  rw [Bool.eq_iff_iff, bne_iff_ne, ne_eq, List.length_filter_eq_length_iff, List.find?_isSome]
  simp

/-- Taking out an address changes something exactly if there is a node at it. -/
theorem loses_eq_holds (d : Diagram) (address : Address) : d.loses address = d.holds address := by
  cases address with
  | ofEntity id => simp [loses, remove, holds, node?, entity?, length_filter_not_ne]
  | ofAttribute owner id =>
    rw [loses, holds, node?]
    cases d.entity? owner with
    | none => rfl
    | some e => simp [Entity.removeAttribute, length_filter_not_ne]

end Diagram

end SchemaSketch
