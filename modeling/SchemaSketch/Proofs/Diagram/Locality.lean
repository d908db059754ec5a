import SchemaSketch.Proofs.Diagram.Lookup

/-!
Changes that stay in one place. A node that is changed or taken out leaves what stands before and
behind it as it was, and in its place.
-/
namespace SchemaSketch

theorem modifyFirst_of_find? {α : Type} {p : α → Bool} {as : List α} {a : α}
    (h : as.find? p = some a) (f : α → α) :
    ∃ before after, as = before ++ a :: after ∧ modifyFirst p f as = before ++ f a :: after := by
  induction as with
  | nil => simp at h
  | cons b as ih =>
    cases hb : p b with
    | true =>
      rw [List.find?_cons_of_pos hb, Option.some_inj] at h
      subst h
      exact ⟨[], as, rfl, if_pos hb⟩
    | false =>
      rw [List.find?_cons_of_neg (by simp [hb])] at h
      obtain ⟨before, after, rfl, hm⟩ := ih h
      refine ⟨b :: before, after, rfl, ?_⟩
      rw [modifyFirst, hb, hm]
      rfl

theorem modifyFirst_of_fixed {α : Type} {p : α → Bool} {f : α → α} {as : List α} {a : α}
    (h : as.find? p = some a) (hf : f a = a) : modifyFirst p f as = as := by
  obtain ⟨before, after, hs, hm⟩ := modifyFirst_of_find? h f
  rw [hm, hf, hs]

/-- Of two changes the second finds the member that the first has changed. -/
theorem modifyFirst_modifyFirst {α : Type} {p : α → Bool} {f : α → α} (hf : ∀ a, p (f a) = p a)
    (g : α → α) (as : List α) :
    modifyFirst p g (modifyFirst p f as) = modifyFirst p (g ∘ f) as := by
  induction as with
  | nil => rfl
  | cons a as ih => by_cases h : p a <;> simp [modifyFirst, hf, h, ih]

/-- Dropping a key drops one member if no two members share a key. -/
theorem filter_of_find? {α κ : Type} [DecidableEq κ] (key : α → κ) {as : List α} {k : κ} {a : α}
    (hn : (as.map key).Nodup) (h : as.find? (fun b => key b == k) = some a) :
    ∃ before after, as = before ++ a :: after ∧
      as.filter (fun b => !(key b == k)) = before ++ after := by
  obtain ⟨ha, before, after, rfl, hb⟩ := List.find?_eq_some_iff_append.1 h
  obtain rfl : key a = k := by simpa using ha
  refine ⟨before, after, rfl, ?_⟩
  rw [List.map_append, List.map_cons, List.nodup_append] at hn
  have hafter : ∀ b ∈ after, (!(key b == key a)) = true := by
    intro b hb
    have hne : key b ≠ key a := by
      intro he
      apply (List.nodup_cons.1 hn.2.1).1
      rw [← he]
      exact List.mem_map_of_mem hb
    simpa using hne
  rw [List.filter_append, List.filter_cons_of_neg (by simp), List.filter_eq_self.2 hb,
    List.filter_eq_self.2 hafter]

namespace Diagram

inductive Changes (f : Node → Node) : Address → Diagram → Diagram → Prop
  | entity (before after : List Entity) (node : Node) (attributes : List Attribute)
      (keys : List ForeignKey) (next : NodeId) :
      Changes f (.ofEntity node.id) ⟨before ++ ⟨node, attributes, keys⟩ :: after, next⟩
        ⟨before ++ ⟨f node, attributes, keys⟩ :: after, next⟩
  | attribute (before after : List Entity) (node : Node) (first last : List Attribute)
      (a : Attribute) (keys : List ForeignKey) (next : NodeId) :
      Changes f (.ofAttribute node.id a.node.id)
        ⟨before ++ ⟨node, first ++ a :: last, keys⟩ :: after, next⟩
        ⟨before ++ ⟨node, first ++ { a with node := f a.node } :: last, keys⟩ :: after, next⟩

inductive Loses : Address → Diagram → Diagram → Prop
  | entity (before after : List Entity) (e : Entity) (next : NodeId) :
      Loses (.ofEntity e.node.id) ⟨before ++ e :: after, next⟩ ⟨before ++ after, next⟩
  | attribute (before after : List Entity) (node : Node) (first last : List Attribute)
      (a : Attribute) (keys : List ForeignKey) (next : NodeId) :
      Loses (.ofAttribute node.id a.node.id)
        ⟨before ++ ⟨node, first ++ a :: last, keys⟩ :: after, next⟩
        ⟨before ++ ⟨node, first ++ last, keys⟩ :: after, next⟩

variable {d : Diagram}

theorem id_of_entity? {id : NodeId} {e : Entity} (h : d.entity? id = some e) : e.node.id = id := by
  have hp : Entity.hasId id e = true := List.find?_some h
  exact beq_iff_eq.1 hp

theorem node?_ofEntity {id : NodeId} {node : Node} (h : d.node? (.ofEntity id) = some node) :
    ∃ e, d.entity? id = some e ∧ e.node = node :=
  Option.map_eq_some_iff.1 h

theorem node?_ofAttribute {owner id : NodeId} {node : Node}
    (h : d.node? (.ofAttribute owner id) = some node) :
    ∃ e a, d.entity? owner = some e ∧ e.attributes.find? (Attribute.hasId id) = some a ∧
      a.node = node := by
  simp only [node?, Option.bind_eq_bind, Option.bind_eq_some_iff, Option.map_eq_some_iff] at h
  obtain ⟨e, he, a, ha, hn⟩ := h
  exact ⟨e, a, he, ha, hn⟩

theorem id_of_find?_attribute {id : NodeId} {as : List Attribute} {a : Attribute}
    (h : as.find? (Attribute.hasId id) = some a) : a.node.id = id := by
  have hp : Attribute.hasId id a = true := List.find?_some h
  exact beq_iff_eq.1 hp

theorem changes_modify {address : Address} {node : Node} (h : d.node? address = some node)
    (f : Node → Node) : Changes f address d (d.modify address f) := by
  obtain ⟨entities, next⟩ := d
  cases address with
  | ofEntity id =>
    obtain ⟨e, he, -⟩ := node?_ofEntity h
    obtain rfl := id_of_entity? he
    obtain ⟨before, after, rfl, hm⟩ := modifyFirst_of_find? he (Entity.modifyNode f)
    simp only [modify, hm]
    exact .entity before after e.node e.attributes e.foreignKeys next
  | ofAttribute owner id =>
    obtain ⟨e, a, he, ha, -⟩ := node?_ofAttribute h
    obtain rfl := id_of_entity? he
    obtain rfl := id_of_find?_attribute ha
    obtain ⟨first, last, hs, hf⟩ := modifyFirst_of_find? ha (Attribute.modifyNode f)
    obtain ⟨before, after, rfl, hm⟩ := modifyFirst_of_find? he (Entity.modifyAttribute a.node.id f)
    obtain ⟨node, attributes, keys⟩ := e
    obtain rfl : attributes = first ++ a :: last := hs
    simp only [modify, hm, Entity.modifyAttribute, hf]
    exact .attribute before after node first last a keys next

/-- The changed node is found where the node was. -/
theorem node?_modify {address : Address} {node : Node} (h : d.node? address = some node)
    {f : Node → Node} (hf : ∀ node, (f node).id = node.id) :
    (d.modify address f).node? address = some (f node) := by
  rw [lookup_modify d address address hf, if_pos rfl, h]
  rfl

theorem modify_of_fixed {address : Address} {node : Node} (h : d.node? address = some node)
    {f : Node → Node} (hf : f node = node) : d.modify address f = d := by
  cases address with
  | ofEntity id =>
    obtain ⟨e, he, rfl⟩ := node?_ofEntity h
    exact congrArg (Diagram.mk · d.nextId) (modifyFirst_of_fixed he (congrArg (Entity.mk · _ _) hf))
  | ofAttribute owner id =>
    obtain ⟨e, a, he, ha, rfl⟩ := node?_ofAttribute h
    have hattributes : e.modifyAttribute id f = e :=
      congrArg (Entity.mk e.node · e.foreignKeys)
        (modifyFirst_of_fixed ha (congrArg (Attribute.mk · _ _ _) hf))
    exact congrArg (Diagram.mk · d.nextId) (modifyFirst_of_fixed he hattributes)

/-- Two changes at one address are one. -/
theorem modify_modify (d : Diagram) (address : Address) {f : Node → Node}
    (hf : ∀ node, (f node).id = node.id) (g : Node → Node) :
    (d.modify address f).modify address g = d.modify address (g ∘ f) := by
  cases address with
  | ofEntity id =>
    have hid (e : Entity) : Entity.hasId id (e.modifyNode f) = Entity.hasId id e :=
      congrArg (· == id) (hf e.node)
    exact congrArg (Diagram.mk · d.nextId) (modifyFirst_modifyFirst hid _ d.entities)
  | ofAttribute owner id =>
    have hid (a : Attribute) : Attribute.hasId id (a.modifyNode f) = Attribute.hasId id a :=
      congrArg (· == id) (hf a.node)
    have hboth : Entity.modifyAttribute id g ∘ Entity.modifyAttribute id f =
        Entity.modifyAttribute id (g ∘ f) := by
      funext e
      exact congrArg (Entity.mk e.node · e.foreignKeys) (modifyFirst_modifyFirst hid _ e.attributes)
    have hentities := modifyFirst_modifyFirst (p := Entity.hasId owner)
      (f := Entity.modifyAttribute id f) (fun _ => rfl) (Entity.modifyAttribute id g) d.entities
    rw [hboth] at hentities
    exact congrArg (Diagram.mk · d.nextId) hentities

/-- What is hit does not depend on what a change leaves of a node but its number and its circle. -/
theorem Changes.hit?_eq {d' : Diagram} {address : Address} {f : Node → Node}
    (hc : Changes f address d d') (hid : ∀ node, (f node).id = node.id) {p : Point}
    (hp : ∀ node : Node, (f node).contains p = node.contains p) : d'.hit? p = d.hit? p := by
  have hhit (d : Diagram) : d.hit? p =
      ((d.nodes.map fun n => (n.1, n.2.contains p)).find? (·.2)).map (·.1) := by
    rw [List.find?_map, Option.map_map]
    rfl
  rw [hhit, hhit]
  congr 2
  cases hc <;> simp [nodes, Entity.address, Attribute.address, hid, hp]

theorem WellFormed.entityIds_nodup (h : d.WellFormed) : (d.entities.map (·.node.id)).Nodup := by
  have hn := h.nodes_nodup
  rw [map_id_nodes] at hn
  exact hn.of_append_left

theorem WellFormed.attributeIds_nodup (h : d.WellFormed) {e : Entity} (he : e ∈ d.entities) :
    (e.attributes.map (·.node.id)).Nodup := by
  have hn : e.ids.Nodup := (List.nodup_flatMap.1 h.ids_nodup).1 e he
  exact (List.nodup_cons.1 hn).2

theorem loses_remove (h : d.WellFormed) {address : Address} {node : Node}
    (hn : d.node? address = some node) : Loses address d (d.remove address) := by
  cases address with
  | ofEntity id =>
    obtain ⟨e, he, -⟩ := node?_ofEntity hn
    obtain rfl := id_of_entity? he
    obtain ⟨before, after, hs, hf⟩ :=
      filter_of_find? (fun e : Entity => e.node.id) h.entityIds_nodup he
    obtain ⟨entities, next⟩ := d
    obtain rfl : entities = before ++ e :: after := hs
    have hr : remove ⟨before ++ e :: after, next⟩ (.ofEntity e.node.id) = ⟨before ++ after, next⟩ :=
      congrArg (Diagram.mk · next) hf
    rw [hr]
    exact .entity before after e next
  | ofAttribute owner id =>
    obtain ⟨e, a, he, ha, -⟩ := node?_ofAttribute hn
    obtain rfl := id_of_entity? he
    obtain rfl := id_of_find?_attribute ha
    have hk := h.attributeIds_nodup (List.mem_of_find?_eq_some he)
    obtain ⟨first, last, hs, hf⟩ := filter_of_find? (fun a : Attribute => a.node.id) hk ha
    obtain ⟨before, after, hd, hm⟩ := modifyFirst_of_find? he (Entity.removeAttribute a.node.id)
    obtain ⟨entities, next⟩ := d
    obtain ⟨node, attributes, keys⟩ := e
    obtain rfl : entities = before ++ ⟨node, attributes, keys⟩ :: after := hd
    obtain rfl : attributes = first ++ a :: last := hs
    have hr : Entity.removeAttribute a.node.id ⟨node, first ++ a :: last, keys⟩ =
        ⟨node, first ++ last, keys⟩ := congrArg (Entity.mk node · keys) hf
    simp only [remove, hm, hr]
    exact .attribute before after node first last a keys next

end Diagram

end SchemaSketch
