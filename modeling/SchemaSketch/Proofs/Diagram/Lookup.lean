import SchemaSketch.Proofs.Diagram.Identity

/-!
What is found at an address after a change to the diagram, at whatever address that was. It does not
matter whether numbers are shared: the first node at an address is changed, and all are taken out.
-/
namespace SchemaSketch

section Keys

variable {α κ : Type} [DecidableEq κ] (key : α → κ)

/-- Members that are changed keep their keys, so each is still found by its own. -/
theorem find?_modifyFirst_key {f : α → α} (hf : ∀ a, key (f a) = key a) (as : List α) (k k' : κ) :
    (modifyFirst (fun a => key a == k) f as).find? (fun a => key a == k') =
      (as.find? (fun a => key a == k')).map (if k' = k then f else id) := by
  induction as with
  | nil => rfl
  | cons a as ih =>
    by_cases hk : key a = k
    · by_cases hk' : k = k'
      · simp [modifyFirst, hf, hk, hk']
      · simp [modifyFirst, hf, hk, hk', Ne.symm hk']
    · by_cases hk' : key a = k'
      · have hne : ¬ k' = k := hk' ▸ hk
        simp [modifyFirst, hk', hne]
      · simp [modifyFirst, hk, hk', ih]

/-- What has another key is not dropped with the members of a key. -/
theorem find?_filter_key (as : List α) (k k' : κ) :
    (as.filter (fun a => !(key a == k))).find? (fun a => key a == k') =
      if k' = k then none else as.find? (fun a => key a == k') := by
  rw [List.find?_filter]
  split
  · next hk =>
    rw [List.find?_eq_none]
    intro a _
    simp [hk]
  · next hk =>
    congr 1
    funext a
    by_cases ha : key a = k' <;> simp [ha, hk]

end Keys

namespace Address

def root : Address → NodeId
  | .ofEntity id => id
  | .ofAttribute owner _ => owner

/-- The address of a node after that of its owner. Taking out either takes out the node. -/
def path : Address → List Address
  | .ofEntity id => [.ofEntity id]
  | .ofAttribute owner id => [.ofEntity owner, .ofAttribute owner id]

theorem mem_path (address : Address) : address ∈ address.path := by
  cases address <;> simp [path]

theorem ofEntity_mem_path {id : NodeId} {address : Address} :
    .ofEntity id ∈ address.path ↔ address.root = id := by
  cases address <;> simp [path, root, eq_comm]

theorem ofAttribute_mem_path {owner id : NodeId} {address : Address} :
    .ofAttribute owner id ∈ address.path ↔ address = .ofAttribute owner id := by
  cases address <;> simp [path, eq_comm]

end Address

namespace Entity

def within? (e : Entity) : Address → Option Node
  | .ofEntity _ => some e.node
  | .ofAttribute _ id => (e.attributes.find? (Attribute.hasId id)).map (·.node)

def modifyWithin (f : Node → Node) : Address → Entity → Entity
  | .ofEntity _ => modifyNode f
  | .ofAttribute _ id => modifyAttribute id f

variable {address other : Address} {f : Node → Node}

theorem id_modifyWithin (hf : ∀ node, (f node).id = node.id) (e : Entity) :
    (modifyWithin f address e).node.id = e.node.id := by
  cases address with
  | ofEntity id => exact hf e.node
  | ofAttribute owner id => rfl

theorem within?_modifyWithin (hf : ∀ node, (f node).id = node.id)
    (hr : other.root = address.root) (e : Entity) :
    (modifyWithin f address e).within? other =
      (e.within? other).map (if other = address then f else id) := by
  cases address with
  | ofEntity id =>
    cases other with
    | ofEntity id' =>
      obtain rfl : id' = id := hr
      simp [within?, modifyWithin, modifyNode]
    | ofAttribute owner id' => simp [within?, modifyWithin, modifyNode]
  | ofAttribute owner id =>
    cases other with
    | ofEntity id' => simp [within?, modifyWithin, modifyAttribute]
    | ofAttribute owner' id' =>
      obtain rfl : owner' = owner := hr
      have ha := find?_modifyFirst_key (fun a : Attribute => a.node.id)
        (f := Attribute.modifyNode f) (fun a => hf a.node) e.attributes id id'
      have hw : (modifyWithin f (.ofAttribute owner' id) e).within? (.ofAttribute owner' id') =
          (((e.attributes.find? (Attribute.hasId id')).map
            (if id' = id then Attribute.modifyNode f else fun a => a))).map (·.node) :=
        congrArg (Option.map Attribute.node) ha
      rw [hw, within?, Option.map_map, Option.map_map]
      by_cases h : id' = id
      · simp [h, Function.comp_def, Attribute.modifyNode]
      · simp [h, Function.comp_def]

theorem within?_removeAttribute (id : NodeId) (e : Entity) :
    (e.removeAttribute id).within? other =
      if other = .ofAttribute other.root id then none else e.within? other := by
  cases other with
  | ofEntity id' => simp [within?, removeAttribute]
  | ofAttribute owner id' =>
    have ha := find?_filter_key (fun a : Attribute => a.node.id) e.attributes id id'
    have hw : (e.removeAttribute id).within? (.ofAttribute owner id') =
        (if id' = id then none else e.attributes.find? (Attribute.hasId id')).map (·.node) :=
      congrArg (Option.map Attribute.node) ha
    rw [hw]
    by_cases h : id' = id <;> simp [h, within?, Address.root]

end Entity

namespace Diagram

variable (d : Diagram) (address other : Address)

theorem node?_eq_within? : d.node? address = (d.entity? address.root).bind (·.within? address) := by
  cases address with
  | ofEntity id => exact Option.map_eq_bind
  | ofAttribute owner id => rfl

/-- What is found in a diagram with one of the entities changed. -/
theorem node?_modifyFirst {f : Entity → Entity} (hf : ∀ e, (f e).node.id = e.node.id)
    (k next : NodeId) :
    node? ⟨modifyFirst (Entity.hasId k) f d.entities, next⟩ other =
      (d.entity? other.root).bind fun e =>
        (if other.root = k then f e else e).within? other := by
  have he : entity? ⟨modifyFirst (Entity.hasId k) f d.entities, next⟩ other.root =
      (d.entity? other.root).map (if other.root = k then f else id) :=
    find?_modifyFirst_key (fun e : Entity => e.node.id) hf d.entities k other.root
  rw [node?_eq_within?, he]
  cases d.entity? other.root with
  | none => rfl
  | some e => by_cases h : other.root = k <;> simp [h]

/-- A change to a node is a change to the entity that the address leads to. -/
theorem modify_eq (f : Node → Node) :
    d.modify address f =
      ⟨modifyFirst (Entity.hasId address.root) (Entity.modifyWithin f address) d.entities,
        d.nextId⟩ := by
  cases address <;> rfl

/-- The node at the address is changed, and every other is as it was. -/
theorem lookup_modify {f : Node → Node} (hf : ∀ node, (f node).id = node.id) :
    (d.modify address f).node? other =
      (d.node? other).map (if other = address then f else id) := by
  rw [modify_eq, node?_modifyFirst _ _ (Entity.id_modifyWithin hf), node?_eq_within?,
    Option.map_bind]
  congr 1
  funext e
  by_cases hr : other.root = address.root
  · rw [if_pos hr]
    exact Entity.within?_modifyWithin hf hr e
  · have hne : ¬ other = address := fun he => hr (congrArg Address.root he)
    simp [hr, hne]

/-- What stands at the address or below is gone, and every other node is as it was. -/
theorem lookup_remove :
    (d.remove address).node? other = if address ∈ other.path then none else d.node? other := by
  cases address with
  | ofEntity id =>
    have he : (d.remove (.ofEntity id)).entity? other.root =
        if other.root = id then none else d.entity? other.root :=
      find?_filter_key (fun e : Entity => e.node.id) d.entities id other.root
    rw [node?_eq_within?, he, node?_eq_within?]
    by_cases hr : other.root = id <;> simp [hr, Address.ofEntity_mem_path]
  | ofAttribute owner id =>
    rw [remove, node?_modifyFirst _ _ (f := Entity.removeAttribute id) fun _ => rfl,
      node?_eq_within?]
    simp only [Address.ofAttribute_mem_path]
    cases d.entity? other.root with
    | none => simp
    | some e =>
      by_cases hr : other.root = owner
      · simp [Entity.within?_removeAttribute, hr]
      · have hne : ¬ other = .ofAttribute owner id := fun he => hr (congrArg Address.root he)
        simp [hr, hne]

end Diagram

end SchemaSketch
