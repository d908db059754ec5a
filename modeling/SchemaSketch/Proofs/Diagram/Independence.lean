import Mathlib.Data.List.Basic
import SchemaSketch.Proofs.Diagram.Locality

/-!
Edits at different addresses. They commute, also where one of the nodes owns the other, and even if
numbers are shared: what is found first by its number stays first, and what is dropped by its number
is dropped from wherever it stands.
-/
namespace SchemaSketch

section Keys

variable {α κ : Type} [DecidableEq κ] (key : α → κ) {f g : α → α}

/-- Changes to members of different keys commute, and changes to one member if they do so there. -/
theorem modifyFirst_comm (hf : ∀ a, key (f a) = key a) (hg : ∀ a, key (g a) = key a) (k k' : κ)
    (hfg : k = k' → ∀ a, g (f a) = f (g a)) (as : List α) :
    modifyFirst (fun a => key a == k') g (modifyFirst (fun a => key a == k) f as) =
      modifyFirst (fun a => key a == k) f (modifyFirst (fun a => key a == k') g as) := by
  induction as with
  | nil => rfl
  | cons a as ih =>
    by_cases hk : key a = k
    · by_cases hk' : key a = k'
      · obtain rfl : k = k' := hk.symm.trans hk'
        simp [modifyFirst, hf, hg, hk, hfg rfl a]
      · have hne : ¬ k = k' := hk ▸ hk'
        simp [modifyFirst, hf, hk, hne]
    · by_cases hk' : key a = k'
      · have hne : ¬ k' = k := hk' ▸ hk
        simp [modifyFirst, hg, hk', hne]
      · simp [modifyFirst, hk, hk', ih]

/-- A change is dropped with its member, and nothing else comes to be first by dropping others. -/
theorem filter_modifyFirst (hf : ∀ a, key (f a) = key a) (k k' : κ) (as : List α) :
    (modifyFirst (fun a => key a == k) f as).filter (fun a => !(key a == k')) =
      modifyFirst (fun a => key a == k) f (as.filter fun a => !(key a == k')) := by
  induction as with
  | nil => rfl
  | cons a as ih =>
    by_cases hk' : key a = k'
    · by_cases hk : key a = k
      · -- Among those that are left the key is not found any more.
        obtain rfl : k = k' := hk.symm.trans hk'
        have hnone := (find?_filter_key key as k k).trans (if_pos rfl)
        rw [List.filter_cons_of_neg (by simp [hk]), modifyFirst_eq_self f hnone]
        simp [modifyFirst, hf, hk]
      · have hne : ¬ k' = k := hk' ▸ hk
        simp [modifyFirst, hk', hne, ih]
    · by_cases hk : key a = k
      · have hne : ¬ k = k' := hk ▸ hk'
        simp [modifyFirst, hf, hk, hne]
      · simp [modifyFirst, hk, hk', ih]

end Keys

namespace Entity

variable {r s : Address} {f g : Node → Node}

theorem modifyWithin_comm (hf : ∀ node, (f node).id = node.id) (hg : ∀ node, (g node).id = node.id)
    (hne : r ≠ s) (hr : r.root = s.root) (e : Entity) :
    modifyWithin g s (modifyWithin f r e) = modifyWithin f r (modifyWithin g s e) := by
  cases r with
  | ofEntity id =>
    cases s with
    | ofEntity id' => exact absurd (congrArg Address.ofEntity hr) hne
    | ofAttribute owner id' => rfl
  | ofAttribute owner id =>
    cases s with
    | ofEntity id' => rfl
    | ofAttribute owner' id' =>
      obtain rfl : owner = owner' := hr
      have hid : id ≠ id' := fun h => hne (congrArg (Address.ofAttribute owner) h)
      have hattributes := modifyFirst_comm (fun a : Attribute => a.node.id)
        (f := Attribute.modifyNode f) (g := Attribute.modifyNode g) (fun a => hf a.node)
        (fun a => hg a.node) id id' (fun h => absurd h hid) e.attributes
      exact congrArg (Entity.mk e.node · e.foreignKeys) hattributes

theorem removeAttribute_modifyWithin (hf : ∀ node, (f node).id = node.id) (id : NodeId)
    (e : Entity) :
    (modifyWithin f r e).removeAttribute id = modifyWithin f r (e.removeAttribute id) := by
  cases r with
  | ofEntity id' => rfl
  | ofAttribute owner id' =>
    have hattributes := filter_modifyFirst (fun a : Attribute => a.node.id)
      (f := Attribute.modifyNode f) (fun a => hf a.node) id' id e.attributes
    exact congrArg (Entity.mk e.node · e.foreignKeys) hattributes

theorem removeAttribute_comm (id id' : NodeId) (e : Entity) :
    (e.removeAttribute id).removeAttribute id' = (e.removeAttribute id').removeAttribute id :=
  congrArg (Entity.mk e.node · e.foreignKeys) (List.filter_comm _ _ e.attributes)

theorem removeAttribute_removeAttribute (id : NodeId) (e : Entity) :
    (e.removeAttribute id).removeAttribute id = e.removeAttribute id := by
  simp [removeAttribute]

end Entity

namespace Diagram

variable (d : Diagram) {r s : Address} {f g : Node → Node}

theorem modify_comm (hf : ∀ node, (f node).id = node.id) (hg : ∀ node, (g node).id = node.id)
    (hne : r ≠ s) : (d.modify r f).modify s g = (d.modify s g).modify r f := by
  have hentities := modifyFirst_comm (fun e : Entity => e.node.id) (Entity.id_modifyWithin hf)
    (Entity.id_modifyWithin hg) r.root s.root (Entity.modifyWithin_comm hf hg hne) d.entities
  simp only [modify_eq]
  exact congrArg (Diagram.mk · d.nextId) hentities

/-- A node may be changed and then taken out with its owner, or be looked for in vain after that. -/
theorem remove_modify (hf : ∀ node, (f node).id = node.id) :
    (d.modify r f).remove s = (d.remove s).modify r f := by
  rw [modify_eq, modify_eq]
  cases s with
  | ofEntity id =>
    have hentities := filter_modifyFirst (fun e : Entity => e.node.id)
      (f := Entity.modifyWithin f r) (Entity.id_modifyWithin hf) r.root id d.entities
    exact congrArg (Diagram.mk · d.nextId) hentities
  | ofAttribute owner id =>
    have hentities := modifyFirst_comm (fun e : Entity => e.node.id)
      (f := Entity.modifyWithin f r) (g := Entity.removeAttribute id) (Entity.id_modifyWithin hf)
      (fun _ => rfl) r.root owner (fun _ => Entity.removeAttribute_modifyWithin hf id) d.entities
    exact congrArg (Diagram.mk · d.nextId) hentities

theorem remove_entity_attribute (id owner id' : NodeId) :
    (d.remove (.ofAttribute owner id')).remove (.ofEntity id) =
      (d.remove (.ofEntity id)).remove (.ofAttribute owner id') :=
  congrArg (Diagram.mk · d.nextId) (filter_modifyFirst (fun e : Entity => e.node.id)
    (f := Entity.removeAttribute id') (fun _ => rfl) owner id d.entities)

theorem remove_comm (r s : Address) : (d.remove r).remove s = (d.remove s).remove r := by
  cases r with
  | ofEntity id =>
    cases s with
    | ofEntity id' => exact congrArg (Diagram.mk · d.nextId) (List.filter_comm _ _ d.entities)
    | ofAttribute owner id' => exact (d.remove_entity_attribute id owner id').symm
  | ofAttribute owner id =>
    cases s with
    | ofEntity id' => exact d.remove_entity_attribute id' owner id
    | ofAttribute owner' id' =>
      have hentities := modifyFirst_comm (fun e : Entity => e.node.id)
        (f := Entity.removeAttribute id) (g := Entity.removeAttribute id') (fun _ => rfl)
        (fun _ => rfl) owner owner' (fun _ => Entity.removeAttribute_comm id id') d.entities
      exact congrArg (Diagram.mk · d.nextId) hentities

theorem remove_remove (r : Address) : (d.remove r).remove r = d.remove r := by
  cases r with
  | ofEntity id => simp [remove]
  | ofAttribute owner id =>
    have htwice : Entity.removeAttribute id ∘ Entity.removeAttribute id =
        Entity.removeAttribute id := funext (Entity.removeAttribute_removeAttribute id)
    have hentities := modifyFirst_modifyFirst (p := Entity.hasId owner)
      (f := Entity.removeAttribute id) (fun _ => rfl) (Entity.removeAttribute id) d.entities
    rw [htwice] at hentities
    exact congrArg (Diagram.mk · d.nextId) hentities

/-- Edits that leave the numbers alone can be made in either order, if they are not two changes of
the same node. Taking out a node a second time takes nothing, and the first time takes no more than
the node and what it owns. -/
theorem edits_commute (r s : Address) (hf : ∀ node, (f node).id = node.id)
    (hg : ∀ node, (g node).id = node.id) :
    (d.remove r).remove s = (d.remove s).remove r ∧
    (r ≠ s → (d.modify r f).modify s g = (d.modify s g).modify r f) ∧
    (d.modify r f).remove s = (d.remove s).modify r f ∧
    (d.modify r f).loses s = d.loses s ∧
    (d.remove r).loses r = false ∧ (d.remove r).remove r = d.remove r ∧
    (d.remove r).node? r = none ∧
    ∀ t, r ∉ t.path → (d.remove r).node? t = d.node? t := by
  have hgone : (d.remove r).node? r = none := by
    rw [lookup_remove, if_pos r.mem_path]
  refine ⟨d.remove_comm r s, d.modify_comm hf hg, d.remove_modify hf, ?_, ?_, d.remove_remove r,
    hgone, fun t ht => ?_⟩
  · rw [loses_eq_holds, loses_eq_holds, holds_modify d r s hf]
  · rw [loses_eq_holds, holds, hgone]
    rfl
  · rw [lookup_remove, if_neg ht]

/-- An attribute is renamed while its owner is resized or taken out. -/
theorem edits_commute_with_owner :
    let r := Address.ofAttribute 0 1
    let s := Address.ofEntity 0
    let f := fun node : Node => { node with name := "key" }
    let g := fun node : Node => { node with radius := 60.0 }
    let users (radius : Float) (name : String) : Entity :=
      ⟨⟨0, "users", ⟨100.0, 100.0⟩, radius⟩, [⟨⟨1, name, ⟨100.0, 200.0⟩, 45.0⟩, "INT", true, 0⟩], []⟩
    let orders : Entity := ⟨⟨2, "orders", ⟨400.0, 100.0⟩, 50.0⟩, [], []⟩
    let d : Diagram := ⟨[users 50.0 "id", orders], 3⟩
    r ≠ s ∧ (∀ node, (f node).id = node.id) ∧ (∀ node, (g node).id = node.id) ∧
      (d.modify s g).modify r f = ⟨[users 60.0 "key", orders], 3⟩ ∧
      (d.modify r f).remove s = ⟨[orders], 3⟩ ∧ (d.remove s).modify r f = ⟨[orders], 3⟩ := by
  intro r s f g users orders d
  have hne : r ≠ s := nofun
  have h := edits_commute d r s (f := f) (g := g) (fun _ => rfl) (fun _ => rfl)
  refine ⟨hne, fun _ => rfl, fun _ => rfl, ?_, rfl, ?_⟩
  · rw [← h.2.1 hne]
    rfl
  · rw [← h.2.2.1]
    rfl

end Diagram

end SchemaSketch
