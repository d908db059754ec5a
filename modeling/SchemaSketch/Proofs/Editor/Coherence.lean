import SchemaSketch.Proofs.Editor.Calls
import SchemaSketch.Proofs.Layout.Numbering
import SchemaSketch.Surface.Recording

/-!
What holds of an editor after any calls: the diagram is well formed, and a node that the pointer
holds is in it. Each call keeps both, so that no call ever looks for a node that is gone.
-/
namespace SchemaSketch.Editor

variable {σ : Type}

structure Coherent (e : Editor σ) : Prop where
  wellFormed : e.diagram.WellFormed
  held : ∀ address, e.grip.held? = some address → e.diagram.holds address = true

theorem coherent_start (settings : Settings) (s : σ) : (start settings s).Coherent :=
  ⟨Diagram.wellFormed_empty, fun _ h => nomatch h⟩

theorem target?_eq_some_iff {e : Editor σ} {pointer : Point} {address : Address} {node : Node} :
    e.target? pointer = some (address, node) ↔
      e.diagram.hit? pointer = some address ∧ e.diagram.node? address = some node := by
  simp only [target?, Option.bind_eq_bind, Option.bind_eq_some_iff, Option.some.injEq,
    Prod.mk.injEq]
  constructor
  · intro h
    obtain ⟨a, ha, n, hn, rfl, rfl⟩ := h
    exact ⟨ha, hn⟩
  · intro h
    obtain ⟨ha, hn⟩ := h
    exact ⟨address, ha, node, hn, rfl, rfl⟩

theorem held?_grab (tolerance : Float) (pointer : Point) (address : Address) (node : Node) :
    (grab tolerance pointer address node).held? = some address := by
  simp only [grab]
  split <;> rfl

namespace Coherent

variable {e : Editor σ}

theorem release (h : e.Coherent) : e.release.Coherent :=
  ⟨h.wellFormed, fun _ h => nomatch h⟩

theorem press (h : e.Coherent) (pointer : Point) : (e.press pointer).Coherent := by
  unfold Editor.press
  split
  · exact h
  · next address node ht =>
    refine ⟨h.wellFormed, fun other ho => ?_⟩
    rw [held?_grab, Option.some.injEq] at ho
    subst ho
    simp [Diagram.holds, (target?_eq_some_iff.1 ht).2]

theorem modify (h : e.Coherent) (address : Address) {f : Node → Node}
    (hf : ∀ node, (f node).id = node.id) :
    ({ e with diagram := e.diagram.modify address f } : Editor σ).Coherent := by
  refine ⟨h.wellFormed.modify address hf, fun other ho => ?_⟩
  rw [Diagram.holds_modify _ _ _ hf]
  exact h.held other ho

/-- Letting go of what is lost mends an editor whose diagram alone is in order. -/
theorem dropLost (h : e.diagram.WellFormed) : e.dropLost.Coherent := by
  unfold Editor.dropLost
  split
  · next hn => exact ⟨h, fun _ ho => by simp [hn] at ho⟩
  · next address ha =>
    split
    · next hh =>
      refine ⟨h, fun other ho => ?_⟩
      rw [ha, Option.some.injEq] at ho
      exact ho ▸ hh
    · exact ⟨h, fun _ ho => nomatch ho⟩

variable [Surface σ]

theorem redraw (h : e.Coherent) : e.redraw.Coherent :=
  ⟨h.wellFormed, h.held⟩

theorem relayout (e : Editor σ) : e.relayout.Coherent :=
  ⟨Layout.wellFormed_radial _ _ _ _, fun _ h => nomatch h⟩

theorem adjust (h : e.Coherent) (address : Address) {f : Node → Node}
    (hf : ∀ node, (f node).id = node.id) : (e.adjust address f).Coherent := by
  unfold Editor.adjust
  split
  · exact (h.modify address hf).redraw
  · exact h.release

theorem move (h : e.Coherent) (pointer : Point) : (e.move pointer).Coherent := by
  unfold Editor.move
  split
  · exact h
  · exact h.adjust _ fun _ => rfl
  · exact h.adjust _ fun _ => rfl

theorem delete (h : e.Coherent) (pointer : Point) (confirmed : Bool) :
    (e.delete pointer confirmed).1.Coherent := by
  unfold Editor.delete
  split
  · exact h
  · next address node ht =>
    split
    · have hw := h.wellFormed.remove address
      exact (dropLost (e := { e with diagram := e.diagram.remove address }) hw).redraw
    · exact h

theorem rename (h : e.Coherent) (pointer : Point) (answer : Option String) :
    (e.rename pointer answer).1.Coherent := by
  unfold Editor.rename
  split
  · exact h
  · next address node ht =>
    split
    · exact h
    · next name hn =>
      exact (h.modify address (f := fun node => { node with name := name }) fun _ => rfl).redraw

theorem step (h : e.Coherent) {call : Call} {e' : Editor σ} {reply : Reply}
    (hs : e.step call = .ok (e', reply)) : e'.Coherent := by
  cases outcome_of_step hs with
  | generate source | resize width height => exact relayout _
  | press pointer => exact h.press pointer
  | move pointer => exact h.move pointer
  | release => exact h.release
  | delete pointer confirmed => exact h.delete pointer confirmed
  | rename pointer answer => exact h.rename pointer answer
  | ignored delta modifier => exact h
  | zoomed delta modifier zoom => exact ⟨h.wellFormed, h.held⟩
  | redraw => exact h.redraw

theorem run (h : e.Coherent) {calls : List Call} {e' : Editor σ} (hr : e.run calls = .ok e') :
    e'.Coherent :=
  run_preserves (fun h hs => h.step hs) h hr

end Coherent

/-- After any calls to a new editor: no number is given twice; every attribute names its owner;
every node is found at its own address and at no other; a held node is there; and whatever the
pointer hits is there to be grabbed, renamed or taken out. -/
theorem nodes_found_after_run [Surface σ] {settings : Settings} {s : σ} {calls : List Call}
    {e : Editor σ} (h : (start settings s).run calls = .ok e) :
    (e.diagram.nodes.map (·.2.id)).Nodup ∧
      (∀ entity ∈ e.diagram.entities, ∀ a ∈ entity.attributes, a.owner = entity.node.id) ∧
      (∀ n ∈ e.diagram.nodes, e.diagram.node? n.1 = some n.2 ∧
        ∀ m ∈ e.diagram.nodes, e.diagram.node? m.1 = some n.2 → m = n) ∧
      (∀ address, e.grip.held? = some address → ∃ node, e.diagram.node? address = some node) ∧
      ∀ pointer address, e.diagram.hit? pointer = some address →
        (∃ node, e.target? pointer = some (address, node)) ∧ e.diagram.loses address = true := by
  have hc := (coherent_start settings s).run h
  have hw := hc.wellFormed
  refine ⟨hw.nodes_nodup, hw.owner_eq, fun n hn => ⟨hw.node?_of_mem hn, fun m hm he => ?_⟩,
    fun address ha => ?_, fun pointer address hp => ?_⟩
  · exact hw.eq_of_node? hn hm he
  · exact Option.isSome_iff_exists.1 (hc.held address ha)
  · obtain ⟨node, hnode⟩ := hw.node?_of_hit? hp
    refine ⟨⟨node, target?_eq_some_iff.2 ⟨hp, hnode⟩⟩, ?_⟩
    rw [Diagram.loses_eq_holds, Diagram.holds, hnode]
    rfl

/-- A node may be held here when its owner is deleted and when the surface changes its size. -/
theorem nodes_found_after_delete_and_resize :
    ∃ e, (start .standard (Recording.blank 800.0 600.0)).run
        [.generate "create table a (id int)", .scroll (-1.0) true, .press ⟨550.0, 300.0⟩,
          .delete ⟨700.0, 300.0⟩ true, .move ⟨0.0, 0.0⟩, .resize 400.0 400.0,
          .press ⟨400.0, 200.0⟩] = .ok e ∧
      (e.diagram.nodes.map (·.2.id)).Nodup ∧
      ∀ address, e.grip.held? = some address → ∃ node, e.diagram.node? address = some node := by
  have hr : ∃ e, (start .standard (Recording.blank 800.0 600.0)).run
      [.generate "create table a (id int)", .scroll (-1.0) true, .press ⟨550.0, 300.0⟩,
        .delete ⟨700.0, 300.0⟩ true, .move ⟨0.0, 0.0⟩, .resize 400.0 400.0,
        .press ⟨400.0, 200.0⟩] = .ok e := ⟨_, rfl⟩
  obtain ⟨e, he⟩ := hr
  have h := nodes_found_after_run he
  exact ⟨e, he, h.1, h.2.2.2.1⟩

end SchemaSketch.Editor
