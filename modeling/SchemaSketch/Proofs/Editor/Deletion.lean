import SchemaSketch.Proofs.Drawing.Edges
import SchemaSketch.Proofs.Editor.Display
import SchemaSketch.Proofs.Editor.Refusal

/-!
What becomes of the edges on a recording when an entity is deleted. Edges are drawn anew from what
is left, so that only those of the entity itself are lost, and references to it may lead elsewhere.
-/
namespace SchemaSketch.Editor

variable {e : Editor Recording}

theorem delete_confirmed {pointer : Point} {address : Address} {node : Node}
    (ht : e.target? pointer = some (address, node)) : ∃ grip, (e.delete pointer true).1 =
      redraw { e with
        diagram := e.diagram.remove address
        grip := grip } := by
  obtain ⟨grip, hg⟩ := quiet_dropLost { e with diagram := e.diagram.remove address }
  refine ⟨grip, ?_⟩
  simp only [delete, ht, if_true, hg]

/-- A deleted entity takes its edges with it: of the edges that were drawn those remain, in their
order, that do not start from it, and the ones that lead to it lead to the next entity of its name.
If there is none, exactly the edges that it is an end of are gone. -/
def DeletesEdges (e : Editor Recording) : Prop :=
  ∀ pointer id, e.diagram.hit? pointer = some (.ofEntity id) →
    let e' := (e.delete pointer true).1
    e'.diagram = e.diagram.remove (.ofEntity id) ∧
    e.surface.Draws e.settings.drawing.arrowLength e.zoom e.diagram ∧
    e'.surface.Draws e.settings.drawing.arrowLength e.zoom e'.diagram ∧
    e'.diagram.edges = e.diagram.edges.filterMap (Edge.without e'.diagram id) ∧
    ∃ gone, e.diagram.entity? id = some gone ∧
      ((∀ other ∈ e'.diagram.entities, other.node.name ≠ gone.node.name) →
        e'.diagram.edges = e.diagram.edges.filter (!·.meets id))

theorem draws_of_shows (h : Shows Recording.renewal e) :
    e.surface.Draws e.settings.drawing.arrowLength e.zoom e.diagram :=
  (Recording.draws_frame _ _ _ _).of_commands h

theorem Coherent.deletesEdges (h : e.Coherent) (hs : Shows Recording.renewal e) :
    e.DeletesEdges := by
  intro pointer id hp e'
  obtain ⟨node, hn⟩ := h.wellFormed.node?_of_hit? hp
  obtain ⟨gone, hgone, -⟩ := Diagram.node?_ofEntity hn
  obtain ⟨grip, he⟩ := delete_confirmed (target?_eq_some_iff.2 ⟨hp, hn⟩)
  have hd : e'.diagram = e.diagram.remove (.ofEntity id) := congrArg Editor.diagram he
  have hdraws : e'.surface.Draws e.settings.drawing.arrowLength e.zoom e'.diagram := by
    simp only [e', he]
    exact Recording.draws_frame _ _ _ _
  refine ⟨hd, draws_of_shows hs, hdraws, ?_, gone, hgone, fun hname => ?_⟩
  · rw [hd]
    exact Diagram.edges_remove e.diagram id
  · rw [hd] at hname ⊢
    refine Diagram.edges_remove_of_unshared (fun other hm hid => ?_) hname
    have hother := h.wellFormed.entity?_eq hm
    rw [beq_iff_eq.1 hid, hgone, Option.some_inj] at hother
    exact hother.symm

/-- A frame on a recording is drawn from the diagram alone. It has all nodes, each entity followed
by its attributes, then a line with its arrowhead for every attribute and every foreign key that
resolves; attributes come first, and a foreign key leads to the first entity of exactly the name it
refers to. So it is after any calls to a new editor, and when an entity is deleted there, its own
edges are gone and the others left. -/
theorem frame_draws_diagram :
    (∀ (arrowLength zoom : Float) (d : Diagram) (s : Recording),
      ((Frame.drawing arrowLength zoom d).on s).Draws arrowLength zoom d ∧
        ∀ name target, d.named? name = some target ↔ target.node.name = name ∧
          ∃ before after, d.entities = before ++ target :: after ∧
            ∀ other ∈ before, other.node.name ≠ name) ∧
    (∀ e : Editor Recording, e.Coherent → Shows Recording.renewal e → e.DeletesEdges) ∧
    ∀ (settings : Settings) (s : Recording) (calls : List Call) (e : Editor Recording),
      (start settings s).run calls = .ok e → e.DeletesEdges := by
  refine ⟨fun arrowLength zoom d s => ⟨Recording.draws_frame arrowLength zoom d s, ?_⟩,
    fun e h hs => h.deletesEdges hs, fun settings s calls e hr pointer id hp => ?_⟩
  · exact fun name target => Diagram.named?_eq_some_iff
  · have hc := (coherent_start settings s).run hr
    obtain ⟨-, hs⟩ := shown_run Recording.renewal trivial hr
    exact hc.deletesEdges (hs.of_hit? hp) pointer id hp

/-- The first of two entities of a name is deleted, and a reference leads to the second. -/
theorem frame_draws_diagram_after_delete :
    let id : Attribute := ⟨⟨1, "id", ⟨200.0, 100.0⟩, 20.0⟩, "int", true, 0⟩
    let a : Entity := ⟨⟨0, "a", ⟨100.0, 100.0⟩, 40.0⟩, [id], [⟨"id", "b", "c"⟩]⟩
    let b : Entity := ⟨⟨2, "b", ⟨400.0, 400.0⟩, 40.0⟩, [], [⟨"c", "a", "id"⟩, ⟨"d", "x", "y"⟩]⟩
    let other : Entity := ⟨⟨3, "a", ⟨300.0, 100.0⟩, 40.0⟩, [], []⟩
    let e : Editor Recording := redraw
      ⟨Recording.blank 800.0 600.0, ⟨[a, b, other], 4⟩, [], .idle, 1.0, .standard⟩
    e.diagram.edges = [.ownership a id, .reference a ⟨"id", "b", "c"⟩ b,
        .reference b ⟨"c", "a", "id"⟩ a] ∧
      (e.delete ⟨100.0, 100.0⟩ true).1.diagram.edges = [.reference b ⟨"c", "a", "id"⟩ other] ∧
      ∃ m, (start .standard (Recording.blank 800.0 600.0)).run
          [.generate "create table a (id int)", .rename ⟨700.0, 300.0⟩ (some "b")] = .ok m ∧
        m.DeletesEdges := by
  intro id a b other e
  have h : e.Coherent := ⟨⟨by decide, by decide⟩, nofun⟩
  have hs : Shows Recording.renewal e := (shows_redraw Recording.renewal trivial).2
  obtain ⟨hd, -, -, hedges, -⟩ := frame_draws_diagram.2.1 e h hs ⟨100.0, 100.0⟩ 0 (by decide)
  have hr : ∃ m, (start .standard (Recording.blank 800.0 600.0)).run
      [.generate "create table a (id int)", .rename ⟨700.0, 300.0⟩ (some "b")] = .ok m := ⟨_, rfl⟩
  obtain ⟨m, hm⟩ := hr
  refine ⟨rfl, hedges.trans ?_, m, hm, frame_draws_diagram.2.2 _ _ _ m hm⟩
  rw [hd]
  rfl

end SchemaSketch.Editor
