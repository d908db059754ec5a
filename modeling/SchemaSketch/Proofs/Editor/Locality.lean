import SchemaSketch.Proofs.Diagram.Locality
import SchemaSketch.Proofs.Editor.Coherence
import SchemaSketch.Proofs.Surface.Renewal

/-!
What each call changes. After any run a call other than a new layout touches at most the one node
that the pointer holds or hits, and neither the tables nor the size of the surface.
-/
namespace SchemaSketch

def Call.laysOut : Call → Bool
  | .generate _ | .resize _ _ => true
  | _ => false

def Surface.KeepsSize (σ : Type) [Surface σ] : Prop :=
  ∀ (arrowLength zoom : Float) (d : Diagram) (s : σ),
    Surface.width ((Frame.drawing arrowLength zoom d).on s) = Surface.width s ∧
      Surface.height ((Frame.drawing arrowLength zoom d).on s) = Surface.height s

theorem Recording.keepsSize : Surface.KeepsSize Recording := by
  intro arrowLength zoom d s
  rw [on_frame]
  exact ⟨rfl, rfl⟩

theorem TextImage.keepsSize : Surface.KeepsSize TextImage := by
  intro arrowLength zoom d s
  obtain ⟨grid, hg⟩ := inked_frame arrowLength zoom d s
  rw [hg]
  exact ⟨rfl, rfl⟩

theorem VectorImage.keepsSize : Surface.KeepsSize VectorImage := by
  intro arrowLength zoom d s
  rw [on_frame]
  exact ⟨rfl, rfl⟩

namespace Editor

variable {σ : Type}

inductive Effect (e : Editor σ) : Call → Diagram → Prop
  | press (pointer : Point) : Effect e (.press pointer) e.diagram
  | release : Effect e .release e.diagram
  | scroll (delta : Float) (modifier : Bool) : Effect e (.scroll delta modifier) e.diagram
  | redraw : Effect e .redraw e.diagram
  | moveIdle (pointer : Point) : e.grip = .idle → Effect e (.move pointer) e.diagram
  | moveDragging {address : Address} {offset : Point} {d : Diagram} (pointer : Point) :
      e.grip = .dragging address offset →
      Diagram.Changes (fun node => { node with center := pointer - offset }) address e.diagram d →
      Effect e (.move pointer) d
  | moveResizing {address : Address} {offset : Float} {d : Diagram} (pointer : Point) :
      e.grip = .resizing address offset →
      Diagram.Changes
        (fun node => { node with radius := pointer.distance node.center - offset })
        address e.diagram d →
      Effect e (.move pointer) d
  | renameNothing (pointer : Point) (answer : Option String) :
      e.diagram.hit? pointer = none → Effect e (.rename pointer answer) e.diagram
  | renameRefused {address : Address} {node : Node} (pointer : Point) (answer : Option String) :
      e.diagram.hit? pointer = some address → e.diagram.node? address = some node →
      newName? node.name answer = none → Effect e (.rename pointer answer) e.diagram
  | rename {address : Address} {node : Node} {name : String} {d : Diagram} (pointer : Point)
      (answer : Option String) :
      e.diagram.hit? pointer = some address → e.diagram.node? address = some node →
      newName? node.name answer = some name →
      Diagram.Changes (fun node => { node with name := name }) address e.diagram d →
      Effect e (.rename pointer answer) d
  | deleteNothing (pointer : Point) (confirmed : Bool) :
      e.diagram.hit? pointer = none → Effect e (.delete pointer confirmed) e.diagram
  | deleteRefused (pointer : Point) : Effect e (.delete pointer false) e.diagram
  | delete {address : Address} {d : Diagram} (pointer : Point) :
      e.diagram.hit? pointer = some address → Diagram.Loses address e.diagram d →
      Effect e (.delete pointer true) d

structure SameGround [Surface σ] (e e' : Editor σ) : Prop where
  tables : e'.tables = e.tables
  width : Surface.width e'.surface = Surface.width e.surface
  height : Surface.height e'.surface = Surface.height e.surface

def EditsLocally [Surface σ] (e : Editor σ) : Prop :=
  ∀ (call : Call) (e' : Editor σ) (reply : Reply), call.laysOut = false →
    e.step call = .ok (e', reply) → Effect e call e'.diagram ∧ SameGround e e'

section Target

variable {e : Editor σ} {pointer : Point}

theorem hit?_of_target?_eq_none (h : e.diagram.WellFormed) (ht : e.target? pointer = none) :
    e.diagram.hit? pointer = none := by
  cases hp : e.diagram.hit? pointer with
  | none => rfl
  | some address =>
    obtain ⟨node, hn⟩ := h.node?_of_hit? hp
    rw [target?_eq_some_iff.2 ⟨hp, hn⟩] at ht
    cases ht

theorem Coherent.node?_of_held (h : e.Coherent) {address : Address}
    (ha : e.grip.held? = some address) : ∃ node, e.diagram.node? address = some node :=
  Option.isSome_iff_exists.1 (h.held address ha)

end Target

variable [Surface σ] {e e' : Editor σ}

theorem SameGround.of_quiet (h : Quiet e e') : SameGround e e' := by
  obtain ⟨grip, rfl⟩ := h
  exact ⟨rfl, rfl, rfl⟩

theorem SameGround.of_redraw (hσ : Surface.KeepsSize σ) {m : Editor σ} (ht : m.tables = e.tables)
    (hs : m.surface = e.surface) : SameGround e m.redraw := by
  obtain ⟨hw, hh⟩ := hσ m.settings.drawing.arrowLength m.zoom m.diagram m.surface
  constructor
  · exact ht
  · rw [← hs]
    exact hw
  · rw [← hs]
    exact hh

omit [Surface σ] in
theorem diagram_of_quiet (h : Quiet e e') : e'.diagram = e.diagram := by
  obtain ⟨grip, rfl⟩ := h
  rfl

/-- A node that is there is changed, and a frame is drawn. -/
theorem adjust_of_node? {address : Address} {node : Node}
    (h : e.diagram.node? address = some node) (f : Node → Node) :
    e.adjust address f = redraw { e with diagram := e.diagram.modify address f } := by
  have hh : e.diagram.holds address = true := by
    rw [Diagram.holds, h]
    rfl
  rw [adjust, if_pos hh]

theorem effect_adjust (hσ : Surface.KeepsSize σ) {address : Address} {node : Node}
    (h : e.diagram.node? address = some node) (f : Node → Node) :
    Diagram.Changes f address e.diagram (e.adjust address f).diagram ∧
      SameGround e (e.adjust address f) := by
  rw [adjust_of_node? h]
  constructor
  · exact Diagram.changes_modify h f
  · exact .of_redraw hσ rfl rfl

theorem effect_press (pointer : Point) :
    Effect e (.press pointer) (e.press pointer).diagram ∧ SameGround e (e.press pointer) := by
  have hq : Quiet e (e.press pointer) := quiet_press pointer
  rw [diagram_of_quiet hq]
  exact ⟨.press pointer, .of_quiet hq⟩

theorem effect_move (hσ : Surface.KeepsSize σ) (h : e.Coherent) (pointer : Point) :
    Effect e (.move pointer) (e.move pointer).diagram ∧ SameGround e (e.move pointer) := by
  cases hg : e.grip with
  | idle =>
    have hm : e.move pointer = e := by rw [move, hg]
    rw [hm]
    exact ⟨.moveIdle pointer hg, .of_quiet (.refl e)⟩
  | dragging address offset =>
    have ha : e.grip.held? = some address := by rw [hg]; rfl
    obtain ⟨node, hn⟩ := h.node?_of_held ha
    rw [move, hg]
    exact (effect_adjust hσ hn _).imp_left (.moveDragging pointer hg)
  | resizing address offset =>
    have ha : e.grip.held? = some address := by rw [hg]; rfl
    obtain ⟨node, hn⟩ := h.node?_of_held ha
    rw [move, hg]
    exact (effect_adjust hσ hn _).imp_left (.moveResizing pointer hg)

theorem effect_rename (hσ : Surface.KeepsSize σ) (h : e.Coherent) (pointer : Point)
    (answer : Option String) :
    Effect e (.rename pointer answer) (e.rename pointer answer).1.diagram ∧
      SameGround e (e.rename pointer answer).1 := by
  cases ht : e.target? pointer with
  | none =>
    simp only [rename, ht]
    have hp := hit?_of_target?_eq_none h.wellFormed ht
    exact ⟨.renameNothing pointer answer hp, .of_quiet (.refl e)⟩
  | some target =>
    obtain ⟨address, node⟩ := target
    obtain ⟨hp, hn⟩ := target?_eq_some_iff.1 ht
    simp only [rename, ht]
    cases hname : newName? node.name answer with
    | none => exact ⟨.renameRefused pointer answer hp hn hname, .of_quiet (.refl e)⟩
    | some name =>
      constructor
      · exact .rename pointer answer hp hn hname (Diagram.changes_modify hn _)
      · exact .of_redraw hσ rfl rfl

theorem effect_delete (hσ : Surface.KeepsSize σ) (h : e.Coherent) (pointer : Point)
    (confirmed : Bool) :
    Effect e (.delete pointer confirmed) (e.delete pointer confirmed).1.diagram ∧
      SameGround e (e.delete pointer confirmed).1 := by
  cases ht : e.target? pointer with
  | none =>
    simp only [delete, ht]
    have hp := hit?_of_target?_eq_none h.wellFormed ht
    exact ⟨.deleteNothing pointer confirmed hp, .of_quiet (.refl e)⟩
  | some target =>
    obtain ⟨address, node⟩ := target
    obtain ⟨hp, hn⟩ := target?_eq_some_iff.1 ht
    simp only [delete, ht]
    cases confirmed with
    | false => exact ⟨.deleteRefused pointer, .of_quiet (.refl e)⟩
    | true =>
      obtain ⟨grip, hg⟩ := quiet_dropLost { e with diagram := e.diagram.remove address }
      rw [if_pos rfl, hg]
      constructor
      · exact .delete pointer hp (Diagram.loses_remove h.wellFormed hn)
      · exact .of_redraw hσ rfl rfl

theorem Coherent.editsLocally (hσ : Surface.KeepsSize σ) (h : e.Coherent) : e.EditsLocally := by
  intro call e' reply hc hs
  cases outcome_of_step hs with
  | generate source | resize width height => cases hc
  | press pointer => exact effect_press pointer
  | move pointer => exact effect_move hσ h pointer
  | release => exact ⟨.release, .of_quiet ⟨.idle, rfl⟩⟩
  | delete pointer confirmed => exact effect_delete hσ h pointer confirmed
  | rename pointer answer => exact effect_rename hσ h pointer answer
  | ignored delta modifier => exact ⟨.scroll delta modifier, .of_quiet (.refl e)⟩
  | zoomed delta modifier zoom => exact ⟨.scroll delta modifier, .of_redraw hσ rfl rfl⟩
  | redraw => exact ⟨.redraw, .of_redraw hσ rfl rfl⟩

/-- After any calls to a new editor on one of the three surfaces, every further call but a new
layout has its effect and no other. Entities and attributes that it does not touch keep all they
have, and their places. -/
theorem edits_local_after_run (settings : Settings) (calls : List Call) :
    (∀ (s : Recording) (e : Editor Recording),
      (start settings s).run calls = .ok e → e.EditsLocally) ∧
    (∀ (s : TextImage) (e : Editor TextImage),
      (start settings s).run calls = .ok e → e.EditsLocally) ∧
    ∀ (s : VectorImage) (e : Editor VectorImage),
      (start settings s).run calls = .ok e → e.EditsLocally := by
  refine ⟨fun s e hr => ?_, fun s e hr => ?_, fun s e hr => ?_⟩
  · exact ((coherent_start settings s).run hr).editsLocally Recording.keepsSize
  · exact ((coherent_start settings s).run hr).editsLocally TextImage.keepsSize
  · exact ((coherent_start settings s).run hr).editsLocally VectorImage.keepsSize

/-- A delete after a node may have been dragged, renamed and grabbed again. -/
theorem edits_local_after_drag_and_rename :
    ∃ e e' reply, (start .standard (VectorImage.blank 800.0 600.0)).run
        [.generate "create table a (id int, b int references a(id))", .press ⟨700.0, 300.0⟩,
          .move ⟨100.0, 100.0⟩, .rename ⟨100.0, 100.0⟩ (some " c "), .press ⟨100.0, 100.0⟩] =
          .ok e ∧
      e.step (.delete ⟨850.0, 300.0⟩ true) = .ok (e', reply) ∧
      Effect e (.delete ⟨850.0, 300.0⟩ true) e'.diagram ∧ SameGround e e' := by
  have hr : ∃ e, (start .standard (VectorImage.blank 800.0 600.0)).run
      [.generate "create table a (id int, b int references a(id))", .press ⟨700.0, 300.0⟩,
        .move ⟨100.0, 100.0⟩, .rename ⟨100.0, 100.0⟩ (some " c "), .press ⟨100.0, 100.0⟩] =
        .ok e ∧
      ∃ r, e.step (.delete ⟨850.0, 300.0⟩ true) = .ok r := ⟨_, rfl, _, rfl⟩
  obtain ⟨e, he, ⟨e', reply⟩, hs⟩ := hr
  have h := (edits_local_after_run .standard _).2.2 (VectorImage.blank 800.0 600.0) e he
  exact ⟨e, e', reply, he, hs, h _ e' reply rfl hs⟩

end Editor

end SchemaSketch
