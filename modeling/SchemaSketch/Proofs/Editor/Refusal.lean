import SchemaSketch.Proofs.Editor.Locality
import SchemaSketch.Session

/-!
Edits that may be refused. A delete that is declined and a rename to no name, a blank one or the
current one leave no trace, not even a frame, so that a session may as well leave them out.
-/
namespace SchemaSketch

inductive Declined : Option String → String → Prop
  | cancelled (current : String) : Declined none current
  | blank {answer : String} (current : String) :
      Text.trim answer.toList = [] → Declined (some answer) current
  | same {answer current : String} :
      Text.trim answer.toList = current.toList → Declined (some answer) current

def Names (answer : Option String) (current name : String) : Prop :=
  ∃ text, answer = some text ∧ name = String.ofList (Text.trim text.toList) ∧ name ≠ current

namespace Editor

section Name

variable {current name : String} {answer : Option String}

theorem declined_some_iff {text : String} : Declined (some text) current ↔
    String.ofList (Text.trim text.toList) = "" ∨
      String.ofList (Text.trim text.toList) = current := by
  have hblank : String.ofList (Text.trim text.toList) = "" ↔ Text.trim text.toList = [] := by
    rw [← String.toList_inj, String.toList_ofList, String.toList_empty]
  have hsame : String.ofList (Text.trim text.toList) = current ↔
      Text.trim text.toList = current.toList := by
    rw [← String.toList_inj, String.toList_ofList]
  rw [hblank, hsame]
  constructor
  · intro h
    cases h with
    | blank _ h => exact Or.inl h
    | same h => exact Or.inr h
  · intro h
    exact h.elim (.blank current) .same

theorem newName?_eq_none_iff : newName? current answer = none ↔ Declined answer current := by
  cases answer with
  | none => exact iff_of_true rfl (.cancelled current)
  | some text =>
    rw [declined_some_iff, newName?]
    split
    · next h => exact iff_of_true rfl h
    · next h => exact iff_of_false (Option.some_ne_none _) h

theorem names_of_newName? (h : newName? current answer = some name) :
    Names answer current name := by
  cases answer with
  | none => cases h
  | some text =>
    rw [newName?] at h
    split at h
    · cases h
    · next hn =>
      cases h
      exact ⟨text, rfl, rfl, fun he => hn (Or.inr he)⟩

end Name

variable {σ : Type} [Surface σ] {e : Editor σ}

/-- What comes of an edit at a pointer. `Refuses` says when a node that is hit stays as it is, and
`Done` what becomes of the diagram when it does not. -/
structure EditOutcome (e : Editor σ) (pointer : Point) (question : String → Question)
    (Refuses : Node → Prop) (Done : Address → Node → Diagram → Prop) (r : Editor σ × Reply) :
    Prop where
  returns : r.2.changed = some true ∨ r.2.changed = some false
  asks_nothing : e.diagram.hit? pointer = none → r.2.asked = none
  asks : ∀ address, e.diagram.hit? pointer = some address →
    ∃ node, e.diagram.node? address = some node ∧ r.2.asked = some (question node.name)
  refused_iff : r.2.changed = some false ↔ ∀ address node,
    e.diagram.hit? pointer = some address → e.diagram.node? address = some node → Refuses node
  refused : r.2.changed = some false → r.1 = e
  done : r.2.changed = some true → ∃ address node, e.diagram.hit? pointer = some address ∧
    e.diagram.node? address = some node ∧ Done address node r.1.diagram
  drawn : r.2.changed = some true → r.1.surface = r.1.frame.on e.surface ∧
    r.1.tables = e.tables ∧ r.1.zoom = e.zoom

namespace EditOutcome

variable {pointer : Point} {question : String → Question} {Refuses : Node → Prop}
  {Done : Address → Node → Diagram → Prop} {address : Address} {node : Node}

theorem of_nothing (h : e.diagram.hit? pointer = none) :
    EditOutcome e pointer question Refuses Done (e, ⟨some false, none⟩) where
  returns := Or.inr rfl
  asks_nothing _ := rfl
  asks address ha := by simp [h] at ha
  refused_iff := iff_of_true rfl fun address node ha => by simp [h] at ha
  refused _ := rfl
  done := nofun
  drawn := nofun

theorem of_refused (ht : e.target? pointer = some (address, node)) (hr : Refuses node) :
    EditOutcome e pointer question Refuses Done (e, ⟨some false, some (question node.name)⟩) := by
  obtain ⟨hp, hn⟩ := target?_eq_some_iff.1 ht
  refine ⟨Or.inr rfl, fun h => by simp [hp] at h, fun other ho => ?_, iff_of_true rfl ?_,
    fun _ => rfl, nofun, nofun⟩
  · rw [hp, Option.some_inj] at ho
    exact ⟨node, ho ▸ hn, rfl⟩
  · intro other m ho hm
    rw [hp, Option.some_inj] at ho
    rw [← ho, hn, Option.some_inj] at hm
    exact hm ▸ hr

theorem of_done (ht : e.target? pointer = some (address, node)) (hr : ¬ Refuses node)
    {m : Editor σ} (hd : Done address node m.diagram) (hs : m.surface = e.surface)
    (htables : m.tables = e.tables) (hz : m.zoom = e.zoom) :
    EditOutcome e pointer question Refuses Done
      (m.redraw, ⟨some true, some (question node.name)⟩) := by
  obtain ⟨hp, hn⟩ := target?_eq_some_iff.1 ht
  refine ⟨Or.inl rfl, fun h => by simp [hp] at h, fun other ho => ?_, iff_of_false nofun ?_, nofun,
    fun _ => ⟨address, node, hp, hn, hd⟩, fun _ => ⟨congrArg m.frame.on hs, htables, hz⟩⟩
  · rw [hp, Option.some_inj] at ho
    exact ⟨node, ho ▸ hn, rfl⟩
  · intro h
    exact hr (h address node hp hn)

end EditOutcome

theorem outcome_delete (h : e.Coherent) (pointer : Point) (confirmed : Bool) :
    EditOutcome e pointer .delete (fun _ => confirmed = false)
      (fun address _ d => Diagram.Loses address e.diagram d) (e.delete pointer confirmed) := by
  cases ht : e.target? pointer with
  | none =>
    simp only [delete, ht]
    exact .of_nothing (hit?_of_target?_eq_none h.wellFormed ht)
  | some target =>
    obtain ⟨address, node⟩ := target
    simp only [delete, ht]
    cases confirmed with
    | false => exact .of_refused ht rfl
    | true =>
      have hn := (target?_eq_some_iff.1 ht).2
      obtain ⟨grip, hg⟩ := quiet_dropLost { e with diagram := e.diagram.remove address }
      rw [if_pos rfl, hg]
      exact .of_done ht Bool.false_ne_true.symm (Diagram.loses_remove h.wellFormed hn) rfl rfl rfl

def Renames (e : Editor σ) (answer : Option String) (address : Address) (node : Node)
    (d : Diagram) : Prop :=
  ∃ name, Names answer node.name name ∧ d.node? address = some { node with name := name } ∧
    Diagram.Changes (fun node => { node with name := name }) address e.diagram d

theorem outcome_rename (h : e.Coherent) (pointer : Point) (answer : Option String) :
    EditOutcome e pointer .rename (fun node => Declined answer node.name) (Renames e answer)
      (e.rename pointer answer) := by
  cases ht : e.target? pointer with
  | none =>
    simp only [rename, ht]
    exact .of_nothing (hit?_of_target?_eq_none h.wellFormed ht)
  | some target =>
    obtain ⟨address, node⟩ := target
    simp only [rename, ht]
    cases hname : newName? node.name answer with
    | none => exact .of_refused ht (newName?_eq_none_iff.1 hname)
    | some name =>
      have hn := (target?_eq_some_iff.1 ht).2
      have hr : ¬ Declined answer node.name := by
        rw [← newName?_eq_none_iff, hname]
        exact Option.some_ne_none name
      refine .of_done ht hr ⟨name, names_of_newName? hname, ?_, ?_⟩ rfl rfl rfl
      · exact Diagram.node?_modify (f := fun node => { node with name := name }) hn fun _ => rfl
      · exact Diagram.changes_modify hn _

/-- A recording counts one more frame after an edit, and none after a refusal. -/
theorem EditOutcome.frames {e : Editor Recording} {pointer : Point}
    {question : String → Question} {Refuses : Node → Prop}
    {Done : Address → Node → Diagram → Prop} {r : Editor Recording × Reply}
    (h : EditOutcome e pointer question Refuses Done r) :
    r.1.surface.frames = e.surface.frames + if r.2.changed = some true then 1 else 0 := by
  obtain hc | hc := h.returns
  · rw [(h.drawn hc).1, frame, Recording.on_frame, if_pos hc]
  · rw [h.refused hc, hc]
    rfl

end Editor

def Event.refused : Event → Bool
  | .delete _ => true
  | .rename _ none => true
  | .rename _ (some name) => (Text.trim name.toList).isEmpty
  | _ => false

namespace Session

variable {σ : Type} [Surface σ]

theorem step_refused (e : Editor σ) (source : String) {event : Event} (h : event.refused = true) :
    ∃ reply, e.step (call source false event) = .ok (e, reply) := by
  have hrename (pointer : Point) {answer : Option String}
      (hd : ∀ current, Declined answer current) :
      ∃ reply, e.step (.rename pointer answer) = .ok (e, reply) := by
    simp only [Editor.step, Editor.rename]
    cases e.target? pointer with
    | none => exact ⟨_, rfl⟩
    | some target =>
      simp only [Editor.newName?_eq_none_iff.2 (hd _)]
      exact ⟨_, rfl⟩
  cases event with
  | delete pointer =>
    simp only [call, Editor.step, Editor.delete]
    cases e.target? pointer with
    | none => exact ⟨_, rfl⟩
    | some target => exact ⟨_, rfl⟩
  | rename pointer name =>
    cases name with
    | none => exact hrename pointer .cancelled
    | some name => exact hrename pointer fun current => .blank current (List.isEmpty_iff.1 h)
  | _ => cases h

/-- Events that are refused can be left out wherever they stand. -/
theorem replay_refused (e : Editor σ) (source : String) (events : List Event) :
    replay e source false (events.filter (!·.refused)) = replay e source false events := by
  simp only [replay]
  induction events generalizing e with
  | nil => rfl
  | cons event events ih =>
    cases h : event.refused with
    | true =>
      obtain ⟨reply, hs⟩ := step_refused e source h
      rw [List.filter_cons_of_neg (by simp [h]), ih, List.map_cons, Editor.run, hs]
    | false =>
      rw [List.filter_cons_of_pos (by simp [h]), List.map_cons, List.map_cons, Editor.run,
        Editor.run]
      cases e.step (call source false event) with
      | error fault => rfl
      | ok r => exact ih r.1

theorem render_refused (settings : Settings) (format : Format) (source : String)
    (events : List Event) : render settings format source false (events.filter (!·.refused)) =
      render settings format source false events := by
  simp only [render, play, replay_refused]

end Session

namespace Editor

/-- After any calls to a new editor, a delete and a rename ask one question if a node is hit, about
its name, and none else. Refused, they leave the editor as it is, surface included; done, they draw
one frame, and the node is gone or has the trimmed answer as its new name. So a session that
declines every delete is the same without its deletes and without its renames to nothing. -/
theorem refused_edits_invisible (settings : Settings) :
    (∀ (σ : Type) [Surface σ] (s : σ) (calls : List Call) (e : Editor σ),
      (start settings s).run calls = .ok e → ∀ pointer,
        (∀ confirmed, EditOutcome e pointer .delete (fun _ => confirmed = false)
          (fun address _ d => Diagram.Loses address e.diagram d) (e.delete pointer confirmed)) ∧
        ∀ answer, EditOutcome e pointer .rename (fun node => Declined answer node.name)
          (Renames e answer) (e.rename pointer answer)) ∧
    (∀ (s : Recording) (calls : List Call) (e : Editor Recording),
      (start settings s).run calls = .ok e → ∀ pointer,
        (∀ confirmed, (e.delete pointer confirmed).1.surface.frames = e.surface.frames +
          if (e.delete pointer confirmed).2.changed = some true then 1 else 0) ∧
        ∀ answer, (e.rename pointer answer).1.surface.frames = e.surface.frames +
          if (e.rename pointer answer).2.changed = some true then 1 else 0) ∧
    ∀ format source events, Session.render settings format source false events =
      Session.render settings format source false (events.filter (!·.refused)) := by
  refine ⟨fun σ _ s calls e hr pointer => ?_, fun s calls e hr pointer => ?_,
    fun format source events => (Session.render_refused settings format source events).symm⟩
  · have hc := (coherent_start settings s).run hr
    exact ⟨outcome_delete hc pointer, outcome_rename hc pointer⟩
  · have hc := (coherent_start settings s).run hr
    constructor
    · exact fun confirmed => (outcome_delete hc pointer confirmed).frames
    · exact fun answer => (outcome_rename hc pointer answer).frames

/-- A declined delete and a blank rename after a drag. -/
theorem refused_edits_invisible_after_drag :
    ∃ e, (start .standard (Recording.blank 800.0 600.0)).run
        [.generate "create table a (id int)", .press ⟨700.0, 300.0⟩, .move ⟨100.0, 100.0⟩] = .ok e ∧
      (e.delete ⟨100.0, 100.0⟩ false).1 = e ∧ (e.rename ⟨100.0, 100.0⟩ (some " \t")).1 = e ∧
      Session.render .standard .text "create table a (id int)" false
          [.delete ⟨700.0, 300.0⟩, .zoom .inwards, .rename ⟨700.0, 300.0⟩ none] =
        Session.render .standard .text "create table a (id int)" false [.zoom .inwards] := by
  have hr : ∃ e, (start .standard (Recording.blank 800.0 600.0)).run
      [.generate "create table a (id int)", .press ⟨700.0, 300.0⟩, .move ⟨100.0, 100.0⟩] =
        .ok e := ⟨_, rfl⟩
  obtain ⟨e, he⟩ := hr
  obtain ⟨hedit, -, hrender⟩ := refused_edits_invisible .standard
  obtain ⟨hdelete, hrename⟩ := hedit Recording _ _ e he ⟨100.0, 100.0⟩
  have hblank : ∀ node : Node, Declined (some " \t") node.name := fun node =>
    .blank node.name (by decide)
  refine ⟨e, he, ?_, ?_, hrender .text _ _⟩
  · exact (hdelete false).refused ((hdelete false).refused_iff.2 fun _ _ _ _ => rfl)
  · exact (hrename _).refused ((hrename _).refused_iff.2 fun _ node _ _ => hblank node)

end Editor

end SchemaSketch
