import SchemaSketch.Proofs.Editor.Display
import SchemaSketch.Proofs.Editor.Labels
import SchemaSketch.Proofs.Editor.Refusal
import SchemaSketch.Proofs.Schema.Orderly
import SchemaSketch.Proofs.Text.Lines

/-!
Renames that are taken back. Every name that an editor comes to hold is one that a rename can give,
so a node can always have its former name again, and with it everything is as it was before.
-/
namespace SchemaSketch

open Text

structure Neat (name : String) : Prop where
  nonempty : name.toList ≠ []
  front : Stops isSpace name.toList
  back : Stops isSpace name.toList.reverse

theorem Neat.trim_eq {name : String} (h : Neat name) :
    String.ofList (trim name.toList) = name := by
  have hnil : [] ∈ zeroOrMore isSpace := nofun
  have ht := trim_of_stops hnil hnil h.nonempty h.front h.back
  rw [List.nil_append, List.append_nil] at ht
  rw [ht, String.ofList_toList]

theorem neat_trim {s : List Char} (h : trim s ≠ []) : Neat (String.ofList (trim s)) := by
  constructor <;> rw [String.toList_ofList]
  · exact h
  · exact stops_trim s
  · exact stops_reverse_trim s

theorem Schema.IsWord.neat {name : String} (h : IsWord name.toList) : Neat name :=
  ⟨h.1, stops_of_forall fun c hc => (h.2 c hc).1,
    stops_of_forall fun c hc => (h.2 c (List.mem_reverse.1 hc)).1⟩

/-- Neither a text nor an answer gives a node another name. -/
theorem Call.gives_neat (call : Call) : call.Gives Neat := by
  cases call with
  | generate source =>
    intro table ht
    have h := Schema.orderly_of_mem_ofText source table ht
    exact ⟨h.name.neat, fun column hc => (h.columns column hc).name.neat⟩
  | rename pointer answer =>
    intro current name hn
    cases answer with
    | none => cases hn
    | some text =>
      rw [Editor.newName?] at hn
      split at hn
      · cases hn
      · next h =>
        cases hn
        refine neat_trim fun hempty => h (Or.inl ?_)
        rw [hempty, String.ofList_nil]
  | _ => trivial

def Node.named (name : String) (node : Node) : Node :=
  { node with name := name }

namespace Editor

variable {σ ν : Type} [Surface σ] {R : Renewal σ ν} {e e' : Editor σ} {pointer : Point}
  {address : Address} {node : Node} {name : String}

theorem newName?_neat {current : String} (h : Neat name) (hn : name ≠ current) :
    newName? current (some name) = some name := by
  have hempty : name ≠ "" := by
    rintro rfl
    exact h.nonempty rfl
  rw [newName?, h.trim_eq, if_neg (not_or.2 ⟨hempty, hn⟩)]

theorem newName?_self (h : Neat name) : newName? name (some name) = none := by
  rw [newName?, h.trim_eq, if_pos (Or.inr rfl)]

theorem rename_of_refused (ht : e.target? pointer = some (address, node)) {answer : Option String}
    (hn : newName? node.name answer = none) : (e.rename pointer answer).1 = e := by
  simp only [rename, ht, hn]

theorem rename_of_named (ht : e.target? pointer = some (address, node)) {answer : Option String}
    (hn : newName? node.name answer = some name) :
    (e.rename pointer answer).1 =
      redraw { e with diagram := e.diagram.modify address (Node.named name) } := by
  simp only [rename, ht, hn]
  rfl

omit [Surface σ] in
/-- A pointer hits the same node under its new name. -/
theorem target?_renamed {m : Editor σ} (ht : e.target? pointer = some (address, node))
    (hm : m.diagram = e.diagram.modify address (Node.named name)) :
    m.target? pointer = some (address, node.named name) := by
  obtain ⟨hp, hn⟩ := target?_eq_some_iff.1 ht
  have hc := Diagram.changes_modify hn (Node.named name)
  rw [target?_eq_some_iff, hm]
  refine ⟨?_, Diagram.node?_modify hn fun _ => rfl⟩
  exact (hc.hit?_eq (fun _ => rfl) fun _ => rfl).trans hp

/-- The second rename undoes the first but for the frames that both have drawn. -/
theorem rename_back (ht : e.target? pointer = some (address, node)) {answer : Option String}
    (hn : newName? node.name answer = some name) (hneat : Neat node.name) :
    ((e.rename pointer answer).1.rename pointer (some node.name)).1 =
      redraw { e with surface :=
        (redraw { e with diagram := e.diagram.modify address (Node.named name) }).surface } := by
  have hnode := (target?_eq_some_iff.1 ht).2
  have hback : (e.diagram.modify address (Node.named name)).modify address
      (Node.named node.name) = e.diagram := by
    rw [Diagram.modify_modify _ _ (f := Node.named name) fun _ => rfl]
    exact Diagram.modify_of_fixed hnode rfl
  obtain ⟨-, -, -, hne⟩ := names_of_newName? hn
  rw [rename_of_named ht hn]
  have hname : newName? (node.named name).name (some node.name) = some node.name :=
    newName?_neat hneat hne.symm
  rw [rename_of_named (target?_renamed ht rfl) hname]
  exact congrArg (fun d => redraw { e with
    surface := (redraw { e with diagram := e.diagram.modify address (Node.named name) }).surface
    diagram := d }) hback

def Restored (R : Renewal σ ν) (e e' : Editor σ) : Prop :=
  ∃ s, e' = { e with surface := s } ∧ R.view s = R.view e.surface ∧ R.fresh s = R.fresh e.surface

theorem Restored.refl (R : Renewal σ ν) (e : Editor σ) : Restored R e e :=
  ⟨e.surface, rfl, rfl, rfl⟩

/-- Any rename of a node that is hit, followed by a rename to the name it had, leads to such an
editor. -/
def UndoesRenames (e : Editor σ) (Same : Editor σ → Prop) : Prop :=
  ∀ pointer address, e.diagram.hit? pointer = some address →
    ∃ node, e.diagram.node? address = some node ∧
      ∀ answer, Same ((e.rename pointer answer).1.rename pointer (some node.name)).1

theorem UndoesRenames.mono {Same Same' : Editor σ → Prop} (h : e.UndoesRenames Same)
    (hs : ∀ e', Same e' → Same' e') : e.UndoesRenames Same' := by
  intro pointer address hp
  obtain ⟨node, hn, hback⟩ := h pointer address hp
  exact ⟨node, hn, fun answer => hs _ (hback answer)⟩

structure Restorable (R : Renewal σ ν) (e : Editor σ) : Prop where
  coherent : e.Coherent
  named : e.Named Neat
  usable : R.Usable e.surface
  shown : Shown R e

theorem restorable_run (hσ : Surface.KeepsSize σ) {settings : Settings} {s : σ}
    {calls : List Call} (hu : R.Usable s) (hr : (start settings s).run calls = .ok e) :
    Restorable R e := by
  have hnamed : e.Coherent ∧ e.Named Neat :=
    run_preserves (P := fun m => m.Coherent ∧ m.Named Neat)
      (fun h hs => ⟨h.1.step hs, h.2.step hσ h.1 (Call.gives_neat _) hs⟩)
      ⟨coherent_start settings s, named_start settings s⟩ hr
  obtain ⟨husable, hshown⟩ := shown_run R hu hr
  exact ⟨hnamed.1, hnamed.2, husable, hshown⟩

theorem Restorable.undoesRenames (h : Restorable R e) : e.UndoesRenames (Restored R e) := by
  intro pointer address hp
  obtain ⟨node, hn⟩ := h.coherent.wellFormed.node?_of_hit? hp
  have ht : e.target? pointer = some (address, node) := target?_eq_some_iff.2 ⟨hp, hn⟩
  have hneat : Neat node.name := by
    obtain ⟨n, hmem, rfl⟩ := Option.map_eq_some_iff.1 hp
    obtain rfl : n.2 = node := by
      simpa [h.coherent.wellFormed.node?_of_mem (List.mem_of_find?_eq_some hmem)] using hn
    exact h.named.diagram n (List.mem_of_find?_eq_some hmem)
  refine ⟨node, hn, fun answer => ?_⟩
  cases hname : newName? node.name answer with
  | none =>
    rw [rename_of_refused ht hname, rename_of_refused ht (newName?_self hneat)]
    exact .refl R e
  | some name =>
    rw [rename_back ht hname hneat]
    have hshows : Shows R e := h.shown.of_hit? hp
    set m := redraw { e with diagram := e.diagram.modify address (Node.named name) }
    have hm : R.Usable m.surface := R.usable_frame h.usable _ _ _
    have hfresh : R.fresh m.surface = R.fresh e.surface := R.fresh_frame h.usable _ _ _
    refine ⟨e.frame.on m.surface, rfl, ?_, ?_⟩
    · rw [hshows, ← hfresh]
      exact R.view_frame hm _ _ _
    · rw [← hfresh]
      exact R.fresh_frame hm _ _ _

/-- After any calls to a new editor all names are neat, so that a rename can give each of them. A
rename of a node that is hit, to whatever answer, and a rename back to its former name then leave
the editor as it was, with its diagram, grip, zoom and drawing. Only a recording counts the frames
that were drawn in between. -/
theorem renames_undone_after_run (settings : Settings) (before : Drawing)
    (width height cellSize : Float) (calls : List Call) :
    (∀ (σ ν : Type) [Surface σ] (R : Renewal σ ν) (e : Editor σ), Restorable R e →
      e.UndoesRenames (Restored R e)) ∧
    (∀ e, (start settings (before.on (Recording.blank width height))).run calls = .ok e →
      e.diagram.Named Neat ∧ e.UndoesRenames fun e' => ∃ frames,
        e' = { e with surface := { e.surface with frames := frames } }) ∧
    (∀ e, (start settings (before.on (TextImage.blank width height cellSize))).run calls =
      .ok e → e.diagram.Named Neat ∧ e.UndoesRenames fun e' => e' = e) ∧
    ∀ e, (start settings (before.on (VectorImage.blank width height))).run calls =
      .ok e → e.diagram.Named Neat ∧ e.UndoesRenames fun e' => e' = e := by
  refine ⟨fun σ ν _ R e h => h.undoesRenames, fun e hr => ?_, fun e hr => ?_, fun e hr => ?_⟩
  · have h := restorable_run (R := Recording.renewal) Recording.keepsSize trivial hr
    refine ⟨h.named.diagram, h.undoesRenames.mono ?_⟩
    rintro e' ⟨⟨width, height, commands, frames⟩, rfl, hcommands, hsize⟩
    obtain ⟨rfl, rfl, -⟩ := Recording.mk.inj hsize
    obtain rfl : commands = e.surface.commands := hcommands
    exact ⟨frames, rfl⟩
  · have hu : TextImage.renewal.Usable (before.on (TextImage.blank width height cellSize)) :=
      (TextImage.usable_blank width height cellSize).on before
    have h := restorable_run TextImage.keepsSize hu hr
    refine ⟨h.named.diagram, h.undoesRenames.mono ?_⟩
    rintro e' ⟨s, rfl, hs, -⟩
    exact congrArg (Editor.mk · _ _ _ _ _) hs
  · have h := restorable_run (R := VectorImage.renewal) VectorImage.keepsSize trivial hr
    refine ⟨h.named.diagram, h.undoesRenames.mono ?_⟩
    rintro e' ⟨s, rfl, hs, -⟩
    exact congrArg (Editor.mk · _ _ _ _ _) hs

/-- For a while an entity has the name of another one, to which a foreign key of its own leads. -/
theorem renames_undone_after_collision :
    let d : Diagram := ⟨[⟨⟨0, "a", ⟨100.0, 100.0⟩, 40.0⟩,
        [⟨⟨1, "id", ⟨200.0, 100.0⟩, 20.0⟩, "int", true, 0⟩], [⟨"id", "b", "c"⟩]⟩,
      ⟨⟨2, "b", ⟨400.0, 400.0⟩, 40.0⟩, [], []⟩], 3⟩
    let e : Editor Recording := redraw ⟨Recording.blank 800.0 600.0, d, [], .idle, 1.0, .standard⟩
    Restored Recording.renewal e
        ((e.rename ⟨100.0, 100.0⟩ (some " b ")).1.rename ⟨100.0, 100.0⟩ (some "a")).1 ∧
      ∃ m, (start .standard (TextImage.blank 800.0 600.0 10.0)).run
          [.generate "create table a (id int)", .rename ⟨700.0, 300.0⟩ (some " "),
            .resize 400.0 400.0] = .ok m ∧
        m.diagram.Named Neat ∧ m.UndoesRenames fun m' => m' = m := by
  intro d e
  have ha : Neat "a" := ⟨by decide, stops_cons rfl, stops_cons rfl⟩
  have hid : Neat "id" := ⟨by decide, stops_cons rfl, stops_cons rfl⟩
  have hb : Neat "b" := ⟨by decide, stops_cons rfl, stops_cons rfl⟩
  have hnamed : d.Named Neat := by simp [Diagram.named_iff, d, ha, hid, hb]
  have he : Restorable Recording.renewal e :=
    ⟨⟨⟨by decide, by decide⟩, nofun⟩, ⟨nofun, hnamed⟩, trivial,
      Or.inr (shows_redraw Recording.renewal trivial).2⟩
  have hr : ∃ m, (start .standard (TextImage.blank 800.0 600.0 10.0)).run
      [.generate "create table a (id int)", .rename ⟨700.0, 300.0⟩ (some " "),
        .resize 400.0 400.0] = .ok m := ⟨_, rfl⟩
  obtain ⟨m, hm⟩ := hr
  have h := renames_undone_after_run .standard .done 800.0 600.0 10.0
  obtain ⟨node, hnode, hback⟩ := (h []).1 _ _ _ e he ⟨100.0, 100.0⟩ (.ofEntity 0) (by decide)
  obtain rfl : ⟨0, "a", ⟨100.0, 100.0⟩, 40.0⟩ = node := Option.some.inj hnode
  exact ⟨hback _, m, hm, (h _).2.2.1 m hm⟩

end Editor

end SchemaSketch
