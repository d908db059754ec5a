import SchemaSketch.Proofs.Diagram.Names
import SchemaSketch.Proofs.Editor.Locality
import SchemaSketch.Proofs.Surface.Shape

/-!
Names that editors come to hold. They are read out of texts and given in renames, and what holds of
all of these holds of every name in the diagram. If none of them breaks a line, no label does, and a
text image keeps its shape.
-/
namespace SchemaSketch

def Unbroken (text : String) : Prop :=
  '\n' ∉ text.toList

def Call.Brings (P : String → Prop) : Call → Prop
  | .generate source => ∀ table ∈ Schema.ofText source, table.Named P
  | .rename _ (some answer) => P (String.ofList (Text.trim answer.toList))
  | _ => True

def Call.Gives (P : String → Prop) : Call → Prop
  | .generate source => ∀ table ∈ Schema.ofText source, table.Named P
  | .rename _ answer => ∀ current name, Editor.newName? current answer = some name → P name
  | _ => True

namespace Editor

section Names

variable {σ : Type} {P : String → Prop} {e e' : Editor σ} {call : Call} {reply : Reply}

structure Named (P : String → Prop) (e : Editor σ) : Prop where
  tables : ∀ table ∈ e.tables, table.Named P
  diagram : e.diagram.Named P

theorem named_start (settings : Settings) (s : σ) : (start settings s).Named P :=
  ⟨nofun, Diagram.named_empty⟩

theorem brought_of_newName? {pointer : Point} {answer : Option String} {current name : String}
    (hb : (Call.rename pointer answer).Brings P) (h : newName? current answer = some name) :
    P name := by
  cases answer with
  | none => cases h
  | some answer =>
    rw [newName?] at h
    split at h
    · cases h
    · cases h
      exact hb

theorem gives_of_brings (hb : call.Brings P) : call.Gives P := by
  cases call with
  | generate source => exact hb
  | rename pointer answer => exact fun _ _ => brought_of_newName? hb
  | _ => trivial

theorem Effect.named {d : Diagram} (heff : Effect e call d) (h : e.diagram.Named P)
    (hg : call.Gives P) : d.Named P := by
  cases heff with
  | moveDragging pointer _ hc => exact hc.named h fun _ hn => hn
  | moveResizing pointer _ hc => exact hc.named h fun _ hn => hn
  | rename pointer answer _ _ hname hc =>
    exact hc.named h fun _ _ => hg _ _ hname
  | delete pointer _ hl => exact hl.named h
  | _ => exact h

variable [Surface σ]

theorem Named.step (hσ : Surface.KeepsSize σ) (hc : e.Coherent) (h : e.Named P)
    (hg : call.Gives P) (hs : e.step call = .ok (e', reply)) : e'.Named P := by
  have htables : ∀ table ∈ e'.tables, table.Named P := by
    rw [tables_step hs]
    cases call with
    | generate source => exact hg
    | _ => exact h.tables
  refine ⟨htables, ?_⟩
  cases hl : call.laysOut with
  | false => exact (hc.editsLocally hσ call e' reply hl hs).1.named h.diagram hg
  | true =>
    cases call with
    | generate source | resize width height =>
      cases hs
      exact Layout.named_radial _ _ _ htables
    | _ => cases hl

end Names

end Editor

namespace TextImage

variable {s : TextImage} {d : Diagram}

theorem no_line_feed_ink {m : Mark}
    (h : ∀ position label, m = .text position label → Unbroken label) : '\n' ∉ ink m := by
  cases m with
  | text position label => exact List.not_mem_cons_of_ne_of_not_mem (by decide) (h _ _ rfl)
  | _ => simp [ink]

/-- While a frame is drawn, the image is in shape after each of its marks. -/
theorem shaped_marks (arrowLength zoom : Float) (hd : d.Named Unbroken) (s : TextImage)
    {marks : List Mark} (hm : marks <+: Frame.marks arrowLength d) :
    (marks.foldl (fun s m => Surface.put m s)
      (Surface.openScope zoom (Surface.clear s))).Shaped := by
  have hclear := shaped_clear s
  have hopen : (Surface.openScope zoom (Surface.clear s)).Shaped :=
    ⟨hclear.sized, hclear.columns_eq, hclear.unbroken⟩
  refine List.foldlRecOn marks _ hopen fun t ht m hmem => ht.put (no_line_feed_ink ?_)
  rintro position label rfl
  exact Frame.label_named hd (hm.subset hmem)

theorem shaped_frame (arrowLength zoom : Float) (hd : d.Named Unbroken) (s : TextImage) :
    ((Frame.drawing arrowLength zoom d).on s).Shaped := by
  have h := shaped_marks arrowLength zoom hd s (List.prefix_refl _)
  rw [Frame.on_drawing]
  exact ⟨h.sized, h.columns_eq, h.unbroken⟩

end TextImage

namespace Editor

variable {e e' : Editor TextImage} {call : Call} {calls : List Call} {reply : Reply}

structure Tidy (e : Editor TextImage) : Prop where
  coherent : e.Coherent
  named : e.Named Unbroken
  shaped : e.surface.Shaped

theorem tidy_start (settings : Settings) {s : TextImage} (h : s.Shaped) :
    (start settings s).Tidy :=
  ⟨coherent_start settings s, named_start settings s, h⟩

theorem Tidy.step (h : e.Tidy) (hb : call.Brings Unbroken)
    (hs : e.step call = .ok (e', reply)) : e'.Tidy := by
  have hn := h.named.step TextImage.keepsSize h.coherent (gives_of_brings hb) hs
  refine ⟨h.coherent.step hs, hn, ?_⟩
  obtain ⟨⟨grip, rfl⟩, -⟩ | ⟨m, rfl, -⟩ := step_cases hs
  · exact h.shaped
  · exact TextImage.shaped_frame _ _ hn.diagram m.surface

theorem Tidy.run (h : e.Tidy) (hb : ∀ call ∈ calls, call.Brings Unbroken)
    (hr : e.run calls = .ok e') : e'.Tidy :=
  run_preserves_of (fun hb h hs => h.step hb hs) hb h hr

end Editor

end SchemaSketch
