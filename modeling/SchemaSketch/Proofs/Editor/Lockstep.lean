import SchemaSketch.Editor

/-!
Editors on two surfaces, call by call. As long as the surfaces report the same size, the editors
keep the same diagram, tables, grip and zoom, give the same replies, and fail together.
-/
namespace SchemaSketch

inductive Alike {ε α β : Type} (Q : α → β → Prop) : Except ε α → Except ε β → Prop
  | error (e : ε) : Alike Q (.error e) (.error e)
  | ok {a : α} {b : β} : Q a b → Alike Q (.ok a) (.ok b)

section Alike

variable {ε α β : Type} {Q : α → β → Prop} {x : Except ε α} {y : Except ε β}

theorem Alike.of_ok {a : α} (h : Alike Q (.ok a) y) : ∃ b, y = .ok b ∧ Q a b := by
  cases h with
  | ok hq => exact ⟨_, rfl, hq⟩

theorem Alike.mono {Q' : α → β → Prop} (hq : ∀ {a b}, Q a b → Q' a b) (h : Alike Q x y) :
    Alike Q' x y := by
  cases h with
  | error e => exact .error e
  | ok h => exact .ok (hq h)

theorem Alike.map_eq {γ : Type} {f : α → γ} {g : β → γ} (h : Alike Q x y)
    (hq : ∀ {a b}, Q a b → g b = f a) : y.map g = x.map f := by
  cases h with
  | error e => rfl
  | ok h => exact congrArg Except.ok (hq h)

end Alike

structure Surface.Lockstep {σ τ : Type} [Surface σ] [Surface τ] (R : σ → τ → Prop) : Prop where
  width : ∀ {s t}, R s t → Surface.width t = Surface.width s
  height : ∀ {s t}, R s t → Surface.height t = Surface.height s
  resize : ∀ {s t}, R s t → ∀ width height,
    R (Surface.resize width height s) (Surface.resize width height t)
  frame : ∀ {s t}, R s t → ∀ arrowLength zoom d,
    R ((Frame.drawing arrowLength zoom d).on s) ((Frame.drawing arrowLength zoom d).on t)

namespace Editor

variable {σ τ : Type}

def withSurface (e : Editor σ) (t : τ) : Editor τ :=
  ⟨t, e.diagram, e.tables, e.grip, e.zoom, e.settings⟩

def Agree (R : σ → τ → Prop) (e : Editor σ) (e' : Editor τ) : Prop :=
  ∃ t, R e.surface t ∧ e' = e.withSurface t

def AgreeAndReply (R : σ → τ → Prop) (x : Editor σ × Reply) (y : Editor τ × Reply) : Prop :=
  Agree R x.1 y.1 ∧ x.2 = y.2

theorem agree_start {R : σ → τ → Prop} {s : σ} {t : τ} (h : R s t) (settings : Settings) :
    Agree R (start settings s) (start settings t) :=
  ⟨t, h, rfl⟩

variable [Surface σ] [Surface τ] {R : σ → τ → Prop} {e : Editor σ} {e' : Editor τ}

namespace Agree

theorem redraw (L : Surface.Lockstep R) (h : Agree R e e') : Agree R e.redraw e'.redraw := by
  obtain ⟨t, ht, rfl⟩ := h
  exact ⟨_, L.frame ht _ _ _, rfl⟩

theorem relayout (L : Surface.Lockstep R) (h : Agree R e e') : Agree R e.relayout e'.relayout := by
  obtain ⟨t, ht, rfl⟩ := h
  refine redraw L ⟨t, ht, ?_⟩
  have hl : Layout.radial e.settings.layout (Surface.width t) (Surface.height t) e.tables =
      Layout.radial e.settings.layout (Surface.width e.surface) (Surface.height e.surface)
        e.tables := by
    rw [L.width ht, L.height ht]
  exact congrArg (fun d => (⟨t, d, e.tables, .idle, e.zoom, e.settings⟩ : Editor τ)) hl

theorem generate (L : Surface.Lockstep R) (h : Agree R e e') (source : String) :
    Agree R (e.generate source) (e'.generate source) := by
  obtain ⟨t, ht, rfl⟩ := h
  exact relayout L ⟨t, ht, rfl⟩

theorem resize (L : Surface.Lockstep R) (h : Agree R e e') (width height : Float) :
    Agree R (e.resize width height) (e'.resize width height) := by
  obtain ⟨t, ht, rfl⟩ := h
  exact relayout L ⟨_, L.resize ht width height, rfl⟩

omit [Surface σ] [Surface τ] in
theorem press (h : Agree R e e') (pointer : Point) :
    Agree R (e.press pointer) (e'.press pointer) := by
  obtain ⟨t, ht, rfl⟩ := h
  have hp : (e.withSurface t).target? pointer = e.target? pointer := rfl
  simp only [Editor.press, hp]
  cases e.target? pointer with
  | none => exact ⟨t, ht, rfl⟩
  | some target => exact ⟨t, ht, rfl⟩

theorem adjust (L : Surface.Lockstep R) (h : Agree R e e') (address : Address) (f : Node → Node) :
    Agree R (e.adjust address f) (e'.adjust address f) := by
  obtain ⟨t, ht, rfl⟩ := h
  have hh : (e.withSurface t).diagram = e.diagram := rfl
  simp only [Editor.adjust, hh]
  split
  · exact redraw L ⟨t, ht, rfl⟩
  · exact ⟨t, ht, rfl⟩

theorem move (L : Surface.Lockstep R) (h : Agree R e e') (pointer : Point) :
    Agree R (e.move pointer) (e'.move pointer) := by
  have hg : e'.grip = e.grip := by
    obtain ⟨t, ht, rfl⟩ := h
    rfl
  simp only [Editor.move, hg]
  cases e.grip with
  | idle => exact h
  | dragging address offset => exact adjust L h address _
  | resizing address offset => exact adjust L h address _

omit [Surface σ] [Surface τ] in
theorem dropLost (h : Agree R e e') : Agree R e.dropLost e'.dropLost := by
  obtain ⟨t, ht, rfl⟩ := h
  have hg : (e.withSurface t).grip = e.grip := rfl
  have hd : (e.withSurface t).diagram = e.diagram := rfl
  simp only [Editor.dropLost, hg, hd]
  cases e.grip.held? with
  | none => exact ⟨t, ht, rfl⟩
  | some address =>
    simp only
    split
    · exact ⟨t, ht, rfl⟩
    · exact ⟨t, ht, rfl⟩

theorem delete (L : Surface.Lockstep R) (h : Agree R e e') (pointer : Point) (confirmed : Bool) :
    AgreeAndReply R (e.delete pointer confirmed) (e'.delete pointer confirmed) := by
  obtain ⟨t, ht, rfl⟩ := h
  have hp : (e.withSurface t).target? pointer = e.target? pointer := rfl
  simp only [Editor.delete, hp]
  cases e.target? pointer with
  | none => exact ⟨⟨t, ht, rfl⟩, rfl⟩
  | some target =>
    cases confirmed with
    | false => exact ⟨⟨t, ht, rfl⟩, rfl⟩
    | true =>
      have hr : Agree R { e with diagram := e.diagram.remove target.1 }
          { e.withSurface t with diagram := e.diagram.remove target.1 } := ⟨t, ht, rfl⟩
      exact ⟨redraw L hr.dropLost, rfl⟩

theorem rename (L : Surface.Lockstep R) (h : Agree R e e') (pointer : Point)
    (answer : Option String) :
    AgreeAndReply R (e.rename pointer answer) (e'.rename pointer answer) := by
  obtain ⟨t, ht, rfl⟩ := h
  have hp : (e.withSurface t).target? pointer = e.target? pointer := rfl
  simp only [Editor.rename, hp]
  cases e.target? pointer with
  | none => exact ⟨⟨t, ht, rfl⟩, rfl⟩
  | some target =>
    simp only
    cases newName? target.2.name answer with
    | none => exact ⟨⟨t, ht, rfl⟩, rfl⟩
    | some name => exact ⟨redraw L ⟨t, ht, rfl⟩, rfl⟩

theorem scroll (L : Surface.Lockstep R) (h : Agree R e e') (delta : Float) (modifier : Bool) :
    Alike (Agree R) (e.scroll delta modifier) (e'.scroll delta modifier) := by
  obtain ⟨t, ht, rfl⟩ := h
  have hz : (e.withSurface t).zoom = e.zoom := rfl
  have hs : (e.withSurface t).settings = e.settings := rfl
  simp only [Editor.scroll, hz, hs]
  split
  · exact .ok ⟨t, ht, rfl⟩
  · cases clampZoom? e.settings.interaction _ with
    | none => exact .error Fault.emptyZoomRange
    | some zoom => exact .ok (redraw L ⟨t, ht, rfl⟩)

/-- One call keeps editors in agreement. -/
theorem step (L : Surface.Lockstep R) (h : Agree R e e') (call : Call) :
    Alike (AgreeAndReply R) (e.step call) (e'.step call) := by
  cases call with
  | generate source => exact .ok ⟨generate L h source, rfl⟩
  | resize width height => exact .ok ⟨resize L h width height, rfl⟩
  | press pointer => exact .ok ⟨press h pointer, rfl⟩
  | move pointer => exact .ok ⟨move L h pointer, rfl⟩
  | release =>
    obtain ⟨t, ht, rfl⟩ := h
    exact .ok ⟨⟨t, ht, rfl⟩, rfl⟩
  | delete pointer confirmed => exact .ok (delete L h pointer confirmed)
  | rename pointer answer => exact .ok (rename L h pointer answer)
  | scroll delta modifier =>
    have hs := scroll L h delta modifier
    simp only [Editor.step]
    generalize e.scroll delta modifier = x at hs
    generalize e'.scroll delta modifier = y at hs
    cases hs with
    | error fault => exact .error fault
    | ok hq => exact .ok ⟨hq, rfl⟩
  | redraw => exact .ok ⟨redraw L h, rfl⟩

theorem run (L : Surface.Lockstep R) (h : Agree R e e') (calls : List Call) :
    Alike (Agree R) (e.run calls) (e'.run calls) := by
  induction calls generalizing e e' with
  | nil => exact .ok h
  | cons call calls ih =>
    have hs := step L h call
    simp only [Editor.run]
    generalize e.step call = x at hs
    generalize e'.step call = y at hs
    cases hs with
    | error fault => exact .error fault
    | ok hq => exact ih hq.1

theorem replies (L : Surface.Lockstep R) (h : Agree R e e') (calls : List Call) :
    e'.replies calls = e.replies calls := by
  induction calls generalizing e e' with
  | nil => rfl
  | cons call calls ih =>
    have hs := step L h call
    simp only [Editor.replies]
    generalize e.step call = x at hs
    generalize e'.step call = y at hs
    cases hs with
    | error fault => rfl
    | ok hq =>
      simp only [hq.2]
      rw [ih hq.1]

end Agree

end Editor

end SchemaSketch
