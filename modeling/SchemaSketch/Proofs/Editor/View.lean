import SchemaSketch.Proofs.Editor.Observation

/-!
The zoom factor as a way to look at a diagram. Runs that differ in nothing but scrolls differ in
nothing but the factor of their last frame, so no call can tell how far a diagram is zoomed.
-/
namespace SchemaSketch

def Call.scrolls : Call → Bool
  | .scroll _ _ => true
  | _ => false

def Call.unscrolled (calls : List Call) : List Call :=
  calls.filter (!·.scrolls)

theorem Call.notch_of_not_scrolls {call : Call} (h : call.scrolls = false) : call.notch = false := by
  cases call with
  | scroll delta modifier => cases h
  | _ => rfl

theorem Call.not_scrolls_of_mem (calls : List Call) :
    ∀ call ∈ unscrolled calls, call.scrolls = false := by
  intro call hc
  simpa using (List.mem_filter.1 hc).2

theorem Call.draws_unscrolled (calls : List Call) :
    (∃ call ∈ unscrolled calls, call.draws = true) ↔ ∃ call ∈ calls, call.draws = true := by
  constructor
  · rintro ⟨call, hc, hd⟩
    exact ⟨call, (List.mem_filter.1 hc).1, hd⟩
  · rintro ⟨call, hc, hd⟩
    refine ⟨call, List.mem_filter.2 ⟨hc, ?_⟩, hd⟩
    cases call with
    | scroll delta modifier => cases hd
    | _ => rfl

namespace Editor

section Extent

variable {e : Editor Extent} {zoom : Float} {call : Call} {calls : List Call}

def atZoom {σ : Type} (e : Editor σ) (zoom : Float) : Editor σ :=
  { e with zoom := zoom }

theorem redraw_extent (e : Editor Extent) : e.redraw = e := by
  rw [redraw, frame, Extent.on_frame]

theorem relayout_atZoom (e : Editor Extent) (zoom : Float) :
    (e.atZoom zoom).relayout = e.relayout.atZoom zoom := by
  rw [relayout, relayout, redraw_extent, redraw_extent]
  rfl

theorem generate_atZoom (e : Editor Extent) (zoom : Float) (source : String) :
    (e.atZoom zoom).generate source = (e.generate source).atZoom zoom :=
  relayout_atZoom { e with tables := Schema.ofText source } zoom

theorem resize_atZoom (e : Editor Extent) (zoom width height : Float) :
    (e.atZoom zoom).resize width height = (e.resize width height).atZoom zoom :=
  relayout_atZoom { e with surface := Surface.resize width height e.surface } zoom

theorem press_atZoom (e : Editor Extent) (zoom : Float) (pointer : Point) :
    (e.atZoom zoom).press pointer = (e.press pointer).atZoom zoom := by
  have ht : (e.atZoom zoom).target? pointer = e.target? pointer := rfl
  rw [press, press, ht]
  cases e.target? pointer <;> rfl

theorem adjust_atZoom (e : Editor Extent) (zoom : Float) (address : Address) (f : Node → Node) :
    (e.atZoom zoom).adjust address f = (e.adjust address f).atZoom zoom := by
  have hd : (e.atZoom zoom).diagram = e.diagram := rfl
  rw [adjust, adjust, redraw_extent, redraw_extent, hd]
  split <;> rfl

theorem move_atZoom (e : Editor Extent) (zoom : Float) (pointer : Point) :
    (e.atZoom zoom).move pointer = (e.move pointer).atZoom zoom := by
  have hg : (e.atZoom zoom).grip = e.grip := rfl
  rw [move, move, hg]
  cases e.grip with
  | idle => rfl
  | dragging address offset => exact adjust_atZoom e zoom address _
  | resizing address offset => exact adjust_atZoom e zoom address _

theorem dropLost_atZoom (e : Editor Extent) (zoom : Float) :
    (e.atZoom zoom).dropLost = e.dropLost.atZoom zoom := by
  have hg : (e.atZoom zoom).grip = e.grip := rfl
  have hd : (e.atZoom zoom).diagram = e.diagram := rfl
  rw [dropLost, dropLost, hg, hd]
  cases e.grip.held? with
  | none => rfl
  | some address =>
    simp only
    split <;> rfl

theorem delete_atZoom (e : Editor Extent) (zoom : Float) (pointer : Point) (confirmed : Bool) :
    (e.atZoom zoom).delete pointer confirmed =
      ((e.delete pointer confirmed).1.atZoom zoom, (e.delete pointer confirmed).2) := by
  have ht : (e.atZoom zoom).target? pointer = e.target? pointer := rfl
  rw [delete, delete, ht]
  cases e.target? pointer with
  | none => rfl
  | some target =>
    cases confirmed with
    | false => rfl
    | true =>
      simp only [redraw_extent, if_true]
      rw [← dropLost_atZoom]
      rfl

theorem rename_atZoom (e : Editor Extent) (zoom : Float) (pointer : Point)
    (answer : Option String) :
    (e.atZoom zoom).rename pointer answer =
      ((e.rename pointer answer).1.atZoom zoom, (e.rename pointer answer).2) := by
  have ht : (e.atZoom zoom).target? pointer = e.target? pointer := rfl
  rw [rename, rename, ht]
  cases e.target? pointer with
  | none => rfl
  | some target =>
    simp only
    cases newName? target.2.name answer with
    | none => rfl
    | some name =>
      simp only [redraw_extent]
      rfl

/-- Nothing but a scroll looks at the zoom factor. -/
theorem step_atZoom (e : Editor Extent) (zoom : Float) (hc : call.scrolls = false) :
    (e.atZoom zoom).step call = (e.step call).map fun r => (r.1.atZoom zoom, r.2) := by
  cases call with
  | generate source =>
    rw [step, generate_atZoom]
    rfl
  | resize width height =>
    rw [step, resize_atZoom]
    rfl
  | press pointer =>
    rw [step, press_atZoom]
    rfl
  | move pointer =>
    rw [step, move_atZoom]
    rfl
  | release => rfl
  | delete pointer confirmed =>
    rw [step, delete_atZoom]
    rfl
  | rename pointer answer =>
    rw [step, rename_atZoom]
    rfl
  | scroll delta modifier => cases hc
  | redraw =>
    rw [step, step, redraw_extent, redraw_extent]
    rfl

/-- A scroll does nothing but set a factor, as long as the bounds leave one. -/
theorem step_scroll (hb : e.settings.interaction.minZoom ≤ e.settings.interaction.maxZoom)
    (hc : call.scrolls = true) : ∃ zoom, e.step call = .ok (e.atZoom zoom, .silent) := by
  cases call with
  | scroll delta modifier =>
    cases hn : (Call.scroll delta modifier).notch with
    | false =>
      refine ⟨e.zoom, ?_⟩
      rw [step, scroll_of_not_notch hn]
      rfl
    | true =>
      simp only [step, scroll_of_notch hn, clampZoom?, if_pos hb, redraw_extent]
      exact ⟨_, rfl⟩
  | _ => cases hc

theorem run_atZoom (e : Editor Extent) (zoom : Float) (hc : ∀ call ∈ calls, call.scrolls = false) :
    (e.atZoom zoom).run calls = (e.run calls).map (·.atZoom zoom) ∧
      (e.atZoom zoom).replies calls = e.replies calls := by
  induction calls generalizing e with
  | nil => exact ⟨rfl, rfl⟩
  | cons call calls ih =>
    rw [List.forall_mem_cons] at hc
    simp only [run, replies, step_atZoom e zoom hc.1]
    cases e.step call with
    | error fault => exact ⟨rfl, rfl⟩
    | ok r =>
      obtain ⟨hr, hs⟩ := ih r.1 hc.2
      exact ⟨hr, congrArg (r.2 :: ·) hs⟩

end Extent

section Replies

variable {σ : Type} [Surface σ] {e e' : Editor σ} {call : Call} {calls : List Call} {reply : Reply}

def unscrolledReplies (e : Editor σ) (calls : List Call) : List Reply :=
  ((calls.zip (e.replies calls)).filter (!·.1.scrolls)).map (·.2)

theorem unscrolledReplies_cons (hs : e.step call = .ok (e', reply)) :
    e.unscrolledReplies (call :: calls) =
      if call.scrolls then e'.unscrolledReplies calls
      else reply :: e'.unscrolledReplies calls := by
  simp only [unscrolledReplies, replies, hs, List.zip_cons_cons, List.filter_cons]
  cases call.scrolls <;> rfl

end Replies

/-- Without its scrolls a run goes the same way, and ends at another factor at most. -/
theorem run_unscrolled {e : Editor Extent}
    (hb : e.settings.interaction.minZoom ≤ e.settings.interaction.maxZoom) (calls : List Call) :
    ∃ m zoom, e.run (Call.unscrolled calls) = .ok m ∧ e.run calls = .ok (m.atZoom zoom) ∧
      e.unscrolledReplies calls = e.replies (Call.unscrolled calls) := by
  induction calls generalizing e with
  | nil => exact ⟨e, e.zoom, rfl, rfl, rfl⟩
  | cons call calls ih =>
    cases hc : call.scrolls with
    | true =>
      obtain ⟨zoom, hs⟩ := step_scroll hb hc
      obtain ⟨m, last, hm, hr, hreplies⟩ := ih (e := e.atZoom zoom) hb
      obtain ⟨hrun, hsame⟩ := run_atZoom e zoom (Call.not_scrolls_of_mem calls)
      have hu : Call.unscrolled (call :: calls) = Call.unscrolled calls :=
        List.filter_cons_of_neg (by simp [hc])
      rw [hrun] at hm
      rw [hu, unscrolledReplies_cons hs, hc, hreplies, hsame, run, hs]
      cases hx : e.run (Call.unscrolled calls) with
      | error fault => rw [hx] at hm; cases hm
      | ok m' =>
        rw [hx] at hm
        cases hm
        exact ⟨m', last, rfl, hr, rfl⟩
    | false =>
      obtain ⟨e', reply, hs, -⟩ := step_of_not_notch e (Call.notch_of_not_scrolls hc)
      have hb' : e'.settings.interaction.minZoom ≤ e'.settings.interaction.maxZoom := by
        rw [settings_step hs]
        exact hb
      obtain ⟨m, last, hm, hr, hreplies⟩ := ih hb'
      have hu : Call.unscrolled (call :: calls) = call :: Call.unscrolled calls :=
        List.filter_cons_of_pos (by simp [hc])
      rw [hu, unscrolledReplies_cons hs, hc, hreplies, run, hs, run, hs, replies, hs]
      exact ⟨m, last, hm, hr, rfl⟩

section Surfaces

variable {σ : Type} [Surface σ]

structure SameButZoom (e e' : Editor σ) : Prop where
  diagram : e'.diagram = e.diagram
  tables : e'.tables = e.tables
  grip : e'.grip = e.grip
  settings : e'.settings = e.settings
  width : Surface.width e'.surface = Surface.width e.surface
  height : Surface.height e'.surface = Surface.height e.surface
  hit : ∀ pointer, e'.diagram.hit? pointer = e.diagram.hit? pointer

/-- Neither run fails, both end with the same but for the factor, and the calls that are no scrolls
give and ask the same. -/
def ViewOnly (settings : Settings) (s : σ) (calls₁ calls₂ : List Call) : Prop :=
  ∃ e₁ e₂, (start settings s).run calls₁ = .ok e₁ ∧ (start settings s).run calls₂ = .ok e₂ ∧
    SameButZoom e₁ e₂ ∧
    (start settings s).unscrolledReplies calls₁ = (start settings s).unscrolledReplies calls₂

variable {settings : Settings} {calls calls₁ calls₂ : List Call}

theorem exists_run_of_bare (hσ : Surface.TakesSize σ) {e : Editor σ} {m : Editor Extent}
    (h : e.bare.run calls = .ok m) : ∃ e', e.run calls = .ok e' ∧ e'.bare = m := by
  rw [(run_bare hσ e calls).1] at h
  cases hr : e.run calls with
  | error fault => rw [hr] at h; cases h
  | ok e' => rw [hr] at h; exact ⟨e', rfl, Except.ok.inj h⟩

theorem SameButZoom.of_bare {e₁ e₂ : Editor σ} {m : Editor Extent} {zoom₁ zoom₂ : Float}
    (h₁ : e₁.bare = m.atZoom zoom₁) (h₂ : e₂.bare = m.atZoom zoom₂) : SameButZoom e₁ e₂ := by
  have h : e₂.bare = e₁.bare.atZoom zoom₂ := by rw [h₁, h₂]; rfl
  have hd : e₂.diagram = e₁.diagram := congrArg (·.diagram) h
  exact ⟨hd, congrArg (·.tables) h, congrArg (·.grip) h, congrArg (·.settings) h,
    congrArg (·.surface.width) h, congrArg (·.surface.height) h, fun pointer => by rw [hd]⟩

theorem viewOnly (hσ : Surface.TakesSize σ)
    (hb : settings.interaction.minZoom ≤ settings.interaction.maxZoom)
    (hc : Call.unscrolled calls₁ = Call.unscrolled calls₂) (s : σ) :
    ViewOnly settings s calls₁ calls₂ := by
  have hstart : ∀ calls, (start settings s).unscrolledReplies calls =
      (start settings s).bare.unscrolledReplies calls := fun calls => by
    rw [unscrolledReplies, unscrolledReplies, (run_bare hσ _ calls).2]
  obtain ⟨m₁, zoom₁, hm₁, hr₁, hs₁⟩ := run_unscrolled (e := (start settings s).bare) hb calls₁
  obtain ⟨m₂, zoom₂, hm₂, hr₂, hs₂⟩ := run_unscrolled (e := (start settings s).bare) hb calls₂
  obtain rfl : m₁ = m₂ := by
    rw [hc, hm₂] at hm₁
    exact (Except.ok.inj hm₁).symm
  obtain ⟨e₁, he₁, hbare₁⟩ := exists_run_of_bare hσ hr₁
  obtain ⟨e₂, he₂, hbare₂⟩ := exists_run_of_bare hσ hr₂
  refine ⟨e₁, e₂, he₁, he₂, .of_bare hbare₁ hbare₂, ?_⟩
  rw [hstart, hstart, hs₁, hs₂, hc]

end Surfaces

/-- The recordings are of one size and hold the same commands but for the factor of the only scope,
which comes right after the clear. -/
def SameButFactor (e₁ e₂ : Editor Recording) : Prop :=
  e₂.surface.width = e₁.surface.width ∧ e₂.surface.height = e₁.surface.height ∧
    ∃ marks : List Mark,
      e₁.surface.commands.toList =
          .clear :: .pushScale e₁.zoom :: (marks.map .mark ++ [.popScale]) ∧
        e₂.surface.commands.toList =
          .clear :: .pushScale e₂.zoom :: (marks.map .mark ++ [.popScale])

theorem commands_of_shows {e : Editor Recording} (h : Shows Recording.renewal e) :
    e.surface.commands.toList = .clear :: .pushScale e.zoom ::
      ((Frame.marks e.settings.drawing.arrowLength e.diagram).map .mark ++ [.popScale]) := by
  have h : e.surface.commands = (e.frame.on (Recording.blank _ _)).commands := h
  rw [h, frame, Recording.on_frame]
  simp

/-- Runs that differ in nothing but scrolls, wherever these are and whatever they turn, end with the
same diagram, tables and grip, and their other calls give and ask the same. Once a frame had to be
drawn, the recordings differ in the factor at most. All this holds after any first calls of such
runs as well, which again differ in nothing but scrolls. -/
theorem zoom_is_view {settings : Settings}
    (hb : settings.interaction.minZoom ≤ settings.interaction.maxZoom) {calls₁ calls₂ : List Call}
    (hc : Call.unscrolled calls₁ = Call.unscrolled calls₂) :
    (∀ s : Recording, ViewOnly settings s calls₁ calls₂) ∧
    (∀ s : TextImage, ViewOnly settings s calls₁ calls₂) ∧
    (∀ s : VectorImage, ViewOnly settings s calls₁ calls₂) ∧
    ((∃ call ∈ calls₁, call.draws = true) → ∀ (s : Recording) (e₁ e₂ : Editor Recording),
      (start settings s).run calls₁ = .ok e₁ → (start settings s).run calls₂ = .ok e₂ →
        SameButFactor e₁ e₂) := by
  refine ⟨viewOnly Recording.kind.takesSize hb hc, viewOnly TextImage.kind.takesSize hb hc,
    viewOnly VectorImage.kind.takesSize hb hc, fun hd₁ s e₁ e₂ hr₁ hr₂ => ?_⟩
  have hd₂ : ∃ call ∈ calls₂, call.draws = true := by
    rw [← Call.draws_unscrolled, ← hc, Call.draws_unscrolled]
    exact hd₁
  obtain ⟨m₁, m₂, hm₁, hm₂, hsame, -⟩ := viewOnly Recording.kind.takesSize hb hc s
  obtain rfl : e₁ = m₁ := Except.ok.inj (hr₁.symm.trans hm₁)
  obtain rfl : e₂ = m₂ := Except.ok.inj (hr₂.symm.trans hm₂)
  refine ⟨hsame.width, hsame.height, Frame.marks e₁.settings.drawing.arrowLength e₁.diagram, ?_, ?_⟩
  · exact commands_of_shows (shows_run Recording.renewal trivial hr₁ (Or.inr hd₁))
  · rw [← hsame.diagram, ← hsame.settings]
    exact commands_of_shows (shows_run Recording.renewal trivial hr₂ (Or.inr hd₂))

/-- Scrolls before the first frame, in the middle of a drag and around a rename. -/
theorem zoom_is_view_in_drag :
    let calls₁ : List Call := [.scroll 1.0 true, .generate "create table a (id int)",
      .press ⟨700.0, 300.0⟩, .scroll (-1.0) true, .scroll 2.0 false, .move ⟨100.0, 100.0⟩,
      .rename ⟨100.0, 100.0⟩ (some "b"), .scroll (-3.0) true]
    let calls₂ : List Call := [.generate "create table a (id int)", .press ⟨700.0, 300.0⟩,
      .move ⟨100.0, 100.0⟩, .scroll 0.0 true, .rename ⟨100.0, 100.0⟩ (some "b")]
    Settings.standard.interaction.minZoom ≤ Settings.standard.interaction.maxZoom ∧
      Call.unscrolled calls₁ = Call.unscrolled calls₂ ∧
      ∃ e₁ e₂, (start .standard (Recording.blank 800.0 600.0)).run calls₁ = .ok e₁ ∧
        (start .standard (Recording.blank 800.0 600.0)).run calls₂ = .ok e₂ ∧
        SameButZoom e₁ e₂ ∧ SameButFactor e₁ e₂ := by
  intro calls₁ calls₂
  have hb : Settings.standard.interaction.minZoom ≤ Settings.standard.interaction.maxZoom := by
    decide
  have hc : Call.unscrolled calls₁ = Call.unscrolled calls₂ := rfl
  obtain ⟨hview, -, -, hcommands⟩ := zoom_is_view hb hc
  obtain ⟨e₁, e₂, hr₁, hr₂, hsame, -⟩ := hview (Recording.blank 800.0 600.0)
  have hd : ∃ call ∈ calls₁, call.draws = true :=
    ⟨_, List.mem_cons_of_mem _ List.mem_cons_self, rfl⟩
  exact ⟨hb, hc, e₁, e₂, hr₁, hr₂, hsame, hcommands hd _ e₁ e₂ hr₁ hr₂⟩

end Editor

end SchemaSketch
