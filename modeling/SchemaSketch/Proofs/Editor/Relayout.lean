import SchemaSketch.Proofs.Editor.Locality
import SchemaSketch.Proofs.Editor.Zoom

/-!
What a new layout forgets. Of all that was done before it, only the text that was read last and the
zoom factor are left, and no later call can tell more.
-/
namespace SchemaSketch

def Call.lastSource? (calls : List Call) : Option String :=
  (calls.filterMap Call.source?).getLast?

/-- What a surface is besides its size. Frames and new sizes do not change it, and it is all that a
fresh surface of a given size is made from. -/
structure Renewal.Kind {σ ν : Type} [Surface σ] (R : Renewal σ ν) (κ : Type) where
  kind : σ → κ
  make : κ → Float → Float → σ
  fresh_eq : ∀ s, R.fresh s = make (kind s) (Surface.width s) (Surface.height s)
  kind_resize : ∀ width height s, kind (Surface.resize width height s) = kind s
  kind_frame : ∀ arrowLength zoom d s, kind ((Frame.drawing arrowLength zoom d).on s) = kind s
  width_resize : ∀ width height (s : σ), Surface.width (Surface.resize width height s) = width
  height_resize : ∀ width height (s : σ), Surface.height (Surface.resize width height s) = height
  keepsSize : Surface.KeepsSize σ
  view_resize : ∀ {s t}, R.view s = R.view t → ∀ width height,
    R.view (Surface.resize width height s) = R.view (Surface.resize width height t)

def Recording.kind : Recording.renewal.Kind Unit where
  kind _ := ()
  make _ := blank
  fresh_eq _ := rfl
  kind_resize _ _ _ := rfl
  kind_frame _ _ _ _ := rfl
  width_resize _ _ _ := rfl
  height_resize _ _ _ := rfl
  keepsSize := keepsSize
  view_resize h _ _ := h

def Recording.SameButFrames (s t : Recording) : Prop :=
  t = { s with frames := t.frames }

def TextImage.kind : TextImage.renewal.Kind Float where
  kind := cellSize
  make cellSize width height := blank width height cellSize
  fresh_eq _ := rfl
  kind_resize _ _ _ := rfl
  kind_frame _ _ _ s := (scales_cellSize_on _ s).2
  width_resize _ _ _ := rfl
  height_resize _ _ _ := rfl
  keepsSize := keepsSize
  view_resize {s t} h width height := congrArg (Surface.resize width height) (show s = t from h)

def VectorImage.kind : VectorImage.renewal.Kind Unit where
  kind _ := ()
  make _ := blank
  fresh_eq _ := rfl
  kind_resize _ _ _ := rfl
  kind_frame _ _ _ _ := rfl
  width_resize _ _ _ := rfl
  height_resize _ _ _ := rfl
  keepsSize := keepsSize
  view_resize {s t} h width height := congrArg (Surface.resize width height) (show s = t from h)

namespace Renewal.Kind

variable {σ ν κ : Type} [Surface σ] {R : Renewal σ ν} (K : R.Kind κ) {s t : σ}

structure Kin (s t : σ) : Prop where
  usable_left : R.Usable s
  usable_right : R.Usable t
  kind : K.kind s = K.kind t
  width : Surface.width s = Surface.width t
  height : Surface.height s = Surface.height t

def Same (s t : σ) : Prop :=
  K.Kin s t ∧ R.view s = R.view t

variable {K}

theorem Kin.frame (h : K.Kin s t) (arrowLength zoom : Float) (d : Diagram) :
    K.Same ((Frame.drawing arrowLength zoom d).on s) ((Frame.drawing arrowLength zoom d).on t) := by
  have hs := K.keepsSize arrowLength zoom d s
  have ht := K.keepsSize arrowLength zoom d t
  refine ⟨⟨R.usable_frame h.usable_left _ _ _, R.usable_frame h.usable_right _ _ _, ?_, ?_, ?_⟩, ?_⟩
  · rw [K.kind_frame, K.kind_frame, h.kind]
  · rw [hs.1, ht.1, h.width]
  · rw [hs.2, ht.2, h.height]
  · have hf : R.fresh s = R.fresh t := by
      rw [K.fresh_eq, K.fresh_eq, h.kind, h.width, h.height]
    rw [R.view_frame h.usable_left, R.view_frame h.usable_right, hf]

variable (K) in
theorem kin_resize (hs : R.Usable s) (ht : R.Usable t) (hk : K.kind s = K.kind t)
    (width height : Float) :
    K.Kin (Surface.resize width height s) (Surface.resize width height t) := by
  refine ⟨R.usable_resize hs _ _, R.usable_resize ht _ _, ?_, ?_, ?_⟩
  · rw [K.kind_resize, K.kind_resize, hk]
  · rw [K.width_resize, K.width_resize]
  · rw [K.height_resize, K.height_resize]

variable (K) in
theorem lockstep : Surface.Lockstep K.Same where
  width h := h.1.width.symm
  height h := h.1.height.symm
  resize h _ _ :=
    ⟨K.kin_resize h.1.usable_left h.1.usable_right h.1.kind _ _, K.view_resize h.2 _ _⟩
  frame h _ _ _ := h.1.frame _ _ _

end Renewal.Kind

namespace Editor

variable {σ ν κ : Type} [Surface σ] {R : Renewal σ ν} {K : R.Kind κ} {e e' e₁ e₂ : Editor σ}
  {call : Call} {calls : List Call} {reply : Reply}

theorem kind_step (hs : e.step call = .ok (e', reply)) : K.kind e'.surface = K.kind e.surface := by
  obtain ⟨⟨grip, rfl⟩, -⟩ | ⟨m, rfl, -, hm | ⟨width, height, hm⟩⟩ := step_cases hs
  · rfl
  · exact (K.kind_frame _ _ _ _).trans (congrArg K.kind hm)
  · exact (K.kind_frame _ _ _ _).trans ((congrArg K.kind hm).trans (K.kind_resize _ _ _))

theorem kind_run (hr : e.run calls = .ok e') : K.kind e'.surface = K.kind e.surface :=
  run_preserves (P := fun m => K.kind m.surface = K.kind e.surface)
    (fun h hs => (kind_step hs).trans h) rfl hr

theorem usable_run (hu : R.Usable e.surface) (hr : e.run calls = .ok e') : R.Usable e'.surface :=
  run_preserves (P := fun m => R.Usable m.surface) (usable_step R) hu hr

theorem tables_run (hr : e.run calls = .ok e') :
    e'.tables = ((Call.lastSource? calls).map Schema.ofText).getD e.tables := by
  induction calls generalizing e with
  | nil =>
    cases hr
    rfl
  | cons call calls ih =>
    obtain ⟨m, reply, hs, hr⟩ := run_cons hr
    rw [ih hr, tables_step hs, Call.lastSource?, Call.lastSource?]
    cases hc : call.source? with
    | none => simp [hc]
    | some source =>
      simp only [List.filterMap_cons, hc, List.getLast?_cons, Option.map_some, Option.getD_some]
      cases (calls.filterMap Call.source?).getLast? <;> rfl

def Indistinct (Q : σ → σ → Prop) (e e' : Editor σ) : Prop :=
  ∀ calls, Alike (Agree Q) (e.run calls) (e'.run calls) ∧ e'.replies calls = e.replies calls

theorem Agree.indistinct {Q : σ → σ → Prop} (L : Surface.Lockstep Q) (h : Agree Q e e') :
    Indistinct Q e e' :=
  fun calls => ⟨h.run L calls, h.replies L calls⟩

/-- A new layout looks at the tables, the zoom factor, and the kind and size of the surface. -/
theorem agree_relayout (hk : K.Kin e₁.surface e₂.surface) (hs : e₁.settings = e₂.settings)
    (ht : e₁.tables = e₂.tables) (hz : e₁.zoom = e₂.zoom) :
    Agree K.Same e₁.relayout e₂.relayout := by
  obtain ⟨s, d, tables, grip, zoom, settings⟩ := e₁
  obtain ⟨t, d', tables', grip', zoom', settings'⟩ := e₂
  cases hs
  cases ht
  cases hz
  refine ⟨_, hk.frame _ _ _, ?_⟩
  simp only [relayout, redraw, frame, withSurface, ← hk.width, ← hk.height]

/-- What is left of two runs after a new layout: the text that was read last, unless another text is
read, and the size of the surface, unless it gets a new one. -/
structure Forgets (Q : σ → σ → Prop) (calls₁ calls₂ : List Call) (e₁ e₂ : Editor σ) : Prop where
  resize : Call.lastSource? calls₁ = Call.lastSource? calls₂ → ∀ width height,
    Indistinct Q (e₁.resize width height) (e₂.resize width height)
  generate : Surface.width e₁.surface = Surface.width e₂.surface →
    Surface.height e₁.surface = Surface.height e₂.surface → ∀ source,
    Indistinct Q (e₁.generate source) (e₂.generate source)
  diagram_resize : ∀ width height, (e₁.resize width height).diagram =
    Layout.radial e₁.settings.layout width height
      (((Call.lastSource? calls₁).map Schema.ofText).getD [])

variable {settings : Settings} {s t : σ} {calls₁ calls₂ : List Call}

theorem forgets (hr₁ : (start settings s).run calls₁ = .ok e₁)
    (hr₂ : (start settings t).run calls₂ = .ok e₂) (hs : R.Usable s) (ht : R.Usable t)
    (hk : K.kind s = K.kind t) (hz : e₁.zoom = e₂.zoom) : Forgets K.Same calls₁ calls₂ e₁ e₂ := by
  have hu₁ : R.Usable e₁.surface := usable_run hs hr₁
  have hu₂ : R.Usable e₂.surface := usable_run ht hr₂
  have hk : K.kind e₁.surface = K.kind e₂.surface :=
    (kind_run hr₁).trans (hk.trans (kind_run hr₂).symm)
  have hset : e₁.settings = e₂.settings := (settings_run hr₁).trans (settings_run hr₂).symm
  constructor
  case resize =>
    intro hsource width height
    have htables : e₁.tables = e₂.tables := by
      rw [tables_run hr₁, tables_run hr₂, hsource]
      rfl
    have h : Agree K.Same
        (relayout { e₁ with surface := Surface.resize width height e₁.surface })
        (relayout { e₂ with surface := Surface.resize width height e₂.surface }) :=
      agree_relayout (K.kin_resize hu₁ hu₂ hk width height) hset htables hz
    exact h.indistinct K.lockstep
  case generate =>
    intro hw hh source
    have h : Agree K.Same (relayout { e₁ with tables := Schema.ofText source })
        (relayout { e₂ with tables := Schema.ofText source }) :=
      agree_relayout ⟨hu₁, hu₂, hk, hw, hh⟩ hset rfl hz
    exact h.indistinct K.lockstep
  case diagram_resize =>
    intro width height
    have htables := tables_run hr₁
    simp only [resize, relayout, redraw, K.width_resize, K.height_resize]
    rw [htables]
    rfl

theorem Indistinct.mono {Q Q' : σ → σ → Prop} (hq : ∀ {s t}, Q s t → Q' s t)
    (h : Indistinct Q e e') : Indistinct Q' e e' :=
  fun calls => ⟨(h calls).1.mono fun ⟨t, ht, he⟩ => ⟨t, hq ht, he⟩, (h calls).2⟩

theorem Forgets.mono {Q Q' : σ → σ → Prop} (hq : ∀ {s t}, Q s t → Q' s t)
    (h : Forgets Q calls₁ calls₂ e₁ e₂) : Forgets Q' calls₁ calls₂ e₁ e₂ where
  resize hs width height := (h.resize hs width height).mono hq
  generate hw hh source := (h.generate hw hh source).mono hq
  diagram_resize := h.diagram_resize

/-- Editors with the same settings, on surfaces of one kind, that were brought to the same zoom
factor by any calls and with any answers, are the same to every later call once they have been laid
out anew, in one size if they read the same text last, or from one text if they have one size. On
the character grid and in the vector document everything is the same; a recording may have counted
other frames. -/
theorem relayout_forgets (settings : Settings) (before₁ before₂ : Drawing)
    (width₁ height₁ cellSize₁ width₂ height₂ cellSize₂ : Float) (calls₁ calls₂ : List Call) :
    (∀ e₁ e₂,
      (start settings (before₁.on (Recording.blank width₁ height₁))).run calls₁ = .ok e₁ →
      (start settings (before₂.on (Recording.blank width₂ height₂))).run calls₂ = .ok e₂ →
      e₁.zoom = e₂.zoom → Forgets Recording.SameButFrames calls₁ calls₂ e₁ e₂) ∧
    ((TextImage.blank width₁ height₁ cellSize₁).cellSize =
        (TextImage.blank width₂ height₂ cellSize₂).cellSize → ∀ e₁ e₂,
      (start settings (before₁.on (TextImage.blank width₁ height₁ cellSize₁))).run calls₁ =
        .ok e₁ →
      (start settings (before₂.on (TextImage.blank width₂ height₂ cellSize₂))).run calls₂ =
        .ok e₂ →
      e₁.zoom = e₂.zoom → Forgets Eq calls₁ calls₂ e₁ e₂) ∧
    ∀ e₁ e₂,
      (start settings (before₁.on (VectorImage.blank width₁ height₁))).run calls₁ = .ok e₁ →
      (start settings (before₂.on (VectorImage.blank width₂ height₂))).run calls₂ = .ok e₂ →
      e₁.zoom = e₂.zoom → Forgets Eq calls₁ calls₂ e₁ e₂ := by
  refine ⟨fun e₁ e₂ hr₁ hr₂ hz => ?_, fun hc e₁ e₂ hr₁ hr₂ hz => ?_, fun e₁ e₂ hr₁ hr₂ hz => ?_⟩
  · refine (forgets (K := Recording.kind) hr₁ hr₂ trivial trivial rfl hz).mono fun {s t} h => ?_
    obtain ⟨width, height, commands, frames⟩ := s
    obtain ⟨width', height', commands', frames'⟩ := t
    obtain ⟨⟨-, -, -, hw, hh⟩, hv⟩ := h
    cases hw
    cases hh
    cases hv
    rfl
  · have hu₁ := (TextImage.usable_blank width₁ height₁ cellSize₁).on before₁
    have hu₂ := (TextImage.usable_blank width₂ height₂ cellSize₂).on before₂
    have hk := (TextImage.scales_cellSize_on before₁ _).2.trans
      (hc.trans (TextImage.scales_cellSize_on before₂ _).2.symm)
    exact (forgets (K := TextImage.kind) hr₁ hr₂ hu₁ hu₂ hk hz).mono And.right
  · exact (forgets (K := VectorImage.kind) hr₁ hr₂ trivial trivial rfl hz).mono And.right

/-- A node is deleted before the one layout and renamed before the other. -/
theorem relayout_forgets_delete_and_rename :
    ∃ e₁ e₂,
      (start .standard (TextImage.blank 800.0 600.0 10.0)).run
        [.generate "create table a (id int)", .delete ⟨700.0, 300.0⟩ true] = .ok e₁ ∧
      (start .standard (TextImage.blank 200.0 100.0 10.0)).run
        [.generate "create table b (id int)", .generate "create table a (id int)",
          .rename ⟨150.0, 50.0⟩ (some "c")] = .ok e₂ ∧
      Indistinct Eq (e₁.resize 400.0 400.0) (e₂.resize 400.0 400.0) := by
  have hr₁ : ∃ e, (start .standard (TextImage.blank 800.0 600.0 10.0)).run
      [.generate "create table a (id int)", .delete ⟨700.0, 300.0⟩ true] = .ok e := ⟨_, rfl⟩
  have hr₂ : ∃ e, (start .standard (TextImage.blank 200.0 100.0 10.0)).run
      [.generate "create table b (id int)", .generate "create table a (id int)",
        .rename ⟨150.0, 50.0⟩ (some "c")] = .ok e := ⟨_, rfl⟩
  obtain ⟨e₁, hr₁⟩ := hr₁
  obtain ⟨e₂, hr₂⟩ := hr₂
  have hz₁ : e₁.zoom = 1.0 := zoom_run_of_no_notch (by simp [Call.notch]) hr₁
  have hz₂ : e₂.zoom = 1.0 := zoom_run_of_no_notch (by simp [Call.notch]) hr₂
  have hc : (TextImage.blank 800.0 600.0 10.0).cellSize =
      (TextImage.blank 200.0 100.0 10.0).cellSize := by
    simp only [TextImage.blank]
  have hf := (relayout_forgets .standard .done .done 800.0 600.0 10.0 200.0 100.0 10.0 _ _).2.1
    hc e₁ e₂ hr₁ hr₂ (hz₁.trans hz₂.symm)
  exact ⟨e₁, e₂, hr₁, hr₂, hf.resize rfl 400.0 400.0⟩

end Editor

end SchemaSketch
