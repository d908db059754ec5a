import SchemaSketch.Editor

/-!
What one call to an editor can do, and how a property of editors passes along a run. A call either
moves the pointer's grip and nothing else, or ends by drawing a frame.
-/
namespace SchemaSketch

def Call.draws : Call → Bool
  | .generate _ | .resize _ _ | .redraw => true
  | _ => false

def Call.source? : Call → Option String
  | .generate source => some source
  | _ => none

namespace Editor

variable {σ : Type} [Surface σ] {e e' : Editor σ}

theorem run_cons {call : Call} {calls : List Call} (hr : e.run (call :: calls) = .ok e') :
    ∃ m reply, e.step call = .ok (m, reply) ∧ m.run calls = .ok e' := by
  simp only [run] at hr
  cases hs : e.step call with
  | error fault => rw [hs] at hr; cases hr
  | ok r =>
    rw [hs] at hr
    exact ⟨r.1, r.2, rfl, hr⟩

/-- What calls of a class keep, a run of such calls keeps. -/
theorem run_preserves_of {P : Editor σ → Prop} {Q : Call → Prop}
    (hstep : ∀ {e e' : Editor σ} {call : Call} {reply : Reply},
      Q call → P e → e.step call = .ok (e', reply) → P e')
    {calls : List Call} (hq : ∀ call ∈ calls, Q call) (h : P e) (hr : e.run calls = .ok e') :
    P e' := by
  induction calls generalizing e with
  | nil =>
    cases hr
    exact h
  | cons call calls ih =>
    rw [List.forall_mem_cons] at hq
    obtain ⟨m, reply, hs, hr⟩ := run_cons hr
    exact ih hq.2 (hstep hq.1 h hs) hr

theorem run_preserves {P : Editor σ → Prop}
    (hstep : ∀ {e e' : Editor σ} {call : Call} {reply : Reply},
      P e → e.step call = .ok (e', reply) → P e')
    {calls : List Call} (h : P e) (hr : e.run calls = .ok e') : P e' :=
  run_preserves_of (Q := fun _ => True) (fun _ h hs => hstep h hs) (fun _ _ => trivial) h hr

/-- What a run starts with goes through if the run does. -/
theorem run_prefix {before calls : List Call} (hp : before <+: calls) (hr : e.run calls = .ok e') :
    ∃ m, e.run before = .ok m := by
  obtain ⟨after, rfl⟩ := hp
  rw [run_append] at hr
  cases hb : e.run before with
  | error fault => rw [hb] at hr; cases hr
  | ok m => exact ⟨m, rfl⟩

inductive Outcome (e : Editor σ) : Call → Editor σ → Prop
  | generate (source : String) : Outcome e (.generate source) (e.generate source)
  | resize (width height : Float) : Outcome e (.resize width height) (e.resize width height)
  | press (pointer : Point) : Outcome e (.press pointer) (e.press pointer)
  | move (pointer : Point) : Outcome e (.move pointer) (e.move pointer)
  | release : Outcome e .release e.release
  | delete (pointer : Point) (confirmed : Bool) :
      Outcome e (.delete pointer confirmed) (e.delete pointer confirmed).1
  | rename (pointer : Point) (answer : Option String) :
      Outcome e (.rename pointer answer) (e.rename pointer answer).1
  | ignored (delta : Float) (modifier : Bool) : Outcome e (.scroll delta modifier) e
  | zoomed (delta : Float) (modifier : Bool) (zoom : Float) :
      Outcome e (.scroll delta modifier) (redraw { e with zoom := zoom })
  | redraw : Outcome e .redraw e.redraw

theorem outcome_of_scroll {delta : Float} {modifier : Bool}
    (hs : e.scroll delta modifier = .ok e') : Outcome e (.scroll delta modifier) e' := by
  unfold scroll at hs
  split at hs
  · cases hs
    exact .ignored delta modifier
  · simp only at hs
    split at hs
    · cases hs
    · cases hs
      exact .zoomed delta modifier _

theorem outcome_of_step {call : Call} {reply : Reply} (hs : e.step call = .ok (e', reply)) :
    Outcome e call e' := by
  cases call with
  | generate source => cases hs; exact .generate source
  | resize width height => cases hs; exact .resize width height
  | press pointer => cases hs; exact .press pointer
  | move pointer => cases hs; exact .move pointer
  | release => cases hs; exact .release
  | delete pointer confirmed =>
    have h := Outcome.delete (e := e) pointer confirmed
    rwa [Except.ok.inj hs] at h
  | rename pointer answer =>
    have h := Outcome.rename (e := e) pointer answer
    rwa [Except.ok.inj hs] at h
  | scroll delta modifier =>
    simp only [step] at hs
    cases hz : e.scroll delta modifier with
    | error fault => rw [hz] at hs; cases hs
    | ok z => rw [hz] at hs; cases hs; exact outcome_of_scroll hz
  | redraw => cases hs; exact .redraw

def Drawn (e e' : Editor σ) : Prop :=
  ∃ m : Editor σ, e' = m.redraw ∧ m.settings = e.settings ∧
    (m.surface = e.surface ∨ ∃ width height, m.surface = Surface.resize width height e.surface)

theorem Drawn.of_redraw {m : Editor σ} (hs : m.settings = e.settings)
    (hf : m.surface = e.surface) : Drawn e m.redraw :=
  ⟨m, rfl, hs, Or.inl hf⟩

theorem drawn_generate (source : String) : Drawn e (e.generate source) :=
  ⟨_, rfl, rfl, Or.inl rfl⟩

theorem drawn_resize (width height : Float) : Drawn e (e.resize width height) :=
  ⟨_, rfl, rfl, Or.inr ⟨width, height, rfl⟩⟩

def Quiet (e e' : Editor σ) : Prop :=
  ∃ grip, e' = { e with grip := grip }

omit [Surface σ] in
theorem Quiet.refl (e : Editor σ) : Quiet e e :=
  ⟨e.grip, rfl⟩

omit [Surface σ] in
theorem quiet_press (pointer : Point) : Quiet e (e.press pointer) := by
  unfold press
  split
  · exact Quiet.refl e
  · exact ⟨_, rfl⟩

theorem adjust_cases (address : Address) (f : Node → Node) :
    Quiet e (e.adjust address f) ∨ Drawn e (e.adjust address f) := by
  unfold adjust
  split
  · exact Or.inr (Drawn.of_redraw rfl rfl)
  · exact Or.inl ⟨.idle, rfl⟩

theorem move_cases (pointer : Point) : Quiet e (e.move pointer) ∨ Drawn e (e.move pointer) := by
  unfold move
  split
  · exact Or.inl (Quiet.refl e)
  · exact adjust_cases _ _
  · exact adjust_cases _ _

omit [Surface σ] in
theorem quiet_dropLost (e : Editor σ) : Quiet e e.dropLost := by
  unfold dropLost
  split
  · exact Quiet.refl e
  · split
    · exact Quiet.refl e
    · exact ⟨.idle, rfl⟩

theorem delete_cases (pointer : Point) (confirmed : Bool) :
    Quiet e (e.delete pointer confirmed).1 ∨ Drawn e (e.delete pointer confirmed).1 := by
  unfold delete
  split
  · exact Or.inl (Quiet.refl e)
  · next address node ht =>
    split
    · obtain ⟨grip, hg⟩ := quiet_dropLost { e with diagram := e.diagram.remove address }
      rw [hg]
      exact Or.inr (Drawn.of_redraw rfl rfl)
    · exact Or.inl (Quiet.refl e)

theorem rename_cases (pointer : Point) (answer : Option String) :
    Quiet e (e.rename pointer answer).1 ∨ Drawn e (e.rename pointer answer).1 := by
  unfold rename
  split
  · exact Or.inl (Quiet.refl e)
  · split
    · exact Or.inl (Quiet.refl e)
    · exact Or.inr (Drawn.of_redraw rfl rfl)

theorem step_cases {call : Call} {reply : Reply} (hs : e.step call = .ok (e', reply)) :
    (Quiet e e' ∧ call.draws = false) ∨ Drawn e e' := by
  cases outcome_of_step hs with
  | generate source => exact Or.inr (drawn_generate source)
  | resize width height => exact Or.inr (drawn_resize width height)
  | press pointer => exact Or.inl ⟨quiet_press pointer, rfl⟩
  | move pointer => exact (move_cases pointer).imp_left (⟨·, rfl⟩)
  | release => exact Or.inl ⟨⟨.idle, rfl⟩, rfl⟩
  | delete pointer confirmed => exact (delete_cases pointer confirmed).imp_left (⟨·, rfl⟩)
  | rename pointer answer => exact (rename_cases pointer answer).imp_left (⟨·, rfl⟩)
  | ignored delta modifier => exact Or.inl ⟨Quiet.refl e, rfl⟩
  | zoomed delta modifier zoom => exact Or.inr (Drawn.of_redraw rfl rfl)
  | redraw => exact Or.inr (Drawn.of_redraw rfl rfl)

structure Edited (e e' : Editor σ) : Prop where
  zoom : e'.zoom = e.zoom
  tables : e'.tables = e.tables

omit [Surface σ] in
theorem Edited.of_quiet (h : Quiet e e') : Edited e e' := by
  obtain ⟨grip, rfl⟩ := h
  exact ⟨rfl, rfl⟩

theorem edited_adjust (address : Address) (f : Node → Node) : Edited e (e.adjust address f) := by
  unfold adjust
  split <;> exact ⟨rfl, rfl⟩

theorem edited_move (pointer : Point) : Edited e (e.move pointer) := by
  unfold move
  split
  · exact ⟨rfl, rfl⟩
  · exact edited_adjust _ _
  · exact edited_adjust _ _

theorem edited_delete (pointer : Point) (confirmed : Bool) :
    Edited e (e.delete pointer confirmed).1 := by
  unfold delete
  split
  · exact ⟨rfl, rfl⟩
  · next address node ht =>
    split
    · have hq := Edited.of_quiet (quiet_dropLost { e with diagram := e.diagram.remove address })
      exact ⟨hq.zoom, hq.tables⟩
    · exact ⟨rfl, rfl⟩

theorem edited_rename (pointer : Point) (answer : Option String) :
    Edited e (e.rename pointer answer).1 := by
  unfold rename
  split
  · exact ⟨rfl, rfl⟩
  · split <;> exact ⟨rfl, rfl⟩

/-- Only `generate` changes the tables. -/
theorem tables_step {call : Call} {reply : Reply} (hs : e.step call = .ok (e', reply)) :
    e'.tables = (call.source?.map Schema.ofText).getD e.tables := by
  cases outcome_of_step hs with
  | generate source | resize width height | release | redraw => rfl
  | press pointer => exact (Edited.of_quiet (quiet_press pointer)).tables
  | move pointer => exact (edited_move pointer).tables
  | delete pointer confirmed => exact (edited_delete pointer confirmed).tables
  | rename pointer answer => exact (edited_rename pointer answer).tables
  | ignored delta modifier | zoomed delta modifier zoom => rfl

end Editor

end SchemaSketch
