import SchemaSketch.Proofs.CommandLine.Gathering

/-!
A run of the command does all or nothing. If it fails, nothing is printed and no file is changed; if
it succeeds, the result of the session goes to one place and nothing else is changed.
-/
namespace SchemaSketch.CommandLine

theorem Ending.code_eq_zero_iff {e : Ending} : e.code = 0 ↔ e = .done := by
  cases e <;> simp [Ending.code]

def session (o : Options) (settings : Settings) (source : String) (events : List Event) :
    Except Fault String :=
  Session.render
    { settings with canvas :=
      ⟨o.width.getD settings.canvas.width, o.height.getD settings.canvas.height⟩ }
    (o.format.getD .vector) source (o.yes || settings.interaction.confirmDeletes) events

namespace System

variable {σ File : Type} [DecidableEq File] {S : System σ File}

section Drawing

variable {s s' : σ} {o : Options} {settings : Settings} {source : String} {events : List Event}

variable (S) in
def finish (o : Options) : Except Fault String → StateM σ Outcome
  | .error fault => pure (.silent (.crashed fault))
  | .ok result => deliver S.world o result

theorem Lawful.draw_of_gathers (hS : S.Lawful) (h : S.Gathers s o settings source events s') :
    (draw S.world o).run s = (S.finish o (session o settings source events)).run s' := by
  obtain ⟨s₁, s₂, hl, hs, he⟩ := hS.gathers_iff.1 h
  refine run_bind_eq_iff.2 ⟨_, _, hl, ?_⟩
  refine run_bind_eq_iff.2 ⟨_, _, hs, ?_⟩
  refine run_bind_eq_iff.2 ⟨_, _, he, ?_⟩
  have hr : Session.render (o.override settings) (o.format.getD .vector) source
      (o.yes || (o.override settings).interaction.confirmDeletes) events =
        session o settings source events := rfl
  dsimp only
  rw [hr]
  cases session o settings source events <;> rfl

/-- When something cannot be read, the run fails and has written nothing. -/
theorem Lawful.draw_of_not_gathers (hS : S.Lawful)
    (h : ∀ settings source events s', ¬ S.Gathers s o settings source events s') :
    ∃ problem s', (draw S.world o).run s = (.silent (.failed problem), s') ∧
      S.Untouched s s' := by
  cases hl : (loadSettings S.world o.settings).run s with
  | mk loaded s₁ =>
  have hu₁ := (hS.reads_loadSettings o.settings).untouched hl
  cases loaded with
  | error problem => exact ⟨problem, s₁, run_bind_eq_iff.2 ⟨_, _, hl, rfl⟩, hu₁⟩
  | ok settings =>
  cases hs : (readSource S.world o).run s₁ with
  | mk read s₂ =>
  have hu₂ := hu₁.trans ((hS.reads_readSource o).untouched hs)
  cases read with
  | none =>
    refine ⟨.file, s₂, run_bind_eq_iff.2 ⟨_, _, hl, run_bind_eq_iff.2 ⟨_, _, hs, rfl⟩⟩, hu₂⟩
  | some source =>
  cases he : (readEvents S.world o).run s₂ with
  | mk played s₃ =>
  have hu₃ := hu₂.trans ((hS.reads_readEvents o).untouched he)
  cases played with
  | error problem =>
    refine ⟨problem, s₃, run_bind_eq_iff.2 ⟨_, _, hl, run_bind_eq_iff.2 ⟨_, _, hs, ?_⟩⟩, hu₃⟩
    exact run_bind_eq_iff.2 ⟨_, _, he, rfl⟩
  | ok events =>
    exact absurd (hS.gathers_iff.2 ⟨s₁, s₂, hl, hs, he⟩) (h settings source events s₃)

end Drawing

section Delivery

variable {s s' : σ} {o : Options} {result : String}

variable (S) in
/-- The result went where the options say: to the output, with a line feed behind it, or to the file
that the path leads to and to no other. Paths that lead to no file are left out. -/
structure Delivered (s s' : σ) (path : Option String) (result printed : String) : Prop where
  shown : path = none → printed = result ++ "\n" ∧ S.Untouched s s'
  silent : path ≠ none → printed = ""
  written {p : String} {f : File} : path = some p → (S.files s).at? p = some f →
    S.files s' = (S.files s).put f result ∧ S.output s' = S.output s

variable (S) in
def Takes (s : σ) (path : Option String) (result : String) : Prop :=
  ∀ p, path = some p → ∃ s', (S.world.write p result).run s = (true, s')

theorem Lawful.deliver_cases (hS : S.Lawful) (s : σ) (o : Options) (result : String) :
    (¬ S.Takes s o.output result ∧ ∃ s',
        (deliver S.world o result).run s = (.silent (.failed .file), s') ∧ S.Untouched s s') ∨
      ∃ printed s', (deliver S.world o result).run s = (⟨.done, printed⟩, s') ∧
        S.Delivered s s' o.output result printed := by
  unfold deliver
  cases o.output with
  | none =>
    refine Or.inr ⟨result ++ "\n", s, rfl, fun _ => ⟨rfl, rfl, rfl⟩, fun h => ?_, fun h => ?_⟩
    · exact absurd rfl h
    · cases h
  | some path =>
    cases hw : (S.world.write path result).run s with
    | mk written s' =>
    cases written with
    | true =>
      refine Or.inr ⟨"", s', run_bind_eq_iff.2 ⟨true, s', hw, rfl⟩, fun h => ?_, fun _ => rfl,
        fun hp hf => ?_⟩
      · cases h
      · cases hp
        exact hS.write hf hw
    | false =>
      refine Or.inl ⟨fun ht => ?_, s', run_bind_eq_iff.2 ⟨false, s', hw, rfl⟩, hS.writeFails hw⟩
      obtain ⟨s'', h⟩ := ht path rfl
      rw [hw] at h
      cases h

theorem Delivered.of_untouched {s₁ : σ} {path : Option String} {printed : String}
    (hu : S.Untouched s s₁) (h : S.Delivered s₁ s' path result printed) :
    S.Delivered s s' path result printed := by
  refine ⟨fun hp => ?_, h.silent, fun hp hf => ?_⟩
  · obtain ⟨hr, hs⟩ := h.shown hp
    exact ⟨hr, hu.trans hs⟩
  · rw [← hu.1] at hf ⊢
    rw [← hu.2]
    exact h.written hp hf

end Delivery

section Runs

variable {s s' : σ} {args : List String} {o : Options} {result : String} {outcome : Outcome}

variable (S) in
def Draws (s : σ) (args : List String) (o : Options) (result : String) (s' : σ) : Prop :=
  request args = .draw o ∧ ∃ settings source events,
    S.Gathers s o settings source events s' ∧ session o settings source events = .ok result

theorem Lawful.run_of_draws (hS : S.Lawful) (hd : S.Draws s args o result s') :
    (run S.world args).run s = (deliver S.world o result).run s' := by
  obtain ⟨ha, settings, source, events, hg, hs⟩ := hd
  have hdraw := hS.draw_of_gathers hg
  rw [hs] at hdraw
  rw [run, ha]
  exact hdraw

theorem Lawful.untouched_of_draws (hS : S.Lawful) (hd : S.Draws s args o result s') :
    S.Untouched s s' := by
  obtain ⟨-, settings, source, events, hg, -⟩ := hd
  exact hS.untouched_of_gathers hg

theorem Lawful.run_of_not_draws (hS : S.Lawful) (h : request args ≠ .help)
    (hd : ∀ o result s', ¬ S.Draws s args o result s') :
    ∃ e s', e ≠ .done ∧ (run S.world args).run s = (.silent e, s') ∧ S.Untouched s s' := by
  cases ha : request args with
  | help => exact absurd ha h
  | misuse =>
    rw [run, ha]
    exact ⟨.misuse, s, by simp, rfl, rfl, rfl⟩
  | draw o =>
    rw [run, ha]
    by_cases hg : ∃ settings source events s', S.Gathers s o settings source events s'
    · obtain ⟨settings, source, events, s', hg⟩ := hg
      have hdraw := hS.draw_of_gathers hg
      cases hs : session o settings source events with
      | error fault =>
        rw [hs] at hdraw
        exact ⟨.crashed fault, s', by simp, hdraw, hS.untouched_of_gathers hg⟩
      | ok result => exact absurd ⟨ha, settings, source, events, hg, hs⟩ (hd o result s')
    · obtain ⟨problem, s', hdraw, hu⟩ :=
        hS.draw_of_not_gathers fun settings source events s' hg' =>
          hg ⟨settings, source, events, s', hg'⟩
      exact ⟨.failed problem, s', by simp, hdraw, hu⟩

/-- Whatever is asked for, it is done and delivered or nothing happens. -/
theorem Lawful.run_cases (hS : S.Lawful) (h : request args ≠ .help)
    (hr : (run S.world args).run s = (outcome, s')) :
    (∃ e, e ≠ .done ∧ outcome = .silent e ∧ S.Untouched s s') ∨
      ∃ o result s₁ printed, S.Draws s args o result s₁ ∧ outcome = ⟨.done, printed⟩ ∧
        S.Delivered s s' o.output result printed := by
  by_cases hd : ∃ o result s₁, S.Draws s args o result s₁
  · obtain ⟨o, result, s₁, hd⟩ := hd
    have hu := hS.untouched_of_draws hd
    rw [hS.run_of_draws hd] at hr
    obtain ⟨-, s₂, hf, hu₂⟩ | ⟨printed, s₂, hf, hdel⟩ := hS.deliver_cases s₁ o result
    · cases hf.symm.trans hr
      exact Or.inl ⟨.failed .file, by simp, rfl, hu.trans hu₂⟩
    · cases hf.symm.trans hr
      exact Or.inr ⟨o, result, s₁, printed, hd, rfl, hdel.of_untouched hu⟩
  · obtain ⟨e, s₁, he, hf, hu⟩ := hS.run_of_not_draws (s := s) h fun o result s₁ hd' =>
      hd ⟨o, result, s₁, hd'⟩
    cases hf.symm.trans hr
    exact Or.inl ⟨e, he, rfl, hu⟩

theorem Lawful.ending_of_draws (hS : S.Lawful) {s₁ : σ} (hd : S.Draws s args o result s₁)
    (ht : S.Takes s₁ o.output result) (hr : (run S.world args).run s = (outcome, s')) :
    outcome.ending = .done := by
  rw [hS.run_of_draws hd] at hr
  obtain ⟨hn, -⟩ | ⟨printed, s₂, hf, -⟩ := hS.deliver_cases s₁ o result
  · exact absurd ht hn
  · cases hf.symm.trans hr
    rfl

end Runs

end System

section Command

variable {σ File : Type} [DecidableEq File] {S : System σ File} {s s' : σ} {args : List String}
  {outcome : Outcome}

/-- A run that fails prints nothing and changes no file. One that succeeds has played the session
that its arguments ask for and delivered the result. It succeeds whenever there is a result that
can be delivered. -/
theorem all_or_nothing (hS : S.Lawful) (h : request args ≠ .help)
    (hr : (run S.world args).run s = (outcome, s')) :
    (outcome.ending.code ≠ 0 → outcome.printed = "" ∧ S.Untouched s s') ∧
    (outcome.ending.code = 0 → ∃ o result s₁, S.Draws s args o result s₁ ∧
      S.Delivered s s' o.output result outcome.printed) ∧
    ∀ o result s₁, S.Draws s args o result s₁ → S.Takes s₁ o.output result →
      outcome.ending.code = 0 := by
  refine ⟨fun hc => ?_, fun hc => ?_, fun o result s₁ hd ht => ?_⟩
  · obtain ⟨e, -, rfl, hu⟩ | ⟨o, result, s₁, printed, -, rfl, -⟩ := hS.run_cases h hr
    · exact ⟨rfl, hu⟩
    · exact absurd rfl hc
  · obtain ⟨e, he, rfl, -⟩ | ⟨o, result, s₁, printed, hd, rfl, hdel⟩ := hS.run_cases h hr
    · exact absurd (Ending.code_eq_zero_iff.1 hc) he
    · exact ⟨o, result, s₁, hd, hdel⟩
  · exact Ending.code_eq_zero_iff.2 (hS.ending_of_draws hd ht hr)

end Command

/-- Files by their names in one folder, and a standard output that can be written to by its path. -/
structure Shelf where
  held? : String → Option String
  input : String
  output : String

namespace Shelf

def at? (path : String) : Option String :=
  if path.toList.contains '/' || ["", ".", ".."].contains path then none else some path

def world : World (StateM Shelf) where
  isThere path s := (((at? path).bind s.held?).isSome || path == "/dev/stdout", s)
  read? path s := ((at? path).bind s.held?, s)
  write path text s :=
    match at? path with
    | some f => (true, { s with held? := Function.update s.held? f (some text) })
    | none =>
      if path = "/dev/stdout" then (true, { s with output := s.output ++ text }) else (false, s)
  input? s := (some s.input, { s with input := "" })

def system : System Shelf String where
  world := world
  files s := ⟨at?, fun f => (s.held? f).map String.toUTF8⟩
  input s := s.input.toUTF8
  output := Shelf.output

theorem ne_stdout_of_at? {path f : String} (h : at? path = some f) : path ≠ "/dev/stdout" := by
  rintro rfl
  have hn : at? "/dev/stdout" = none := by decide
  rw [hn] at h
  cases h

theorem files_update (s : Shelf) (f text : String) :
    system.files { s with held? := Function.update s.held? f (some text) } =
      (system.files s).put f text := by
  have h : (fun g => (Function.update s.held? f (some text) g).map String.toUTF8) =
      Function.update (fun g => (s.held? g).map String.toUTF8) f (some text.toUTF8) := by
    funext g
    by_cases hg : g = f
    · subst hg
      simp
    · simp [hg]
  exact congrArg (Files.mk at?) h

theorem lawful_system : system.Lawful where
  look {path s s' there} h := by
    cases h
    refine ⟨⟨rfl, rfl⟩, rfl, fun f hf => ?_⟩
    have hf : at? path = some f := hf
    simp [system, hf, ne_stdout_of_at? hf]
  read {path s s' text?} h := by
    cases h
    refine ⟨⟨rfl, rfl⟩, fun f hf => ⟨rfl, fun text ht => ?_⟩⟩
    have hf : at? path = some f := hf
    rw [hf] at ht
    exact congrArg (Option.map String.toUTF8) ht
  input {s s' text?} h := by
    cases h
    refine ⟨⟨rfl, rfl⟩, fun text ht => ?_⟩
    cases ht
    rfl
  write {path text s s' f} hf h := by
    have hf : at? path = some f := hf
    have hw : (system.world.write path text).run s =
        (true, { s with held? := Function.update s.held? f (some text) }) := by
      change world.write path text s = _
      rw [world]
      dsimp only
      rw [hf]
    cases hw.symm.trans h
    exact ⟨files_update s f text, rfl⟩
  writeFails {path text s s'} h := by
    change world.write path text s = _ at h
    rw [world] at h
    dsimp only at h
    split at h
    · cases h
    · split at h
      · cases h
      · cases h
        exact ⟨rfl, rfl⟩

end Shelf

/-- The output may be the file that the source is read from. -/
theorem all_or_nothing_over_source :
    let s : Shelf := ⟨fun f => if f = "a.sql" then some "--" else none, "", ""⟩
    let args := ["a.sql", "-f", "text", "--width", "10", "--height", "50", "-o", "a.sql"]
    let r := (run Shelf.world args).run s
    Shelf.system.Lawful ∧ request args ≠ .help ∧ r.1 = ⟨.done, ""⟩ ∧
      r.2.held? "a.sql" = some "\n\n" ∧ ∃ o result s₁, Shelf.system.Draws s args o result s₁ ∧
        Shelf.system.Delivered s r.2 o.output result "" := by
  intro s args r
  have hhelp : request args ≠ .help := by decide +kernel
  have hr : r.1 = ⟨.done, ""⟩ := by decide +kernel
  have hf : r.2.held? "a.sql" = some "\n\n" := by decide +kernel
  have hrun : (run Shelf.system.world args).run s = (⟨.done, ""⟩, r.2) := Prod.ext hr rfl
  obtain ⟨-, hdone, -⟩ := all_or_nothing Shelf.lawful_system hhelp hrun
  exact ⟨Shelf.lawful_system, hhelp, hr, hf, hdone rfl⟩

/-- A result that is written to the standard output by its path is seen there, with no line feed
behind it. -/
theorem output_seen_through_path :
    let s : Shelf := ⟨fun _ => none, "", ""⟩
    let args := ["-f", "text", "--width", "10", "--height", "50", "-o", "/dev/stdout"]
    let r := (run Shelf.world args).run s
    Shelf.system.Lawful ∧ (∃ o, request args = .draw o ∧ o.output = some "/dev/stdout") ∧
      r.1 = ⟨.done, ""⟩ ∧ Shelf.system.output r.2 ++ r.1.printed = "\n\n" := by
  intro s args r
  have ho : ∃ o, request args = .draw o ∧ o.output = some "/dev/stdout" :=
    ⟨{ Options.none with
        format := some .text, width := some 10, height := some 50, output := some "/dev/stdout" },
      by decide +kernel, rfl⟩
  exact ⟨Shelf.lawful_system, ho, by decide +kernel, by decide +kernel⟩

end SchemaSketch.CommandLine
