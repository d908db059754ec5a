import SchemaSketch.Proofs.CommandLine.Configuration
import SchemaSketch.Proofs.CommandLine.System

/-!
What a run of the command reads before it draws: settings, source and script. Reading changes
nothing, and gives what the files held when the run began.
-/
namespace SchemaSketch.CommandLine

section Binding

variable {σ α β : Type} {s s'' : σ} {x : StateM σ α} {f : α → StateM σ β}

theorem run_bind_eq_iff {b : β} : (x >>= f).run s = (b, s'') ↔
    ∃ a s', x.run s = (a, s') ∧ (f a).run s' = (b, s'') := by
  constructor
  · intro h
    exact ⟨(x.run s).1, (x.run s).2, rfl, h⟩
  · intro h
    obtain ⟨a, s', hx, hf⟩ := h
    change (f (x.run s).1).run (x.run s).2 = _
    rw [hx, hf]

end Binding

namespace System

variable {σ File : Type} (S : System σ File) (d : Files File)

structure Looks (path : String) (s : σ) (there : Bool) (s' : σ) : Prop where
  run : (S.world.isThere path).run s = (there, s')
  answer : ∀ f, d.at? path = some f → there = (d.held? f).isSome
  input : S.input s' = S.input s

/-- Reading gives what the file of the path holds. Only other paths can take from the input. -/
structure Finds (path : String) (s : σ) (text : String) (s' : σ) : Prop where
  run : (S.world.read? path).run s = (some text, s')
  held : ∀ f, d.at? path = some f → d.held? f = some text.toUTF8 ∧ S.input s' = S.input s

inductive Loads : Option String → σ → Settings → σ → Prop
  | asked {path text : String} {settings : Settings} {s s₁ s' : σ} :
      S.Looks d path s true s₁ → S.Finds d path s₁ text s' →
        SettingsFile.Configures text settings → Loads (some path) s settings s'
  | found {text : String} {settings : Settings} {s s₁ s' : σ} :
      S.Looks d localSettings s true s₁ → S.Finds d localSettings s₁ text s' →
        SettingsFile.Configures text settings → Loads none s settings s'
  | standard {s s' : σ} : S.Looks d localSettings s false s' → Loads none s .standard s'

inductive Supplies : Option String → σ → String → σ → Prop
  | file {path source : String} {s s' : σ} :
      S.Finds d path s source s' → Supplies (some path) s source s'
  | input {source : String} {s s' : σ} :
      S.world.input?.run s = (some source, s') → S.input s = source.toUTF8 →
        Supplies none s source s'

inductive Scripts : Option String → σ → List Event → σ → Prop
  | file {path text : String} {events : List Event} {s s' : σ} :
      S.Finds d path s text s' → Script.events text = .ok events → Scripts (some path) s events s'
  | none {s : σ} : Scripts none s [] s

def Gathers (s : σ) (o : Options) (settings : Settings) (source : String) (events : List Event)
    (s' : σ) : Prop :=
  ∃ s₁ s₂, S.Loads (S.files s) o.settings s settings s₁ ∧
    S.Supplies (S.files s) o.file s₁ source s₂ ∧ S.Scripts (S.files s) o.script s₂ events s'

/-- An action that changes nothing, whatever it gives. -/
def Reads {α : Type} (x : StateM σ α) : Prop :=
  ∀ s, S.Untouched s (x.run s).2

variable {S d}

section Reading

variable {α β : Type} {x : StateM σ α} {f : α → StateM σ β}

theorem Reads.pure (a : α) : S.Reads (pure a) :=
  fun _ => ⟨rfl, rfl⟩

theorem Reads.bind (hx : S.Reads x) (hf : ∀ a, S.Reads (f a)) : S.Reads (x >>= f) := by
  intro s
  exact (hx s).trans (hf (x.run s).1 (x.run s).2)

theorem Reads.untouched {s s' : σ} {a : α} (hx : S.Reads x) (h : x.run s = (a, s')) :
    S.Untouched s s' := by
  have hs := hx s
  rw [h] at hs
  exact hs

variable [DecidableEq File]

theorem Lawful.reads_isThere (hS : S.Lawful) (path : String) : S.Reads (S.world.isThere path) :=
  fun _ => (hS.look rfl).1

theorem Lawful.reads_read? (hS : S.Lawful) (path : String) : S.Reads (S.world.read? path) :=
  fun _ => (hS.read rfl).1

theorem Lawful.reads_input? (hS : S.Lawful) : S.Reads S.world.input? :=
  fun _ => (hS.input rfl).1

theorem Lawful.looks_iff (hS : S.Lawful) {path : String} {there : Bool} {s s' : σ}
    (hd : S.files s = d) :
    (S.world.isThere path).run s = (there, s') ↔ S.Looks d path s there s' := by
  subst hd
  constructor
  · intro h
    obtain ⟨-, hi, ha⟩ := hS.look h
    exact ⟨h, ha, hi⟩
  · exact Looks.run

theorem Lawful.finds_iff (hS : S.Lawful) {path text : String} {s s' : σ} (hd : S.files s = d) :
    (S.world.read? path).run s = (some text, s') ↔ S.Finds d path s text s' := by
  subst hd
  constructor
  · intro h
    exact ⟨h, fun f hf => ⟨((hS.read h).2 f hf).2 text rfl, ((hS.read h).2 f hf).1⟩⟩
  · exact Finds.run

end Reading

section Gathering

variable [DecidableEq File] {s s' : σ} {o : Options} {path : Option String}
  {settings : Settings} {source : String} {events : List Event}

theorem Lawful.reads_readSettings (hS : S.Lawful) (path : String) :
    S.Reads (readSettings S.world path) := by
  refine (hS.reads_read? path).bind fun text => ?_
  cases text with
  | none => exact .pure _
  | some text =>
    dsimp only
    cases SettingsFile.settings? text <;> exact .pure _

theorem Lawful.readSettings_eq_ok_iff (hS : S.Lawful) {path : String} (hd : S.files s = d) :
    (readSettings S.world path).run s = (.ok settings, s') ↔
      ∃ text, S.Finds d path s text s' ∧ SettingsFile.Configures text settings := by
  rw [readSettings, run_bind_eq_iff]
  simp only [← hS.finds_iff hd, ← SettingsFile.settings?_eq_some_iff]
  constructor
  · intro h
    obtain ⟨text, s₁, hr, h⟩ := h
    cases text with
    | none => cases h
    | some text =>
      dsimp only at h
      cases ht : SettingsFile.settings? text with
      | none =>
        rw [ht] at h
        cases h
      | some settings =>
        rw [ht] at h
        cases h
        exact ⟨text, hr, ht⟩
  · intro h
    obtain ⟨text, hr, ht⟩ := h
    refine ⟨some text, s', hr, ?_⟩
    dsimp only
    rw [ht]
    rfl

theorem Lawful.reads_loadSettings (hS : S.Lawful) (path : Option String) :
    S.Reads (loadSettings S.world path) := by
  cases path with
  | none =>
    refine (hS.reads_isThere localSettings).bind fun found => ?_
    cases found with
    | true => exact hS.reads_readSettings localSettings
    | false => exact .pure _
  | some path =>
    refine (hS.reads_isThere path).bind fun found => ?_
    cases found with
    | true => exact hS.reads_readSettings path
    | false => exact .pure _

theorem Lawful.loadSettings_eq_ok_iff (hS : S.Lawful) (hd : S.files s = d) :
    (loadSettings S.world path).run s = (.ok settings, s') ↔ S.Loads d path s settings s' := by
  constructor
  · intro h
    cases path with
    | none =>
      obtain ⟨found, s₁, hf, h⟩ := run_bind_eq_iff.1 h
      have hd₁ : S.files s₁ = d := (hS.look hf).1.1.trans hd
      cases found with
      | true =>
        obtain ⟨text, hr, ht⟩ := (hS.readSettings_eq_ok_iff hd₁).1 h
        exact .found ((hS.looks_iff hd).1 hf) hr ht
      | false =>
        cases h
        exact .standard ((hS.looks_iff hd).1 hf)
    | some path =>
      obtain ⟨found, s₁, hf, h⟩ := run_bind_eq_iff.1 h
      have hd₁ : S.files s₁ = d := (hS.look hf).1.1.trans hd
      cases found with
      | true =>
        obtain ⟨text, hr, ht⟩ := (hS.readSettings_eq_ok_iff hd₁).1 h
        exact .asked ((hS.looks_iff hd).1 hf) hr ht
      | false => cases h
  · intro h
    cases h with
    | asked hf hr ht | found hf hr ht =>
      have hd₁ := (hS.look hf.run).1.1.trans hd
      exact run_bind_eq_iff.2 ⟨true, _, hf.run, (hS.readSettings_eq_ok_iff hd₁).2 ⟨_, hr, ht⟩⟩
    | standard hf => exact run_bind_eq_iff.2 ⟨false, s', hf.run, rfl⟩

theorem Lawful.reads_readSource (hS : S.Lawful) (o : Options) : S.Reads (readSource S.world o) := by
  unfold readSource
  cases o.file with
  | none => exact hS.reads_input?
  | some path => exact hS.reads_read? path

theorem Lawful.readSource_eq_some_iff (hS : S.Lawful) (hd : S.files s = d) :
    (readSource S.world o).run s = (some source, s') ↔ S.Supplies d o.file s source s' := by
  unfold readSource
  cases o.file with
  | none =>
    constructor
    · intro h
      exact .input h ((hS.input h).2 source rfl)
    · intro h
      cases h with
      | input hr _ => exact hr
  | some path =>
    constructor
    · intro h
      exact .file ((hS.finds_iff hd).1 h)
    · intro h
      cases h with
      | file hr => exact hr.run

theorem Lawful.reads_readEvents (hS : S.Lawful) (o : Options) : S.Reads (readEvents S.world o) := by
  unfold readEvents
  cases o.script with
  | none => exact .pure _
  | some path =>
    refine (hS.reads_read? path).bind fun text => ?_
    cases text with
    | none => exact .pure _
    | some text =>
      dsimp only
      cases Script.events text <;> exact .pure _

theorem Lawful.readEvents_eq_ok_iff (hS : S.Lawful) (hd : S.files s = d) :
    (readEvents S.world o).run s = (.ok events, s') ↔ S.Scripts d o.script s events s' := by
  unfold readEvents
  cases o.script with
  | none =>
    constructor
    · intro h
      cases h
      exact .none
    · intro h
      cases h
      rfl
  | some path =>
    constructor
    · intro h
      obtain ⟨text, s₁, hr, h⟩ := run_bind_eq_iff.1 h
      cases text with
      | none => cases h
      | some text =>
        dsimp only at h
        cases he : Script.events text with
        | error e =>
          rw [he] at h
          cases h
        | ok events =>
          rw [he] at h
          cases h
          exact .file ((hS.finds_iff hd).1 hr) he
    · intro h
      cases h with
      | @file _ text _ _ _ hr he =>
        refine run_bind_eq_iff.2 ⟨some text, s', hr.run, ?_⟩
        dsimp only
        rw [he]
        rfl

/-- The three readings succeed together exactly if all that they need is there. -/
theorem Lawful.gathers_iff (hS : S.Lawful) : S.Gathers s o settings source events s' ↔
    ∃ s₁ s₂, (loadSettings S.world o.settings).run s = (.ok settings, s₁) ∧
      (readSource S.world o).run s₁ = (some source, s₂) ∧
      (readEvents S.world o).run s₂ = (.ok events, s') := by
  constructor
  · intro h
    obtain ⟨s₁, s₂, hl, hs, he⟩ := h
    have hl := (hS.loadSettings_eq_ok_iff rfl).2 hl
    have hd₁ := ((hS.reads_loadSettings o.settings).untouched hl).1
    have hs := (hS.readSource_eq_some_iff hd₁).2 hs
    have hd₂ := ((hS.reads_readSource o).untouched hs).1.trans hd₁
    exact ⟨s₁, s₂, hl, hs, (hS.readEvents_eq_ok_iff hd₂).2 he⟩
  · intro h
    obtain ⟨s₁, s₂, hl, hs, he⟩ := h
    have hd₁ := ((hS.reads_loadSettings o.settings).untouched hl).1
    have hd₂ := ((hS.reads_readSource o).untouched hs).1.trans hd₁
    exact ⟨s₁, s₂, (hS.loadSettings_eq_ok_iff rfl).1 hl, (hS.readSource_eq_some_iff hd₁).1 hs,
      (hS.readEvents_eq_ok_iff hd₂).1 he⟩

theorem Lawful.untouched_of_gathers (hS : S.Lawful)
    (h : S.Gathers s o settings source events s') : S.Untouched s s' := by
  obtain ⟨s₁, s₂, hl, hs, he⟩ := hS.gathers_iff.1 h
  have hu := (hS.reads_loadSettings o.settings).untouched hl
  exact (hu.trans ((hS.reads_readSource o).untouched hs)).trans
    ((hS.reads_readEvents o).untouched he)

end Gathering

end System

end SchemaSketch.CommandLine
