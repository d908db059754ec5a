import SchemaSketch.SettingsFile

/-!
What a settings file says: every setting is what its section holds under its name, and the standard
one where that is left out.
-/
namespace SchemaSketch.SettingsFile

open Toml

/-- What a section holds under each of its names. An array holds its values in the order of the
names, and a date holds none. -/
inductive Section (names : List String) : Value → (String → Option Value) → Prop
  | table {origin : Origin} {entries : Entries} :
      (∀ e ∈ entries, e.1 ∉ names → isReadable e.2 = true) →
        Section names (.table origin entries) fun name => lookup? name entries
  | array {items : List Value} :
      Section names (.array items) fun name => items[names.idxOf name]?
  | tables {elements : List Value} :
      Section names (.tables elements) fun name => elements[names.idxOf name]?
  | moment : Section names .moment fun _ => none

inductive Number (standard : Float) : Option Value → Float → Prop
  | missing : Number standard none standard
  | float (x : Float) : Number standard (some (.float x)) x
  | integer {n : Int} : -Int.pow 2 63 ≤ n → n < Int.pow 2 64 →
      Number standard (some (.integer n)) (Float.ofInt n)

inductive Flag (standard : Bool) : Option Value → Bool → Prop
  | missing : Flag standard none standard
  | boolean (b : Bool) : Flag standard (some (.boolean b)) b

inductive Part {α : Type} (names : List String) (standard : α)
    (Reads : (String → Option Value) → α → Prop) : Option Value → α → Prop
  | missing : Part names standard Reads none standard
  | given {v : Value} {field : String → Option Value} {a : α} :
      Section names v field → Reads field a → Part names standard Reads (some v) a

def Canvas : Option Value → CanvasSettings → Prop :=
  Part ["width", "height"] .standard fun field canvas =>
    Number CanvasSettings.standard.width (field "width") canvas.width ∧
      Number CanvasSettings.standard.height (field "height") canvas.height

def Layout : Option Value → LayoutSettings → Prop :=
  Part ["entity_radius", "attribute_radius"] .standard fun field layout =>
    Number LayoutSettings.standard.entityRadius (field "entity_radius") layout.entityRadius ∧
      Number LayoutSettings.standard.attributeRadius (field "attribute_radius")
        layout.attributeRadius

def Drawing : Option Value → DrawingSettings → Prop :=
  Part ["arrow_head_length", "cell_size"] .standard fun field drawing =>
    Number DrawingSettings.standard.arrowLength (field "arrow_head_length") drawing.arrowLength ∧
      Number DrawingSettings.standard.cellSize (field "cell_size") drawing.cellSize

def Interaction : Option Value → InteractionSettings → Prop :=
  Part ["resize_tolerance", "zoom_step", "min_zoom", "max_zoom", "confirm_deletes"] .standard
    fun field interaction =>
      let standard := InteractionSettings.standard
      Number standard.rimTolerance (field "resize_tolerance") interaction.rimTolerance ∧
        Number standard.zoomStep (field "zoom_step") interaction.zoomStep ∧
        Number standard.minZoom (field "min_zoom") interaction.minZoom ∧
        Number standard.maxZoom (field "max_zoom") interaction.maxZoom ∧
        Flag standard.confirmDeletes (field "confirm_deletes") interaction.confirmDeletes

def Configures (text : String) (settings : Settings) : Prop :=
  ∃ root field, document? text = some root ∧
    Section ["canvas", "layout", "render", "interaction"] root field ∧
      Canvas (field "canvas") settings.canvas ∧ Layout (field "layout") settings.layout ∧
      Drawing (field "render") settings.drawing ∧
      Interaction (field "interaction") settings.interaction

section Reading

variable {names : List String} {v : Value} {values : List (Option Value)}

theorem map_getElem?_range (hn : names.Nodup) (items : List Value) :
    (List.range names.length).map (items[·]?) = names.map fun name => items[names.idxOf name]? := by
  apply List.ext_getElem
  · simp
  · intro i hi hi'
    rw [List.length_map, List.length_range] at hi
    simp [hn.idxOf_getElem i hi]

theorem fields?_eq_some_iff (hn : names.Nodup) :
    fields? names v = some values ↔ ∃ field, Section names v field ∧ names.map field = values := by
  constructor
  · intro h
    unfold fields? at h
    split at h
    · next origin entries =>
      split at h
      · next hr =>
        refine ⟨_, .table fun e he hkey => ?_, Option.some.inj h⟩
        have hmem : e ∈ entries.filter fun e => !names.contains e.1 :=
          List.mem_filter.2 ⟨he, by simpa using hkey⟩
        exact List.all_eq_true.1 hr e hmem
      · cases h
    · next items => exact ⟨_, .array, (map_getElem?_range hn items).symm.trans (Option.some.inj h)⟩
    · next elements =>
      exact ⟨_, .tables, (map_getElem?_range hn elements).symm.trans (Option.some.inj h)⟩
    · exact ⟨_, .moment, Option.some.inj h⟩
    · cases h
  · intro h
    obtain ⟨field, h, rfl⟩ := h
    cases h with
    | @table origin entries hr =>
      have hall : ((entries.filter fun e => !names.contains e.1).all fun e =>
          isReadable e.2) = true := by
        apply List.all_eq_true.2
        intro e he
        obtain ⟨he, hkey⟩ := List.mem_filter.1 he
        exact hr e he (by simpa using hkey)
      exact if_pos hall
    | array => exact congrArg some (map_getElem?_range hn _)
    | tables => exact congrArg some (map_getElem?_range hn _)
    | moment => rfl

theorem number?_eq_some_iff {standard x : Float} {value : Option Value} :
    number? standard (some value) = some x ↔ Number standard value x := by
  constructor
  · intro h
    cases value with
    | none =>
      cases h
      exact .missing
    | some v =>
      cases v with
      | float y =>
        cases h
        exact .float _
      | integer n =>
        rw [number?] at h
        split at h
        · next hn =>
          cases h
          exact .integer hn.1 hn.2
        · cases h
      | string | outOfRange | boolean | moment | array | table | tables => cases h
  · intro h
    cases h with
    | missing => rfl
    | float => rfl
    | integer hl hh => exact if_pos ⟨hl, hh⟩

theorem flag?_eq_some_iff {standard b : Bool} {value : Option Value} :
    flag? standard (some value) = some b ↔ Flag standard value b := by
  constructor
  · intro h
    cases value with
    | none =>
      cases h
      exact .missing
    | some v =>
      cases v with
      | boolean c =>
        cases h
        exact .boolean _
      | string | integer | float | outOfRange | moment | array | table | tables => cases h
  · intro h
    cases h <;> rfl

theorem part?_eq_some_iff {α : Type} (hn : names.Nodup) {standard a : α}
    {read? : List (Option Value) → Option α} {Reads : (String → Option Value) → α → Prop}
    (h : ∀ field a, read? (names.map field) = some a ↔ Reads field a) {section? : Option Value} :
    part? names standard read? section? = some a ↔ Part names standard Reads section? a := by
  cases section? with
  | none =>
    constructor
    · intro h
      cases h
      exact .missing
    · intro h
      cases h
      rfl
  | some v =>
    rw [part?, Option.bind_eq_some_iff]
    constructor
    · intro hv
      obtain ⟨values, hv, ha⟩ := hv
      obtain ⟨field, hs, rfl⟩ := (fields?_eq_some_iff hn).1 hv
      exact .given hs ((h field a).1 ha)
    · intro hv
      cases hv with
      | given hs ha => exact ⟨_, (fields?_eq_some_iff hn).2 ⟨_, hs, rfl⟩, (h _ a).2 ha⟩

end Reading

section Sections

variable {value : Option Value}

theorem pair_eq_some_iff {α : Type} {mk : Float → Float → α} {first second : α → Float}
    (hfirst : ∀ x y, first (mk x y) = x) (hsecond : ∀ x y, second (mk x y) = y)
    (hmk : ∀ a, mk (first a) (second a) = a) {x? y? : Option Float} {a : α} :
    (x?.bind fun x => y?.bind fun y => some (mk x y)) = some a ↔
      x? = some (first a) ∧ y? = some (second a) := by
  constructor
  · intro h
    obtain ⟨x, hx, h⟩ := Option.bind_eq_some_iff.1 h
    obtain ⟨y, hy, h⟩ := Option.bind_eq_some_iff.1 h
    obtain rfl := Option.some.inj h
    rw [hfirst, hsecond]
    exact ⟨hx, hy⟩
  · intro h
    rw [h.1, h.2]
    exact congrArg some (hmk a)

theorem canvas?_eq_some_iff {canvas : CanvasSettings} :
    canvas? value = some canvas ↔ Canvas value canvas :=
  part?_eq_some_iff (by decide) fun _ _ =>
    (pair_eq_some_iff (fun _ _ => rfl) (fun _ _ => rfl) fun _ => rfl).trans
      (and_congr number?_eq_some_iff number?_eq_some_iff)

theorem layout?_eq_some_iff {layout : LayoutSettings} :
    layout? value = some layout ↔ Layout value layout :=
  part?_eq_some_iff (by decide) fun _ _ =>
    (pair_eq_some_iff (fun _ _ => rfl) (fun _ _ => rfl) fun _ => rfl).trans
      (and_congr number?_eq_some_iff number?_eq_some_iff)

theorem drawing?_eq_some_iff {drawing : DrawingSettings} :
    drawing? value = some drawing ↔ Drawing value drawing :=
  part?_eq_some_iff (by decide) fun _ _ =>
    (pair_eq_some_iff (fun _ _ => rfl) (fun _ _ => rfl) fun _ => rfl).trans
      (and_congr number?_eq_some_iff number?_eq_some_iff)

theorem interaction?_eq_some_iff {interaction : InteractionSettings} :
    interaction? value = some interaction ↔ Interaction value interaction := by
  refine part?_eq_some_iff (by decide) fun field interaction => ?_
  simp only [List.map_cons, List.getElem?_cons_zero, List.getElem?_cons_succ, Option.bind_eq_bind,
    Option.bind_eq_some_iff, number?_eq_some_iff, flag?_eq_some_iff]
  constructor
  · intro h
    obtain ⟨rimTolerance, hr, zoomStep, hs, minZoom, hmin, maxZoom, hmax, confirm, hc, he⟩ := h
    cases he
    exact ⟨hr, hs, hmin, hmax, hc⟩
  · intro h
    obtain ⟨hr, hs, hmin, hmax, hc⟩ := h
    exact ⟨_, hr, _, hs, _, hmin, _, hmax, _, hc, rfl⟩

end Sections

/-- The settings that are read from a text are those that it says. -/
theorem settings?_eq_some_iff {text : String} {settings : Settings} :
    settings? text = some settings ↔ Configures text settings := by
  unfold settings? Configures
  simp only [Option.bind_eq_bind, Option.bind_eq_some_iff, canvas?_eq_some_iff,
    layout?_eq_some_iff, drawing?_eq_some_iff, interaction?_eq_some_iff]
  constructor
  · intro h
    obtain ⟨root, hroot, sections, hs, canvas, hc, layout, hl, drawing, hd, interaction, hi, he⟩ :=
      h
    obtain ⟨field, hf, rfl⟩ := (fields?_eq_some_iff (by decide)).1 hs
    cases he
    exact ⟨root, field, hroot, hf, hc, hl, hd, hi⟩
  · intro h
    obtain ⟨root, field, hroot, hf, hc, hl, hd, hi⟩ := h
    have hs := (fields?_eq_some_iff (by decide)).2 ⟨field, hf, rfl⟩
    exact ⟨root, hroot, _, hs, _, hc, _, hl, _, hd, _, hi, rfl⟩

end SchemaSketch.SettingsFile
