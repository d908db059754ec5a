import SchemaSketch.Proofs.Script.Events
import SchemaSketch.Proofs.Text.Lines

/-!
Scripts are read line by line, to the end or up to the first line that is no event.
-/
namespace SchemaSketch.Script

open Text

inductive Says : List Char → List Char → Prop
  | intro {before said after comment : List Char} : before ∈ zeroOrMore isSpace →
      after ∈ zeroOrMore isSpace → Stops isSpace said → Stops isSpace said.reverse → '#' ∉ said →
      Stops (· ≠ '#') comment → Says (before ++ said ++ after ++ comment) said

inductive Denotes : List (List Char) → List Event → Prop
  | nil : Denotes [] []
  | blank {line : List Char} {ls : List (List Char)} {es : List Event} :
      Says line [] → Denotes ls es → Denotes (line :: ls) es
  | event {line said : List Char} {e : Event} {ls : List (List Char)} {es : List Event} :
      Says line said → said ∈ written e → Denotes ls es → Denotes (line :: ls) (e :: es)

section Content

variable {line said : List Char}

theorem says_content (line : List Char) : Says line (content line) := by
  obtain ⟨g, hg, g', hg', he⟩ := exists_append_trim (line.takeWhile (· ≠ '#'))
  have hsign : '#' ∉ content line := by
    intro h
    have hm : '#' ∈ line.takeWhile (· ≠ '#') := by
      rw [← he]
      exact List.mem_append_left _ (List.mem_append_right _ h)
    simpa using List.mem_takeWhile_imp hm
  have h := Says.intro hg hg' (stops_trim _) (stops_reverse_trim _) hsign
    (stops_dropWhile (fun c => decide (c ≠ '#')) line)
  rwa [he, List.takeWhile_append_dropWhile] at h

theorem said_eq (h : Says line said) : content line = said := by
  cases h with
  | @intro before said after comment hb ha hs hr hn hc =>
    have hspace {g : List Char} (hg : g ∈ zeroOrMore isSpace) : '#' ∉ g := by
      intro h
      cases hg '#' h
    have hall : ∀ c ∈ before ++ said ++ after, decide (c ≠ '#') = true := by
      intro c hm
      rw [decide_eq_true_iff]
      rintro rfl
      exact List.not_mem_append (List.not_mem_append (hspace hb) hn) (hspace ha) hm
    rw [content, takeWhile_append_of_stops hall hc]
    cases said with
    | nil =>
      rw [List.append_nil]
      exact trim_of_spaces fun c hc => (List.mem_append.1 hc).elim (hb c) (ha c)
    | cons c said => exact trim_of_stops hb ha (List.cons_ne_nil _ _) hs hr

theorem content_eq_iff : content line = said ↔ Says line said := by
  constructor
  · intro h
    exact h ▸ says_content line
  · exact said_eq

theorem Says.stops_reverse (h : Says line said) : Stops isBlank said.reverse := by
  cases h with
  | intro hb ha hs hr hn hc =>
    intro c hm
    by_contra hblank
    rw [Bool.not_eq_false] at hblank
    have hspace := isSpace_of_isGap (isGap_of_isBlank hblank)
    rw [hr c hm] at hspace
    cases hspace

theorem nil_not_mem_written (e : Event) : [] ∉ written e := by
  intro h
  have hr := eventStart?_of_written h
  cases hr

theorem event?_content (line : List Char) (e : Event) :
    event? (content line) = some e ↔ content line ∈ written e :=
  event?_eq_some_iff (says_content line).stops_reverse

end Content

section Read

variable {ls : List (List Char)} {es : List Event} {error : ScriptError}

theorem denotes_blank_iff {line : List Char} (hs : content line = []) :
    Denotes (line :: ls) es ↔ Denotes ls es := by
  constructor
  · intro h
    cases h with
    | blank _ h => exact h
    | event hsaid hw _ =>
      rw [← said_eq hsaid, hs] at hw
      exact absurd hw (nil_not_mem_written _)
  · exact .blank (content_eq_iff.1 hs)

theorem denotes_event_iff {line : List Char} {e : Event} (hw : content line ∈ written e) :
    Denotes (line :: ls) es ↔ ∃ more, Denotes ls more ∧ es = e :: more := by
  constructor
  · intro h
    cases h with
    | blank hsaid _ =>
      rw [said_eq hsaid] at hw
      exact absurd hw (nil_not_mem_written e)
    | event hsaid hw' h =>
      rw [← said_eq hsaid, ← event?_content, (event?_content line e).2 hw,
        Option.some_inj] at hw'
      exact ⟨_, h, by rw [hw']⟩
  · intro h
    obtain ⟨more, h, rfl⟩ := h
    exact .event (says_content line) hw h

theorem not_denotes {line : List Char} (hn : content line ≠ [])
    (hw : ∀ e, content line ∉ written e) : ¬ Denotes (line :: ls) es := by
  intro h
  cases h with
  | blank hsaid _ => exact hn (said_eq hsaid)
  | event hsaid hw' _ => exact hw _ (said_eq hsaid ▸ hw')

theorem map_eq_ok_iff {ε α β : Type} {f : α → β} {x : Except ε α} {b : β} :
    x.map f = .ok b ↔ ∃ a, x = .ok a ∧ b = f a := by
  cases x <;> simp [Except.map, eq_comm]

theorem event?_eq_none_iff {line : List Char} :
    event? (content line) = none ↔ ∀ e, content line ∉ written e := by
  simp only [Option.eq_none_iff_forall_ne_some, ne_eq, event?_content]

theorem eventsFrom_eq_ok_iff (number : Nat) : eventsFrom number ls = .ok es ↔ Denotes ls es := by
  induction ls generalizing number es with
  | nil =>
    constructor
    · intro h
      cases h
      exact .nil
    · intro h
      cases h
      rfl
  | cons line ls ih =>
    simp only [eventsFrom]
    split
    · next hs => rw [ih, denotes_blank_iff (List.isEmpty_iff.1 hs)]
    · next hs =>
      cases he : event? (content line) with
      | none =>
        have hd : ¬ Denotes (line :: ls) es :=
          not_denotes (by simpa using hs) (event?_eq_none_iff.1 he)
        simp [hd]
      | some e =>
        rw [denotes_event_iff ((event?_content line e).1 he), map_eq_ok_iff]
        simp only [ih]

/-- A name is the end of what its line says. -/
theorem name_of_written {line said : List Char} {p : Point} {n : String} (hl : '\n' ∉ line)
    (hsaid : Says line said) (hw : said ∈ written (.rename p (some n))) :
    n ≠ "" ∧ '#' ∉ n.toList ∧ '\n' ∉ n.toList ∧ Stops isBlank n.toList ∧
      Stops isSpace n.toList.reverse := by
  obtain ⟨a, -, u, hu, rfl⟩ := Language.mem_mul.1 hw
  obtain ⟨g, -, b, ⟨rfl, hn, hstop⟩, rfl⟩ := Language.mem_mul.1 hu
  cases hsaid with
  | @intro before said after comment hb ha hs hr hsign hc =>
    have hmem {c : Char} (h : c ∈ n.toList) : c ∈ a ++ (g ++ n.toList) :=
      List.mem_append_right _ (List.mem_append_right _ h)
    refine ⟨?_, fun h => hsign (hmem h), fun h => hl ?_, hstop, fun c h => hr c ?_⟩
    · rintro rfl
      exact hn rfl
    · exact List.mem_append_left _ (List.mem_append_left _ (List.mem_append_right _ (hmem h)))
    · rw [← List.append_assoc, List.reverse_append,
        List.head?_append_of_ne_nil _ (List.reverse_ne_nil_iff.2 hn)]
      exact h

theorem name_of_denotes (hl : ∀ line ∈ ls, '\n' ∉ line) (h : Denotes ls es) {p : Point}
    {n : String} (hn : Event.rename p (some n) ∈ es) :
    n ≠ "" ∧ '#' ∉ n.toList ∧ '\n' ∉ n.toList ∧ Stops isBlank n.toList ∧
      Stops isSpace n.toList.reverse := by
  induction h with
  | nil => cases hn
  | blank _ _ ih => exact ih (fun line h => hl line (List.mem_cons_of_mem _ h)) hn
  | event hsaid hw _ ih =>
    obtain rfl | hn := List.mem_cons.1 hn
    · exact name_of_written (hl _ List.mem_cons_self) hsaid hw
    · exact ih (fun line h => hl line (List.mem_cons_of_mem _ h)) hn

end Read

end SchemaSketch.Script
