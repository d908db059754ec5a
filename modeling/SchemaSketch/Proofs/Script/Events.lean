import SchemaSketch.Proofs.Number.Numerals
import SchemaSketch.Script

/-!
The grammar of events, and that the contents of lines are read by it: a content without white space
at its end is read as an event exactly if it is one way to write that event.
-/
namespace SchemaSketch.Script

open Text Decimal

def blanks : Language Char :=
  oneOrMore isBlank

def number (x : Float) : Language Char :=
  {s | Number x s}

def point (p : Point) : Language Char :=
  number p.x * (blanks * number p.y)

def wordAndPoint (w : String) (p : Point) : Language Char :=
  {w.toList} * (blanks * point p)

def name (n : String) : Language Char :=
  {s | s = n.toList ∧ s ≠ [] ∧ Stops isBlank s}

def written : Event → Language Char
  | .generate => {"generate".toList}
  | .release => {"release".toList}
  | .press p => wordAndPoint "press" p
  | .move p => wordAndPoint "move" p
  | .delete p => wordAndPoint "delete" p
  | .rename p none => wordAndPoint "rename" p
  | .rename p (some n) => wordAndPoint "rename" p * (blanks * name n)
  | .zoom .inwards => {"zoom".toList} * (blanks * {"in".toList})
  | .zoom .outwards => {"zoom".toList} * (blanks * {"out".toList})
  | .resize width height => wordAndPoint "resize" ⟨width, height⟩

def Ends (s : List Char) : Prop :=
  ∀ c ∈ s.head?, isBlank c = true

theorem Ends.stops_continues {s : List Char} (h : Ends s) : Stops continues s := by
  intro c hc
  have hb := h c hc
  simp only [isBlank, Bool.or_eq_true, beq_iff_eq] at hb
  obtain rfl | rfl := hb <;> decide

theorem ends_blanks {g r : List Char} (hg : g ∈ blanks) : Ends (g ++ r) := by
  intro c hc
  cases g with
  | nil => exact absurd rfl hg.1
  | cons d g => exact hg.2 c (by simp_all)

theorem isBlank_of_continues {c : Char} (h : continues c = true) : isBlank c = false := by
  by_contra hb
  simp only [Bool.not_eq_false, isBlank, Bool.or_eq_true, beq_iff_eq] at hb
  obtain rfl | rfl := hb <;> cases h

/-- A number does not begin with a blank. -/
theorem stops_number {x : Float} {s : List Char} (h : Number x s) (r : List Char) :
    Stops isBlank (s ++ r) := by
  cases h with
  | unsigned h =>
    obtain ⟨c, t, rfl, hc⟩ := head_of_magnitude h
    exact stops_cons (isBlank_of_continues hc)
  | positive h | negative h => exact stops_cons rfl
  | notANumber h =>
    obtain ⟨c, t, rfl, hc⟩ := head_of_word (by decide) h
    exact stops_cons (isBlank_of_continues (continues_of_isAlpha hc))

theorem stops_point {p : Point} {s : List Char} (h : s ∈ point p) (r : List Char) :
    Stops isBlank (s ++ r) := by
  obtain ⟨a, ha, t, -, rfl⟩ := Language.mem_mul.1 h
  rw [List.append_assoc]
  exact stops_number ha (t ++ r)

section Point

variable {p : Point} {w : String} {s r : List Char}

theorem skip_blanks {g : List Char} (hg : g ∈ blanks) (hr : Stops isBlank r) :
    skip1? isBlank (g ++ r) = some r :=
  skip1?_eq_some_iff.2 ⟨hr, g, hg, rfl⟩

theorem point?_append (h : s ∈ point p) (hr : Ends r) : point? (s ++ r) = some (p, r) := by
  obtain ⟨a, ha, t, ht, rfl⟩ := Language.mem_mul.1 h
  obtain ⟨g, hg, b, hb, rfl⟩ := Language.mem_mul.1 ht
  have hx : number? (a ++ (g ++ (b ++ r))) = some (p.x, g ++ (b ++ r)) :=
    number?_append ha (ends_blanks hg).stops_continues
  have hy : number? (b ++ r) = some (p.y, r) := number?_append hb hr.stops_continues
  rw [List.append_assoc, List.append_assoc]
  simp only [point?, hx, skip_blanks hg (stops_number hb r), hy, Option.bind_eq_bind,
    Option.bind_some]

theorem point?_sound (h : point? s = some (p, r)) : ∃ a ∈ point p, a ++ r = s := by
  simp only [point?, Option.bind_eq_bind, Option.bind_eq_some_iff, Prod.exists] at h
  obtain ⟨x, s₁, hx, s₂, hs, y, s₃, hy, he⟩ := h
  cases he
  obtain ⟨a, ha, rfl⟩ := number?_sound hx
  obtain ⟨-, g, hg, rfl⟩ := skip1?_eq_some_iff.1 hs
  obtain ⟨b, hb, rfl⟩ := number?_sound hy
  refine ⟨_, Language.append_mem_mul ha (Language.append_mem_mul hg hb), ?_⟩
  simp only [List.append_assoc]

theorem wordAndPoint?_append (h : s ∈ wordAndPoint w p) (hr : Ends r) :
    wordAndPoint? w (s ++ r) = some (p, r) := by
  obtain ⟨t, ht, rfl⟩ := singleton_mul_eq.1 h
  obtain ⟨g, hg, a, ha, rfl⟩ := Language.mem_mul.1 ht
  rw [List.append_assoc, List.append_assoc]
  simp only [wordAndPoint?, exactly?_eq_some_iff.2 rfl, skip_blanks hg (stops_point ha r),
    point?_append ha hr, Option.bind_eq_bind, Option.bind_some]

theorem wordAndPoint?_sound (h : wordAndPoint? w s = some (p, r)) :
    ∃ a ∈ wordAndPoint w p, a ++ r = s := by
  simp only [wordAndPoint?, Option.bind_eq_bind, Option.bind_eq_some_iff] at h
  obtain ⟨s₁, hw, s₂, hs, hp⟩ := h
  obtain rfl := exactly?_eq_some_iff.1 hw
  obtain ⟨-, g, hg, rfl⟩ := skip1?_eq_some_iff.1 hs
  obtain ⟨a, ha, rfl⟩ := point?_sound hp
  refine ⟨_, Language.append_mem_mul rfl (Language.append_mem_mul hg ha), ?_⟩
  simp only [List.append_assoc]

end Point

section Event

variable {e : Event} {s r : List Char}

theorem stops_reverse_suffix {p : Char → Bool} {a r : List Char} (h : Stops p (a ++ r).reverse)
    (hr : ∀ c ∈ r, p c = true) : r = [] := by
  cases hn : r.reverse with
  | nil => exact List.reverse_eq_nil_iff.1 hn
  | cons c t =>
    rw [List.reverse_append, hn] at h
    have hc := hr c (List.mem_reverse.1 (hn ▸ List.mem_cons_self))
    rw [h c rfl] at hc
    cases hc

theorem rename?_sound (hs : Stops isBlank s.reverse) (h : rename? s = some (e, r)) :
    ∃ a ∈ written e, a ++ r = s := by
  simp only [rename?, Option.bind_eq_bind, Option.bind_eq_some_iff, Prod.exists] at h
  obtain ⟨p, t, hp, h⟩ := h
  obtain ⟨a, ha, rfl⟩ := wordAndPoint?_sound hp
  split at h
  · next n hn =>
    cases h
    obtain ⟨hstop, g, hg, rfl⟩ := skip1?_eq_some_iff.1 hn
    have hne : n ≠ [] := by
      rintro rfl
      rw [List.append_nil] at hs
      exact hg.1 (stops_reverse_suffix hs hg.2)
    refine ⟨a ++ (g ++ n), Language.append_mem_mul ha (Language.append_mem_mul hg ?_), by simp⟩
    exact ⟨String.toList_ofList.symm, hne, hstop⟩
  · cases h
    exact ⟨a, ha, rfl⟩

theorem zoom?_sound (h : zoom? s = some (e, r)) : ∃ a ∈ written e, a ++ r = s := by
  simp only [zoom?, Option.bind_eq_bind, Option.bind_eq_some_iff, Prod.exists] at h
  obtain ⟨s₁, hw, s₂, hs, d, t, hd, he⟩ := h
  cases he
  obtain rfl := exactly?_eq_some_iff.1 hw
  obtain ⟨-, g, hg, rfl⟩ := skip1?_eq_some_iff.1 hs
  obtain hd | ⟨-, hd⟩ := Option.or_eq_some_iff.1 hd
  · obtain ⟨u, hu, he⟩ := Option.map_eq_some_iff.1 hd
    cases he
    obtain rfl := exactly?_eq_some_iff.1 hu
    refine ⟨_, Language.append_mem_mul rfl (Language.append_mem_mul hg rfl), ?_⟩
    simp only [List.append_assoc]
  · obtain ⟨u, hu, he⟩ := Option.map_eq_some_iff.1 hd
    cases he
    obtain rfl := exactly?_eq_some_iff.1 hu
    refine ⟨_, Language.append_mem_mul rfl (Language.append_mem_mul hg rfl), ?_⟩
    simp only [List.append_assoc]

/-- What is read off a content is the event that is written there. -/
theorem eventStart?_sound (hs : Stops isBlank s.reverse) (h : eventStart? s = some (e, r)) :
    ∃ a ∈ written e, a ++ r = s := by
  have hor {x y : Option (Event × List Char)} (h : x.or y = some (e, r)) :
      x = some (e, r) ∨ y = some (e, r) :=
    (Option.or_eq_some_iff.1 h).imp_right And.right
  have hword {v : String} {f : Event} (hf : written f = {v.toList})
      (h : (exactly? v.toList s).map (f, ·) = some (e, r)) : ∃ a ∈ written e, a ++ r = s := by
    obtain ⟨t, ht, he⟩ := Option.map_eq_some_iff.1 h
    cases he
    exact ⟨v.toList, hf ▸ rfl, exactly?_eq_some_iff.1 ht⟩
  have hpoint {v : String} {f : Point → Event} (hf : ∀ p, written (f p) = wordAndPoint v p)
      (h : (wordAndPoint? v s).map (fun x => (f x.1, x.2)) = some (e, r)) :
      ∃ a ∈ written e, a ++ r = s := by
    obtain ⟨⟨p, t⟩, ht, he⟩ := Option.map_eq_some_iff.1 h
    cases he
    rw [hf]
    exact wordAndPoint?_sound ht
  obtain h | h := hor h
  · obtain h | h := hor h
    · obtain h | h := hor h
      · obtain h | h := hor h
        · obtain h | h := hor h
          · obtain h | h := hor h
            · obtain h | h := hor h
              · exact hword rfl h
              · exact hword rfl h
            · exact hpoint (fun _ => rfl) h
          · exact hpoint (fun _ => rfl) h
        · exact hpoint (fun _ => rfl) h
      · exact rename?_sound hs h
    · exact zoom?_sound h
  · exact hpoint (f := fun p => .resize p.x p.y) (fun _ => rfl) h

def words : List String :=
  ["generate", "release", "press", "move", "delete", "rename", "zoom", "resize"]

theorem words_apart : ∀ v ∈ words, ∀ w ∈ words, v ≠ w → ¬ v.toList <+: w.toList := by
  decide

theorem exactly?_of_ne {v w : String} (hv : v ∈ words) (hw : w ∈ words) (hn : v ≠ w)
    (t : List Char) : exactly? v.toList (w.toList ++ t) = none := by
  rw [Option.eq_none_iff_forall_ne_some]
  intro r hr
  obtain h | h := List.prefix_or_prefix_of_prefix ⟨r, exactly?_eq_some_iff.1 hr⟩ ⟨t, rfl⟩
  · exact words_apart v hv w hw hn h
  · exact words_apart w hw v hv hn.symm h

theorem wordAndPoint?_of_ne {v w : String} (hv : v ∈ words) (hw : w ∈ words) (hn : v ≠ w)
    (t : List Char) : wordAndPoint? v (w.toList ++ t) = none := by
  simp only [wordAndPoint?, exactly?_of_ne hv hw hn, Option.bind_eq_bind, Option.bind_none]

theorem rename?_of_ne {w : String} (hw : w ∈ words) (hn : "rename" ≠ w) (t : List Char) :
    rename? (w.toList ++ t) = none := by
  simp only [rename?, wordAndPoint?_of_ne (by decide) hw hn, Option.bind_eq_bind, Option.bind_none]

theorem zoom?_of_ne {w : String} (hw : w ∈ words) (hn : "zoom" ≠ w) (t : List Char) :
    zoom? (w.toList ++ t) = none := by
  simp only [zoom?, exactly?_of_ne (by decide) hw hn, Option.bind_eq_bind, Option.bind_none]

theorem wordAndPoint?_whole {w : String} {p : Point} (h : s ∈ wordAndPoint w p) :
    wordAndPoint? w s = some (p, []) ∧ ∃ t, w.toList ++ t = s := by
  have hr := wordAndPoint?_append h (r := []) nofun
  rw [List.append_nil] at hr
  obtain ⟨t, -, ht⟩ := singleton_mul_eq.1 h
  exact ⟨hr, t, ht⟩

theorem rename?_of_written {p : Point} {n : Option String} (h : s ∈ written (.rename p n)) :
    rename? s = some (.rename p n, []) ∧ ∃ t, "rename".toList ++ t = s := by
  cases n with
  | none =>
    obtain ⟨hr, ht⟩ := wordAndPoint?_whole h
    refine ⟨?_, ht⟩
    simp only [rename?, hr, name?, skip1?, Option.bind_eq_bind, Option.bind_some]
  | some n =>
    obtain ⟨a, ha, u, hu, rfl⟩ := Language.mem_mul.1 h
    obtain ⟨g, hg, b, ⟨rfl, -, hn⟩, rfl⟩ := Language.mem_mul.1 hu
    obtain ⟨t, -, rfl⟩ := singleton_mul_eq.1 ha
    refine ⟨?_, t ++ (g ++ n.toList), (List.append_assoc _ _ _).symm⟩
    simp only [rename?, wordAndPoint?_append ha (ends_blanks hg), name?, skip_blanks hg hn,
      Option.bind_eq_bind, Option.bind_some, String.ofList_toList]

theorem zoom?_of_written {d : ZoomDirection} (h : s ∈ written (.zoom d)) :
    zoom? s = some (.zoom d, []) ∧ ∃ t, "zoom".toList ++ t = s := by
  have hread {w : String} (hw : s ∈ {"zoom".toList} * (blanks * {w.toList}))
      (hs : Stops isBlank w.toList) (hd : direction? w.toList = some (d, [])) :
      zoom? s = some (.zoom d, []) ∧ ∃ t, "zoom".toList ++ t = s := by
    obtain ⟨t, ht, rfl⟩ := singleton_mul_eq.1 hw
    obtain ⟨g, hg, u, rfl, rfl⟩ := Language.mem_mul.1 ht
    refine ⟨?_, _, rfl⟩
    simp only [zoom?, exactly?_eq_some_iff.2 rfl, skip_blanks hg hs, hd, Option.bind_eq_bind,
      Option.bind_some]
  cases d with
  | inwards => exact hread h (stops_cons rfl) rfl
  | outwards => exact hread h (stops_cons rfl) rfl

/-- No word begins like another, so each way to write an event is read as that event. -/
theorem eventStart?_of_written (h : s ∈ written e) : eventStart? s = some (e, []) := by
  cases e with
  | generate =>
    obtain rfl : s = "generate".toList := h
    rfl
  | release =>
    obtain rfl : s = "release".toList := h
    rfl
  | press p =>
    obtain ⟨hr, t, rfl⟩ := wordAndPoint?_whole h
    simp (disch := decide) only [eventStart?, exactly?_of_ne, hr, Option.map_none, Option.none_or,
      Option.map_some, Option.some_or]
  | move p =>
    obtain ⟨hr, t, rfl⟩ := wordAndPoint?_whole h
    simp (disch := decide) only [eventStart?, exactly?_of_ne, wordAndPoint?_of_ne, hr,
      Option.map_none, Option.none_or, Option.map_some, Option.some_or]
  | delete p =>
    obtain ⟨hr, t, rfl⟩ := wordAndPoint?_whole h
    simp (disch := decide) only [eventStart?, exactly?_of_ne, wordAndPoint?_of_ne, hr,
      Option.map_none, Option.none_or, Option.map_some, Option.some_or]
  | resize width height =>
    obtain ⟨hr, t, rfl⟩ := wordAndPoint?_whole h
    simp (disch := decide) only [eventStart?, exactly?_of_ne, wordAndPoint?_of_ne, rename?_of_ne,
      zoom?_of_ne, hr, Option.map_none, Option.none_or, Option.map_some]
  | rename p n =>
    obtain ⟨hr, t, rfl⟩ := rename?_of_written h
    simp (disch := decide) only [eventStart?, exactly?_of_ne, wordAndPoint?_of_ne, hr,
      Option.map_none, Option.none_or, Option.some_or]
  | zoom d =>
    obtain ⟨hr, t, rfl⟩ := zoom?_of_written h
    simp (disch := decide) only [eventStart?, exactly?_of_ne, wordAndPoint?_of_ne, rename?_of_ne,
      hr, Option.map_none, Option.none_or, Option.some_or]

/-- A content without a blank at its end is an event exactly if it is a way to write it. -/
theorem event?_eq_some_iff (hs : Stops isBlank s.reverse) :
    event? s = some e ↔ s ∈ written e := by
  constructor
  · intro h
    simp only [event?] at h
    split at h
    · next f r hr =>
      split at h
      · next hb =>
        cases h
        obtain ⟨a, ha, rfl⟩ := eventStart?_sound hs hr
        rw [stops_reverse_suffix hs (List.all_eq_true.1 hb), List.append_nil]
        exact ha
      · cases h
    · cases h
  · intro h
    simp [event?, eventStart?_of_written h]

end Event

end SchemaSketch.Script
