import SchemaSketch.Proofs.Schema.WrittenForm

/-!
Lengths anywhere in a text. A text falls in one way into lengths, each with the white space before
it, and what stands between them; cleaning drops the first and keeps the second.
-/
namespace SchemaSketch.Schema

open Text

def specifier : Language Char :=
  parens (spacing * oneOrMore Char.isDigit * spacing)

def Lengthless (s : List Char) : Prop :=
  ∀ a ∈ specifier, ¬ a <:+: s

inductive Marking where
  | last (kept : List Char)
  | next (kept mark : List Char) (rest : Marking)

namespace Marking

def text : Marking → List Char
  | last s => s
  | next s t m => s ++ (t ++ m.text)

def kept : Marking → List Char
  | last s => s
  | next s _ m => s ++ m.kept

/-- What is marked are lengths with all the white space before them, and no length stands in what
is not marked. -/
def Valid : Marking → Prop
  | last s => Lengthless s
  | next s t m => Lengthless s ∧ Stops isSpace s.reverse ∧ t ∈ lengthMark ∧ m.Valid

end Marking

variable {a g k r s t u v w : List Char} {c : Char}

section Specifiers

theorem lengthTail?_eq_some_iff :
    lengthTail? s = some r ↔ ∃ a ∈ specifier, a ++ r = '(' :: s := by
  constructor
  · intro h
    simp only [lengthTail?, Option.bind_eq_bind, Option.bind_eq_some_iff] at h
    obtain ⟨⟨w, t⟩, hw, hr⟩ := h
    obtain ⟨hdigits, -, hs⟩ := run1?_eq_some_iff.1 hw
    have ht := exactly?_eq_some_iff.1 hr
    have hgap (x : List Char) : x.takeWhile isGap ∈ spacing := fun c hc =>
      List.mem_takeWhile_imp hc
    refine ⟨_, mem_parens.2 ⟨_, Language.append_mem_mul
      (Language.append_mem_mul (hgap s) hdigits) (hgap t), rfl⟩, ?_⟩
    calc
      '(' :: (s.takeWhile isGap ++ w ++ t.takeWhile isGap ++ [')']) ++ r =
          '(' :: (s.takeWhile isGap ++ (w ++ (t.takeWhile isGap ++ ([')'] ++ r)))) := by simp
      _ = '(' :: s := by
        rw [ht, List.takeWhile_append_dropWhile, hs, List.takeWhile_append_dropWhile]
  · intro h
    obtain ⟨a, ha, he⟩ := h
    obtain ⟨d, hd, rfl⟩ := mem_parens.1 ha
    rw [List.cons_append, List.cons.injEq] at he
    rw [← he.2]
    exact lengthTail?_of_digits hd r

/-- A specifier holds no second opening parenthesis. -/
theorem opening_not_mem_tail (ha : a ∈ specifier) : '(' ∉ a.tail := by
  obtain ⟨d, hd, rfl⟩ := mem_parens.1 ha
  have hspacing : ∀ d ∈ spacing, '(' ∉ d := fun d hd h => absurd (hd _ h) (by decide)
  have hdigits := not_mem_mul (not_mem_mul hspacing (not_mem_oneOrMore (p := Char.isDigit) rfl))
    hspacing
  exact List.not_mem_append (hdigits d hd) (by decide)

/-- A specifier ends with its closing parenthesis. -/
theorem closing_mem_of_specifier (ha : v ++ w ∈ specifier) (hw : w ≠ []) : ')' ∈ w := by
  obtain ⟨d, -, he⟩ := mem_parens.1 ha
  have hlast := congrArg List.getLast? he
  rw [← List.cons_append, List.getLast?_concat, List.getLast?_append_of_ne_nil v hw] at hlast
  exact List.mem_of_getLast? hlast.symm

end Specifiers

section Pieces

theorem lengthless_nil : Lengthless [] := by
  intro a ha hi
  obtain ⟨d, -, rfl⟩ := mem_parens.1 ha
  cases List.infix_nil.1 hi

/-- A length that begins a text is read there, whatever follows it. -/
theorem lengthless_cons (hn : lengthTail? (s ++ r) = none ∨ c ≠ '(') (hs : Lengthless s) :
    Lengthless (c :: s) := by
  intro a ha hi
  obtain ⟨x, hx⟩ | hi := List.infix_cons_iff.1 hi
  · have hopen : c = '(' := by
      obtain ⟨d, -, rfl⟩ := mem_parens.1 ha
      exact (List.cons.inj hx).1.symm
    have hread : lengthTail? (s ++ r) = some (x ++ r) := by
      refine lengthTail?_eq_some_iff.2 ⟨a, ha, ?_⟩
      rw [← List.append_assoc, hx, hopen, List.cons_append]
    obtain hn | hc := hn
    · rw [hread] at hn
      cases hn
    · exact hc hopen
  · exact hs a ha hi

/-- No length begins in a piece without lengths and ends in a mark behind it. -/
theorem lengthTail?_before_mark (hs : Lengthless (u ++ '(' :: v)) (ht : t ∈ lengthMark) :
    lengthTail? (v ++ (t ++ r)) = none := by
  by_contra hn
  obtain ⟨q, hq⟩ := Option.ne_none_iff_exists'.1 hn
  obtain ⟨a, ha, he⟩ := lengthTail?_eq_some_iff.1 hq
  rw [← List.cons_append] at he
  have hin {x : List Char} (hx : '(' :: v = a ++ x) : False := by
    refine hs a ha ⟨u, x, ?_⟩
    rw [hx, List.append_assoc]
  obtain ⟨x, hx, -⟩ | ⟨w, rfl, hw⟩ := List.append_eq_append_iff.1 he
  · exact hin hx
  by_cases hnil : w = []
  · exact @hin [] (by simp [hnil])
  -- What stands of it in the mark has a closing parenthesis and no opening one, so that it would
  -- end in the white space.
  have hclose := closing_mem_of_specifier ha hnil
  have hopen : '(' ∉ w := fun h => opening_not_mem_tail ha (List.mem_append_right v h)
  obtain ⟨g, b, hg, -, rfl⟩ := mem_lengthMark ht
  rw [List.append_assoc] at hw
  obtain ⟨x, rfl, hx⟩ | ⟨x, rfl, -⟩ := List.append_eq_append_iff.1 hw
  · cases x with
    | nil =>
      rw [List.append_nil] at hclose
      exact absurd (hg _ hclose) (by decide)
    | cons c x =>
      rw [List.cons_append, List.cons_append, List.cons.injEq] at hx
      exact hopen (hx.1 ▸ List.mem_append_right g List.mem_cons_self)
  · exact absurd (hg _ (List.mem_append_left x hclose)) (by decide)

theorem Lengthless.lengthTail?_eq_none (hs : Lengthless (u ++ '(' :: v)) :
    lengthTail? v = none := by
  by_contra hn
  obtain ⟨q, hq⟩ := Option.ne_none_iff_exists'.1 hn
  obtain ⟨a, ha, he⟩ := lengthTail?_eq_some_iff.1 hq
  exact hs a ha ⟨u, q, by rw [List.append_assoc, he]⟩

/-- A piece is kept as it is if none of its parentheses opens a length. -/
theorem dropLengthsFrom_piece (h : ∀ u v, s = u ++ '(' :: v → lengthTail? (v ++ r) = none) :
    dropLengthsFrom k (s ++ r) = dropLengthsFrom (s.reverse ++ k) r := by
  induction s generalizing k with
  | nil => rfl
  | cons c s ih =>
    have hs : ∀ u v, s = u ++ '(' :: v → lengthTail? (v ++ r) = none :=
      fun u v he => h (c :: u) v (congrArg (c :: ·) he)
    rw [List.cons_append, List.reverse_cons, List.append_assoc, List.singleton_append, ← ih hs]
    by_cases hc : c = '('
    · subst hc
      exact dropLengthsFrom_opening (h [] s rfl)
    · exact dropLengthsFrom_cons hc

theorem not_stops_of_spaces (hg : g ∈ zeroOrMore isSpace) (hn : g ≠ []) :
    ¬ Stops isSpace (s ++ g).reverse := by
  intro h
  obtain ⟨x, c, rfl⟩ := (List.eq_nil_or_concat g).resolve_left hn
  have hspace : isSpace c = true := hg c (by simp)
  rw [h c (by simp)] at hspace
  cases hspace

theorem mem_lengthMark_of_specifier (ha : a ∈ specifier) : a ∈ lengthMark :=
  Language.append_mem_mul (a := []) (fun _ h => nomatch h) ha

/-- White space in front of a length goes with it. -/
theorem mem_lengthMark_cons (hc : isSpace c = true) (ht : t ∈ lengthMark) :
    c :: t ∈ lengthMark := by
  obtain ⟨g, hg, a, ha, rfl⟩ := Language.mem_mul.1 ht
  exact Language.append_mem_mul (a := c :: g) (List.forall_mem_cons.2 ⟨hc, hg⟩) ha

end Pieces

namespace Marking

variable {m m' : Marking}

/-- No length begins in a piece that is not marked, whatever follows it. -/
theorem Valid.lengthTail?_eq_none (h : (next (u ++ '(' :: v) t m).Valid) :
    lengthTail? (v ++ (t ++ m.text)) = none :=
  lengthTail?_before_mark h.1 h.2.2.1

/-- A character in front of a text goes to the first piece, or to the first mark. -/
theorem exists_cons (hm : m.Valid) (hn : lengthTail? m.text = none ∨ c ≠ '(') :
    ∃ m' : Marking, m'.text = c :: m.text ∧ m'.Valid := by
  cases m with
  | last s =>
    refine ⟨last (c :: s), rfl, lengthless_cons (r := []) ?_ hm⟩
    rwa [List.append_nil]
  | next s t m =>
    obtain ⟨hs, hstop, ht, hm⟩ := hm
    by_cases hc : s = [] ∧ isSpace c = true
    · obtain ⟨rfl, hc⟩ := hc
      exact ⟨next [] (c :: t) m, rfl, hs, hstop, mem_lengthMark_cons hc ht, hm⟩
    · refine ⟨next (c :: s) t m, rfl, lengthless_cons hn hs, ?_, ht, hm⟩
      rw [List.reverse_cons]
      by_cases hnil : s = []
      · subst hnil
        exact stops_cons (Bool.eq_false_of_not_eq_true fun h => hc ⟨rfl, h⟩)
      · exact hstop.append (List.reverse_ne_nil_iff.2 hnil)

theorem exists_valid (s : List Char) : ∃ m : Marking, m.text = s ∧ m.Valid := by
  -- Lengths are found as cleaning finds them, whatever was kept before.
  obtain ⟨k⟩ : Nonempty (List Char) := ⟨[]⟩
  induction k, s using dropLengthsFrom.induct with
  | case1 => exact ⟨last [], rfl, lengthless_nil⟩
  | case2 k s r h ih =>
    obtain ⟨m, rfl, hm⟩ := ih
    obtain ⟨a, ha, he⟩ := lengthTail?_eq_some_iff.1 h
    exact ⟨next [] a m, he, lengthless_nil, stops_of_forall (List.forall_mem_nil _),
      mem_lengthMark_of_specifier ha, hm⟩
  | case3 k s h ih =>
    obtain ⟨m, rfl, hm⟩ := ih
    exact exists_cons hm (Or.inl h)
  | case4 k c s hc ih =>
    obtain ⟨m, rfl, hm⟩ := ih
    exact exists_cons hm (Or.inr hc)

theorem Valid.text_ne (h : (last s).Valid) (h' : (next u t m).Valid) :
    (last s).text ≠ (next u t m).text := by
  intro he
  obtain ⟨-, -, ht, -⟩ := h'
  obtain ⟨g, -, a, ha, rfl⟩ := Language.mem_mul.1 ht
  refine h a ha ⟨u ++ g, m.text, ?_⟩
  rw [text, text] at he
  simp [he]

/-- A piece goes on up to the white space before the first length. -/
theorem Valid.length_le (h : (next s t m).Valid) (h' : (next u v m').Valid)
    (he : (next s t m).text = (next u v m').text) : u.length ≤ s.length := by
  by_contra hl
  obtain ⟨-, -, ht, -⟩ := h
  obtain ⟨g, b, hg, hb, rfl⟩ := mem_lengthMark ht
  obtain ⟨x, rfl, hx⟩ | ⟨x, rfl, -⟩ := List.append_eq_append_iff.1 he
  · have hn : x ≠ [] := by
      rintro rfl
      simp at hl
    rw [List.append_assoc] at hx
    obtain ⟨y, rfl, hy⟩ | ⟨y, rfl, -⟩ := List.append_eq_append_iff.1 hx
    · cases y with
      | nil =>
        rw [List.append_nil] at hn h'
        exact not_stops_of_spaces hg hn h'.2.1
      | cons c y =>
        rw [List.cons_append, List.cons_append, List.cons.injEq] at hy
        obtain ⟨rfl, hy⟩ := hy
        rw [← List.append_assoc] at h'
        have hnone := h'.lengthTail?_eq_none
        rw [← hy, hb] at hnone
        cases hnone
    · exact not_stops_of_spaces (fun c hc => hg c (List.mem_append_left y hc)) hn h'.2.1
  · simp at hl

theorem Valid.eq_of_text_eq (h : m.Valid) (h' : m'.Valid) (he : m.text = m'.text) : m = m' := by
  induction m generalizing m' with
  | last s =>
    cases m' with
    | last s' => exact congrArg last he
    | next s' t' m' => exact absurd he (h.text_ne h')
  | next s t m ih =>
    cases m' with
    | last s' => exact absurd he.symm (h'.text_ne h)
    | next s' t' m' =>
      have hl := h.length_le h' he
      have hl' := h'.length_le h he.symm
      obtain ⟨rfl, hs⟩ := List.append_inj he (Nat.le_antisymm hl' hl)
      obtain ⟨-, -, ht, hm⟩ := h
      obtain ⟨-, -, ht', hm'⟩ := h'
      obtain ⟨g, b, hg, hb, rfl⟩ := mem_lengthMark ht
      obtain ⟨g', b', hg', hb', rfl⟩ := mem_lengthMark ht'
      rw [List.append_assoc, List.append_assoc, List.cons_append, List.cons_append] at hs
      have hspaces := congrArg (List.takeWhile isSpace) hs
      rw [takeWhile_append_of_stops hg (stops_cons rfl),
        takeWhile_append_of_stops hg' (stops_cons rfl)] at hspaces
      subst hspaces
      -- Both lengths end where one is read from here.
      rw [List.append_cancel_left_eq, List.cons.injEq] at hs
      have hr := hb m.text
      rw [hs.2, hb', Option.some_inj] at hr
      obtain rfl := ih hm hm' hr.symm
      rw [List.append_cancel_right hs.2]

/-- What is not marked is kept, and what is marked is dropped. -/
theorem Valid.dropLengthsFrom_text (h : m.Valid) (hk : Stops isSpace k) :
    dropLengthsFrom k m.text = k.reverse ++ m.kept := by
  induction m generalizing k with
  | last s =>
    have hpiece := dropLengthsFrom_piece (k := k) (s := s) (r := []) fun u v he => by
      rw [List.append_nil]
      exact Lengthless.lengthTail?_eq_none (he ▸ h)
    rw [List.append_nil, dropLengthsFrom, List.reverse_append, List.reverse_reverse] at hpiece
    exact hpiece
  | next s t m ih =>
    have hpiece := dropLengthsFrom_piece (k := k) (s := s) (r := t ++ m.text) fun u v he => by
      subst he
      exact h.lengthTail?_eq_none
    obtain ⟨-, hstop, ht, hm⟩ := h
    obtain ⟨g, b, hg, hb, rfl⟩ := mem_lengthMark ht
    have hstop' : Stops isSpace (s.reverse ++ k) := by
      by_cases hs : s = []
      · rw [hs]
        exact hk
      · exact hstop.append (List.reverse_ne_nil_iff.2 hs)
    have hspaces : ∀ c ∈ g.reverse, isSpace c = true := fun c hc => hg c (List.mem_reverse.1 hc)
    have hopen : '(' ∉ g := fun hc => absurd (hg _ hc) (by decide)
    calc
      dropLengthsFrom k (s ++ (g ++ '(' :: b ++ m.text)) =
          dropLengthsFrom (g.reverse ++ (s.reverse ++ k)) ('(' :: (b ++ m.text)) := by
        rw [hpiece, List.append_assoc, strips_of_not_mem hopen, List.cons_append]
      _ = dropLengthsFrom (s.reverse ++ k) m.text := by
        rw [dropLengthsFrom_length (hb m.text), dropWhile_append_of_stops hspaces hstop']
      _ = k.reverse ++ (s ++ m.kept) := by
        rw [ih hm hstop', List.reverse_append, List.reverse_reverse, List.append_assoc]

end Marking

/-- Every text falls into lengths, each with all the white space before it, and pieces without
lengths in one way, and these pieces are what is left of it. -/
theorem dropLengths_marked (s : List Char) : ∃ m : Marking, m.text = s ∧ m.Valid ∧
    (∀ m' : Marking, m'.text = s → m'.Valid → m' = m) ∧ dropLengths s = m.kept := by
  obtain ⟨m, rfl, hm⟩ := Marking.exists_valid s
  refine ⟨m, rfl, hm, fun m' he hm' => hm'.eq_of_text_eq hm he, ?_⟩
  exact hm.dropLengthsFrom_text (k := []) (stops_of_forall (List.forall_mem_nil _))

end SchemaSketch.Schema
