import SchemaSketch.Proofs.Text.Languages

/-!
Trimming, and the lines of a text. The lines are told from the text alone, without the line that is
held while it is read.
-/
namespace SchemaSketch.Text

section Trim

variable {s g g' : List Char}

theorem trim_of_spaces (hg : g ∈ zeroOrMore isSpace) : trim g = [] := by
  have h : trimStart g = [] := List.dropWhile_eq_nil_iff.2 hg
  rw [trim, h]
  rfl

theorem trim_of_stops (hg : g ∈ zeroOrMore isSpace) (hg' : g' ∈ zeroOrMore isSpace) (hn : s ≠ [])
    (hs : Stops isSpace s) (hr : Stops isSpace s.reverse) : trim (g ++ s ++ g') = s := by
  have hend : ∀ c ∈ g'.reverse, isSpace c = true := fun c hc => hg' c (List.mem_reverse.1 hc)
  rw [trim, trimStart, List.append_assoc, dropWhile_append_of_stops hg (hs.append hn), trimEnd,
    List.reverse_append, dropWhile_append_of_stops hend hr, List.reverse_reverse]

theorem stops_trim (s : List Char) : Stops isSpace (trim s) := by
  have hp : trim s <+: trimStart s := by
    rw [← List.reverse_suffix, trim, trimEnd, List.reverse_reverse]
    exact List.dropWhile_suffix isSpace
  intro c hc
  obtain ⟨r, hr⟩ := hp
  refine stops_dropWhile isSpace s c ?_
  change c ∈ (trimStart s).head?
  rw [← hr, List.head?_append, hc]
  rfl

theorem stops_reverse_trim (s : List Char) : Stops isSpace (trim s).reverse := by
  rw [trim, trimEnd, List.reverse_reverse]
  exact stops_dropWhile isSpace _

/-- Only white space is lost. -/
theorem exists_append_trim (s : List Char) :
    ∃ g ∈ zeroOrMore isSpace, ∃ g' ∈ zeroOrMore isSpace, g ++ trim s ++ g' = s := by
  refine ⟨s.takeWhile isSpace, fun c hc => List.mem_takeWhile_imp hc,
    ((trimStart s).reverse.takeWhile isSpace).reverse,
    fun c hc => List.mem_takeWhile_imp (List.mem_reverse.1 hc), ?_⟩
  have hend : trim s ++ ((trimStart s).reverse.takeWhile isSpace).reverse = trimStart s := by
    rw [trim, trimEnd, ← List.reverse_append, List.takeWhile_append_dropWhile,
      List.reverse_reverse]
  rw [List.append_assoc, hend]
  exact List.takeWhile_append_dropWhile

theorem mem_of_mem_trim {c : Char} (h : c ∈ trim s) : c ∈ s := by
  obtain ⟨g, -, g', -, hs⟩ := exists_append_trim s
  rw [← hs]
  exact List.mem_append_left _ (List.mem_append_right _ h)

end Trim

/-- The lines of a text: a line ends at a line feed, together with a carriage return before it; what
follows the last line feed is a line of its own unless it is empty. -/
inductive Lines : List Char → List (List Char) → Prop
  | none : Lines [] []
  | last {line : List Char} : line ≠ [] → '\n' ∉ line → Lines line [line]
  | fed {line rest : List Char} {more : List (List Char)} : '\n' ∉ line →
      line.getLast? ≠ some '\r' → Lines rest more → Lines (line ++ '\n' :: rest) (line :: more)
  | returned {line rest : List Char} {more : List (List Char)} : '\n' ∉ line →
      Lines rest more → Lines (line ++ '\r' :: '\n' :: rest) (line :: more)

theorem Lines.no_line_feed {s : List Char} {ls : List (List Char)} (h : Lines s ls) :
    ∀ line ∈ ls, '\n' ∉ line := by
  induction h with
  | none => exact nofun
  | last _ hl => simpa using hl
  | fed hl _ _ ih | returned hl _ ih => exact List.forall_mem_cons.2 ⟨hl, ih⟩

theorem linesFrom_append {line : List Char} (h : '\n' ∉ line) (held s : List Char) :
    linesFrom held (line ++ s) = linesFrom (line.reverse ++ held) s := by
  induction line generalizing held with
  | nil => rfl
  | cons c line ih =>
    rw [List.mem_cons, not_or] at h
    rw [List.cons_append, linesFrom, if_neg (Ne.symm h.1), ih h.2, List.reverse_cons,
      List.append_assoc]
    rfl

theorem lines_of_lines {s : List Char} {ls : List (List Char)} (h : Lines s ls) : lines s = ls := by
  induction h with
  | none => rfl
  | @last line hn hl =>
    have h := linesFrom_append hl [] []
    rw [List.append_nil] at h
    simp [lines, h, linesFrom, hn]
  | @fed line rest more hl hr h ih =>
    have hd : dropReturn line.reverse = line.reverse := by
      unfold dropReturn
      split
      · next t ht =>
        rw [List.reverse_eq_cons_iff] at ht
        simp [ht] at hr
      · rfl
    rw [lines, linesFrom_append hl, List.append_nil, linesFrom, if_pos rfl, hd, List.reverse_reverse]
    exact congrArg _ ih
  | @returned line rest more hl h ih =>
    rw [lines, linesFrom_append hl, linesFrom, if_neg (by decide), linesFrom, if_pos rfl,
      List.append_nil, dropReturn, List.reverse_reverse]
    exact congrArg _ ih

theorem lines_linesFrom {held : List Char} (hh : '\n' ∉ held) (s : List Char) :
    Lines (held.reverse ++ s) (linesFrom held s) := by
  induction s generalizing held with
  | nil =>
    rw [List.append_nil, linesFrom]
    split
    · next h =>
      rw [List.isEmpty_iff.1 h]
      exact .none
    · next h => exact .last (by simpa using h) (by simpa using hh)
  | cons c s ih =>
    rw [linesFrom]
    split
    · next hc =>
      subst hc
      have hrest : Lines s (linesFrom [] s) := @ih [] (by simp)
      unfold dropReturn
      split
      · next line =>
        rw [List.reverse_cons, List.append_assoc]
        refine .returned ?_ hrest
        simpa using hh
      · next hr =>
        refine .fed (by simpa using hh) (fun h => ?_) hrest
        rw [List.getLast?_reverse] at h
        obtain ⟨t, ht⟩ := List.head?_eq_some_iff.1 h
        exact hr t ht
    · next hc =>
      have h := @ih (c :: held) (by simp [hh, Ne.symm hc])
      rwa [List.reverse_cons, List.append_assoc] at h

/-- The lines that are read are the lines of the text. -/
theorem lines_iff {s : List Char} {ls : List (List Char)} : lines s = ls ↔ Lines s ls := by
  constructor
  · intro h
    subst h
    exact @lines_linesFrom [] (by simp) s
  · exact lines_of_lines

end SchemaSketch.Text
