import SchemaSketch.Proofs.Text.Languages
import SchemaSketch.Schema.Cleanup

/-!
What cleaning leaves of a text, part by part. A part comes out the same wherever it stands, unless
a parenthesis in it is opened before a length that goes on behind it.
-/
namespace SchemaSketch.Schema

open Text

variable {p : Char → Bool} {g g' k kept r s s' t t' w : List Char} {c : Char}

def EndsLength (r : List Char) : Prop :=
  ∀ c ∈ r.head?, isGap c = false ∧ c.isDigit = false ∧ c ≠ ')'

theorem lengthTail?_append (hr : EndsLength r) :
    lengthTail? (s ++ r) = (lengthTail? s).map (· ++ r) := by
  have hg : Stops isGap r := fun c hc => (hr c hc).1
  have hd : Stops Char.isDigit r := fun c hc => (hr c hc).2.1
  have hrun (s : List Char) : run1? Char.isDigit (s ++ r) =
      (run1? Char.isDigit s).map fun x => (x.1, x.2 ++ r) := by
    rw [run1?, run1?, takeWhile_append_stops hd, dropWhile_append_stops hd]
    cases s.takeWhile Char.isDigit <;> rfl
  have hclose (s : List Char) : exactly? [')'] (s ++ r) = (exactly? [')'] s).map (· ++ r) := by
    cases s with
    | cons c s => by_cases hc : c = ')' <;> simp [exactly?, hc]
    | nil =>
      cases r with
      | nil => rfl
      | cons c r => simp [exactly?, (hr c rfl).2.2]
  rw [lengthTail?, lengthTail?, dropWhile_append_stops hg, hrun]
  cases run1? Char.isDigit (s.dropWhile isGap) with
  | none => rfl
  | some x =>
    simp only [Option.map_some, Option.bind_eq_bind, Option.bind_some]
    rw [dropWhile_append_stops hg, hclose]

theorem lengthTail?_of_stops (hg : g ∈ zeroOrMore isGap) (hr : Stops isGap r)
    (hd : Stops Char.isDigit r) : lengthTail? (g ++ r) = none := by
  have hrun : run1? Char.isDigit r = none := by
    rw [run1?, takeWhile_of_stops hd]
  rw [lengthTail?, dropWhile_append_of_stops hg hr, hrun]
  rfl

theorem lengthTail?_digits (hg : g ∈ zeroOrMore isGap) (hw : w ∈ oneOrMore Char.isDigit)
    (hg' : g' ∈ zeroOrMore isGap) (hd : Stops Char.isDigit (g' ++ r)) (hr : Stops isGap r) :
    lengthTail? (g ++ (w ++ (g' ++ r))) = exactly? [')'] r := by
  have hs : Stops isGap (w ++ (g' ++ r)) := by
    refine (stops_of_forall fun c hc => ?_).append hw.1
    by_contra hgap
    have hdigit := isDigit_of_isGap (Bool.of_not_eq_false hgap)
    rw [hw.2 c hc] at hdigit
    cases hdigit
  have hrun : run1? Char.isDigit (w ++ (g' ++ r)) = some (w, g' ++ r) :=
    run1?_eq_some_iff.2 ⟨hw, hd, rfl⟩
  rw [lengthTail?, dropWhile_append_of_stops hg hs, hrun]
  exact congrArg (exactly? [')']) (dropWhile_append_of_stops hg' hr)

/-- A word that is no number is no length. -/
theorem lengthTail?_word (hg : g ∈ zeroOrMore isGap)
    (hw : ∀ c ∈ w, isGap c = false ∧ c ≠ ')') (hn : ∃ c ∈ w, c.isDigit = false) :
    lengthTail? (g ++ (w ++ r)) = none := by
  have hsplit : w.takeWhile Char.isDigit ++ w.dropWhile Char.isDigit = w :=
    List.takeWhile_append_dropWhile
  have hstop := stops_dropWhile Char.isDigit w
  -- The digits at its front end at a character of the word, which closes nothing.
  cases hd : w.dropWhile Char.isDigit with
  | nil =>
    obtain ⟨c, hc, hf⟩ := hn
    rw [hd, List.append_nil] at hsplit
    rw [← hsplit] at hc
    rw [List.mem_takeWhile_imp hc] at hf
    cases hf
  | cons c rest =>
    rw [hd] at hstop hsplit
    have hc : isGap c = false ∧ c ≠ ')' := by
      apply hw c
      rw [← hsplit]
      exact List.mem_append_right _ List.mem_cons_self
    have hdigit : c.isDigit = false := hstop c rfl
    cases ht : w.takeWhile Char.isDigit with
    | nil =>
      rw [← hsplit, ht]
      exact lengthTail?_of_stops hg (stops_cons hc.1) (stops_cons hdigit)
    | cons d digits =>
      have hdigits : d :: digits ∈ oneOrMore Char.isDigit := by
        refine ⟨List.cons_ne_nil d digits, fun x hx => ?_⟩
        rw [← ht] at hx
        exact List.mem_takeWhile_imp hx
      have hnil : [] ∈ zeroOrMore isGap := fun _ h => nomatch h
      have h := lengthTail?_digits (r := c :: (rest ++ r)) hg hdigits hnil (stops_cons hdigit)
        (stops_cons hc.1)
      rw [← hsplit, ht, List.append_assoc]
      refine h.trans ?_
      simp [exactly?, hc.2]

theorem dropLengthsFrom_cons (hc : c ≠ '(') :
    dropLengthsFrom kept (c :: s) = dropLengthsFrom (c :: kept) s := by
  rw [dropLengthsFrom, if_neg hc]

theorem dropLengthsFrom_opening (h : lengthTail? s = none) :
    dropLengthsFrom kept ('(' :: s) = dropLengthsFrom ('(' :: kept) s := by
  rw [dropLengthsFrom, if_pos rfl]
  split
  · next h' => simp [h] at h'
  · rfl

theorem dropLengthsFrom_length (h : lengthTail? s = some r) :
    dropLengthsFrom kept ('(' :: s) = dropLengthsFrom (kept.dropWhile isSpace) r := by
  rw [dropLengthsFrom, if_pos rfl]
  split
  · next h' =>
    rw [h, Option.some_inj] at h'
    rw [h']
  · next h' => simp [h] at h'

/-- A text is cleaned on its own if no white space can go before it and no length on behind it. -/
theorem dropLengthsFrom_append (hk : Stops isSpace kept) (hr : EndsLength r) :
    dropLengthsFrom (k ++ kept) (s ++ r) =
      dropLengthsFrom ((dropLengthsFrom k s).reverse ++ kept) r := by
  induction k, s using dropLengthsFrom.induct with
  | case1 k => rw [dropLengthsFrom, List.reverse_reverse, List.nil_append]
  | case2 k s r' h ih =>
    have h' : lengthTail? (s ++ r) = some (r' ++ r) := by rw [lengthTail?_append hr, h]; rfl
    rw [List.cons_append, dropLengthsFrom_length h', dropLengthsFrom_length h,
      dropWhile_append_stops hk, ih]
  | case3 k s h ih =>
    have h' : lengthTail? (s ++ r) = none := by rw [lengthTail?_append hr, h]; rfl
    rw [List.cons_append, dropLengthsFrom_opening h', dropLengthsFrom_opening h]
    exact ih
  | case4 k c s hc ih =>
    rw [List.cons_append, dropLengthsFrom_cons hc, dropLengthsFrom_cons hc]
    exact ih

/-- Wherever `s` stands, cleaning leaves `t` of it. -/
def Strips (s t : List Char) : Prop :=
  ∀ kept r, dropLengthsFrom kept (s ++ r) = dropLengthsFrom (t.reverse ++ kept) r

theorem Strips.append (h : Strips s t) (h' : Strips s' t') : Strips (s ++ s') (t ++ t') := by
  intro kept r
  rw [List.append_assoc, h, h', List.reverse_append, List.append_assoc]

theorem strips_of_not_mem (h : '(' ∉ s) : Strips s s := by
  intro kept r
  induction s generalizing kept with
  | nil => rfl
  | cons c s ih =>
    have hc : c ≠ '(' := fun hc => h (hc ▸ List.mem_cons_self)
    have hs : '(' ∉ s := fun hs => h (List.mem_cons_of_mem c hs)
    rw [List.cons_append, dropLengthsFrom_cons hc, ih hs, List.reverse_cons, List.append_assoc]
    rfl

theorem Strips.opening (h : Strips s t) (hn : ∀ r, lengthTail? (s ++ r) = none) :
    Strips ('(' :: s) ('(' :: t) := by
  intro kept r
  rw [List.cons_append, dropLengthsFrom_opening (hn r), h, List.reverse_cons, List.append_assoc]
  rfl

/-- A length goes, and the white space between it and the word before it. -/
theorem Strips.length (h : Strips s w) (hw : Stops isSpace w.reverse) (hn : w ≠ [])
    (hg : g ∈ zeroOrMore isSpace) (ht : ∀ r, lengthTail? (t ++ r) = some r) :
    Strips (s ++ (g ++ '(' :: t)) w := by
  intro kept r
  have hgap : '(' ∉ g := fun hc => absurd (hg _ hc) (by decide)
  have hstop : Stops isSpace (w.reverse ++ kept) := hw.append (List.reverse_ne_nil_iff.2 hn)
  have hgr : ∀ c ∈ g.reverse, isSpace c = true := fun c hc => hg c (List.mem_reverse.1 hc)
  rw [List.append_assoc, h, List.append_assoc, strips_of_not_mem hgap, List.cons_append,
    dropLengthsFrom_length (ht r), dropWhile_append_of_stops hgr hstop]

def Cleans (l m : Language Char) : Prop :=
  ∀ s ∈ l, ∃ t ∈ m, Strips (dropQuotes s) t

section Languages

variable {l l' m m' : Language Char}

theorem isQuote_of_isSpace (h : isSpace c = true) : isQuote c = false ∧ c ≠ '(' := by
  constructor
  · by_contra hq
    simp only [Bool.not_eq_false, isQuote, Bool.or_eq_true, beq_iff_eq] at hq
    simp only [isSpace, Bool.or_eq_true, Bool.and_eq_true, decide_eq_true_eq, beq_iff_eq] at h
    obtain ((hq | hq) | rfl) | rfl := hq
    · omega
    · omega
    · revert h; decide
    · revert h; decide
  · rintro rfl
    cases h

theorem isQuote_of_isGap (h : isGap c = true) : isQuote c = false ∧ c ≠ '(' :=
  isQuote_of_isSpace (isSpace_of_isGap h)

theorem dropQuotes_append (s s' : List Char) :
    dropQuotes (s ++ s') = dropQuotes s ++ dropQuotes s' :=
  List.filter_append s s'

theorem dropQuotes_of_not_quote (h : ∀ c ∈ s, isQuote c = false) : dropQuotes s = s := by
  apply List.filter_eq_self.2
  intro c hc
  rw [h c hc]
  rfl

theorem dropQuotes_of_quote (h : s ∈ zeroOrMore isQuote) : dropQuotes s = [] := by
  apply List.filter_eq_nil_iff.2
  intro c hc
  rw [h c hc]
  exact Bool.false_ne_true

theorem Cleans.mul (h : Cleans l m) (h' : Cleans l' m') : Cleans (l * l') (m * m') := by
  intro s hs
  obtain ⟨a, ha, b, hb, rfl⟩ := Language.mem_mul.1 hs
  obtain ⟨x, hx, hax⟩ := h a ha
  obtain ⟨y, hy, hby⟩ := h' b hb
  refine ⟨x ++ y, Language.append_mem_mul hx hy, ?_⟩
  rw [dropQuotes_append]
  exact hax.append hby

theorem Cleans.add (h : Cleans l m) (h' : Cleans l' m') : Cleans (l + l') (m + m') := by
  intro s hs
  obtain hs | hs := hs
  · obtain ⟨t, ht, hst⟩ := h s hs
    exact ⟨t, Or.inl ht, hst⟩
  · obtain ⟨t, ht, hst⟩ := h' s hs
    exact ⟨t, Or.inr ht, hst⟩

theorem cleans_self (h : ∀ s ∈ l, ∀ c ∈ s, isQuote c = false ∧ c ≠ '(') : Cleans l l := by
  intro s hs
  refine ⟨s, hs, ?_⟩
  rw [dropQuotes_of_not_quote fun c hc => (h s hs c hc).1]
  exact strips_of_not_mem fun hc => (h s hs _ hc).2 rfl

theorem cleans_one : Cleans 1 1 := by
  apply cleans_self
  intro s hs c hc
  obtain rfl : s = [] := hs
  cases hc

theorem cleans_zeroOrMore (h : ∀ c, p c = true → isQuote c = false ∧ c ≠ '(') :
    Cleans (zeroOrMore p) (zeroOrMore p) := by
  apply cleans_self
  intro s hs c hc
  exact h c (hs c hc)

theorem cleans_oneOrMore (h : ∀ c, p c = true → isQuote c = false ∧ c ≠ '(') :
    Cleans (oneOrMore p) (oneOrMore p) := by
  apply cleans_self
  intro s hs c hc
  exact h c (hs.2 c hc)

theorem cleans_singleton (hq : isQuote c = false) (ho : c ≠ '(') : Cleans {[c]} {[c]} := by
  apply cleans_self
  intro s hs d hd
  obtain rfl : s = [c] := hs
  obtain rfl := List.mem_singleton.1 hd
  exact ⟨hq, ho⟩

end Languages

end SchemaSketch.Schema
