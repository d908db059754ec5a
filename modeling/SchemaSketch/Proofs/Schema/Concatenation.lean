import SchemaSketch.Proofs.Schema.Cleaning
import SchemaSketch.Proofs.Schema.Factorisation

/-!
Schemas one behind the other. A text that ends with its last clause, and closes all parentheses it
opens, is read in the same way whatever follows it, and what follows is read as if it stood alone.
-/
namespace SchemaSketch.Schema

open Text

def ClosesAll (s : List Char) : Prop :=
  ∀ u v, s = u ++ '(' :: v → ∃ body r, Balanced body ∧ v = body ++ ')' :: r

def Factorisation.remainder : Factorisation → List Char
  | last g => g
  | next _ _ f => f.remainder

def EndsInClause (s : List Char) : Prop :=
  ∃ f : Factorisation, f.text = s ∧ f.Valid ∧ f.clauses ≠ [] ∧ f.remainder = []

section Cleaning

variable {p : Char → Bool} {c : Char} {a b k r s : List Char}

theorem mem_dropWhile (hc : c ∈ s) (hp : p c = false) : c ∈ s.dropWhile p := by
  rw [← List.takeWhile_append_dropWhile (p := p) (l := s)] at hc
  obtain hc | hc := List.mem_append.1 hc
  · rw [List.mem_takeWhile_imp hc] at hp
    cases hp
  · exact hc

/-- A run that ends within a text does not reach what follows it. -/
theorem dropWhile_append_of_mem (hc : c ∈ s) (hp : p c = false) :
    (s ++ r).dropWhile p = s.dropWhile p ++ r ∧ (s ++ r).takeWhile p = s.takeWhile p := by
  induction s with
  | nil => cases hc
  | cons d s ih =>
    rw [List.cons_append, List.dropWhile_cons, List.dropWhile_cons, List.takeWhile_cons,
      List.takeWhile_cons]
    cases hd : p d with
    | false => exact ⟨rfl, rfl⟩
    | true =>
      have hne : c ≠ d := by
        rintro rfl
        rw [hd] at hp
        cases hp
      obtain ⟨h1, h2⟩ := ih ((List.mem_cons.1 hc).resolve_left hne)
      rw [if_pos rfl, if_pos rfl, if_pos rfl, if_pos rfl, h1, h2]
      exact ⟨rfl, rfl⟩

theorem lengthTail?_append_of_mem (hc : c ∈ s) (hg : isGap c = false) (hd : c.isDigit = false) :
    lengthTail? (s ++ r) = (lengthTail? s).map (· ++ r) := by
  have hc' := mem_dropWhile hc hg
  obtain ⟨hdrop, htake⟩ := dropWhile_append_of_mem (r := r) hc' hd
  rw [lengthTail?, lengthTail?, (dropWhile_append_of_mem hc hg).1, run1?, run1?, hdrop, htake]
  cases (s.dropWhile isGap).takeWhile Char.isDigit with
  | nil => rfl
  | cons w ws =>
    have hc'' := mem_dropWhile hc' hd
    simp only [Option.bind_eq_bind, Option.bind_some]
    rw [(dropWhile_append_of_mem hc'' hg).1]
    cases hl : ((s.dropWhile isGap).dropWhile Char.isDigit).dropWhile isGap with
    | nil =>
      have hn := mem_dropWhile hc'' hg
      rw [hl] at hn
      cases hn
    | cons e es => by_cases he : e = ')' <;> simp [exactly?, he]

theorem closing_mem_of_lengthTail? (h : lengthTail? s = some r) : ')' ∈ s := by
  simp only [lengthTail?, Option.bind_eq_bind, Option.bind_eq_some_iff] at h
  obtain ⟨⟨w, t⟩, hw, hr⟩ := h
  obtain ⟨-, -, hs⟩ := run1?_eq_some_iff.1 hw
  have ht : ')' ∈ t := by
    apply (List.dropWhile_suffix isGap).subset
    rw [← exactly?_eq_some_iff.1 hr]
    exact List.mem_cons_self
  apply (List.dropWhile_suffix isGap).subset
  rw [← hs]
  exact List.mem_append_right w ht

/-- Only a text that leaves a length open is cleaned differently when more follows, and it does not
end in a closing parenthesis. -/
theorem dropLengthsFrom_append_of_closing (h : (dropLengthsFrom k s).getLast? = some ')') :
    dropLengthsFrom k (s ++ r) = dropLengthsFrom (dropLengthsFrom k s).reverse r := by
  induction k, s using dropLengthsFrom.induct with
  | case1 k => rw [dropLengthsFrom, List.reverse_reverse, List.nil_append]
  | case2 k s t ht ih =>
    have ht' : lengthTail? (s ++ r) = some (t ++ r) := by
      rw [lengthTail?_append_of_mem (closing_mem_of_lengthTail? ht) rfl rfl, ht, Option.map_some]
    rw [dropLengthsFrom_length ht] at h ⊢
    rw [List.cons_append, dropLengthsFrom_length ht', ih h]
  | case3 k s hs ih =>
    rw [dropLengthsFrom_opening hs] at h ⊢
    by_cases hc : ∃ c ∈ s, isGap c = false ∧ c.isDigit = false
    · obtain ⟨c, hc, hg, hd⟩ := hc
      have hs' : lengthTail? (s ++ r) = none := by
        rw [lengthTail?_append_of_mem hc hg hd, hs, Option.map_none]
      rw [List.cons_append, dropLengthsFrom_opening hs', ih h]
    · -- Nothing but gaps and digits would be left behind the parenthesis.
      exfalso
      have hn {c : Char} (hg : isGap c = false) (hd : c.isDigit = false) : c ∉ s :=
        fun hm => hc ⟨c, hm, hg, hd⟩
      have hkept := strips_of_not_mem (hn (c := '(') rfl rfl) ('(' :: k) []
      rw [List.append_nil] at hkept
      rw [hkept, dropLengthsFrom, List.reverse_append, List.reverse_reverse, List.reverse_cons,
        List.append_assoc, List.getLast?_append_of_ne_nil _ (by simp)] at h
      obtain hm | hm := List.mem_cons.1 (List.mem_of_getLast? h)
      · exact absurd hm (by decide)
      · exact hn (c := ')') rfl rfl hm
  | case4 k c s hc ih =>
    rw [dropLengthsFrom_cons hc] at h ⊢
    rw [List.cons_append, dropLengthsFrom_cons hc, ih h]

theorem cleanup_append (h : (cleanup a).getLast? = some ')') :
    cleanup (a ++ b) = cleanup a ++ cleanup b := by
  have hstop : Stops isSpace (cleanup a).reverse := by
    intro c hc
    rw [List.head?_reverse, h] at hc
    obtain rfl := Option.some_inj.1 hc
    rfl
  have hb := dropLengthsFrom_append (k := []) (s := dropQuotes b) (r := []) hstop
    (fun c hc => nomatch hc)
  rw [cleanup, dropQuotes_append, dropLengths, dropLengthsFrom_append_of_closing h]
  rw [List.append_nil, dropLengthsFrom, List.reverse_append, List.reverse_reverse,
    List.reverse_reverse] at hb
  exact hb

end Cleaning

section Clauses

variable {body c g behind name r u v x : List Char} {l m : Language Char}

def Opens (body s : List Char) : Prop :=
  ∃ head, '(' ∉ head ∧ head ++ '(' :: (body ++ [')']) = s

theorem opens_mul (hl : ∀ a ∈ l, '(' ∉ a) (hm : ∀ a ∈ m, Opens body a) :
    ∀ a ∈ l * m, Opens body a := by
  intro s hs
  obtain ⟨a, ha, b, hb, rfl⟩ := Language.mem_mul.1 hs
  obtain ⟨head, hn, rfl⟩ := hm b hb
  exact ⟨a ++ head, List.not_mem_append (hl a ha) hn, List.append_assoc a head _⟩

theorem opens_of_mem_clause (hc : c ∈ clause name body) : Opens body c := by
  have hgap : ∀ a ∈ gap, '(' ∉ a := not_mem_oneOrMore rfl
  have hspacing : ∀ a ∈ spacing, '(' ∉ a := fun a ha h => absurd (ha _ h) (by decide)
  have hword {w : String} (hw : '(' ∉ w.toList) : ∀ a ∈ word w, '(' ∉ a := not_mem_word hw
  have hbody : ∀ a ∈ bracketed body, Opens body a := by
    rintro a ⟨-, rfl⟩
    exact ⟨[], List.not_mem_nil, rfl⟩
  have hname : ∀ a ∈ longest isTableNameChar name (spacing * bracketed body), Opens body a := by
    rintro a ⟨hn, b, hb, -, rfl⟩
    obtain ⟨head, hh, rfl⟩ := opens_mul hspacing hbody b hb
    have hn' : '(' ∉ name := fun h => absurd (hn.2 _ h) (by decide)
    exact ⟨name ++ head, List.not_mem_append hn' hh, List.append_assoc name head _⟩
  have hopt : ∀ a ∈ optionally condition
      (longest isTableNameChar name (spacing * bracketed body)), Opens body a := by
    intro a ha
    obtain ha | ha := ha
    · exact opens_mul not_mem_condition hname a ha
    · exact hname a ha.1
  have hhead : ∀ a ∈ word "CREATE" * gap * word "TABLE" * gap, '(' ∉ a :=
    not_mem_mul (not_mem_mul (not_mem_mul (hword (by decide)) hgap) (hword (by decide))) hgap
  exact opens_mul hhead hopt c hc

theorem ClosesAll.of_append (h : ClosesAll (u ++ v)) : ClosesAll v := by
  intro a b hv
  apply h (u ++ a) b
  rw [hv, List.append_assoc]

/-- A balanced body does not end where a parenthesis outside it is closed. -/
theorem not_balanced_of_closing (hb : Balanced body) (h : x ++ [')'] <+: body) : ¬ Balanced x := by
  intro hx
  have hle := hb.1 _ h
  have hclosing : [')'].count ')' = 1 := rfl
  have hopening : [')'].count '(' = 0 := rfl
  rw [List.count_append, List.count_append, hx.2] at hle
  omega

/-- Where all parentheses are closed, no clause comes about through what follows. -/
theorem Barren.append (h : Barren g behind) (hm : ClosesAll (g ++ behind)) (ho : '(' ∈ behind) :
    Barren g (behind ++ r) := by
  intro u v name body hg hv hmem
  obtain ⟨c, hc, t, he⟩ := mem_mul_top.1 hmem
  rw [← List.append_assoc] at he
  have hin {y : List Char} (hy : c ++ y = v ++ behind) : False :=
    h u v name body hg hv (mem_mul_top.2 ⟨c, hc, y, hy⟩)
  obtain ⟨y, hy, -⟩ | ⟨y, rfl, -⟩ := List.append_eq_append_iff.1 he
  · exact hin hy.symm
  obtain ⟨head, hn, hhead⟩ := opens_of_mem_clause hc
  -- The parenthesis that opens its body stands before the end of `behind`, and so does the one
  -- that closes it; but the clause goes on.
  obtain ⟨z, rfl, -⟩ | ⟨z, hz, hzy⟩ := List.append_eq_append_iff.1 hhead.symm
  · exact hn (List.mem_append_left z (List.mem_append_right v ho))
  cases z with
  | nil =>
    rw [List.append_nil] at hz
    exact hn (hz ▸ List.mem_append_right v ho)
  | cons d w =>
    rw [List.cons_append, List.cons.injEq] at hzy
    obtain ⟨rfl, hw⟩ := hzy
    obtain ⟨b, w', hb, rfl⟩ := hm (u ++ head) w (by
      rw [hg, List.append_assoc, hz, List.append_assoc])
    obtain rfl | ⟨y, e, rfl⟩ := List.eq_nil_or_concat y
    · exact @hin [] (by simp)
    · rw [List.concat_eq_append, ← List.append_assoc] at hw
      obtain ⟨hbody, -⟩ := List.append_inj' hw rfl
      refine not_balanced_of_closing (balanced_of_mem_clause hc) ⟨w' ++ y, ?_⟩ hb
      rw [hbody]
      simp

end Clauses

namespace Factorisation

variable {f : Factorisation}

theorem Valid.getLast?_text (h : f.Valid) (hc : f.clauses ≠ []) (hr : f.remainder = []) :
    f.text.getLast? = some ')' := by
  induction f with
  | last g => exact absurd rfl hc
  | next g c f ih =>
    obtain ⟨-, ⟨name, body, hcl⟩, hf⟩ := h
    cases f with
    | last g' =>
      obtain rfl : g' = [] := hr
      obtain ⟨head, -, rfl⟩ := opens_of_mem_clause hcl
      have he : g ++ (head ++ '(' :: (body ++ [')']) ++ []) =
          (g ++ head ++ '(' :: body) ++ [')'] := by simp
      rw [text, text, he, List.getLast?_concat]
    | next g' c' f =>
      have hl := ih hf (by simp [clauses]) hr
      have hn : (next g' c' f).text ≠ [] := by
        intro hn
        rw [hn] at hl
        cases hl
      rw [text, ← List.append_assoc, List.getLast?_append_of_ne_nil _ hn, hl]

theorem Valid.tables_append (h : f.Valid) (hr : f.remainder = []) (hm : ClosesAll f.text)
    (t : List Char) : tables (f.text ++ t) = tables f.text ++ tables t := by
  induction f with
  | last g =>
    obtain rfl : g = [] := hr
    have hnil : tables [] = [] := by rw [tables]
    rw [text, hnil]
    rfl
  | next g c f ih =>
    obtain ⟨hg, ⟨name, body, hc⟩, hf⟩ := h
    have ho : '(' ∈ c ++ f.text := by
      obtain ⟨head, -, rfl⟩ := opens_of_mem_clause hc
      simp
    have hm' : ClosesAll f.text := by
      rw [text, ← List.append_assoc] at hm
      exact hm.of_append
    calc
      tables (g ++ (c ++ f.text) ++ t) = tables (c ++ (f.text ++ t)) := by
        rw [List.append_assoc, tables_gap (hg.append hm ho), List.append_assoc]
      _ = table name body :: (tables f.text ++ tables t) := by
        rw [tables_of_statement (statement?_append hc), ih hf hr hm']
      _ = tables (g ++ (c ++ f.text)) ++ tables t := by
        rw [tables_gap hg, tables_of_statement (statement?_append hc), List.cons_append]

end Factorisation

/-- Behind a text that ends with a clause, and leaves no parenthesis open, any text can be put: the
tables of the first are followed by the tables of the second. -/
theorem ofText_append {a : String} (h : EndsInClause (cleanup a.toList))
    (hm : ClosesAll (cleanup a.toList)) (b : String) : ofText (a ++ b) = ofText a ++ ofText b := by
  obtain ⟨f, hf, hv, hc, hr⟩ := h
  have hl := hv.getLast?_text hc hr
  rw [hf] at hl
  rw [ofText, String.toList_append, cleanup_append hl, ← hf, hv.tables_append hr (hf ▸ hm), hf]
  rfl

/-- Behind a statement that ends in a length stand another length and a statement that is not
closed. -/
theorem ofText_append_length :
    let a := "CREATE TABLE [t] (id INT (5))"
    let b := " (7) CREATE TABLE u (t INT REFERENCES t(id)"
    EndsInClause (cleanup a.toList) ∧ ClosesAll (cleanup a.toList) ∧
      ofText (a ++ b) = ofText a ++ ofText b := by
  intro a b
  have hclean : cleanup a.toList = "CREATE TABLE t (id INT)".toList := by decide +kernel
  have hread : statement? "CREATE TABLE t (id INT)".toList =
      some (⟨"t", [⟨"id", "INT", false⟩], []⟩, []) := by decide +kernel
  have hends : EndsInClause (cleanup a.toList) := by
    obtain ⟨name, body, c, hc, he, -⟩ := statement?_eq_some_iff.1 hread
    refine ⟨.next [] c (.last []), ?_, ⟨barren_nil, ⟨name, body, hc⟩, barren_nil⟩,
      by simp [Factorisation.clauses], rfl⟩
    rw [hclean, ← he]
    rfl
  have hcloses : ClosesAll (cleanup a.toList) := by
    intro u v he
    rw [hclean] at he
    have hs : "CREATE TABLE t (id INT)".toList =
        "CREATE TABLE t ".toList ++ '(' :: "id INT)".toList := rfl
    rw [hs, List.append_cons_inj_of_notMem (by decide) (by decide)] at he
    obtain ⟨-, -, rfl⟩ := he
    refine ⟨"id INT".toList, [], ?_, rfl⟩
    exact closes_zero_iff.1 (closes_of_not_mem (by decide) (by decide))
  exact ⟨hends, hcloses, ofText_append hends hcloses b⟩

end SchemaSketch.Schema
