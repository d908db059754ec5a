import SchemaSketch.Schema.Cleanup
import SchemaSketch.Schema.Entry

/-!
Reading `CREATE TABLE` statements out of a text. Whatever is not such a statement is skipped, so
that reading never fails.
-/
namespace SchemaSketch.Schema

open Text

/-- Splits a text behind an opening parenthesis into what stands before the parenthesis that
closes it and what stands after that one; `depth` more are open. -/
def body? (depth : Nat) : List Char → Option (List Char × List Char)
  | [] => none
  | c :: s =>
    if c = '(' then (body? (depth + 1) s).map fun (body, rest) => (c :: body, rest)
    else if c = ')' then
      match depth with
      | 0 => some ([], s)
      | depth + 1 => (body? depth s).map fun (body, rest) => (c :: body, rest)
    else (body? depth s).map fun (body, rest) => (c :: body, rest)

def parenthesized? : List Char → Option (List Char × List Char)
  | [] => none
  | c :: s => if c = '(' then body? 0 s else none

def ifNotExists? (s : List Char) : Option (List Char) := do
  let s ← keyword? "IF".toList s
  let s ← skip1? isGap s
  let s ← keyword? "NOT".toList s
  let s ← skip1? isGap s
  let s ← keyword? "EXISTS".toList s
  skip1? isGap s

def statement? (s : List Char) : Option (Table × List Char) := do
  let s ← keyword? "CREATE".toList s
  let s ← skip1? isGap s
  let s ← keyword? "TABLE".toList s
  let s ← skip1? isGap s
  let (name, s) ← run1? isTableNameChar ((ifNotExists? s).getD s)
  let (body, s) ← parenthesized? (s.dropWhile isGap)
  some (table name body, s)

theorem length_of_body? {depth : Nat} {s b r : List Char} (h : body? depth s = some (b, r)) :
    s.length = b.length + 1 + r.length := by
  induction s generalizing depth b with
  | nil => simp [body?] at h
  | cons c s ih =>
    have step {d : Nat} {b : List Char}
        (h : (body? d s).map (fun x => (c :: x.1, x.2)) = some (b, r)) :
        (c :: s).length = b.length + 1 + r.length := by
      obtain ⟨⟨b', r'⟩, hb, he⟩ := Option.map_eq_some_iff.1 h
      simp only [Prod.mk.injEq] at he
      obtain ⟨rfl, rfl⟩ := he
      have := ih hb
      simp only [List.length_cons]; omega
    simp only [body?] at h
    split at h
    · exact step h
    · split at h
      · split at h
        · simp only [Option.some.injEq, Prod.mk.injEq] at h
          obtain ⟨rfl, rfl⟩ := h
          simp only [List.length_cons, List.length_nil]; omega
        · exact step h
      · exact step h

theorem length_of_parenthesized? {s b r : List Char} (h : parenthesized? s = some (b, r)) :
    s.length = b.length + 2 + r.length := by
  cases s with
  | nil => simp [parenthesized?] at h
  | cons c s =>
    simp only [parenthesized?] at h
    split at h
    · have := length_of_body? h
      simp only [List.length_cons]; omega
    · simp at h

theorem length_of_ifNotExists? {s r : List Char} (h : ifNotExists? s = some r) :
    r.length < s.length := by
  simp only [ifNotExists?, Option.bind_eq_bind, Option.bind_eq_some_iff] at h
  obtain ⟨s1, h1, s2, h2, s3, h3, s4, h4, s5, h5, h6⟩ := h
  have := length_of_keyword? h1
  have := length_of_skip1? h2
  have := length_of_keyword? h3
  have := length_of_skip1? h4
  have := length_of_keyword? h5
  have := length_of_skip1? h6
  omega

theorem length_of_statement? {s r : List Char} {t : Table} (h : statement? s = some (t, r)) :
    r.length < s.length := by
  simp only [statement?, Option.bind_eq_bind, Option.bind_eq_some_iff] at h
  obtain ⟨s1, h1, s2, h2, s3, h3, s4, h4, ⟨n, s5⟩, h5, ⟨b, s6⟩, h6, h7⟩ := h
  simp only [Option.some.injEq, Prod.mk.injEq] at h7
  obtain ⟨-, rfl⟩ := h7
  have := length_of_keyword? h1
  have := length_of_skip1? h2
  have := length_of_keyword? h3
  have := length_of_skip1? h4
  have hs : ((ifNotExists? s4).getD s4).length ≤ s4.length := by
    cases hi : ifNotExists? s4 with
    | none => simp
    | some s' => have := length_of_ifNotExists? hi; simp only [Option.getD_some]; omega
  have := (length_of_run1? h5).1
  have : (s5.dropWhile isGap).length = b.length + 2 + s6.length := length_of_parenthesized? h6
  have := length_dropWhile_le isGap s5
  omega

def tables (s : List Char) : List Table :=
  match s with
  | [] => []
  | c :: s =>
    match _h : statement? (c :: s) with
    | some (t, rest) => t :: tables rest
    | none => tables s
termination_by s.length
decreasing_by
  · exact length_of_statement? _h
  · simp

def ofText (text : String) : List Table :=
  tables (cleanup text.toList)

end SchemaSketch.Schema
