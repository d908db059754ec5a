import SchemaSketch.Proofs.Safety.Slices
import SchemaSketch.Proofs.Schema.Cleaning
import SchemaSketch.Proofs.Schema.Parentheses

/-!
The reader of tables with its texts cut at positions. No cut is refused, and it reads what
`Schema.ofText` reads.
-/
namespace SchemaSketch.Guarded

open Text Schema

def dropLengthsFrom (kept s : List Char) : Except Breach (List Char) :=
  match find? '(' s with
  | none => .ok (kept ++ s)
  | some opening =>
    match _hs : onwards (opening + 1) s with
    | .error breach => .error breach
    | .ok behind => do
      let kept := kept ++ (← upTo opening s)
      match _hr : lengthTail? behind with
      | some r => dropLengthsFrom (← upTo (size (trimEnd kept)) kept) r
      | none => dropLengthsFrom (kept ++ ['(']) behind
termination_by s.length
decreasing_by
  · have := length_of_onwards (Nat.succ_pos _) _hs
    have := length_of_lengthTail? _hr
    omega
  · exact length_of_onwards (Nat.succ_pos _) _hs

def bodyFrom (text : List Char) (position depth : Nat) :
    List Char → Except Breach (Option (List Char × List Char))
  | [] => .ok none
  | c :: s =>
    if c = '(' then bodyFrom text (position + c.utf8Size) (depth + 1) s
    else if c = ')' then
      if depth = 0 then do
        let body ← upTo position text
        let rest ← onwards (position + 1) text
        .ok (some (body, rest))
      else do
        let depth ← lower depth
        bodyFrom text (position + c.utf8Size) depth s
    else bodyFrom text (position + c.utf8Size) depth s

def parenthesized : List Char → Except Breach (Option (List Char × List Char))
  | [] => .ok none
  | c :: s => if c = '(' then bodyFrom s 0 0 s else .ok none

def cutFrom (body : List Char) (start position depth : Nat) :
    List Char → Except Breach (List (List Char))
  | [] => do
    let piece ← onwards start body
    .ok [piece]
  | c :: s =>
    if c = '(' then cutFrom body start (position + c.utf8Size) (depth + 1) s
    else if c = ')' then cutFrom body start (position + c.utf8Size) (depth - 1) s
    else if c = ',' ∧ depth = 0 then do
      let piece ← between start position body
      let pieces ← cutFrom body (position + 1) (position + c.utf8Size) depth s
      .ok (piece :: pieces)
    else cutFrom body start (position + c.utf8Size) depth s

def table (name body : List Char) : Except Breach Table := do
  let pieces ← cutFrom body 0 0 0 body
  let declared := ((pieces.map trim).filter (!·.isEmpty)).filterMap entryOf?
  .ok ⟨String.ofList name, declared.filterMap Entry.column?, declared.filterMap Entry.foreignKey?⟩

def heading? (s : List Char) : Option (List Char × List Char) := do
  let s ← keyword? "CREATE".toList s
  let s ← skip1? isGap s
  let s ← keyword? "TABLE".toList s
  let s ← skip1? isGap s
  let (name, s) ← run1? isTableNameChar ((ifNotExists? s).getD s)
  some (name, s.dropWhile isGap)

def statement (s : List Char) : Except Breach (Option (Table × List Char)) :=
  match heading? s with
  | none => .ok none
  | some (name, s) => do
    match ← parenthesized s with
    | none => .ok none
    | some (body, s) =>
      let t ← table name body
      .ok (some (t, s))

section Readers

variable {a p s : List Char}

theorem upTo_trimEnd (s : List Char) : upTo (size (trimEnd s)) s = .ok (trimEnd s) := by
  have hs : trimEnd s ++ (s.reverse.takeWhile isSpace).reverse = s := by
    rw [trimEnd, ← List.reverse_append, List.takeWhile_append_dropWhile, List.reverse_reverse]
  have h := upTo_append (trimEnd s) (s.reverse.takeWhile isSpace).reverse
  rwa [hs] at h

theorem dropLengthsFrom_opening (ha : '(' ∉ a) (kept b : List Char) :
    dropLengthsFrom kept (a ++ '(' :: b) =
      match lengthTail? b with
      | some r => dropLengthsFrom (trimEnd (kept ++ a)) r
      | none => dropLengthsFrom (kept ++ a ++ ['(']) b := by
  have hb : onwards (size a + 1) (a ++ '(' :: b) = .ok b := onwards_after a '(' b
  rw [dropLengthsFrom]
  split
  · next h => rw [find?_append ha] at h; cases h
  next opening h =>
  obtain rfl : size a = opening := Option.some_inj.1 ((find?_append ha b).symm.trans h)
  split
  · next h => rw [hb] at h; cases h
  next behind h =>
  obtain rfl : b = behind := Except.ok.inj (hb.symm.trans h)
  rw [upTo_append]
  simp only [bind_ok]
  cases lengthTail? b with
  | some r => simp only [upTo_trimEnd, bind_ok]
  | none => rfl

theorem dropLengthsFrom_eq (kept s : List Char) :
    dropLengthsFrom kept s = .ok (Schema.dropLengthsFrom kept.reverse s) := by
  induction hn : s.length using Nat.strong_induction_on generalizing kept s with
  | _ n ih =>
  subst hn
  by_cases hs : '(' ∈ s
  · obtain ⟨a, b, rfl, ha⟩ := List.eq_append_cons_of_mem hs
    rw [dropLengthsFrom_opening ha, strips_of_not_mem ha]
    have hb : b.length < (a ++ '(' :: b).length := by simp; omega
    cases hr : lengthTail? b with
    | some r =>
      have := length_of_lengthTail? hr
      rw [dropLengthsFrom_length hr]
      simp only
      rw [ih _ (by omega) _ _ rfl, trimEnd, List.reverse_reverse, List.reverse_append]
    | none =>
      rw [Schema.dropLengthsFrom_opening hr]
      simp only
      rw [ih _ hb _ _ rfl]
      simp
  · rw [dropLengthsFrom, find?_eq_none hs]
    have h := strips_of_not_mem hs kept.reverse []
    rw [List.append_nil, Schema.dropLengthsFrom] at h
    rw [h]
    simp

theorem bodyFrom_eq (depth : Nat) (a s : List Char) :
    bodyFrom (a ++ s) (size a) depth s =
      .ok ((body? depth s).map fun (b, r) => (a ++ b, r)) := by
  induction s generalizing a depth with
  | nil => rfl
  | cons c s ih =>
    -- The position of the next character is the size of what has been read up to it.
    have next (d : Nat) : bodyFrom (a ++ c :: s) (size a + c.utf8Size) d s =
        .ok (((body? d s).map fun (b, r) => (c :: b, r)).map fun (b, r) => (a ++ b, r)) := by
      have h := ih d (a ++ [c])
      rw [size_concat, List.append_assoc] at h
      refine h.trans ?_
      simp [Function.comp_def]
    simp only [bodyFrom, body?]
    split
    · exact next (depth + 1)
    · split
      · next hc =>
        subst hc
        cases depth with
        | zero =>
          have hr : onwards (size a + 1) (a ++ ')' :: s) = .ok s := onwards_after a ')' s
          simp [upTo_append, hr]
        | succ depth => exact next depth
      · exact next depth

theorem parenthesized_eq (s : List Char) : parenthesized s = .ok (parenthesized? s) := by
  cases s with
  | nil => rfl
  | cons c s =>
    rw [parenthesized, parenthesized?]
    split
    · refine (bodyFrom_eq 0 [] s).trans ?_
      simp
    · rfl

theorem modifyHead_consHead (p : List Char) (c : Char) {pieces : List (List Char)}
    (h : pieces ≠ []) :
    (consHead c pieces).modifyHead (p ++ ·) = pieces.modifyHead (p ++ [c] ++ ·) := by
  cases pieces with
  | nil => exact absurd rfl h
  | cons piece pieces => simp [consHead]

theorem modifyHead_nil_append (pieces : List (List Char)) :
    pieces.modifyHead ([] ++ ·) = pieces := by
  cases pieces <;> rfl

theorem cutFrom_eq (depth : Nat) (a p s : List Char) :
    cutFrom (a ++ p ++ s) (size a) (size (a ++ p)) depth s =
      .ok ((cutAtCommas depth s).modifyHead (p ++ ·)) := by
  induction s generalizing a p depth with
  | nil =>
    rw [cutFrom, List.append_assoc, onwards_append]
    rfl
  | cons c s ih =>
    have next (d : Nat) : cutFrom (a ++ p ++ c :: s) (size a) (size (a ++ p) + c.utf8Size) d s =
        .ok ((consHead c (cutAtCommas d s)).modifyHead (p ++ ·)) := by
      have h := ih d a (p ++ [c])
      rw [← List.append_assoc a, size_concat, List.append_assoc _ [c]] at h
      rw [modifyHead_consHead p c (cutAtCommas_ne_nil d s)]
      exact h
    rw [cutFrom, cutAtCommas]
    split
    · exact next (depth + 1)
    · split
      · exact next (depth - 1)
      · split
        · next hc =>
          obtain ⟨rfl, rfl⟩ := hc
          have h := ih 0 (a ++ p ++ [',']) []
          rw [List.append_nil, size_concat, List.append_assoc _ [',']] at h
          rw [modifyHead_nil_append] at h
          simp only [between_append, bind_ok]
          refine (congrArg (· >>= _) h).trans ?_
          simp
        · exact next depth

theorem cutFrom_body (body : List Char) : cutFrom body 0 0 0 body = .ok (cutAtCommas 0 body) := by
  have h : cutFrom body 0 0 0 body = _ := cutFrom_eq 0 [] [] body
  rw [h, modifyHead_nil_append]

theorem table_eq (name body : List Char) : table name body = .ok (Schema.table name body) := by
  rw [table, cutFrom_body]
  rfl

theorem statement?_eq (s : List Char) :
    statement? s = (heading? s).bind fun (name, s) =>
      (parenthesized? s).map fun (body, s) => (Schema.table name body, s) := by
  simp only [statement?, heading?, Option.bind_eq_bind, Option.bind_assoc, Option.bind_some,
    Option.map_eq_bind, Function.comp_def]

theorem statement_eq (s : List Char) : statement s = .ok (statement? s) := by
  rw [statement, statement?_eq]
  cases heading? s with
  | none => rfl
  | some x =>
    simp only [parenthesized_eq, bind_ok, Option.bind_some]
    cases parenthesized? x.2 with
    | none => rfl
    | some y => simp [table_eq]

end Readers

def tables (s : List Char) : Except Breach (List Table) :=
  match s with
  | [] => .ok []
  | c :: s =>
    match _ht : statement (c :: s) with
    | .error breach => .error breach
    | .ok (some (t, rest)) => do
      let ts ← tables rest
      .ok (t :: ts)
    | .ok none =>
      match _hs : onwards c.utf8Size (c :: s) with
      | .error breach => .error breach
      | .ok rest => tables rest
termination_by s.length
decreasing_by
  · rw [statement_eq] at _ht
    exact length_of_statement? (Except.ok.inj _ht)
  · exact length_of_onwards c.utf8Size_pos _hs

theorem tables_eq (s : List Char) : tables s = .ok (Schema.tables s) := by
  induction s using Schema.tables.induct with
  | case1 => rw [tables, Schema.tables]
  | case2 c s t rest h ih =>
    have hs : statement (c :: s) = .ok (some (t, rest)) := by rw [statement_eq, h]
    rw [tables, Schema.tables]
    split
    · next h' => rw [hs] at h'; cases h'
    · next h' =>
      rw [hs] at h'
      cases h'
      split
      · next h' =>
        rw [h] at h'
        cases h'
        rw [ih, bind_ok]
      · next h' => rw [h] at h'; cases h'
    · next h' => rw [hs] at h'; cases h'
  | case3 c s h ih =>
    have hs : statement (c :: s) = .ok none := by rw [statement_eq, h]
    have hc : onwards c.utf8Size (c :: s) = .ok s := by simpa [size] using onwards_append [c] s
    rw [tables, Schema.tables]
    split
    · next h' => rw [hs] at h'; cases h'
    · next h' => rw [hs] at h'; cases h'
    · split
      · next h' => rw [hc] at h'; cases h'
      · next h' =>
        rw [hc] at h'
        cases h'
        split
        · next h' => rw [h] at h'; cases h'
        · exact ih

def ofText (text : String) : Except Breach (List Table) := do
  let s ← dropLengthsFrom [] (dropQuotes text.toList)
  tables s

/-- No text can be cut where it should not be. -/
theorem ofText_eq (text : String) : ofText text = .ok (Schema.ofText text) := by
  rw [ofText, dropLengthsFrom_eq, bind_ok, tables_eq]
  rfl

end SchemaSketch.Guarded
