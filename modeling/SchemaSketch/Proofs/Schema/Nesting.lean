import SchemaSketch.Proofs.Safety.Parsing

/-!
The depth of nesting. The reader that finds the end of a body and the one that cuts it at commas
keep counts of their own, and the second lets its count stay at zero where there is nothing to
close. In a balanced body this does not happen, and both counts are the true depth.
-/
namespace SchemaSketch.Schema

open Text

def countOn (depth : Nat) (c : Char) : Nat :=
  if c = '(' then depth + 1 else if c = ')' then depth - 1 else depth

def countBehind (depth : Nat) (u : List Char) : Nat :=
  u.foldl countOn depth

def CutBehind (pieces : List (List Char)) (u : List Char) : Prop :=
  ∃ ps qs, ps ≠ [] ∧ qs ≠ [] ∧ ps ++ qs = pieces ∧ [','].intercalate ps = u

/-- Where a body is read as far as `u`, and `v` is left of it, its readers know the depth. -/
structure DepthKnown (u v rest : List Char) : Prop where
  /-- The count is the number of parentheses that are open. -/
  exact_count : countBehind 0 u + u.count ')' = u.count '('
  /-- It is not at zero where a parenthesis is closed. -/
  not_below : v.head? = some ')' → 0 < countBehind 0 u
  /-- With this count the end of the body is found. -/
  ending : body? (countBehind 0 u) (v ++ ')' :: rest) = some (v, rest)
  /-- With this count the cutting goes on, in the last piece so far. -/
  cutting : ∃ ps p, cutAtCommas 0 u = ps ++ [p] ∧
    cutAtCommas 0 (u ++ v) = ps ++ (cutAtCommas (countBehind 0 u) v).modifyHead (p ++ ·)

variable {depth : Nat} {body s u v : List Char} {pieces ps qs : List (List Char)}

section Matching

/-- Before the outermost of the open parentheses is closed, all others are. -/
theorem exists_closing (h : Closes (depth + 1) s) :
    ∃ b r, Closes depth b ∧ b ++ ')' :: r = s := by
  induction s generalizing depth with
  | nil => exact absurd (closes_nil.1 h) (Nat.succ_ne_zero depth)
  | cons c s ih =>
    by_cases h1 : c = '('
    · subst h1
      obtain ⟨b, r, hb, rfl⟩ := ih (closes_opening.1 h)
      exact ⟨'(' :: b, r, closes_opening.2 hb, rfl⟩
    by_cases h2 : c = ')'
    · subst h2
      have hs := closes_closing.1 h
      cases depth with
      | zero => exact ⟨[], s, closes_nil.2 rfl, rfl⟩
      | succ depth =>
        obtain ⟨b, r, hb, rfl⟩ := ih hs
        exact ⟨')' :: b, r, closes_closing.2 hb, rfl⟩
    · obtain ⟨b, r, hb, rfl⟩ := ih ((closes_other h1 h2).1 h)
      exact ⟨c :: b, r, (closes_other h1 h2).2 hb, rfl⟩

theorem balanced_parenthesized (h : Balanced body) : Balanced ('(' :: body ++ [')']) := by
  rw [← closes_zero_iff, List.cons_append, closes_opening, closes_append (closes_zero_iff.2 h),
    closes_closing, closes_nil]

theorem isSome_parenthesized?_iff :
    (parenthesized? s).isSome = true ↔ ∃ p, p <+: s ∧ p.head? = some '(' ∧ Balanced p := by
  rw [Option.isSome_iff_exists]
  constructor
  · intro h
    obtain ⟨⟨b, r⟩, h⟩ := h
    obtain ⟨hb, rfl⟩ := parenthesized?_eq_some_iff.1 h
    exact ⟨'(' :: b ++ [')'], ⟨r, by simp⟩, rfl, balanced_parenthesized hb⟩
  · intro h
    obtain ⟨p, ⟨t, rfl⟩, hp, hb⟩ := h
    obtain ⟨q, rfl⟩ := List.head?_eq_some_iff.1 hp
    obtain ⟨b, r, hbody, rfl⟩ := exists_closing (closes_opening.1 (closes_zero_iff.2 hb))
    exact ⟨(b, r ++ t), parenthesized?_eq_some_iff.2 ⟨closes_zero_iff.1 hbody, by simp⟩⟩

end Matching

section Counting

theorem cutAtCommas_cons (depth : Nat) (c : Char) (s : List Char) :
    cutAtCommas depth (c :: s) =
      if c = ',' ∧ depth = 0 then [] :: cutAtCommas (countOn depth c) s
      else consHead c (cutAtCommas (countOn depth c) s) := by
  rw [cutAtCommas, countOn]
  by_cases h1 : c = '('
  · simp [h1]
  by_cases h2 : c = ')'
  · simp [h2]
  by_cases h3 : c = ',' ∧ depth = 0
  · simp [h3]
  · simp only [if_neg h1, if_neg h2, if_neg h3]

theorem consHead_modifyHead (c : Char) (p : List Char) (h : pieces ≠ []) :
    consHead c (pieces.modifyHead (p ++ ·)) = pieces.modifyHead (c :: p ++ ·) := by
  cases pieces with
  | nil => exact absurd rfl h
  | cons piece pieces => rfl

/-- The cutting goes on behind a text with the count, and with the piece that the text ends in. -/
theorem cutAtCommas_behind (depth : Nat) (u v : List Char) :
    ∃ ps p, cutAtCommas depth u = ps ++ [p] ∧
      cutAtCommas depth (u ++ v) =
        ps ++ (cutAtCommas (countBehind depth u) v).modifyHead (p ++ ·) := by
  induction u generalizing depth with
  | nil => exact ⟨[], [], rfl, (Guarded.modifyHead_nil_append _).symm⟩
  | cons c u ih =>
    obtain ⟨ps, p, hu, huv⟩ := ih (countOn depth c)
    rw [List.cons_append, cutAtCommas_cons, cutAtCommas_cons, hu, huv]
    split
    · exact ⟨[] :: ps, p, rfl, rfl⟩
    · cases ps with
      | nil => exact ⟨[], c :: p, rfl, consHead_modifyHead c p (cutAtCommas_ne_nil _ v)⟩
      | cons q ps => exact ⟨(c :: q) :: ps, p, rfl, rfl⟩

/-- What is left of a text closes as many parentheses as the count says are open. -/
theorem closes_behind (h : Closes depth (u ++ v)) : Closes (countBehind depth u) v := by
  induction u generalizing depth with
  | nil => exact h
  | cons c u ih =>
    apply ih
    rw [List.cons_append] at h
    by_cases h1 : c = '('
    · subst h1
      exact closes_opening.1 h
    by_cases h2 : c = ')'
    · subst h2
      cases depth with
      | zero => exact absurd h not_closes_closing
      | succ depth => exact closes_closing.1 h
    · rw [countOn, if_neg h1, if_neg h2]
      exact (closes_other h1 h2).1 h

theorem depthKnown_of_balanced (h : Balanced (u ++ v)) (rest : List Char) :
    DepthKnown u v rest := by
  have hv := closes_behind (closes_zero_iff.2 h)
  constructor
  · have htotal := h.2
    have hleft := hv.2
    rw [List.count_append, List.count_append] at htotal
    omega
  · intro hc
    obtain ⟨w, rfl⟩ := List.head?_eq_some_iff.1 hc
    refine Nat.pos_of_ne_zero fun hz => ?_
    rw [hz] at hv
    exact not_closes_closing hv
  · exact body?_eq_some_iff.2 ⟨hv, rfl⟩
  · exact cutAtCommas_behind 0 u v

end Counting

section Cuts

theorem intercalate_append (s : List Char) (hp : ps ≠ []) (hq : qs ≠ []) :
    s.intercalate (ps ++ qs) = s.intercalate ps ++ (s ++ s.intercalate qs) := by
  induction ps with
  | nil => exact absurd rfl hp
  | cons p ps ih =>
    cases ps with
    | nil =>
      obtain ⟨q, qs, rfl⟩ := List.exists_cons_of_ne_nil hq
      rw [List.singleton_append, List.intercalate_cons_cons, List.intercalate_singleton,
        List.append_assoc]
    | cons p' ps =>
      have hrest := ih (List.cons_ne_nil p' ps)
      rw [List.cons_append, List.cons_append, List.intercalate_cons_cons, ← List.cons_append, hrest,
        List.intercalate_cons_cons, List.append_assoc (p ++ s)]

theorem IsCut.append (hu : IsCut u ps) (hv : IsCut v qs) : IsCut (u ++ ',' :: v) (ps ++ qs) := by
  obtain ⟨hp, hps, rfl⟩ := hu
  obtain ⟨hq, hqs, rfl⟩ := hv
  refine ⟨List.append_ne_nil_of_left_ne_nil hp qs, ?_, intercalate_append [','] hp hq⟩
  exact List.forall_mem_append.2 ⟨hps, hqs⟩

theorem balanced_append_comma (hu : Balanced u) : Balanced (u ++ ',' :: v) ↔ Balanced v := by
  have happend : Closes (0 + 0) (u ++ ',' :: v) ↔ Closes 0 (',' :: v) :=
    closes_append (closes_zero_iff.2 hu)
  rw [← closes_zero_iff, ← closes_zero_iff]
  exact happend.trans (closes_other (by decide) (by decide))

/-- What is cut into balanced pieces is balanced. -/
theorem balanced_intercalate (hp : ps ≠ []) (h : ∀ p ∈ ps, Balanced p) :
    Balanced ([','].intercalate ps) := by
  induction ps with
  | nil => exact absurd rfl hp
  | cons p ps ih =>
    rw [List.forall_mem_cons] at h
    cases ps with
    | nil =>
      rw [List.intercalate_singleton]
      exact h.1
    | cons q ps =>
      rw [List.intercalate_cons_cons, List.append_assoc]
      exact (balanced_append_comma h.1).2 (ih (List.cons_ne_nil q ps) h.2)

theorem isCut_cutAtCommas (h : Balanced body) : IsCut body (cutAtCommas 0 body) :=
  (isCut_iff h).2 rfl

theorem IsCut.balanced (h : IsCut body pieces) : Balanced body := by
  obtain ⟨hn, hp, rfl⟩ := h
  exact balanced_intercalate hn fun p hmem => (hp p hmem).1

/-- The cuts are the commas at depth zero. -/
theorem IsCut.cutBehind_iff (h : IsCut body pieces) (hs : u ++ ',' :: v = body) :
    CutBehind pieces u ↔ u.count ')' = u.count '(' := by
  constructor
  · intro hc
    obtain ⟨ps, qs, hp, -, rfl, rfl⟩ := hc
    exact (balanced_intercalate hp fun p hmem => (h.2.1 p (List.mem_append_left qs hmem)).1).2
  · intro hcount
    obtain rfl := hs
    have hbody := h.balanced
    have hu : Balanced u := ⟨fun w hw => hbody.1 w (hw.trans (List.prefix_append u _)), hcount⟩
    have hv := (balanced_append_comma hu).1 hbody
    have hboth := (isCut_cutAtCommas hu).append (isCut_cutAtCommas hv)
    -- There is only one cut of the body.
    have hpieces := ((isCut_iff hbody).1 hboth).symm.trans ((isCut_iff hbody).1 h)
    exact ⟨_, _, cutAtCommas_ne_nil 0 u, cutAtCommas_ne_nil 0 v, hpieces,
      (isCut_cutAtCommas hu).2.2⟩

end Cuts

/-- A body is read exactly if the text begins with a parenthesis that is closed in a balanced part
of it. The text is split in one way then, and the body is cut at its commas at depth zero and at no
others; both readers know the depth throughout, and cutting at positions of bytes gives the same. -/
theorem matching_agrees_with_cutting (s : List Char) :
    ((parenthesized? s).isSome = true ↔ ∃ p, p <+: s ∧ p.head? = some '(' ∧ Balanced p) ∧
    ∀ body rest, parenthesized? s = some (body, rest) →
      Guarded.parenthesized s = .ok (some (body, rest)) ∧
      (∀ b r, Balanced b ∧ '(' :: b ++ ')' :: r = s ↔ b = body ∧ r = rest) ∧
      (∀ u v, u ++ v = body → DepthKnown u v rest) ∧
      ∃ pieces, Guarded.cutFrom body 0 0 0 body = .ok pieces ∧
        (∀ ps, IsCut body ps ↔ ps = pieces) ∧
        (∀ u v, u ++ ',' :: v = body → (CutBehind pieces u ↔ u.count ')' = u.count '(')) ∧
        entries body = (pieces.map trim).filter (!·.isEmpty) := by
  refine ⟨isSome_parenthesized?_iff, fun body rest h => ?_⟩
  have hbody := (parenthesized?_eq_some_iff.1 h).1
  have hcut := isCut_cutAtCommas hbody
  refine ⟨?_, fun b r => ?_, fun u v hs => ?_, cutAtCommas 0 body, ?_, fun ps => ?_,
    fun u v hs => hcut.cutBehind_iff hs, rfl⟩
  · rw [Guarded.parenthesized_eq, h]
  · rw [← parenthesized?_eq_some_iff, h, Option.some_inj, Prod.mk.injEq]
    exact and_congr eq_comm eq_comm
  · obtain rfl := hs
    exact depthKnown_of_balanced hbody rest
  · exact Guarded.cutFrom_body body
  · rw [isCut_iff hbody, eq_comm]

/-- Characters of several bytes stand among the parentheses and commas, and a blank piece. -/
theorem matching_agrees_with_cutting_of_accents :
    let body := "é (1,ü), ,b".toList
    let pieces := ["é (1,ü)".toList, [' '], ['b']]
    parenthesized? ('(' :: body ++ ')' :: ['ö', ')']) = some (body, ['ö', ')']) ∧
      DepthKnown "é (1".toList ",ü), ,b".toList ['ö', ')'] ∧ IsCut body pieces ∧
      entries body = ["é (1,ü)".toList, ['b']] := by
  intro body pieces
  have hread : parenthesized? ('(' :: body ++ ')' :: ['ö', ')']) = some (body, ['ö', ')']) := by
    decide +kernel
  obtain ⟨-, -, hdepth, cuts, hcuts, hcut, -, hentries⟩ :=
    (matching_agrees_with_cutting _).2 _ _ hread
  have hpieces : Guarded.cutFrom body 0 0 0 body = .ok pieces := by decide +kernel
  obtain rfl : cuts = pieces := Except.ok.inj (hcuts.symm.trans hpieces)
  refine ⟨hread, hdepth _ _ (by decide +kernel), (hcut _).2 rfl, hentries.trans ?_⟩
  decide +kernel

end SchemaSketch.Schema
