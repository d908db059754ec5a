import Mathlib.Data.List.Infix
import SchemaSketch.Schema.Statement

/-!
Parentheses. A body is read up to the parenthesis that balances its first one, and is cut at the
commas outside all parentheses; both are said here by counting, and the readers agree.
-/
namespace SchemaSketch.Schema

def Closes (depth : Nat) (s : List Char) : Prop :=
  (∀ u, u <+: s → u.count ')' ≤ depth + u.count '(') ∧ s.count ')' = depth + s.count '('

def Balanced (s : List Char) : Prop :=
  (∀ u, u <+: s → u.count ')' ≤ u.count '(') ∧ s.count ')' = s.count '('

theorem closes_zero_iff {s : List Char} : Closes 0 s ↔ Balanced s := by
  simp only [Closes, Balanced, Nat.zero_add]

theorem closes_nil {depth : Nat} : Closes depth [] ↔ depth = 0 := by
  simp [Closes, eq_comm]

theorem closes_cons {depth : Nat} {c : Char} {s : List Char} :
    Closes depth (c :: s) ↔
      (∀ u, u <+: s → (c :: u).count ')' ≤ depth + (c :: u).count '(') ∧
        (c :: s).count ')' = depth + (c :: s).count '(' := by
  refine and_congr_left fun _ => ⟨fun h u hu => ?_, fun h u hu => ?_⟩
  · exact h (c :: u) (List.cons_prefix_cons.2 ⟨rfl, hu⟩)
  · obtain rfl | ⟨v, rfl, hv⟩ := List.prefix_cons_iff.1 hu
    · simp
    · exact h v hv

theorem closes_opening {depth : Nat} {s : List Char} :
    Closes depth ('(' :: s) ↔ Closes (depth + 1) s := by
  rw [closes_cons, Closes]
  simp [Nat.add_assoc, Nat.add_comm 1]

theorem closes_closing {depth : Nat} {s : List Char} :
    Closes (depth + 1) (')' :: s) ↔ Closes depth s := by
  rw [closes_cons, Closes]
  simp [Nat.add_right_comm]

theorem not_closes_closing {s : List Char} : ¬ Closes 0 (')' :: s) := by
  intro h
  simpa using h.1 [')'] (by simp)

theorem closes_other {depth : Nat} {c : Char} {s : List Char} (ho : c ≠ '(') (hc : c ≠ ')') :
    Closes depth (c :: s) ↔ Closes depth s := by
  rw [closes_cons, Closes]
  simp [ho, hc]

/-- What closes its own parentheses leaves the others to what follows. -/
theorem closes_append {depth others : Nat} {p s : List Char} (hp : Closes depth p) :
    Closes (depth + others) (p ++ s) ↔ Closes others s := by
  induction p generalizing depth with
  | nil => rw [closes_nil.1 hp, Nat.zero_add, List.nil_append]
  | cons c p ih =>
    rw [List.cons_append]
    by_cases h1 : c = '('
    · subst h1
      rw [closes_opening, Nat.add_right_comm, ih (closes_opening.1 hp)]
    by_cases h2 : c = ')'
    · subst h2
      cases depth with
      | zero => exact absurd hp not_closes_closing
      | succ depth => rw [Nat.add_right_comm, closes_closing, ih (closes_closing.1 hp)]
    · rw [closes_other h1 h2, ih ((closes_other h1 h2).1 hp)]

theorem closes_of_not_mem {s : List Char} (ho : '(' ∉ s) (hc : ')' ∉ s) : Closes 0 s := by
  refine ⟨fun u hu => ?_, ?_⟩
  · rw [List.count_eq_zero_of_not_mem fun h => hc (hu.subset h)]
    exact Nat.zero_le _
  · rw [List.count_eq_zero_of_not_mem ho, List.count_eq_zero_of_not_mem hc]

theorem body?_eq_some_iff {depth : Nat} {s b r : List Char} :
    body? depth s = some (b, r) ↔ Closes depth b ∧ b ++ ')' :: r = s := by
  induction s generalizing depth b r with
  | nil => simp [body?]
  | cons c s ih =>
    have step (d : Nat) (hd : ∀ b', Closes depth (c :: b') ↔ Closes d b')
        (hn : c ≠ ')' ∨ ¬ Closes depth []) :
        (body? d s).map (fun x => (c :: x.1, x.2)) = some (b, r) ↔
          Closes depth b ∧ b ++ ')' :: r = c :: s := by
      simp only [Option.map_eq_some_iff, Prod.exists, Prod.mk.injEq, ih]
      constructor
      · intro h
        obtain ⟨b', r', ⟨hb, rfl⟩, rfl, rfl⟩ := h
        exact ⟨(hd b').2 hb, rfl⟩
      · intro h
        obtain ⟨hb, he⟩ := h
        cases b with
        | nil =>
          simp only [List.nil_append, List.cons.injEq] at he
          obtain hn | hn := hn
          · exact absurd he.1.symm hn
          · exact absurd hb hn
        | cons c' b =>
          simp only [List.cons_append, List.cons.injEq] at he
          obtain ⟨rfl, he⟩ := he
          exact ⟨b, r, ⟨(hd b).1 hb, he⟩, rfl, rfl⟩
    by_cases ho : c = '('
    · subst ho
      exact step (depth + 1) (fun _ => closes_opening) (.inl (by decide))
    by_cases hc : c = ')'
    · subst hc
      cases depth with
      | zero =>
        rw [show body? 0 (')' :: s) = some ([], s) from rfl, Option.some_inj, Prod.mk.injEq]
        constructor
        · intro h
          obtain ⟨rfl, rfl⟩ := h
          exact ⟨closes_nil.2 rfl, rfl⟩
        · intro h
          obtain ⟨hb, he⟩ := h
          cases b with
          | nil => simpa using he.symm
          | cons c' b =>
            simp only [List.cons_append, List.cons.injEq] at he
            exact absurd (he.1 ▸ hb) not_closes_closing
      | succ depth =>
        exact step depth (fun _ => closes_closing) (.inr (by simp [closes_nil]))
    · simp only [body?, if_neg ho, if_neg hc]
      exact step depth (fun _ => closes_other ho hc) (.inl hc)

theorem parenthesized?_eq_some_iff {s b r : List Char} :
    parenthesized? s = some (b, r) ↔ Balanced b ∧ '(' :: b ++ ')' :: r = s := by
  cases s with
  | nil => simp [parenthesized?]
  | cons c s =>
    by_cases hc : c = '('
    · simp [parenthesized?, hc, body?_eq_some_iff, closes_zero_iff]
    · simp [parenthesized?, hc, Ne.symm hc]

def CommasWithin (depth : Nat) (s : List Char) : Prop :=
  ∀ u v, s = u ++ ',' :: v → u.count ')' ≠ depth + u.count '('

def IsPiece (p : List Char) : Prop :=
  Balanced p ∧ ∀ u v, p = u ++ ',' :: v → u.count ')' ≠ u.count '('

def IsCut (body : List Char) (pieces : List (List Char)) : Prop :=
  pieces ≠ [] ∧ (∀ p ∈ pieces, IsPiece p) ∧ [','].intercalate pieces = body

theorem isPiece_iff {p : List Char} : IsPiece p ↔ Closes 0 p ∧ CommasWithin 0 p := by
  simp only [IsPiece, CommasWithin, closes_zero_iff, Nat.zero_add]

theorem commasWithin_nil {depth : Nat} : CommasWithin depth [] := by
  simp [CommasWithin]

theorem commasWithin_of_not_mem {depth : Nat} {s : List Char} (h : ',' ∉ s) :
    CommasWithin depth s := by
  intro u v he
  exact absurd (he ▸ List.mem_append_right u List.mem_cons_self) h

theorem commasWithin_cons {depth : Nat} {c : Char} {s : List Char} :
    CommasWithin depth (c :: s) ↔ (c = ',' → depth ≠ 0) ∧
      ∀ u v, s = u ++ ',' :: v → (c :: u).count ')' ≠ depth + (c :: u).count '(' := by
  constructor
  · intro h
    refine ⟨fun hc hd => h [] s (by rw [hc]; rfl) (by simp [hd]), fun u v he => ?_⟩
    exact h (c :: u) v (by rw [he]; rfl)
  · intro h u v he
    obtain ⟨hc, h⟩ := h
    cases u with
    | nil =>
      simp only [List.nil_append, List.cons.injEq] at he
      simpa using (hc he.1).symm
    | cons c' u =>
      simp only [List.cons_append, List.cons.injEq] at he
      rw [← he.1]
      exact h u v he.2

theorem commasWithin_opening {depth : Nat} {s : List Char} :
    CommasWithin depth ('(' :: s) ↔ CommasWithin (depth + 1) s := by
  rw [commasWithin_cons, CommasWithin]
  simp [Nat.add_assoc, Nat.add_comm 1]

theorem commasWithin_closing {depth : Nat} {s : List Char} :
    CommasWithin (depth + 1) (')' :: s) ↔ CommasWithin depth s := by
  rw [commasWithin_cons, CommasWithin]
  simp [Nat.add_right_comm]

theorem commasWithin_other {depth : Nat} {c : Char} {s : List Char}
    (ho : c ≠ '(') (hc : c ≠ ')') :
    CommasWithin depth (c :: s) ↔ (c = ',' → depth ≠ 0) ∧ CommasWithin depth s := by
  rw [commasWithin_cons, CommasWithin]
  simp [ho, hc]

theorem cutAtCommas_ne_nil (depth : Nat) (s : List Char) : cutAtCommas depth s ≠ [] := by
  cases s with
  | nil => exact List.cons_ne_nil _ _
  | cons c s =>
    have h (pieces : List (List Char)) : consHead c pieces ≠ [] := by
      cases pieces <;> exact List.cons_ne_nil _ _
    rw [cutAtCommas]
    split
    · exact h _
    · split
      · exact h _
      · split
        · exact List.cons_ne_nil _ _
        · exact h _

/-- A piece is cut off whole, up to the first cut behind it. -/
theorem cutAtCommas_append {depth : Nat} {p r : List Char} {ps : List (List Char)}
    (hp : Closes depth p) (hc : CommasWithin depth p) (hr : cutAtCommas 0 r = [] :: ps) :
    cutAtCommas depth (p ++ r) = p :: ps := by
  induction p generalizing depth with
  | nil =>
    obtain rfl := closes_nil.1 hp
    exact hr
  | cons c p ih =>
    rw [List.cons_append, cutAtCommas]
    by_cases h1 : c = '('
    · subst h1
      rw [if_pos rfl, ih (closes_opening.1 hp) (commasWithin_opening.1 hc)]
      rfl
    by_cases h2 : c = ')'
    · subst h2
      cases depth with
      | zero => exact absurd hp not_closes_closing
      | succ depth =>
        rw [if_neg h1, if_pos rfl, Nat.add_sub_cancel,
          ih (closes_closing.1 hp) (commasWithin_closing.1 hc)]
        rfl
    · obtain ⟨h3, hc⟩ := (commasWithin_other h1 h2).1 hc
      rw [if_neg h1, if_neg h2, if_neg fun h => h3 h.1 h.2, ih ((closes_other h1 h2).1 hp) hc]
      rfl

theorem cutAtCommas_intercalate {pieces : List (List Char)} (hn : pieces ≠ [])
    (hp : ∀ p ∈ pieces, IsPiece p) : cutAtCommas 0 ([','].intercalate pieces) = pieces := by
  induction pieces with
  | nil => exact absurd rfl hn
  | cons p ps ih =>
    obtain ⟨hb, hc⟩ := isPiece_iff.1 (hp p (by simp))
    cases ps with
    | nil =>
      rw [List.intercalate_singleton]
      simpa using cutAtCommas_append hb hc (r := []) rfl
    | cons q ps =>
      have hq := ih (by simp) fun x hx => hp x (by simp [hx])
      rw [List.intercalate_cons_cons, List.append_assoc]
      exact cutAtCommas_append hb hc (congrArg ([] :: ·) hq)

/-- The first piece may end in parentheses that were open before it; the others are whole. -/
theorem cutAtCommas_pieces {depth : Nat} {b : List Char} (hb : Closes depth b) :
    ∃ p ps, cutAtCommas depth b = p :: ps ∧ Closes depth p ∧ CommasWithin depth p ∧
      (∀ q ∈ ps, IsPiece q) ∧ [','].intercalate (p :: ps) = b := by
  induction b generalizing depth with
  | nil => exact ⟨[], [], rfl, hb, commasWithin_nil, by simp, by simp⟩
  | cons c b ih =>
    rw [cutAtCommas]
    by_cases h1 : c = '('
    · subst h1
      obtain ⟨p, ps, hs, hp, hw, hq, he⟩ := ih (closes_opening.1 hb)
      refine ⟨'(' :: p, ps, ?_, closes_opening.2 hp, commasWithin_opening.2 hw, hq, ?_⟩
      · rw [if_pos rfl, hs]
        rfl
      · rw [List.intercalate_cons_cons_left, he]
    by_cases h2 : c = ')'
    · subst h2
      cases depth with
      | zero => exact absurd hb not_closes_closing
      | succ depth =>
        obtain ⟨p, ps, hs, hp, hw, hq, he⟩ := ih (closes_closing.1 hb)
        refine ⟨')' :: p, ps, ?_, closes_closing.2 hp, commasWithin_closing.2 hw, hq, ?_⟩
        · rw [if_neg h1, if_pos rfl, Nat.add_sub_cancel, hs]
          rfl
        · rw [List.intercalate_cons_cons_left, he]
    obtain ⟨p, ps, hs, hp, hw, hq, he⟩ := ih ((closes_other h1 h2).1 hb)
    by_cases h3 : c = ',' ∧ depth = 0
    · obtain ⟨rfl, rfl⟩ := h3
      refine ⟨[], p :: ps, ?_, closes_nil.2 rfl, commasWithin_nil, ?_, ?_⟩
      · simp [hs]
      · intro q hq'
        obtain rfl | hq' := List.mem_cons.1 hq'
        · exact isPiece_iff.2 ⟨hp, hw⟩
        · exact hq q hq'
      · rw [List.intercalate_cons_cons, he]
        rfl
    · refine ⟨c :: p, ps, ?_, (closes_other h1 h2).2 hp, ?_, hq, ?_⟩
      · rw [if_neg h1, if_neg h2, if_neg h3, hs]
        rfl
      · exact (commasWithin_other h1 h2).2 ⟨fun hc hd => h3 ⟨hc, hd⟩, hw⟩
      · rw [List.intercalate_cons_cons_left, he]

theorem isCut_iff {body : List Char} {pieces : List (List Char)} (hb : Balanced body) :
    IsCut body pieces ↔ cutAtCommas 0 body = pieces := by
  constructor
  · intro h
    obtain ⟨hn, hp, rfl⟩ := h
    exact cutAtCommas_intercalate hn hp
  · intro h
    obtain rfl := h
    obtain ⟨p, ps, hs, hp, hw, hq, he⟩ := cutAtCommas_pieces (closes_zero_iff.2 hb)
    rw [hs]
    refine ⟨by simp, fun q hq' => ?_, he⟩
    obtain rfl | hq' := List.mem_cons.1 hq'
    · exact isPiece_iff.2 ⟨hp, hw⟩
    · exact hq q hq'

end SchemaSketch.Schema
