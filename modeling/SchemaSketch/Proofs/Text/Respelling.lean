import Mathlib.Data.List.Forall2
import SchemaSketch.Proofs.Text.Languages

/-!
Texts that differ in the gaps between their words and in the case of their letters. The small
readers take the same way through two such texts, and what they leave of them differs in the same
way again.
-/
namespace SchemaSketch.Text

/-- The second text is the first with other gaps in the place of its gaps, and with other characters
in the place of its characters, as far as `f` makes no difference between them. -/
inductive Respelled (f : Char → Char) : List Char → List Char → Prop
  | nil : Respelled f [] []
  | cons {c d : Char} {s t : List Char} (hc : isGap c = false) (hd : isGap d = false)
      (he : f c = f d) (h : Respelled f s t) : Respelled f (c :: s) (d :: t)
  | gap {g g' s t : List Char} (hg : g ∈ oneOrMore isGap) (hg' : g' ∈ oneOrMore isGap)
      (h : Respelled f s t) : Respelled f (g ++ s) (g' ++ t)

section Letters

variable {c d k : Char} {f : Char → Char} {p : Char → Bool} {w w' : List Char}

def ForgetsCase (f : Char → Char) : Prop :=
  ∀ c d, f c = f d → c = d ∨ c.isAlpha = true ∧ d.isAlpha = true ∧ c.toUpper = d.toUpper

theorem forgetsCase_id : ForgetsCase id :=
  fun _ _ h => Or.inl h

theorem toUpper_of_not_lower (h : c.isLower = false) : c.toUpper = c := by
  apply dif_neg
  intro hc
  have hl : c.isLower = true := Bool.and_eq_true_iff.2 ⟨decide_eq_true hc.1, decide_eq_true hc.2⟩
  rw [h] at hl
  cases hl

theorem isUpper_toUpper (h : c.isLower = true) : c.toUpper.isUpper = true := by
  obtain ⟨hl, hu⟩ := Bool.and_eq_true_iff.1 h
  have hl : 97 ≤ c.val.toNat := of_decide_eq_true hl
  have hu : c.val.toNat ≤ 122 := of_decide_eq_true hu
  have hc : c.toUpper.val = c.val + ('A'.val - 'a'.val) := by
    have hp : 'a'.val ≤ c.val ∧ c.val ≤ 'z'.val := ⟨hl, hu⟩
    unfold Char.toUpper
    rw [dif_pos hp]
  have hn : c.toUpper.val.toNat = c.val.toNat - 32 := by
    rw [hc, UInt32.toNat_add]
    have : ('A'.val - 'a'.val).toNat = 4294967264 := rfl
    omega
  apply decide_eq_true
  constructor
  · show 65 ≤ c.toUpper.val.toNat
    omega
  · show c.toUpper.val.toNat ≤ 90
    omega

theorem forgetsCase_toUpper : ForgetsCase Char.toUpper := by
  have hletter {c d : Char} (hc : c.isLower = true) (h : c.toUpper = d.toUpper) :
      c.isAlpha = true ∧ d.isAlpha = true :=
    ⟨Bool.or_eq_true_iff.2 (Or.inr hc), isAlpha_of_toUpper (h ▸ isUpper_toUpper hc)⟩
  intro c d h
  cases hc : c.isLower with
  | true => exact Or.inr ⟨(hletter hc h).1, (hletter hc h).2, h⟩
  | false =>
    cases hd : d.isLower with
    | true => exact Or.inr ⟨(hletter hd h.symm).2, (hletter hd h.symm).1, h⟩
    | false =>
      rw [toUpper_of_not_lower hc, toUpper_of_not_lower hd] at h
      exact Or.inl h

theorem ForgetsCase.toUpper_eq (hf : ForgetsCase f) (h : f c = f d) : c.toUpper = d.toUpper := by
  obtain rfl | ⟨-, -, h⟩ := hf c d h
  · rfl
  · exact h

theorem ForgetsCase.map_toUpper_eq (hf : ForgetsCase f) (h : w.map f = w'.map f) :
    w.map Char.toUpper = w'.map Char.toUpper := by
  induction w generalizing w' with
  | nil =>
    rw [List.map_nil, eq_comm, List.map_eq_nil_iff] at h
    rw [h]
  | cons c w ih =>
    cases w' with
    | nil => cases h
    | cons d w' =>
      rw [List.map_cons, List.map_cons, List.cons.injEq] at h
      rw [List.map_cons, List.map_cons, hf.toUpper_eq h.1, ih h.2]

theorem ne_of_class (hc : p c = true) (hd : p d = false) : c ≠ d := by
  rintro rfl
  rw [hc] at hd
  cases hd

theorem ForgetsCase.eq_iff (hf : ForgetsCase f) (h : f c = f d) (hk : k.isAlpha = false) :
    c = k ↔ d = k := by
  obtain rfl | ⟨hc, hd, -⟩ := hf c d h
  · exact Iff.rfl
  · exact iff_of_false (ne_of_class hc hk) (ne_of_class hd hk)

structure Coarse (p : Char → Bool) : Prop where
  letters : ∃ b, ∀ c, c.isAlpha = true → p c = b
  gaps : ∃ b, ∀ c, isGap c = true → p c = b

theorem Coarse.eq (hp : Coarse p) (hf : ForgetsCase f) (h : f c = f d) : p c = p d := by
  obtain rfl | ⟨hc, hd, -⟩ := hf c d h
  · rfl
  · obtain ⟨b, hb⟩ := hp.letters
    rw [hb c hc, hb d hd]

theorem Coarse.not (hp : Coarse p) : Coarse (!p ·) where
  letters := hp.letters.imp' (!·) fun _ hb c hc => congrArg (!·) (hb c hc)
  gaps := hp.gaps.imp' (!·) fun _ hb c hc => congrArg (!·) (hb c hc)

theorem Coarse.or {q : Char → Bool} (hp : Coarse p) (hq : Coarse q) :
    Coarse fun c => p c || q c := by
  obtain ⟨⟨b, hb⟩, ⟨b', hb'⟩⟩ := hp
  obtain ⟨⟨e, he⟩, ⟨e', he'⟩⟩ := hq
  refine ⟨⟨b || e, fun c hc => ?_⟩, ⟨b' || e', fun c hc => ?_⟩⟩
  · rw [hb c hc, he c hc]
  · rw [hb' c hc, he' c hc]

theorem coarse_beq (hl : k.isAlpha = false) (hg : isGap k = false) : Coarse (· == k) where
  letters := ⟨false, fun _ hc => beq_eq_false_iff_ne.2 (ne_of_class hc hl)⟩
  gaps := ⟨false, fun _ hc => beq_eq_false_iff_ne.2 (ne_of_class hc hg)⟩

theorem isSpace_of_isAlpha (h : c.isAlpha = true) : isSpace c = false := by
  have hn := toNat_of_isAlpha h
  simp only [isSpace, Bool.or_eq_false_iff, Bool.and_eq_false_iff, decide_eq_false_iff_not,
    beq_eq_false_iff_ne]
  omega

theorem coarse_isSpace : Coarse isSpace :=
  ⟨⟨false, fun _ => isSpace_of_isAlpha⟩, ⟨true, fun _ => isSpace_of_isGap⟩⟩

theorem coarse_isGap : Coarse isGap := by
  refine ⟨⟨false, fun c hc => ?_⟩, ⟨true, fun _ => id⟩⟩
  by_contra hg
  have hs := isSpace_of_isGap (Bool.of_not_eq_false hg)
  rw [isSpace_of_isAlpha hc] at hs
  cases hs

theorem coarse_isDigit : Coarse Char.isDigit := by
  refine ⟨⟨false, fun c hc => ?_⟩, ⟨false, fun c hc => ?_⟩⟩
  · have hn := toNat_of_isAlpha hc
    by_contra hd
    obtain ⟨-, hu⟩ := Bool.and_eq_true_iff.1 (Bool.of_not_eq_false hd)
    have hu : c.toNat ≤ 57 := of_decide_eq_true hu
    omega
  · exact isDigit_of_isGap hc

end Letters

section Parts

variable {f : Char → Char} {p : Char → Bool} {g s s' t t' : List Char}

theorem Respelled.append (h : Respelled f s t) (h' : Respelled f s' t') :
    Respelled f (s ++ s') (t ++ t') := by
  induction h with
  | nil => exact h'
  | cons hc hd he _ ih => exact .cons hc hd he ih
  | gap hg hg' _ ih =>
    rw [List.append_assoc, List.append_assoc]
    exact .gap hg hg' ih

theorem respelled_gap (hs : s ∈ oneOrMore isGap) (ht : t ∈ oneOrMore isGap) : Respelled f s t := by
  rw [← List.append_nil s, ← List.append_nil t]
  exact .gap hs ht .nil

theorem Respelled.refl (s : List Char) : Respelled f s s := by
  induction s with
  | nil => exact .nil
  | cons c s ih =>
    cases hc : isGap c with
    | false => exact .cons hc hc rfl ih
    | true =>
      have hg : [c] ∈ oneOrMore isGap :=
        ⟨List.cons_ne_nil c [], List.forall_mem_singleton.2 hc⟩
      exact .gap hg hg ih

theorem exists_cons_of_oneOrMore (hg : g ∈ oneOrMore p) (s : List Char) :
    ∃ c r, p c = true ∧ g ++ s = c :: r := by
  cases g with
  | nil => exact absurd rfl hg.1
  | cons c g => exact ⟨c, g ++ s, hg.2 c List.mem_cons_self, rfl⟩

theorem Respelled.isEmpty_eq (h : Respelled f s t) : s.isEmpty = t.isEmpty := by
  cases h with
  | nil => rfl
  | cons => rfl
  | @gap g g' s t hg hg' =>
    obtain ⟨c, r, -, he⟩ := exists_cons_of_oneOrMore hg s
    obtain ⟨c', r', -, he'⟩ := exists_cons_of_oneOrMore hg' t
    rw [he, he']
    rfl

theorem length_lt_append (hg : g ≠ []) (s : List Char) : s.length < (g ++ s).length := by
  rw [List.length_append]
  exact Nat.lt_add_of_pos_left (List.length_pos_iff.2 hg)

theorem reverse_mem_oneOrMore (h : s ∈ oneOrMore p) : s.reverse ∈ oneOrMore p :=
  ⟨List.reverse_ne_nil_iff.2 h.1, fun c hc => h.2 c (List.mem_reverse.1 hc)⟩

theorem Respelled.reverse (h : Respelled f s t) : Respelled f s.reverse t.reverse := by
  induction h with
  | nil => exact .nil
  | cons hc hd he _ ih =>
    rw [List.reverse_cons, List.reverse_cons]
    exact ih.append (.cons hc hd he .nil)
  | gap hg hg' _ ih =>
    rw [List.reverse_append, List.reverse_append]
    exact ih.append (respelled_gap (reverse_mem_oneOrMore hg) (reverse_mem_oneOrMore hg'))

theorem Respelled.filter (h : Respelled f s t) (hf : ForgetsCase f) (hp : Coarse p) :
    Respelled f (s.filter p) (t.filter p) := by
  induction h with
  | nil => exact .nil
  | @cons c d s t hc hd he _ ih =>
    have hcd := hp.eq hf he
    cases hpc : p c with
    | true =>
      rw [List.filter_cons_of_pos hpc, List.filter_cons_of_pos (hcd ▸ hpc)]
      exact .cons hc hd he ih
    | false =>
      rw [List.filter_cons_of_neg (Bool.eq_false_iff.1 hpc),
        List.filter_cons_of_neg (Bool.eq_false_iff.1 (hcd ▸ hpc))]
      exact ih
  | @gap g g' s t hg hg' _ ih =>
    rw [List.filter_append, List.filter_append]
    obtain ⟨b, hb⟩ := hp.gaps
    cases b with
    | true =>
      rw [List.filter_eq_self.2 fun c hc => hb c (hg.2 c hc),
        List.filter_eq_self.2 fun c hc => hb c (hg'.2 c hc)]
      exact .gap hg hg' ih
    | false =>
      rw [List.filter_eq_nil_iff.2 fun c hc => Bool.eq_false_iff.1 (hb c (hg.2 c hc)),
        List.filter_eq_nil_iff.2 fun c hc => Bool.eq_false_iff.1 (hb c (hg'.2 c hc))]
      exact ih

theorem stops_gap_append (hp : ∀ c, isGap c = true → p c = false) (hg : g ∈ oneOrMore isGap) :
    Stops p (g ++ s) :=
  (stops_of_forall fun c hc => hp c (hg.2 c hc)).append hg.1

theorem Respelled.dropWhile (h : Respelled f s t) (hf : ForgetsCase f) (hp : Coarse p) :
    Respelled f (s.dropWhile p) (t.dropWhile p) := by
  induction h with
  | nil => exact .nil
  | @cons c d s t hc hd he h ih =>
    rw [List.dropWhile_cons, List.dropWhile_cons, hp.eq hf he]
    cases p d with
    | true => exact ih
    | false => exact .cons hc hd he h
  | @gap g g' s t hg hg' h ih =>
    obtain ⟨b, hb⟩ := hp.gaps
    cases b with
    | true =>
      rw [List.dropWhile_append_of_pos fun c hc => hb c (hg.2 c hc),
        List.dropWhile_append_of_pos fun c hc => hb c (hg'.2 c hc)]
      exact ih
    | false =>
      rw [dropWhile_of_stops (stops_gap_append hb hg), dropWhile_of_stops (stops_gap_append hb hg')]
      exact .gap hg hg' h

theorem Respelled.trim (h : Respelled f s t) (hf : ForgetsCase f) :
    Respelled f (trim s) (trim t) :=
  ((h.dropWhile hf coarse_isSpace).reverse.dropWhile hf coarse_isSpace).reverse

/-- A run that no gap belongs to ends at the same place in both texts. -/
theorem Respelled.map_takeWhile (h : Respelled f s t) (hf : ForgetsCase f) (hp : Coarse p)
    (hg : ∀ c, isGap c = true → p c = false) :
    (s.takeWhile p).map f = (t.takeWhile p).map f := by
  induction h with
  | nil => rfl
  | @cons c d s t hc hd he _ ih =>
    rw [List.takeWhile_cons, List.takeWhile_cons, hp.eq hf he]
    cases p d with
    | true =>
      rw [if_pos rfl, if_pos rfl, List.map_cons, List.map_cons, he, ih]
    | false => rfl
  | gap hk hk' _ _ =>
    rw [takeWhile_of_stops (stops_gap_append hg hk), takeWhile_of_stops (stops_gap_append hg hk')]

end Parts

section Readers

variable {α β γ δ : Type} {f : Char → Char} {p : Char → Bool} {k : Char} {s t w : List Char}

theorem rel_bind {R : α → β → Prop} {S : γ → δ → Prop} {x : Option α} {y : Option β}
    {k : α → Option γ} {l : β → Option δ} (h : Option.Rel R x y)
    (hk : ∀ a b, R a b → Option.Rel S (k a) (l b)) : Option.Rel S (x.bind k) (y.bind l) := by
  cases h with
  | none => exact .none
  | some h => exact hk _ _ h

theorem rel_map {R : α → β → Prop} {S : γ → δ → Prop} {x : Option α} {y : Option β}
    {k : α → γ} {l : β → δ} (h : Option.Rel R x y) (hk : ∀ a b, R a b → S (k a) (l b)) :
    Option.Rel S (x.map k) (y.map l) := by
  cases h with
  | none => exact .none
  | some h => exact .some (hk _ _ h)

theorem rel_getD {R : α → α → Prop} {x y : Option α} {a b : α} (h : Option.Rel R x y)
    (hab : R a b) : R (x.getD a) (y.getD b) := by
  cases h with
  | none => exact hab
  | some h => exact h

theorem map_eq_of_rel {x y : Option α} {k : α → β} (h : Option.Rel (fun a b => k a = k b) x y) :
    x.map k = y.map k := by
  cases h with
  | none => rfl
  | some h => exact congrArg some h

theorem map_eq_of_forall₂ {k : α → β} {l l' : List α}
    (h : List.Forall₂ (fun a b => k a = k b) l l') : l.map k = l'.map k := by
  rw [← List.forall₂_eq_eq_eq, List.forall₂_map_left_iff, List.forall₂_map_right_iff]
  exact h

theorem Respelled.keyword? (h : Respelled f s t) (hf : ForgetsCase f)
    (hw : w.any isGap = false) : Option.Rel (Respelled f) (keyword? w s) (keyword? w t) := by
  induction h generalizing w with
  | nil =>
    cases w with
    | nil => exact .some .nil
    | cons k w => exact .none
  | @cons c d s t hc hd he h ih =>
    cases w with
    | nil => exact .some (.cons hc hd he h)
    | cons k w =>
      rw [List.any_cons, Bool.or_eq_false_iff] at hw
      rw [Text.keyword?, Text.keyword?, hf.toUpper_eq he]
      by_cases hk : d.toUpper = k
      · rw [if_pos hk, if_pos hk]
        exact ih hw.2
      · rw [if_neg hk, if_neg hk]
        exact .none
  | @gap g g' s t hg hg' h ih =>
    cases w with
    | nil => exact .some (.gap hg hg' h)
    | cons k w =>
      rw [List.any_cons, Bool.or_eq_false_iff] at hw
      have hnone {g s : List Char} (hg : g ∈ oneOrMore isGap) :
          Text.keyword? (k :: w) (g ++ s) = none := by
        obtain ⟨c, r, hc, he⟩ := exists_cons_of_oneOrMore hg s
        rw [he]
        exact if_neg (ne_of_class (isGap_toUpper hc) hw.1)
      rw [hnone hg, hnone hg']
      exact .none

theorem Respelled.exactly? (h : Respelled f s t) (hf : ForgetsCase f) (hg : isGap k = false)
    (hk : k.isAlpha = false) : Option.Rel (Respelled f) (exactly? [k] s) (exactly? [k] t) := by
  cases h with
  | nil => exact .none
  | @cons c d s t hc hd he h =>
    simp only [Text.exactly?]
    by_cases hdk : d = k
    · rw [if_pos hdk, if_pos ((hf.eq_iff he hk).2 hdk)]
      exact .some h
    · rw [if_neg hdk, if_neg (mt (hf.eq_iff he hk).1 hdk)]
      exact .none
  | @gap g g' s t hg₁ hg₂ h =>
    have hnone {g s : List Char} (hgap : g ∈ oneOrMore isGap) :
        Text.exactly? [k] (g ++ s) = none := by
      obtain ⟨c, r, hc, he⟩ := exists_cons_of_oneOrMore hgap s
      rw [he]
      exact if_neg (ne_of_class hc hg)
    rw [hnone hg₁, hnone hg₂]
    exact .none

theorem Respelled.skip1? (h : Respelled f s t) (hf : ForgetsCase f) :
    Option.Rel (Respelled f) (skip1? isGap s) (skip1? isGap t) := by
  cases h with
  | nil => exact .none
  | @cons c d s t hc hd he h =>
    rw [Text.skip1?, Text.skip1?, if_neg (Bool.eq_false_iff.1 hc), if_neg (Bool.eq_false_iff.1 hd)]
    exact .none
  | @gap g g' s t hg hg' h =>
    have hskip {g s : List Char} (hg : g ∈ oneOrMore isGap) :
        Text.skip1? isGap (g ++ s) = some (s.dropWhile isGap) := by
      cases g with
      | nil => exact absurd rfl hg.1
      | cons c g =>
        obtain ⟨hc, hg⟩ := List.forall_mem_cons.1 hg.2
        rw [List.cons_append, Text.skip1?, if_pos hc, List.dropWhile_append_of_pos hg]
    rw [hskip hg, hskip hg']
    exact .some (h.dropWhile hf coarse_isGap)

def WordRespelled (f : Char → Char) (x y : List Char × List Char) : Prop :=
  x.1.map f = y.1.map f ∧ Respelled f x.2 y.2

theorem Respelled.run1? (h : Respelled f s t) (hf : ForgetsCase f) (hp : Coarse p)
    (hg : ∀ c, isGap c = true → p c = false) :
    Option.Rel (WordRespelled f) (run1? p s) (run1? p t) := by
  have hw := h.map_takeWhile hf hp hg
  rw [Text.run1?, Text.run1?]
  cases hs : s.takeWhile p with
  | nil =>
    rw [hs, List.map_nil, eq_comm, List.map_eq_nil_iff] at hw
    rw [hw]
    exact .none
  | cons c a =>
    cases ht : t.takeWhile p with
    | nil =>
      rw [hs, ht] at hw
      cases hw
    | cons d b =>
      rw [hs, ht] at hw
      exact .some ⟨hw, h.dropWhile hf hp⟩

end Readers
end SchemaSketch.Text
