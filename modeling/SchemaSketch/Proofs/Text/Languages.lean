import Mathlib.Computability.Language
import Mathlib.Data.List.TakeWhile
import SchemaSketch.Text.Reader

/-!
Languages for the small readers. A reader recognises a family of languages if it reads the texts
of the family and no others; chains of readers recognise products.
-/
namespace SchemaSketch.Text

def Stops (p : Char → Bool) (s : List Char) : Prop :=
  ∀ c ∈ s.head?, p c = false

def word (w : String) : Language Char :=
  {s | s.map Char.toUpper = w.toList}

def oneOrMore (p : Char → Bool) : Language Char :=
  {s | s ≠ [] ∧ ∀ c ∈ s, p c = true}

def zeroOrMore (p : Char → Bool) : Language Char :=
  {s | ∀ c ∈ s, p c = true}

instance (w : String) (s : List Char) : Decidable (s ∈ word w) :=
  inferInstanceAs (Decidable (s.map Char.toUpper = w.toList))

instance (p : Char → Bool) (s : List Char) : Decidable (s ∈ zeroOrMore p) :=
  decidable_of_iff (s.all p = true) List.all_eq_true

instance (p : Char → Bool) (s : List Char) : Decidable (s ∈ oneOrMore p) :=
  decidable_of_iff (s.isEmpty = false ∧ s.all p = true)
    (and_congr List.isEmpty_eq_false_iff List.all_eq_true)

def longest (p : Char → Bool) (w : List Char) (l : Language Char) : Language Char :=
  {s | w ∈ oneOrMore p ∧ ∃ r ∈ l, Stops p r ∧ w ++ r = s}

def stopped (p : Char → Bool) (r : List Char) : Language Char :=
  {s | s = r ∧ Stops p r}

/-- A text of `l` before one of `m`, which is taken whenever it is there. -/
def optionally (l m : Language Char) : Language Char :=
  l * m + (m - l * ⊤)

def Recognises {ι β : Type} (read : List Char → Option β) (out : ι → β)
    (l : ι → Language Char) : Prop :=
  ∀ s b, read s = some b ↔ ∃ i, s ∈ l i ∧ out i = b

theorem mem_mul_singleton {l : Language Char} {s r : List Char} :
    s ∈ l * {r} ↔ ∃ a ∈ l, a ++ r = s := by
  rw [Language.mem_mul]
  constructor
  · intro h
    obtain ⟨a, ha, b, rfl, h⟩ := h
    exact ⟨a, ha, h⟩
  · intro h
    obtain ⟨a, ha, h⟩ := h
    exact ⟨a, ha, r, rfl, h⟩

theorem mem_mul_top {l : Language Char} {s : List Char} : s ∈ l * ⊤ ↔ ∃ a ∈ l, ∃ r, a ++ r = s := by
  rw [Language.mem_mul]
  constructor
  · intro h
    obtain ⟨a, ha, r, -, h⟩ := h
    exact ⟨a, ha, r, h⟩
  · intro h
    obtain ⟨a, ha, r, h⟩ := h
    exact ⟨a, ha, r, trivial, h⟩

theorem singleton_mul_eq {w s : List Char} {l : Language Char} :
    s ∈ ({w} : Language Char) * l ↔ ∃ r ∈ l, w ++ r = s := by
  rw [Language.mem_mul]
  constructor
  · intro h
    obtain ⟨a, rfl, r, hr, h⟩ := h
    exact ⟨r, hr, h⟩
  · intro h
    obtain ⟨r, hr, h⟩ := h
    exact ⟨w, rfl, r, hr, h⟩

theorem stops_dropWhile (p : Char → Bool) (s : List Char) : Stops p (s.dropWhile p) := by
  intro c hc
  have h := List.head?_dropWhile_not p s
  rw [Option.mem_def.1 hc] at h
  simpa using h

theorem dropWhile_of_stops {p : Char → Bool} {s : List Char} (hs : Stops p s) :
    s.dropWhile p = s := by
  cases s with
  | nil => rfl
  | cons c s => simp [hs c rfl]

theorem takeWhile_of_stops {p : Char → Bool} {s : List Char} (hs : Stops p s) :
    s.takeWhile p = [] := by
  cases s with
  | nil => rfl
  | cons c s => simp [hs c rfl]

theorem dropWhile_append_of_stops {p : Char → Bool} {g r : List Char}
    (hg : ∀ c ∈ g, p c = true) (hr : Stops p r) : (g ++ r).dropWhile p = r := by
  rw [List.dropWhile_append_of_pos hg, dropWhile_of_stops hr]

theorem takeWhile_append_of_stops {p : Char → Bool} {g r : List Char}
    (hg : ∀ c ∈ g, p c = true) (hr : Stops p r) : (g ++ r).takeWhile p = g := by
  rw [List.takeWhile_append_of_pos hg, takeWhile_of_stops hr, List.append_nil]

theorem stops_nil {p : Char → Bool} : Stops p [] := by
  intro c hc
  cases hc

theorem stops_cons {p : Char → Bool} {c : Char} {s : List Char} (h : p c = false) :
    Stops p (c :: s) :=
  fun _ hd => Option.some.inj hd ▸ h

theorem stops_of_forall {p : Char → Bool} {s : List Char} (h : ∀ c ∈ s, p c = false) : Stops p s :=
  fun c hc => h c (List.mem_of_mem_head? hc)

theorem Stops.append {p : Char → Bool} {s r : List Char} (h : Stops p s) (hn : s ≠ []) :
    Stops p (s ++ r) := by
  intro c hc
  rw [List.head?_append_of_ne_nil s hn] at hc
  exact h c hc

theorem dropWhile_append_stops {p : Char → Bool} {s r : List Char} (hr : Stops p r) :
    (s ++ r).dropWhile p = s.dropWhile p ++ r := by
  induction s with
  | nil => exact dropWhile_of_stops hr
  | cons c s ih =>
    rw [List.cons_append, List.dropWhile_cons, List.dropWhile_cons, ih]
    cases p c <;> rfl

theorem takeWhile_append_stops {p : Char → Bool} {s r : List Char} (hr : Stops p r) :
    (s ++ r).takeWhile p = s.takeWhile p := by
  induction s with
  | nil => exact takeWhile_of_stops hr
  | cons c s ih => rw [List.cons_append, List.takeWhile_cons, List.takeWhile_cons, ih]

theorem keyword?_eq_some_iff {w s r : List Char} :
    keyword? w s = some r ↔ ∃ a, a.map Char.toUpper = w ∧ a ++ r = s := by
  induction w generalizing s with
  | nil => simp [keyword?, eq_comm]
  | cons k w ih =>
    cases s with
    | nil => simp [keyword?]
    | cons c s =>
      simp only [keyword?]
      constructor
      · intro h
        split at h
        · next hc =>
          obtain ⟨a, ha, rfl⟩ := ih.1 h
          exact ⟨c :: a, by rw [List.map_cons, ha, hc], rfl⟩
        · simp at h
      · intro h
        obtain ⟨a, ha, he⟩ := h
        cases a with
        | nil => simp at ha
        | cons d a =>
          simp only [List.map_cons, List.cons.injEq, List.cons_append] at ha he
          rw [← he.1, if_pos ha.1]
          exact ih.2 ⟨a, ha.2, he.2⟩

theorem toNat_of_isAlpha {c : Char} (h : c.isAlpha = true) :
    (65 ≤ c.toNat ∧ c.toNat ≤ 90) ∨ (97 ≤ c.toNat ∧ c.toNat ≤ 122) := by
  obtain h | h := Bool.or_eq_true_iff.1 h
  · exact Or.inl (of_decide_eq_true h)
  · obtain ⟨hl, hu⟩ := Bool.and_eq_true_iff.1 h
    exact Or.inr ⟨of_decide_eq_true hl, of_decide_eq_true hu⟩

theorem isAlpha_of_toUpper {c : Char} (h : c.toUpper.isUpper = true) : c.isAlpha = true := by
  apply Bool.or_eq_true_iff.2
  by_cases hc : 'a'.val ≤ c.val ∧ c.val ≤ 'z'.val
  · exact Or.inr (Bool.and_eq_true_iff.2 ⟨decide_eq_true hc.1, decide_eq_true hc.2⟩)
  · have hu : c.toUpper = c := dif_neg hc
    exact Or.inl (hu ▸ h)

theorem isDigit_of_isGap {c : Char} (h : isGap c = true) : c.isDigit = false := by
  simp only [isGap, Bool.or_eq_true, beq_iff_eq] at h
  obtain ((rfl | rfl) | rfl) | rfl := h <;> rfl

theorem isGap_toUpper {c : Char} (h : isGap c = true) : isGap c.toUpper = true := by
  simp only [isGap, Bool.or_eq_true, beq_iff_eq] at h
  obtain ((rfl | rfl) | rfl) | rfl := h <;> decide

theorem head_of_word {w : String} {s : List Char}
    (hw : (w.toList.head?.any Char.isUpper) = true) (h : s ∈ word w) :
    ∃ c t, s = c :: t ∧ c.isAlpha = true := by
  have h : s.map Char.toUpper = w.toList := h
  cases s with
  | nil =>
    rw [← h] at hw
    cases hw
  | cons c s =>
    rw [← h] at hw
    exact ⟨c, s, rfl, isAlpha_of_toUpper hw⟩

theorem keyword?_append {a : List Char} {w : List Char} (ha : a.map Char.toUpper = w)
    (v s : List Char) : keyword? (w ++ v) (a ++ s) = keyword? v s := by
  induction a generalizing w with
  | nil =>
    cases ha
    rfl
  | cons c a ih =>
    cases ha
    simp only [List.map_cons, List.cons_append, keyword?, if_true]
    exact ih rfl

theorem exactly?_eq_some_iff {w s r : List Char} : exactly? w s = some r ↔ w ++ r = s := by
  induction w generalizing s with
  | nil => simp [exactly?, eq_comm]
  | cons k w ih =>
    cases s with
    | nil => simp [exactly?]
    | cons c s =>
      by_cases hc : c = k
      · simp [exactly?, hc, ih]
      · simp [exactly?, hc, Ne.symm hc]

theorem skip1?_eq_some_iff {p : Char → Bool} {s r : List Char} :
    skip1? p s = some r ↔ Stops p r ∧ ∃ g ∈ oneOrMore p, g ++ r = s := by
  cases s with
  | nil =>
    simp only [skip1?, reduceCtorEq, List.append_eq_nil_iff, false_iff]
    intro h
    obtain ⟨-, g, hg, rfl, -⟩ := h
    exact hg.1 rfl
  | cons c s =>
    simp only [skip1?]
    constructor
    · intro h
      split at h
      · next hc =>
        cases h
        refine ⟨stops_dropWhile p s, c :: s.takeWhile p, ⟨by simp, ?_⟩, by simp⟩
        simpa [hc] using fun d hd => List.mem_takeWhile_imp hd
      · simp at h
    · intro h
      obtain ⟨hr, g, ⟨hn, hg⟩, he⟩ := h
      cases g with
      | nil => exact absurd rfl hn
      | cons d g =>
        simp only [List.cons_append, List.cons.injEq] at he
        have hd : p c = true := he.1 ▸ hg d (by simp)
        rw [if_pos hd, ← he.2, dropWhile_append_of_stops (fun x hx => hg x (by simp [hx])) hr]

theorem run1?_eq_some_iff {p : Char → Bool} {s w r : List Char} :
    run1? p s = some (w, r) ↔ w ∈ oneOrMore p ∧ Stops p r ∧ w ++ r = s := by
  constructor
  · intro h
    unfold run1? at h
    split at h
    · simp at h
    · next c a ha =>
      simp only [Option.some.injEq, Prod.mk.injEq] at h
      obtain ⟨rfl, rfl⟩ := h
      refine ⟨⟨by simp, fun d hd => ?_⟩, stops_dropWhile p s, ?_⟩
      · exact List.mem_takeWhile_imp (ha ▸ hd)
      · rw [← ha, List.takeWhile_append_dropWhile]
  · intro h
    obtain ⟨⟨hn, hw⟩, hr, rfl⟩ := h
    unfold run1?
    rw [takeWhile_append_of_stops hw hr, dropWhile_append_of_stops hw hr]
    cases w with
    | nil => exact absurd rfl hn
    | cons c w => rfl

section Recognises

variable {ι β γ : Type} {k : List Char → Option β} {out : ι → β} {l : ι → Language Char}
  {p : Char → Bool}

theorem Recognises.eq_none_iff (hk : Recognises k out l) {s : List Char} :
    k s = none ↔ ∀ i, s ∉ l i := by
  rw [Option.eq_none_iff_forall_ne_some]
  constructor
  · intro h i hi
    exact h (out i) ((hk s (out i)).2 ⟨i, hi, rfl⟩)
  · intro h b hb
    obtain ⟨i, hi, -⟩ := (hk s b).1 hb
    exact h i hi

theorem Recognises.congr {l' : ι → Language Char} (hk : Recognises k out l)
    (he : ∀ i, l' i = l i) : Recognises k out l' := by
  rw [funext he]
  exact hk

theorem Recognises.read (hk : Recognises k out l) {s : List Char} {i : ι} (h : s ∈ l i) :
    k s = some (out i) :=
  (hk s (out i)).2 ⟨i, h, rfl⟩

theorem recognises_rest : Recognises some id fun r => ({r} : Language Char) := by
  intro s r
  rw [Option.some_inj]
  constructor
  · intro h
    obtain rfl := h
    exact ⟨s, rfl, rfl⟩
  · intro h
    obtain ⟨i, rfl, rfl⟩ := h
    rfl

theorem recognises_any (b : β) :
    Recognises (fun _ => some b) (fun _ : Unit => b) fun _ => (⊤ : Language Char) := by
  intro s b'
  rw [Option.some_inj]
  exact ⟨fun h => ⟨(), trivial, h⟩, fun ⟨_, _, h⟩ => h⟩

theorem recognises_skip1 :
    Recognises (skip1? p) id fun r => oneOrMore p * stopped p r := by
  intro s r
  rw [skip1?_eq_some_iff]
  constructor
  · intro h
    obtain ⟨hr, g, hg, rfl⟩ := h
    exact ⟨r, Language.mem_mul.2 ⟨g, hg, r, ⟨rfl, hr⟩, rfl⟩, rfl⟩
  · intro h
    obtain ⟨i, h, rfl⟩ := h
    obtain ⟨g, hg, r, ⟨rfl, hr⟩, rfl⟩ := Language.mem_mul.1 h
    exact ⟨hr, g, hg, rfl⟩

theorem Recognises.map (hk : Recognises k out l) (f : β → γ) :
    Recognises (fun s => (k s).bind fun b => some (f b)) (fun i => f (out i)) l := by
  intro s c
  simp only [Option.bind_eq_some_iff, hk _ _, Option.some_inj]
  constructor
  · intro h
    obtain ⟨b, ⟨i, hi, rfl⟩, rfl⟩ := h
    exact ⟨i, hi, rfl⟩
  · intro h
    obtain ⟨i, hi, rfl⟩ := h
    exact ⟨out i, ⟨i, hi, rfl⟩, rfl⟩

theorem Recognises.keyword (hk : Recognises k out l) (w : String) :
    Recognises (fun s => (keyword? w.toList s).bind k) out fun i => word w * l i := by
  intro s b
  simp only [Option.bind_eq_some_iff, keyword?_eq_some_iff, hk _ b, Language.mem_mul]
  constructor
  · intro h
    obtain ⟨r, ⟨a, ha, he⟩, i, hr, hb⟩ := h
    exact ⟨i, ⟨a, ha, r, hr, he⟩, hb⟩
  · intro h
    obtain ⟨i, ⟨a, ha, r, hr, he⟩, hb⟩ := h
    exact ⟨r, ⟨a, ha, he⟩, i, hr, hb⟩

theorem recognises_keyword (w : String) :
    Recognises (keyword? w.toList) id fun r => word w * {r} := by
  have h := recognises_rest.keyword w
  simp only [Option.bind_fun_some] at h
  exact h

theorem Recognises.exactly (hk : Recognises k out l) (w : List Char) :
    Recognises (fun s => (exactly? w s).bind k) out fun i => {w} * l i := by
  intro s b
  simp only [Option.bind_eq_some_iff, exactly?_eq_some_iff, hk _ b, singleton_mul_eq]
  constructor
  · intro h
    obtain ⟨r, he, i, hr, hb⟩ := h
    exact ⟨i, ⟨r, hr, he⟩, hb⟩
  · intro h
    obtain ⟨i, ⟨r, hr, he⟩, hb⟩ := h
    exact ⟨r, he, i, hr, hb⟩

theorem Recognises.skip1 (hk : Recognises k out l) (hl : ∀ i, ∀ s ∈ l i, Stops p s) :
    Recognises (fun s => (skip1? p s).bind k) out fun i => oneOrMore p * l i := by
  intro s b
  simp only [Option.bind_eq_some_iff, skip1?_eq_some_iff, hk _ b, Language.mem_mul]
  constructor
  · intro h
    obtain ⟨r, ⟨-, g, hg, he⟩, i, hr, hb⟩ := h
    exact ⟨i, ⟨g, hg, r, hr, he⟩, hb⟩
  · intro h
    obtain ⟨i, ⟨g, hg, r, hr, he⟩, hb⟩ := h
    exact ⟨r, ⟨hl i r hr, g, hg, he⟩, i, hr, hb⟩

theorem Recognises.dropWhile (hk : Recognises k out l) (hl : ∀ i, ∀ s ∈ l i, Stops p s) :
    Recognises (fun s => k (s.dropWhile p)) out fun i => zeroOrMore p * l i := by
  intro s b
  simp only [hk _ b, Language.mem_mul]
  constructor
  · intro h
    obtain ⟨i, h, hb⟩ := h
    refine ⟨i, ⟨s.takeWhile p, fun c hc => List.mem_takeWhile_imp hc, _, h, ?_⟩, hb⟩
    exact List.takeWhile_append_dropWhile
  · intro h
    obtain ⟨i, ⟨g, hg, r, hr, rfl⟩, hb⟩ := h
    rw [dropWhile_append_of_stops hg (hl i r hr)]
    exact ⟨i, hr, hb⟩

theorem Recognises.run1 {k : List Char → List Char → Option β} {out : List Char → ι → β}
    {l : List Char → ι → Language Char} (hk : ∀ w, Recognises (k w) (out w) (l w)) :
    Recognises (fun s => (run1? p s).bind fun x => k x.1 x.2) (fun i : List Char × ι => out i.1 i.2)
      fun i => longest p i.1 (l i.1 i.2) := by
  intro s b
  simp only [Option.bind_eq_some_iff, Prod.exists, run1?_eq_some_iff, hk _ _ b, longest]
  constructor
  · intro h
    obtain ⟨w, r, ⟨hw, hr, he⟩, i, hl, hb⟩ := h
    exact ⟨w, i, ⟨hw, r, hl, hr, he⟩, hb⟩
  · intro h
    obtain ⟨w, i, ⟨hw, r, hl, hr, he⟩, hb⟩ := h
    exact ⟨w, r, ⟨hw, hr, he⟩, i, hl, hb⟩

/-- A part that may be missing, ended by the longest run of a class. -/
theorem Recognises.optional {o : List Char → Option (List Char)} {m : Language Char}
    (ho : Recognises o id fun r => m * oneOrMore p * stopped p r)
    (hk : Recognises k out l) (hl : ∀ i, ∀ s ∈ l i, Stops p s) :
    Recognises (fun s => k ((o s).getD s)) out fun i => optionally (m * oneOrMore p) (l i) := by
  have hrest (s r : List Char) : s ∈ m * oneOrMore p * stopped p r ↔
      Stops p r ∧ ∃ a ∈ m * oneOrMore p, a ++ r = s := by
    rw [Language.mem_mul]
    constructor
    · intro h
      obtain ⟨a, ha, r', ⟨rfl, hr⟩, he⟩ := h
      exact ⟨hr, a, ha, he⟩
    · intro h
      obtain ⟨hr, a, ha, he⟩ := h
      exact ⟨a, ha, r, ⟨rfl, hr⟩, he⟩
  intro s b
  change k ((o s).getD s) = some b ↔ _
  cases h : o s with
  | some r =>
    obtain ⟨r, hr, rfl⟩ := (ho s r).1 h
    obtain ⟨-, a, ha, rfl⟩ := (hrest s r).1 hr
    rw [Option.getD_some, id, hk r b]
    constructor
    · intro h
      obtain ⟨i, hi, hb⟩ := h
      exact ⟨i, Or.inl (Language.append_mem_mul ha hi), hb⟩
    · intro h
      obtain ⟨i, hi | hi, hb⟩ := h
      · obtain ⟨a', ha', r', hr', he⟩ := Language.mem_mul.1 hi
        have h' := ho.read ((hrest _ r').2 ⟨hl i r' hr', a', ha', he⟩)
        rw [h, Option.some_inj] at h'
        obtain rfl : r = r' := h'
        exact ⟨i, hr', hb⟩
      · exact absurd (mem_mul_top.2 ⟨a, ha, r, rfl⟩) hi.2
  | none =>
    rw [Option.getD_none, hk s b]
    -- A text that begins with the part begins with one that ends in a longest run.
    have hs : s ∉ m * oneOrMore p * ⊤ := by
      intro hs
      obtain ⟨ag, hag, r, rfl⟩ := mem_mul_top.1 hs
      obtain ⟨a, ha, g, ⟨hn, hg⟩, rfl⟩ := Language.mem_mul.1 hag
      refine ho.eq_none_iff.1 h (r.dropWhile p) ((hrest _ _).2 ⟨stops_dropWhile p r, ?_⟩)
      refine ⟨a ++ (g ++ r.takeWhile p), Language.append_mem_mul ha ⟨by simp [hn], ?_⟩, by simp⟩
      intro c hc
      obtain hc | hc := List.mem_append.1 hc
      · exact hg c hc
      · exact List.mem_takeWhile_imp hc
    constructor
    · intro h
      obtain ⟨i, hi, hb⟩ := h
      exact ⟨i, Or.inr ⟨hi, hs⟩, hb⟩
    · intro h
      obtain ⟨i, hi | hi, hb⟩ := h
      · obtain ⟨a, ha, r, -, he⟩ := Language.mem_mul.1 hi
        exact absurd (mem_mul_top.2 ⟨a, ha, r, he⟩) hs
      · exact ⟨i, hi.1, hb⟩

end Recognises

theorem stops_word {p : Char → Bool} {w : String} {first : Char} {others : List Char}
    {l : Language Char} (hw : w.toList = first :: others) (hf : p first = false)
    (hp : ∀ c, p c = true → p c.toUpper = true) : ∀ s ∈ word w * l, Stops p s := by
  intro s hs c hc
  obtain ⟨a, ha, r, -, rfl⟩ := Language.mem_mul.1 hs
  have ha : a.map Char.toUpper = first :: others := hw ▸ ha
  cases a with
  | nil => simp at ha
  | cons d a =>
    obtain rfl : d = c := by simpa using hc
    simp only [List.map_cons, List.cons.injEq] at ha
    by_contra h
    have hd := hp d (by simpa using h)
    rw [ha.1, hf] at hd
    exact Bool.false_ne_true hd

theorem stops_longest {p q : Char → Bool} {w : List Char} {l : Language Char}
    (hpq : ∀ c, q c = true → p c = false) : ∀ s ∈ longest q w l, Stops p s := by
  intro s h c hc
  obtain ⟨⟨hn, hw⟩, r, -, -, rfl⟩ := h
  cases w with
  | nil => exact absurd rfl hn
  | cons d w =>
    obtain rfl : d = c := by simpa using hc
    exact hpq d (hw d (by simp))

theorem mem_longest_of_mem_mul {p : Char → Bool} {w : List Char} {l : Language Char}
    (hw : w ∈ oneOrMore p) (hl : ∀ s ∈ l, Stops p s) : ∀ s ∈ {w} * l, s ∈ longest p w l := by
  intro s hs
  obtain ⟨r, hr, rfl⟩ := singleton_mul_eq.1 hs
  exact ⟨hw, r, hr, hl r hr, rfl⟩

theorem oneOrMore_mono {p q : Char → Bool} {s : List Char} (h : ∀ c, p c = true → q c = true)
    (hs : s ∈ oneOrMore p) : s ∈ oneOrMore q :=
  ⟨hs.1, fun c hc => h c (hs.2 c hc)⟩

theorem mul_mono_right {l m n : Language Char} (h : ∀ s ∈ m, s ∈ n) : ∀ s ∈ l * m, s ∈ l * n := by
  intro s hs
  obtain ⟨a, ha, b, hb, rfl⟩ := Language.mem_mul.1 hs
  exact Language.append_mem_mul ha (h b hb)

theorem stops_singleton {p : Char → Bool} {c : Char} {l : Language Char} (hc : p c = false) :
    ∀ s ∈ ({[c]} : Language Char) * l, Stops p s := by
  intro s hs d hd
  obtain ⟨r, -, rfl⟩ := singleton_mul_eq.1 hs
  obtain rfl : c = d := by simpa using hd
  exact hc

theorem stops_optionally {p : Char → Bool} {l m : Language Char} (hl : ∀ s ∈ l * m, Stops p s)
    (hm : ∀ s ∈ m, Stops p s) : ∀ s ∈ optionally l m, Stops p s := by
  intro s h
  obtain hs | hs := h
  · exact hl s hs
  · exact hm s hs.1

section Rest

variable {p : Char → Bool} {c : Char} {w : List Char} {l m : Language Char}

theorem nil_mem_mul : [] ∈ l * m ↔ [] ∈ l ∧ [] ∈ m := by
  rw [Language.mem_mul]
  constructor
  · intro h
    obtain ⟨a, ha, b, hb, he⟩ := h
    obtain ⟨rfl, rfl⟩ := List.append_eq_nil_iff.1 he
    exact ⟨ha, hb⟩
  · intro h
    exact ⟨[], h.1, [], h.2, rfl⟩

/-- What follows does not make a run longer that something else ended before. -/
theorem longest_mul (hl : [] ∉ l) (n : Language Char) :
    longest p w (l * n) = longest p w l * n := by
  have hs {a : List Char} (r : List Char) (ha : a ∈ l) : Stops p (a ++ r) ↔ Stops p a := by
    cases a with
    | nil => exact absurd ha hl
    | cons c a => rfl
  ext s
  rw [Language.mem_mul]
  constructor
  · intro h
    obtain ⟨hw, x, hx, hx', rfl⟩ := h
    obtain ⟨a, ha, r, hr, rfl⟩ := Language.mem_mul.1 hx
    exact ⟨w ++ a, ⟨hw, a, ha, (hs r ha).1 hx', rfl⟩, r, hr, List.append_assoc w a r⟩
  · intro h
    obtain ⟨-, ⟨hw, a, ha, ha', rfl⟩, r, hr, rfl⟩ := h
    exact ⟨hw, a ++ r, Language.append_mem_mul ha hr, (hs r ha).2 ha',
      (List.append_assoc w a r).symm⟩

/-- What follows does not bring in a part that has to end before a certain character. -/
theorem optionally_mul (hl : ∀ a ∈ l, c ∉ a) (hm : ∀ a ∈ m, c ∈ a) (n : Language Char) :
    optionally l (m * n) = optionally l m * n := by
  have htop {a : List Char} (r : List Char) (ha : a ∈ m) : a ++ r ∈ l * ⊤ ↔ a ∈ l * ⊤ := by
    simp only [mem_mul_top]
    constructor
    · intro h
      obtain ⟨b, hb, t, he⟩ := h
      obtain ⟨x, rfl, -⟩ | ⟨x, rfl, -⟩ := List.append_eq_append_iff.1 he
      · exact ⟨b, hb, x, rfl⟩
      · exact absurd (List.mem_append_left x (hm a ha)) (hl _ hb)
    · intro h
      obtain ⟨b, hb, t, rfl⟩ := h
      exact ⟨b, hb, t ++ r, (List.append_assoc b t r).symm⟩
  unfold optionally
  rw [add_mul, mul_assoc]
  congr 1
  ext s
  rw [Language.mem_mul]
  constructor
  · intro h
    obtain ⟨hs, hn⟩ := h
    obtain ⟨a, ha, r, hr, rfl⟩ := Language.mem_mul.1 hs
    exact ⟨a, ⟨ha, fun h => hn ((htop r ha).2 h)⟩, r, hr, rfl⟩
  · intro h
    obtain ⟨a, ⟨ha, hn⟩, r, hr, rfl⟩ := h
    exact ⟨Language.append_mem_mul ha hr, fun h => hn ((htop r ha).1 h)⟩

end Rest

theorem forall_mem_mul {P : Char → Prop} {l m : Language Char} (hl : ∀ s ∈ l, ∀ c ∈ s, P c)
    (hm : ∀ s ∈ m, ∀ c ∈ s, P c) : ∀ s ∈ l * m, ∀ c ∈ s, P c := by
  intro s hs c hc
  obtain ⟨a, ha, b, hb, rfl⟩ := Language.mem_mul.1 hs
  obtain hc | hc := List.mem_append.1 hc
  · exact hl a ha c hc
  · exact hm b hb c hc

theorem not_mem_mul {c : Char} {l m : Language Char} (hl : ∀ a ∈ l, c ∉ a) (hm : ∀ a ∈ m, c ∉ a) :
    ∀ a ∈ l * m, c ∉ a := by
  intro s hs
  obtain ⟨a, ha, b, hb, rfl⟩ := Language.mem_mul.1 hs
  exact List.not_mem_append (hl a ha) (hm b hb)

theorem not_mem_word {c : Char} {w : String} (hc : c.toUpper ∉ w.toList) : ∀ a ∈ word w, c ∉ a := by
  intro a ha h
  have ha : a.map Char.toUpper = w.toList := ha
  exact hc (ha ▸ List.mem_map_of_mem h)

theorem not_mem_oneOrMore {c : Char} {p : Char → Bool} (hc : p c = false) :
    ∀ a ∈ oneOrMore p, c ∉ a := by
  intro a ha h
  simp [ha.2 c h] at hc

end SchemaSketch.Text
