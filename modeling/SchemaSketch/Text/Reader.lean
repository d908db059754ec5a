import SchemaSketch.Text.Chars

/-!
Small readers. A reader takes what it accepts off the front of a text and hands back the rest,
or answers nothing and has taken nothing.
-/
namespace SchemaSketch.Text

def keyword? : List Char → List Char → Option (List Char)
  | [], s => some s
  | _ :: _, [] => none
  | k :: word, c :: s => if c.toUpper = k then keyword? word s else none

def exactly? : List Char → List Char → Option (List Char)
  | [], s => some s
  | _ :: _, [] => none
  | k :: word, c :: s => if c = k then exactly? word s else none

def skip1? (p : Char → Bool) : List Char → Option (List Char)
  | [] => none
  | c :: s => if p c then some (s.dropWhile p) else none

def run1? (p : Char → Bool) (s : List Char) : Option (List Char × List Char) :=
  match s.takeWhile p with
  | [] => none
  | c :: run => some (c :: run, s.dropWhile p)

theorem length_dropWhile_le (p : Char → Bool) (s : List Char) :
    (s.dropWhile p).length ≤ s.length := by
  induction s with
  | nil => simp
  | cons c s ih =>
    by_cases h : p c
    · rw [List.dropWhile_cons_of_pos h, List.length_cons]
      omega
    · simp [h]

theorem length_of_keyword? {word s r : List Char} (h : keyword? word s = some r) :
    s.length = word.length + r.length := by
  induction word generalizing s with
  | nil => simp_all [keyword?]
  | cons k word ih =>
    cases s with
    | nil => simp [keyword?] at h
    | cons c s =>
      simp only [keyword?] at h
      split at h
      · have := ih h
        simp only [List.length_cons]; omega
      · simp at h

theorem length_of_exactly? {word s r : List Char} (h : exactly? word s = some r) :
    s.length = word.length + r.length := by
  induction word generalizing s with
  | nil => simp_all [exactly?]
  | cons k word ih =>
    cases s with
    | nil => simp [exactly?] at h
    | cons c s =>
      simp only [exactly?] at h
      split at h
      · have := ih h
        simp only [List.length_cons]; omega
      · simp at h

theorem length_of_skip1? {p : Char → Bool} {s r : List Char} (h : skip1? p s = some r) :
    r.length < s.length := by
  cases s with
  | nil => simp [skip1?] at h
  | cons c s =>
    simp only [skip1?] at h
    split at h
    · cases h
      have := length_dropWhile_le p s
      simp only [List.length_cons]; omega
    · simp at h

theorem length_takeWhile_add_dropWhile (p : Char → Bool) (s : List Char) :
    (s.takeWhile p).length + (s.dropWhile p).length = s.length := by
  induction s with
  | nil => simp
  | cons c s ih =>
    by_cases h : p c
    · rw [List.takeWhile_cons_of_pos h, List.dropWhile_cons_of_pos h, List.length_cons,
        List.length_cons]
      omega
    · simp [h]

theorem length_of_run1? {p : Char → Bool} {s w r : List Char} (h : run1? p s = some (w, r)) :
    s.length = w.length + r.length ∧ w ≠ [] := by
  have hl := length_takeWhile_add_dropWhile p s
  unfold run1? at h
  split at h
  · simp at h
  · next c run hw =>
    simp only [Option.some.injEq, Prod.mk.injEq] at h
    obtain ⟨rfl, rfl⟩ := h
    rw [hw] at hl
    simp_all

end SchemaSketch.Text
