import Mathlib.Algebra.GroupWithZero.Nat
import SchemaSketch.Proofs.Text.Languages

/-!
Texts that are cut at byte positions. A cut is guarded: it fails beyond the end of the text and
inside a character. Positions, sizes and depths are unbounded here, since a text that fits in memory
has fewer than 2 ^ 63 bytes.
-/
namespace SchemaSketch.Guarded

open Text

inductive Breach
  /-- a text is cut where no character begins -/
  | position
  /-- a count falls below zero -/
  | belowZero
  /-- more nodes are numbered than numbers of 32 bits -/
  | numbersUsedUp
  /-- a cell is read or written that is not there -/
  | cell
  /-- a value is clamped to bounds that are not in order -/
  | emptyRange
  deriving DecidableEq

@[simp] theorem bind_ok {α β : Type} (a : α) (f : α → Except Breach β) :
    (Except.ok a >>= f) = f a := rfl

def size (s : List Char) : Nat :=
  (s.map Char.utf8Size).sum

def cut : Nat → List Char → Except Breach (List Char × List Char)
  | 0, s => .ok ([], s)
  | _ + 1, [] => .error .position
  | n + 1, c :: s =>
    if c.utf8Size ≤ n + 1 then
      (cut (n + 1 - c.utf8Size) s).map fun (before, after) => (c :: before, after)
    else .error .position

def upTo (stop : Nat) (s : List Char) : Except Breach (List Char) :=
  (cut stop s).map Prod.fst

def onwards (start : Nat) (s : List Char) : Except Breach (List Char) :=
  (cut start s).map Prod.snd

def between (start stop : Nat) (s : List Char) : Except Breach (List Char) := do
  let before ← upTo stop s
  onwards start before

def lower (count : Nat) : Except Breach Nat :=
  if 0 < count then .ok (count - 1) else .error .belowZero

theorem lower_eq {count : Nat} (h : 0 < count) : lower count = .ok (count - 1) :=
  if_pos h

def find? (c : Char) : List Char → Option Nat
  | [] => none
  | d :: s => if d = c then some 0 else (find? c s).map (d.utf8Size + ·)

section Size

variable {c : Char} {a b s : List Char}

theorem size_cons (c : Char) (s : List Char) : size (c :: s) = c.utf8Size + size s := by
  simp [size]

theorem size_concat (a : List Char) (c : Char) : size (a ++ [c]) = size a + c.utf8Size := by
  simp [size]

/-- Where a character begins, a cut goes through. -/
theorem cut_append (a b : List Char) : cut (size a) (a ++ b) = .ok (a, b) := by
  induction a with
  | nil =>
    change cut 0 b = _
    rw [cut]
  | cons c a ih =>
    obtain ⟨n, hn⟩ : ∃ n, size (c :: a) = n + 1 :=
      Nat.exists_eq_add_one.2 (by have := c.utf8Size_pos; rw [size_cons]; omega)
    have hrest : n + 1 - c.utf8Size = size a := by rw [← hn, size_cons]; omega
    have hle : c.utf8Size ≤ n + 1 := by rw [← hn, size_cons]; omega
    rw [hn, List.cons_append, cut, if_pos hle, hrest, ih]
    rfl

example : cut 1 ['é', 'a'] = .error .position := by decide

theorem upTo_append (a b : List Char) : upTo (size a) (a ++ b) = .ok a := by
  rw [upTo, cut_append]
  rfl

theorem onwards_append (a b : List Char) : onwards (size a) (a ++ b) = .ok b := by
  rw [onwards, cut_append]
  rfl

theorem onwards_after (a : List Char) (c : Char) (b : List Char) :
    onwards (size a + c.utf8Size) (a ++ c :: b) = .ok b := by
  have h := onwards_append (a ++ [c]) b
  rwa [size_concat, List.append_assoc] at h

theorem between_append (a b r : List Char) :
    between (size a) (size (a ++ b)) (a ++ b ++ r) = .ok b := by
  rw [between, upTo_append]
  exact onwards_append a b

theorem length_of_cut {n : Nat} (h : cut n s = .ok (a, b)) :
    b.length ≤ s.length ∧ (0 < n → b.length < s.length) := by
  induction s generalizing n a with
  | nil =>
    cases n with
    | zero =>
      cases h
      exact ⟨le_rfl, nofun⟩
    | succ n => cases h
  | cons c s ih =>
    cases n with
    | zero =>
      cases h
      exact ⟨le_rfl, nofun⟩
    | succ n =>
      rw [cut] at h
      split at h
      · cases hc : cut (n + 1 - c.utf8Size) s with
        | error breach =>
          rw [hc] at h
          cases h
        | ok pair =>
          rw [hc] at h
          cases h
          have := (ih hc).1
          simp only [List.length_cons]
          omega
      · cases h

theorem length_of_onwards {n : Nat} (hn : 0 < n) (h : onwards n s = .ok b) :
    b.length < s.length := by
  rw [onwards] at h
  cases hc : cut n s with
  | error breach =>
    rw [hc] at h
    cases h
  | ok pair =>
    rw [hc] at h
    cases h
    exact (length_of_cut hc).2 hn

theorem find?_eq_none (h : c ∉ s) : find? c s = none := by
  induction s with
  | nil => rfl
  | cons d s ih =>
    rw [List.mem_cons, not_or] at h
    rw [find?, if_neg (Ne.symm h.1), ih h.2]
    rfl

theorem find?_append (h : c ∉ a) (b : List Char) : find? c (a ++ c :: b) = some (size a) := by
  induction a with
  | nil => simp [find?, size]
  | cons d a ih =>
    rw [List.mem_cons, not_or] at h
    rw [List.cons_append, find?, if_neg (Ne.symm h.1), ih h.2, size_cons]
    rfl

end Size

end SchemaSketch.Guarded
