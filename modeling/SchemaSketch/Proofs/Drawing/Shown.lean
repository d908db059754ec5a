import Mathlib.Data.List.Forall2
import SchemaSketch.Drawing

/-!
What a drawing shows in the end: the shapes drawn since the last clear, each with the factors of
the scopes it was drawn in. A surface that forgets its open scopes when it is cleared shows the
same exactly if nothing that shows was drawn in a scope that was open then.
-/
namespace SchemaSketch

abbrev ScaledMark := List Float × Mark

/-- The calls behind the last one that clears, which is `none`. -/
def sinceClear {α : Type} : List (Option α) → List α
  | [] => []
  | call :: calls =>
    if calls.all Option.isSome then call.toList ++ sinceClear calls else sinceClear calls

theorem sinceClear_append {α : Type} (calls more : List (Option α)) :
    sinceClear (calls ++ more) =
      (if more.all Option.isSome then sinceClear calls else []) ++ sinceClear more := by
  induction calls with
  | nil => simp [sinceClear]
  | cons call calls ih =>
    rw [List.cons_append, sinceClear, List.all_append, ih]
    cases hm : more.all Option.isSome with
    | false => simp
    | true => cases hc : calls.all Option.isSome <;> simp [sinceClear, hc]

namespace Drawing

def calls (scales : List Float) : Drawing → List (Option ScaledMark)
  | done => []
  | clear rest => none :: rest.calls scales
  | resize _ _ rest => rest.calls scales
  | mark m rest => some (scales, m) :: rest.calls scales
  | scope factor inner rest => inner.calls (scales ++ [factor]) ++ rest.calls scales

def shown (scales : List Float) (d : Drawing) : List ScaledMark :=
  sinceClear (d.calls scales)

def clears : Drawing → Bool
  | done => false
  | clear _ => true
  | resize _ _ rest => rest.clears
  | mark _ rest => rest.clears
  | scope _ inner rest => inner.clears || rest.clears

def clearedByResize : Drawing → Drawing
  | done => done
  | clear rest => clear rest.clearedByResize
  | resize w h rest => resize w h (clear rest.clearedByResize)
  | mark m rest => mark m rest.clearedByResize
  | scope factor inner rest => scope factor inner.clearedByResize rest.clearedByResize

def ClearsOutside : Drawing → Prop
  | done => True
  | clear rest => rest.ClearsOutside
  | resize _ _ rest => rest.ClearsOutside
  | mark _ rest => rest.ClearsOutside
  | scope _ inner rest => (inner.clears = true → rest.clears = true) ∧ rest.ClearsOutside

def DrawsOutside : Drawing → Prop
  | done => True
  | clear rest => rest.DrawsOutside
  | resize _ _ rest => rest.DrawsOutside
  | mark _ rest => rest.DrawsOutside
  | scope _ inner rest =>
    (inner.clears = true → rest.clears = true ∨ inner.shown [] = []) ∧ rest.DrawsOutside

variable {d : Drawing} {scales : List Float}

theorem all_isSome_calls (d : Drawing) (scales : List Float) :
    (d.calls scales).all Option.isSome = !d.clears := by
  induction d generalizing scales with
  | done => rfl
  | clear rest _ => rfl
  | resize w h rest ih => exact ih scales
  | mark m rest ih => exact ih scales
  | scope factor inner rest ihi ih =>
    rw [calls, List.all_append, ihi, ih, clears, Bool.not_or]

theorem shown_clear (rest : Drawing) : (clear rest).shown scales = rest.shown scales := by
  rw [shown, calls, sinceClear]
  exact ite_id _

theorem shown_mark (m : Mark) (rest : Drawing) : (mark m rest).shown scales =
    (if rest.clears then [] else [(scales, m)]) ++ rest.shown scales := by
  rw [shown, calls, sinceClear, all_isSome_calls]
  cases rest.clears <;> rfl

theorem shown_scope (factor : Float) (inner rest : Drawing) :
    (scope factor inner rest).shown scales =
      (if rest.clears then [] else inner.shown (scales ++ [factor])) ++ rest.shown scales := by
  rw [shown, calls, sinceClear_append, all_isSome_calls]
  cases rest.clears <;> rfl

/-- Scopes around a drawing add their factors to every shape. -/
theorem shown_eq_map (d : Drawing) (scales : List Float) :
    d.shown scales = (d.shown []).map fun m => (scales ++ m.1, m.2) := by
  induction d generalizing scales with
  | done => rfl
  | clear rest ih =>
    rw [shown_clear, shown_clear]
    exact ih scales
  | resize w h rest ih => exact ih scales
  | mark m rest ih =>
    rw [shown_mark, shown_mark, ih scales]
    cases rest.clears <;> simp
  | scope factor inner rest ihi ih =>
    rw [shown_scope, shown_scope, ih scales, ihi (scales ++ [factor]), ihi ([] ++ [factor])]
    cases rest.clears <;> simp [Function.comp_def]

/-- The shapes that are still there, with the factors of those scopes only that were opened since
the surface was last cleared. -/
def tracked (scales : List Float) : Drawing → List ScaledMark
  | done => []
  | clear rest => rest.tracked []
  | resize _ _ rest => rest.tracked scales
  | mark m rest => (if rest.clears then [] else [(scales, m)]) ++ rest.tracked scales
  | scope factor inner rest =>
    (if rest.clears then [] else inner.tracked (scales ++ [factor])) ++
      rest.tracked (if inner.clears then [] else scales)

theorem tracked_of_clears (h : d.clears = true) : d.tracked scales = d.tracked [] := by
  induction d generalizing scales with
  | done => cases h
  | clear rest _ => rfl
  | resize w h rest ih => exact ih h
  | mark m rest ih =>
    have hr : rest.clears = true := h
    rw [tracked, tracked, hr, ih hr]
    rfl
  | scope factor inner rest ihi ih =>
    rw [tracked, tracked]
    cases hr : rest.clears with
    | true =>
      have hn : rest.tracked (if inner.clears then [] else []) = rest.tracked [] := ih hr
      rw [ih hr, hn]
      rfl
    | false =>
      have hi : inner.clears = true := by simpa [clears, hr] using h
      have hn : inner.tracked ([] ++ [factor]) = inner.tracked [] := ihi hi
      rw [hi, ihi hi, hn]
      rfl

theorem tracked_of_not_clears (h : d.clears = false) : d.tracked scales = d.shown scales := by
  induction d generalizing scales with
  | done => rfl
  | clear rest _ => cases h
  | resize w h rest ih => exact ih h
  | mark m rest ih =>
    have hr : rest.clears = false := h
    rw [tracked, shown_mark, ih hr]
  | scope factor inner rest ihi ih =>
    obtain ⟨hi, hr⟩ := Bool.or_eq_false_iff.1 h
    rw [tracked, shown_scope, hi, hr, ihi hi, ih hr]
    rfl

/-- The factors that are tracked are the innermost of those that should apply. -/
theorem tracked_suffix {inner outer : List Float} (h : inner <:+ outer) (d : Drawing) :
    List.Forall₂ (fun m n : ScaledMark => m.1 <:+ n.1 ∧ m.2 = n.2) (d.tracked inner)
      (d.shown outer) := by
  induction d generalizing inner outer with
  | done => exact .nil
  | clear rest ih =>
    rw [shown_clear]
    exact ih (List.nil_suffix)
  | resize w h' rest ih => exact ih h
  | mark m rest ih =>
    rw [tracked, shown_mark]
    cases rest.clears with
    | true => exact ih h
    | false => exact .cons ⟨h, rfl⟩ (ih h)
  | scope factor body rest ihi ih =>
    rw [tracked, shown_scope]
    have hrest : (if body.clears then [] else inner) <:+ outer := by
      split
      · exact List.nil_suffix
      · exact h
    have hbody : inner ++ [factor] <:+ outer ++ [factor] := by
      obtain ⟨lost, rfl⟩ := h
      exact ⟨lost, (List.append_assoc lost inner [factor]).symm⟩
    cases rest.clears with
    | true => exact ih hrest
    | false => exact List.rel_append (ihi hbody) (ih hrest)

theorem length_tracked {inner outer : List Float} (h : inner <:+ outer) (d : Drawing) :
    (d.tracked inner).length = (d.shown outer).length :=
  (tracked_suffix h d).length_eq

/-- In a scope that stays open over a clear, what is drawn later lacks at least its factor. -/
theorem tracked_eq_shown_iff (hs : scales ≠ []) :
    d.tracked scales = d.shown scales ↔ (d.clears = true → d.shown [] = []) := by
  constructor
  · intro h hc
    rw [tracked_of_clears hc, shown_eq_map d scales] at h
    have hsuffix := tracked_suffix (List.suffix_refl []) d
    rw [h] at hsuffix
    cases hd : d.shown [] with
    | nil => rfl
    | cons m ms =>
      rw [hd, List.map_cons, List.forall₂_cons] at hsuffix
      have hl := hsuffix.1.1.length_le
      have hp := List.length_pos_of_ne_nil hs
      rw [List.length_append] at hl
      omega
  · intro h
    cases hc : d.clears with
    | false => exact tracked_of_not_clears hc
    | true =>
      have hn : d.shown scales = [] := by rw [shown_eq_map, h hc, List.map_nil]
      have hl := length_tracked (List.suffix_refl scales) d
      rw [hn, List.length_nil] at hl
      rw [hn, List.eq_nil_of_length_eq_zero hl]

theorem tracked_nil_eq_shown_iff : d.tracked [] = d.shown [] ↔ d.DrawsOutside := by
  induction d with
  | done => exact iff_of_true rfl trivial
  | clear rest ih =>
    rw [shown_clear]
    exact ih
  | resize w h rest ih => exact ih
  | mark m rest ih =>
    rw [tracked, shown_mark, List.append_cancel_left_eq]
    exact ih
  | scope factor inner rest _ ih =>
    rw [tracked, shown_scope, ite_self]
    cases hr : rest.clears with
    | true => simpa [DrawsOutside, hr] using ih
    | false =>
      have hl := length_tracked (List.suffix_refl [factor]) inner
      have ha : inner.tracked [factor] ++ rest.tracked [] = inner.shown [factor] ++ rest.shown [] ↔
          inner.tracked [factor] = inner.shown [factor] ∧ rest.tracked [] = rest.shown [] := by
        constructor
        · intro h
          exact List.append_inj h hl
        · intro h
          rw [h.1, h.2]
      simp only [Bool.false_eq_true, if_false, List.nil_append, DrawsOutside, hr, false_or]
      rw [ha, ih, tracked_eq_shown_iff (List.cons_ne_nil factor [])]

end Drawing

end SchemaSketch
