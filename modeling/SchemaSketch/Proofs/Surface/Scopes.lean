import SchemaSketch.Proofs.Drawing.Shown
import SchemaSketch.Proofs.Surface.Renewal

/-!
Scopes on the three surfaces. The grid keeps the scopes that are open when it is cleared, so that
every shape is subject to the factors of the scopes it was drawn in. A recording and a vector image
forget them, and for these two it is said exactly which drawings come out right.
-/
namespace SchemaSketch

/-- How the open scopes and the shapes of a surface are read back, if clearing drops both. -/
structure ScopeReading (σ : Type) [Surface σ] where
  scales : σ → List Float
  placed : σ → List ScaledMark
  put : ∀ m s, scales (Surface.put m s) = scales s ∧
    placed (Surface.put m s) = placed s ++ [(scales s, m)]
  resize : ∀ w h s, scales (Surface.resize w h s) = scales s ∧
    placed (Surface.resize w h s) = placed s
  clear : ∀ s, scales (Surface.clear s) = [] ∧ placed (Surface.clear s) = []
  openScope : ∀ factor s, scales (Surface.openScope factor s) = scales s ++ [factor] ∧
    placed (Surface.openScope factor s) = placed s
  closeScope : ∀ s, scales (Surface.closeScope s) = (scales s).dropLast ∧
    placed (Surface.closeScope s) = placed s

namespace ScopeReading

variable {σ : Type} [Surface σ] (R : ScopeReading σ)

theorem on (d : Drawing) (s : σ) :
    R.scales (d.on s) = (if d.clears then [] else R.scales s) ∧
      R.placed (d.on s) = (if d.clears then [] else R.placed s) ++ d.tracked (R.scales s) := by
  induction d generalizing s with
  | done => exact ⟨rfl, (List.append_nil _).symm⟩
  | clear rest ih =>
    obtain ⟨hs, hp⟩ := ih (Surface.clear s)
    rw [(R.clear s).1, ite_self] at hs
    rw [(R.clear s).1, (R.clear s).2, ite_self] at hp
    exact ⟨hs, hp⟩
  | resize w h rest ih =>
    have hr := ih (Surface.resize w h s)
    rw [(R.resize w h s).1, (R.resize w h s).2] at hr
    exact hr
  | mark m rest ih =>
    obtain ⟨hs, hp⟩ := ih (Surface.put m s)
    rw [(R.put m s).1] at hs
    rw [(R.put m s).1, (R.put m s).2] at hp
    refine ⟨hs, hp.trans ?_⟩
    rw [Drawing.tracked, Drawing.clears]
    cases rest.clears <;> simp
  | scope factor inner rest ihi ih =>
    obtain ⟨hs, hp⟩ := ih (Surface.closeScope (inner.on (Surface.openScope factor s)))
    obtain ⟨his, hip⟩ := ihi (Surface.openScope factor s)
    have hclose : R.scales (Surface.closeScope (inner.on (Surface.openScope factor s))) =
        if inner.clears then [] else R.scales s := by
      rw [(R.closeScope _).1, his, (R.openScope factor s).1]
      cases inner.clears
      · exact List.dropLast_concat
      · rfl
    rw [(R.openScope factor s).1, (R.openScope factor s).2] at hip
    rw [hclose] at hs
    rw [hclose, (R.closeScope _).2, hip] at hp
    constructor
    · refine hs.trans ?_
      rw [Drawing.clears]
      cases inner.clears <;> cases rest.clears <;> rfl
    · refine hp.trans ?_
      rw [Drawing.tracked, Drawing.clears]
      cases inner.clears <;> cases rest.clears <;> simp

/-- A scope restores what was open before it, unless the surface was cleared in it. -/
theorem scales_scope (factor : Float) (d : Drawing) (s : σ) :
    R.scales ((Drawing.scope factor d .done).on s) = if d.clears then [] else R.scales s := by
  have h := (R.on (.scope factor d .done) s).1
  rwa [Drawing.clears, Drawing.clears, Bool.or_false] at h

end ScopeReading

def Picture.placed (scales : List Float) : Picture → List ScaledMark
  | blank => []
  | mark before m => before.placed scales ++ [(scales, m)]
  | group before factor inner => before.placed scales ++ inner.placed (scales ++ [factor])

namespace VectorImage

def openFactors (s : VectorImage) : List Float :=
  (s.openGroups.map Prod.fst).reverse

def placedOpen : List (Float × Picture) → List ScaledMark
  | [] => []
  | (factor, inner) :: outer =>
    placedOpen outer ++ inner.placed ((outer.map Prod.fst).reverse ++ [factor])

def scopeReading : ScopeReading VectorImage where
  scales := openFactors
  placed s := s.root.placed [] ++ placedOpen s.openGroups
  put m s := by
    obtain ⟨width, height, root, groups⟩ := s
    cases groups with
    | nil => exact ⟨rfl, by simp [Surface.put, extend, Picture.placed, placedOpen, openFactors]⟩
    | cons g outer =>
      exact ⟨rfl, by simp [Surface.put, extend, Picture.placed, placedOpen, openFactors]⟩
  resize w h s := ⟨rfl, rfl⟩
  clear s := ⟨rfl, rfl⟩
  openScope factor s := by
    constructor
    · exact List.reverse_cons
    · exact congrArg (s.root.placed [] ++ ·) (List.append_nil _)
  closeScope s := by
    obtain ⟨width, height, root, groups⟩ := s
    cases groups with
    | nil => exact ⟨rfl, rfl⟩
    | cons g outer =>
      cases outer with
      | nil =>
        constructor
        · rfl
        · simp [Surface.closeScope, closeGroup, extend, Picture.placed, placedOpen]
      | cons g' outer =>
        constructor
        · simp [Surface.closeScope, closeGroup, extend, openFactors]
        · simp [Surface.closeScope, closeGroup, extend, Picture.placed, placedOpen]

theorem openGroups_on (d : Drawing) (width height : Float) :
    (d.on (blank width height)).openGroups = [] := by
  have h := (scopeReading.on d (blank width height)).1
  have hn : (d.on (blank width height)).openFactors = [] := h.trans (ite_self _)
  rw [openFactors, List.reverse_eq_nil_iff] at hn
  exact List.map_eq_nil_iff.1 hn

theorem placed_on (d : Drawing) (width height : Float) :
    (d.on (blank width height)).root.placed [] = d.tracked [] := by
  have h := (scopeReading.on d (blank width height)).2
  have hp : (d.on (blank width height)).root.placed [] ++
      placedOpen (d.on (blank width height)).openGroups =
        (if d.clears then [] else []) ++ d.tracked [] := h
  rw [openGroups_on, ite_self] at hp
  simpa [placedOpen] using hp

end VectorImage

def Command.scales (scales : List Float) : Command → List Float
  | pushScale factor => scales ++ [factor]
  | popScale => scales.dropLast
  | _ => scales

def Command.nesting (scales : Option (List Float)) : Command → Option (List Float)
  | pushScale factor => scales.map (· ++ [factor])
  | popScale => scales.bind fun scales => if scales = [] then none else some scales.dropLast
  | _ => scales

namespace Recording

def enclosed (scales : List Float) : List Command → List ScaledMark
  | [] => []
  | .mark m :: cs => (scales, m) :: enclosed scales cs
  | c :: cs => enclosed (c.scales scales) cs

def nesting (s : Recording) : Option (List Float) :=
  s.commands.foldl Command.nesting (some [])

theorem enclosed_append (scales : List Float) (cs more : List Command) :
    enclosed scales (cs ++ more) =
      enclosed scales cs ++ enclosed (cs.foldl Command.scales scales) more := by
  induction cs generalizing scales with
  | nil => rfl
  | cons c cs ih =>
    cases c with
    | mark m => exact congrArg ((scales, m) :: ·) (ih scales)
    | clear => exact ih scales
    | pushScale factor => exact ih (scales ++ [factor])
    | popScale => exact ih scales.dropLast

def scopeReading : ScopeReading Recording where
  scales s := s.commands.foldl Command.scales []
  placed s := enclosed [] s.commands.toList
  put m s := by
    constructor
    · simp [Surface.put, add, Command.scales]
    · simp [Surface.put, add, enclosed_append, enclosed]
  resize w h s := ⟨rfl, rfl⟩
  clear s := ⟨rfl, rfl⟩
  openScope factor s := by
    constructor
    · simp [Surface.openScope, add, Command.scales]
    · simp [Surface.openScope, add, enclosed_append, enclosed]
  closeScope s := by
    constructor
    · simp [Surface.closeScope, add, Command.scales]
    · simp [Surface.closeScope, add, enclosed_append, enclosed]

theorem enclosed_on (d : Drawing) (width height : Float) :
    enclosed [] (d.on (blank width height)).commands.toList = d.tracked [] := by
  have h := (scopeReading.on d (blank width height)).2
  have hp : enclosed [] (d.on (blank width height)).commands.toList =
      (if d.clears then [] else []) ++ d.tracked [] := h
  rwa [ite_self] at hp

theorem nesting_put (m : Mark) (s : Recording) : (Surface.put m s).nesting = s.nesting := by
  simp [Surface.put, add, nesting, Command.nesting]

theorem nesting_openScope (factor : Float) (s : Recording) :
    (Surface.openScope factor s).nesting = s.nesting.map (· ++ [factor]) := by
  simp [Surface.openScope, add, nesting, Command.nesting]

theorem nesting_closeScope (s : Recording) :
    (Surface.closeScope s).nesting =
      s.nesting.bind fun scales => if scales = [] then none else some scales.dropLast := by
  simp [Surface.closeScope, add, nesting, Command.nesting]

end Recording

namespace Drawing

theorem clearsOutside_of_not_clears {d : Drawing} (h : d.clears = false) : d.ClearsOutside := by
  induction d with
  | done => trivial
  | clear rest _ => cases h
  | resize w h' rest ih => exact ih h
  | mark m rest ih => exact ih h
  | scope factor inner rest _ ih =>
    obtain ⟨hi, hr⟩ := Bool.or_eq_false_iff.1 h
    exact ⟨fun hc => absurd hc (by simp [hi]), ih hr⟩

theorem ClearsOutside.drawsOutside {d : Drawing} (h : d.ClearsOutside) : d.DrawsOutside := by
  induction d with
  | done => trivial
  | clear rest ih => exact ih h
  | resize w h' rest ih => exact ih h
  | mark m rest ih => exact ih h
  | scope factor inner rest _ ih => exact ⟨fun hc => Or.inl (h.1 hc), ih h.2⟩

end Drawing

namespace Recording

/-- Whatever was open when a scope is cleared inside, its end closes a bracket that is not there. -/
theorem nesting_on (d : Drawing) (s : Recording) :
    (d.ClearsOutside → (d.on s).nesting = if d.clears then some [] else s.nesting) ∧
      (¬ d.ClearsOutside → (d.on s).nesting = none) := by
  induction d generalizing s with
  | done => exact ⟨fun _ => rfl, fun h => absurd trivial h⟩
  | clear rest ih =>
    obtain ⟨ht, hf⟩ := ih (Surface.clear s)
    have hn : (Surface.clear s).nesting = some [] := rfl
    rw [hn, ite_self] at ht
    exact ⟨ht, hf⟩
  | resize w h rest ih => exact ih (Surface.resize w h s)
  | mark m rest ih =>
    have hm := ih (Surface.put m s)
    rw [nesting_put] at hm
    exact hm
  | scope factor inner rest ihi ih =>
    have hr := ih (Surface.closeScope (inner.on (Surface.openScope factor s)))
    obtain ⟨hit, hif⟩ := ihi (Surface.openScope factor s)
    rw [nesting_closeScope] at hr
    rw [nesting_openScope] at hit
    cases hc : inner.clears with
    | false =>
      rw [hit (Drawing.clearsOutside_of_not_clears hc), hc] at hr
      have hpop : ((s.nesting.map (· ++ [factor])).bind fun scales =>
          if scales = [] then none else some scales.dropLast) = s.nesting := by
        cases s.nesting <;> simp
      simp only [Bool.false_eq_true, if_false, hpop] at hr
      simpa [Drawing.on, Drawing.ClearsOutside, Drawing.clears, hc] using hr
    | true =>
      have hpop : ((inner.on (Surface.openScope factor s)).nesting.bind fun scales =>
          if scales = [] then none else some scales.dropLast) = none := by
        by_cases ho : inner.ClearsOutside
        · rw [hit ho, hc]
          rfl
        · rw [hif ho]
          rfl
      rw [hpop] at hr
      constructor
      · intro h
        have hrest := hr.1 h.2
        rw [h.1 hc] at hrest
        rw [Drawing.clears, hc]
        exact hrest
      · intro h
        cases hrc : rest.clears with
        | false =>
          have hrest := hr.1 (Drawing.clearsOutside_of_not_clears hrc)
          rwa [hrc] at hrest
        | true => exact hr.2 fun ho => h ⟨fun _ => hrc, ho⟩

theorem nesting_eq_nil_iff (d : Drawing) (width height : Float) :
    (d.on (blank width height)).nesting = some [] ↔ d.ClearsOutside := by
  obtain ⟨ht, hf⟩ := nesting_on d (blank width height)
  constructor
  · intro h
    by_contra ho
    rw [hf ho] at h
    cases h
  · intro h
    exact (ht h).trans (ite_self _)

theorem nesting_scope (factor : Float) (d : Drawing) (s : Recording) :
    ((Drawing.scope factor d .done).on s).nesting = if d.clears then none else s.nesting := by
  obtain ⟨ht, hf⟩ := nesting_on (.scope factor d .done) s
  cases hc : d.clears with
  | false =>
    have h := ht ⟨fun h => absurd h (by simp [hc]), trivial⟩
    rwa [Drawing.clears, hc] at h
  | true => exact hf fun h => Bool.false_ne_true (h.1 hc)

end Recording

namespace TextImage

def paint (s : TextImage) (m : ScaledMark) : TextImage :=
  { Surface.put m.2 { s with scales := m.1.reverse } with scales := s.scales }

theorem inked_paint (s : TextImage) (m : ScaledMark) : Inked s (paint s m) := by
  obtain ⟨grid, hg⟩ := inked_put m.2 { s with scales := m.1.reverse }
  rw [paint, hg]
  exact ⟨grid, rfl⟩

theorem paint_of_scales (s : TextImage) (m : Mark) :
    paint s (s.scales.reverse, m) = Surface.put m s := by
  obtain ⟨grid, hg⟩ := inked_put m s
  simp only [paint, List.reverse_reverse, hg]

theorem foldl_paint_scales (scales : List Float) (ms : List ScaledMark) (s : TextImage) :
    ms.foldl paint { s with scales := scales } = { ms.foldl paint s with scales := scales } := by
  induction ms generalizing s with
  | nil => rfl
  | cons m ms ih => exact ih (paint s m)

theorem Inked.scales_eq {s t : TextImage} (h : Inked s t) : t.scales = s.scales := by
  obtain ⟨grid, rfl⟩ := h
  rfl

theorem closeScope_foldl_paint (factor : Float) (ms : List ScaledMark) (s : TextImage) :
    Surface.closeScope (ms.foldl paint (Surface.openScope factor s)) = ms.foldl paint s := by
  have hf : ms.foldl paint (Surface.openScope factor s) =
      { ms.foldl paint s with scales := factor :: s.scales } :=
    foldl_paint_scales (factor :: s.scales) ms s
  have hs := (inked_foldl inked_paint s ms).scales_eq
  rw [hf, ← hs]
  rfl

theorem Inked.resize_eq {s t : TextImage} (h : Inked s t) (width height : Float) :
    Surface.resize width height t = Surface.resize width height s := by
  obtain ⟨grid, rfl⟩ := h
  rfl

/-- The grid is what the shapes that are still there leave on it, each drawn with the factors of
the scopes around it. -/
theorem on_eq_foldl_paint (d : Drawing) (s : TextImage) :
    ∃ width height, d.on s =
      (d.clearedByResize.shown s.scales.reverse).foldl paint
        (if d.clearedByResize.clears then Surface.resize width height s else s) := by
  induction d generalizing s with
  | done => exact ⟨0.0, 0.0, rfl⟩
  | clear rest ih =>
    obtain ⟨w, h, he⟩ := ih (Surface.clear s)
    rw [Drawing.clearedByResize, Drawing.shown_clear]
    cases hr : rest.clearedByResize.clears with
    | true => exact ⟨w, h, by rw [hr] at he; exact he⟩
    | false => exact ⟨s.width, s.height, by rw [hr] at he; exact he⟩
  | resize w' h' rest ih =>
    obtain ⟨w, h, he⟩ := ih (Surface.resize w' h' s)
    have hs : (Drawing.resize w' h' (.clear rest.clearedByResize)).shown s.scales.reverse =
        rest.clearedByResize.shown s.scales.reverse := Drawing.shown_clear rest.clearedByResize
    rw [Drawing.clearedByResize, hs]
    cases hr : rest.clearedByResize.clears with
    | true => exact ⟨w, h, by rw [hr] at he; exact he⟩
    | false => exact ⟨w', h', by rw [hr] at he; exact he⟩
  | mark m rest ih =>
    obtain ⟨w, h, he⟩ := ih (Surface.put m s)
    have hm := inked_put m s
    refine ⟨w, h, he.trans ?_⟩
    rw [Drawing.clearedByResize, Drawing.shown_mark, hm.scales_eq, hm.resize_eq, Drawing.clears]
    cases rest.clearedByResize.clears with
    | true => rfl
    | false => simp only [Bool.false_eq_true, if_false, List.singleton_append, List.foldl_cons,
        paint_of_scales]
  | scope factor inner rest ihi ih =>
    obtain ⟨wi, hi, hei⟩ := ihi (Surface.openScope factor s)
    have hscales : (Surface.openScope factor s).scales.reverse = s.scales.reverse ++ [factor] :=
      List.reverse_cons
    have hopen : (if inner.clearedByResize.clears
        then Surface.resize wi hi (Surface.openScope factor s) else Surface.openScope factor s) =
        Surface.openScope factor
          (if inner.clearedByResize.clears then Surface.resize wi hi s else s) := by
      cases inner.clearedByResize.clears <;> rfl
    rw [hscales, hopen] at hei
    -- What the scope leaves is painted on what the surface was before it.
    obtain ⟨w, h, he⟩ := ih (Surface.closeScope (inner.on (Surface.openScope factor s)))
    rw [hei, closeScope_foldl_paint] at he
    have hp := inked_foldl inked_paint
      (if inner.clearedByResize.clears then Surface.resize wi hi s else s)
      (inner.clearedByResize.shown (s.scales.reverse ++ [factor]))
    have hb : (if inner.clearedByResize.clears then Surface.resize wi hi s else s).scales =
        s.scales := by
      cases inner.clearedByResize.clears <;> rfl
    have hrb : Surface.resize w h
        (if inner.clearedByResize.clears then Surface.resize wi hi s else s) =
        Surface.resize w h s := by
      cases inner.clearedByResize.clears <;> rfl
    rw [hp.scales_eq, hp.resize_eq, hb, hrb] at he
    rw [Drawing.clearedByResize, Drawing.shown_scope, Drawing.clears, Drawing.on, hei,
      closeScope_foldl_paint]
    cases hr : rest.clearedByResize.clears with
    | true =>
      refine ⟨w, h, he.trans ?_⟩
      simp [hr]
    | false =>
      refine ⟨wi, hi, he.trans ?_⟩
      simp [hr]

theorem on_blank_eq_foldl_paint (d : Drawing) (width height cellSize : Float) :
    ∃ w h, d.on (blank width height cellSize) =
      (d.clearedByResize.shown []).foldl paint (blank w h cellSize) := by
  obtain ⟨w, h, he⟩ := on_eq_foldl_paint d (blank width height cellSize)
  cases hc : d.clearedByResize.clears with
  | true => exact ⟨w, h, by rw [hc] at he; exact he⟩
  | false => exact ⟨width, height, by rw [hc] at he; exact he⟩

/-- A pixel is a point times all factors, from the outermost scope inwards. -/
theorem toPixels_of_scales (s : TextImage) (scales : List Float) (p : Point) :
    toPixels { s with scales := scales.reverse } p = p.scale (scales.foldl (· * ·) 1.0) := by
  rw [toPixels, scale, List.foldr_reverse]

end TextImage

/-- When the shapes that are still there are subject to exactly the factors of the scopes they were
drawn in, and what the end of a scope restores. On a recording the brackets have to match besides;
on the grid both always hold. -/
theorem scopes_applied_iff (d : Drawing) (width height cellSize : Float) :
    (((d.on (Recording.blank width height)).nesting = some [] ∧
      Recording.enclosed [] (d.on (Recording.blank width height)).commands.toList = d.shown []) ↔
        d.ClearsOutside) ∧
    ((d.on (VectorImage.blank width height)).root.placed [] = d.shown [] ↔ d.DrawsOutside) ∧
    (∃ w h, d.on (TextImage.blank width height cellSize) =
      (d.clearedByResize.shown []).foldl TextImage.paint (TextImage.blank w h cellSize)) ∧
    (∀ (s : TextImage) (scales : List Float) (p : Point),
      TextImage.toPixels { s with scales := scales.reverse } p =
        p.scale (scales.foldl (· * ·) 1.0)) ∧
    (∀ factor s, Recording.nesting ((Drawing.scope factor d .done).on s) =
      if d.clears then none else s.nesting) ∧
    (∀ factor s, VectorImage.openFactors ((Drawing.scope factor d .done).on s) =
      if d.clears then [] else s.openFactors) ∧
    ∀ factor s, TextImage.scales ((Drawing.scope factor d .done).on s) = s.scales := by
  refine ⟨?_, ?_, ?_, TextImage.toPixels_of_scales, ?_, ?_, ?_⟩
  · rw [Recording.nesting_eq_nil_iff, Recording.enclosed_on, Drawing.tracked_nil_eq_shown_iff]
    exact and_iff_left_of_imp Drawing.ClearsOutside.drawsOutside
  · rw [VectorImage.placed_on, Drawing.tracked_nil_eq_shown_iff]
  · exact TextImage.on_blank_eq_foldl_paint d width height cellSize
  · exact fun factor s => Recording.nesting_scope factor d s
  · exact fun factor s => VectorImage.scopeReading.scales_scope factor d s
  · exact fun factor s => (TextImage.scales_cellSize_on (.scope factor d .done) s).1

/-- A line behind a clear inside a scope is not scaled, and a bracket is closed that is not open. -/
theorem scopes_lost_by_clear :
    let d := Drawing.scope 2.0 (.clear (.mark (.line ⟨0.0, 0.0⟩ ⟨10.0, 10.0⟩) .done)) .done
    (d.on (VectorImage.blank 100.0 100.0)).root.placed [] ≠ d.shown [] ∧
      (d.on (Recording.blank 100.0 100.0)).nesting = none := by
  decide

end SchemaSketch
