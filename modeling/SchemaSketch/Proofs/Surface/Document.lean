import SchemaSketch.Proofs.Surface.Markup
import SchemaSketch.Proofs.Surface.Scopes

/-!
What a vector image writes. Scopes come and go with clears at any depth in them, and still the root
group holds every shape that is left, so that the document read back has all of them, each once,
with its numbers and its text.
-/
namespace SchemaSketch

def Picture.marks : Picture → List Mark
  | blank => []
  | mark before m => before.marks ++ [m]
  | group before _ inner => before.marks ++ inner.marks

theorem Picture.map_snd_placed (p : Picture) (scales : List Float) :
    (p.placed scales).map Prod.snd = p.marks := by
  induction p generalizing scales with
  | blank => rfl
  | mark before m ih => rw [placed, List.map_append, ih, marks, List.map_singleton]
  | group before factor inner ihb ihi => rw [placed, List.map_append, ihb, ihi, marks]

theorem Drawing.map_snd_tracked (d : Drawing) :
    (d.tracked []).map Prod.snd = (d.shown []).map Prod.snd := by
  rw [← List.forall₂_eq_eq_eq, List.forall₂_map_left_iff, List.forall₂_map_right_iff]
  exact (tracked_suffix (List.suffix_refl []) d).imp fun _ _ h => h.2

namespace Markup

namespace Element

def HasNumber (e : Element) (key : String) (x : Float) : Prop :=
  ∃ value, e.properties.lookup key = some value ∧ Decimal.ReadsAs value.toList x

def HasPoints (e : Element) (key : String) (points : List Point) : Prop :=
  ∃ value, e.properties.lookup key = some value ∧
    List.Forall₂ (fun text (p : Point) => ∃ x y, text.splitOn ',' = [x, y] ∧
      Decimal.ReadsAs x p.x ∧ Decimal.ReadsAs y p.y) (value.toList.splitOn ' ') points

end Element

/-- Documents know no radius below zero. -/
def drawnRadius (radius : Float) : Float :=
  if 0.0 < radius then radius else 0.0

def Shows (e : Element) : Mark → Prop
  | .strokeCircle center radius => e.name = "circle" ∧ e.properties.lookup "fill" = some "none" ∧
    e.HasNumber "cx" center.x ∧ e.HasNumber "cy" center.y ∧ e.HasNumber "r" (drawnRadius radius)
  | .fillCircle center radius => e.name = "circle" ∧ e.properties.lookup "fill" = some "white" ∧
    e.HasNumber "cx" center.x ∧ e.HasNumber "cy" center.y ∧ e.HasNumber "r" (drawnRadius radius)
  | .text position label => e.name = "text" ∧ e.HasNumber "x" position.x ∧
    e.HasNumber "y" position.y ∧ unescape e.content = '\n' :: (label.toList ++ ['\n'])
  | .line start finish => e.name = "line" ∧ e.HasNumber "x1" start.x ∧ e.HasNumber "y1" start.y ∧
    e.HasNumber "x2" finish.x ∧ e.HasNumber "y2" finish.y
  | .triangle a b c => e.name = "polygon" ∧ e.HasPoints "points" [a, b, c]

def drawn : Mark → Mark
  | .strokeCircle center radius => .strokeCircle center (drawnRadius radius)
  | .fillCircle center radius => .fillCircle center (drawnRadius radius)
  | m => m

section Unique

variable {e : Element} {key : String} {m m' : Mark}

theorem Element.HasNumber.unique {x y : Float} (hx : e.HasNumber key x) (hy : e.HasNumber key y) :
    x = y := by
  obtain ⟨value, hv, hx⟩ := hx
  obtain ⟨value', hv', hy⟩ := hy
  obtain rfl := Option.some.inj (hv.symm.trans hv')
  exact hx.unique hy

theorem Element.HasPoints.unique {ps qs : List Point} (hp : e.HasPoints key ps)
    (hq : e.HasPoints key qs) : ps = qs := by
  obtain ⟨value, hv, hp⟩ := hp
  obtain ⟨value', hv', hq⟩ := hq
  obtain rfl := Option.some.inj (hv.symm.trans hv')
  generalize value.toList.splitOn ' ' = texts at hp hq
  induction hp generalizing qs with
  | nil =>
    cases hq
    rfl
  | cons h _ ih =>
    obtain ⟨x, y, hs, hx, hy⟩ := h
    cases hq with
    | cons h' hq =>
      obtain ⟨x', y', hs', hx', hy'⟩ := h'
      cases hs.symm.trans hs'
      rw [ih hq]
      congr 1
      exact congrArg₂ Point.mk (hx.unique hx') (hy.unique hy')

theorem Element.point_unique {keyX keyY : String} {p q : Point} (hp : e.HasNumber keyX p.x)
    (hp' : e.HasNumber keyY p.y) (hq : e.HasNumber keyX q.x) (hq' : e.HasNumber keyY q.y) : p = q :=
  congrArg₂ Point.mk (hp.unique hq) (hp'.unique hq')

/-- An element shows one shape only. -/
theorem Shows.unique (h : Shows e m) (h' : Shows e m') : drawn m = drawn m' := by
  cases m with
  | strokeCircle center radius =>
    obtain ⟨hn, hf, hx, hy, hr⟩ := h
    cases m' with
    | strokeCircle center' radius' =>
      obtain ⟨-, -, hx', hy', hr'⟩ := h'
      rw [drawn, drawn, Element.point_unique hx hy hx' hy', hr.unique hr']
    | fillCircle center' radius' => exact absurd (hf.symm.trans h'.2.1) (by decide)
    | text | line | triangle => exact absurd (hn.symm.trans h'.1) (by decide)
  | fillCircle center radius =>
    obtain ⟨hn, hf, hx, hy, hr⟩ := h
    cases m' with
    | fillCircle center' radius' =>
      obtain ⟨-, -, hx', hy', hr'⟩ := h'
      rw [drawn, drawn, Element.point_unique hx hy hx' hy', hr.unique hr']
    | strokeCircle center' radius' => exact absurd (hf.symm.trans h'.2.1) (by decide)
    | text | line | triangle => exact absurd (hn.symm.trans h'.1) (by decide)
  | text position label =>
    obtain ⟨hn, hx, hy, hc⟩ := h
    cases m' with
    | text position' label' =>
      obtain ⟨-, hx', hy', hc'⟩ := h'
      have hlabel := List.append_cancel_right (List.cons.inj (hc.symm.trans hc')).2
      rw [Element.point_unique hx hy hx' hy', String.toList_inj.1 hlabel]
    | strokeCircle | fillCircle | line | triangle => exact absurd (hn.symm.trans h'.1) (by decide)
  | line start finish =>
    obtain ⟨hn, hx1, hy1, hx2, hy2⟩ := h
    cases m' with
    | line start' finish' =>
      obtain ⟨-, hx1', hy1', hx2', hy2'⟩ := h'
      rw [Element.point_unique hx1 hy1 hx1' hy1', Element.point_unique hx2 hy2 hx2' hy2']
    | strokeCircle | fillCircle | text | triangle => exact absurd (hn.symm.trans h'.1) (by decide)
  | triangle a b c =>
    obtain ⟨hn, hp⟩ := h
    cases m' with
    | triangle a' b' c' =>
      cases hp.unique h'.2
      rfl
    | strokeCircle | fillCircle | text | line => exact absurd (hn.symm.trans h'.1) (by decide)

theorem map_drawn_eq {es : List Element} {ms ns : List Mark} (hm : List.Forall₂ Shows es ms)
    (hn : List.Forall₂ Shows es ns) : ms.map drawn = ns.map drawn := by
  induction hm generalizing ns with
  | nil =>
    cases hn
    rfl
  | cons h _ ih =>
    cases hn with
    | cons h' hn => rw [List.map_cons, List.map_cons, h.unique h', ih hn]

end Unique

section Written

theorem isPlain_of_mem_text {x : Float} : ∀ c ∈ (Decimal.text x).toList, isPlain c = true := by
  intro c hc
  obtain h | rfl := Decimal.continues_of_mem_text hc
  · have hne {d : Char} (hd : Decimal.continues d = false) : c ≠ d := by
      rintro rfl
      rw [h] at hd
      cases hd
    simp [isPlain, @hne '<' (by decide), @hne '>' (by decide), @hne '"' (by decide)]
  · decide

theorem hasNumber_text {e : Element} {key : String} {x : Float}
    (h : e.properties.lookup key = some (Decimal.text x)) : e.HasNumber key x :=
  ⟨_, h, Decimal.readsAs_text x⟩

theorem not_mem_text {x : Float} {d : Char} (hd : Decimal.continues d = false) (hm : d ≠ '-') :
    d ∉ (Decimal.text x).toList := by
  intro h
  obtain h | h := Decimal.continues_of_mem_text h
  · rw [hd] at h
    cases h
  · exact hm h

theorem legible_nil : Legible [] :=
  List.forall_mem_nil _

theorem legible_cons {key value : String} {properties : List (String × String)}
    (hk : key.toList.all isKeyChar = true) (hv : ∀ c ∈ value.toList, isPlain c = true)
    (h : Legible properties) : Legible ((key, value) :: properties) :=
  List.forall_mem_cons.2 ⟨⟨List.all_eq_true.1 hk, hv⟩, h⟩

theorem legible_word {key value : String} {properties : List (String × String)}
    (hk : key.toList.all isKeyChar = true) (hv : value.toList.all isPlain = true)
    (h : Legible properties) : Legible ((key, value) :: properties) :=
  legible_cons hk (List.all_eq_true.1 hv) h

theorem legible_number {key : String} {x : Float} {properties : List (String × String)}
    (hk : key.toList.all isKeyChar = true) (h : Legible properties) :
    Legible ((key, Decimal.text x) :: properties) :=
  legible_cons hk isPlain_of_mem_text h

theorem lt_not_mem_escape (s : List Char) : '<' ∉ VectorImage.escape s := by
  intro h
  obtain ⟨c, -, hc⟩ := List.mem_flatMap.1 h
  split at hc
  · revert hc; decide
  · revert hc; decide
  · revert hc; decide
  · rename_i hlt _
    exact hlt (List.mem_singleton.1 hc).symm

theorem toList_pointText (p : Point) : (VectorImage.pointText p).toList =
    (Decimal.text p.x).toList ++ ',' :: (Decimal.text p.y).toList := by
  simp [VectorImage.pointText]

theorem splitOn_pointText (p : Point) : (VectorImage.pointText p).toList.splitOn ',' =
    [(Decimal.text p.x).toList, (Decimal.text p.y).toList] := by
  have hcomma {x : Float} : ',' ∉ (Decimal.text x).toList := not_mem_text (by decide) (by decide)
  rw [toList_pointText, List.splitOn_append_cons_self_of_not_mem hcomma,
    List.splitOn_eq_singleton hcomma]

theorem blank_not_mem_pointText (p : Point) : ' ' ∉ (VectorImage.pointText p).toList := by
  have hblank {x : Float} : ' ' ∉ (Decimal.text x).toList := not_mem_text (by decide) (by decide)
  rw [toList_pointText]
  simp [@hblank p.x, @hblank p.y]

theorem isPlain_of_mem_pointText {p : Point} :
    ∀ c ∈ (VectorImage.pointText p).toList, isPlain c = true := by
  rw [toList_pointText]
  intro c hc
  obtain hc | hc := List.mem_append.1 hc
  · exact isPlain_of_mem_text c hc
  · obtain rfl | hc := List.mem_cons.1 hc
    · decide
    · exact isPlain_of_mem_text c hc

/-- What is written for a shape is read as one element, and that shows the shape. -/
theorem exists_readAs_markLines (m : Mark) :
    ∃ e, Shows e m ∧ ReadAs (VectorImage.markLines m) [e] := by
  cases m with
  | strokeCircle center radius =>
    have hp : Legible [("cx", Decimal.text center.x), ("cy", Decimal.text center.y),
        ("fill", "none"), ("r", VectorImage.radiusText radius), ("stroke", "black"),
        ("stroke-width", "2")] :=
      legible_number (by decide) <| legible_number (by decide) <|
        legible_word (by decide) (by decide) <| legible_number (by decide) <|
        legible_word (by decide) (by decide) <| legible_word (by decide) (by decide) legible_nil
    exact ⟨_, ⟨rfl, rfl, hasNumber_text rfl, hasNumber_text rfl, hasNumber_text rfl⟩,
      readAs_emptyElement hp (by decide)⟩
  | fillCircle center radius =>
    have hp : Legible [("cx", Decimal.text center.x), ("cy", Decimal.text center.y),
        ("fill", "white"), ("r", VectorImage.radiusText radius)] :=
      legible_number (by decide) <| legible_number (by decide) <|
        legible_word (by decide) (by decide) <| legible_number (by decide) legible_nil
    exact ⟨_, ⟨rfl, rfl, hasNumber_text rfl, hasNumber_text rfl, hasNumber_text rfl⟩,
      readAs_emptyElement hp (by decide)⟩
  | text position label =>
    have hp : Legible [("dominant-baseline", "middle"), ("fill", "black"),
        ("font-family", "Arial"), ("font-size", "12"), ("text-anchor", "middle"),
        ("x", Decimal.text position.x), ("y", Decimal.text position.y)] :=
      legible_word (by decide) (by decide) <| legible_word (by decide) (by decide) <|
        legible_word (by decide) (by decide) <| legible_word (by decide) (by decide) <|
        legible_word (by decide) (by decide) <| legible_number (by decide) <|
        legible_number (by decide) legible_nil
    have ht : '<' ∉ (String.ofList (VectorImage.escape label.toList)).toList := by
      rw [String.toList_ofList]
      exact lt_not_mem_escape label.toList
    refine ⟨_, ⟨rfl, hasNumber_text rfl, hasNumber_text rfl, ?_⟩,
      readAs_text hp (by decide) ht⟩
    have hfeed : '\n' :: (VectorImage.escape label.toList ++ ['\n']) =
        VectorImage.escape ('\n' :: (label.toList ++ ['\n'])) := by
      simp [VectorImage.escape]
    dsimp only
    rw [String.toList_ofList, hfeed, unescape_escape]
  | line start finish =>
    have hp : Legible [("stroke", "black"), ("stroke-width", "1"),
        ("x1", Decimal.text start.x), ("x2", Decimal.text finish.x),
        ("y1", Decimal.text start.y), ("y2", Decimal.text finish.y)] :=
      legible_word (by decide) (by decide) <| legible_word (by decide) (by decide) <|
        legible_number (by decide) <| legible_number (by decide) <|
        legible_number (by decide) <| legible_number (by decide) legible_nil
    exact ⟨_, ⟨rfl, hasNumber_text rfl, hasNumber_text rfl, hasNumber_text rfl,
      hasNumber_text rfl⟩, readAs_emptyElement hp (by decide)⟩
  | triangle a b c =>
    have hvalue : ∀ c' ∈ (VectorImage.pointText a ++ " " ++ VectorImage.pointText b ++ " " ++
        VectorImage.pointText c).toList, isPlain c' = true := by
      simp only [String.toList_append, List.forall_mem_append]
      have hblank : ∀ c' ∈ " ".toList, isPlain c' = true := List.all_eq_true.1 (by decide)
      exact ⟨⟨⟨⟨isPlain_of_mem_pointText, hblank⟩, isPlain_of_mem_pointText⟩, hblank⟩,
        isPlain_of_mem_pointText⟩
    have hp : Legible [("fill", "black"), ("points", VectorImage.pointText a ++ " " ++
        VectorImage.pointText b ++ " " ++ VectorImage.pointText c)] :=
      legible_word (by decide) (by decide) <| legible_cons (by decide) hvalue legible_nil
    refine ⟨_, ⟨rfl, _, rfl, ?_⟩,
      readAs_emptyElement hp (by decide)⟩
    have hsplit : (VectorImage.pointText a ++ " " ++ VectorImage.pointText b ++ " " ++
        VectorImage.pointText c).toList.splitOn ' ' = [(VectorImage.pointText a).toList,
          (VectorImage.pointText b).toList, (VectorImage.pointText c).toList] := by
      simp [List.splitOn_append_cons_self_of_not_mem (blank_not_mem_pointText _),
        List.splitOn_eq_singleton (blank_not_mem_pointText _)]
    have hpoint (p : Point) : ∃ x y, (VectorImage.pointText p).toList.splitOn ',' = [x, y] ∧
        Decimal.ReadsAs x p.x ∧ Decimal.ReadsAs y p.y :=
      ⟨_, _, splitOn_pointText p, Decimal.readsAs_text p.x, Decimal.readsAs_text p.y⟩
    rw [hsplit]
    exact .cons (hpoint a) (.cons (hpoint b) (.cons (hpoint c) .nil))

/-- A group, or the document, around lines adds no shape to them. -/
theorem readAs_elementLines {name : String} {properties : List (String × String)}
    {lines : List String} {es : List Element} (hn : name = "g" ∨ name = "svg")
    (hp : Legible properties) (h : ReadAs lines es) :
    ReadAs (VectorImage.elementLines name properties lines) es := by
  have hopen : ReadAs [VectorImage.openTag name properties] [] := by
    obtain rfl | rfl := hn <;> exact readAs_openTag hp (by decide)
  have hempty : ReadAs [VectorImage.emptyElement name properties] [] := by
    obtain rfl | rfl := hn <;> exact readAs_emptyElement hp (by decide)
  have hclose : ReadAs [VectorImage.closeTag name] [] := by
    obtain rfl | rfl := hn <;> exact readAs_closeTag (by decide)
  cases lines with
  | nil =>
    have hs : [] = es ++ [] := (h [] Text.stops_nil).2
    obtain rfl := (List.append_eq_nil_iff.1 hs.symm).1
    exact hempty
  | cons line lines =>
    have hall := hopen.append (h.append hclose)
    rw [List.nil_append, List.append_nil] at hall
    exact hall

theorem pictureLines_append (p : Picture) (after : List String) :
    VectorImage.pictureLines p after = VectorImage.pictureLines p [] ++ after := by
  induction p generalizing after with
  | blank => rfl
  | mark before m ih =>
    rw [VectorImage.pictureLines, ih, VectorImage.pictureLines, ih (_ ++ []), List.append_nil,
      List.append_assoc]
  | group before factor inner ih _ =>
    rw [VectorImage.pictureLines, ih, VectorImage.pictureLines, ih (_ ++ []), List.append_nil,
      List.append_assoc]

theorem exists_readAs_pictureLines (p : Picture) :
    ∃ es, List.Forall₂ Shows es p.marks ∧ ReadAs (VectorImage.pictureLines p []) es := by
  induction p with
  | blank => exact ⟨[], .nil, readAs_nil⟩
  | mark before m ih =>
    obtain ⟨es, hs, hr⟩ := ih
    obtain ⟨e, he, hm⟩ := exists_readAs_markLines m
    refine ⟨es ++ [e], List.rel_append hs (.cons he .nil), ?_⟩
    rw [VectorImage.pictureLines, pictureLines_append, List.append_nil]
    exact hr.append hm
  | group before factor inner ihb ihi =>
    obtain ⟨es, hs, hr⟩ := ihb
    obtain ⟨es', hs', hr'⟩ := ihi
    have hp : Legible [("transform", "scale(" ++ Decimal.text factor ++ ")")] := by
      refine legible_cons (by decide) ?_ legible_nil
      simp only [String.toList_append, List.forall_mem_append]
      exact ⟨⟨List.all_eq_true.1 (by decide), isPlain_of_mem_text⟩,
        List.all_eq_true.1 (by decide)⟩
    refine ⟨es ++ es', List.rel_append hs hs', ?_⟩
    rw [VectorImage.pictureLines, pictureLines_append, List.append_nil]
    exact hr.append (readAs_elementLines (Or.inl rfl) hp hr')

theorem toList_intercalate_lines (lines : List String) (last : String) :
    (String.intercalate "\n" (lines ++ [last])).toList = joined lines ++ last.toList := by
  rw [String.toList_intercalate]
  induction lines with
  | nil => exact List.intercalate_singleton
  | cons line lines ih =>
    rw [List.cons_append, List.map_cons, List.intercalate_cons_of_ne_nil (by simp), ih]
    simp [joined]

/-- The document read back has the shapes of the root group. -/
theorem shapes_document (s : VectorImage) :
    List.Forall₂ Shows (shapes s.document.toList) s.root.marks := by
  obtain ⟨es, hs, hr⟩ := exists_readAs_pictureLines s.root
  have hbox : ∀ c ∈ ("0 0 " ++ Decimal.text s.width ++ " " ++ Decimal.text s.height).toList,
      isPlain c = true := by
    simp only [String.toList_append, List.forall_mem_append]
    exact ⟨⟨⟨List.all_eq_true.1 (by decide), isPlain_of_mem_text⟩,
      List.all_eq_true.1 (by decide)⟩, isPlain_of_mem_text⟩
  have hp : Legible [("height", Decimal.text s.height),
      ("viewBox", "0 0 " ++ Decimal.text s.width ++ " " ++ Decimal.text s.height),
      ("width", Decimal.text s.width), ("xmlns", "http://www.w3.org/2000/svg")] :=
    legible_number (by decide) <| legible_cons (by decide) hbox <|
      legible_number (by decide) <| legible_word (by decide) (by decide) legible_nil
  have hopen := readAs_openTag hp (by decide : "svg".toList.all Char.isAlpha = true)
  have hwhite : Legible [("fill", "white"), ("height", "100%"), ("width", "100%")] :=
    legible_word (by decide) (by decide) <| legible_word (by decide) (by decide) <|
      legible_word (by decide) (by decide) legible_nil
  have hbackground :=
    readAs_emptyElement hwhite (by decide : "rect".toList.all Char.isAlpha = true)
  have hroot := readAs_elementLines (Or.inl rfl) legible_nil hr
  have hall := (hopen.append (hbackground.append hroot)
    (VectorImage.closeTag "svg").toList (Text.stops_cons rfl)).2
  have hend : shapes (VectorImage.closeTag "svg").toList = [] := by decide
  rw [← toList_intercalate_lines, hend, List.append_nil] at hall
  have hdocument : shapes s.document.toList = es := hall
  exact hdocument ▸ hs

end Written

end Markup

namespace VectorImage

theorem marks_on (d : Drawing) (width height : Float) :
    (d.on (blank width height)).root.marks = (d.shown []).map Prod.snd := by
  rw [← Picture.map_snd_placed _ [], placed_on, Drawing.map_snd_tracked]

open Markup

theorem shapes_document_on (d : Drawing) (width height : Float) :
    List.Forall₂ Shows (shapes (d.on (blank width height)).document.toList)
      ((d.shown []).map Prod.snd) := by
  rw [← marks_on d width height]
  exact shapes_document _

/-- After any drawing no group is left open, and the document read back shows what was drawn since
the last clear, each shape once and in its order. So nothing else has this document, except that
radii below zero are drawn as zero. -/
theorem document_keeps_every_mark (d : Drawing) (width height : Float) :
    (d.on (blank width height)).openGroups = [] ∧
      List.Forall₂ Shows (shapes (d.on (blank width height)).document.toList)
        ((d.shown []).map Prod.snd) ∧
      ∀ (other : Drawing) (width' height' : Float),
        (other.on (blank width' height')).document = (d.on (blank width height)).document →
          ((other.shown []).map Prod.snd).map drawn = ((d.shown []).map Prod.snd).map drawn := by
  refine ⟨openGroups_on d width height, shapes_document_on d width height, ?_⟩
  intro other width' height' he
  have hother := shapes_document_on other width' height'
  rw [he] at hother
  exact map_drawn_eq hother (shapes_document_on d width height)

example :
    let line := Mark.line ⟨0.0, 0.0⟩ ⟨1.0, 1.0⟩
    let circle := Mark.fillCircle ⟨2.0, 2.0⟩ 1.0
    let inner := Drawing.mark line (.scope 3.0 (.clear (.mark circle .done)) (.mark line .done))
    ((Drawing.scope 2.0 inner (.mark circle .done)).on (blank 9.0 9.0)).root.marks =
      [circle, line, circle] := by
  decide

end VectorImage

end SchemaSketch
