import SchemaSketch.Proofs.Number.RoundTrip
import SchemaSketch.Surface.VectorImage

/-!
Documents read back. A text is cut at its tags, and a tag is taken apart into a name and the
properties that stand in it.
-/
namespace SchemaSketch.Markup

open Text

structure Element where
  name : String
  properties : List (String × String)
  content : List Char
  deriving DecidableEq

def pieces : List Char → List (List Char)
  | [] => []
  | c :: s => if c = '<' then s.takeWhile (· ≠ '<') :: pieces s else pieces s

/-- The word in front of a quoted value: what is between the last blank and the equals sign. -/
def key (s : List Char) : String :=
  String.ofList (((s.dropWhile (· ≠ ' ')).drop 1).takeWhile (· ≠ '='))

def pairUp : List (List Char) → List (String × String)
  | front :: value :: rest => (key front, String.ofList value) :: pairUp rest
  | _ => []

/-- Reads a piece. Closing tags have no name, because they begin with a slash. -/
def Element.ofPiece (piece : List Char) : Element where
  name := String.ofList (piece.takeWhile Char.isAlpha)
  properties := pairUp ((piece.takeWhile (· ≠ '>')).splitOn '"')
  content := (piece.dropWhile (· ≠ '>')).drop 1

/-- The elements that are neither the document itself nor the background nor groups. -/
def isShape (e : Element) : Bool :=
  e.name ∉ ["", "svg", "rect", "g"]

def shapes (document : List Char) : List Element :=
  ((pieces document).map Element.ofPiece).filter isShape

def unescape : List Char → List Char
  | '&' :: 'a' :: 'm' :: 'p' :: ';' :: s => '&' :: unescape s
  | '&' :: 'l' :: 't' :: ';' :: s => '<' :: unescape s
  | '&' :: 'g' :: 't' :: ';' :: s => '>' :: unescape s
  | c :: s => c :: unescape s
  | [] => []

theorem unescape_escape (s : List Char) : unescape (VectorImage.escape s) = s := by
  induction s with
  | nil => rfl
  | cons c s ih =>
    rw [VectorImage.escape, List.flatMap_cons, ← VectorImage.escape]
    split
    · exact congrArg _ ih
    · exact congrArg _ ih
    · exact congrArg _ ih
    · next ha hl hg =>
      rw [List.singleton_append, unescape, ih]
      all_goals exact fun _ hc _ => ha hc

section Tag

def isPlain (c : Char) : Bool :=
  c ≠ '<' && c ≠ '>' && c ≠ '"'

def isKeyChar (c : Char) : Bool :=
  isPlain c && c ≠ ' ' && c ≠ '='

def Legible (properties : List (String × String)) : Prop :=
  ∀ p ∈ properties, (∀ c ∈ p.1.toList, isKeyChar c = true) ∧ ∀ c ∈ p.2.toList, isPlain c = true

variable {a k v s close content : List Char} {name : String} {properties : List (String × String)}

theorem isPlain_of_isKeyChar {c : Char} (h : isKeyChar c = true) : isPlain c = true := by
  rw [isKeyChar, Bool.and_eq_true, Bool.and_eq_true] at h
  exact h.1.1

theorem isKeyChar_of_isAlpha {c : Char} (h : c.isAlpha = true) : isKeyChar c = true := by
  have hne {d : Char} (hd : d.isAlpha = false) : c ≠ d := by
    rintro rfl
    rw [h] at hd
    cases hd
  simp [isKeyChar, isPlain, @hne '<' rfl, @hne '>' rfl, @hne '"' rfl, @hne ' ' rfl, @hne '=' rfl]

theorem quote_not_mem (ha : ∀ c ∈ a, isPlain c = true) : '"' ∉ a :=
  fun h => absurd (ha _ h) (by decide)

theorem key_append (ha : ∀ c ∈ a, isKeyChar c = true) (hk : ∀ c ∈ k, isKeyChar c = true) :
    key (a ++ ' ' :: (k ++ ['='])) = String.ofList k := by
  have hblank : ∀ c ∈ a, decide (c ≠ ' ') = true := fun c hc => decide_eq_true fun he => by
    subst he
    exact absurd (ha _ hc) (by decide)
  have hsign : ∀ c ∈ k, decide (c ≠ '=') = true := fun c hc => decide_eq_true fun he => by
    subst he
    exact absurd (hk _ hc) (by decide)
  rw [key, dropWhile_append_of_stops hblank (stops_cons rfl), List.drop_succ_cons, List.drop_zero,
    takeWhile_append_of_stops hsign (stops_cons rfl)]

theorem toList_property (name value : String) : (VectorImage.property name value).toList =
    ' ' :: (name.toList ++ ['=']) ++ '"' :: (value.toList ++ ['"']) := by
  simp [VectorImage.property]

theorem pairUp_splitOn (hp : Legible properties) (ha : ∀ c ∈ a, isKeyChar c = true)
    (hc : ∀ c ∈ close, isPlain c = true) :
    pairUp ((a ++ ((String.join (properties.map fun (name, value) =>
      VectorImage.property name value)).toList ++ close)).splitOn '"') = properties := by
  induction properties generalizing a with
  | nil =>
    have hplain : ∀ c ∈ a ++ close, isPlain c = true := fun c hm =>
      (List.mem_append.1 hm).elim (fun hm => isPlain_of_isKeyChar (ha c hm)) (hc c)
    exact congrArg pairUp (List.splitOn_eq_singleton (quote_not_mem hplain))
  | cons p properties ih =>
    obtain ⟨k, v⟩ := p
    obtain ⟨⟨hk, hv⟩, hp⟩ := List.forall_mem_cons.1 hp
    have hfront : '"' ∉ a ++ ' ' :: (k.toList ++ ['=']) := by
      have ha' := quote_not_mem fun c hc => isPlain_of_isKeyChar (ha c hc)
      have hk' := quote_not_mem fun c hc => isPlain_of_isKeyChar (hk c hc)
      simp [ha', hk']
    have hsplit (rest : List Char) :
        a ++ (((VectorImage.property k v).toList ++ rest) ++ close) =
          (a ++ ' ' :: (k.toList ++ ['='])) ++
            '"' :: (v.toList ++ '"' :: ([] ++ (rest ++ close))) := by
      simp [toList_property]
    rw [List.map_cons, String.join_cons, String.toList_append, hsplit,
      List.splitOn_append_cons_self_of_not_mem hfront,
      List.splitOn_append_cons_self_of_not_mem (quote_not_mem hv), pairUp, key_append ha hk,
      @ih [] hp (List.forall_mem_nil _), String.ofList_toList, String.ofList_toList]

theorem mem_tag {c : Char} (hp : Legible properties) (hn : ∀ c ∈ name.toList, c.isAlpha = true)
    (hc : c ∈ (VectorImage.tag name properties).toList) : c ≠ '<' ∧ c ≠ '>' := by
  have hplain {c : Char} (h : isPlain c = true) : c ≠ '<' ∧ c ≠ '>' := by
    simp only [isPlain, Bool.and_eq_true, decide_eq_true_eq] at h
    exact h.1
  rw [VectorImage.tag, String.toList_append, String.toList_join, List.flatMap_map,
    List.mem_append, List.mem_flatMap] at hc
  obtain hc | ⟨⟨k, v⟩, hm, hc⟩ := hc
  · exact hplain (isPlain_of_isKeyChar (isKeyChar_of_isAlpha (hn c hc)))
  · obtain ⟨hk, hv⟩ := hp _ hm
    dsimp only at hc
    rw [toList_property] at hc
    simp only [List.cons_append, List.mem_cons, List.mem_append, List.not_mem_nil, or_false] at hc
    obtain rfl | (hc | rfl) | rfl | hc | rfl := hc
    · decide
    · exact hplain (isPlain_of_isKeyChar (hk c hc))
    · decide
    · decide
    · exact hplain (hv c hc)
    · decide

/-- Behind its name a tag goes on with a blank or ends. -/
theorem stops_tag (properties : List (String × String)) (hc : close = [] ∨ close = ['/']) :
    Stops Char.isAlpha ((String.join (properties.map fun (name, value) =>
      VectorImage.property name value)).toList ++ (close ++ '>' :: content)) := by
  cases properties with
  | nil => obtain rfl | rfl := hc <;> exact stops_cons rfl
  | cons p properties =>
    rw [List.map_cons, String.join_cons, String.toList_append, toList_property]
    exact stops_cons rfl

theorem takeWhile_tag (hn : ∀ c ∈ name.toList, c.isAlpha = true)
    (hc : close = [] ∨ close = ['/']) : ((VectorImage.tag name properties).toList ++
      (close ++ '>' :: content)).takeWhile Char.isAlpha = name.toList := by
  rw [VectorImage.tag, String.toList_append, List.append_assoc,
    takeWhile_append_of_stops hn (stops_tag properties hc)]

/-- A tag reads as what it was made of. -/
theorem ofPiece_tag (hp : Legible properties) (hn : ∀ c ∈ name.toList, c.isAlpha = true)
    (hc : close = [] ∨ close = ['/']) (content : List Char) :
    Element.ofPiece ((VectorImage.tag name properties).toList ++ (close ++ '>' :: content)) =
      ⟨name, properties, content⟩ := by
  have hclose : ∀ c ∈ close, isPlain c = true := by
    obtain rfl | rfl := hc
    · exact List.forall_mem_nil _
    · exact List.forall_mem_singleton.2 (by decide)
  have hend : ∀ c ∈ (VectorImage.tag name properties).toList ++ close,
      decide (c ≠ '>') = true := fun c hm => decide_eq_true <| by
    obtain hm | hm := List.mem_append.1 hm
    · exact (mem_tag hp hn hm).2
    · have h := hclose c hm
      rintro rfl
      cases h
  have hpairs := pairUp_splitOn hp (fun c hm => isKeyChar_of_isAlpha (hn c hm)) hclose
  rw [Element.ofPiece, takeWhile_tag hn hc, String.ofList_toList, ← List.append_assoc,
    takeWhile_append_of_stops hend (stops_cons rfl),
    dropWhile_append_of_stops hend (stops_cons rfl), VectorImage.tag, String.toList_append,
    List.append_assoc, hpairs]
  rfl

end Tag

section Lines

variable {a rest content : List Char} {name : String} {properties : List (String × String)}
  {lines more : List String} {es es' : List Element}

theorem pieces_append (ha : '<' ∉ a) (rest : List Char) : pieces (a ++ rest) = pieces rest := by
  induction a with
  | nil => rfl
  | cons c a ih =>
    obtain ⟨hc, ha⟩ := not_or.1 (fun h => ha (List.mem_cons.2 h))
    rw [List.cons_append, pieces, if_neg (Ne.symm hc), ih ha]

def Fronted (rest : List Char) : Prop :=
  Stops (fun c => decide (c ≠ '<')) rest

theorem shapes_cons (ha : '<' ∉ a) (hr : Fronted rest) :
    shapes ('<' :: (a ++ rest)) = [Element.ofPiece a].filter isShape ++ shapes rest := by
  have hfront : ∀ c ∈ a, decide (c ≠ '<') = true := fun c hc => decide_eq_true fun he =>
    ha (he ▸ hc)
  rw [shapes, pieces, if_pos rfl, takeWhile_append_of_stops hfront hr, pieces_append ha,
    List.map_cons, ← List.singleton_append, List.filter_append]
  rfl

def joined (lines : List String) : List Char :=
  lines.flatMap fun line => line.toList ++ ['\n']

/-- Lines that are read as these shapes, whatever tag comes next. -/
def ReadAs (lines : List String) (es : List Element) : Prop :=
  ∀ rest, Fronted rest →
    Fronted (joined lines ++ rest) ∧ shapes (joined lines ++ rest) = es ++ shapes rest

theorem readAs_nil : ReadAs [] [] :=
  fun _ hr => ⟨hr, rfl⟩

theorem ReadAs.append (h : ReadAs lines es) (h' : ReadAs more es') :
    ReadAs (lines ++ more) (es ++ es') := by
  intro rest hr
  obtain ⟨hf', hs'⟩ := h' rest hr
  obtain ⟨hf, hs⟩ := h _ hf'
  rw [joined, List.flatMap_append, List.append_assoc, ← joined, ← joined]
  exact ⟨hf, by rw [hs, hs', List.append_assoc]⟩

theorem readAs_of_joined (hj : joined lines = '<' :: a) (ha : '<' ∉ a) :
    ReadAs lines ([Element.ofPiece a].filter isShape) := by
  intro rest hr
  rw [hj]
  exact ⟨stops_cons rfl, shapes_cons ha hr⟩

theorem not_mem_piece {close : List Char} (hp : Legible properties)
    (hn : ∀ c ∈ name.toList, c.isAlpha = true) (hc : close = [] ∨ close = ['/'])
    (hcontent : '<' ∉ content) :
    '<' ∉ (VectorImage.tag name properties).toList ++ (close ++ '>' :: content) := by
  intro hm
  obtain hm | hm := List.mem_append.1 hm
  · exact absurd rfl (mem_tag hp hn hm).1
  · obtain rfl | rfl := hc <;> simp [hcontent] at hm

theorem readAs_emptyElement (hp : Legible properties) (hn : name.toList.all Char.isAlpha = true) :
    ReadAs [VectorImage.emptyElement name properties]
      ([⟨name, properties, ['\n']⟩].filter isShape) := by
  have hn := List.all_eq_true.1 hn
  have hj : joined [VectorImage.emptyElement name properties] =
      '<' :: ((VectorImage.tag name properties).toList ++ (['/'] ++ '>' :: ['\n'])) := by
    simp [joined, VectorImage.emptyElement]
  rw [← ofPiece_tag hp hn (Or.inr rfl)]
  exact readAs_of_joined hj (not_mem_piece hp hn (Or.inr rfl) (by decide))

theorem readAs_openTag (hp : Legible properties) (hn : name.toList.all Char.isAlpha = true) :
    ReadAs [VectorImage.openTag name properties]
      ([⟨name, properties, ['\n']⟩].filter isShape) := by
  have hn := List.all_eq_true.1 hn
  have hj : joined [VectorImage.openTag name properties] =
      '<' :: ((VectorImage.tag name properties).toList ++ ([] ++ '>' :: ['\n'])) := by
    simp [joined, VectorImage.openTag]
  rw [← ofPiece_tag hp hn (Or.inl rfl)]
  exact readAs_of_joined hj (not_mem_piece hp hn (Or.inl rfl) (by decide))

theorem readAs_closeTag (hn : '<' ∉ name.toList) : ReadAs [VectorImage.closeTag name] [] := by
  have hj : joined [VectorImage.closeTag name] = '<' :: '/' :: (name.toList ++ ['>', '\n']) := by
    simp [joined, VectorImage.closeTag]
  have hname : (Element.ofPiece ('/' :: (name.toList ++ ['>', '\n']))).name = "" := rfl
  have h := readAs_of_joined hj (by simp [hn])
  rwa [List.filter_cons_of_neg (by simp [isShape, hname])] at h

/-- An element with text in it, which has been escaped. -/
theorem readAs_text {text : String} (hp : Legible properties)
    (hn : name.toList.all Char.isAlpha = true) (ht : '<' ∉ text.toList) :
    ReadAs [VectorImage.openTag name properties, text, VectorImage.closeTag name]
      ([⟨name, properties, '\n' :: (text.toList ++ ['\n'])⟩].filter isShape) := by
  have hn := List.all_eq_true.1 hn
  have hcontent : '<' ∉ '\n' :: (text.toList ++ ['\n']) := by simp [ht]
  have hname : '<' ∉ name.toList := fun h => absurd (hn _ h) (by decide)
  have hj : joined [VectorImage.openTag name properties, text] =
      '<' :: ((VectorImage.tag name properties).toList ++
        ([] ++ '>' :: '\n' :: (text.toList ++ ['\n']))) := by
    simp [joined, VectorImage.openTag]
  have h := readAs_of_joined hj (not_mem_piece hp hn (Or.inl rfl) hcontent)
  rw [ofPiece_tag hp hn (Or.inl rfl)] at h
  have h := h.append (readAs_closeTag hname)
  rwa [List.append_nil] at h

end Lines

end SchemaSketch.Markup
