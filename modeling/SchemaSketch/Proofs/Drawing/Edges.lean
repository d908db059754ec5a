import SchemaSketch.Proofs.Layout.Erasure

/-!
The edges of a diagram, and the frame told node by node and edge by edge. An entity that is taken
out takes its edges with it, and what referred to it refers to the next entity of its name.
-/
namespace SchemaSketch

/-- An edge leads from an entity to an attribute it owns, or along a foreign key it declares. -/
inductive Edge
  | ownership (owner : Entity) (a : Attribute)
  | reference (source : Entity) (key : ForeignKey) (target : Entity)

namespace Edge

def origin : Edge → Entity
  | ownership owner _ => owner
  | reference source _ _ => source

def source (edge : Edge) : Node :=
  edge.origin.node

def target : Edge → Node
  | ownership _ a => a.node
  | reference _ _ target => target.node

def line (edge : Edge) : Point × Point :=
  Frame.edgeEnds edge.source edge.target

def triangle (arrowLength : Float) (edge : Edge) : Point × Point × Point :=
  Frame.arrowhead edge.line.1 edge.line.2 arrowLength

def marks (arrowLength : Float) (edge : Edge) : List Mark :=
  Frame.edgeMarks arrowLength edge.source edge.target

def meets (id : NodeId) : Edge → Bool
  | ownership owner _ => owner.hasId id
  | reference source _ target => source.hasId id || target.hasId id

end Edge

def Entity.nodes (e : Entity) : List Node :=
  e.node :: e.attributes.map (·.node)

def Entity.ownerships (e : Entity) : List Edge :=
  e.attributes.map (.ownership e)

namespace Diagram

def reference? (d : Diagram) (source : Entity) (key : ForeignKey) : Option Edge :=
  (d.named? key.table).map (.reference source key)

def references (d : Diagram) (e : Entity) : List Edge :=
  e.foreignKeys.filterMap (d.reference? e)

def edges (d : Diagram) : List Edge :=
  d.entities.flatMap Entity.ownerships ++ d.entities.flatMap d.references

def resolves (d : Diagram) (key : ForeignKey) : Bool :=
  d.entities.any (·.node.name == key.table)

end Diagram

section Marks

variable (arrowLength : Float) (d : Diagram) (e : Entity)

theorem Frame.entityMarks_eq : entityMarks e = e.nodes.flatMap nodeMarks := by
  simp [entityMarks, Entity.nodes, List.flatMap_map]

theorem Frame.ownershipMarks_eq :
    ownershipMarks arrowLength e = e.ownerships.flatMap (Edge.marks arrowLength) := by
  rw [Entity.ownerships, List.flatMap_map]
  rfl

theorem Frame.foreignKeyMarks_eq :
    foreignKeyMarks arrowLength d e = (d.references e).flatMap (Edge.marks arrowLength) := by
  rw [foreignKeyMarks, Diagram.references, List.filterMap_eq_flatMap_toList, List.flatMap_assoc]
  refine congrArg (List.flatMap · e.foreignKeys) (funext fun key => ?_)
  rw [Diagram.reference?]
  cases d.named? key.table with
  | none => rfl
  | some target => exact (List.append_nil _).symm

/-- A frame shows every node of every entity, and then every edge. -/
theorem Frame.marks_eq :
    marks arrowLength d = (d.entities.flatMap Entity.nodes).flatMap nodeMarks ++
      d.edges.flatMap (Edge.marks arrowLength) := by
  simp only [marks, Diagram.edges, List.flatMap_append, List.flatMap_assoc, List.append_assoc]
  simp only [← ownershipMarks_eq, ← foreignKeyMarks_eq, ← entityMarks_eq]

end Marks

namespace Diagram

variable {d : Diagram} {source target : Entity} {key : ForeignKey} {id : NodeId}

theorem reference?_eq_some_iff {edge : Edge} : d.reference? source key = some edge ↔
    ∃ target, d.named? key.table = some target ∧ .reference source key target = edge :=
  Option.map_eq_some_iff

theorem isSome_reference? : (d.reference? source key).isSome = d.resolves key := by
  rw [reference?, Option.isSome_map, named?, List.isSome_find?, resolves]

/-- A foreign key leads to the first entity of exactly the name it refers to. -/
theorem named?_eq_some_iff {name : String} : d.named? name = some target ↔
    target.node.name = name ∧ ∃ before after, d.entities = before ++ target :: after ∧
      ∀ e ∈ before, e.node.name ≠ name := by
  rw [named?, List.find?_eq_some_iff_append]
  simp

theorem reference_mem_edges : .reference source key target ∈ d.edges ↔
    source ∈ d.entities ∧ key ∈ source.foreignKeys ∧ d.named? key.table = some target := by
  simp only [edges, List.mem_append, List.mem_flatMap, Entity.ownerships, List.mem_map, references,
    List.mem_filterMap, reference?_eq_some_iff, Edge.reference.injEq, reduceCtorEq, and_false,
    exists_false, false_or]
  constructor
  · intro h
    obtain ⟨e, he, k, hk, t, ht, rfl, rfl, rfl⟩ := h
    exact ⟨he, hk, ht⟩
  · intro h
    obtain ⟨he, hk, ht⟩ := h
    exact ⟨source, he, key, hk, target, ht, rfl, rfl, rfl⟩

/-- There is an edge for every attribute and one for every foreign key that resolves. -/
theorem length_edges (d : Diagram) :
    d.edges.length = (d.entities.flatMap (·.attributes)).length +
      (d.entities.flatMap (·.foreignKeys)).countP d.resolves := by
  have howned (es : List Entity) :
      (es.flatMap Entity.ownerships).length = (es.flatMap (·.attributes)).length := by
    induction es with
    | nil => rfl
    | cons e es ih => simp [Entity.ownerships, ih]
  have hkeys (es : List Entity) : (es.flatMap d.references).length =
      (es.flatMap (·.foreignKeys)).countP d.resolves := by
    induction es with
    | nil => rfl
    | cons e es ih =>
      simp only [List.flatMap_cons, List.length_append, List.countP_append, ih, references,
        List.length_filterMap_eq_countP, isSome_reference?]
  rw [edges, List.length_append, howned, hkeys]

section Remove

/-- Another entity that is the first of its name is so still. -/
theorem named?_remove_of_ne {name : String} (h : d.named? name = some target)
    (ht : target.hasId id = false) : (d.remove (.ofEntity id)).named? name = some target := by
  obtain ⟨hn, before, after, he, hb⟩ := named?_eq_some_iff.1 h
  refine named?_eq_some_iff.2 ⟨hn, before.filter (!Entity.hasId id ·),
    after.filter (!Entity.hasId id ·), ?_, fun e hm => hb e (List.mem_filter.1 hm).1⟩
  simp [remove, he, ht]

theorem named?_remove_of_none {name : String} (h : d.named? name = none) :
    (d.remove (.ofEntity id)).named? name = none := by
  rw [named?, List.find?_eq_none] at h ⊢
  exact fun e he => h e (List.mem_filter.1 he).1

end Remove

end Diagram

/-- What becomes of an edge when the entity of a number is taken out and leaves the diagram `d`. An
edge from it is gone. One to it leads to the next entity of its name, if there is one. -/
def Edge.without (d : Diagram) (id : NodeId) : Edge → Option Edge
  | ownership owner a => if owner.hasId id then none else some (ownership owner a)
  | reference source key target =>
    if source.hasId id then none
    else if target.hasId id then d.reference? source key
    else some (reference source key target)

namespace Diagram

theorem flatMap_filter_eq {α β : Type} {p : α → Bool} {f g : α → List β}
    (hp : ∀ a, p a = true → g a = f a) (hn : ∀ a, p a = false → g a = []) (as : List α) :
    (as.filter p).flatMap f = as.flatMap g := by
  induction as with
  | nil => rfl
  | cons a as ih =>
    cases h : p a with
    | true => rw [List.filter_cons_of_pos h, List.flatMap_cons, List.flatMap_cons, ih, hp a h]
    | false => simp [List.filter_cons_of_neg, h, hn a h, ih]

variable {d : Diagram} {source target : Entity} {key : ForeignKey} {id : NodeId}

theorem reference?_remove (h : source.hasId id = false) (key : ForeignKey) :
    (d.reference? source key).bind (Edge.without (d.remove (.ofEntity id)) id) =
      (d.remove (.ofEntity id)).reference? source key := by
  cases hn : d.named? key.table with
  | none => rw [reference?, reference?, hn, named?_remove_of_none hn]; rfl
  | some target =>
    simp only [reference?, hn, Option.map_some, Option.bind_some, Edge.without, h,
      Bool.false_eq_true, if_false]
    cases ht : target.hasId id with
    | true => rfl
    | false => rw [named?_remove_of_ne hn ht]; rfl

theorem ownerships_without (e : Entity) : e.ownerships.filterMap (Edge.without d id) =
    if e.hasId id then [] else e.ownerships := by
  rw [Entity.ownerships, List.filterMap_map]
  split
  · next h => simp [Function.comp_def, Edge.without, h]
  · next h => simp [Function.comp_def, Edge.without, h]

theorem references_without (e : Entity) :
    (d.references e).filterMap (Edge.without (d.remove (.ofEntity id)) id) =
      if e.hasId id then [] else (d.remove (.ofEntity id)).references e := by
  rw [references, List.filterMap_filterMap]
  split
  · next h =>
    refine List.filterMap_eq_nil_iff.2 fun key _ => Option.bind_eq_none_iff.2 fun edge he => ?_
    obtain ⟨target, -, rfl⟩ := reference?_eq_some_iff.1 he
    exact if_pos h
  · next h => exact congrArg (List.filterMap · _) (funext (reference?_remove (Bool.of_not_eq_true h)))

/-- The edges that are left when an entity is taken out, in their order. -/
theorem edges_remove (d : Diagram) (id : NodeId) : (d.remove (.ofEntity id)).edges =
    d.edges.filterMap (Edge.without (d.remove (.ofEntity id)) id) := by
  have hd : (d.remove (.ofEntity id)).entities = d.entities.filter (!Entity.hasId id ·) := rfl
  rw [edges, edges, List.filterMap_append, List.filterMap_flatMap, List.filterMap_flatMap, hd]
  congr 1
  · refine flatMap_filter_eq (fun e he => ?_) (fun e he => ?_) d.entities
    · rw [ownerships_without, if_neg (by simpa using he)]
    · rw [ownerships_without, if_pos (by simpa using he)]
  · refine flatMap_filter_eq (fun e he => ?_) (fun e he => ?_) d.entities
    · rw [references_without, if_neg (by simpa using he)]
    · rw [references_without, if_pos (by simpa using he)]

/-- If no other entity has its name, an entity takes exactly its own edges with it. -/
theorem edges_remove_of_unshared {gone : Entity}
    (hid : ∀ e ∈ d.entities, e.hasId id = true → e = gone)
    (hname : ∀ e ∈ (d.remove (.ofEntity id)).entities, e.node.name ≠ gone.node.name) :
    (d.remove (.ofEntity id)).edges = d.edges.filter (!·.meets id) := by
  rw [edges_remove, ← List.filterMap_eq_filter]
  refine List.filterMap_congr fun edge he => ?_
  cases edge with
  | ownership owner a => cases h : owner.hasId id <;> simp [Edge.without, Edge.meets, Option.guard, h]
  | reference source key target =>
    obtain ⟨-, -, hn⟩ := reference_mem_edges.1 he
    have hlost (ht : target.hasId id = true) :
        (d.remove (.ofEntity id)).named? key.table = none := by
      obtain ⟨htable, before, after, hd, -⟩ := named?_eq_some_iff.1 hn
      have hgone : target = gone := hid target (by simp [hd]) ht
      rw [named?, List.find?_eq_none]
      intro e hm
      simpa [← htable, hgone] using hname e hm
    cases hs : source.hasId id with
    | true => simp [Edge.without, Edge.meets, Option.guard, hs]
    | false =>
      cases ht : target.hasId id with
      | true => simp [Edge.without, Edge.meets, Option.guard, hs, ht, reference?, hlost ht]
      | false => simp [Edge.without, Edge.meets, Option.guard, hs, ht]

end Diagram

section Recordings

def Mark.line? : Mark → Option (Point × Point)
  | .line start finish => some (start, finish)
  | _ => none

def Mark.triangle? : Mark → Option (Point × Point × Point)
  | .triangle tip left right => some (tip, left, right)
  | _ => none

def Command.mark? : Command → Option Mark
  | .mark m => some m
  | _ => none

namespace Recording

variable (arrowLength zoom : Float) (d : Diagram) (s : Recording)

def marks (s : Recording) : List Mark :=
  s.commands.toList.filterMap Command.mark?

theorem filterMap_marks {β : Type} {shown : Command → Option β} {shown? : Mark → Option β}
    (h : ∀ c, (Command.mark? c).bind shown? = shown c) :
    s.commands.toList.filterMap shown = s.marks.filterMap shown? := by
  rw [marks, List.filterMap_filterMap]
  exact congrArg (List.filterMap · _) (funext fun c => (h c).symm)

theorem texts_eq : s.texts = s.marks.filterMap Mark.label? :=
  s.filterMap_marks fun c => by
    cases c with
    | mark m => cases m <;> rfl
    | _ => rfl

theorem lines_eq : s.lines = s.marks.filterMap Mark.line? :=
  s.filterMap_marks fun c => by
    cases c with
    | mark m => cases m <;> rfl
    | _ => rfl

theorem triangles_eq : s.triangles = s.marks.filterMap Mark.triangle? :=
  s.filterMap_marks fun c => by
    cases c with
    | mark m => cases m <;> rfl
    | _ => rfl

theorem marks_frame :
    ((Frame.drawing arrowLength zoom d).on s).marks = Frame.marks arrowLength d := by
  have hmarks (ms : List Mark) : (ms.map Command.mark).filterMap Command.mark? = ms := by
    rw [List.filterMap_map]
    exact List.filterMap_some
  rw [on_frame, marks]
  simp [List.filterMap_cons, hmarks, Command.mark?]

/-- What is shown by the marks of nodes and edges is shown by the frame, in this order. -/
theorem filterMap_frame {β : Type} {shown? : Mark → Option β} (ofNode : Node → List β)
    (ofEdge : Edge → List β) (hnode : ∀ node, (Frame.nodeMarks node).filterMap shown? = ofNode node)
    (hedge : ∀ edge : Edge, (edge.marks arrowLength).filterMap shown? = ofEdge edge) :
    ((Frame.drawing arrowLength zoom d).on s).marks.filterMap shown? =
      (d.entities.flatMap Entity.nodes).flatMap ofNode ++ d.edges.flatMap ofEdge := by
  rw [marks_frame, Frame.marks_eq, List.filterMap_append, List.filterMap_flatMap,
    List.filterMap_flatMap, funext hnode, funext hedge]

/-- The recording holds one frame of the diagram: in one scope all nodes, each entity followed by
its attributes, and then all edges, those to attributes first. The tip of each arrowhead is where
its line ends. -/
structure Draws (arrowLength zoom : Float) (d : Diagram) (s : Recording) : Prop where
  commands : s.commands.toList = [.clear, .pushScale zoom] ++
    ((d.entities.flatMap Entity.nodes).flatMap fun node =>
      [.mark (.fillCircle node.center node.radius), .mark (.strokeCircle node.center node.radius),
        .mark (.text node.center node.name)]) ++
    (d.edges.flatMap fun edge => (edge.marks arrowLength).map .mark) ++ [.popScale]
  texts : s.texts = (d.entities.flatMap Entity.nodes).map (·.name)
  edges : s.lines = d.edges.map Edge.line
  lines : s.lines =
    (d.entities.flatMap fun e => e.attributes.map fun a => Frame.edgeEnds e.node a.node) ++
      d.entities.flatMap fun e => e.foreignKeys.filterMap fun key =>
        (d.named? key.table).map fun target => Frame.edgeEnds e.node target.node
  triangles : s.triangles = s.lines.map fun line => Frame.arrowhead line.1 line.2 arrowLength
  tips : s.triangles.map (·.1) = s.lines.map (·.2)
  count : s.lines.length = (d.entities.flatMap (·.attributes)).length +
    ((d.entities.flatMap (·.foreignKeys)).filter d.resolves).length

theorem Draws.of_commands {arrowLength zoom : Float} {d : Diagram} {s t : Recording}
    (h : t.Draws arrowLength zoom d) (hc : s.commands = t.commands) : s.Draws arrowLength zoom d := by
  obtain ⟨width, height, commands, frames⟩ := s
  obtain rfl : commands = t.commands := hc
  exact ⟨h.commands, h.texts, h.edges, h.lines, h.triangles, h.tips, h.count⟩

theorem draws_frame : ((Frame.drawing arrowLength zoom d).on s).Draws arrowLength zoom d := by
  have hlines : ((Frame.drawing arrowLength zoom d).on s).lines = d.edges.map Edge.line := by
    rw [lines_eq, filterMap_frame _ _ _ _ (fun _ => []) (fun edge => [edge.line])
      (fun _ => rfl) fun _ => rfl]
    simp [List.map_eq_flatMap]
  have htriangles : ((Frame.drawing arrowLength zoom d).on s).triangles =
      d.edges.map (Edge.triangle arrowLength) := by
    rw [triangles_eq, filterMap_frame _ _ _ _ (fun _ => [])
      (fun edge => [edge.triangle arrowLength]) (fun _ => rfl) fun _ => rfl]
    simp [List.map_eq_flatMap]
  refine ⟨?_, ?_, hlines, ?_, ?_, ?_, ?_⟩
  · rw [on_frame, Frame.marks_eq]
    simp [List.map_flatMap, Frame.nodeMarks]
  · rw [texts_eq, filterMap_frame _ _ _ _ (fun node => [node.name]) (fun _ => [])
      (fun _ => rfl) fun _ => rfl]
    simp [List.map_eq_flatMap]
  · rw [hlines, Diagram.edges, List.map_append, List.map_flatMap, List.map_flatMap]
    simp [Entity.ownerships, Diagram.references, Diagram.reference?, List.map_filterMap,
      Function.comp_def, Edge.line, Edge.source, Edge.target, Edge.origin]
  · rw [hlines, htriangles, List.map_map]
    rfl
  · rw [hlines, htriangles, List.map_map, List.map_map]
    rfl
  · rw [hlines, List.length_map, Diagram.length_edges, List.countP_eq_length_filter]

end Recording

end Recordings

end SchemaSketch
