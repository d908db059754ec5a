import SchemaSketch.Proofs.Diagram.Lookup
import SchemaSketch.Proofs.Editor.Locality

/-!
How a held node follows the pointer. A move places its circle by the pointer and by what no move
changes: the offset, and of the circle the radius in a drag and the center in a resize. So a run of
moves does what its last one would have done alone, whatever is renamed, deleted or zoomed between.
-/
namespace SchemaSketch

structure Circle where
  center : Point
  radius : Float
  deriving DecidableEq

def Node.circle (node : Node) : Circle :=
  ⟨node.center, node.radius⟩

def Diagram.circle? (d : Diagram) (address : Address) : Option Circle :=
  (d.node? address).map Node.circle

def Call.moved? : Call → Option Point
  | .move pointer => some pointer
  | _ => none

def Call.moves (calls : List Call) : List Point :=
  calls.filterMap Call.moved?

theorem Call.moves_cons (call : Call) (calls : List Call) :
    Call.moves (call :: calls) = call.moved?.toList ++ Call.moves calls := by
  rw [moves, List.filterMap_cons]
  cases call.moved? <;> rfl

namespace Grip

variable (grip : Grip)

def lead (pointer : Point) (c : Circle) : Circle :=
  match grip with
  | .idle => c
  | .dragging _ offset => { c with center := pointer - offset }
  | .resizing _ offset => { c with radius := pointer.distance c.center - offset }

def leadAlong (pointers : List Point) (c : Circle) : Circle :=
  pointers.foldl (fun c pointer => grip.lead pointer c) c

theorem lead_lead (p q : Point) (c : Circle) : grip.lead q (grip.lead p c) = grip.lead q c := by
  cases grip <;> rfl

theorem lead_leadAlong (pointers : List Point) (p : Point) (c : Circle) :
    grip.lead p (grip.leadAlong pointers c) = grip.lead p c := by
  induction pointers generalizing c with
  | nil => rfl
  | cons q pointers ih =>
    calc
      grip.lead p (grip.leadAlong (q :: pointers) c)
          = grip.lead p (grip.leadAlong pointers (grip.lead q c)) := rfl
      _ = grip.lead p (grip.lead q c) := ih _
      _ = grip.lead p c := grip.lead_lead q p c

/-- The last of the moves makes what all of them make. -/
theorem leadAlong_of_getLast? {pointers : List Point} {p : Point}
    (h : pointers.getLast? = some p) (c : Circle) : grip.leadAlong pointers c = grip.lead p c := by
  obtain ⟨before, rfl⟩ := List.getLast?_eq_some_iff.1 h
  rw [leadAlong, List.foldl_append]
  exact grip.lead_leadAlong before p c

theorem leadAlong_append (ps qs : List Point) (c : Circle) :
    grip.leadAlong (ps ++ qs) c = grip.leadAlong qs (grip.leadAlong ps c) :=
  List.foldl_append

end Grip

namespace Diagram

section Circles

variable {d : Diagram} {f : Node → Node} {g : Circle → Circle}

theorem circle?_modify (address other : Address) (hf : ∀ node, (f node).id = node.id)
    (hg : ∀ node, (f node).circle = g node.circle) :
    (d.modify address f).circle? other =
      (d.circle? other).map (if other = address then g else id) := by
  rw [circle?, lookup_modify d address other hf, circle?, Option.map_map, Option.map_map]
  congr 1
  funext node
  by_cases h : other = address <;> simp [h, hg]

theorem circle?_remove (address other : Address) :
    (d.remove address).circle? other = if address ∈ other.path then none else d.circle? other := by
  rw [circle?, lookup_remove]
  split <;> rfl

end Circles

structure Leads (grip : Grip) (address : Address) (pointers : List Point) (d d' : Diagram) :
    Prop where
  held : d'.circle? address = (d.circle? address).map (grip.leadAlong pointers)
  others : ∀ other ≠ address, ∀ c, d'.circle? other = some c → d.circle? other = some c

namespace Leads

variable {grip : Grip} {address : Address} {ps qs : List Point} {d d' d'' : Diagram}
  {f : Node → Node}

theorem of_circles (h : ∀ other, d'.circle? other = d.circle? other) :
    Leads grip address [] d d' := by
  refine ⟨?_, fun other _ c hc => ?_⟩
  · rw [h]
    exact (congrFun Option.map_id _).symm
  · rwa [← h]

theorem refl (d : Diagram) : Leads grip address [] d d :=
  of_circles fun _ => rfl

theorem trans (h : Leads grip address ps d d') (h' : Leads grip address qs d' d'') :
    Leads grip address (ps ++ qs) d d'' := by
  refine ⟨?_, fun other ho c hc => h.others other ho c (h'.others other ho c hc)⟩
  rw [h'.held, h.held, Option.map_map]
  congr 1
  funext c
  exact (grip.leadAlong_append ps qs c).symm

theorem modify {pointer : Point} (hf : ∀ node, (f node).id = node.id)
    (hg : ∀ node, (f node).circle = grip.lead pointer node.circle) :
    Leads grip address [pointer] d (d.modify address f) := by
  constructor
  · rw [circle?_modify address address hf hg, if_pos rfl]
    rfl
  · intro other ho c hc
    rw [circle?_modify address other hf hg, if_neg ho, Option.map_id] at hc
    exact hc

theorem rename (renamed : Address) (name : String) :
    Leads grip address [] d (d.modify renamed fun node => { node with name := name }) := by
  refine of_circles fun other => ?_
  have hm := circle?_modify (d := d) renamed other (f := fun node => { node with name := name })
    (g := id) (fun _ => rfl) fun _ => rfl
  rwa [ite_self, Option.map_id] at hm

theorem remove {removed : Address} (h : removed ∉ address.path) :
    Leads grip address [] d (d.remove removed) := by
  constructor
  · rw [circle?_remove, if_neg h]
    exact (congrFun Option.map_id _).symm
  · intro other _ c hc
    rw [circle?_remove] at hc
    split at hc
    · cases hc
    · exact hc

end Leads

end Diagram

namespace Editor

variable {σ : Type}

/-- Calls that neither grab a node nor take out the one at the address or its owner, nor lay out
afresh, nor let go. -/
inductive Spares (address : Address) (e : Editor σ) : Call → Prop
  | move (pointer : Point) : Spares address e (.move pointer)
  | scroll (delta : Float) (modifier : Bool) : Spares address e (.scroll delta modifier)
  | redraw : Spares address e .redraw
  | rename (pointer : Point) (answer : Option String) : Spares address e (.rename pointer answer)
  | press (pointer : Point) : e.diagram.hit? pointer = none → Spares address e (.press pointer)
  | delete (pointer : Point) (confirmed : Bool) :
      (confirmed = true → ∀ hit, e.diagram.hit? pointer = some hit → hit ∉ address.path) →
      Spares address e (.delete pointer confirmed)

inductive Rests (e : Editor σ) : Call → Prop
  | move (pointer : Point) : Rests e (.move pointer)
  | release : Rests e .release
  | press (pointer : Point) : e.diagram.hit? pointer = none → Rests e (.press pointer)

theorem target?_eq_none {e : Editor σ} {pointer : Point} (h : e.diagram.hit? pointer = none) :
    e.target? pointer = none := by
  rw [target?, h]
  rfl

theorem press_of_hit? {e : Editor σ} {pointer : Point} (h : e.diagram.hit? pointer = none) :
    e.press pointer = e := by
  rw [press, target?_eq_none h]

theorem dropLost_of_holds {e : Editor σ} {address : Address} (ha : e.grip.held? = some address)
    (h : e.diagram.holds address = true) : e.dropLost = e := by
  rw [dropLost, ha]
  exact if_pos h

section Led

variable {e e' : Editor σ} {address : Address}

structure Led (address : Address) (pointers : List Point) (e e' : Editor σ) : Prop where
  grip : e'.grip = e.grip
  leads : Diagram.Leads e.grip address pointers e.diagram e'.diagram

theorem Led.refl (e : Editor σ) : Led address [] e e :=
  ⟨rfl, .refl _⟩

theorem Led.trans {m : Editor σ} {ps qs : List Point} (h : Led address ps e m)
    (h' : Led address qs m e') : Led address (ps ++ qs) e e' := by
  refine ⟨h'.grip.trans h.grip, h.leads.trans ?_⟩
  rw [← h.grip]
  exact h'.leads

end Led

variable [Surface σ]

def Along (P : Editor σ → Call → Prop) : Editor σ → List Call → Prop
  | _, [] => True
  | e, call :: calls =>
    P e call ∧ ∀ m reply, e.step call = .ok (m, reply) → Along P m calls

variable {e e' : Editor σ} {address : Address}

theorem along_cons {P : Editor σ → Call → Prop} {m : Editor σ} {call : Call} {calls : List Call}
    {reply : Reply} (hc : P e call) (hs : e.step call = .ok (m, reply)) (h : Along P m calls) :
    Along P e (call :: calls) := by
  refine ⟨hc, fun m' reply' hs' => ?_⟩
  obtain ⟨rfl, -⟩ := Prod.mk.inj (Except.ok.inj (hs.symm.trans hs'))
  exact h

theorem led_adjust {node : Node} (hn : e.diagram.node? address = some node) {f : Node → Node}
    {pointer : Point} (hf : ∀ node, (f node).id = node.id)
    (hg : ∀ node, (f node).circle = e.grip.lead pointer node.circle) :
    Led address [pointer] e (e.adjust address f) := by
  rw [adjust_of_node? hn]
  exact ⟨rfl, .modify hf hg⟩

theorem led_move (h : e.Coherent) (ha : e.grip.held? = some address) (pointer : Point) :
    Led address [pointer] e (e.move pointer) := by
  obtain ⟨node, hn⟩ := h.node?_of_held ha
  unfold move
  split
  · next hg =>
    rw [hg] at ha
    cases ha
  · next held offset hg =>
    rw [hg] at ha
    cases ha
    exact led_adjust hn (fun _ => rfl) fun node => by rw [hg]; rfl
  · next held offset hg =>
    rw [hg] at ha
    cases ha
    exact led_adjust hn (fun _ => rfl) fun node => by rw [hg]; rfl

theorem led_rename (pointer : Point) (answer : Option String) :
    Led address [] e (e.rename pointer answer).1 := by
  unfold rename
  split
  · exact .refl e
  · split
    · exact .refl e
    · exact ⟨rfl, .rename _ _⟩

theorem led_delete (h : e.Coherent) (ha : e.grip.held? = some address) {pointer : Point}
    {confirmed : Bool}
    (hp : confirmed = true → ∀ hit, e.diagram.hit? pointer = some hit → hit ∉ address.path) :
    Led address [] e (e.delete pointer confirmed).1 := by
  unfold delete
  split
  · exact .refl e
  · next hit node ht =>
    split
    · next hconfirmed =>
      have hmem := hp hconfirmed hit (target?_eq_some_iff.1 ht).1
      have hh : (e.diagram.remove hit).holds address = true := by
        rw [Diagram.holds, Diagram.lookup_remove, if_neg hmem]
        exact h.held address ha
      rw [dropLost_of_holds (e := { e with diagram := e.diagram.remove hit }) ha hh]
      exact ⟨rfl, .remove hmem⟩
    · exact .refl e

theorem led_step (h : e.Coherent) (ha : e.grip.held? = some address) {call : Call} {reply : Reply}
    (hc : Spares address e call) (hs : e.step call = .ok (e', reply)) :
    Led address call.moved?.toList e e' := by
  cases outcome_of_step hs with
  | generate | resize | release => cases hc
  | press pointer =>
    cases hc with
    | press _ hp =>
      rw [press_of_hit? hp]
      exact .refl e
  | move pointer => exact led_move h ha pointer
  | delete pointer confirmed =>
    cases hc with
    | delete _ _ hp => exact led_delete h ha hp
  | rename pointer answer => exact led_rename pointer answer
  | ignored delta modifier => exact .refl e
  | zoomed delta modifier zoom => exact ⟨rfl, .refl _⟩
  | redraw => exact ⟨rfl, .refl _⟩

/-- A run that spares the held node leads it along all its moves. -/
theorem led_run (h : e.Coherent) (ha : e.grip.held? = some address) {calls : List Call}
    (hc : Along (Spares address) e calls) (hr : e.run calls = .ok e') :
    Led address (Call.moves calls) e e' := by
  induction calls generalizing e with
  | nil =>
    cases hr
    exact .refl _
  | cons call calls ih =>
    obtain ⟨m, reply, hs, hr⟩ := run_cons hr
    have hled := led_step h ha hc.1 hs
    have ham : m.grip.held? = some address := by rw [hled.grip, ha]
    rw [Call.moves_cons]
    exact hled.trans (ih (h.step hs) ham (hc.2 m reply hs) hr)

theorem run_resting (hg : e.grip = .idle) {calls : List Call} (hc : Along Rests e calls) :
    e.run calls = .ok e := by
  induction calls with
  | nil => rfl
  | cons call calls ih =>
    obtain ⟨hcall, hcalls⟩ := hc
    have hs : e.step call = .ok (e, .silent) := by
      cases hcall with
      | move pointer => simp only [step, move, hg]
      | release =>
        simp only [step, release]
        rw [← hg]
      | press pointer hp => rw [step, press_of_hit? hp]
    rw [run, hs]
    exact ih (hcalls e .silent hs)

/-- The pointer holds a node, and a run of calls spares it. Then the grip is the same at the end,
and where the pointer was moved last decides on the circle of the node. No other circle changes. -/
def FollowsPointer (e : Editor σ) : Prop :=
  ∀ address calls pointer e', e.grip.held? = some address → Along (Spares address) e calls →
    (Call.moves calls).getLast? = some pointer → e.run calls = .ok e' →
    e'.grip = e.grip ∧
    (∀ offset, e.grip = .dragging address offset → ∃ c, e.diagram.circle? address = some c ∧
      e'.diagram.circle? address = some ⟨pointer - offset, c.radius⟩) ∧
    (∀ offset, e.grip = .resizing address offset → ∃ c, e.diagram.circle? address = some c ∧
      e'.diagram.circle? address = some ⟨c.center, pointer.distance c.center - offset⟩) ∧
    ∀ other ≠ address, ∀ c, e'.diagram.circle? other = some c → e.diagram.circle? other = some c

def RestsReleased (e : Editor σ) : Prop :=
  ∀ calls, Along Rests e.release calls → e.run (.release :: calls) = .ok { e with grip := .idle }

theorem Coherent.followsPointer (h : e.Coherent) : e.FollowsPointer := by
  intro address calls pointer e' ha hc hp hr
  obtain ⟨hgrip, hheld, hothers⟩ := led_run h ha hc hr
  obtain ⟨node, hn⟩ := h.node?_of_held ha
  have hcircle : e.diagram.circle? address = some node.circle := by
    rw [Diagram.circle?, hn]
    rfl
  rw [hcircle, Option.map_some, e.grip.leadAlong_of_getLast? hp] at hheld
  refine ⟨hgrip, fun offset hg => ⟨_, hcircle, ?_⟩, fun offset hg => ⟨_, hcircle, ?_⟩, hothers⟩
  · rw [hheld, hg]
    rfl
  · rw [hheld, hg]
    rfl

theorem restsReleased (e : Editor σ) : e.RestsReleased :=
  fun _ hc => run_resting rfl hc

/-- A held node follows the pointer and leaves no trace of its path, and a node that was let go
stays where it is: in every editor that is in order, and so after any calls to a new one. -/
theorem held_node_follows_pointer :
    (∀ e : Editor σ, e.Coherent → e.FollowsPointer ∧ e.RestsReleased) ∧
      ∀ (settings : Settings) (s : σ) (before : List Call) (e : Editor σ),
        (start settings s).run before = .ok e → e.FollowsPointer ∧ e.RestsReleased := by
  refine ⟨fun e h => ⟨h.followsPointer, e.restsReleased⟩, fun settings s before e hr => ?_⟩
  exact ⟨((coherent_start settings s).run hr).followsPointer, e.restsReleased⟩

/-- An attribute is dragged while its owner is renamed and another entity deleted. -/
theorem held_attribute_follows_pointer :
    let d : Diagram := ⟨[⟨⟨0, "a", ⟨100.0, 100.0⟩, 40.0⟩,
        [⟨⟨1, "id", ⟨200.0, 100.0⟩, 20.0⟩, "int", true, 0⟩], []⟩,
      ⟨⟨2, "b", ⟨400.0, 400.0⟩, 40.0⟩, [], []⟩], 3⟩
    let e : Editor Recording := ⟨Recording.blank 800.0 600.0, d, [],
      .dragging (.ofAttribute 0 1) ⟨3.0, 4.0⟩, 1.0, .standard⟩
    ∃ e', e.run [.move ⟨300.0, 300.0⟩, .rename ⟨100.0, 100.0⟩ (some "c"), .press ⟨700.0, 500.0⟩,
        .delete ⟨400.0, 400.0⟩ true, .move ⟨250.0, 120.0⟩] = .ok e' ∧
      e'.grip = .dragging (.ofAttribute 0 1) ⟨3.0, 4.0⟩ ∧
      e'.diagram.circle? (.ofAttribute 0 1) = some ⟨⟨247.0, 116.0⟩, 20.0⟩ ∧
      e.run [.release, .move ⟨0.0, 0.0⟩, .press ⟨700.0, 500.0⟩] = .ok { e with grip := .idle } := by
  intro d e
  have h : e.Coherent := by
    refine ⟨⟨by decide, by decide⟩, fun address ha => ?_⟩
    obtain rfl : .ofAttribute 0 1 = address := Option.some.inj ha
    decide
  obtain ⟨hfollows, hrests⟩ := held_node_follows_pointer.1 e h
  have hspared : Along (Spares (.ofAttribute 0 1)) e [.move ⟨300.0, 300.0⟩,
      .rename ⟨100.0, 100.0⟩ (some "c"), .press ⟨700.0, 500.0⟩, .delete ⟨400.0, 400.0⟩ true,
      .move ⟨250.0, 120.0⟩] := by
    refine along_cons (.move _) rfl (along_cons (.rename _ _) rfl (along_cons (.press _ ?_) rfl
      (along_cons (.delete _ _ fun _ hit hp => ?_) rfl (along_cons (.move _) rfl trivial))))
    · decide
    · obtain rfl : .ofEntity 2 = hit := Option.some.inj hp
      decide
  have hresting : Along Rests e.release [.move ⟨0.0, 0.0⟩, .press ⟨700.0, 500.0⟩] :=
    along_cons (.move _) rfl (along_cons (.press _ (by decide)) rfl trivial)
  obtain ⟨e', hr⟩ : ∃ e', e.run [.move ⟨300.0, 300.0⟩, .rename ⟨100.0, 100.0⟩ (some "c"),
      .press ⟨700.0, 500.0⟩, .delete ⟨400.0, 400.0⟩ true, .move ⟨250.0, 120.0⟩] = .ok e' := ⟨_, rfl⟩
  obtain ⟨hgrip, hdragged, -⟩ := hfollows _ _ _ e' rfl hspared rfl hr
  obtain ⟨c, hc, hc'⟩ := hdragged _ rfl
  obtain rfl : ⟨⟨200.0, 100.0⟩, 20.0⟩ = c := Option.some.inj hc
  refine ⟨e', hr, hgrip, ?_, hrests _ hresting⟩
  rw [hc']
  decide

end Editor

end SchemaSketch
