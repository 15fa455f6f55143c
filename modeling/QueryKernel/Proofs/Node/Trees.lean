import QueryKernel.Node.Builder

/-!
# Trees and their parents

Nodes that are handed to any number of builders, in any order.  The parent of a node is the first node that was made
with it among its attributes or children, so that parents are younger than what they are parents of, and the way up
ends at a node without a parent.

Everything rests on `Forest.Records`.  It relates the forest to all nodes in the order in which they were made:
the children of a node do not tell its place in the forest, but which of the nodes with it among their children
came first does.

## Definitions

* `Workbench` has the forest, all nodes and the builders in use, and `Construction` is a step that is taken there.
* `Forest.Leads` is the way up from a node.
* `Node.descendants` has the nodes below a node in document order.
-/

namespace QueryKernel

/-! ## Texts -/

namespace Node

/-- The attributes and children. -/
def listed (n : Node) : List Node := n.attributeNodes ++ n.children

mutual

/-- The nodes below a node, in document order. -/
def descendants : Node → List Node
  | .mk _ _ _ _ _ children _ => withDescendants children

/-- Some nodes, and behind each of them the nodes below it. -/
def withDescendants : List Node → List Node
  | [] => []
  | n :: rest => n :: (descendants n ++ withDescendants rest)

end

/-- The texts of the text nodes among some nodes, in order. -/
def joinedTexts (nodes : List Node) : String := String.join ((nodes.filter (·.kind = .text)).map stringValue)

theorem joinedTexts_append (a b : List Node) : joinedTexts (a ++ b) = joinedTexts a ++ joinedTexts b := by
  rw [joinedTexts, List.filter_append, List.map_append, String.join_append]
  rfl

theorem joinedTexts_cons (n : Node) (rest : List Node) :
    joinedTexts (n :: rest) = (if n.kind = .text then n.stringValue else "") ++ joinedTexts rest := by
  rw [joinedTexts, joinedTexts, List.filter_cons]
  by_cases text : n.kind = .text
  · simp [text]
  · simp [text]

/-- A node that was made: a node with a value and nothing below it, or a document or an element over such nodes. -/
inductive Made : Node → Prop where
  | leaf {identity : NodeIdentity} {kind : NodeKind} {name : Option QualifiedName} {value : String}
      (leaf : kind ≠ .element ∧ kind ≠ .document) : Made (.mk identity kind name (some value) [] [] none)
  | inner {identity : NodeIdentity} {kind : NodeKind} {name : Option QualifiedName}
      {attributeNodes children : List Node} (inner : kind = .element ∨ kind = .document)
      (below : ∀ n ∈ children, Made n) : Made (.mk identity kind name none attributeNodes children none)

theorem textBelowAll_eq {nodes : List Node} (each : ∀ n ∈ nodes, n.textBelow = joinedTexts (n :: n.descendants)) :
    textBelowAll nodes = joinedTexts (withDescendants nodes) := by
  induction nodes with
  | nil => rfl
  | cons n rest rest_ih =>
      rw [textBelowAll, withDescendants, each n List.mem_cons_self,
        rest_ih fun other member => each other (List.mem_cons_of_mem _ member), ← List.cons_append,
        joinedTexts_append]

theorem Made.textBelow_eq {n : Node} (made : n.Made) : n.textBelow = joinedTexts (n :: n.descendants) := by
  induction made with
  | leaf => rw [textBelow, joinedTexts_cons]; rfl
  | @inner identity kind name attributeNodes children inner _ below_ih =>
      have other : kind ≠ .text := by
        rintro rfl
        exact inner.elim nofun nofun
      rw [textBelow, joinedTexts_cons, if_neg other, textBelowAll_eq below_ih]
      exact congrArg (· ++ _) (if_neg other).symm

/-- The text of an element or a document is that of the text nodes below it. -/
theorem Made.stringValue_eq {n : Node} (made : n.Made) (inner : n.kind = .element ∨ n.kind = .document) :
    n.stringValue = joinedTexts n.descendants := by
  cases made with
  | leaf leaf => exact absurd inner (not_or.2 leaf)
  | inner _ below => exact textBelowAll_eq fun n member => (below n member).textBelow_eq

end Node

/-! ## Forests -/

namespace Forest

variable {f : Forest} {nodes : List Node}

theorem parentOfSerial?_adopt (f : Forest) (parent child : Node) (serial : Nat) :
    (adopt parent f child).parentOfSerial? serial =
      (f.parentOfSerial? serial).or (if child.identity == .built serial then some parent else none) := by
  unfold adopt
  cases child.identity with
  | stored source position => exact Option.or_none.symm
  | built s =>
      dsimp only
      by_cases same : s = serial
      · subst same
        -- A second parent is not recorded.
        cases found : f.parentOfSerial? s with
        | some first => simpa using found
        | none => simp [parentOfSerial?]
      · have other : (NodeIdentity.built s == NodeIdentity.built serial) = false := by simpa using same
        rw [other, if_neg Bool.false_ne_true, Option.or_none]
        split
        · rfl
        · have apart : (serial == s) = false := by simpa using Ne.symm same
          simp [parentOfSerial?, List.lookup_cons, apart]

theorem parentOfSerial?_foldl (f : Forest) (parent : Node) (listed : List Node) (serial : Nat) :
    (listed.foldl (adopt parent) f).parentOfSerial? serial =
      (f.parentOfSerial? serial).or (if listed.any (·.identity == .built serial) then some parent else none) := by
  induction listed generalizing f with
  | nil => simp
  | cons child rest rest_ih =>
      rw [List.foldl_cons, rest_ih, parentOfSerial?_adopt, Option.or_assoc, List.any_cons]
      cases child.identity == .built serial <;> simp

theorem built_foldl (f : Forest) (parent : Node) (listed : List Node) :
    (listed.foldl (adopt parent) f).built = f.built := by
  induction listed generalizing f with
  | nil => rfl
  | cons child rest rest_ih =>
      rw [List.foldl_cons, rest_ih, adopt]
      split
      · rfl
      · split <;> rfl

/-- The forest after some nodes have been made in order: they are numbered, each one is over older ones, and the
parent of a node is the first one over it. -/
structure Records (f : Forest) (nodes : List Node) : Prop where
  built : f.built = nodes.length
  identity : ∀ {i : Nat} {n : Node}, nodes[i]? = some n → n.identity = .built i
  older : ∀ {i : Nat} {n m : Node}, nodes[i]? = some n → m ∈ n.listed → ∃ j, j < i ∧ nodes[j]? = some m
  parents : ∀ serial, f.parentOfSerial? serial = nodes.find? fun m => m.listed.any (·.identity == .built serial)

theorem records_empty : Records .empty [] where
  built := rfl
  identity := fun found => absurd found (by simp)
  older := fun found => absurd found (by simp)
  parents := fun _ => rfl

variable {kind : NodeKind} {name : Option QualifiedName} {value : Option String} {attributeNodes children : List Node}

theorem getElem?_concat_eq_some {A : Type} {l : List A} {a b : A} {i : Nat} (found : (l ++ [a])[i]? = some b) :
    l[i]? = some b ∨ i = l.length ∧ b = a := by
  rw [List.getElem?_append] at found
  split at found
  · exact .inl found
  · obtain ⟨less, same⟩ := List.getElem?_eq_some_iff.1 found
    rw [List.length_singleton] at less
    refine .inr ⟨by omega, ?_⟩
    rw [← same, List.getElem_singleton]

theorem getElem?_append_of_some {A : Type} {l : List A} {b : A} {i : Nat} (found : l[i]? = some b) (more : List A) :
    (l ++ more)[i]? = some b := by
  obtain ⟨less, -⟩ := List.getElem?_eq_some_iff.1 found
  rw [List.getElem?_append_left less, found]

/-- One more node, over nodes that have been made. -/
theorem Records.build (records : f.Records nodes) (known : ∀ n ∈ attributeNodes ++ children, n ∈ nodes) :
    (f.build kind name value attributeNodes children).2.Records
      (nodes ++ [(f.build kind name value attributeNodes children).1]) := by
  refine ⟨?_, fun found => ?_, fun found member => ?_, fun serial => ?_⟩
  · rw [List.length_append, ← records.built]
    exact built_foldl _ _ _
  · rcases getElem?_concat_eq_some found with old | ⟨rfl, rfl⟩
    · exact records.identity old
    · exact congrArg NodeIdentity.built records.built
  · rcases getElem?_concat_eq_some found with old | ⟨rfl, rfl⟩
    · obtain ⟨j, less, there⟩ := records.older old member
      exact ⟨j, less, getElem?_append_of_some there _⟩
    · obtain ⟨j, there⟩ := List.mem_iff_getElem?.1 (known _ member)
      obtain ⟨less, -⟩ := List.getElem?_eq_some_iff.1 there
      exact ⟨j, less, getElem?_append_of_some there _⟩
  -- All others come before the new node, which is the parent only of what none of them is over.
  · rw [List.find?_append, ← records.parents]
    refine (parentOfSerial?_foldl _ _ _ serial).trans (congrArg _ ?_)
    rw [List.find?_singleton]
    rfl

/-! ## The way up -/

variable {n p top : Node} {i : Nat}

theorem Records.parent?_eq (records : f.Records nodes) (found : nodes[i]? = some n) :
    f.parent? n = f.parentOfSerial? i := by
  rw [parent?, records.identity found]

theorem Records.parent?_find (records : f.Records nodes) (member : n ∈ nodes) :
    f.parent? n = nodes.find? fun m => m.listed.any (· == n) := by
  obtain ⟨i, found⟩ := List.mem_iff_getElem?.1 member
  rw [records.parent?_eq found, records.parents, ← records.identity found]
  rfl

/-- A parent is younger than what it is the parent of. -/
theorem Records.parent_younger (records : f.Records nodes) (found : nodes[i]? = some n) (above : f.parent? n = some p) :
    ∃ j, i < j ∧ nodes[j]? = some p := by
  rw [records.parent?_eq found, records.parents] at above
  obtain ⟨j, there⟩ := List.mem_iff_getElem?.1 (List.mem_of_find?_eq_some above)
  have lists := List.find?_some (p := fun m : Node => m.listed.any (·.identity == .built i)) above
  -- Whatever is over the node with this number is younger than the node.
  obtain ⟨m, member, same⟩ := List.any_eq_true.1 lists
  obtain ⟨k, less, place⟩ := records.older there member
  have numbers := (records.identity place).symm.trans (eq_of_beq same)
  cases numbers
  exact ⟨j, less, there⟩

/-- From one node to the other by parents. -/
inductive Leads (f : Forest) : Node → Node → Prop where
  | here {n : Node} : Leads f n n
  | up {n p top : Node} (parent : f.parent? n = some p) (rest : Leads f p top) : Leads f n top

/-- There are not more steps to the root than younger nodes. -/
theorem Records.rootWithin_top (records : f.Records nodes) {steps : Nat} (found : nodes[i]? = some n)
    (enough : nodes.length ≤ i + 1 + steps) :
    f.Leads n (f.rootWithin steps n) ∧ f.parent? (f.rootWithin steps n) = none := by
  -- Induction on the steps that are left: a parent is younger, so that one step is enough for it.
  induction steps generalizing i n with
  | zero =>
      refine ⟨.here, ?_⟩
      cases above : f.parent? n with
      | none => exact above
      | some p =>
          obtain ⟨j, younger, there⟩ := records.parent_younger found above
          obtain ⟨less, -⟩ := List.getElem?_eq_some_iff.1 there
          omega
  | succ steps steps_ih =>
      rw [rootWithin]
      cases above : f.parent? n with
      | none => exact ⟨.here, above⟩
      | some p =>
          obtain ⟨j, younger, there⟩ := records.parent_younger found above
          obtain ⟨leads, last⟩ := steps_ih there (by omega)
          exact ⟨.up above leads, last⟩

theorem Records.root_top (records : f.Records nodes) (member : n ∈ nodes) :
    f.Leads n (f.root n) ∧ f.parent? (f.root n) = none := by
  obtain ⟨i, found⟩ := List.mem_iff_getElem?.1 member
  exact records.rootWithin_top found (by rw [records.built]; omega)

/-- No two nodes are the same. -/
theorem Records.distinct (records : f.Records nodes) : nodes.Pairwise fun m n => (m == n) = false := by
  rw [List.pairwise_iff_getElem]
  intro i j early late less
  have first := records.identity (List.getElem?_eq_getElem early)
  have second := records.identity (List.getElem?_eq_getElem late)
  show (nodes[i].identity == nodes[j].identity) = false
  rw [first, second, beq_eq_false_iff_ne]
  rintro ⟨⟩
  exact Nat.lt_irrefl _ less

end Forest

/-! ## Constructions -/

namespace NodeBuilder

/-- The attributes and children handed to a builder so far. -/
def listed (b : NodeBuilder) : List Node := b.attributeNodes ++ b.children

theorem listed_withAttribute (b : NodeBuilder) (n m : Node) (member : m ∈ (b.withAttribute n).listed) :
    m ∈ b.listed ∨ m = n := by
  simp only [listed, withAttribute, List.mem_append, List.mem_singleton] at member ⊢
  rcases member with (old | new) | old
  · exact .inl (.inl old)
  · exact .inr new
  · exact .inl (.inr old)

theorem listed_withChild (b : NodeBuilder) (n m : Node) (member : m ∈ (b.withChild n).listed) :
    m ∈ b.listed ∨ m = n := by
  simp only [listed, withChild, List.mem_append, List.mem_singleton] at member ⊢
  rcases member with old | old | new
  · exact .inl (.inl old)
  · exact .inl (.inr old)
  · exact .inr new

theorem kind_inner (b : NodeBuilder) : b.kind = .element ∨ b.kind = .document := by
  unfold kind
  cases b.name with
  | none => exact .inr rfl
  | some _ => exact .inl rfl

end NodeBuilder

/-- A place where trees are built. -/
structure Workbench where
  forest : Forest
  /-- All nodes, in the order in which they were made. -/
  nodes : List Node
  /-- All builders.  Nothing is left of one that has made its node. -/
  builders : List (Option NodeBuilder)

/-- A step.  Nodes and builders have numbers, in the order of their construction. -/
inductive Construction where
  | makeAttribute (name value : String)
  | makeText (value : String)
  | makeComment (value : String)
  | beginDocument
  | beginElement (name : String)
  /-- Hands a node to a builder as attribute.  It makes no difference which kind of node it is. -/
  | addAttribute (builder node : Nat)
  | addChild (builder node : Nat)
  /-- Hands a builder to a builder, which takes the node that it makes as child. -/
  | addChildOf (builder inner : Nat)
  | finish (builder : Nat)

namespace Workbench

/-- Nothing has been made yet. -/
def empty : Workbench := ⟨.empty, [], []⟩

/-- The workbench with one more node. -/
def make (w : Workbench) (build : Forest → Node × Forest) : Workbench :=
  let (node, forest) := build w.forest
  { w with forest, nodes := w.nodes ++ [node] }

/-- A builder that has not made its node yet. -/
def builder? (w : Workbench) (i : Nat) : Option NodeBuilder := w.builders[i]?.join

/-- The workbench with another builder in some place. -/
def replace (w : Workbench) (i : Nat) (b : Option NodeBuilder) : Workbench :=
  { w with builders := w.builders.set i b }

/-- Starts with a builder. -/
def begin (w : Workbench) (b : NodeBuilder) : Workbench := { w with builders := w.builders ++ [some b] }

/-- Hands a node to a builder. -/
def add (w : Workbench) (hand : NodeBuilder → Node → NodeBuilder) (i n : Nat) : Option Workbench :=
  match w.builder? i, w.nodes[n]? with
  | some b, some node => some (w.replace i (some (hand b node)))
  | _, _ => none

/-- Makes the node of a builder. -/
def finish (w : Workbench) (i : Nat) : Option Workbench :=
  (w.builder? i).map fun b => (w.replace i none).make b.build

/-- The workbench after a step, if there are such nodes and builders. -/
def step (w : Workbench) : Construction → Option Workbench
  | .makeAttribute name value => some (w.make (·.buildAttribute name value))
  | .makeText value => some (w.make (·.buildText value))
  | .makeComment value => some (w.make (·.buildComment value))
  | .beginDocument => some (w.begin .document)
  | .beginElement name => some (w.begin (.element name))
  | .addAttribute i n => w.add .withAttribute i n
  | .addChild i n => w.add .withChild i n
  | .addChildOf i inner => (w.finish inner).bind fun w => w.add .withChild i (w.nodes.length - 1)
  | .finish i => w.finish i

/-- The workbench after some steps. -/
def run (w : Workbench) : List Construction → Option Workbench
  | [] => some w
  | first :: rest => (w.step first).bind fun w => w.run rest

/-- The forest records the nodes, all of them were made, and builders hold only such nodes. -/
structure Sound (w : Workbench) : Prop where
  records : w.forest.Records w.nodes
  made : ∀ n ∈ w.nodes, n.Made
  held : ∀ b, some b ∈ w.builders → ∀ n ∈ b.listed, n ∈ w.nodes

theorem sound_empty : empty.Sound := ⟨Forest.records_empty, List.forall_mem_nil _, fun _ member => by cases member⟩

variable {w w' : Workbench} {i : Nat} {b : NodeBuilder}

theorem Sound.build (sound : w.Sound) {kind : NodeKind} {name : Option QualifiedName} {value : Option String}
    {attributeNodes children : List Node} (known : ∀ n ∈ attributeNodes ++ children, n ∈ w.nodes)
    (made : (w.forest.build kind name value attributeNodes children).1.Made) :
    (w.make (·.build kind name value attributeNodes children)).Sound := by
  refine ⟨sound.records.build known, fun n member => ?_, fun b member n listed => ?_⟩
  · rcases List.mem_append.1 member with old | last
    · exact sound.made n old
    · rw [List.mem_singleton.1 last]
      exact made
  · exact List.mem_append_left _ (sound.held b member n listed)

theorem Sound.builder (sound : w.Sound) (found : w.builder? i = some b) : ∀ n ∈ b.listed, n ∈ w.nodes :=
  sound.held b (List.mem_of_getElem? (Option.join_eq_some_iff.1 found))

theorem Sound.replace (sound : w.Sound) {other : Option NodeBuilder}
    (known : ∀ b, other = some b → ∀ n ∈ b.listed, n ∈ w.nodes) : (w.replace i other).Sound := by
  refine ⟨sound.records, sound.made, fun b member => ?_⟩
  rcases List.mem_or_eq_of_mem_set member with old | rfl
  · exact sound.held b old
  · exact known b rfl

theorem Sound.begin (sound : w.Sound) (nothing : b.listed = []) : (w.begin b).Sound := by
  refine ⟨sound.records, sound.made, fun other member n listed => ?_⟩
  rcases List.mem_append.1 member with old | last
  · exact sound.held other old n listed
  · cases List.mem_singleton.1 last
    rw [nothing] at listed
    cases listed

theorem Sound.add (sound : w.Sound) {hand : NodeBuilder → Node → NodeBuilder}
    (adds : ∀ b n m, m ∈ (hand b n).listed → m ∈ b.listed ∨ m = n) {n : Nat} (added : w.add hand i n = some w') :
    w'.Sound := by
  unfold Workbench.add at added
  split at added
  · next b node found there =>
    cases added
    refine sound.replace fun b' same m member => ?_
    cases same
    rcases adds b node m member with old | rfl
    · exact sound.builder found m old
    · exact List.mem_of_getElem? there
  · cases added

theorem Sound.finish (sound : w.Sound) (finished : w.finish i = some w') : w'.Sound := by
  obtain ⟨b, found, rfl⟩ := Option.map_eq_some_iff.1 finished
  -- The builder is taken away first, but what it holds has been made.
  have emptied : (w.replace i none).Sound := sound.replace nofun
  exact emptied.build (sound.builder found)
    (.inner b.kind_inner fun n child => sound.made n (sound.builder found n (List.mem_append_right _ child)))

/-- A step builds sound trees over sound trees. -/
theorem Sound.step (sound : w.Sound) {construction : Construction} (next : w.step construction = some w') :
    w'.Sound := by
  cases construction with
  | makeAttribute name value =>
      cases next
      exact sound.build nofun (.leaf ⟨nofun, nofun⟩)
  | makeText value =>
      cases next
      exact sound.build nofun (.leaf ⟨nofun, nofun⟩)
  | makeComment value =>
      cases next
      exact sound.build nofun (.leaf ⟨nofun, nofun⟩)
  | beginDocument =>
      cases next
      exact sound.begin rfl
  | beginElement name =>
      cases next
      exact sound.begin rfl
  | addAttribute i n => exact sound.add NodeBuilder.listed_withAttribute next
  | addChild i n => exact sound.add NodeBuilder.listed_withChild next
  | addChildOf i inner =>
      obtain ⟨between, finished, added⟩ := Option.bind_eq_some_iff.1 next
      exact (sound.finish finished).add NodeBuilder.listed_withChild added
  | finish i => exact sound.finish next

theorem Sound.run (sound : w.Sound) {steps : List Construction} (ran : w.run steps = some w') : w'.Sound := by
  induction steps generalizing w with
  | nil =>
      cases ran
      exact sound
  | cons first rest rest_ih =>
      obtain ⟨between, next, ran⟩ := Option.bind_eq_some_iff.1 ran
      exact rest_ih (sound.step next) ran

/-- Whatever has been built in whatever order: all nodes are different, the parent of a node is the first node that was
made with it among its attributes or children, parents come after what they are parents of, the root is above the node
and has no parent, and the text of an element or a document is that of the text nodes below it, in order. -/
theorem run_parents {steps : List Construction} (ran : empty.run steps = some w) :
    (w.nodes.Pairwise fun m n => (m == n) = false) ∧
    (∀ n ∈ w.nodes, w.forest.parent? n = w.nodes.find? fun m => m.listed.any (· == n)) ∧
    (∀ (i : Nat) n p, w.nodes[i]? = some n → w.forest.parent? n = some p → ∃ j, i < j ∧ w.nodes[j]? = some p) ∧
    (∀ n ∈ w.nodes, w.forest.Leads n (w.forest.root n) ∧ w.forest.parent? (w.forest.root n) = none) ∧
    ∀ n ∈ w.nodes, n.kind = .element ∨ n.kind = .document →
      n.stringValue = String.join ((n.descendants.filter (·.kind = .text)).map Node.stringValue) := by
  have sound := sound_empty.run ran
  exact ⟨sound.records.distinct, fun n member => sound.records.parent?_find member,
    fun i n p found above => sound.records.parent_younger found above,
    fun n member => sound.records.root_top member, fun n member => (sound.made n member).stringValue_eq⟩

/-- An element in a document over a text that is in another element, too. -/
def sharing : List Construction :=
  [.makeText "one", .makeComment "aside", .makeAttribute "id" "k", .beginElement "a", .beginElement "b", .addChild 1 0,
    .addAttribute 0 2, .addChild 0 0, .addChild 0 1, .addChildOf 1 0, .makeText "two", .addChild 1 4, .beginDocument,
    .addChildOf 2 1, .finish 2]

theorem sharing_parents : ∃ w, empty.run sharing = some w ∧
    w.nodes.map Node.stringValue = ["one", "aside", "k", "one", "two", "oneonetwo", "oneonetwo"] ∧
    w.nodes.map (fun n => (w.forest.parent? n).map Node.identity) =
      [some (.built 3), some (.built 3), some (.built 3), some (.built 5), some (.built 5), some (.built 6), none] ∧
    ∀ n ∈ w.nodes, w.forest.Leads n (w.forest.root n) ∧ w.forest.parent? (w.forest.root n) = none :=
  ⟨_, rfl, by decide +kernel, by decide +kernel, (@run_parents _ sharing rfl).2.2.2.1⟩

end Workbench

end QueryKernel
