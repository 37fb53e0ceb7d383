import Mathlib.Data.List.Basic
import Mathlib.Order.Basic

/-!
# Tables of nodes that spell a prefix code

A binary tree kept as a table of nodes, each holding its branch for a 0 and for
a 1; node 0 is the root. Inserting a word walks the table bit by bit, appending
a node where there is none yet, and puts a leaf at the end. Inserting words of
which none begins another leaves every one of them at its own leaf.
-/

namespace XmipNet
namespace PrefixTrie

variable {α : Type}

/-- What follows a node for one bit. -/
inductive Branch (α : Type)
  | none
  | node (next : Nat)
  | leaf (symbol : α)
  deriving DecidableEq

/-- The table: each node's branch for a 0 and for a 1. -/
abbrev Nodes (α : Type) := List (Branch α × Branch α)

/-- The branch of `node` for `bit`; a node past the table has none. -/
def branch (nodes : Nodes α) (node : Nat) (bit : Bool) : Branch α :=
  match nodes[node]? with
  | some pair => if bit then pair.2 else pair.1
  | none => .none

/-- The table with the branch of `node` for `bit` replaced. -/
def setBranch
    (nodes : Nodes α)
    (node : Nat)
    (bit : Bool)
    (target : Branch α) : Nodes α :=
  nodes.modify node fun pair =>
    if bit then (pair.1, target) else (target, pair.2)

/-- The table with a node appended that branches nowhere. -/
def push (nodes : Nodes α) : Nodes α :=
  nodes ++ [(.none, .none)]

/-- Insert the word `bits` for `symbol` below `node`. -/
def insert (symbol : α) : List Bool → Nodes α → Nat → Nodes α
  | [], nodes, _ => nodes
  | [bit], nodes, node => setBranch nodes node bit (.leaf symbol)
  | bit :: rest, nodes, node =>
      match branch nodes node bit with
      | .node next => insert symbol rest nodes next
      | _ => insert symbol rest
          (setBranch (push nodes) node bit (.node nodes.length)) nodes.length

/-- The table of one root that branches nowhere. -/
def empty : Nodes α :=
  push []

/-- The table of every word of `words`, inserted in order. -/
def build (words : List (List Bool × α)) : Nodes α :=
  words.foldl (fun nodes word => insert word.2 word.1 nodes 0) empty

/-! ## Branches after a change -/

@[simp] theorem length_setBranch
    (nodes : Nodes α)
    (node : Nat)
    (bit : Bool)
    (target : Branch α) :
    (setBranch nodes node bit target).length = nodes.length := by
  simp [setBranch]

@[simp] theorem length_push (nodes : Nodes α) :
    (push nodes).length = nodes.length + 1 := by
  simp [push]

theorem branch_setBranch_self
    {nodes : Nodes α}
    {node : Nat}
    (present : node < nodes.length)
    (bit : Bool)
    (target : Branch α) :
    branch (setBranch nodes node bit target) node bit = target := by
  simp only [branch, setBranch, List.getElem?_modify_eq,
    List.getElem?_eq_getElem present, Option.map_eq_map, Option.map_some]
  cases bit <;> rfl

theorem branch_setBranch_of_ne
    (nodes : Nodes α)
    {node other : Nat}
    {bit otherBit : Bool}
    (different : ¬(other = node ∧ otherBit = bit))
    (target : Branch α) :
    branch (setBranch nodes node bit target) other otherBit =
      branch nodes other otherBit := by
  by_cases sameNode : other = node
  · subst other
    have otherSide : otherBit ≠ bit := fun equal => different ⟨rfl, equal⟩
    simp only [branch, setBranch, List.getElem?_modify_eq]
    cases nodes[node]? with
    | none => rfl
    | some pair => cases bit <;> cases otherBit <;> simp_all
  · have apart : node ≠ other := fun equal => sameNode equal.symm
    simp only [branch, setBranch, List.getElem?_modify, apart, if_false,
      Option.map_eq_map, Option.map_id_fun', id]

@[simp] theorem branch_push
    (nodes : Nodes α)
    (node : Nat)
    (bit : Bool) :
    branch (push nodes) node bit = branch nodes node bit := by
  rcases Nat.lt_trichotomy node nodes.length with before | last | after
  · simp [branch, push, List.getElem?_append_left before]
  · subst last
    cases bit <;> simp [branch, push]
  · have past : nodes.length + 1 ≤ node := after
    rw [branch, branch, List.getElem?_eq_none (by simpa using past),
      List.getElem?_eq_none (Nat.le_of_lt after)]

/-! ## Paths from the root -/

/-- A path of bits from the root to a node. -/
inductive Reaches (nodes : Nodes α) : List Bool → Nat → Prop
  | root : Reaches nodes [] 0
  | step {path : List Bool} {node next : Nat} {bit : Bool}
      (before : Reaches nodes path node)
      (follows : branch nodes node bit = .node next) :
      Reaches nodes (path ++ [bit]) next

/-- A path of bits from the root to a leaf of `symbol`. -/
def HasLeaf (nodes : Nodes α) (path : List Bool) (symbol : α) : Prop :=
  ∃ start node bit, path = start ++ [bit] ∧ Reaches nodes start node ∧
    branch nodes node bit = .leaf symbol

/-- The table is a tree: a branch leads to a later node of the table, and no
two branches lead to one node. -/
structure Shape (nodes : Nodes α) : Prop where
  nonempty : 0 < nodes.length
  forward : ∀ {node bit next}, branch nodes node bit = .node next →
    node < next ∧ next < nodes.length
  injective : ∀ {node bit other otherBit next},
    branch nodes node bit = .node next →
      branch nodes other otherBit = .node next →
        node = other ∧ bit = otherBit

/-- In a tree one path leads to a node. -/
theorem Reaches.path_unique
    {nodes : Nodes α}
    (shape : Shape nodes)
    {path other : List Bool}
    {node : Nat}
    (reaches : Reaches nodes path node)
    (otherReaches : Reaches nodes other node) :
    path = other := by
  induction reaches generalizing other with
  | root =>
      cases otherReaches with
      | root => rfl
      | step before follows =>
          exact absurd (shape.forward follows).1 (Nat.not_lt_zero _)
  | step before follows inductionHypothesis =>
      cases otherReaches with
      | root => exact absurd (shape.forward follows).1 (Nat.not_lt_zero _)
      | step otherBefore otherFollows =>
          obtain ⟨rfl, rfl⟩ := shape.injective follows otherFollows
          rw [inductionHypothesis otherBefore]

theorem Reaches.present
    {nodes : Nodes α}
    (shape : Shape nodes)
    {path : List Bool}
    {node : Nat}
    (reaches : Reaches nodes path node) :
    node < nodes.length := by
  cases reaches with
  | root => exact shape.nonempty
  | step before follows => exact (shape.forward follows).2

/-- One path leads to one node. -/
theorem Reaches.node_unique
    {nodes : Nodes α}
    {path other : List Bool}
    {node reached : Nat}
    (reaches : Reaches nodes path node)
    (otherReaches : Reaches nodes other reached)
    (same : path = other) :
    node = reached := by
  induction reaches generalizing other reached with
  | root =>
      cases otherReaches with
      | root => rfl
      | step before follows => simp at same
  | step before follows inductionHypothesis =>
      cases otherReaches with
      | root => simp at same
      | step otherBefore otherFollows =>
          obtain ⟨starts, bits⟩ := List.append_inj' same rfl
          injection bits with bits
          rw [inductionHypothesis otherBefore starts, bits,
            otherFollows] at follows
          injection follows with next
          exact next.symm

/-- What a path passes through is reached by its beginning. -/
theorem Reaches.of_append
    {nodes : Nodes α}
    {path : List Bool}
    {node : Nat}
    (reaches : Reaches nodes path node)
    {start rest : List Bool}
    (split : path = start ++ rest) :
    ∃ passed, Reaches nodes start passed := by
  induction reaches generalizing start rest with
  | root =>
      obtain ⟨rfl, rfl⟩ := List.nil_eq_append_iff.mp split
      exact ⟨0, .root⟩
  | @step path node next bit before follows inductionHypothesis =>
      rcases List.eq_nil_or_concat rest with rfl | ⟨rest, last, rfl⟩
      · rw [List.append_nil] at split
        exact ⟨next, split ▸ before.step follows⟩
      · rw [List.concat_eq_append, ← List.append_assoc] at split
        exact inductionHypothesis (List.append_inj' split rfl).1

/-- A leaf found past a branch that leads to no node is at that branch. -/
theorem HasLeaf.prefix_of_no_node
    {nodes : Nodes α}
    {path word : List Bool}
    {symbol : α}
    {node : Nat}
    {bit : Bool}
    (leaf : HasLeaf nodes path symbol)
    (wordReaches : Reaches nodes word node)
    (noNode : ∀ next, branch nodes node bit ≠ .node next)
    (begins : word ++ [bit] <+: path) :
    path = word ++ [bit] := by
  obtain ⟨start, last, lastBit, rfl, reaches, _⟩ := leaf
  rcases List.prefix_concat_iff.mp begins with whole | within
  · exact whole.symm
  · obtain ⟨rest, split⟩ := within
    obtain ⟨passed, passes⟩ := reaches.of_append split.symm
    generalize passedPath : word ++ [bit] = throughBit at passes
    cases passes with
    | root => simp at passedPath
    | step before follows =>
        obtain ⟨starts, bits⟩ := List.append_inj' passedPath rfl
        injection bits with bits
        rw [before.node_unique wordReaches starts.symm, ← bits] at follows
        exact absurd follows (noNode _)

/-- Changing one branch keeps every path that does not take it. -/
theorem Reaches.after_setBranch
    {nodes : Nodes α}
    (shape : Shape nodes)
    {word path : List Bool}
    {node reached : Nat}
    {bit : Bool}
    (reaches : Reaches nodes path reached)
    (wordReaches : Reaches nodes word node)
    (target : Branch α)
    (apart : ¬word ++ [bit] <+: path) :
    Reaches (setBranch nodes node bit target) path reached := by
  induction reaches with
  | root => exact .root
  | @step path other next otherBit before follows inductionHypothesis =>
      have shorterApart : ¬word ++ [bit] <+: path := fun begins =>
        apart (begins.trans (List.prefix_append _ _))
      refine .step (inductionHypothesis shorterApart) ?_
      rw [branch_setBranch_of_ne nodes _ target]
      · exact follows
      · rintro ⟨rfl, rfl⟩
        rw [before.path_unique shape wordReaches] at apart
        exact apart (List.prefix_refl _)

/-- Appending an unreached node keeps every path. -/
theorem Reaches.after_push
    {nodes : Nodes α}
    {path : List Bool}
    {node : Nat}
    (reaches : Reaches nodes path node) :
    Reaches (push nodes) path node := by
  induction reaches with
  | root => exact .root
  | step before follows inductionHypothesis =>
      exact .step inductionHypothesis (by rwa [branch_push])

/-- A new leaf keeps the leaves of every word that does not begin with its
path. -/
theorem HasLeaf.after_setBranch
    {nodes : Nodes α}
    (shape : Shape nodes)
    {word path : List Bool}
    {node : Nat}
    {bit : Bool}
    {symbol : α}
    (leaf : HasLeaf nodes path symbol)
    (wordReaches : Reaches nodes word node)
    (target : Branch α)
    (apart : ¬word ++ [bit] <+: path) :
    HasLeaf (setBranch nodes node bit target) path symbol := by
  obtain ⟨start, other, otherBit, rfl, reaches, follows⟩ := leaf
  refine ⟨start, other, otherBit, rfl, ?_, ?_⟩
  · exact reaches.after_setBranch shape wordReaches target fun begins =>
      apart (begins.trans (List.prefix_append _ _))
  · rw [branch_setBranch_of_ne nodes _ target]
    · exact follows
    · rintro ⟨rfl, rfl⟩
      rw [reaches.path_unique shape wordReaches] at apart
      exact apart (List.prefix_refl _)

theorem HasLeaf.after_push
    {nodes : Nodes α}
    {path : List Bool}
    {symbol : α}
    (leaf : HasLeaf nodes path symbol) :
    HasLeaf (push nodes) path symbol := by
  obtain ⟨start, node, bit, spelled, reaches, follows⟩ := leaf
  exact ⟨start, node, bit, spelled, reaches.after_push, by rwa [branch_push]⟩

/-! ## Trees stay trees -/

theorem shape_empty : Shape (empty : Nodes α) := by
  have nowhere (node : Nat) (bit : Bool) :
      branch (empty : Nodes α) node bit = .none := by
    rw [empty, branch_push]
    rfl
  refine ⟨by simp [empty], ?_, ?_⟩
  · intro node bit next follows
    rw [nowhere] at follows
    cases follows
  · intro node bit other otherBit next follows
    rw [nowhere] at follows
    cases follows

theorem Shape.after_push
    {nodes : Nodes α}
    (shape : Shape nodes) :
    Shape (push nodes) := by
  refine ⟨by simp, ?_, ?_⟩
  · intro node bit next follows
    rw [branch_push] at follows
    have forward := shape.forward follows
    exact ⟨forward.1, by simp; omega⟩
  · intro node bit other otherBit next follows otherFollows
    rw [branch_push] at follows otherFollows
    exact shape.injective follows otherFollows

/-- A leaf written at a branch hides what was there, and adds no node. -/
theorem node_of_after_leaf
    {nodes : Nodes α}
    {node other next : Nat}
    {bit otherBit : Bool}
    {symbol : α}
    (follows : branch (setBranch nodes node bit (.leaf symbol))
      other otherBit = .node next) :
    branch nodes other otherBit = .node next := by
  by_cases same : other = node ∧ otherBit = bit
  · obtain ⟨rfl, rfl⟩ := same
    by_cases present : other < nodes.length
    · rw [branch_setBranch_self present] at follows
      cases follows
    · rw [branch, List.getElem?_eq_none (by simpa using present)] at follows
      cases follows
  · rwa [branch_setBranch_of_ne nodes same] at follows

theorem Shape.after_leaf
    {nodes : Nodes α}
    (shape : Shape nodes)
    (node : Nat)
    (bit : Bool)
    (symbol : α) :
    Shape (setBranch nodes node bit (.leaf symbol)) := by
  refine ⟨by simpa using shape.nonempty, ?_, ?_⟩
  · intro other otherBit next follows
    simpa using shape.forward (node_of_after_leaf follows)
  · intro first firstBit second secondBit next follows otherFollows
    exact shape.injective (node_of_after_leaf follows)
      (node_of_after_leaf otherFollows)

/-- The table with a last, unreached node hung below an earlier one. -/
def hang (nodes : Nodes α) (node : Nat) (bit : Bool) : Nodes α :=
  setBranch (push nodes) node bit (.node nodes.length)

/-- What a branch is once a node is hung. -/
theorem branch_hang
    {nodes : Nodes α}
    {node : Nat}
    (present : node < nodes.length)
    (bit : Bool)
    (other : Nat)
    (otherBit : Bool) :
    (other = node ∧ otherBit = bit ∧
        branch (hang nodes node bit) other otherBit = .node nodes.length) ∨
      (¬(other = node ∧ otherBit = bit) ∧
        branch (hang nodes node bit) other otherBit =
          branch nodes other otherBit) := by
  by_cases same : other = node ∧ otherBit = bit
  · obtain ⟨rfl, rfl⟩ := same
    exact Or.inl ⟨rfl, rfl, branch_setBranch_self (by simp; omega) _ _⟩
  · refine Or.inr ⟨same, ?_⟩
    rw [hang, branch_setBranch_of_ne _ same, branch_push]

/-- A node of a table with one hung is the hung one or was there before. -/
theorem node_of_hang
    {nodes : Nodes α}
    {node other next : Nat}
    {bit otherBit : Bool}
    (present : node < nodes.length)
    (follows : branch (hang nodes node bit) other otherBit = .node next) :
    other = node ∧ otherBit = bit ∧ next = nodes.length ∨
      branch nodes other otherBit = .node next := by
  rcases branch_hang present bit other otherBit with
    ⟨rfl, rfl, hung⟩ | ⟨_, kept⟩
  · rw [hung] at follows
    injection follows with last
    exact Or.inl ⟨rfl, rfl, last.symm⟩
  · rw [kept] at follows
    exact Or.inr follows

/-- Hanging the last, unreached node below an earlier one. -/
theorem Shape.after_hang
    {nodes : Nodes α}
    (shape : Shape nodes)
    {node : Nat}
    (present : node < nodes.length)
    (bit : Bool) :
    Shape (hang nodes node bit) := by
  refine ⟨by simp [hang], ?_, ?_⟩
  · intro other otherBit next follows
    rcases node_of_hang present follows with ⟨rfl, rfl, rfl⟩ | old
    · exact ⟨present, by simp [hang]⟩
    · have forward := shape.forward old
      exact ⟨forward.1, by simp [hang]; omega⟩
  · intro first firstBit second secondBit next follows otherFollows
    rcases node_of_hang present follows with ⟨rfl, rfl, rfl⟩ | old
    · rcases node_of_hang present otherFollows with ⟨rfl, rfl, _⟩ | otherOld
      · exact ⟨rfl, rfl⟩
      · exact absurd (shape.forward otherOld).2 (Nat.lt_irrefl _)
    · rcases node_of_hang present otherFollows with ⟨rfl, rfl, rfl⟩ | otherOld
      · exact absurd (shape.forward old).2 (Nat.lt_irrefl _)
      · exact shape.injective old otherOld

/-! ## Inserting words -/

theorem not_append_singleton_isPrefix
    (word : List Bool)
    (bit : Bool) :
    ¬word ++ [bit] <+: word := by
  intro begins
  have lengths := begins.length_le
  rw [List.length_append, List.length_singleton] at lengths
  omega

/-- Inserting below a node that ends a path: the table stays a tree, the whole
word has its leaf, and every word that neither begins nor continues it keeps
its own. -/
theorem insert_spec
    (symbol : α)
    {bits : List Bool}
    (nonempty : bits ≠ [])
    {nodes : Nodes α}
    {word : List Bool}
    {node : Nat}
    (shape : Shape nodes)
    (wordReaches : Reaches nodes word node) :
    Shape (insert symbol bits nodes node) ∧
      HasLeaf (insert symbol bits nodes node) (word ++ bits) symbol ∧
      ∀ path other, HasLeaf nodes path other →
        ¬word ++ bits <+: path → ¬path <+: word ++ bits →
          HasLeaf (insert symbol bits nodes node) path other := by
  have present := wordReaches.present shape
  induction bits generalizing nodes word node with
  | nil => exact absurd rfl nonempty
  | cons bit rest inductionHypothesis =>
      cases rest with
      | nil =>
          rw [insert]
          refine ⟨shape.after_leaf node bit symbol, ?_, ?_⟩
          · refine ⟨word, node, bit, rfl, ?_, ?_⟩
            · apply wordReaches.after_setBranch shape wordReaches
              exact not_append_singleton_isPrefix word bit
            · exact branch_setBranch_self present bit _
          · intro path other leaf apart _
            exact leaf.after_setBranch shape wordReaches _ apart
      | cons second rest =>
          have spelled : word ++ bit :: second :: rest =
              (word ++ [bit]) ++ second :: rest := by simp
          cases follows : branch nodes node bit with
          | node next =>
              simp only [insert, follows]
              rw [spelled]
              exact inductionHypothesis (by simp) shape
                (wordReaches.step follows)
                ((wordReaches.step follows).present shape)
          | _ =>
              have pushed := shape.after_push
              have hung := shape.after_hang present bit
              have hangs : Reaches
                  (setBranch (push nodes) node bit (.node nodes.length))
                  (word ++ [bit]) nodes.length := by
                refine .step ?_ (branch_setBranch_self (by simp; omega) bit _)
                apply wordReaches.after_push.after_setBranch pushed
                  wordReaches.after_push
                exact not_append_singleton_isPrefix word bit
              simp only [insert, follows]
              rw [spelled]
              obtain ⟨grown, leaf, others⟩ := inductionHypothesis (by simp)
                hung hangs (hangs.present hung)
              refine ⟨grown, leaf, ?_⟩
              intro path other had apart continues
              apply others path other _ apart continues
              apply had.after_push.after_setBranch pushed
                wordReaches.after_push
              intro begins
              apply continues
              have short := had.prefix_of_no_node wordReaches
                (fun next => by rw [follows]; simp) begins
              exact short ▸ List.prefix_append _ _

/-- No word of a list begins another. -/
def PrefixFree (words : List (List Bool × α)) : Prop :=
  words.Pairwise fun left right =>
    ¬left.1 <+: right.1 ∧ ¬right.1 <+: left.1

/-- Every word inserted after a table keeps its leaf, and so does every word
the table had apart from them. -/
theorem foldl_insert_hasLeaf
    (words : List (List Bool × α))
    (nonempty : ∀ word ∈ words, word.1 ≠ [])
    (prefixFree : PrefixFree words)
    {nodes : Nodes α}
    (shape : Shape nodes) :
    (∀ word ∈ words, HasLeaf (words.foldl
        (fun nodes word => insert word.2 word.1 nodes 0) nodes)
          word.1 word.2) ∧
      ∀ path other, HasLeaf nodes path other →
        (∀ word ∈ words, ¬word.1 <+: path ∧ ¬path <+: word.1) →
          HasLeaf (words.foldl
            (fun nodes word => insert word.2 word.1 nodes 0) nodes)
              path other := by
  induction words generalizing nodes with
  | nil => simp
  | cons first rest inductionHypothesis =>
      obtain ⟨apart, restFree⟩ := List.pairwise_cons.mp prefixFree
      obtain ⟨grown, leaf, kept⟩ := insert_spec first.2
        (nonempty first List.mem_cons_self) shape .root
      obtain ⟨inserted, others⟩ := inductionHypothesis
        (fun word member => nonempty word (List.mem_cons_of_mem _ member))
        restFree grown
      rw [List.foldl_cons]
      constructor
      · intro word member
        rcases List.mem_cons.mp member with rfl | member
        · exact others word.1 word.2 leaf fun other otherMember =>
            (apart other otherMember).symm
        · exact inserted word member
      · intro path other had apartFromAll
        have apartFromFirst := apartFromAll first List.mem_cons_self
        exact others path other
          (kept path other had apartFromFirst.1 apartFromFirst.2)
          fun word member => apartFromAll word (List.mem_cons_of_mem _ member)

/-- In the table built from a prefix code every word has its leaf. -/
theorem build_hasLeaf
    {words : List (List Bool × α)}
    (nonempty : ∀ word ∈ words, word.1 ≠ [])
    (prefixFree : PrefixFree words)
    {word : List Bool × α}
    (member : word ∈ words) :
    HasLeaf (build words) word.1 word.2 :=
  (foldl_insert_hasLeaf words nonempty prefixFree shape_empty).1 word member

/-! ## Leaves are words -/

/-- A path through a table in which a leaf was written was there before. -/
theorem Reaches.of_after_leaf
    {nodes : Nodes α}
    {path : List Bool}
    {node reached : Nat}
    {bit : Bool}
    {symbol : α}
    (reaches : Reaches (setBranch nodes node bit (.leaf symbol)) path reached) :
    Reaches nodes path reached := by
  induction reaches with
  | root => exact .root
  | step _ follows inductionHypothesis =>
      exact .step inductionHypothesis (node_of_after_leaf follows)

/-- A path through a table with a node hung leads to that node or was there
before. -/
theorem Reaches.of_hang
    {nodes : Nodes α}
    (shape : Shape nodes)
    {path : List Bool}
    {node reached : Nat}
    {bit : Bool}
    (present : node < nodes.length)
    (reaches : Reaches (hang nodes node bit) path reached)
    (other : reached ≠ nodes.length) :
    Reaches nodes path reached := by
  induction reaches with
  | root => exact .root
  | step _ follows inductionHypothesis =>
      rcases node_of_hang present follows with ⟨_, _, last⟩ | old
      · exact absurd last other
      · have forward := shape.forward old
        exact .step (inductionHypothesis (by omega)) old

/-- A leaf of a table with a node hung was there before: the new node branches
nowhere. -/
theorem HasLeaf.of_hang
    {nodes : Nodes α}
    (shape : Shape nodes)
    {path : List Bool}
    {node : Nat}
    {bit : Bool}
    {symbol : α}
    (present : node < nodes.length)
    (leaf : HasLeaf (hang nodes node bit) path symbol) :
    HasLeaf nodes path symbol := by
  obtain ⟨start, other, otherBit, rfl, reaches, follows⟩ := leaf
  rcases branch_hang present bit other otherBit with ⟨_, _, hung⟩ | ⟨_, kept⟩
  · rw [hung] at follows
    cases follows
  · rw [kept] at follows
    refine ⟨start, other, otherBit, rfl, reaches.of_hang shape present ?_,
      follows⟩
    rintro rfl
    rw [branch, List.getElem?_eq_none (Nat.le_refl _)] at follows
    cases follows

/-- A leaf found after an insertion is the one inserted or was there before. -/
theorem insert_leaf_origin
    {symbol : α}
    {bits : List Bool}
    {nodes : Nodes α}
    {word : List Bool}
    {node : Nat}
    (shape : Shape nodes)
    (wordReaches : Reaches nodes word node)
    {path : List Bool}
    {other : α}
    (leaf : HasLeaf (insert symbol bits nodes node) path other) :
    (path = word ++ bits ∧ other = symbol) ∨ HasLeaf nodes path other := by
  have present := wordReaches.present shape
  induction bits generalizing nodes word node with
  | nil => exact Or.inr leaf
  | cons bit rest inductionHypothesis =>
      cases rest with
      | nil =>
          obtain ⟨start, place, last, rfl, reaches, follows⟩ := leaf
          have before : Reaches nodes start place := reaches.of_after_leaf
          by_cases same : place = node ∧ last = bit
          · obtain ⟨rfl, rfl⟩ := same
            rw [insert, branch_setBranch_self present] at follows
            injection follows with found
            exact Or.inl
              ⟨by rw [before.path_unique shape wordReaches], found.symm⟩
          · rw [insert, branch_setBranch_of_ne nodes same] at follows
            exact Or.inr ⟨start, place, last, rfl, before, follows⟩
      | cons second rest =>
          have spelled : word ++ bit :: second :: rest =
              (word ++ [bit]) ++ second :: rest := by simp
          cases follows : branch nodes node bit with
          | node next =>
              simp only [insert, follows] at leaf
              rw [spelled]
              exact inductionHypothesis shape (wordReaches.step follows) leaf
                ((wordReaches.step follows).present shape)
          | _ =>
              have hung := shape.after_hang present bit
              have hangs : Reaches (hang nodes node bit) (word ++ [bit])
                  nodes.length := by
                refine .step ?_ (branch_setBranch_self (by simp; omega) bit _)
                apply wordReaches.after_push.after_setBranch shape.after_push
                  wordReaches.after_push
                exact not_append_singleton_isPrefix word bit
              simp only [insert, follows] at leaf
              rw [spelled]
              rcases inductionHypothesis hung hangs leaf (hangs.present hung)
                with inserted | earlier
              · exact Or.inl inserted
              · exact Or.inr (earlier.of_hang shape present)

/-- The table built from some words is a tree. -/
theorem shape_build
    {words : List (List Bool × α)}
    (nonempty : ∀ word ∈ words, word.1 ≠ []) :
    Shape (build words) := by
  have grows : ∀ nodes : Nodes α, Shape nodes →
      Shape (words.foldl
        (fun nodes word => insert word.2 word.1 nodes 0) nodes) := by
    induction words with
    | nil => exact fun _ shape => shape
    | cons first rest inductionHypothesis =>
        intro nodes shape
        obtain ⟨grown, _⟩ := insert_spec first.2
          (nonempty first List.mem_cons_self) shape .root
        exact inductionHypothesis
          (fun word member => nonempty word (List.mem_cons_of_mem _ member))
          _ grown
  exact grows empty shape_empty

/-- The leaves of the table built from some words are those words. -/
theorem mem_of_build_hasLeaf
    {words : List (List Bool × α)}
    (nonempty : ∀ word ∈ words, word.1 ≠ [])
    {path : List Bool}
    {symbol : α}
    (leaf : HasLeaf (build words) path symbol) :
    (path, symbol) ∈ words := by
  have origin : ∀ (nodes : Nodes α), Shape nodes →
      HasLeaf (words.foldl
        (fun nodes word => insert word.2 word.1 nodes 0) nodes) path symbol →
      (path, symbol) ∈ words ∨ HasLeaf nodes path symbol := by
    clear leaf
    induction words with
    | nil => exact fun _ _ leaf => Or.inr leaf
    | cons first rest inductionHypothesis =>
        intro nodes shape leaf
        obtain ⟨grown, _⟩ := insert_spec first.2
          (nonempty first List.mem_cons_self) shape .root
        rcases inductionHypothesis
          (fun word member => nonempty word (List.mem_cons_of_mem _ member))
          _ grown leaf with later | here
        · exact Or.inl (List.mem_cons_of_mem _ later)
        · rcases insert_leaf_origin shape .root here with
            ⟨rfl, rfl⟩ | earlier
          · exact Or.inl List.mem_cons_self
          · exact Or.inr earlier
  rcases origin empty shape_empty leaf with member | none
  · exact member
  · obtain ⟨start, node, bit, _, _, follows⟩ := none
    rw [empty, branch_push] at follows
    cases follows

/-! ## Complete codes -/

/-- The rest of every word that opens with `bit`. -/
def after (bit : Bool) (words : List (List Bool)) : List (List Bool) :=
  words.filterMap fun word =>
    match word with
    | first :: rest => if first = bit then some rest else none
    | [] => none

/-- Whether the words spell out every string of `depth` bits or fewer: the one
word left is empty, or none is and each half spells out the rest. -/
def covers : Nat → List (List Bool) → Bool
  | _, [[]] => true
  | 0, _ => false
  | depth + 1, words =>
      words.all (fun word => !word.isEmpty) &&
        (covers depth (after false words) && covers depth (after true words))

theorem mem_after
    {bit : Bool}
    {words : List (List Bool)}
    {rest : List Bool} :
    rest ∈ after bit words ↔ bit :: rest ∈ words := by
  rw [after, List.mem_filterMap]
  constructor
  · rintro ⟨word, member, found⟩
    cases word with
    | nil => cases found
    | cons first others =>
        simp only at found
        split at found
        next same =>
          cases found
          rw [← same]
          exact member
        · cases found
  · intro member
    exact ⟨_, member, if_pos rfl⟩

theorem covers_half
    {depth : Nat}
    {words : List (List Bool)}
    (covered : covers (depth + 1) words = true)
    (proper : words ≠ [[]])
    (bit : Bool) :
    covers depth (after bit words) = true := by
  rw [covers] at covered
  · rw [Bool.and_eq_true, Bool.and_eq_true] at covered
    cases bit with
    | false => exact covered.2.1
    | true => exact covered.2.2
  · exact proper

theorem nonempty_of_covers
    {depth : Nat}
    {words : List (List Bool)}
    (covered : covers depth words = true) :
    words ≠ [] := by
  induction depth generalizing words with
  | zero =>
      rintro rfl
      cases covered
  | succ depth inductionHypothesis =>
      rintro rfl
      exact inductionHypothesis
        (covers_half covered (List.cons_ne_nil _ _).symm false) rfl

/-- Where the words cover every string, a path short of a word goes on with
either bit. -/
theorem continues_of_covers
    {depth : Nat}
    {words : List (List Bool)}
    (covered : covers depth words = true)
    {path word : List Bool}
    (member : word ∈ words)
    (begins : path <+: word)
    (short : path ≠ word)
    (bit : Bool) :
    ∃ other ∈ words, path ++ [bit] <+: other := by
  have proper : words ≠ [[]] := by
    rintro rfl
    rw [List.mem_singleton.mp member] at begins short
    exact short (List.prefix_nil.mp begins)
  induction depth generalizing words path word with
  | zero =>
      rw [covers] at covered
      · cases covered
      · exact proper
  | succ depth inductionHypothesis =>
      cases path with
      | nil =>
          obtain ⟨rest, there⟩ := List.exists_mem_of_ne_nil _
            (nonempty_of_covers (covers_half covered proper bit))
          exact ⟨bit :: rest, mem_after.mp there, rest, rfl⟩
      | cons first path =>
          obtain ⟨tail, rfl⟩ := begins
          have half := covers_half covered proper first
          have there : path ++ tail ∈ after first words := mem_after.mpr member
          have shorter : path ≠ path ++ tail := fun same =>
            short (congrArg (first :: ·) same)
          have halfProper : after first words ≠ [[]] := by
            intro single
            rw [single, List.mem_singleton] at there
            rw [there, List.append_eq_nil_iff.mp there |>.1] at shorter
            exact shorter rfl
          obtain ⟨other, otherThere, goes⟩ := inductionHypothesis half there
            (List.prefix_append _ _) shorter halfProper
          exact ⟨first :: other, mem_after.mp otherThere,
            (List.prefix_cons_inj first).mpr goes⟩

/-- In the table of a complete prefix code a walk never finds a branch that
leads nowhere. -/
theorem branch_ne_none_of_covers
    {words : List (List Bool × α)}
    (nonempty : ∀ word ∈ words, word.1 ≠ [])
    (prefixFree : PrefixFree words)
    {depth : Nat}
    (covered : covers depth (words.map Prod.fst) = true)
    {path : List Bool}
    {node : Nat}
    (reaches : Reaches (build words) path node)
    (bit : Bool) :
    branch (build words) node bit ≠ .none := by
  have onward : ∀ {path : List Bool} {node : Nat},
      Reaches (build words) path node →
        ∃ word ∈ words, path <+: word.1 ∧ path ≠ word.1 := by
    intro path node reaches
    induction reaches with
    | root =>
        obtain ⟨first, member⟩ := List.exists_mem_of_ne_nil _
          (nonempty_of_covers covered)
        obtain ⟨word, there, rfl⟩ := List.mem_map.mp member
        exact ⟨word, there, List.nil_prefix, (nonempty word there).symm⟩
    | @step path node next bit before follows inductionHypothesis =>
        obtain ⟨word, there, begins, short⟩ := inductionHypothesis
        obtain ⟨other, member, goes⟩ := continues_of_covers covered
          (List.mem_map_of_mem there) begins short bit
        obtain ⟨found, foundThere, rfl⟩ := List.mem_map.mp member
        refine ⟨found, foundThere, goes, fun whole => ?_⟩
        obtain ⟨start, place, last, spelled, reached, ends⟩ :=
          build_hasLeaf nonempty prefixFree foundThere
        rw [← whole] at spelled
        obtain ⟨starts, bits⟩ := List.append_inj' spelled rfl
        injection bits with bits
        rw [reached.node_unique before starts.symm, ← bits, follows] at ends
        cases ends
  obtain ⟨word, there, begins, short⟩ := onward reaches
  obtain ⟨other, member, goes⟩ := continues_of_covers covered
    (List.mem_map_of_mem there) begins short bit
  obtain ⟨found, foundThere, rfl⟩ := List.mem_map.mp member
  intro nowhere
  have leaf := build_hasLeaf nonempty prefixFree foundThere
  have whole := leaf.prefix_of_no_node reaches
    (fun next => by rw [nowhere]; simp) goes
  obtain ⟨start, place, last, spelled, reached, ends⟩ := leaf
  rw [whole] at spelled
  obtain ⟨starts, bits⟩ := List.append_inj' spelled rfl
  injection bits with bits
  rw [reached.node_unique reaches starts.symm, ← bits, nowhere] at ends
  cases ends

end PrefixTrie
end XmipNet
