import Mathlib

/-!
# The parent-linked search tree (`dp/utils/tree.c`)

A `tree_node_t` holds three links, indexed by `ARM_LEFT`, `ARM_PARENT` and `ARM_RIGHT`, and the
arm by which its parent points to it. The nodes live in a memory `nodes : α → TreeNode α` over
addresses `α`; the `tree_t` adds the root link and the count. Its comparison function is a
parameter `cmp target node`, whose sign `shift` turns into the arm to follow.

A pointer to a link, such as `pparent` in `tree_remove_node`, is a `Place`: the root of the
`tree_t`, or one link of a node. The pointer loops take fuel and give `none` when it runs out;
the stack node `x` of `swap` is the address `px`.
-/

namespace MicroSegment.Dp

inductive Arm
  | left
  | parent
  | right
  deriving DecidableEq, Repr

/-- `shift`: the arm `find` follows for a comparison result. -/
def shift (result : Int) : Arm :=
  if result > 0 then .right else if result < 0 then .left else .parent

/-- `opposite`: `ARM_MIDDLE - (arm - ARM_MIDDLE)` over the codes 0, 1 and 2. -/
def opposite : Arm → Arm
  | .left => .right
  | .parent => .parent
  | .right => .left

/-- `tree_node_t`. -/
structure TreeNode (α : Type) where
  left : Option α
  parent : Option α
  right : Option α
  arm : Arm
  deriving DecidableEq, Repr

namespace TreeNode

variable {α : Type}

def links (n : TreeNode α) : Arm → Option α
  | .left => n.left
  | .parent => n.parent
  | .right => n.right

def setLink (n : TreeNode α) : Arm → Option α → TreeNode α
  | .left, v => { n with left := v }
  | .parent, v => { n with parent := v }
  | .right, v => { n with right := v }

/-- The record `tree_init_node` writes. -/
def init : TreeNode α := ⟨none, none, none, .parent⟩

@[simp] theorem links_left (n : TreeNode α) : n.links .left = n.left := rfl
@[simp] theorem links_parent (n : TreeNode α) : n.links .parent = n.parent := rfl
@[simp] theorem links_right (n : TreeNode α) : n.links .right = n.right := rfl

@[simp] theorem links_setLink_self (n : TreeNode α) (arm : Arm) (v : Option α) :
    (n.setLink arm v).links arm = v := by
  cases arm <;> rfl

theorem links_setLink_of_ne (n : TreeNode α) {arm arm' : Arm} (v : Option α) (differ : arm ≠ arm') :
    (n.setLink arm v).links arm' = n.links arm' := by
  cases arm <;> cases arm' <;> first | rfl | exact absurd rfl differ

theorem parent_setLink_of_ne (n : TreeNode α) {arm : Arm} (v : Option α)
    (notParent : arm ≠ .parent) : (n.setLink arm v).parent = n.parent :=
  n.links_setLink_of_ne v notParent

@[simp] theorem arm_setLink (n : TreeNode α) (arm : Arm) (v : Option α) :
    (n.setLink arm v).arm = n.arm := by
  cases arm <;> rfl

end TreeNode

/-- Where a link is stored: the `root` of the `tree_t`, or the link `arm` of the node `owner`. -/
inductive Place (α : Type)
  | root
  | link (owner : α) (arm : Arm)
  deriving DecidableEq, Repr

/-- The link that a node's parent and arm, or `find`'s `last` and `cur_arm`, name:
`parent ? &parent->links[arm] : &root->root`. -/
def Place.ofLast {α : Type} : Option α → Arm → Place α
  | none, _ => .root
  | some p, arm => .link p arm

def Place.owner {α : Type} : Place α → Option α
  | .root => none
  | .link p _ => some p

/-- The nodes in memory with the `root` and `count` of the `tree_t`. -/
structure TreeMem (α : Type) where
  nodes : α → TreeNode α
  root : Option α
  count : Nat

namespace TreeMem

variable {α : Type} [DecidableEq α]

def load (m : TreeMem α) : Place α → Option α
  | .root => m.root
  | .link p arm => (m.nodes p).links arm

def setNode (m : TreeMem α) (a : α) (n : TreeNode α) : TreeMem α :=
  { m with nodes := Function.update m.nodes a n }

def store (m : TreeMem α) : Place α → Option α → TreeMem α
  | .root, v => { m with root := v }
  | .link p arm, v => m.setNode p ((m.nodes p).setLink arm v)

/-- The link that points to `n`, by its parent and arm: the `pparent` of `swap` and
`tree_remove_node`. -/
def placeOf (m : TreeMem α) (n : α) : Place α := Place.ofLast (m.nodes n).parent (m.nodes n).arm

@[simp] theorem nodes_setNode (m : TreeMem α) (a : α) (n : TreeNode α) :
    (m.setNode a n).nodes = Function.update m.nodes a n := rfl

@[simp] theorem root_setNode (m : TreeMem α) (a : α) (n : TreeNode α) :
    (m.setNode a n).root = m.root := rfl

@[simp] theorem count_setNode (m : TreeMem α) (a : α) (n : TreeNode α) :
    (m.setNode a n).count = m.count := rfl

@[simp] theorem count_store (m : TreeMem α) (q : Place α) (v : Option α) :
    (m.store q v).count = m.count := by
  cases q <;> rfl

theorem nodes_store_of_ne (m : TreeMem α) {q : Place α} (v : Option α) {y : α}
    (other : q.owner ≠ some y) : (m.store q v).nodes y = m.nodes y := by
  cases q with
  | root => rfl
  | link p arm =>
    have differ : y ≠ p := fun same => other (by rw [same]; rfl)
    simp [store, differ]

@[simp] theorem nodes_store_link (m : TreeMem α) (p : α) (arm : Arm) (v : Option α) :
    (m.store (.link p arm) v).nodes p = (m.nodes p).setLink arm v := by
  simp [store]

@[simp] theorem load_store_self (m : TreeMem α) (q : Place α) (v : Option α) :
    (m.store q v).load q = v := by
  cases q <;> simp [store, load]

theorem load_store_of_ne (m : TreeMem α) {q q' : Place α} (v : Option α) (differ : q ≠ q') :
    (m.store q v).load q' = m.load q' := by
  cases q with
  | root =>
    cases q' with
    | root => exact absurd rfl differ
    | link p arm => rfl
  | link p arm =>
    cases q' with
    | root => rfl
    | link p' arm' =>
      by_cases owner : p' = p
      · subst owner
        have arms : arm ≠ arm' := fun same => differ (by rw [same])
        simp [load, store, TreeNode.links_setLink_of_ne _ _ arms]
      · simp [load, store, owner]

theorem load_setNode_of_ne (m : TreeMem α) {q : Place α} {a : α} (n : TreeNode α)
    (other : q.owner ≠ some a) : (m.setNode a n).load q = m.load q := by
  cases q with
  | root => rfl
  | link p arm =>
    have differ : p ≠ a := fun same => other (by rw [same]; rfl)
    simp [load, differ]

@[simp] theorem root_store_link (m : TreeMem α) (p : α) (arm : Arm) (v : Option α) :
    (m.store (.link p arm) v).root = m.root := rfl

end TreeMem

variable {α β : Type} [DecidableEq α]

/-! ### The loops -/

/-- `find`: from `cur`, follow the arm that `cmp target cur` picks until a node compares equal or
the link is null. `last` and `curArm` name the link the search stands at. -/
def find (cmp : β → α → Int) (nodes : α → TreeNode α) (target : β) :
    Nat → Option α → Option α → Arm → Option (Option α × Option α × Arm)
  | 0, _, _, _ => none
  | _ + 1, none, last, curArm => some (none, last, curArm)
  | fuel + 1, some cur, last, curArm =>
    if shift (cmp target cur) = .parent then some (some cur, last, curArm)
    else find cmp nodes target fuel ((nodes cur).links (shift (cmp target cur))) (some cur)
      (shift (cmp target cur))

def followFrom (nodes : α → TreeNode α) (arm : Arm) : Nat → α → Option α
  | 0, _ => none
  | fuel + 1, node =>
    match (nodes node).links arm with
    | none => some node
    | some next => followFrom nodes arm fuel next

def follow (nodes : α → TreeNode α) (arm : Arm) (fuel : Nat) : Option α → Option (Option α)
  | none => some none
  | some node => (followFrom nodes arm fuel node).map some

def climb (nodes : α → TreeNode α) (arm : Arm) : Nat → α → Option (Option α)
  | 0, _ => none
  | fuel + 1, node =>
    match (nodes node).parent with
    | none => some none
    | some p => if arm = (nodes node).arm then climb nodes arm fuel p else some (some p)

/-- `sibling`: the next node on the side `arm`. -/
def sibling (nodes : α → TreeNode α) (arm : Arm) (fuel : Nat) : Option α → Option (Option α)
  | none => some none
  | some node =>
    match (nodes node).links arm with
    | some child => follow nodes (opposite arm) fuel (some child)
    | none => climb nodes arm fuel node

def treeFirstNode (nodes : α → TreeNode α) (fuel : Nat) (node : Option α) : Option (Option α) :=
  follow nodes .left fuel node

def treeLastNode (nodes : α → TreeNode α) (fuel : Nat) (node : Option α) : Option (Option α) :=
  follow nodes .right fuel node

def treeNextNode (nodes : α → TreeNode α) (fuel : Nat) (node : Option α) : Option (Option α) :=
  sibling nodes .right fuel node

def treePrevNode (nodes : α → TreeNode α) (fuel : Nat) (node : Option α) : Option (Option α) :=
  sibling nodes .left fuel node

/-- The loop of `tree_find_node`. -/
def findNodeLoop (cmp : β → α → Int) (nodes : α → TreeNode α) (target : β) :
    Nat → Option α → Option (Option α)
  | 0, _ => none
  | _ + 1, none => some none
  | fuel + 1, some p =>
    if shift (cmp target p) = .parent then some (some p)
    else findNodeLoop cmp nodes target fuel ((nodes p).links (shift (cmp target p)))

def treeFindNode (cmp : β → α → Int) (fuel : Nat) (m : TreeMem α) (target : β) :
    Option (Option α) :=
  findNodeLoop cmp m.nodes target fuel m.root

/-- The loop of `tree_traverse`: the nodes `each` is called on, in order. The callback does not
change the tree. -/
def traverseLoop (nodes : α → TreeNode α) (fuel : Nat) : Nat → Option α → Option (List α)
  | 0, _ => none
  | _ + 1, none => some []
  | rounds + 1, some p =>
    match treeNextNode nodes fuel (some p) with
    | none => none
    | some q => (traverseLoop nodes fuel rounds q).map (p :: ·)

def treeTraverse (fuel : Nat) (m : TreeMem α) : Option (List α) :=
  match treeFirstNode m.nodes fuel m.root with
  | none => none
  | some p => traverseLoop m.nodes fuel fuel p

def treeInit (m : TreeMem α) : TreeMem α := { m with root := none, count := 0 }

/-- The end of `tree_insert_node`: `node` hangs at the link where `find` stopped. -/
def linkNode (m : TreeMem α) (parent : Option α) (arm : Arm) (node : α) : TreeMem α :=
  match parent with
  | none => { m with root := some node }
  | some p =>
    let m := m.store (.link p arm) (some node)
    m.setNode node { m.nodes node with parent := some p, arm := arm }

/-- `tree_insert_node`: the node, or `none` for `NULL` when a node comparing equal is found. -/
def treeInsertNode (cmp : α → α → Int) (fuel : Nat) (m : TreeMem α) (node : α) :
    Option (Option α × TreeMem α) :=
  let m := m.setNode node TreeNode.init
  match find cmp m.nodes node fuel m.root none .parent with
  | none => none
  | some (some _, _, _) => some (none, m)
  | some (none, parent, arm) =>
    let m := linkNode m parent arm node
    some (some node, { m with count := m.count + 1 })

/-- `if (child) child->links[ARM_PARENT] = newNode`. -/
def reparent (m : TreeMem α) (child : Option α) (newNode : α) : TreeMem α :=
  match child with
  | some c => m.store (.link c .parent) (some newNode)
  | none => m

theorem nodes_reparent_of_ne (m : TreeMem α) {child : Option α} (newNode : α) {y : α}
    (other : child ≠ some y) : (reparent m child newNode).nodes y = m.nodes y := by
  cases child with
  | none => rfl
  | some c => exact m.nodes_store_of_ne (q := .link c .parent) _ other

@[simp] theorem nodes_reparent_self (m : TreeMem α) (c newNode : α) :
    (reparent m (some c) newNode).nodes c = (m.nodes c).setLink .parent (some newNode) :=
  m.nodes_store_link c .parent _

theorem load_reparent_of_ne (m : TreeMem α) {child : Option α} (newNode : α) {q : Place α}
    (other : ∀ c, child = some c → q ≠ .link c .parent) :
    (reparent m child newNode).load q = m.load q := by
  cases child with
  | none => rfl
  | some c => exact m.load_store_of_ne _ (Ne.symm (other c rfl))

@[simp] theorem count_reparent (m : TreeMem α) (child : Option α) (newNode : α) :
    (reparent m child newNode).count = m.count := by
  cases child <;> simp [reparent]

/-- `replace`: `newNode` takes the record of `oldNode` and the link `pparent`, and the children of
`oldNode` point up to it. The children are read after the writes, as in the source. -/
def replace (m : TreeMem α) (pparent : Place α) (newNode oldNode : α) : TreeMem α :=
  let m := m.setNode newNode (m.nodes oldNode)
  let m := m.store pparent (some newNode)
  let m := reparent m (m.nodes oldNode).left newNode
  reparent m (m.nodes oldNode).right newNode

@[simp] theorem count_replace (m : TreeMem α) (pparent : Place α) (newNode oldNode : α) :
    (replace m pparent newNode oldNode).count = m.count := by
  simp [replace]

/-- `swap`: `n1` and `n2` trade places through the stack node `px`. -/
def swap (m : TreeMem α) (px n1 n2 : α) : TreeMem α :=
  let m := replace m (m.placeOf n1) px n1
  let m := replace m (m.placeOf n2) n1 n2
  replace m (m.placeOf px) n2 px

@[simp] theorem count_swap (m : TreeMem α) (px n1 n2 : α) : (swap m px n1 n2).count = m.count := by
  simp [swap]

/-- The end of `tree_remove_node`, for a node with at most one child: the child, the left one if
any, takes the node's link. -/
def unlinkNode (m : TreeMem α) (node : α) : TreeMem α :=
  let pparent := m.placeOf node
  let arm := if (m.nodes node).left.isSome then Arm.left else .right
  let p := (m.nodes node).links arm
  let m := match p with
    | some c =>
      let m := m.store (.link c .parent) (m.nodes node).parent
      m.setNode c { m.nodes c with arm := (m.nodes node).arm }
    | none => m
  m.store pparent p

@[simp] theorem count_unlinkNode (m : TreeMem α) (node : α) :
    (unlinkNode m node).count = m.count := by
  unfold unlinkNode
  simp only [TreeMem.count_store]
  split <;> simp

/-- `tree_remove_node`: a node with two children first trades places with `tree_prev_node`, which
is then never null; `none` when the fuel runs out. -/
def treeRemoveNode (fuel : Nat) (px : α) (m : TreeMem α) (node : α) : Option (α × TreeMem α) := do
  let m ← if (m.nodes node).left.isSome && (m.nodes node).right.isSome then
      match treePrevNode m.nodes fuel (some node) with
      | some (some prev) => some (swap m px node prev)
      | _ => none
    else some m
  let m := unlinkNode m node
  pure (node, { m with count := m.count - 1 })

end MicroSegment.Dp
