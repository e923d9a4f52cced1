import MicroSegment.Dp.TreeShape

/-!
The walks of `tree.c` read on the tree a memory holds. `tree_next_node` returns the successor in
the in-order list, `tree_prev_node` the predecessor, `tree_traverse` visits the whole in-order
list, and `tree_find_node` is the search by key.

The predecessor is the successor in the mirror image: the memory whose records have their left
and right links swapped, and their arms with them, holds the mirrored tree.
-/

namespace MicroSegment.Dp

open BinaryTree

variable {α β κ : Type}

def climbAt (nodes : α → TreeNode α) (arm : Arm) (fuel : Nat) : Place α → Option (Option α)
  | .root => some none
  | .link p a => if arm = a then climb nodes arm fuel p else some (some p)

theorem climb_succ (nodes : α → TreeNode α) (arm : Arm) (fuel : Nat) (n : α) :
    climb nodes arm (fuel + 1) n =
      climbAt nodes arm fuel (Place.ofLast (nodes n).parent (nodes n).arm) := by
  cases parent : (nodes n).parent <;> simp [climb, climbAt, Place.ofLast, parent]

/-! ### The mirror image -/

def TreeNode.mirror (n : TreeNode α) : TreeNode α :=
  { left := n.right, parent := n.parent, right := n.left, arm := opposite n.arm }

def TreeMem.mirror (m : TreeMem α) : TreeMem α := { m with nodes := fun a => (m.nodes a).mirror }

def Place.mirror : Place α → Place α
  | .root => .root
  | .link p arm => .link p (opposite arm)

@[simp] theorem opposite_opposite (arm : Arm) : opposite (opposite arm) = arm := by
  cases arm <;> rfl

theorem eq_opposite_iff {arm arm' : Arm} : arm = opposite arm' ↔ opposite arm = arm' := by
  cases arm <;> cases arm' <;> decide

@[simp] theorem TreeNode.links_mirror (n : TreeNode α) (arm : Arm) :
    n.mirror.links arm = n.links (opposite arm) := by
  cases arm <;> rfl

@[simp] theorem TreeNode.parent_mirror (n : TreeNode α) : n.mirror.parent = n.parent := rfl

@[simp] theorem TreeNode.arm_mirror (n : TreeNode α) : n.mirror.arm = opposite n.arm := rfl

theorem TreeMem.load_mirror (m : TreeMem α) (place : Place α) :
    m.mirror.load place.mirror = m.load place := by
  cases place <;> simp [TreeMem.load, TreeMem.mirror, Place.mirror]

theorem TreeMem.placeOf_mirror (m : TreeMem α) (n : α) :
    m.mirror.placeOf n = (m.placeOf n).mirror := by
  cases parent : (m.nodes n).parent <;>
    simp [TreeMem.placeOf, TreeMem.mirror, TreeNode.mirror, Place.ofLast, Place.mirror, parent]

theorem Hangs.mirror {m : TreeMem α} : ∀ {place : Place α} {t : BinaryTree α}, Hangs m place t →
    Hangs m.mirror place.mirror t.mirror
  | _, .nil, h => (m.load_mirror _).trans h
  | _, .node a _ _, ⟨top, placed, hangsL, hangsR⟩ =>
    ⟨(m.load_mirror _).trans top, (m.placeOf_mirror a).trans (congrArg Place.mirror placed),
      hangsR.mirror, hangsL.mirror⟩

section mirror

variable (nodes : α → TreeNode α)

theorem followFrom_mirror (arm : Arm) : ∀ fuel (a : α),
    followFrom (fun b => (nodes b).mirror) arm fuel a = followFrom nodes (opposite arm) fuel a
  | 0, _ => rfl
  | fuel + 1, a => by
    simp only [followFrom, TreeNode.links_mirror]
    split <;> simp [followFrom_mirror arm fuel]

theorem climb_mirror (arm : Arm) : ∀ fuel (a : α),
    climb (fun b => (nodes b).mirror) arm fuel a = climb nodes (opposite arm) fuel a
  | 0, _ => rfl
  | fuel + 1, a => by
    simp only [climb, TreeNode.parent_mirror, TreeNode.arm_mirror, eq_opposite_iff,
      climb_mirror arm fuel]

theorem treePrevNode_eq_mirror (fuel : Nat) (node : Option α) :
    treePrevNode nodes fuel node = treeNextNode (fun b => (nodes b).mirror) fuel node := by
  cases node with
  | none => rfl
  | some x =>
    simp only [treePrevNode, treeNextNode, sibling, TreeNode.links_mirror, opposite, follow,
      followFrom_mirror, climb_mirror]

end mirror

section ends

variable {m : TreeMem α}

theorem treeFirstNode_root {t : BinaryTree α} (h : Hangs m .root t) {fuel : Nat}
    (enough : t.height < fuel) : treeFirstNode m.nodes fuel m.root = some t.inorder.head? := by
  cases t with
  | nil =>
    have empty : m.root = none := h
    rw [empty]
    rfl
  | node a l r =>
    have top : m.root = some a := h.1
    obtain ⟨y, first⟩ : ∃ y, (BinaryTree.node a l r).inorder.head? = some y :=
      Option.isSome_iff_exists.mp (by simp)
    simp only [treeFirstNode, top, follow, followFrom_left_eq h fuel enough, first,
      Option.map_some]

theorem treeLastNode_root {t : BinaryTree α} (h : Hangs m .root t) {fuel : Nat}
    (enough : t.height < fuel) : treeLastNode m.nodes fuel m.root = some t.inorder.getLast? := by
  cases t with
  | nil =>
    have empty : m.root = none := h
    rw [empty]
    rfl
  | node a l r =>
    have top : m.root = some a := h.1
    obtain ⟨y, last⟩ : ∃ y, (BinaryTree.node a l r).inorder.getLast? = some y :=
      Option.isSome_iff_exists.mp (by simp)
    simp only [treeLastNode, top, follow, followFrom_right_eq h fuel enough, last,
      Option.map_some]

theorem findNodeLoop_eq_find (cmp : β → α → Int) (nodes : α → TreeNode α) (target : β) :
    ∀ fuel cur last arm,
      findNodeLoop cmp nodes target fuel cur = (find cmp nodes target fuel cur last arm).map Prod.fst
  | 0, _, _, _ => rfl
  | _ + 1, none, _, _ => rfl
  | fuel + 1, some p, _, _ => by
    simp only [findNodeLoop, find]
    split
    · rfl
    · exact findNodeLoop_eq_find cmp nodes target fuel _ (some p) _

variable [LinearOrder κ] {key : α → κ}

theorem treeFindNode_eq {cmp : β → α → Int} {target : β} {k : κ}
    (compares : ∀ y, shift (cmp target y) = shiftOf (compare k (key y))) {t : BinaryTree α}
    (h : Hangs m .root t) (sorted : Sorted key t) {fuel : Nat} (enough : t.height < fuel) :
    treeFindNode cmp fuel m target = some (search key k t) := by
  have rootPlace : Hangs m (Place.ofLast none .parent) t := h
  have top : m.root = t.top := h.load_eq
  obtain ⟨last', arm', walk⟩ := find_search compares rootPlace sorted fuel enough
  rw [treeFindNode, findNodeLoop_eq_find cmp m.nodes target fuel m.root none .parent, top, walk]
  rfl

end ends

variable [DecidableEq α]

section walk

variable {m : TreeMem α}

theorem climb_right {x : α} : ∀ {place : Place α} {t : BinaryTree α}, Hangs m place t →
    t.inorder.Nodup → x ∈ t.inorder → (m.nodes x).right = none →
    ∃ k < t.height, ∀ fuel, climb m.nodes .right (fuel + k + 1) x =
      (nextIn t.inorder x).elim (climbAt m.nodes .right fuel place) (some ∘ some)
  | _, .nil, _, _, mem, _ => absurd mem List.not_mem_nil
  | place, .node a l r, h, nodup, mem, noRight => by
    obtain ⟨-, placed, hangsL, hangsR⟩ := h
    rw [inorder_node, List.nodup_append, List.nodup_cons] at nodup
    obtain ⟨nodupL, ⟨aNotR, nodupR⟩, apart⟩ := nodup
    rw [inorder_node]
    rcases List.mem_append.mp mem with inL | inAR
    · -- in the left subtree: leaving it through the left link of `a` stops at `a`
      obtain ⟨k, below, climbs⟩ := climb_right hangsL nodupL inL noRight
      refine ⟨k, by simp only [height]; omega, fun fuel => ?_⟩
      rw [climbs, nextIn_append_of_mem inL]
      cases nextIn l.inorder x <;> simp [climbAt]
    have xNotL : x ∉ l.inorder := fun inL => apart x inL x inAR rfl
    rw [nextIn_append_of_not_mem xNotL]
    rcases List.mem_cons.mp inAR with rfl | inR
    · -- at the root of `t`, which then has no right subtree
      have rNil : r = nil := top_eq_none_iff.mp (by rw [← hangsR.load_eq]; exact noRight)
      subst rNil
      refine ⟨0, by simp [height], fun fuel => ?_⟩
      rw [nextIn_cons_self, climb_succ]
      exact congrArg (climbAt m.nodes .right fuel) placed
    · -- in the right subtree: leaving it through the right link of `a` climbs on from `a`
      have differ : a ≠ x := fun same => aNotR (same ▸ inR)
      obtain ⟨k, below, climbs⟩ := climb_right hangsR nodupR inR noRight
      rw [nextIn_cons_of_ne differ]
      cases next : nextIn r.inorder x with
      | some y =>
        refine ⟨k, by simp only [height]; omega, fun fuel => ?_⟩
        rw [climbs, next]
        rfl
      | none =>
        refine ⟨k + 1, by simp only [height]; omega, fun fuel => ?_⟩
        rw [show fuel + (k + 1) + 1 = fuel + 1 + k + 1 by omega, climbs, next]
        simp only [Option.elim_none, climbAt, if_true]
        rw [climb_succ]
        exact congrArg (climbAt m.nodes .right fuel) placed

theorem treeNextNode_eq {t : BinaryTree α} (h : Hangs m .root t) (nodup : t.inorder.Nodup)
    {x : α} (mem : x ∈ t.inorder) {fuel : Nat} (enough : t.height < fuel) :
    treeNextNode m.nodes fuel (some x) = some (nextIn t.inorder x) := by
  obtain ⟨l, r, found⟩ := subtree_of_mem mem
  obtain ⟨-, right⟩ := h.links_of_subtree found
  cases r with
  | nil =>
    -- no right child: `sibling` climbs, and leaves the whole tree only from its last node
    obtain ⟨k, below, climbs⟩ := climb_right h nodup mem right
    obtain ⟨f, rfl⟩ : ∃ f, fuel = f + k + 1 := ⟨fuel - k - 1, by omega⟩
    simp only [treeNextNode, sibling, TreeNode.links_right, right, top_nil]
    rw [climbs]
    cases nextIn t.inorder x <;> rfl
  | node c rl rr =>
    -- a right child: `sibling` follows its left links down
    have hangsR : Hangs m (.link x .right) (.node c rl rr) := (h.of_subtree found).2.2.2
    have highR : (BinaryTree.node c rl rr).height < fuel := by
      have within := height_of_subtree found
      simp only [height] at within ⊢
      omega
    rw [nextIn_of_subtree nodup found (by simp)]
    simp only [treeNextNode, sibling, TreeNode.links_right, right, top_node, opposite, follow]
    rw [followFrom_left_eq hangsR fuel highR]
    simp

theorem treePrevNode_eq {t : BinaryTree α} (h : Hangs m .root t) (nodup : t.inorder.Nodup)
    {x : α} (mem : x ∈ t.inorder) {fuel : Nat} (enough : t.height < fuel) :
    treePrevNode m.nodes fuel (some x) = some (nextIn t.inorder.reverse x) := by
  have mirrored := treeNextNode_eq h.mirror (by simpa using nodup) (by simpa using mem)
    (by simpa using enough)
  rw [inorder_mirror] at mirrored
  rw [treePrevNode_eq_mirror]
  exact mirrored

theorem traverseLoop_of_suffix {nodes : α → TreeNode α} {fuel : Nat} {L : List α}
    (nodup : L.Nodup) (next : ∀ y ∈ L, treeNextNode nodes fuel (some y) = some (nextIn L y)) :
    ∀ {s : List α} {rounds : Nat}, s <:+ L → s.length < rounds →
      traverseLoop nodes fuel rounds s.head? = some s
  | _, 0, _, long => absurd long (Nat.not_lt_zero _)
  | [], _ + 1, _, _ => rfl
  | p :: rest, rounds + 1, ⟨pre, split⟩, long => by
    have pNotPre : p ∉ pre := by
      rw [← split] at nodup
      exact fun inPre => (List.nodup_append.mp nodup).2.2 p inPre p List.mem_cons_self rfl
    have step : treeNextNode nodes fuel (some p) = some rest.head? := by
      rw [next p (split ▸ List.mem_append_right pre List.mem_cons_self), ← split,
        nextIn_append_of_not_mem pNotPre, nextIn_cons_self]
    have below : rest.length < rounds := by
      simp only [List.length_cons] at long
      omega
    simp only [List.head?_cons, traverseLoop, step]
    rw [traverseLoop_of_suffix nodup next ((List.suffix_cons p rest).trans ⟨pre, split⟩) below]
    rfl

theorem treeTraverse_eq {t : BinaryTree α} (h : Hangs m .root t) (nodup : t.inorder.Nodup)
    {fuel : Nat} (enough : t.numNodes < fuel) : treeTraverse fuel m = some t.inorder := by
  have high : t.height < fuel := lt_of_le_of_lt (height_le_numNodes t) enough
  simp only [treeTraverse, treeFirstNode_root h high]
  exact traverseLoop_of_suffix nodup (fun y mem => treeNextNode_eq h nodup mem high)
    (List.suffix_refl _) (by rw [length_inorder]; exact enough)

end walk

end MicroSegment.Dp
