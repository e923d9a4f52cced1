import Mathlib
import MicroSegment.Lib.SearchTree
import MicroSegment.Dp.Tree

/-!
# The linked tree and the search tree it stands for

`Hangs m place t`: the abstract tree `t` hangs in memory `m` from the link `place`. The link points
to the root of `t`, the root's parent and arm name that link back, and the two subtrees hang
from the root's left and right links. A tree that hangs from the root of the `tree_t`, is
sorted by a key that `cmp` compares, and has `count` nodes is a `TreeInv`.

`Hangs` reads only the link at `place` and the records of the nodes of `t`, so it survives any
write elsewhere (`Hangs.congr`); the updates below each change the records of a few nodes, and
their proofs follow the path from the root to those nodes.
-/

namespace MicroSegment.Dp

open BinaryTree

variable {α β κ : Type}

/-- The tree `t` hangs from the link `place` of memory `m`. -/
def Hangs (m : TreeMem α) : Place α → BinaryTree α → Prop
  | place, .nil => m.load place = none
  | place, .node a l r => m.load place = some a ∧ m.placeOf a = place ∧
      Hangs m (.link a .left) l ∧ Hangs m (.link a .right) r

def shiftOf : Ordering → Arm
  | .lt => .left
  | .eq => .parent
  | .gt => .right

/-- The representation invariant of a `tree_t`: it holds the sorted tree `t`, and counts it. -/
structure TreeInv [LinearOrder κ] (key : α → κ) (m : TreeMem α) (t : BinaryTree α) : Prop where
  hangs : Hangs m .root t
  sorted : Sorted key t
  count : m.count = t.numNodes

section hangs

variable {m m' : TreeMem α}

@[simp] theorem hangs_nil {place : Place α} : Hangs m place .nil ↔ m.load place = none := Iff.rfl

@[simp] theorem hangs_node {place : Place α} {a : α} {l r : BinaryTree α} :
    Hangs m place (.node a l r) ↔ m.load place = some a ∧ m.placeOf a = place ∧
      Hangs m (.link a .left) l ∧ Hangs m (.link a .right) r := Iff.rfl

theorem Hangs.load_eq : ∀ {place : Place α} {t : BinaryTree α}, Hangs m place t → m.load place = t.top
  | _, .nil, h => h
  | _, .node _ _ _, h => h.1

theorem placeOf_congr {a : α} (same : m'.nodes a = m.nodes a) : m'.placeOf a = m.placeOf a := by
  simp [TreeMem.placeOf, same]

/-- A tree hangs as before when its link and the records of its nodes are as before. -/
theorem Hangs.congr : ∀ {place : Place α} {t : BinaryTree α}, Hangs m place t →
    (∀ y ∈ t.inorder, m'.nodes y = m.nodes y) → m'.load place = m.load place → Hangs m' place t
  | _, .nil, h, _, load => load.trans h
  | _, .node a l r, ⟨top, up, left, right⟩, same, load => by
    have record := same a (by simp)
    refine ⟨load.trans top, (placeOf_congr record).trans up, left.congr ?_ ?_, right.congr ?_ ?_⟩
    · intro y mem
      exact same y (by simp [mem])
    · simp [TreeMem.load, record]
    · intro y mem
      exact same y (by simp [mem])
    · simp [TreeMem.load, record]

theorem Hangs.node_left {place : Place α} {a : α} {l l' r : BinaryTree α}
    (h : Hangs m place (.node a l r)) (left : Hangs m' (.link a .left) l')
    (load : m'.load place = m.load place) (up : m'.placeOf a = m.placeOf a)
    (rightLink : (m'.nodes a).right = (m.nodes a).right)
    (rightNodes : ∀ y ∈ r.inorder, m'.nodes y = m.nodes y) : Hangs m' place (.node a l' r) := by
  obtain ⟨top, placed, -, right⟩ := h
  refine ⟨load.trans top, up.trans placed, left, right.congr rightNodes ?_⟩
  simpa [TreeMem.load] using rightLink

theorem Hangs.node_right {place : Place α} {a : α} {l r r' : BinaryTree α}
    (h : Hangs m place (.node a l r)) (right : Hangs m' (.link a .right) r')
    (load : m'.load place = m.load place) (up : m'.placeOf a = m.placeOf a)
    (leftLink : (m'.nodes a).left = (m.nodes a).left)
    (leftNodes : ∀ y ∈ l.inorder, m'.nodes y = m.nodes y) : Hangs m' place (.node a l r') := by
  obtain ⟨top, placed, left, -⟩ := h
  refine ⟨load.trans top, up.trans placed, left.congr leftNodes ?_, right⟩
  simpa [TreeMem.load] using leftLink

theorem placeOf_eq_link_iff {x p : α} {d : Arm} :
    m.placeOf x = .link p d ↔ (m.nodes x).parent = some p ∧ (m.nodes x).arm = d := by
  unfold TreeMem.placeOf
  cases (m.nodes x).parent with
  | none => simp [Place.ofLast]
  | some q => simp [Place.ofLast]

theorem Hangs.reroot {place place' : Place α} {c : α} {l r : BinaryTree α}
    (h : Hangs m place (.node c l r)) (load : m'.load place' = some c) (up : m'.placeOf c = place')
    (leftLink : (m'.nodes c).left = (m.nodes c).left)
    (rightLink : (m'.nodes c).right = (m.nodes c).right)
    (leftNodes : ∀ y ∈ l.inorder, m'.nodes y = m.nodes y)
    (rightNodes : ∀ y ∈ r.inorder, m'.nodes y = m.nodes y) : Hangs m' place' (.node c l r) := by
  obtain ⟨-, -, left, right⟩ := h
  refine ⟨load, up, left.congr leftNodes ?_, right.congr rightNodes ?_⟩
  · simpa [TreeMem.load] using leftLink
  · simpa [TreeMem.load] using rightLink

theorem Hangs.of_subtree [DecidableEq α] {x : α} : ∀ {place : Place α} {t s : BinaryTree α},
    Hangs m place t → BinaryTree.subtree x t = some s → Hangs m (m.placeOf x) s
  | _, .nil, _, _, found => by simp [BinaryTree.subtree] at found
  | place, .node a l r, s, h, found => by
    obtain ⟨top, placed, left, right⟩ := h
    unfold BinaryTree.subtree at found
    split_ifs at found with root
    · obtain rfl := Option.some.inj found
      subst root
      rw [placed]
      exact ⟨top, placed, left, right⟩
    cases inLeft : BinaryTree.subtree x l with
    | none =>
      rw [inLeft, Option.none_or] at found
      exact right.of_subtree found
    | some s' =>
      rw [inLeft, Option.some_or] at found
      exact left.of_subtree (inLeft.trans found)

theorem Hangs.links_of_subtree [DecidableEq α] {place : Place α} {t l r : BinaryTree α} {x : α}
    (h : Hangs m place t) (found : BinaryTree.subtree x t = some (.node x l r)) :
    (m.nodes x).left = l.top ∧ (m.nodes x).right = r.top := by
  obtain ⟨-, -, left, right⟩ := h.of_subtree found
  exact ⟨left.load_eq, right.load_eq⟩

theorem TreeInv.withCount [LinearOrder κ] {key : α → κ} {t : BinaryTree α}
    (hangs : Hangs m .root t) (sorted : Sorted key t) {c : Nat} (count : c = t.numNodes) :
    TreeInv key { m with count := c } t :=
  ⟨hangs.congr (fun _ _ => rfl) rfl, sorted, count⟩

theorem Hangs.child_mem [DecidableEq α] {place : Place α} {t : BinaryTree α} {x c : α}
    (h : Hangs m place t) (mem : x ∈ t.inorder)
    (child : (m.nodes x).left = some c ∨ (m.nodes x).right = some c) : c ∈ t.inorder := by
  obtain ⟨l, r, found⟩ := subtree_of_mem mem
  obtain ⟨before, after, split⟩ := inorder_of_subtree found
  obtain ⟨left, right⟩ := h.links_of_subtree found
  rw [split]
  rcases child with isLeft | isRight
  · have inL := mem_of_top (left.symm.trans isLeft)
    simp [inL]
  · have inR := mem_of_top (right.symm.trans isRight)
    simp [inR]

end hangs

section follow

variable {m : TreeMem α}

theorem followFrom_right_eq : ∀ {place : Place α} {a : α} {l r : BinaryTree α},
    Hangs m place (.node a l r) → ∀ fuel, (BinaryTree.node a l r).height < fuel →
      followFrom m.nodes .right fuel a = (BinaryTree.node a l r).inorder.getLast?
  | _, _, _, .nil, h, fuel + 1, _ => by
    have none : (m.nodes _).right = none := h.2.2.2
    simp [followFrom, none]
  | _, a, l, .node b rl rr, h, fuel + 1, enough => by
    have link : (m.nodes a).right = some b := h.2.2.2.1
    have below : (BinaryTree.node b rl rr).height < fuel := by
      simp only [height] at enough ⊢
      omega
    simp only [followFrom, TreeNode.links_right, link]
    rw [followFrom_right_eq h.2.2.2 fuel below, getLast?_inorder_node a l]
    cases last : (BinaryTree.node b rl rr).inorder.getLast? with
    | none => simp at last
    | some y => rfl

theorem followFrom_left_eq : ∀ {place : Place α} {a : α} {l r : BinaryTree α},
    Hangs m place (.node a l r) → ∀ fuel, (BinaryTree.node a l r).height < fuel →
      followFrom m.nodes .left fuel a = (BinaryTree.node a l r).inorder.head?
  | _, _, .nil, _, h, fuel + 1, _ => by
    have none : (m.nodes _).left = none := h.2.2.1
    simp [followFrom, none]
  | _, a, .node b ll lr, r, h, fuel + 1, enough => by
    have link : (m.nodes a).left = some b := h.2.2.1.1
    have below : (BinaryTree.node b ll lr).height < fuel := by
      simp only [height] at enough ⊢
      omega
    simp only [followFrom, TreeNode.links_left, link]
    rw [followFrom_left_eq h.2.2.1 fuel below, head?_inorder_node a _ r]
    cases first : (BinaryTree.node b ll lr).inorder.head? with
    | none => simp at first
    | some y => rfl

theorem links_of_followFrom {arm : Arm} : ∀ {fuel : Nat} {a p : α},
    followFrom m.nodes arm fuel a = some p → (m.nodes p).links arm = none
  | 0, _, _, stopped => by cases stopped
  | fuel + 1, a, p, stopped => by
    unfold followFrom at stopped
    cases link : (m.nodes a).links arm with
    | none =>
      rw [link] at stopped
      obtain rfl := Option.some.inj stopped
      exact link
    | some next =>
      rw [link] at stopped
      exact links_of_followFrom stopped

theorem treePrevNode_of_left {place : Place α} {x c : α} {ll lr r : BinaryTree α}
    (h : Hangs m place (.node x (.node c ll lr) r)) (fuel : Nat)
    (enough : (BinaryTree.node c ll lr).height < fuel) :
    treePrevNode m.nodes fuel (some x) =
      (followFrom m.nodes .right fuel c).map some ∧
    followFrom m.nodes .right fuel c = (BinaryTree.node c ll lr).inorder.getLast? := by
  have link : (m.nodes x).left = some c := h.2.2.1.1
  refine ⟨?_, followFrom_right_eq h.2.2.1 fuel enough⟩
  simp [treePrevNode, sibling, link, follow, opposite]

end follow

/-! ### The search -/

section search

variable [LinearOrder κ] {m : TreeMem α} {key : α → κ}

theorem find_search {cmp : β → α → Int} {target : β} {k : κ}
    (compares : ∀ y, shift (cmp target y) = shiftOf (compare k (key y))) :
    ∀ {t : BinaryTree α} {last : Option α} {arm : Arm}, Hangs m (Place.ofLast last arm) t →
      Sorted key t → ∀ fuel, t.height < fuel →
        ∃ last' arm', find cmp m.nodes target fuel t.top last arm =
          some (search key k t, last', arm')
  | .nil, last, arm, _, _, fuel + 1, _ => ⟨last, arm, rfl⟩
  | .node a l r, last, arm, h, sorted, fuel + 1, enough => by
    obtain ⟨left, right, -, -⟩ := sorted_node_iff.mp sorted
    obtain ⟨-, -, hangsL, hangsR⟩ := h
    have belowL : l.height < fuel := by simp only [height] at enough; omega
    have belowR : r.height < fuel := by simp only [height] at enough; omega
    simp only [top_node, find, compares, search]
    cases order : compare k (key a) with
    | lt =>
      have lt : k < key a := compare_lt_iff_lt.mp order
      rw [if_pos lt]
      simp only [shiftOf, reduceCtorEq, if_false, TreeNode.links_left]
      rw [show (m.nodes a).left = l.top from hangsL.load_eq]
      have below : Hangs m (Place.ofLast (some a) .left) l := hangsL
      exact find_search compares below left fuel belowL
    | eq =>
      have same : k = key a := compare_eq_iff_eq.mp order
      simp [shiftOf, same]
    | gt =>
      have gt : key a < k := compare_gt_iff_gt.mp order
      rw [if_neg (not_lt.mpr gt.le), if_pos gt]
      simp only [shiftOf, reduceCtorEq, if_false, TreeNode.links_right]
      rw [show (m.nodes a).right = r.top from hangsR.load_eq]
      have below : Hangs m (Place.ofLast (some a) .right) r := hangsR
      exact find_search compares below right fuel belowR

end search

/-! ### Insertion -/

section link

variable [DecidableEq α] {m : TreeMem α} {last : Option α} {arm : Arm} {node : α}

theorem load_linkNode_of_ne {q : Place α} (notNode : q.owner ≠ some node)
    (differ : q ≠ Place.ofLast last arm) : (linkNode m last arm node).load q = m.load q := by
  cases last with
  | none =>
    cases q with
    | root => exact absurd rfl differ
    | link p d => rfl
  | some p =>
    cases q with
    | root => rfl
    | link o d =>
      have other : o ≠ node := fun same => notNode (by rw [same]; rfl)
      have stored := m.load_store_of_ne (some node) (Ne.symm differ)
      simp only [linkNode, TreeMem.load, TreeMem.nodes_setNode, Function.update_of_ne other]
      exact stored

theorem nodes_linkNode_of_ne {y : α} (notNode : y ≠ node) (notLast : last ≠ some y) :
    (linkNode m last arm node).nodes y = m.nodes y := by
  cases last with
  | none => rfl
  | some p =>
    have other : (Place.link p arm).owner ≠ some y := notLast
    simp only [linkNode, TreeMem.nodes_setNode, Function.update_of_ne notNode]
    exact m.nodes_store_of_ne _ other

theorem nodes_linkNode_last {p : α} (differ : p ≠ node) :
    (linkNode m (some p) arm node).nodes p = (m.nodes p).setLink arm (some node) := by
  simp only [linkNode, TreeMem.nodes_setNode, Function.update_of_ne differ,
    TreeMem.nodes_store_link]

theorem placeOf_linkNode_of_ne {y : α} (notNode : y ≠ node) (notParent : arm ≠ .parent) :
    (linkNode m last arm node).placeOf y = m.placeOf y := by
  by_cases atY : last = some y
  · subst atY
    have record : (linkNode m (some y) arm node).nodes y = (m.nodes y).setLink arm (some node) :=
      nodes_linkNode_last notNode
    simp [TreeMem.placeOf, record, TreeNode.parent_setLink_of_ne _ _ notParent]
  · exact placeOf_congr (nodes_linkNode_of_ne notNode atY)

theorem hangs_linkNode_self (notSelf : last ≠ some node) (leaf : (m.nodes node).left = none)
    (leaf' : (m.nodes node).right = none) (orphan : (m.nodes node).parent = none) :
    Hangs (linkNode m last arm node) (Place.ofLast last arm) (.node node .nil .nil) := by
  cases last with
  | none =>
    simp [linkNode, Place.ofLast, TreeMem.load, TreeMem.placeOf, leaf, leaf', orphan]
  | some p =>
    have differ : p ≠ node := fun same => notSelf (by rw [same])
    simp [linkNode, Place.ofLast, TreeMem.load, TreeMem.placeOf, Function.update_of_ne differ,
      TreeMem.nodes_store_of_ne _ _ (show (Place.link p arm).owner ≠ some node by
        simpa [Place.owner] using differ), leaf, leaf']

end link

section insert

variable [DecidableEq α] [LinearOrder κ] {m : TreeMem α} {key : α → κ}

theorem find_link {cmp : α → α → Int} {b : α}
    (compares : ∀ y, shift (cmp b y) = shiftOf (compare (key b) (key y)))
    (leaf : (m.nodes b).left = none) (leaf' : (m.nodes b).right = none)
    (orphan : (m.nodes b).parent = none) :
    ∀ {t : BinaryTree α} {last : Option α} {arm : Arm}, Hangs m (Place.ofLast last arm) t →
      Sorted key t → b ∉ t.inorder → (∀ p, last = some p → p ∉ t.inorder ∧ p ≠ b ∧ arm ≠ .parent) →
      search key (key b) t = none → ∀ fuel, t.height < fuel →
        ∃ t' last' arm', insertKey key b t = some t' ∧
          find cmp m.nodes b fuel t.top last arm = some (none, last', arm') ∧
          Hangs (linkNode m last' arm' b) (Place.ofLast last arm) t' ∧
          ((last' = last ∧ arm' = arm) ∨ ∃ y ∈ t.inorder, last' = some y ∧ arm' ≠ .parent)
  | .nil, last, arm, _, _, _, above, _, fuel + 1, _ => by
    have notSelf : last ≠ some b := fun same => (above b same).2.1 rfl
    exact ⟨_, last, arm, rfl, rfl, hangs_linkNode_self notSelf leaf leaf' orphan, .inl ⟨rfl, rfl⟩⟩
  | .node a l r, last, arm, h, sorted, fresh, above, absent, fuel + 1, enough => by
    obtain ⟨sortedL, sortedR, below, beyond⟩ := sorted_node_iff.mp sorted
    have nodup := sorted.nodup
    simp only [inorder_node, List.nodup_append, List.nodup_cons, List.mem_cons] at nodup
    obtain ⟨-, ⟨aNotR, -⟩, apart⟩ := nodup
    have aNotL : a ∉ l.inorder := fun mem => apart a mem a (.inl rfl) rfl
    have ab : a ≠ b := fun same => fresh (by simp [same])
    have freshL : b ∉ l.inorder := fun mem => fresh (by simp [mem])
    have freshR : b ∉ r.inorder := fun mem => fresh (by simp [mem])
    have belowL : l.height < fuel := by simp only [height] at enough; omega
    have belowR : r.height < fuel := by simp only [height] at enough; omega
    -- the link the search started from is not below `a`, nor a link of `b`
    have outside : ∀ y ∈ (BinaryTree.node a l r).inorder, ∀ d,
        Place.ofLast last arm ≠ Place.link y d := by
      intro y mem d same
      cases last with
      | none => cases same
      | some p =>
        obtain rfl : p = y := by cases same; rfl
        exact (above p rfl).1 mem
    have notB : (Place.ofLast last arm).owner ≠ some b := by
      cases last with
      | none => simp [Place.ofLast, Place.owner]
      | some p => simpa [Place.ofLast, Place.owner] using (above p rfl).2.1
    obtain ⟨top, placed, hangsL, hangsR⟩ := h
    simp only [top_node, find, compares, search] at absent ⊢
    cases order : compare (key b) (key a) with
    | lt =>
      have lt : key b < key a := compare_lt_iff_lt.mp order
      rw [if_pos lt] at absent
      have hangsL' : Hangs m (Place.ofLast (some a) .left) l := hangsL
      obtain ⟨l', last', arm', made, found, hangs', at'⟩ := find_link compares leaf leaf' orphan
        hangsL' sortedL freshL (fun p same => by cases same; exact ⟨aNotL, ab, by decide⟩) absent
        fuel belowL
      -- where `b` was linked: at `a`'s left link or below it
      have atL : ∃ y, last' = some y ∧ (y = a ∨ y ∈ l.inorder) ∧ arm' ≠ .parent ∧
          (y = a → arm' = .left) := by
        rcases at' with ⟨rfl, rfl⟩ | ⟨y, mem, rfl, notParent⟩
        · exact ⟨a, rfl, .inl rfl, by decide, fun _ => rfl⟩
        · exact ⟨y, rfl, .inr mem, notParent, fun same => absurd (same ▸ mem) aNotL⟩
      obtain ⟨y, rfl, yIn, notParent, yArm⟩ := atL
      have yInT : y ∈ (BinaryTree.node a l r).inorder := by
        rcases yIn with rfl | mem <;> simp [*]
      refine ⟨.node a l' r, some y, arm', ?_, ?_, ?_, .inr ⟨y, yInT, rfl, notParent⟩⟩
      · simp [insertKey, lt, made]
      · simp only [shiftOf, reduceCtorEq, if_false, TreeNode.links_left]
        rw [show (m.nodes a).left = l.top from hangsL.load_eq]
        exact found
      · refine Hangs.node_left ⟨top, placed, hangsL, hangsR⟩ hangs' ?_ ?_ ?_ ?_
        · exact load_linkNode_of_ne notB (outside y yInT arm')
        · exact placeOf_linkNode_of_ne ab notParent
        · by_cases atA : y = a
          · subst atA
            rw [nodes_linkNode_last ab, yArm rfl]
            rfl
          · rw [nodes_linkNode_of_ne ab (fun same => atA (Option.some.inj same))]
        · intro z mem
          have zb : z ≠ b := fun same => freshR (same ▸ mem)
          refine nodes_linkNode_of_ne zb fun same => ?_
          obtain rfl := Option.some.inj same
          rcases yIn with rfl | inL
          · exact aNotR mem
          · exact apart y inL y (.inr mem) rfl
    | eq =>
      have same : key b = key a := compare_eq_iff_eq.mp order
      simp [same] at absent
    | gt =>
      have gt : key a < key b := compare_gt_iff_gt.mp order
      rw [if_neg (not_lt.mpr gt.le), if_pos gt] at absent
      have hangsR' : Hangs m (Place.ofLast (some a) .right) r := hangsR
      obtain ⟨r', last', arm', made, found, hangs', at'⟩ := find_link compares leaf leaf' orphan
        hangsR' sortedR freshR (fun p same => by cases same; exact ⟨aNotR, ab, by decide⟩) absent
        fuel belowR
      have atR : ∃ y, last' = some y ∧ (y = a ∨ y ∈ r.inorder) ∧ arm' ≠ .parent ∧
          (y = a → arm' = .right) := by
        rcases at' with ⟨rfl, rfl⟩ | ⟨y, mem, rfl, notParent⟩
        · exact ⟨a, rfl, .inl rfl, by decide, fun _ => rfl⟩
        · exact ⟨y, rfl, .inr mem, notParent, fun same => absurd (same ▸ mem) aNotR⟩
      obtain ⟨y, rfl, yIn, notParent, yArm⟩ := atR
      have yInT : y ∈ (BinaryTree.node a l r).inorder := by
        rcases yIn with rfl | mem <;> simp [*]
      refine ⟨.node a l r', some y, arm', ?_, ?_, ?_, .inr ⟨y, yInT, rfl, notParent⟩⟩
      · simp [insertKey, not_lt.mpr gt.le, gt, made]
      · simp only [shiftOf, reduceCtorEq, if_false, TreeNode.links_right]
        rw [show (m.nodes a).right = r.top from hangsR.load_eq]
        exact found
      · refine Hangs.node_right ⟨top, placed, hangsL, hangsR⟩ hangs' ?_ ?_ ?_ ?_
        · exact load_linkNode_of_ne notB (outside y yInT arm')
        · exact placeOf_linkNode_of_ne ab notParent
        · by_cases atA : y = a
          · subst atA
            rw [nodes_linkNode_last ab, yArm rfl]
            rfl
          · rw [nodes_linkNode_of_ne ab (fun same => atA (Option.some.inj same))]
        · intro z mem
          have zb : z ≠ b := fun same => freshL (same ▸ mem)
          refine nodes_linkNode_of_ne zb fun same => ?_
          obtain rfl := Option.some.inj same
          rcases yIn with rfl | inR
          · exact aNotL mem
          · exact apart y mem y (.inr inR) rfl

theorem count_linkNode (m : TreeMem α) (last : Option α) (arm : Arm) (node : α) :
    (linkNode m last arm node).count = m.count := by
  cases last <;> simp [linkNode]

theorem treeInsertNode_refines {cmp : α → α → Int}
    (compares : ∀ x y, shift (cmp x y) = shiftOf (compare (key x) (key y)))
    {t : BinaryTree α} (inv : TreeInv key m t) {b : α} (fresh : b ∉ t.inorder) {fuel : Nat}
    (enough : m.count < fuel) :
    ∃ r m' t', treeInsertNode cmp fuel m b = some (r, m') ∧ TreeInv key m' t' ∧
      ((r = none ∧ (∃ y ∈ t.inorder, key y = key b) ∧ t' = t) ∨
        (r = some b ∧ insertSorted key b t.inorder = some t'.inorder)) := by
  obtain ⟨hangs, sorted, counted⟩ := inv
  -- `tree_init_node` clears the links of `b`, which is not in the tree
  set m₁ := m.setNode b TreeNode.init with blank
  have hangs₁ : Hangs m₁ .root t := by
    refine hangs.congr (fun y mem => ?_) rfl
    have differ : y ≠ b := fun same => fresh (same ▸ mem)
    simp [m₁, Function.update_of_ne differ]
  have record : m₁.nodes b = TreeNode.init := by simp [m₁]
  have top : m₁.root = t.top := hangs₁.load_eq
  have high : t.height < fuel :=
    lt_of_le_of_lt (height_le_numNodes t) (counted ▸ enough)
  have rootPlace : Hangs m₁ (Place.ofLast none .parent) t := hangs₁
  cases found : search key (key b) t with
  | some y =>
    obtain ⟨last', arm', walk⟩ := find_search (compares b) rootPlace sorted fuel high
    rw [found] at walk
    refine ⟨none, m₁, t, ?_, TreeInv.withCount hangs₁ sorted counted, .inl ⟨rfl, ?_, rfl⟩⟩
    · simp only [treeInsertNode]
      rw [← blank, top, walk]
    · obtain ⟨mem, same⟩ := search_eq_some found
      exact ⟨y, mem, same⟩
  | none =>
    obtain ⟨t', last', arm', made, walk, hangs', -⟩ := find_link (compares b)
      (by simp [record, TreeNode.init]) (by simp [record, TreeNode.init])
      (by simp [record, TreeNode.init]) rootPlace sorted fresh (fun p same => by cases same)
      found fuel high
    have listed : insertSorted key b t.inorder = some t'.inorder := by
      rw [← inorder_insertKey sorted, made, Option.map_some]
    set m' := linkNode m₁ last' arm' b
    refine ⟨some b, { m' with count := m'.count + 1 }, t', ?_,
      TreeInv.withCount hangs' (insertKey_sorted sorted made) ?_, .inr ⟨rfl, listed⟩⟩
    · simp only [treeInsertNode]
      rw [← blank, top, walk]
    · rw [count_linkNode, numNodes_of_insertSorted listed, ← counted]
      rfl

end insert

end MicroSegment.Dp
