import Mathlib
import MicroSegment.Lib.SearchTree
import MicroSegment.Dp.Tree
import MicroSegment.Dp.TreeShape

/-!
# `tree_remove_node` erases the node from the in-order list

`replace m pp new old` puts `new` in the place of `old`: for a tree that hangs in `m`, holds
`old` and not `new`, the memory afterwards holds the same tree with `old` renamed to `new`
(`hangs_replace`). `swap` is three such renamings through the stack node `px`, which together
exchange two nodes (`hangs_swap`). After the swap with its predecessor, the node to remove has at
most one child, and `unlinkNode` gives its place to that child (`hangs_unlinkNode`), which erases
it from the in-order list.

Each update writes a few records; the `ReplaceSafe` and `UnlinkSafe` conditions say that those
records are distinct and that no later read of the update sees an earlier write. They follow
from the tree hanging in memory without repeated nodes.
-/

namespace MicroSegment.Dp

open BinaryTree

variable {α κ : Type}

/-- `c` is a child of the record: one of its two child links points to it. -/
def TreeNode.HasChild (n : TreeNode α) (c : α) : Prop := n.left = some c ∨ n.right = some c

theorem TreeNode.hasChild_of_or {n : TreeNode α} {c : α} (child : n.left.or n.right = some c) :
    n.HasChild c := by
  cases left : n.left with
  | none =>
    rw [left, Option.none_or] at child
    exact .inr child
  | some c' =>
    rw [left, Option.some_or] at child
    exact .inl (left.trans child)

theorem TreeNode.links_unlinkArm (n : TreeNode α) :
    n.links (if n.left.isSome then .left else .right) = n.left.or n.right := by
  cases left : n.left <;> simp [left]

section neighbours

variable {m : TreeMem α}

theorem Hangs.placeOf_mem {x : α} : ∀ {place : Place α} {t : BinaryTree α}, Hangs m place t →
    x ∈ t.inorder → m.placeOf x = place ∨ ∃ y ∈ t.inorder, (m.placeOf x).owner = some y
  | _, .nil, _, mem => absurd mem List.not_mem_nil
  | _, .node a l r, ⟨_, placed, left, right⟩, mem => by
    simp only [inorder_node, List.mem_append, List.mem_cons] at mem
    rcases mem with inLeft | rfl | inRight
    · rcases left.placeOf_mem inLeft with atA | ⟨y, mem, owner⟩
      · exact .inr ⟨a, by simp, by rw [atA]; rfl⟩
      · exact .inr ⟨y, by simp [mem], owner⟩
    · exact .inl placed
    · rcases right.placeOf_mem inRight with atA | ⟨y, mem, owner⟩
      · exact .inr ⟨a, by simp, by rw [atA]; rfl⟩
      · exact .inr ⟨y, by simp [mem], owner⟩

theorem Hangs.owner_not_mem [DecidableEq α] {x : α} : ∀ {place : Place α} {t s : BinaryTree α}, Hangs m place t →
    t.inorder.Nodup → (∀ p, place.owner = some p → p ∉ t.inorder) →
      BinaryTree.subtree x t = some s → ∀ p, (m.placeOf x).owner = some p → p ∉ s.inorder
  | _, .nil, _, _, _, _, found => by simp [BinaryTree.subtree] at found
  | place, .node a l r, s, ⟨_, placed, left, right⟩, nodup, outside, found => by
    simp only [inorder_node, List.nodup_append, List.nodup_cons, List.mem_cons] at nodup
    obtain ⟨nodupL, ⟨aNotR, nodupR⟩, apart⟩ := nodup
    unfold BinaryTree.subtree at found
    split_ifs at found with root
    · obtain rfl := Option.some.inj found
      subst root
      intro p owner
      rw [placed] at owner
      exact outside p owner
    cases inLeft : BinaryTree.subtree x l with
    | none =>
      rw [inLeft, Option.none_or] at found
      refine right.owner_not_mem nodupR ?_ found
      intro p owner inR
      obtain rfl := Option.some.inj owner
      exact aNotR inR
    | some s' =>
      rw [inLeft, Option.some_or] at found
      refine left.owner_not_mem nodupL ?_ (inLeft.trans found)
      intro p owner inL
      obtain rfl := Option.some.inj owner
      exact apart a inL a (.inl rfl) rfl

end neighbours

variable [DecidableEq α]

/-! ### `replace` -/


/-- What `replace m pp newNode oldNode` needs around `oldNode`: the records it writes are
distinct, and its later reads of `oldNode` do not see its earlier writes. -/
structure ReplaceSafe (m : TreeMem α) (pp : Place α) (newNode oldNode : α) : Prop where
  differ : oldNode ≠ newNode
  ownerOld : pp.owner ≠ some oldNode
  ownerNew : pp.owner ≠ some newNode
  leftOld : (m.nodes oldNode).left ≠ some oldNode
  leftNew : (m.nodes oldNode).left ≠ some newNode
  rightNew : (m.nodes oldNode).right ≠ some newNode
  ownerLeft : ∀ c, (m.nodes oldNode).left = some c → pp.owner ≠ some c
  ownerRight : ∀ c, (m.nodes oldNode).right = some c → pp.owner ≠ some c
  apart : ∀ c, (m.nodes oldNode).left = some c → (m.nodes oldNode).right ≠ some c

section replace

variable {m : TreeMem α} {pp : Place α} {newNode oldNode : α}

theorem replace_eq (safe : ReplaceSafe m pp newNode oldNode) :
    replace m pp newNode oldNode =
      reparent (reparent ((m.setNode newNode (m.nodes oldNode)).store pp (some newNode))
        (m.nodes oldNode).left newNode) (m.nodes oldNode).right newNode := by
  have copied : ((m.setNode newNode (m.nodes oldNode)).store pp (some newNode)).nodes oldNode =
      m.nodes oldNode := by
    rw [TreeMem.nodes_store_of_ne _ _ safe.ownerOld, TreeMem.nodes_setNode,
      Function.update_of_ne safe.differ]
  have kept : (reparent ((m.setNode newNode (m.nodes oldNode)).store pp (some newNode))
      (m.nodes oldNode).left newNode).nodes oldNode = m.nodes oldNode := by
    rw [nodes_reparent_of_ne _ _ safe.leftOld, copied]
  simp only [replace, copied, kept]

theorem nodes_replace_of_ne (safe : ReplaceSafe m pp newNode oldNode) {y : α}
    (notNew : y ≠ newNode) (notOwner : pp.owner ≠ some y)
    (notChild : ¬(m.nodes oldNode).HasChild y) :
    (replace m pp newNode oldNode).nodes y = m.nodes y := by
  have notLeft : (m.nodes oldNode).left ≠ some y := fun left => notChild (.inl left)
  have notRight : (m.nodes oldNode).right ≠ some y := fun right => notChild (.inr right)
  rw [replace_eq safe, nodes_reparent_of_ne _ _ notRight,
    nodes_reparent_of_ne _ _ notLeft, TreeMem.nodes_store_of_ne _ _ notOwner,
    TreeMem.nodes_setNode, Function.update_of_ne notNew]

theorem nodes_replace_new (safe : ReplaceSafe m pp newNode oldNode) :
    (replace m pp newNode oldNode).nodes newNode = m.nodes oldNode := by
  rw [replace_eq safe, nodes_reparent_of_ne _ _ safe.rightNew,
    nodes_reparent_of_ne _ _ safe.leftNew, TreeMem.nodes_store_of_ne _ _ safe.ownerNew,
    TreeMem.nodes_setNode, Function.update_self]

theorem nodes_replace_left (safe : ReplaceSafe m pp newNode oldNode) {c : α}
    (child : (m.nodes oldNode).left = some c) (notNew : c ≠ newNode) :
    (replace m pp newNode oldNode).nodes c = (m.nodes c).setLink .parent (some newNode) := by
  rw [replace_eq safe, nodes_reparent_of_ne _ _ (safe.apart c child), child,
    nodes_reparent_self, TreeMem.nodes_store_of_ne _ _ (safe.ownerLeft c child),
    TreeMem.nodes_setNode, Function.update_of_ne notNew]

theorem nodes_replace_right (safe : ReplaceSafe m pp newNode oldNode) {c : α}
    (child : (m.nodes oldNode).right = some c) (notNew : c ≠ newNode) :
    (replace m pp newNode oldNode).nodes c = (m.nodes c).setLink .parent (some newNode) := by
  have notLeft : (m.nodes oldNode).left ≠ some c := fun left => safe.apart c left child
  rw [replace_eq safe, child, nodes_reparent_self,
    nodes_reparent_of_ne _ _ notLeft,
    TreeMem.nodes_store_of_ne _ _ (safe.ownerRight c child), TreeMem.nodes_setNode,
    Function.update_of_ne notNew]

theorem nodes_replace_owner (safe : ReplaceSafe m pp newNode oldNode) {p : α} {d : Arm}
    (owner : pp = .link p d) (notNew : p ≠ newNode)
    (notLeft : (m.nodes oldNode).left ≠ some p) (notRight : (m.nodes oldNode).right ≠ some p) :
    (replace m pp newNode oldNode).nodes p = (m.nodes p).setLink d (some newNode) := by
  subst owner
  rw [replace_eq safe, nodes_reparent_of_ne _ _ notRight,
    nodes_reparent_of_ne _ _ notLeft, TreeMem.nodes_store_link, TreeMem.nodes_setNode,
    Function.update_of_ne notNew]

theorem load_replace_of_ne (safe : ReplaceSafe m pp newNode oldNode) {q : Place α}
    (differ : q ≠ pp) (notNew : q.owner ≠ some newNode)
    (notLeft : ∀ c, (m.nodes oldNode).left = some c → q ≠ .link c .parent)
    (notRight : ∀ c, (m.nodes oldNode).right = some c → q ≠ .link c .parent) :
    (replace m pp newNode oldNode).load q = m.load q := by
  rw [replace_eq safe, load_reparent_of_ne _ _ notRight,
    load_reparent_of_ne _ _ notLeft, TreeMem.load_store_of_ne _ _ (Ne.symm differ),
    TreeMem.load_setNode_of_ne _ _ notNew]

theorem load_replace_self (safe : ReplaceSafe m pp newNode oldNode) :
    (replace m pp newNode oldNode).load pp = some newNode := by
  have notChild : ∀ child : Option α, (∀ c, child = some c → pp.owner ≠ some c) →
      ∀ c, child = some c → pp ≠ .link c .parent := by
    intro child owner c same at'
    exact owner c same (by rw [at']; rfl)
  rw [replace_eq safe, load_reparent_of_ne _ _ (notChild _ safe.ownerRight),
    load_reparent_of_ne _ _ (notChild _ safe.ownerLeft), TreeMem.load_store_self]

theorem nodes_replace_child (safe : ReplaceSafe m pp newNode oldNode) {d : Arm} {c : α}
    (side : d ≠ .parent) (child : (m.nodes oldNode).links d = some c) (notNew : c ≠ newNode) :
    (replace m pp newNode oldNode).nodes c = (m.nodes c).setLink .parent (some newNode) := by
  cases d with
  | left => exact nodes_replace_left safe child notNew
  | parent => exact absurd rfl side
  | right => exact nodes_replace_right safe child notNew

theorem replace_ancestor (safe : ReplaceSafe m pp newNode oldNode) {a : α} {d : Arm}
    (side : d ≠ .parent) (notNew : a ≠ newNode) (notChild : ¬(m.nodes oldNode).HasChild a)
    (at' : pp = .link a d ∨ pp.owner ≠ some a) :
    (replace m pp newNode oldNode).placeOf a = m.placeOf a ∧
      ∀ e, e ≠ d → ((replace m pp newNode oldNode).nodes a).links e = (m.nodes a).links e := by
  rcases at' with atA | notOwner
  · have record := nodes_replace_owner safe atA notNew (fun left => notChild (.inl left))
      (fun right => notChild (.inr right))
    refine ⟨?_, fun e other => by rw [record, TreeNode.links_setLink_of_ne _ _ (Ne.symm other)]⟩
    simp [TreeMem.placeOf, record, TreeNode.parent_setLink_of_ne _ _ side]
  · have record := nodes_replace_of_ne safe notNew notOwner notChild
    exact ⟨placeOf_congr record, fun e _ => by rw [record]⟩

theorem hangs_replace_child (safe : ReplaceSafe m pp newNode oldNode) {d : Arm}
    (side : d ≠ .parent) : ∀ {s : BinaryTree α}, Hangs m (.link oldNode d) s → s.inorder.Nodup →
      (∀ y ∈ s.inorder, y ≠ newNode ∧ pp.owner ≠ some y) →
      (∀ y ∈ s.inorder, s.top ≠ some y → ¬(m.nodes oldNode).HasChild y) →
      Hangs (replace m pp newNode oldNode) (.link newNode d) s
  | .nil, h, _, _, _ => by
    show ((replace m pp newNode oldNode).nodes newNode).links d = none
    rw [nodes_replace_new safe]
    exact h
  | .node c sl sr, h, nodup, outside, below => by
    obtain ⟨cNew, -⟩ := outside c (by simp)
    have child : (m.nodes oldNode).links d = some c := h.1
    have record := nodes_replace_child safe side child cNew
    have armD : (m.nodes c).arm = d := (placeOf_eq_link_iff.mp h.2.1).2
    simp only [inorder_node, List.nodup_append, List.nodup_cons, List.mem_cons] at nodup
    obtain ⟨-, ⟨cNotR, -⟩, apart⟩ := nodup
    -- the nodes below `c` are no children of `oldNode` and keep their records
    have rest : ∀ y, y ∈ sl.inorder ∨ y ∈ sr.inorder →
        (replace m pp newNode oldNode).nodes y = m.nodes y := by
      intro y mem
      have inS : y ∈ (BinaryTree.node c sl sr).inorder := by
        rcases mem with inL | inR
        · simp [inL]
        · simp [inR]
      have notTop : (BinaryTree.node c sl sr).top ≠ some y := by
        intro same
        obtain rfl := Option.some.inj same
        rcases mem with inL | inR
        · exact apart c inL c (.inl rfl) rfl
        · exact cNotR inR
      exact nodes_replace_of_ne safe (outside y inS).1 (outside y inS).2 (below y inS notTop)
    refine h.reroot ?_ ?_ ?_ ?_ (fun y mem => rest y (.inl mem)) (fun y mem => rest y (.inr mem))
    · show ((replace m pp newNode oldNode).nodes newNode).links d = some c
      rw [nodes_replace_new safe]
      exact child
    · simp [TreeMem.placeOf, record, armD, Place.ofLast, TreeNode.setLink]
    · rw [record]
      rfl
    · rw [record]
      rfl

end replace

section relabel

variable {m : TreeMem α}

/-- `replace` renames `oldNode` to `newNode` in every tree that holds the first and not the
second. -/
theorem hangs_replace {oldNode newNode : α}
    (safe : ReplaceSafe m (m.placeOf oldNode) newNode oldNode) :
    ∀ {place : Place α} {t : BinaryTree α}, Hangs m place t → t.inorder.Nodup →
      oldNode ∈ t.inorder → newNode ∉ t.inorder →
      (∀ p, place.owner = some p → p ∉ t.inorder ∧ p ≠ newNode) →
      Hangs (replace m (m.placeOf oldNode) newNode oldNode) place
        (t.map (Equiv.swap oldNode newNode))
  | _, .nil, _, _, mem, _, _ => absurd mem List.not_mem_nil
  | place, .node a l r, ⟨top, placed, left, right⟩, nodup, mem, fresh, outside => by
    have nodup' := nodup
    simp only [inorder_node, List.nodup_append, List.nodup_cons, List.mem_cons] at nodup'
    obtain ⟨nodupL, ⟨aNotR, nodupR⟩, apart⟩ := nodup'
    have aNotL : a ∉ l.inorder := fun inL => apart a inL a (.inl rfl) rfl
    have freshL : newNode ∉ l.inorder := fun inL => fresh (by simp [inL])
    have freshR : newNode ∉ r.inorder := fun inR => fresh (by simp [inR])
    have aNew : a ≠ newNode := fun same => fresh (by simp [← same])
    -- nodes of the tree are not the owner of its link
    have notOwner : ∀ y ∈ (BinaryTree.node a l r).inorder, place.owner ≠ some y :=
      fun y inT owner => (outside y owner).1 inT
    have fixed : ∀ {s : BinaryTree α}, oldNode ∉ s.inorder → newNode ∉ s.inorder →
        s.map (Equiv.swap oldNode newNode) = s := fun notOld notNew =>
      map_eq_self fun y inS => Equiv.swap_apply_of_ne_of_ne (fun same => notOld (same ▸ inS))
        (fun same => notNew (same ▸ inS))
    by_cases root : a = oldNode
    · -- `oldNode` is the root: `newNode` takes its link and its children
      subst root
      have mapped : (BinaryTree.node a l r).map (Equiv.swap a newNode) = .node newNode l r := by
        simp only [map, Equiv.swap_apply_left, fixed aNotL freshL, fixed aNotR freshR]
      rw [mapped]
      have children : ∀ y, (m.nodes a).HasChild y → l.top = some y ∨ r.top = some y := by
        rintro y (isLeft | isRight)
        · exact .inl (left.load_eq.symm.trans isLeft)
        · exact .inr (right.load_eq.symm.trans isRight)
      refine ⟨?_, ?_, ?_, ?_⟩
      · rw [← placed]
        exact load_replace_self safe
      · have record := nodes_replace_new safe
        show Place.ofLast ((replace m (m.placeOf a) newNode a).nodes newNode).parent
          ((replace m (m.placeOf a) newNode a).nodes newNode).arm = place
        rw [record]
        exact placed
      · refine hangs_replace_child safe (by decide) left nodupL ?_ ?_
        · intro y inL
          exact ⟨fun same => freshL (same ▸ inL), placed ▸ notOwner y (by simp [inL])⟩
        · intro y inL notTop isChild
          rcases children y isChild with isTop | isTop
          · exact notTop isTop
          · exact apart y inL y (.inr (mem_of_top isTop)) rfl
      · refine hangs_replace_child safe (by decide) right nodupR ?_ ?_
        · intro y inR
          exact ⟨fun same => freshR (same ▸ inR), placed ▸ notOwner y (by simp [inR])⟩
        · intro y inR notTop isChild
          rcases children y isChild with isTop | isTop
          · exact apart y (mem_of_top isTop) y (.inr inR) rfl
          · exact notTop isTop
    -- `oldNode` is below the root, which keeps its record but for the link to that side
    have keepA : Equiv.swap oldNode newNode a = a := Equiv.swap_apply_of_ne_of_ne root aNew
    have notPlace : ∀ {q : Place α} {y : α}, y ∈ (BinaryTree.node a l r).inorder →
        q.owner = some y → place ≠ q := by
      intro q y inT owner same
      exact notOwner y inT (by rw [same]; exact owner)
    simp only [inorder_node, List.mem_append, List.mem_cons] at mem
    rcases mem with inL | isRoot | inR
    · have oldNotR : oldNode ∉ r.inorder := fun inR => apart oldNode inL oldNode (.inr inR) rfl
      have mapped : (BinaryTree.node a l r).map (Equiv.swap oldNode newNode) =
          .node a (l.map (Equiv.swap oldNode newNode)) r := by
        simp only [map, keepA, fixed oldNotR freshR]
      rw [mapped]
      have below := hangs_replace safe left nodupL inL freshL
        (fun p owner => by cases owner; exact ⟨aNotL, aNew⟩)
      have where' := left.placeOf_mem inL
      have children : ∀ c, (m.nodes oldNode).HasChild c → c ∈ l.inorder :=
        fun c isChild => left.child_mem inL isChild
      have atA : m.placeOf oldNode = .link a .left ∨ (m.placeOf oldNode).owner ≠ some a := by
        rcases where' with atA | ⟨y, inL', owner⟩
        · exact .inl atA
        · refine .inr fun same => aNotL ?_
          rw [← Option.some.inj (owner.symm.trans same)]
          exact inL'
      have ancestor := replace_ancestor safe (by decide) aNew
        (fun isChild => aNotL (children a isChild)) atA
      refine Hangs.node_left ⟨top, placed, left, right⟩ below ?_ ancestor.1
        (ancestor.2 .right (by decide)) ?_
      · refine load_replace_of_ne safe ?_ ?_ ?_ ?_
        · rcases where' with atA' | ⟨y, inL', owner⟩
          · exact notPlace (y := a) (by simp) (by rw [atA']; rfl)
          · exact notPlace (by simp [inL']) owner
        · exact fun owner => (outside newNode owner).2 rfl
        · intro c isLeft
          exact notPlace (by simp [children c (.inl isLeft)]) rfl
        · intro c isRight
          exact notPlace (by simp [children c (.inr isRight)]) rfl
      · intro y inR
        refine nodes_replace_of_ne safe (fun same => freshR (same ▸ inR)) ?_
          (fun isChild => apart y (children y isChild) y (.inr inR) rfl)
        rcases where' with atA' | ⟨z, inL', owner⟩
        · rw [atA']
          intro same
          exact aNotR (Option.some.inj same ▸ inR)
        · rw [owner]
          intro same
          exact apart z inL' z (.inr (Option.some.inj same ▸ inR)) rfl
    · exact absurd isRoot.symm root
    · have oldNotL : oldNode ∉ l.inorder := fun inL => apart oldNode inL oldNode (.inr inR) rfl
      have mapped : (BinaryTree.node a l r).map (Equiv.swap oldNode newNode) =
          .node a l (r.map (Equiv.swap oldNode newNode)) := by
        simp only [map, keepA, fixed oldNotL freshL]
      rw [mapped]
      have below := hangs_replace safe right nodupR inR freshR
        (fun p owner => by cases owner; exact ⟨aNotR, aNew⟩)
      have where' := right.placeOf_mem inR
      have children : ∀ c, (m.nodes oldNode).HasChild c → c ∈ r.inorder :=
        fun c isChild => right.child_mem inR isChild
      have atA : m.placeOf oldNode = .link a .right ∨ (m.placeOf oldNode).owner ≠ some a := by
        rcases where' with atA | ⟨y, inR', owner⟩
        · exact .inl atA
        · refine .inr fun same => aNotR ?_
          rw [← Option.some.inj (owner.symm.trans same)]
          exact inR'
      have ancestor := replace_ancestor safe (by decide) aNew
        (fun isChild => aNotR (children a isChild)) atA
      refine Hangs.node_right ⟨top, placed, left, right⟩ below ?_ ancestor.1
        (ancestor.2 .left (by decide)) ?_
      · refine load_replace_of_ne safe ?_ ?_ ?_ ?_
        · rcases where' with atA' | ⟨y, inR', owner⟩
          · exact notPlace (y := a) (by simp) (by rw [atA']; rfl)
          · exact notPlace (by simp [inR']) owner
        · exact fun owner => (outside newNode owner).2 rfl
        · intro c isLeft
          exact notPlace (by simp [children c (.inl isLeft)]) rfl
        · intro c isRight
          exact notPlace (by simp [children c (.inr isRight)]) rfl
      · intro y inL
        refine nodes_replace_of_ne safe (fun same => freshL (same ▸ inL)) ?_
          (fun isChild => apart y inL y (.inr (children y isChild)) rfl)
        rcases where' with atA' | ⟨z, inR', owner⟩
        · rw [atA']
          intro same
          exact aNotL (Option.some.inj same ▸ inL)
        · rw [owner]
          intro same
          exact apart z (Option.some.inj same ▸ inL) z (.inr inR') rfl

theorem replaceSafe_of_hangs {t : BinaryTree α} (h : Hangs m .root t) (nodup : t.inorder.Nodup)
    {oldNode newNode : α} (mem : oldNode ∈ t.inorder) (fresh : newNode ∉ t.inorder) :
    ReplaceSafe m (m.placeOf oldNode) newNode oldNode := by
  obtain ⟨l, r, found⟩ := subtree_of_mem mem
  obtain ⟨before, after, split⟩ := inorder_of_subtree found
  obtain ⟨left, right⟩ := h.links_of_subtree found
  have inT : ∀ y ∈ (BinaryTree.node oldNode l r).inorder, y ∈ t.inorder := by
    intro y inS
    rw [split]
    exact List.mem_append_left _ (List.mem_append_right _ inS)
  have nodupS : (BinaryTree.node oldNode l r).inorder.Nodup :=
    nodup.sublist (split ▸ (List.infix_append before _ after).sublist)
  simp only [inorder_node, List.nodup_append, List.nodup_cons, List.mem_cons] at nodupS
  obtain ⟨-, ⟨oldNotR, -⟩, apart⟩ := nodupS
  have outsideS := h.owner_not_mem nodup (fun p owner => by cases owner) found
  have inL : ∀ c, (m.nodes oldNode).left = some c → c ∈ l.inorder := fun c isLeft =>
    mem_of_top (left.symm.trans isLeft)
  have inR : ∀ c, (m.nodes oldNode).right = some c → c ∈ r.inorder := fun c isRight =>
    mem_of_top (right.symm.trans isRight)
  have ownerNew : (m.placeOf oldNode).owner ≠ some newNode := by
    intro owner
    rcases h.placeOf_mem mem with atRoot | ⟨y, inT', owner'⟩
    · rw [atRoot] at owner
      cases owner
    · exact fresh (Option.some.inj (owner'.symm.trans owner) ▸ inT')
  refine ⟨?_, ?_, ownerNew, ?_, ?_, ?_, ?_, ?_, ?_⟩
  · exact fun same => fresh (same ▸ mem)
  · exact fun owner => outsideS oldNode owner (by simp)
  · exact fun isLeft => apart oldNode (inL oldNode isLeft) oldNode (.inl rfl) rfl
  · exact fun isLeft => fresh (inT newNode (by simp [inL newNode isLeft]))
  · exact fun isRight => fresh (inT newNode (by simp [inR newNode isRight]))
  · exact fun c isLeft owner => outsideS c owner (by simp [inL c isLeft])
  · exact fun c isRight owner => outsideS c owner (by simp [inR c isRight])
  · exact fun c isLeft isRight => apart c (inL c isLeft) c (.inr (inR c isRight)) rfl

theorem hangs_replace_root {t : BinaryTree α} (h : Hangs m .root t) (nodup : t.inorder.Nodup)
    {oldNode newNode : α} (mem : oldNode ∈ t.inorder) (fresh : newNode ∉ t.inorder) :
    Hangs (replace m (m.placeOf oldNode) newNode oldNode) .root
      (t.map (Equiv.swap oldNode newNode)) :=
  hangs_replace (replaceSafe_of_hangs h nodup mem fresh) h nodup mem fresh
    (fun p owner => by cases owner)

theorem nodup_map_swap {t : BinaryTree α} (nodup : t.inorder.Nodup) (a b : α) :
    (t.map (Equiv.swap a b)).inorder.Nodup := by
  rw [inorder_map]
  exact nodup.map (Equiv.swap a b).injective

theorem mem_map_swap_iff {t : BinaryTree α} {a b y : α} :
    y ∈ (t.map (Equiv.swap a b)).inorder ↔ Equiv.swap a b y ∈ t.inorder := by
  rw [inorder_map, List.mem_map]
  constructor
  · rintro ⟨x, mem, rfl⟩
    rwa [Equiv.swap_apply_self]
  · intro mem
    exact ⟨_, mem, Equiv.swap_apply_self a b y⟩

theorem swap_swap_swap {px n1 n2 x : α} (stack : x ≠ px) (differ : n1 ≠ n2) (away1 : px ≠ n1)
    (away2 : px ≠ n2) :
    Equiv.swap px n2 (Equiv.swap n2 n1 (Equiv.swap n1 px x)) = Equiv.swap n1 n2 x := by
  by_cases first : x = n1
  · subst first
    rw [Equiv.swap_apply_left, Equiv.swap_apply_of_ne_of_ne away2 away1, Equiv.swap_apply_left,
      Equiv.swap_apply_left]
  by_cases second : x = n2
  · subst second
    rw [Equiv.swap_apply_of_ne_of_ne first (Ne.symm away2), Equiv.swap_apply_left,
      Equiv.swap_apply_of_ne_of_ne (Ne.symm away1) differ, Equiv.swap_apply_right]
  · rw [Equiv.swap_apply_of_ne_of_ne first stack, Equiv.swap_apply_of_ne_of_ne second first,
      Equiv.swap_apply_of_ne_of_ne stack second, Equiv.swap_apply_of_ne_of_ne first second]

/-- `swap` through a stack node outside the tree exchanges two nodes of the tree. -/
theorem hangs_swap {t : BinaryTree α} (h : Hangs m .root t) (nodup : t.inorder.Nodup)
    {px n1 n2 : α} (in1 : n1 ∈ t.inorder) (in2 : n2 ∈ t.inorder) (differ : n1 ≠ n2)
    (stack : px ∉ t.inorder) : Hangs (swap m px n1 n2) .root (t.map (Equiv.swap n1 n2)) := by
  have away1 : px ≠ n1 := fun same => stack (same ▸ in1)
  have away2 : px ≠ n2 := fun same => stack (same ▸ in2)
  -- `n1` moves to the stack node, `n2` to `n1`, and the stack node to `n2`
  have first := hangs_replace_root h nodup in1 stack
  have second := hangs_replace_root first (nodup_map_swap nodup n1 px)
    (by rw [mem_map_swap_iff, Equiv.swap_apply_of_ne_of_ne (Ne.symm differ) (Ne.symm away2)]
        exact in2)
    (by rw [mem_map_swap_iff, Equiv.swap_apply_left]; exact stack)
  have third := hangs_replace_root second
    (nodup_map_swap (nodup_map_swap nodup n1 px) n2 n1)
    (by rw [mem_map_swap_iff, Equiv.swap_apply_of_ne_of_ne away2 away1, mem_map_swap_iff,
          Equiv.swap_apply_right]
        exact in1)
    (by rw [mem_map_swap_iff, Equiv.swap_apply_left, mem_map_swap_iff, Equiv.swap_apply_left]
        exact stack)
  have composed : ((t.map (Equiv.swap n1 px)).map (Equiv.swap n2 n1)).map (Equiv.swap px n2) =
      t.map (Equiv.swap n1 n2) := by
    rw [← comp_map, ← comp_map]
    exact map_congr fun x inT => swap_swap_swap (fun same => stack (same ▸ inT)) differ away1 away2
  rw [← composed]
  exact third

end relabel

/-! ### `unlinkNode` -/

section unlink

variable {m : TreeMem α} {x : α}

theorem unlinkNode_of_child {c : α} (child : (m.nodes x).left.or (m.nodes x).right = some c)
    (cx : c ≠ x) :
    unlinkNode m x = (m.setNode c { (m.nodes c).setLink .parent (m.nodes x).parent with
      arm := (m.nodes x).arm }).store (m.placeOf x) (some c) := by
  have kept : (m.store (.link c .parent) (m.nodes x).parent).nodes x = m.nodes x :=
    m.nodes_store_of_ne _ fun same => cx (Option.some.inj same)
  simp only [unlinkNode, TreeNode.links_unlinkArm, child, kept, TreeMem.nodes_store_link]
  simp only [TreeMem.store, TreeMem.setNode, Function.update_idem]

theorem unlinkNode_of_leaf (leaf : (m.nodes x).left.or (m.nodes x).right = none) :
    unlinkNode m x = m.store (m.placeOf x) none := by
  simp only [unlinkNode, TreeNode.links_unlinkArm, leaf]

theorem nodes_unlinkNode_of_ne {y : α} (notChild : (m.nodes x).left.or (m.nodes x).right ≠ some y)
    (notOwner : (m.placeOf x).owner ≠ some y) (cx : ∀ c, (m.nodes x).left.or (m.nodes x).right = some c → c ≠ x) :
    (unlinkNode m x).nodes y = m.nodes y := by
  cases child : (m.nodes x).left.or (m.nodes x).right with
  | none =>
    rw [unlinkNode_of_leaf child, TreeMem.nodes_store_of_ne _ _ notOwner]
  | some c =>
    have differ : y ≠ c := fun same => notChild (by rw [child, same])
    rw [unlinkNode_of_child child (cx c child), TreeMem.nodes_store_of_ne _ _ notOwner,
      TreeMem.nodes_setNode, Function.update_of_ne differ]

theorem nodes_unlinkNode_child {c : α} (child : (m.nodes x).left.or (m.nodes x).right = some c)
    (cx : c ≠ x) (notOwner : (m.placeOf x).owner ≠ some c) :
    (unlinkNode m x).nodes c = { (m.nodes c).setLink .parent (m.nodes x).parent with
      arm := (m.nodes x).arm } := by
  rw [unlinkNode_of_child child cx, TreeMem.nodes_store_of_ne _ _ notOwner, TreeMem.nodes_setNode,
    Function.update_self]

theorem nodes_unlinkNode_owner {p : α} {d : Arm} (owner : m.placeOf x = .link p d)
    (notChild : (m.nodes x).left.or (m.nodes x).right ≠ some p)
    (cx : ∀ c, (m.nodes x).left.or (m.nodes x).right = some c → c ≠ x) :
    (unlinkNode m x).nodes p = (m.nodes p).setLink d ((m.nodes x).left.or (m.nodes x).right) := by
  cases child : (m.nodes x).left.or (m.nodes x).right with
  | none =>
    rw [unlinkNode_of_leaf child, owner, TreeMem.nodes_store_link]
  | some c =>
    have differ : p ≠ c := fun same => notChild (by rw [child, same])
    rw [unlinkNode_of_child child (cx c child), owner, TreeMem.nodes_store_link,
      TreeMem.nodes_setNode, Function.update_of_ne differ]

theorem load_unlinkNode_of_ne {q : Place α} (differ : q ≠ m.placeOf x)
    (notChild : ∀ c, (m.nodes x).left.or (m.nodes x).right = some c → q.owner ≠ some c)
    (cx : ∀ c, (m.nodes x).left.or (m.nodes x).right = some c → c ≠ x) :
    (unlinkNode m x).load q = m.load q := by
  cases child : (m.nodes x).left.or (m.nodes x).right with
  | none =>
    rw [unlinkNode_of_leaf child, TreeMem.load_store_of_ne _ _ (Ne.symm differ)]
  | some c =>
    rw [unlinkNode_of_child child (cx c child), TreeMem.load_store_of_ne _ _ (Ne.symm differ),
      TreeMem.load_setNode_of_ne _ _ (notChild c child)]

theorem load_unlinkNode_self (cx : ∀ c, (m.nodes x).left.or (m.nodes x).right = some c → c ≠ x) :
    (unlinkNode m x).load (m.placeOf x) = (m.nodes x).left.or (m.nodes x).right := by
  cases child : (m.nodes x).left.or (m.nodes x).right with
  | none => rw [unlinkNode_of_leaf child, TreeMem.load_store_self]
  | some c => rw [unlinkNode_of_child child (cx c child), TreeMem.load_store_self]

theorem unlink_ancestor (cx : ∀ c, (m.nodes x).left.or (m.nodes x).right = some c → c ≠ x)
    {a : α} {d : Arm} (side : d ≠ .parent)
    (notChild : (m.nodes x).left.or (m.nodes x).right ≠ some a)
    (at' : m.placeOf x = .link a d ∨ (m.placeOf x).owner ≠ some a) :
    (unlinkNode m x).placeOf a = m.placeOf a ∧
      ∀ e, e ≠ d → ((unlinkNode m x).nodes a).links e = (m.nodes a).links e := by
  rcases at' with atA | notOwner
  · have record := nodes_unlinkNode_owner atA notChild cx
    refine ⟨?_, fun e other => by rw [record, TreeNode.links_setLink_of_ne _ _ (Ne.symm other)]⟩
    simp [TreeMem.placeOf, record, TreeNode.parent_setLink_of_ne _ _ side]
  · have record := nodes_unlinkNode_of_ne notChild notOwner cx
    exact ⟨placeOf_congr record, fun e _ => by rw [record]⟩

theorem hangs_unlinkNode_child (cx : ∀ c, (m.nodes x).left.or (m.nodes x).right = some c → c ≠ x)
    {d : Arm} {c : α} {sl sr : BinaryTree α} (h : Hangs m (.link x d) (.node c sl sr))
    (child : (m.nodes x).left.or (m.nodes x).right = some c)
    (nodup : (BinaryTree.node c sl sr).inorder.Nodup)
    (notOwner : ∀ y ∈ (BinaryTree.node c sl sr).inorder, (m.placeOf x).owner ≠ some y) :
    Hangs (unlinkNode m x) (m.placeOf x) (.node c sl sr) := by
  have record := nodes_unlinkNode_child child (cx c child) (notOwner c (by simp))
  simp only [inorder_node, List.nodup_append, List.nodup_cons, List.mem_cons] at nodup
  obtain ⟨-, ⟨cNotR, -⟩, apart⟩ := nodup
  have rest : ∀ y, y ∈ sl.inorder ∨ y ∈ sr.inorder → (unlinkNode m x).nodes y = m.nodes y := by
    intro y mem
    refine nodes_unlinkNode_of_ne (fun same => ?_) (notOwner y (by rcases mem with h | h <;> simp [h]))
      cx
    obtain rfl := Option.some.inj (child.symm.trans same)
    rcases mem with inL | inR
    · exact apart c inL c (.inl rfl) rfl
    · exact cNotR inR
  refine h.reroot ?_ ?_ ?_ ?_ (fun y mem => rest y (.inl mem)) (fun y mem => rest y (.inr mem))
  · rw [load_unlinkNode_self cx, child]
  · simp [TreeMem.placeOf, record, TreeNode.setLink]
  · rw [record]
    rfl
  · rw [record]
    rfl

/-- `unlinkNode` gives the node's place to its child: the memory holds `unlink x t`. -/
theorem hangs_unlinkNode (cx : ∀ c, (m.nodes x).left.or (m.nodes x).right = some c → c ≠ x) :
    ∀ {place : Place α} {t : BinaryTree α}, Hangs m place t → t.inorder.Nodup → x ∈ t.inorder →
      (∀ p, place.owner = some p → p ∉ t.inorder) → Hangs (unlinkNode m x) place (unlink x t)
  | _, .nil, _, _, mem, _ => absurd mem List.not_mem_nil
  | place, .node a l r, ⟨top, placed, left, right⟩, nodup, mem, outside => by
    have nodup' := nodup
    simp only [inorder_node, List.nodup_append, List.nodup_cons, List.mem_cons] at nodup'
    obtain ⟨nodupL, ⟨aNotR, nodupR⟩, apart⟩ := nodup'
    have aNotL : a ∉ l.inorder := fun inL => apart a inL a (.inl rfl) rfl
    have notOwner : ∀ y ∈ (BinaryTree.node a l r).inorder, place.owner ≠ some y :=
      fun y inT owner => outside y owner inT
    have notPlace : ∀ {q : Place α} {y : α}, y ∈ (BinaryTree.node a l r).inorder →
        q.owner = some y → place ≠ q := by
      intro q y inT owner same
      exact notOwner y inT (by rw [same]; exact owner)
    by_cases root : a = x
    · -- the node is the root: its first child takes the link
      subst root
      have child : (m.nodes a).left.or (m.nodes a).right = l.top.or r.top := by
        rw [show (m.nodes a).left = l.top from left.load_eq,
          show (m.nodes a).right = r.top from right.load_eq]
      have ownerIs : ∀ y ∈ (BinaryTree.node a l r).inorder, (m.placeOf a).owner ≠ some y := by
        rw [placed]
        exact notOwner
      rw [← placed]
      cases l with
      | node c ll lr =>
        simp only [unlink, reduceCtorEq, if_true, if_false]
        exact hangs_unlinkNode_child cx left (by rw [child]; rfl) nodupL
          fun y inL => ownerIs y (List.mem_append_left _ inL)
      | nil =>
        simp only [unlink, if_true]
        cases r with
        | nil =>
          show (unlinkNode m a).load (m.placeOf a) = none
          rw [load_unlinkNode_self cx, child]
          rfl
        | node c rl rr =>
          exact hangs_unlinkNode_child cx right (by rw [child]; rfl) nodupR
            fun y inR => ownerIs y (List.mem_append_right _ (List.mem_cons_of_mem a inR))
    -- the node is below the root, which keeps its record but for the link to that side
    simp only [inorder_node, List.mem_append, List.mem_cons] at mem
    have childIn : ∀ {s : BinaryTree α} {d : Arm}, Hangs m (.link a d) s → x ∈ s.inorder →
        ∀ c, (m.nodes x).left.or (m.nodes x).right = some c → c ∈ s.inorder :=
      fun hangs inS c child => hangs.child_mem inS (TreeNode.hasChild_of_or child)
    rcases mem with inL | isRoot | inR
    · have xNotR : x ∉ r.inorder := fun inR => apart x inL x (.inr inR) rfl
      simp only [unlink, root, if_false, unlink_of_not_mem xNotR]
      have below := hangs_unlinkNode cx left nodupL inL
        (fun p owner => by cases owner; exact aNotL)
      have where' := left.placeOf_mem inL
      have atA : m.placeOf x = .link a .left ∨ (m.placeOf x).owner ≠ some a := by
        rcases where' with atA | ⟨y, inL', owner⟩
        · exact .inl atA
        · refine .inr fun same => aNotL ?_
          rw [← Option.some.inj (owner.symm.trans same)]
          exact inL'
      have ancestor := unlink_ancestor cx (by decide)
        (fun child => aNotL (childIn left inL a child)) atA
      refine Hangs.node_left ⟨top, placed, left, right⟩ below ?_ ancestor.1
        (ancestor.2 .right (by decide)) ?_
      · refine load_unlinkNode_of_ne ?_ ?_ cx
        · rcases where' with atA' | ⟨y, inL', owner⟩
          · exact notPlace (y := a) (by simp) (by rw [atA']; rfl)
          · exact notPlace (by simp [inL']) owner
        · intro c child
          exact notOwner c (by simp [childIn left inL c child])
      · intro y inR
        refine nodes_unlinkNode_of_ne (fun child => apart y (childIn left inL y child) y (.inr inR) rfl)
          ?_ cx
        rcases where' with atA' | ⟨z, inL', owner⟩
        · rw [atA']
          intro same
          exact aNotR (Option.some.inj same ▸ inR)
        · rw [owner]
          intro same
          exact apart z inL' z (.inr (Option.some.inj same ▸ inR)) rfl
    · exact absurd isRoot.symm root
    · have xNotL : x ∉ l.inorder := fun inL => apart x inL x (.inr inR) rfl
      simp only [unlink, root, if_false, unlink_of_not_mem xNotL]
      have below := hangs_unlinkNode cx right nodupR inR
        (fun p owner => by cases owner; exact aNotR)
      have where' := right.placeOf_mem inR
      have atA : m.placeOf x = .link a .right ∨ (m.placeOf x).owner ≠ some a := by
        rcases where' with atA | ⟨y, inR', owner⟩
        · exact .inl atA
        · refine .inr fun same => aNotR ?_
          rw [← Option.some.inj (owner.symm.trans same)]
          exact inR'
      have ancestor := unlink_ancestor cx (by decide)
        (fun child => aNotR (childIn right inR a child)) atA
      refine Hangs.node_right ⟨top, placed, left, right⟩ below ?_ ancestor.1
        (ancestor.2 .left (by decide)) ?_
      · refine load_unlinkNode_of_ne ?_ ?_ cx
        · rcases where' with atA' | ⟨y, inR', owner⟩
          · exact notPlace (y := a) (by simp) (by rw [atA']; rfl)
          · exact notPlace (by simp [inR']) owner
        · intro c child
          exact notOwner c (by simp [childIn right inR c child])
      · intro y inL
        refine nodes_unlinkNode_of_ne (fun child => apart y inL y (.inr (childIn right inR y child)) rfl)
          ?_ cx
        rcases where' with atA' | ⟨z, inR', owner⟩
        · rw [atA']
          intro same
          exact aNotL (Option.some.inj same ▸ inL)
        · rw [owner]
          intro same
          exact apart z (Option.some.inj same ▸ inL) z (.inr inR') rfl

end unlink

/-! ### `tree_remove_node` -/

section remove

variable {m : TreeMem α} {x : α}

theorem unlinkNode_erase {t : BinaryTree α} (h : Hangs m .root t) (nodup : t.inorder.Nodup)
    (mem : x ∈ t.inorder) (oneChild : (m.nodes x).left = none ∨ (m.nodes x).right = none) :
    Hangs (unlinkNode m x) .root (unlink x t) ∧ (unlink x t).inorder = t.inorder.erase x := by
  obtain ⟨l, r, found⟩ := subtree_of_mem mem
  obtain ⟨left, right⟩ := h.links_of_subtree found
  obtain ⟨before, after, split⟩ := inorder_of_subtree found
  have nodupS : (BinaryTree.node x l r).inorder.Nodup :=
    nodup.sublist (split ▸ (List.infix_append before _ after).sublist)
  simp only [inorder_node, List.nodup_append, List.nodup_cons, List.mem_cons] at nodupS
  obtain ⟨-, ⟨xNotR, -⟩, apart⟩ := nodupS
  have xNotL : x ∉ l.inorder := fun inL => apart x inL x (.inl rfl) rfl
  have cx : ∀ c, (m.nodes x).left.or (m.nodes x).right = some c → c ≠ x := by
    intro c child same
    subst same
    rcases TreeNode.hasChild_of_or child with isLeft | isRight
    · exact xNotL (mem_of_top (left.symm.trans isLeft))
    · exact xNotR (mem_of_top (right.symm.trans isRight))
  refine ⟨hangs_unlinkNode cx h nodup mem (fun p owner => by cases owner), ?_⟩
  refine inorder_unlink nodup fun l' r' found' => ?_
  obtain ⟨rfl, rfl⟩ : l = l' ∧ r = r' := by
    rw [found] at found'
    simpa using found'
  rcases oneChild with none | none
  · exact .inl (top_eq_none_iff.mp (left.symm.trans none))
  · exact .inr (top_eq_none_iff.mp (right.symm.trans none))

variable [LinearOrder κ] {key : α → κ}

theorem removeTail {m₂ : TreeMem α} {t t₂ : BinaryTree α} (sorted : Sorted key t)
    (hangs : Hangs m₂ .root t₂) (nodup : t₂.inorder.Nodup) (mem₂ : x ∈ t₂.inorder)
    (mem : x ∈ t.inorder) (oneChild : (m₂.nodes x).left = none ∨ (m₂.nodes x).right = none)
    (erased : t₂.inorder.erase x = t.inorder.erase x) (counted : m₂.count = t.numNodes) :
    TreeInv key { unlinkNode m₂ x with count := (unlinkNode m₂ x).count - 1 } (unlink x t₂) ∧
      (unlink x t₂).inorder = t.inorder.erase x := by
  obtain ⟨hangs', listed⟩ := unlinkNode_erase hangs nodup mem₂ oneChild
  have listed' := listed.trans erased
  refine ⟨TreeInv.withCount hangs' ?_ ?_, listed'⟩
  · unfold Sorted
    rw [listed']
    exact sorted.sublist (List.erase_sublist)
  · rw [count_unlinkNode, counted, ← length_inorder, ← length_inorder, listed',
      List.length_erase_of_mem mem]

theorem treeRemoveNode_refines {t : BinaryTree α} (inv : TreeInv key m t) {px : α}
    (mem : x ∈ t.inorder) (stack : px ∉ t.inorder) {fuel : Nat} (enough : m.count < fuel) :
    ∃ m' t', treeRemoveNode fuel px m x = some (x, m') ∧ TreeInv key m' t' ∧
      t'.inorder = t.inorder.erase x := by
  obtain ⟨hangs, sorted, counted⟩ := inv
  have nodup := sorted.nodup
  unfold treeRemoveNode
  by_cases both : ((m.nodes x).left.isSome && (m.nodes x).right.isSome) = true
  · -- two children: `x` first trades places with its predecessor `p`
    obtain ⟨l, r, found⟩ := subtree_of_mem mem
    obtain ⟨left, right⟩ := hangs.links_of_subtree found
    obtain ⟨before, after, split⟩ := inorder_of_subtree found
    cases l with
    | nil => simp [left] at both
    | node c ll lr =>
      have highL : (BinaryTree.node c ll lr).height < fuel := by
        have within : (BinaryTree.node c ll lr).numNodes ≤ t.numNodes := by
          rw [← length_inorder, ← length_inorder, split]
          simp only [List.length_append, inorder_node, List.length_cons]
          omega
        have bound := height_le_numNodes (BinaryTree.node c ll lr)
        omega
      obtain ⟨prev, last⟩ := treePrevNode_of_left (hangs.of_subtree found) fuel highL
      obtain ⟨p, lastP⟩ : ∃ p, (BinaryTree.node c ll lr).inorder.getLast? = some p :=
        Option.isSome_iff_exists.mp (by simp)
      have stop : (m.nodes p).right = none := links_of_followFrom (last.trans lastP)
      rw [last, lastP] at prev
      have pInT : p ∈ t.inorder := by
        rw [split]
        exact List.mem_append_left after
          (List.mem_append_right before (List.mem_append_left _ (List.mem_of_getLast? lastP)))
      have xp : x ≠ p := by
        intro same
        subst same
        have nodupS : (BinaryTree.node x (.node c ll lr) r).inorder.Nodup :=
          nodup.sublist (split ▸ (List.infix_append before _ after).sublist)
        simp only [inorder_node, List.nodup_append] at nodupS
        exact nodupS.2.2 x (by simpa using List.mem_of_getLast? lastP) x (by simp) rfl
      have swapped := hangs_swap hangs nodup mem pInT xp stack
      -- in the swapped tree `x` holds the place of `p`, which has no right child
      obtain ⟨lp, rp, foundP⟩ := subtree_of_mem pInT
      have rpNil : rp = nil :=
        top_eq_none_iff.mp ((hangs.links_of_subtree foundP).2.symm.trans stop)
      have foundX : BinaryTree.subtree x (t.map (Equiv.swap x p)) =
          some (.node x (lp.map (Equiv.swap x p)) nil) := by
        have renamed := subtree_map (Equiv.swap x p).injective p t
        rw [Equiv.swap_apply_right, foundP, rpNil] at renamed
        simpa [map] using renamed
      have noRight : ((swap m px x p).nodes x).right = none :=
        (swapped.links_of_subtree foundX).2
      have memX : x ∈ (t.map (Equiv.swap x p)).inorder := by
        rw [mem_map_swap_iff, Equiv.swap_apply_left]
        exact pInT
      simp only [both, if_true, prev, Option.bind_eq_bind, Option.bind_some]
      exact ⟨_, _, rfl, removeTail sorted swapped (nodup_map_swap nodup x p) memX mem (.inr noRight)
        (inorder_map_swap_erase nodup found lastP) (by rw [count_swap, counted])⟩
  · -- at most one child: it takes the node's place
    have oneChild : (m.nodes x).left = none ∨ (m.nodes x).right = none := by
      cases hl : (m.nodes x).left <;> cases hr : (m.nodes x).right <;> simp_all
    simp only [Bool.not_eq_true] at both
    simp only [both, Bool.false_eq_true, if_false, Option.bind_eq_bind, Option.bind_some]
    exact ⟨_, _, rfl, removeTail sorted hangs nodup mem mem oneChild rfl counted⟩

end remove

end MicroSegment.Dp
