import Mathlib

/-!
# Search trees over `BinaryTree`

The in-order list of a tree, and a tree sorted by a key into a linear order: the keys strictly
increase along its in-order list. The search for a key goes left below a node of larger key and
right below one of smaller key.

Two updates of a linked search tree are stated on trees and read on in-order lists. `insertKey`
hangs a new leaf where the search for its key leaves the tree: on lists that is `insertSorted`,
which fails on a key already present. `unlink` gives the place of a node with at most one child
to that child: on lists that is `List.erase`. A node with two children is removed after trading
places with its predecessor, the last node of its left subtree, which stands right before it in
the in-order list (`erase_map_swap`).
-/

namespace BinaryTree

variable {α β κ : Type*}

def inorder : BinaryTree α → List α
  | nil => []
  | node a l r => l.inorder ++ a :: r.inorder

def top : BinaryTree α → Option α
  | nil => none
  | node a _ _ => some a

@[simp] theorem inorder_nil : (nil : BinaryTree α).inorder = [] := rfl

@[simp] theorem inorder_node (a : α) (l r : BinaryTree α) :
    (node a l r).inorder = l.inorder ++ a :: r.inorder := rfl

@[simp] theorem top_nil : (nil : BinaryTree α).top = none := rfl

@[simp] theorem top_node (a : α) (l r : BinaryTree α) : (node a l r).top = some a := rfl

theorem top_eq_none_iff {t : BinaryTree α} : t.top = none ↔ t = nil := by
  cases t <;> simp

theorem mem_of_top {t : BinaryTree α} {x : α} (top : t.top = some x) : x ∈ t.inorder := by
  cases t with
  | nil => cases top
  | node a l r =>
    obtain rfl := Option.some.inj top
    simp

theorem inorder_map (f : α → β) : ∀ t : BinaryTree α, (t.map f).inorder = t.inorder.map f
  | nil => rfl
  | node a l r => by simp [map, inorder_map f l, inorder_map f r]

theorem length_inorder : ∀ t : BinaryTree α, t.inorder.length = t.numNodes
  | nil => rfl
  | node a l r => by
    simp only [inorder_node, List.length_append, List.length_cons, length_inorder l,
      length_inorder r, numNodes]
    omega

theorem getLast?_inorder_node (a : α) (l r : BinaryTree α) :
    (node a l r).inorder.getLast? = r.inorder.getLast?.or (some a) := by
  rw [inorder_node, List.getLast?_append, List.getLast?_cons]
  cases r.inorder.getLast? <;> rfl

theorem head?_inorder_node (a : α) (l r : BinaryTree α) :
    (node a l r).inorder.head? = l.inorder.head?.or (some a) := by
  rw [inorder_node, List.head?_append]
  rfl

theorem map_congr {f g : α → β} : ∀ {t : BinaryTree α}, (∀ x ∈ t.inorder, f x = g x) →
    t.map f = t.map g
  | nil, _ => rfl
  | node a l r, same => by
    simp only [map]
    rw [same a (by simp), map_congr fun x mem => same x (by simp [mem]),
      map_congr fun x mem => same x (by simp [mem])]

theorem map_eq_self {f : α → α} {t : BinaryTree α} (fixed : ∀ x ∈ t.inorder, f x = x) :
    t.map f = t :=
  (map_congr (g := id) fixed).trans (id_map t)

section subtree

variable [DecidableEq α]

def subtree (x : α) : BinaryTree α → Option (BinaryTree α)
  | nil => none
  | node a l r => if a = x then some (node a l r) else (subtree x l).or (subtree x r)

theorem subtree_eq_some {x : α} : ∀ {t s : BinaryTree α}, subtree x t = some s →
    ∃ l r, s = node x l r
  | nil, _, found => by simp [subtree] at found
  | node a l r, s, found => by
    unfold subtree at found
    split_ifs at found with root
    · subst root
      exact ⟨l, r, (Option.some.inj found).symm⟩
    cases inLeft : subtree x l with
    | none =>
      rw [inLeft, Option.none_or] at found
      exact subtree_eq_some found
    | some s' =>
      rw [inLeft, Option.some_or] at found
      exact subtree_eq_some (inLeft.trans found)

theorem subtree_isSome {x : α} : ∀ {t : BinaryTree α}, x ∈ t.inorder → (subtree x t).isSome
  | nil, mem => absurd mem List.not_mem_nil
  | node a l r, mem => by
    unfold subtree
    by_cases root : a = x
    · rw [if_pos root]
      rfl
    rw [if_neg root]
    rcases List.mem_append.mp mem with inLeft | mem'
    · obtain ⟨s, found⟩ := Option.isSome_iff_exists.mp (subtree_isSome inLeft)
      rw [found, Option.some_or]
      rfl
    rcases List.mem_cons.mp mem' with same | inRight
    · exact absurd same.symm root
    cases subtree x l with
    | none => rw [Option.none_or]; exact subtree_isSome inRight
    | some s => rfl

theorem subtree_of_mem {x : α} {t : BinaryTree α} (mem : x ∈ t.inorder) :
    ∃ l r, subtree x t = some (node x l r) := by
  obtain ⟨s, found⟩ := Option.isSome_iff_exists.mp (subtree_isSome mem)
  obtain ⟨l, r, rfl⟩ := subtree_eq_some found
  exact ⟨l, r, found⟩

theorem subtree_map {f : α → α} (injective : Function.Injective f) (y : α) :
    ∀ t : BinaryTree α, subtree (f y) (t.map f) = (subtree y t).map (map f)
  | nil => rfl
  | node a l r => by
    simp only [map, subtree, injective.eq_iff]
    split_ifs
    · rfl
    · rw [subtree_map injective y l, subtree_map injective y r]
      cases subtree y l <;> rfl

theorem inorder_of_subtree {x : α} : ∀ {t s : BinaryTree α}, subtree x t = some s →
    ∃ before after, t.inorder = before ++ s.inorder ++ after
  | nil, _, found => by simp [subtree] at found
  | node a l r, s, found => by
    unfold subtree at found
    split_ifs at found with root
    · exact ⟨[], [], by rw [← Option.some.inj found]; simp⟩
    cases inL : subtree x l with
    | none =>
      rw [inL, Option.none_or] at found
      obtain ⟨before, after, split⟩ := inorder_of_subtree found
      exact ⟨l.inorder ++ a :: before, after, by simp [split]⟩
    | some s' =>
      rw [inL, Option.some_or] at found
      obtain ⟨before, after, split⟩ := inorder_of_subtree (inL.trans found)
      exact ⟨before, after ++ a :: r.inorder, by simp [split]⟩

theorem height_of_subtree {x : α} : ∀ {t s : BinaryTree α}, subtree x t = some s →
    s.height ≤ t.height
  | nil, _, found => by simp [subtree] at found
  | node a l r, s, found => by
    unfold subtree at found
    split_ifs at found with root
    · rw [← Option.some.inj found]
    cases inL : subtree x l with
    | none =>
      rw [inL, Option.none_or] at found
      have below := height_of_subtree found
      simp only [height]
      omega
    | some s' =>
      rw [inL, Option.some_or] at found
      have below := height_of_subtree (inL.trans found)
      simp only [height]
      omega

theorem mem_of_subtree {x : α} {t l r : BinaryTree α} (found : subtree x t = some (node x l r)) :
    x ∈ t.inorder := by
  obtain ⟨before, after, split⟩ := inorder_of_subtree found
  simp [split]

def unlink (x : α) : BinaryTree α → BinaryTree α
  | nil => nil
  | node a l r => if a = x then (if l = nil then r else l) else node a (unlink x l) (unlink x r)

theorem unlink_of_not_mem {x : α} : ∀ {t : BinaryTree α}, x ∉ t.inorder → unlink x t = t
  | nil, _ => rfl
  | node a l r, absent => by
    simp only [inorder_node, List.mem_append, List.mem_cons, not_or] at absent
    obtain ⟨notLeft, notRoot, notRight⟩ := absent
    simp [unlink, Ne.symm notRoot, unlink_of_not_mem notLeft, unlink_of_not_mem notRight]

theorem inorder_unlink {x : α} : ∀ {t : BinaryTree α}, t.inorder.Nodup →
    (∀ l r, subtree x t = some (node x l r) → l = nil ∨ r = nil) →
    (unlink x t).inorder = t.inorder.erase x
  | nil, _, _ => rfl
  | node a l r, nodup, oneChild => by
    have notLeft : a ∉ l.inorder := fun mem =>
      (List.nodup_append.mp nodup).2.2 a mem a List.mem_cons_self rfl
    unfold unlink
    by_cases root : a = x
    · subst root
      have found : subtree a (node a l r) = some (node a l r) := by simp [subtree]
      rw [if_pos rfl, inorder_node, List.erase_append_right _ notLeft, List.erase_cons_head]
      rcases oneChild l r found with rfl | rfl
      · simp
      · by_cases empty : l = nil
        · subst empty
          simp
        · simp [empty]
    rw [if_neg root, inorder_node, inorder_node]
    have nodupL : l.inorder.Nodup := (List.nodup_append.mp nodup).1
    have nodupR : r.inorder.Nodup := (List.nodup_cons.mp (List.nodup_append.mp nodup).2.1).2
    by_cases inLeft : x ∈ l.inorder
    · -- the node is on the left, so not on the right
      have notRight : x ∉ r.inorder := fun mem =>
        (List.nodup_append.mp nodup).2.2 x inLeft x (List.mem_cons_of_mem a mem) rfl
      obtain ⟨l', r', foundL⟩ := subtree_of_mem inLeft
      have oneChildL : ∀ l₁ r₁, subtree x l = some (node x l₁ r₁) → l₁ = nil ∨ r₁ = nil := by
        intro l₁ r₁ found
        apply oneChild
        simp [subtree, root, found]
      rw [inorder_unlink nodupL oneChildL, unlink_of_not_mem notRight,
        List.erase_append_left _ inLeft]
    · have noneL : subtree x l = none := by
        cases found : subtree x l with
        | none => rfl
        | some s =>
          obtain ⟨l', r', rfl⟩ := subtree_eq_some found
          exact absurd (mem_of_subtree found) inLeft
      have oneChildR : ∀ l₁ r₁, subtree x r = some (node x l₁ r₁) → l₁ = nil ∨ r₁ = nil := by
        intro l₁ r₁ found
        apply oneChild
        simp [subtree, root, noneL, found]
      rw [inorder_unlink nodupR oneChildR, unlink_of_not_mem inLeft,
        List.erase_append_right _ inLeft, List.erase_cons_tail (by simpa using root)]

/-- Trading places with the node just before it and then erasing `x` erases `x`. -/
theorem erase_map_swap {x p : α} {before after : List α}
    (nodup : (before ++ p :: x :: after).Nodup) :
    ((before ++ p :: x :: after).map (Equiv.swap x p)).erase x =
      (before ++ p :: x :: after).erase x := by
  simp only [List.nodup_append, List.nodup_cons, List.mem_cons, not_or] at nodup
  obtain ⟨-, ⟨⟨differ, notAfterP⟩, notAfterX, -⟩, apart⟩ := nodup
  have notBefore : ∀ y ∈ before, y ≠ x ∧ y ≠ p := fun y mem =>
    ⟨apart y mem x (by simp), apart y mem p (by simp)⟩
  have fixBefore : before.map (Equiv.swap x p) = before :=
    (List.map_congr_left (g := id) fun y mem =>
      Equiv.swap_apply_of_ne_of_ne (notBefore y mem).1 (notBefore y mem).2).trans (List.map_id _)
  have notAfter : ∀ y ∈ after, y ≠ x ∧ y ≠ p := fun y mem =>
    ⟨fun same => notAfterX (same ▸ mem), fun same => notAfterP (same ▸ mem)⟩
  have fixAfter : after.map (Equiv.swap x p) = after :=
    (List.map_congr_left (g := id) fun y mem =>
      Equiv.swap_apply_of_ne_of_ne (notAfter y mem).1 (notAfter y mem).2).trans (List.map_id _)
  have xNotBefore : x ∉ before := fun mem => (notBefore x mem).1 rfl
  rw [List.map_append, List.map_cons, List.map_cons, fixBefore, fixAfter, Equiv.swap_apply_right,
    Equiv.swap_apply_left, List.erase_append_right _ xNotBefore,
    List.erase_append_right _ xNotBefore, List.erase_cons_head,
    List.erase_cons_tail (by simpa using differ), List.erase_cons_head]

theorem inorder_map_swap_erase {x p : α} {t l r : BinaryTree α} (nodup : t.inorder.Nodup)
    (found : subtree x t = some (node x l r)) (last : l.inorder.getLast? = some p) :
    (t.map (Equiv.swap x p)).inorder.erase x = t.inorder.erase x := by
  obtain ⟨before, after, split⟩ := inorder_of_subtree found
  obtain ⟨init, lastP⟩ := List.getLast?_eq_some_iff.mp last
  have shape : t.inorder = (before ++ init) ++ p :: x :: (r.inorder ++ after) := by
    simp [split, lastP]
  rw [inorder_map, shape, erase_map_swap (shape ▸ nodup)]

end subtree

/-! ### Sorted trees and the search -/

section sorted

variable [LinearOrder κ] (key : α → κ)

/-- Keys strictly increase along the in-order list. -/
def Sorted (t : BinaryTree α) : Prop := t.inorder.Pairwise (fun x y => key x < key y)

def search (k : κ) : BinaryTree α → Option α
  | nil => none
  | node a l r => if k < key a then search k l else if key a < k then search k r else some a

variable {key}

theorem sorted_node_iff {a : α} {l r : BinaryTree α} :
    Sorted key (node a l r) ↔ Sorted key l ∧ Sorted key r ∧
      (∀ x ∈ l.inorder, key x < key a) ∧ ∀ y ∈ r.inorder, key a < key y := by
  unfold Sorted
  rw [inorder_node, List.pairwise_append, List.pairwise_cons]
  constructor
  · rintro ⟨left, ⟨above, right⟩, across⟩
    exact ⟨left, right, fun x mem => across x mem a List.mem_cons_self, above⟩
  · rintro ⟨left, right, below, above⟩
    refine ⟨left, ⟨above, right⟩, ?_⟩
    intro x mem y mem'
    rcases List.mem_cons.mp mem' with rfl | inRight
    · exact below x mem
    · exact (below x mem).trans (above y inRight)

theorem Sorted.nodup {t : BinaryTree α} (sorted : Sorted key t) : t.inorder.Nodup :=
  sorted.imp fun lt same => (ne_of_lt lt) (congrArg key same)

theorem search_eq_some {k : κ} {x : α} : ∀ {t : BinaryTree α}, search key k t = some x →
    x ∈ t.inorder ∧ key x = k
  | nil, found => by simp [search] at found
  | node a l r, found => by
    unfold search at found
    split_ifs at found with below above
    · obtain ⟨mem, same⟩ := search_eq_some found
      exact ⟨by simp [mem], same⟩
    · obtain ⟨mem, same⟩ := search_eq_some found
      exact ⟨by simp [mem], same⟩
    · obtain rfl := Option.some.inj found
      exact ⟨by simp, le_antisymm (not_lt.mp below) (not_lt.mp above)⟩

theorem search_eq_none {k : κ} : ∀ {t : BinaryTree α}, Sorted key t →
    (search key k t = none ↔ ∀ x ∈ t.inorder, key x ≠ k)
  | nil, _ => by simp [search]
  | node a l r, sorted => by
    obtain ⟨left, right, below, above⟩ := sorted_node_iff.mp sorted
    unfold search
    by_cases lt : k < key a
    · -- the keys of the root and of the right subtree are all above `k`
      rw [if_pos lt, search_eq_none left]
      simp only [inorder_node, List.mem_append, List.mem_cons]
      constructor
      · rintro none x (inLeft | rfl | inRight)
        · exact none x inLeft
        · exact ne_of_gt lt
        · exact ne_of_gt (lt.trans (above x inRight))
      · intro none x inLeft
        exact none x (.inl inLeft)
    by_cases gt : key a < k
    · rw [if_neg lt, if_pos gt, search_eq_none right]
      simp only [inorder_node, List.mem_append, List.mem_cons]
      constructor
      · rintro none x (inLeft | rfl | inRight)
        · exact ne_of_lt ((below x inLeft).trans gt)
        · exact ne_of_lt gt
        · exact none x inRight
      · intro none x inRight
        exact none x (.inr (.inr inRight))
    · rw [if_neg lt, if_neg gt]
      simp only [reduceCtorEq, false_iff, not_forall, not_not]
      exact ⟨a, by simp, le_antisymm (not_lt.mp lt) (not_lt.mp gt)⟩

theorem search_of_mem {x : α} {t : BinaryTree α} (sorted : Sorted key t) (mem : x ∈ t.inorder) :
    search key (key x) t = some x := by
  cases found : search key (key x) t with
  | none => exact absurd rfl ((search_eq_none sorted).mp found x mem)
  | some y =>
    obtain ⟨memY, same⟩ := search_eq_some found
    -- keys along a sorted list are distinct
    have distinct : t.inorder.Pairwise (fun a b => key a ≠ key b) := sorted.imp ne_of_lt
    have : Std.Symm (fun a b : α => key a ≠ key b) := ⟨fun _ _ differ => differ.symm⟩
    by_cases equal : y = x
    · rw [equal]
    · exact absurd same (distinct.forall memY mem equal)

end sorted

/-! ### Insertion -/

section insert

variable [LinearOrder κ] (key : α → κ)

def insertSorted (b : α) : List α → Option (List α)
  | [] => some [b]
  | a :: rest =>
    if key b < key a then some (b :: a :: rest)
    else if key a < key b then (insertSorted b rest).map (a :: ·)
    else none

def insertKey (b : α) : BinaryTree α → Option (BinaryTree α)
  | nil => some (node b nil nil)
  | node a l r =>
    if key b < key a then (insertKey b l).map (node a · r)
    else if key a < key b then (insertKey b r).map (node a l ·)
    else none

variable {key}

theorem insertSorted_append_of_lt {b a : α} (lt : key b < key a) (ys : List α) :
    ∀ xs : List α, insertSorted key b (xs ++ a :: ys) = (insertSorted key b xs).map (· ++ a :: ys)
  | [] => by simp [insertSorted, lt]
  | x :: xs => by
    simp only [List.cons_append, insertSorted]
    split_ifs
    · simp
    · rw [insertSorted_append_of_lt lt ys xs, Option.map_map, Option.map_map]
      rfl
    · rfl

theorem insertSorted_append_of_gt {b : α} (ys : List α) :
    ∀ xs : List α, (∀ x ∈ xs, key x < key b) →
      insertSorted key b (xs ++ ys) = (insertSorted key b ys).map (xs ++ ·)
  | [], _ => by simp
  | x :: xs, below => by
    have lt := below x List.mem_cons_self
    have rest := insertSorted_append_of_gt ys xs fun y mem => below y (List.mem_cons_of_mem x mem)
    simp only [List.cons_append, insertSorted, not_lt_of_gt lt, if_false, if_pos lt, rest,
      Option.map_map]
    rfl

theorem inorder_insertKey {b : α} : ∀ {t : BinaryTree α}, Sorted key t →
    (insertKey key b t).map inorder = insertSorted key b t.inorder
  | nil, _ => rfl
  | node a l r, sorted => by
    obtain ⟨left, right, below, above⟩ := sorted_node_iff.mp sorted
    unfold insertKey
    by_cases lt : key b < key a
    · rw [if_pos lt, inorder_node, insertSorted_append_of_lt lt, ← inorder_insertKey left,
        Option.map_map, Option.map_map]
      rfl
    by_cases gt : key a < key b
    · have before : ∀ x ∈ l.inorder ++ [a], key x < key b := by
        intro x mem
        rcases List.mem_append.mp mem with inLeft | isRoot
        · exact (below x inLeft).trans gt
        · rw [List.mem_singleton.mp isRoot]
          exact gt
      rw [if_neg lt, if_pos gt, inorder_node, ← List.singleton_append, ← List.append_assoc,
        insertSorted_append_of_gt _ _ before, ← inorder_insertKey right, Option.map_map,
        Option.map_map]
      congr 1
      funext t
      simp
    · -- a key equal to the root's: the list passes the left subtree and stops at the root
      have same : key a = key b := le_antisymm (not_lt.mp lt) (not_lt.mp gt)
      have before : ∀ x ∈ l.inorder, key x < key b := fun x mem => same ▸ below x mem
      rw [if_neg lt, if_neg gt, inorder_node, Option.map_none, insertSorted_append_of_gt _ _ before]
      simp [insertSorted, same]

theorem insertSorted_perm {b : α} : ∀ {xs ys : List α}, insertSorted key b xs = some ys →
    ys.Perm (b :: xs)
  | [], ys, made => by
    obtain rfl := Option.some.inj made
    rfl
  | a :: rest, ys, made => by
    unfold insertSorted at made
    split_ifs at made
    · obtain rfl := Option.some.inj made
      rfl
    · obtain ⟨ys', made', rfl⟩ := Option.map_eq_some_iff.mp made
      exact ((insertSorted_perm made').cons a).trans (List.Perm.swap b a rest)

theorem insertSorted_sorted {b : α} : ∀ {xs ys : List α},
    xs.Pairwise (fun x y => key x < key y) → insertSorted key b xs = some ys →
      ys.Pairwise (fun x y => key x < key y)
  | [], ys, _, made => by
    obtain rfl := Option.some.inj made
    exact List.pairwise_singleton _ b
  | a :: rest, ys, sorted, made => by
    obtain ⟨above, sortedRest⟩ := List.pairwise_cons.mp sorted
    unfold insertSorted at made
    split_ifs at made with lt gt
    · obtain rfl := Option.some.inj made
      refine List.Pairwise.cons ?_ sorted
      intro y mem
      rcases List.mem_cons.mp mem with rfl | inRest
      · exact lt
      · exact lt.trans (above y inRest)
    · obtain ⟨ys', made', rfl⟩ := Option.map_eq_some_iff.mp made
      refine List.Pairwise.cons ?_ (insertSorted_sorted sortedRest made')
      intro y mem
      rcases List.mem_cons.mp ((insertSorted_perm made').subset mem) with rfl | inRest
      · exact gt
      · exact above y inRest

theorem insertSorted_eq_none_iff {b : α} : ∀ {xs : List α},
    xs.Pairwise (fun x y => key x < key y) →
      (insertSorted key b xs = none ↔ ∃ x ∈ xs, key x = key b)
  | [], _ => by simp [insertSorted]
  | a :: rest, sorted => by
    obtain ⟨above, sortedRest⟩ := List.pairwise_cons.mp sorted
    unfold insertSorted
    by_cases lt : key b < key a
    · -- every key of the list is above `key b`
      simp only [if_pos lt, reduceCtorEq, false_iff, not_exists, not_and, List.mem_cons]
      rintro x (rfl | inRest) same
      · exact absurd (same ▸ lt) (lt_irrefl _)
      · exact absurd (same ▸ lt.trans (above x inRest)) (lt_irrefl _)
    by_cases gt : key a < key b
    · rw [if_neg lt, if_pos gt, Option.map_eq_none_iff, insertSorted_eq_none_iff sortedRest]
      constructor
      · rintro ⟨x, mem, same⟩
        exact ⟨x, List.mem_cons_of_mem a mem, same⟩
      · rintro ⟨x, mem, same⟩
        rcases List.mem_cons.mp mem with rfl | inRest
        · exact absurd (same ▸ gt) (lt_irrefl _)
        · exact ⟨x, inRest, same⟩
    · simp only [if_neg lt, if_neg gt, true_iff]
      exact ⟨a, List.mem_cons_self, le_antisymm (not_lt.mp lt) (not_lt.mp gt)⟩

theorem numNodes_of_insertSorted {b : α} {t t' : BinaryTree α}
    (made : insertSorted key b t.inorder = some t'.inorder) : t'.numNodes = t.numNodes + 1 := by
  rw [← length_inorder, ← length_inorder, (insertSorted_perm made).length_eq, List.length_cons]

theorem insertKey_sorted {b : α} {t t' : BinaryTree α} (sorted : Sorted key t)
    (made : insertKey key b t = some t') : Sorted key t' := by
  have listed := inorder_insertKey (b := b) sorted
  rw [made, Option.map_some] at listed
  exact insertSorted_sorted sorted listed.symm

end insert

/-! ### Neighbours in a list -/

section next

variable [DecidableEq α]

def nextIn : List α → α → Option α
  | [], _ => none
  | a :: l, x => if a = x then l.head? else nextIn l x

@[simp] theorem nextIn_cons_self (x : α) (l : List α) : nextIn (x :: l) x = l.head? := by
  simp [nextIn]

theorem nextIn_cons_of_ne {a x : α} (differ : a ≠ x) (l : List α) :
    nextIn (a :: l) x = nextIn l x := by
  simp [nextIn, differ]

theorem nextIn_append_of_not_mem {x : α} {l₂ : List α} : ∀ {l₁ : List α}, x ∉ l₁ →
    nextIn (l₁ ++ l₂) x = nextIn l₂ x
  | [], _ => rfl
  | a :: l, out => by
    have differ : a ≠ x := fun same => out (same ▸ List.mem_cons_self)
    rw [List.cons_append, nextIn_cons_of_ne differ]
    exact nextIn_append_of_not_mem fun inL => out (List.mem_cons_of_mem a inL)

theorem nextIn_append_of_mem {x : α} {l₂ : List α} : ∀ {l₁ : List α}, x ∈ l₁ →
    nextIn (l₁ ++ l₂) x = (nextIn l₁ x).or l₂.head?
  | a :: l, mem => by
    by_cases same : a = x
    · subst same
      simp [List.head?_append]
    · have inL : x ∈ l := (List.mem_cons.mp mem).resolve_left (Ne.symm same)
      rw [List.cons_append, nextIn_cons_of_ne same, nextIn_cons_of_ne same]
      exact nextIn_append_of_mem inL

theorem nextIn_of_subtree {x : α} {t l r : BinaryTree α} (nodup : t.inorder.Nodup)
    (found : subtree x t = some (node x l r)) (right : r ≠ nil) :
    nextIn t.inorder x = r.inorder.head? := by
  obtain ⟨before, after, split⟩ := inorder_of_subtree found
  rw [split] at nodup ⊢
  have apart : x ∉ before ++ l.inorder := by
    have front := nodup.sublist (List.sublist_append_left _ after)
    rw [inorder_node, ← List.append_assoc] at front
    exact fun inFront => (List.nodup_append.mp front).2.2 x inFront x List.mem_cons_self rfl
  have within : x ∈ before ++ (node x l r).inorder := by simp
  obtain ⟨c, rl, rr, rfl⟩ : ∃ c rl rr, r = node c rl rr := by
    cases r with
    | nil => exact absurd rfl right
    | node c rl rr => exact ⟨c, rl, rr, rfl⟩
  rw [nextIn_append_of_mem within, inorder_node, ← List.append_assoc,
    nextIn_append_of_not_mem apart, nextIn_cons_self]
  simp

end next

def mirror : BinaryTree α → BinaryTree α
  | nil => nil
  | node a l r => node a r.mirror l.mirror

@[simp] theorem inorder_mirror : ∀ t : BinaryTree α, t.mirror.inorder = t.inorder.reverse
  | nil => rfl
  | node a l r => by simp [mirror, inorder_mirror l, inorder_mirror r]

@[simp] theorem height_mirror : ∀ t : BinaryTree α, t.mirror.height = t.height
  | nil => rfl
  | node a l r => by
    simp only [mirror, height, height_mirror l, height_mirror r]
    omega

end BinaryTree
