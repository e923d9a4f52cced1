import MicroSegment.Dp.TreeRemove
import MicroSegment.Dp.TreeWalk

/-!
Runs of `tree.c`. A user of a tree makes a sequence of `tree_insert_node` and
`tree_remove_node` calls. Every such run that inserts only fresh nodes and removes only nodes
of the tree keeps the representation invariant. The tree it leaves holds the sorted list that
the same calls make of a list, and the walks read that list back.
-/

namespace MicroSegment.Dp

open BinaryTree

variable {α κ : Type} [DecidableEq α]

/-- A call a user of `tree.c` makes on one tree. -/
inductive TreeCall (α : Type)
  | insert (node : α)
  | remove (node : α)
  deriving DecidableEq, Repr

/-- One call on the memory; `px` is the stack node `tree_remove_node` swaps through. -/
def treeCall (cmp : α → α → Int) (fuel : Nat) (px : α) (m : TreeMem α) :
    TreeCall α → Option (TreeMem α)
  | .insert b => (treeInsertNode cmp fuel m b).map Prod.snd
  | .remove x => (treeRemoveNode fuel px m x).map Prod.snd

def treeCalls (cmp : α → α → Int) (fuel : Nat) (px : α) (m : TreeMem α)
    (calls : List (TreeCall α)) : Option (TreeMem α) :=
  calls.foldlM (treeCall cmp fuel px) m

section run

variable [LinearOrder κ] (key : α → κ)

def sortedCall (xs : List α) : TreeCall α → List α
  | .insert b => (insertSorted key b xs).getD xs
  | .remove x => xs.erase x

def sortedRun (xs : List α) (calls : List (TreeCall α)) : List α :=
  calls.foldl (sortedCall key) xs

/-- The calls the code expects: an inserted node is not linked, nor the stack node of
`tree_remove_node`, and a removed node is linked. -/
def CallAllowed (px : α) (xs : List α) : TreeCall α → Prop
  | .insert b => b ∉ xs ∧ b ≠ px
  | .remove x => x ∈ xs

/-- A run whose every call is allowed on the list the calls before it make. -/
def Admissible (px : α) : List α → List (TreeCall α) → Prop
  | _, [] => True
  | xs, call :: calls => CallAllowed px xs call ∧ Admissible px (sortedCall key xs call) calls

variable {key}

theorem length_sortedCall_le (xs : List α) (call : TreeCall α) :
    (sortedCall key xs call).length ≤ xs.length + 1 := by
  cases call with
  | insert b =>
    cases made : insertSorted key b xs with
    | none => simp [sortedCall, made]
    | some ys => simp [sortedCall, made, (insertSorted_perm made).length_eq]
  | remove x =>
    have shorter := (List.erase_sublist : List.Sublist (xs.erase x) xs).length_le
    simp only [sortedCall]
    omega

theorem not_mem_sortedCall {px : α} {xs : List α} {call : TreeCall α} (out : px ∉ xs)
    (allowed : CallAllowed px xs call) : px ∉ sortedCall key xs call := by
  cases call with
  | insert b =>
    cases made : insertSorted key b xs with
    | none => simpa [sortedCall, made] using out
    | some ys =>
      simp only [sortedCall, made, Option.getD_some, (insertSorted_perm made).mem_iff,
        List.mem_cons, not_or]
      exact ⟨allowed.2.symm, out⟩
  | remove x => exact fun inErased => out ((List.erase_sublist).subset inErased)

theorem length_sortedRun_le : ∀ (xs : List α) (calls : List (TreeCall α)),
    (sortedRun key xs calls).length ≤ xs.length + calls.length
  | _, [] => Nat.le_add_right _ _
  | xs, call :: calls => by
    have first : (sortedCall key xs call).length ≤ xs.length + 1 := length_sortedCall_le xs call
    have rest := length_sortedRun_le (sortedCall key xs call) calls
    simp only [sortedRun, List.foldl_cons, List.length_cons] at rest ⊢
    omega

omit [DecidableEq α] in
theorem treeInv_treeInit (m : TreeMem α) : TreeInv key (treeInit m) nil :=
  ⟨rfl, List.Pairwise.nil, rfl⟩

variable {cmp : α → α → Int}
  (compares : ∀ x y, shift (cmp x y) = shiftOf (compare (key x) (key y)))
include compares

theorem treeCall_refines {m : TreeMem α} {t : BinaryTree α} (inv : TreeInv key m t) {px : α}
    (stack : px ∉ t.inorder) {call : TreeCall α} (allowed : CallAllowed px t.inorder call)
    {fuel : Nat} (enough : m.count < fuel) :
    ∃ m' t', treeCall cmp fuel px m call = some m' ∧ TreeInv key m' t' ∧
      t'.inorder = sortedCall key t.inorder call := by
  cases call with
  | insert b =>
    obtain ⟨r, m', t', run, inv', result⟩ := treeInsertNode_refines compares inv allowed.1 enough
    refine ⟨m', t', by simp [treeCall, run], inv', ?_⟩
    rcases result with ⟨-, present, rfl⟩ | ⟨-, listed⟩
    · -- a node of the key is linked: the list stays as it is
      have refused := (insertSorted_eq_none_iff inv.sorted).mpr present
      simp [sortedCall, refused]
    · simp [sortedCall, listed]
  | remove x =>
    obtain ⟨m', t', run, inv', listed⟩ := treeRemoveNode_refines inv allowed stack enough
    exact ⟨m', t', by simp [treeCall, run], inv', listed⟩

theorem treeCalls_refines {px : α} {fuel : Nat} : ∀ (calls : List (TreeCall α)) {m : TreeMem α}
    {t : BinaryTree α}, TreeInv key m t → px ∉ t.inorder → Admissible key px t.inorder calls →
      m.count + calls.length < fuel →
      ∃ m' t', treeCalls cmp fuel px m calls = some m' ∧ TreeInv key m' t' ∧
        t'.inorder = sortedRun key t.inorder calls
  | [], m, t, inv, _, _, _ => ⟨m, t, rfl, inv, rfl⟩
  | call :: calls, m, t, inv, stack, ⟨allowed, rest⟩, enough => by
    have first : m.count < fuel := by
      simp only [List.length_cons] at enough
      omega
    obtain ⟨m₁, t₁, step, inv₁, listed⟩ := treeCall_refines compares inv stack allowed first
    -- the count grows by at most one a call
    have grown : m₁.count ≤ m.count + 1 := by
      rw [inv₁.count, inv.count, ← length_inorder, ← length_inorder, listed]
      exact length_sortedCall_le _ _
    have stack₁ : px ∉ t₁.inorder := listed ▸ not_mem_sortedCall stack allowed
    have later : m₁.count + calls.length < fuel := by
      simp only [List.length_cons] at enough
      omega
    obtain ⟨m', t', run, inv', listed'⟩ := treeCalls_refines calls inv₁ stack₁ (listed ▸ rest) later
    refine ⟨m', t', ?_, inv', listed'.trans (by rw [listed]; rfl)⟩
    simp only [treeCalls, List.foldlM_cons] at run ⊢
    rw [step]
    exact run

/-- From `tree_init`, every admissible run leaves a tree whose walks read the sorted list the
calls make: `tree_traverse` visits it, with keys strictly increasing, `tree_next_node` and
`tree_prev_node` step along it, `tree_find_node` finds each of its nodes by its key, and the
count is its length. -/
theorem treeCalls_walks (m₀ : TreeMem α) {px : α} (calls : List (TreeCall α))
    (admissible : Admissible key px [] calls) {fuel : Nat} (enough : calls.length < fuel) :
    ∃ m, treeCalls cmp fuel px (treeInit m₀) calls = some m ∧
      treeTraverse fuel m = some (sortedRun key [] calls) ∧
      (sortedRun key [] calls).Pairwise (fun x y => key x < key y) ∧
      m.count = (sortedRun key [] calls).length ∧
      ∀ x ∈ sortedRun key [] calls,
        treeNextNode m.nodes fuel (some x) = some (nextIn (sortedRun key [] calls) x) ∧
        treePrevNode m.nodes fuel (some x) = some (nextIn (sortedRun key [] calls).reverse x) ∧
        treeFindNode cmp fuel m x = some (some x) := by
  obtain ⟨m, t, run, inv, listed⟩ := treeCalls_refines compares calls (treeInv_treeInit m₀)
    List.not_mem_nil admissible (by simpa [treeInit] using enough)
  rw [inorder_nil] at listed
  have nodup := inv.sorted.nodup
  have small : t.numNodes < fuel := by
    have bound : (sortedRun key [] calls).length ≤ ([] : List α).length + calls.length :=
      length_sortedRun_le [] calls
    rw [← length_inorder, listed]
    simp only [List.length_nil, zero_add] at bound
    omega
  have high : t.height < fuel := lt_of_le_of_lt (height_le_numNodes t) small
  refine ⟨m, run, ?_, listed ▸ inv.sorted, ?_, fun x mem => ?_⟩
  · rw [← listed]
    exact treeTraverse_eq inv.hangs nodup small
  · rw [inv.count, ← length_inorder, listed]
  · rw [← listed] at mem ⊢
    refine ⟨treeNextNode_eq inv.hangs nodup mem high, treePrevNode_eq inv.hangs nodup mem high, ?_⟩
    rw [treeFindNode_eq (compares x) inv.hangs inv.sorted high, search_of_mem inv.sorted mem]

end run

/-- Two children at the root: removing `2` from the tree of `1`, `2`, `3` swaps it with its own
left child. -/
theorem treeCalls_walks_remove_root : ∃ m, treeCalls (fun x y : Fin 4 => (x : Int) - y) 5 0
      (treeInit ⟨fun _ => TreeNode.init, none, 0⟩) [.insert 2, .insert 1, .insert 3, .remove 2] =
      some m ∧
    treeTraverse 5 m = some [1, 3] ∧ m.count = 2 ∧
    treeNextNode m.nodes 5 (some 1) = some (some 3) ∧ treePrevNode m.nodes 5 (some 1) = some none ∧
    treeFindNode (fun x y : Fin 4 => (x : Int) - y) 5 m 3 = some (some 3) := by
  have compares : ∀ x y : Fin 4, shift ((x : Int) - y) = shiftOf (compare x.val y.val) := by
    decide
  have admissible : Admissible (Fin.val : Fin 4 → Nat) 0 []
      [.insert 2, .insert 1, .insert 3, .remove 2] := by
    simp [Admissible, CallAllowed, sortedCall, insertSorted]
  have listed : sortedRun (Fin.val : Fin 4 → Nat) [] [.insert 2, .insert 1, .insert 3, .remove 2] =
      [1, 3] := by decide
  obtain ⟨m, run, traverse, -, count, walks⟩ := treeCalls_walks compares _ _ admissible
    (by decide : 4 < 5)
  rw [listed] at traverse count walks
  exact ⟨m, run, traverse, count, (walks 1 (by simp)).1, (walks 1 (by simp)).2.1,
    (walks 3 (by simp)).2.2⟩

end MicroSegment.Dp
