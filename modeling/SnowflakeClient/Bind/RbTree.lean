import SnowflakeClient.CString
import SnowflakeClient.RedBlack

/-!
# The red-black tree of the bind parameters

`lib/rbtree.c`. A tree is the nodes that were allocated for it, at addresses that count up, with
the pointer to its root. Every function follows the pointers as the source does; `none` is a run
that reads or writes through `NULL`, or that does not end within its fuel. `SF_CALLOC` does not
return `NULL`: `sf_calloc` ends the process.

`rbtree_rotate_left` and `rbtree_rotate_right`, and the two halves of the loop of
`rbtree_fix_tree`, are one function with a side.
-/

namespace Snowflake

open RedBlack

/-- `SF_INT_RET_CODE`. -/
inductive IntRetCode where
  | success
  | error
  | nodeNotFound
  | duplicates
  deriving DecidableEq, Repr

/-- A pointer to a node; `none` is `NULL`. -/
abbrev NodePtr := Option Nat

structure RedBlackNode (ν : Type) where
  color : Color
  elem : Option ν
  key : Option CString
  left : NodePtr
  right : NodePtr
  parent : NodePtr

namespace RedBlackNode

variable {ν : Type}

def child (n : RedBlackNode ν) : Side → NodePtr
  | .left => n.left
  | .right => n.right

def setChild (p : NodePtr) : Side → RedBlackNode ν → RedBlackNode ν
  | .left, n => { n with left := p }
  | .right, n => { n with right := p }

def setParent (p : NodePtr) (n : RedBlackNode ν) : RedBlackNode ν := { n with parent := p }

def setEntry (name : CString) (param : ν) (n : RedBlackNode ν) : RedBlackNode ν :=
  { n with key := some name, elem := some param }

def paint (c : Color) (n : RedBlackNode ν) : RedBlackNode ν := { n with color := c }

/-- What `SF_CALLOC` gives; `RED` is the first of the colours. -/
def zero : RedBlackNode ν := ⟨.red, none, none, none, none, none⟩

end RedBlackNode

open RedBlackNode

structure RedBlackTree (ν : Type) where
  nodes : Nat → Option (RedBlackNode ν)
  next : Nat
  root : NodePtr

namespace RedBlackTree

variable {ν : Type} (T : RedBlackTree ν)

/-- `*p`. -/
def load (p : NodePtr) : Option (RedBlackNode ν) := p.bind T.nodes

/-- The node `n` at the address `a`. -/
def set (a : Nat) (n : RedBlackNode ν) : RedBlackTree ν :=
  { T with nodes := Function.update T.nodes a (some n) }

/-- An assignment to members of `*p`. -/
def store (p : NodePtr) (f : RedBlackNode ν → RedBlackNode ν) : Option (RedBlackTree ν) := do
  let a ← p
  let n ← T.nodes a
  some (T.set a (f n))

/-- `p->parent`. -/
def parentOf (p : NodePtr) : Option NodePtr := (T.load p).map (·.parent)

/-- `p->parent->parent`. -/
def grandparentOf (p : NodePtr) : Option NodePtr := do T.parentOf (← T.parentOf p)

end RedBlackTree

section Functions

variable {ν : Type}

def rbtreeInit : RedBlackTree ν where
  nodes := fun a => if a = 0 then some (zero.paint .black) else none
  next := 1
  root := some 0

def rbtreeNewNode (T : RedBlackTree ν) : NodePtr × RedBlackTree ν :=
  (some T.next, { T.set T.next zero with next := T.next + 1 })

def rbtreeGetUncle (T : RedBlackTree ν) (target : NodePtr) : Option NodePtr := do
  let parent ← T.parentOf target
  let grandparent ← T.grandparentOf target
  if grandparent = none then
    some none
  else
    let g ← T.load grandparent
    some (if parent = g.right then g.left else g.right)

def rbtreeSetColor (T : RedBlackTree ν) (node : NodePtr) (c : Color) : Option (RedBlackTree ν) :=
  if node = none then some T else T.store node (paint c)

def rbtreeGetColor (T : RedBlackTree ν) (node : NodePtr) : Option Color :=
  if node = none then some .black else (T.load node).map (·.color)

/-- A rotation, up to the pointer to the two nodes: `child` comes up, and `node` goes down on the
side `d`. -/
def rotateNodes (d : Side) (T : RedBlackTree ν) (node child parent : NodePtr) :
    Option (RedBlackTree ν) := do
  let T ← T.store child (setParent parent)
  let moved := (← T.load child).child d
  let T ← T.store node (setChild moved d.other)
  let T ← if moved = none then some T else T.store moved (setParent node)
  let T ← T.store child (setChild node d)
  T.store node (setParent child)

/-- The end of a rotation: `child` takes the place of `node`. -/
def replaceChild (T : RedBlackTree ν) (node child parent : NodePtr) : Option (RedBlackTree ν) :=
  if parent = none then
    some { T with root := child }
  else do
    if node = (← T.load parent).right then
      T.store parent (setChild child .right)
    else
      T.store parent (setChild child .left)

/-- `rbtree_rotate_left` and `rbtree_rotate_right`: the child on the side that is not `d` comes
up. -/
def rbtreeRotate (d : Side) (T : RedBlackTree ν) (node : NodePtr) : Option (RedBlackTree ν) := do
  let n ← T.load node
  let child := n.child d.other
  let parent := n.parent
  let T ← rotateNodes d T node child parent
  replaceChild T node child parent

def rbtreeRotateLeft (T : RedBlackTree ν) (node : NodePtr) : Option (RedBlackTree ν) :=
  rbtreeRotate .left T node

def rbtreeRotateRight (T : RedBlackTree ν) (node : NodePtr) : Option (RedBlackTree ν) :=
  rbtreeRotate .right T node

/-- The branch of `rbtree_fix_tree` for a red uncle, with the new target. -/
def flipColors (T : RedBlackTree ν) (target uncle : NodePtr) :
    Option (RedBlackTree ν × NodePtr) := do
  let T ← rbtreeSetColor T (← T.parentOf target) .black
  let T ← rbtreeSetColor T uncle .black
  let T ← rbtreeSetColor T (← T.grandparentOf target) .red
  some (T, ← T.grandparentOf target)

/-- The end of the branch for a black uncle: the parent comes up in the place of its parent. -/
def rotateUp (d : Side) (T : RedBlackTree ν) (target : NodePtr) : Option (RedBlackTree ν) := do
  let T ← rbtreeSetColor T (← T.parentOf target) .black
  let T ← rbtreeSetColor T (← T.grandparentOf target) .red
  rbtreeRotate d.other T (← T.grandparentOf target)

/-- One round of the loop of `rbtree_fix_tree`, for a parent that is the child of its parent on the
side `d`: the new tree and the new target. -/
def rbtreeFixRound (d : Side) (T : RedBlackTree ν) (target : NodePtr) :
    Option (RedBlackTree ν × NodePtr) := do
  let uncle ← rbtreeGetUncle T target
  if (← rbtreeGetColor T uncle) = .red then
    flipColors T target uncle
  else
    let parent ← T.parentOf target
    if target = (← T.load parent).child d.other then
      let T ← rbtreeRotate d T parent
      some (← rotateUp d T parent, parent)
    else
      some (← rotateUp d T target, target)

/-- The loop of `rbtree_fix_tree`. -/
def rbtreeFixLoop : (fuel : Nat) → RedBlackTree ν → (target : NodePtr) → Option (RedBlackTree ν)
  | 0, _, _ => none
  | fuel + 1, T, target =>
    if target = T.root then
      some T
    else do
      let parent ← T.parentOf target
      if (← rbtreeGetColor T parent) = .red then
        let g ← T.load (← T.parentOf parent)
        let (T, target) ← rbtreeFixRound (if parent = g.left then .left else .right) T target
        rbtreeFixLoop fuel T target
      else
        some T

/-- `rbtree_fix_tree`. A round goes up, so there are not more of them than nodes. -/
def rbtreeFixTree (T : RedBlackTree ν) (target : NodePtr) :
    Option (IntRetCode × RedBlackTree ν) :=
  if target = none then
    some (.error, T)
  else do
    let T ← rbtreeFixLoop (T.next + 1) T target
    let T ← T.store T.root (paint .black)
    some (.success, T)

/-- The new red node of `rbtree_insert`, as the child of `node` on the side `d`. -/
def addChild (param : ν) (name : CString) (d : Side) (T : RedBlackTree ν) (node : NodePtr) :
    Option (NodePtr × RedBlackTree ν) := do
  let (new, T) := rbtreeNewNode T
  let T ← T.store node (setChild new d)
  let T ← T.store new (setEntry name param)
  let T ← T.store new (setParent node)
  let T ← T.store new (paint .red)
  some (new, T)

/-- The loop of `rbtree_insert`. -/
def rbtreeInsertLoop (param : ν) (name : CString) :
    (fuel : Nat) → RedBlackTree ν → (node : NodePtr) → Option (IntRetCode × RedBlackTree ν)
  | 0, _, _ => none
  | fuel + 1, T, node => do
    let n ← T.load node
    let cmp := name.strcmp (← n.key)
    if cmp = 0 then
      some (.duplicates, ← T.store node (setEntry name param))
    else
      let d : Side := if 0 < cmp then .right else .left
      if n.child d ≠ none then
        rbtreeInsertLoop param name fuel T (n.child d)
      else
        let (new, T) ← addChild param name d T node
        let (_, T) ← rbtreeFixTree T new
        some (.success, T)

/-- `rbtree_insert`. -/
def rbtreeInsert (T : RedBlackTree ν) (param : Option ν) (name : Option CString) :
    Option (IntRetCode × RedBlackTree ν) :=
  match T.root, param, name with
  | some root, some param, some name => do
    let n ← T.nodes root
    if n.elem.isNone then
      some (.success, ← T.store (some root) (setEntry name param))
    else
      rbtreeInsertLoop param name T.next T (some root)
  | _, _, _ => some (.error, T)

/-- The loop of `rbtree_search_node`. -/
def rbtreeSearchLoop (T : RedBlackTree ν) (key : CString) :
    (fuel : Nat) → (node : NodePtr) → Option (Option ν)
  | 0, _ => none
  | fuel + 1, node => do
    let n ← T.load node
    let cmp := key.strcmp (← n.key)
    if cmp = 0 then
      some n.elem
    else
      let node := if cmp < 0 then n.left else n.right
      if node = none then some none else rbtreeSearchLoop T key fuel node

/-- `rbtree_search_node`; a tree that is `NULL` is `none`. -/
def rbtreeSearchNode (tree : Option (RedBlackTree ν)) (key : Option CString) : Option (Option ν) :=
  match tree, key with
  | some T, some key => do
    if (← T.load T.root).elem.isNone then
      some none
    else
      rbtreeSearchLoop T key T.next T.root
  | _, _ => some none

end Functions

end Snowflake
