import Brickred.Lib.ObjectHeap
import Brickred.Lib.RedBlack

/-!
# `RankSet` (rank_set.h): the pointer program

`RankSet<T, CompareFunc>` is a red-black tree of heap nodes with parent
pointers, subtree counts and a header node. The model keeps the pointers:
`Memory` is the heap of `RBTreeNode`s, every member function is a function on
memories, and `none` is a run the language leaves undefined (a null or dangling
dereference) or one that does not return.

Loops carry a fuel argument and are started with `Memory.fuel`, one more than
the number of nodes ever allocated; that this is always enough is part of what
is proved about them.

Mirror-image code (`rotateLeft`/`rotateRight`, the two halves of each fixup
loop, `increment`/`decrement`) is one definition over a side `d : Dir`.
-/

namespace Brickred

open RedBlack (Dir)

/-- The address of a heap node. -/
abbrev Addr := Nat

/-- A pointer: `none` is `nullptr`. -/
abbrev Ptr := Option Addr

structure RBTreeNode (T : Type) where
  isRed : Bool
  parent : Ptr
  left : Ptr
  right : Ptr
  nodeCount : Nat
  value : T

namespace RBTreeNode

variable {T : Type}

/-- `node->left` or `node->right`. -/
def child (n : RBTreeNode T) : Dir → Ptr
  | .left => n.left
  | .right => n.right

def setChild (n : RBTreeNode T) (d : Dir) (p : Ptr) : RBTreeNode T :=
  match d with
  | .left => { n with left := p }
  | .right => { n with right := p }

/-- `new RBTreeNode()` with the value assigned: red, no children, count zero. -/
def leaf (parent : Ptr) (value : T) : RBTreeNode T :=
  { isRed := true, parent, left := none, right := none, nodeCount := 0, value }

end RBTreeNode

/-- The heap of tree nodes. -/
abbrev Memory (T : Type) := ObjectHeap (RBTreeNode T)

namespace Memory

variable {T : Type}

/-- Enough iterations for any loop that visits a node at most once. -/
def fuel (m : Memory T) : Nat := m.next + 1

def setRed (m : Memory T) (a : Addr) (b : Bool) : Option (Memory T) :=
  m.modify a fun n => { n with isRed := b }

def setParent (m : Memory T) (a : Addr) (p : Ptr) : Option (Memory T) :=
  m.modify a fun n => { n with parent := p }

def setChild (m : Memory T) (a : Addr) (d : Dir) (p : Ptr) : Option (Memory T) :=
  m.modify a fun n => n.setChild d p

def setCount (m : Memory T) (a : Addr) (k : Nat) : Option (Memory T) :=
  m.modify a fun n => { n with nodeCount := k }

/-- `if (p != nullptr) { p->parent = q; }` -/
def setParentIf (m : Memory T) (p : Ptr) (q : Addr) : Option (Memory T) :=
  match p with
  | none => some m
  | some a => m.setParent a (some q)

/-- `if (p != nullptr) { p->is_red = b; }` -/
def setRedIf (m : Memory T) (p : Ptr) (b : Bool) : Option (Memory T) :=
  match p with
  | none => some m
  | some a => m.setRed a b

/-- `p != nullptr && p->is_red` -/
def redAt (m : Memory T) (p : Ptr) : Option Bool :=
  match p with
  | none => some false
  | some a => (m.cell a).map (·.isRed)

/-- `(p == nullptr) ? 0 : p->node_count` -/
def countAt (m : Memory T) (p : Ptr) : Option Nat :=
  match p with
  | none => some 0
  | some a => (m.cell a).map (·.nodeCount)

/-- `while (node->left != nullptr) { node = node->left; }`, or to the right. -/
def descend (m : Memory T) (d : Dir) : Nat → Addr → Option Addr
  | 0, _ => none
  | fuel + 1, node => do
    let n ← m.cell node
    match n.child d with
    | none => some node
    | some next => m.descend d fuel next

/-- `while (node == parent_node->right) { … }`, or on the left: climb as long
as the node is its parent's child on side `d`. -/
def climb (m : Memory T) (d : Dir) : Nat → Addr → Addr → Option (Addr × Addr)
  | 0, _, _ => none
  | fuel + 1, node, parentNode => do
    let p ← m.cell parentNode
    if p.child d = some node then
      let grand ← p.parent
      m.climb d fuel parentNode grand
    else
      some (node, parentNode)

/-- The body shared by `increment` (`d = right`) and `decrement` (`d = left`):
the innermost node of the subtree on side `d`, or the first ancestor that is
reached from the other side. -/
def advance (m : Memory T) (d : Dir) (node : Addr) : Option Addr := do
  let n ← m.cell node
  match n.child d with
  | some c => m.descend d.opp m.fuel c
  | none =>
    let parentNode ← n.parent
    let (node, parentNode) ← m.climb d m.fuel node parentNode
    let n ← m.cell node
    -- at the root the climb may stop on the header itself
    if n.child d ≠ some parentNode then some parentNode else some node

def increment (m : Memory T) (node : Addr) : Option Addr := m.advance .right node

def decrement (m : Memory T) (node : Addr) : Option Addr := do
  let n ← m.cell node
  -- if node is header, return max node
  if n.isRed then
    let p ← m.cell (← n.parent)
    if p.parent = some node then n.right else m.advance .left node
  else
    m.advance .left node

def updateNodeCount (m : Memory T) (node : Addr) : Option (Memory T) := do
  let n ← m.cell node
  let leftCount ← m.countAt n.left
  let rightCount ← m.countAt n.right
  m.setCount node (leftCount + rightCount + 1)

/-- The descent shared by `insertNode`, `findNode`, `lowerBoundNode` and
`upperBoundNode`: `goLeft` tests the value of the visited node, and
`targetNode` is the last node at which the search went left. -/
def search (m : Memory T) (goLeft : T → Bool) : Nat → Ptr → Addr → Option Addr
  | 0, _, _ => none
  | _ + 1, none, targetNode => some targetNode
  | fuel + 1, some searchNode, targetNode => do
    let n ← m.cell searchNode
    if goLeft n.value then m.search goLeft fuel n.left searchNode
    else m.search goLeft fuel n.right targetNode

/-- `clearNode`: delete a subtree. -/
def clearNode : Nat → Memory T → Ptr → Option (Memory T)
  | 0, _, _ => none
  | _ + 1, m, none => some m
  | fuel + 1, m, some node => do
    let n ← m.cell node
    let m ← clearNode fuel m n.left
    let m ← clearNode fuel m n.right
    m.free node

/-- `copyNodes`: clone a subtree; the clone's root has no parent yet. -/
def copyNodes : Nat → Memory T → Ptr → Option (Memory T × Ptr)
  | 0, _, _ => none
  | _ + 1, m, none => some (m, none)
  | fuel + 1, m, some node => do
    let n ← m.cell node
    let (m, newNode) : Memory T × Addr := m.alloc { n with parent := none, left := none, right := none }
    let (m, l) ← copyNodes fuel m n.left
    let m ← m.setChild newNode .left l
    let (m, r) ← copyNodes fuel m n.right
    let m ← m.setChild newNode .right r
    let m ← m.setParentIf l newNode
    let m ← m.setParentIf r newNode
    some (m, some newNode)

end Memory

/-- A `RankSet` object: the header pointer and the comparator. -/
structure RankSet (T : Type) where
  header : Addr
  compareFunc : T → T → Bool

namespace RankSet

variable {T : Type} (s : RankSet T)

def resetHeaderNode (m : Memory T) : Option (Memory T) :=
  m.modify s.header fun n =>
    { n with isRed := true, parent := none, left := some s.header, right := some s.header,
             nodeCount := 0 }

def updateNodeCountToTop : Nat → Memory T → Addr → Option (Memory T)
  | 0, _, _ => none
  | fuel + 1, m, node =>
    if node = s.header then some m
    else do
      let m ← m.updateNodeCount node
      let n ← m.cell node
      updateNodeCountToTop fuel m (← n.parent)

/-- What points to `node` from above, the header's root pointer or a child
pointer of its parent, is made to point to `p`; side `d` is tested first. -/
def replaceChild (d : Dir) (m : Memory T) (node : Addr) (p : Ptr) : Option (Memory T) := do
  let h ← m.cell s.header
  if h.parent = some node then
    m.setParent s.header p
  else
    let n ← m.cell node
    let parentNode ← n.parent
    let q ← m.cell parentNode
    if q.child d = some node then m.setChild parentNode d p
    else m.setChild parentNode d.opp p

/-- Rotate `nodeX` down to side `d`: `rotateLeft` for `d = left`, `rotateRight`
for `d = right`. -/
def rotate (d : Dir) (m : Memory T) (nodeX : Addr) : Option (Memory T) := do
  let x ← m.cell nodeX
  let nodeY ← x.child d.opp
  let y ← m.cell nodeY
  -- update x
  let m ← m.setChild nodeX d.opp (y.child d)
  -- update 2
  let m ← m.setParentIf (y.child d) nodeX
  -- update y
  let m ← m.setParent nodeY x.parent
  let m ← s.replaceChild d m nodeX (some nodeY)
  -- update link between x and y
  let m ← m.setChild nodeY d (some nodeX)
  let m ← m.setParent nodeX (some nodeY)
  let m ← m.updateNodeCount nodeX
  m.updateNodeCount nodeY

def rotateLeft (m : Memory T) (nodeX : Addr) : Option (Memory T) := s.rotate .left m nodeX

def rotateRight (m : Memory T) (nodeX : Addr) : Option (Memory T) := s.rotate .right m nodeX

/-- case3 of `insertNodeFixup`: uncle is black, x is the outer child. -/
def insertNodeFixupOuter (d : Dir) (m : Memory T) (nodeX : Addr) : Option (Memory T × Addr) := do
  let x ← m.cell nodeX
  let nodeP ← x.parent
  let m ← m.setRed nodeP false
  let p ← m.cell nodeP
  let nodeG ← p.parent
  let m ← m.setRed nodeG true
  let m ← s.rotate d.opp m nodeG
  some (m, nodeX)

/-- One iteration of `insertNodeFixup` when the parent is the grandparent's
child on side `d`; returns the new `node_x`. -/
def insertNodeFixupSide (d : Dir) (m : Memory T) (nodeX : Addr) : Option (Memory T × Addr) := do
  let x ← m.cell nodeX
  let nodeP ← x.parent
  let p ← m.cell nodeP
  let nodeG ← p.parent
  let g ← m.cell nodeG
  let nodeU := g.child d.opp
  if ← m.redAt nodeU then
    -- case1: uncle is red
    let m ← m.setRed nodeP false
    let m ← m.setRedIf nodeU false
    let m ← m.setRed nodeG true
    some (m, nodeG)
  else if p.child d.opp = some nodeX then
    -- case2: uncle is black, x is the inner child; change case2 to case3
    let m ← s.rotate d m nodeP
    s.insertNodeFixupOuter d m nodeP
  else
    s.insertNodeFixupOuter d m nodeX

def insertNodeFixupLoop : Nat → Memory T → Addr → Option (Memory T × Addr)
  | 0, _, _ => none
  | fuel + 1, m, nodeX => do
    let h ← m.cell s.header
    if h.parent = some nodeX then some (m, nodeX)
    else
      let x ← m.cell nodeX
      let nodeP ← x.parent
      let p ← m.cell nodeP
      if p.isRed then
        let g ← m.cell (← p.parent)
        let d : Dir := if g.left = some nodeP then .left else .right
        let (m, nodeX) ← s.insertNodeFixupSide d m nodeX
        insertNodeFixupLoop fuel m nodeX
      else some (m, nodeX)

def insertNodeFixup (m : Memory T) (nodeX : Addr) : Option (Memory T) := do
  let (m, nodeX) ← s.insertNodeFixupLoop m.fuel m nodeX
  let m ← s.updateNodeCountToTop m.fuel m nodeX
  let h ← m.cell s.header
  m.setRed (← h.parent) false

/-- The four attachment blocks of `insertNode`: a new red leaf below `parent`,
linked in by `link`, counted and rebalanced. -/
def attachNode (m : Memory T) (parent : Addr) (value : T)
    (link : Memory T → Addr → Option (Memory T)) : Option (Memory T × Addr × Bool) := do
  let (m, newNode) : Memory T × Addr := m.alloc (.leaf (some parent) value)
  let m ← link m newNode
  let m ← s.updateNodeCountToTop m.fuel m newNode
  let m : Memory T ← m.modify s.header fun h => { h with nodeCount := h.nodeCount + 1 }
  let m ← s.insertNodeFixup m newNode
  some (m, newNode, true)

def insertNode (m : Memory T) (value : T) : Option (Memory T × Addr × Bool) := do
  let h ← m.cell s.header
  -- insert to empty tree
  if h.nodeCount = 0 then
    s.attachNode m s.header value fun m newNode =>
      m.modify s.header fun h =>
        { h with parent := some newNode, left := some newNode, right := some newNode }
  else
    -- find position to insert new node
    let targetNode ← m.search (fun v => !s.compareFunc v value) m.fuel h.parent s.header
    -- insert at end()
    if targetNode = s.header then
      let maxNode ← h.right
      s.attachNode m maxNode value fun m newNode => do
        let m ← m.setChild maxNode .right (some newNode)
        m.setChild s.header .right (some newNode)
    else
      let target ← m.cell targetNode
      -- insert value alreay exists
      if !s.compareFunc value target.value then
        some (m, targetNode, false)
      else
        match target.left with
        | none =>
          s.attachNode m targetNode value fun m newNode => do
            let m ← m.setChild targetNode .left (some newNode)
            let h ← m.cell s.header
            if h.left = some targetNode then m.setChild s.header .left (some newNode) else some m
        | some searchNode =>
          let searchNode ← m.descend .right m.fuel searchNode
          s.attachNode m searchNode value fun m newNode => do
            let m ← m.setChild searchNode .right (some newNode)
            let h ← m.cell s.header
            if h.right = some searchNode then m.setChild s.header .right (some newNode)
            else some m

/-- case4 of `eraseNodeFixup`: w is black and the far child of w is red. -/
def eraseNodeFixupOuter (d : Dir) (m : Memory T) (nodeP nodeW : Addr) : Option (Memory T) := do
  let p ← m.cell nodeP
  let m ← m.setRed nodeW p.isRed
  let m ← m.setRed nodeP false
  let w ← m.cell nodeW
  let m ← m.setRedIf (w.child d.opp) false
  let m ← s.rotate d m nodeP
  s.updateNodeCountToTop m.fuel m nodeP

/-- case2, case3 and case4 of `eraseNodeFixup`: the sibling `nodeW` is black. The
flag tells a `break` (`true`) from a next round. -/
def eraseNodeFixupBlack (d : Dir) (m : Memory T) (nodeX : Ptr) (nodeP nodeW : Addr) :
    Option (Memory T × Ptr × Addr × Bool) := do
  let w ← m.cell nodeW
  let nearRed ← m.redAt (w.child d)
  let farRed ← m.redAt (w.child d.opp)
  if !nearRed && !farRed then
    -- case2: both children of w are black
    let m ← m.setRed nodeW true
    let p ← m.cell nodeP
    let newParent ← p.parent
    some (m, some nodeP, newParent, false)
  else if !farRed then
    -- case3: the near child of w is red and the far child is black
    let m ← m.setRedIf (w.child d) false
    let m ← m.setRed nodeW true
    let m ← s.rotate d.opp m nodeW
    let p ← m.cell nodeP
    let nodeW ← p.child d.opp
    let m ← s.eraseNodeFixupOuter d m nodeP nodeW
    some (m, nodeX, nodeP, true)
  else
    let m ← s.eraseNodeFixupOuter d m nodeP nodeW
    some (m, nodeX, nodeP, true)

/-- One iteration of `eraseNodeFixup` when `node_x` is the child on side `d` of
`node_x_new_parent`. -/
def eraseNodeFixupSide (d : Dir) (m : Memory T) (nodeX : Ptr) (nodeP : Addr) :
    Option (Memory T × Ptr × Addr × Bool) := do
  let p ← m.cell nodeP
  let nodeW ← p.child d.opp
  let w ← m.cell nodeW
  if w.isRed then
    -- case1: w is red
    let m ← m.setRed nodeW false
    let m ← m.setRed nodeP true
    let m ← s.rotate d m nodeP
    let p ← m.cell nodeP
    let nodeW ← p.child d.opp
    s.eraseNodeFixupBlack d m nodeX nodeP nodeW
  else
    s.eraseNodeFixupBlack d m nodeX nodeP nodeW

def eraseNodeFixupLoop : Nat → Memory T → Ptr → Addr → Option (Memory T × Ptr)
  | 0, _, _, _ => none
  | fuel + 1, m, nodeX, nodeXNewParent => do
    let h ← m.cell s.header
    if h.parent = nodeX then some (m, nodeX)
    else if ← m.redAt nodeX then some (m, nodeX)
    else
      let p ← m.cell nodeXNewParent
      let d : Dir := if p.left = nodeX then .left else .right
      let (m, nodeX, nodeXNewParent, stop) ← s.eraseNodeFixupSide d m nodeX nodeXNewParent
      if stop then some (m, nodeX) else eraseNodeFixupLoop fuel m nodeX nodeXNewParent

def eraseNodeFixup (m : Memory T) (nodeX : Ptr) (nodeXNewParent : Addr) :
    Option (Memory T) := do
  let (m, nodeX) ← s.eraseNodeFixupLoop m.fuel m nodeX nodeXNewParent
  m.setRedIf nodeX false

/-- The first block of `eraseNode`: update min max value. -/
def eraseNodeMinMax (m : Memory T) (nodeZ : Addr) : Option (Memory T) := do
  let h ← m.cell s.header
  if h.nodeCount = 1 then
    let m ← m.setChild s.header .left (some s.header)
    m.setChild s.header .right (some s.header)
  else if h.left = some nodeZ then
    m.setChild s.header .left (some (← m.increment nodeZ))
  else if h.right = some nodeZ then
    m.setChild s.header .right (some (← m.decrement nodeZ))
  else some m

/-- `eraseNode` when `node_z` has at most one child `nodeX`: link `nodeX` to
`node_z`'s parent. Returns `node_x_new_parent`. -/
def eraseNodeSplice (m : Memory T) (nodeZ : Addr) (nodeX : Ptr) : Option (Memory T × Addr) := do
  let z ← m.cell nodeZ
  let newParent ← z.parent
  let m ← m.setParentIf nodeX newParent
  let m ← s.replaceChild .left m nodeZ nodeX
  some (m, newParent)

/-- `if (node_z->right != node_y)`: the successor `nodeY` leaves its place to
`nodeX` and becomes the parent of `node_z`'s right subtree. -/
def eraseNodeDetach (m : Memory T) (z : RBTreeNode T) (nodeY : Addr) (nodeX : Ptr) :
    Option (Memory T × Addr) := do
  if z.right ≠ some nodeY then
    let y ← m.cell nodeY
    let newParent ← y.parent
    let m ← m.setParentIf nodeX newParent
    let m ← m.setChild newParent .left nodeX
    let rightZ ← z.right
    let m ← m.setChild nodeY .right (some rightZ)
    let m ← m.setParent rightZ (some nodeY)
    some (m, newParent)
  else some (m, nodeY)

/-- `eraseNode` when `node_z` has two children: relink its successor `nodeY` in
place of `node_z`. Returns `node_x_new_parent`. -/
def eraseNodeRelink (m : Memory T) (nodeZ nodeY : Addr) (nodeX : Ptr) :
    Option (Memory T × Addr) := do
  let z ← m.cell nodeZ
  let leftZ ← z.left
  let m ← m.setParent leftZ (some nodeY)
  let m ← m.setChild nodeY .left (some leftZ)
  let (m, newParent) ← eraseNodeDetach m z nodeY nodeX
  let m ← s.replaceChild .left m nodeZ (some nodeY)
  let m ← m.setParent nodeY z.parent
  -- std::swap(node_y->is_red, node_z->is_red)
  let y ← m.cell nodeY
  let z ← m.cell nodeZ
  let m ← m.setRed nodeY z.isRed
  let m ← m.setRed nodeZ y.isRed
  some (m, newParent)

/-- `if (node_z->is_red == false)`: `nodeZ` carries the colour of the node that has
left its place in the tree. -/
def eraseNodeRebalance (m : Memory T) (nodeZ : Addr) (nodeX : Ptr) (newParent : Addr) :
    Option (Memory T) := do
  let z ← m.cell nodeZ
  if z.isRed then some m else s.eraseNodeFixup m nodeX newParent

/-- The rest of `eraseNode` once `nodeZ` is unlinked. -/
def eraseNodeFinish (m : Memory T) (nodeZ : Addr) (nodeX : Ptr) (newParent : Addr) :
    Option (Memory T) := do
  let m ← s.updateNodeCountToTop m.fuel m newParent
  let m ← s.eraseNodeRebalance m nodeZ nodeX newParent
  let m : Memory T ← m.modify s.header fun h => { h with nodeCount := h.nodeCount - 1 }
  m.free nodeZ

def eraseNode (m : Memory T) (nodeZ : Addr) : Option (Memory T) := do
  let m ← s.eraseNodeMinMax m nodeZ
  let z ← m.cell nodeZ
  match z.left, z.right with
  | none, nodeX => do
    let (m, newParent) ← s.eraseNodeSplice m nodeZ nodeX
    s.eraseNodeFinish m nodeZ nodeX newParent
  | nodeX, none => do
    let (m, newParent) ← s.eraseNodeSplice m nodeZ nodeX
    s.eraseNodeFinish m nodeZ nodeX newParent
  | some _, some rightZ => do
    let nodeY ← m.descend .left m.fuel rightZ
    let y ← m.cell nodeY
    let (m, newParent) ← s.eraseNodeRelink m nodeZ nodeY y.right
    s.eraseNodeFinish m nodeZ y.right newParent

/-! ## Queries -/

/-- The descent of `findNode` and `lowerBoundNode`. -/
def lowerBoundNode (m : Memory T) (value : T) : Option Addr := do
  let h ← m.cell s.header
  m.search (fun v => !s.compareFunc v value) m.fuel h.parent s.header

def upperBoundNode (m : Memory T) (value : T) : Option Addr := do
  let h ← m.cell s.header
  m.search (fun v => s.compareFunc value v) m.fuel h.parent s.header

def findNode (m : Memory T) (value : T) : Option Addr := do
  let targetNode ← s.lowerBoundNode m value
  if targetNode ≠ s.header then
    let target ← m.cell targetNode
    if s.compareFunc value target.value then some s.header else some targetNode
  else some targetNode

def selectLoop (m : Memory T) : Nat → Ptr → Nat → Option Addr
  | 0, _, _ => none
  | _ + 1, none, _ => some s.header
  | fuel + 1, some searchNode, rank => do
    let n ← m.cell searchNode
    let leftCount ← m.countAt n.left
    if rank = leftCount then some searchNode
    else if rank < leftCount then selectLoop m fuel n.left rank
    else selectLoop m fuel n.right (rank - (leftCount + 1))

def selectNode (m : Memory T) (rank : Nat) : Option Addr := do
  let h ← m.cell s.header
  s.selectLoop m m.fuel h.parent rank

def rankLoop (m : Memory T) (value : T) : Nat → Ptr → Nat → Option Nat
  | 0, _, _ => none
  | _ + 1, none, rank => some rank
  | fuel + 1, some searchNode, rank => do
    let n ← m.cell searchNode
    if s.compareFunc value n.value then rankLoop m value fuel n.left rank
    else
      let leftCount ← m.countAt n.left
      if s.compareFunc n.value value then rankLoop m value fuel n.right (rank + (1 + leftCount))
      else some (rank + leftCount)

def rankNode (m : Memory T) (value : T) : Option Nat := do
  let h ← m.cell s.header
  s.rankLoop m value m.fuel h.parent 0

/-! ## The public interface -/

section Interface

variable [Inhabited T]

/-- The constructor's `new RBTreeNode()`: every field value-initialised. -/
def headerNode : RBTreeNode T :=
  { isRed := false, parent := none, left := none, right := none, nodeCount := 0,
    value := default }

/-- `RankSet()`; `compareFunc` is the default-constructed comparator. -/
def construct (compareFunc : T → T → Bool) (m : Memory T) : Option (Memory T × RankSet T) := do
  let (m, header) : Memory T × Addr := m.alloc headerNode
  let s : RankSet T := { header, compareFunc }
  let m ← s.resetHeaderNode m
  some (m, s)

/-- The `update min max` block of the copy constructor. -/
def copyMinMax (m : Memory T) (header : Addr) : Ptr → Option (Memory T)
  | none => do
    let m ← m.setChild header .left (some header)
    m.setChild header .right (some header)
  | some root => do
    let m ← m.setChild header .left (some (← m.descend .left m.fuel root))
    m.setChild header .right (some (← m.descend .right m.fuel root))

/-- `RankSet(const RankSet &other)` -/
def copyConstruct (m : Memory T) (other : RankSet T) : Option (Memory T × RankSet T) := do
  let (m, header) : Memory T × Addr := m.alloc headerNode
  let s : RankSet T := { header, compareFunc := other.compareFunc }
  let m ← s.resetHeaderNode m
  -- copy nodes
  let o ← m.cell other.header
  let (m, root) ← m.copyNodes m.fuel o.parent
  let m ← m.setParent header root
  let m ← m.setParentIf root header
  let o ← m.cell other.header
  let m ← m.setCount header o.nodeCount
  let m ← copyMinMax m header root
  some (m, s)

/-- `RankSet(RankSet &&other)`: returns the new set and what is left of `other`. -/
def moveConstruct (m : Memory T) (other : RankSet T) :
    Option (Memory T × RankSet T × RankSet T) := do
  let s : RankSet T := { header := other.header, compareFunc := other.compareFunc }
  let (m, header) : Memory T × Addr := m.alloc headerNode
  let other : RankSet T := { other with header }
  let m ← other.resetHeaderNode m
  some (m, s, other)

def clear (m : Memory T) : Option (Memory T) := do
  let h ← m.cell s.header
  let m ← m.clearNode m.fuel h.parent
  s.resetHeaderNode m

/-- `~RankSet()` -/
def destruct (m : Memory T) : Option (Memory T) := do
  let m ← s.clear m
  m.free s.header

end Interface

def begin (m : Memory T) : Option Addr := do
  let h ← m.cell s.header
  h.left

def end' : Addr := s.header

def rbegin (m : Memory T) : Option Addr := do
  let h ← m.cell s.header
  h.right

def rend : Addr := s.header

def size (m : Memory T) : Option Nat := do
  let h ← m.cell s.header
  some h.nodeCount

def empty (m : Memory T) : Option Bool := do
  let h ← m.cell s.header
  some (h.nodeCount = 0)

def insert (m : Memory T) (value : T) : Option (Memory T × Addr × Bool) := s.insertNode m value

/-- `erase(Iterator iter)` -/
def eraseIter (m : Memory T) (iter : Addr) : Option (Memory T × Addr) := do
  if iter = s.end' then some (m, iter)
  else
    let retIter ← m.increment iter
    let m ← s.eraseNode m iter
    some (m, retIter)

def find (m : Memory T) (value : T) : Option Addr := s.findNode m value

/-- `erase(const T &value)` -/
def eraseValue (m : Memory T) (value : T) : Option (Memory T × Nat) := do
  let iter ← s.find m value
  if iter = s.end' then some (m, 0)
  else
    let (m, _) ← s.eraseIter m iter
    some (m, 1)

def lowerBound (m : Memory T) (value : T) : Option Addr := s.lowerBoundNode m value

def upperBound (m : Memory T) (value : T) : Option Addr := s.upperBoundNode m value

def select (m : Memory T) (rank : Nat) : Option Addr := s.selectNode m rank

def rank (m : Memory T) (value : T) : Option Nat := s.rankNode m value

/-- The in-order walk `for (it = begin(); it != end(); ++it)`, as the pairs of
iterator and value it visits. -/
def walk (m : Memory T) : Nat → Addr → Option (List (Addr × T))
  | 0, _ => none
  | fuel + 1, iter =>
    if iter = s.end' then some []
    else do
      let n ← m.cell iter
      let rest ← walk m fuel (← m.increment iter)
      some ((iter, n.value) :: rest)

def contents (m : Memory T) : Option (List (Addr × T)) := do
  s.walk m m.fuel (← s.begin m)

end RankSet

end Brickred
