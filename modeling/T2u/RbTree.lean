import T2u.RedBlack
import T2u.Table

/-!
# The red-black tree in memory

`t2u_rbtree.c` as it works on memory: nodes at addresses, linked to their parent
and their children.  The heap holds the nodes that `rbtree_createnode` has
allocated and that are not freed.

A function gives `none` where the code would dereference `NULL` or a freed node, or
where an assertion fails.  The loops and the recursion of `delete_case1` are cut
off after as many turns as there are nodes, which is `none` too; so a result says
that they end.

The mirror images in the source are one function of the direction here: `rotate d`
brings the child on the other side up, to the place of the node.
-/

namespace T2u
open RedBlack

/-- An address. -/
abbrev Addr := Nat

/-- `struct rbtree_node`. -/
structure RbNode (K V : Type) where
  parent : Option Addr
  left : Option Addr
  right : Option Addr
  color : Color
  key : K
  data : V

namespace RbNode
variable {K V : Type}

/-- The child on a side. -/
def child (n : RbNode K V) : Dir → Option Addr
  | .left => n.left
  | .right => n.right

/-- Writes one of the two links. -/
def setChild (d : Dir) (child : Option Addr) (n : RbNode K V) : RbNode K V :=
  match d with
  | .left => { n with left := child }
  | .right => { n with right := child }

end RbNode

/-- `struct rbtree`, and the nodes in memory. -/
structure RbTree (K V : Type) where
  root : Option Addr := none
  heap : Table Addr (RbNode K V) := Table.empty

namespace RbTree
variable {K V : Type} (compare : K → K → Int)

/-! ## Nodes -/

/-- Reads the node at an address. -/
def deref (t : RbTree K V) (a : Addr) : Option (RbNode K V) := t.heap.lookup a

/-- Writes to the node at an address. -/
def modify (t : RbTree K V) (a : Addr) (f : RbNode K V → RbNode K V) : Option (RbTree K V) :=
  (t.deref a).map fun _ => { t with heap := t.heap.update a f }

/-- More turns than any walk along the links takes. -/
def fuel (t : RbTree K V) : Nat := t.heap.size + 1

/-- `get_color`: a leaf is black. -/
def getColor (t : RbTree K V) : Option Addr → Option Color
  | none => some .black
  | some a => (t.deref a).map RbNode.color

/-- `set_color`, which asserts that there is a node. -/
def setColor (t : RbTree K V) (color : Color) : Option Addr → Option (RbTree K V)
  | none => none
  | some a => t.modify a fun n => { n with color := color }

/-- `set_parent`. -/
def setParent (t : RbTree K V) (parent : Option Addr) (a : Addr) : Option (RbTree K V) :=
  t.modify a fun n => { n with parent := parent }

/-- `if (child) set_parent(parent, child)`. -/
def setParentOf (t : RbTree K V) (parent : Option Addr) : Option Addr → Option (RbTree K V)
  | none => some t
  | some a => t.setParent parent a

/-- The side of the parent `p` on which the node `a` is looked for first. -/
def sideOf (p : RbNode K V) (a : Addr) : Dir := if p.left = some a then .left else .right

/-- `sibling`: the other child of the parent. -/
def sibling (t : RbTree K V) (node : Addr) : Option (Option Addr) := do
  let n ← t.deref node
  let parent ← n.parent
  let p ← t.deref parent
  return p.child (sideOf p node).other

/-- `get_min`: down on the left. -/
def getMin (t : RbTree K V) : Nat → Addr → Option Addr
  | 0, _ => none
  | fuel + 1, node => do
    let n ← t.deref node
    match n.left with
    | none => some node
    | some left => getMin t fuel left

/-! ## Looking up -/

/-- `do_lookup`: the node with the key, and the last node passed. -/
def doLookup (t : RbTree K V) (key : K) :
    Nat → Option Addr → Option Addr → Option (Option Addr × Option Addr)
  | _, none, parent => some (none, parent)
  | 0, some _, _ => none
  | fuel + 1, some current, parent => do
    let n ← t.deref current
    let ret := compare n.key key
    if ret = 0 then some (some current, parent)
    else if ret < 0 then doLookup t key fuel n.right (some current)
    else doLookup t key fuel n.left (some current)

/-- `rbtree_lookup`; the result is `NULL` where there is no data. -/
def rbtreeLookup (t : RbTree K V) (key : K) : Option (Option V) := do
  let found ← doLookup compare t key t.fuel t.root none
  match found.1 with
  | none => some none
  | some node => (t.deref node).map fun n => some n.data

/-! ## Links -/

/-- `set_child`: the side is that of the keys, which differ by assertion. -/
def setChild (t : RbTree K V) (node child : Addr) : Option (RbTree K V) := do
  let n ← t.deref node
  let c ← t.deref child
  let ret := compare n.key c.key
  if ret = 0 then none
  else t.modify node (RbNode.setChild (if 0 < ret then .left else .right) (some child))

/-- The first lines of the rotations and of `replace_node`: whatever pointed to
`old` from above points to `new`. -/
def relink (t : RbTree K V) (parent : Option Addr) (old : Addr) (new : Option Addr) :
    Option (RbTree K V) :=
  match parent with
  | none => some { t with root := new }
  | some parent => do
    let p ← t.deref parent
    t.modify parent (RbNode.setChild (sideOf p old) new)

/-- `rotate_left` and `rotate_right`, in the order of the source. -/
def rotate (d : Dir) (t : RbTree K V) (node : Addr) : Option (RbTree K V) := do
  let p ← t.deref node
  let q ← p.child d.other
  let parent := p.parent
  let t ← t.relink parent node (some q)
  let t ← t.setParent parent q
  let t ← t.setParent (some q) node
  let qn ← t.deref q
  let t ← t.modify node (RbNode.setChild d.other (qn.child d))
  let t ← t.setParentOf (some node) (qn.child d)
  t.modify q (RbNode.setChild d (some node))

/-- `rotate_left`. -/
def rotateLeft (t : RbTree K V) (node : Addr) : Option (RbTree K V) := rotate .left t node

/-- `rotate_right`. -/
def rotateRight (t : RbTree K V) (node : Addr) : Option (RbTree K V) := rotate .right t node

/-- `replace_node`. -/
def replaceNode (t : RbTree K V) (old : Addr) (new : Option Addr) : Option (RbTree K V) := do
  let o ← t.deref old
  let t ← t.relink o.parent old new
  t.setParentOf o.parent new

/-! ## Inserting -/

/-- A node on the inner side of its parent is rotated to the outer side first. -/
def turnOut (d : Dir) (t : RbTree K V) (node parent : Addr) :
    Option (RbTree K V × Addr × Addr) := do
  let p ← t.deref parent
  if p.child d.other = some node then
    let t ← rotate d t parent
    let n ← t.deref parent
    let above ← n.parent
    return (t, parent, above)
  else return (t, node, parent)

/-- A turn of the loop of `__rbtree_insert`, for a parent on the side `d` of its own
parent: the tree and the node to go on with. -/
def insertTurn (d : Dir) (t : RbTree K V) (node parent grandpa : Addr) :
    Option (RbTree K V × Addr) := do
  let g ← t.deref grandpa
  let uncle := g.child d.other
  if (← t.getColor uncle) = .red then
    let t ← t.setColor .red (some grandpa)
    let t ← t.setColor .black (some parent)
    let t ← t.setColor .black uncle
    return (t, grandpa)
  else
    let (t, node, parent) ← turnOut d t node parent
    let t ← t.setColor .black (some parent)
    let t ← t.setColor .red (some grandpa)
    let t ← rotate d.other t grandpa
    return (t, node)

/-- The loop of `__rbtree_insert`. -/
def insertFix : Nat → RbTree K V → Addr → Option (RbTree K V)
  | 0, _, _ => none
  | fuel + 1, t, node => do
    let n ← t.deref node
    match n.parent with
    | none => return t
    | some parent =>
      let p ← t.deref parent
      if p.color = .red then
        let grandpa ← p.parent
        let g ← t.deref grandpa
        let (t, node) ← insertTurn (sideOf g parent) t node parent grandpa
        insertFix fuel t node
      else return t

/-- The new node becomes the root, or a child of `parent`. -/
def linkNew (t : RbTree K V) (node : Addr) : Option Addr → Option (RbTree K V)
  | none => some { t with root := some node }
  | some parent => setChild compare t parent node

/-- `__rbtree_insert`: the node that has the key already, if there is one. -/
def insertNode (t : RbTree K V) (node : Addr) : Option (Option Addr × RbTree K V) := do
  let n ← t.deref node
  let (samenode, parent) ← doLookup compare t n.key t.fuel t.root none
  match samenode with
  | some same => return (some same, t)
  | none =>
    let t ← t.modify node fun n =>
      { n with left := none, right := none, color := .red, parent := parent }
    let t ← linkNew compare t node parent
    let t ← insertFix t.fuel t node
    let t ← t.setColor .black t.root
    return (none, t)

/-- `rbtree_insert`; `malloc` is what the allocation of the node gives.  The node
is not freed when the key is there already. -/
def rbtreeInsert (t : RbTree K V) (key : K) (data : V) (malloc : Option Addr) :
    Option (Int × RbTree K V) :=
  match malloc with
  | none => some (-1, t)
  | some node => do
    let t := { t with
      heap := t.heap.insert node ⟨none, none, none, .black, key, data⟩ }
    let (samenode, t) ← insertNode compare t node
    return (if samenode.isSome then -2 else 0, t)

/-! ## Removing -/

/-- The sibling is black, and so are its children. -/
def siblingBlack (t : RbTree K V) (node : Addr) : Option Bool := do
  let s ← t.sibling node
  if (← t.getColor s) = .black then
    let s ← s
    let sn ← t.deref s
    let right ← t.getColor sn.right
    let left ← t.getColor sn.left
    return right = .black && left = .black
  else return false

/-- `delete_case6`: the far child of the sibling is asserted to be red, on either side. -/
def deleteCase6 (t : RbTree K V) (node : Addr) : Option (RbTree K V) := do
  let n ← t.deref node
  let parent ← n.parent
  let p ← t.deref parent
  let s ← t.sibling node
  let t ← t.setColor p.color s
  let t ← t.setColor .black (some parent)
  let d := sideOf p node
  let s ← s
  let sn ← t.deref s
  let far := sn.child d.other
  if (← t.getColor far) = .red then
    let t ← t.setColor .black far
    rotate d t parent
  else none

/-- `delete_case5`: a red child on the near side of the sibling is rotated to the far one. -/
def deleteCase5 (t : RbTree K V) (node : Addr) : Option (RbTree K V) := do
  let n ← t.deref node
  let parent ← n.parent
  let p ← t.deref parent
  let d := sideOf p node
  let s ← t.sibling node
  if p.child d = some node ∧ (← t.getColor s) = .black then
    let s ← s
    let sn ← t.deref s
    let near ← t.getColor (sn.child d)
    let far ← t.getColor (sn.child d.other)
    if near = .red ∧ far = .black then
      let t ← t.setColor .red (some s)
      let t ← t.setColor .black (sn.child d)
      let t ← rotate d.other t s
      deleteCase6 t node
    else deleteCase6 t node
  else deleteCase6 t node

/-- `delete_case4`: a red parent and a black sibling trade colours. -/
def deleteCase4 (t : RbTree K V) (node : Addr) : Option (RbTree K V) := do
  let n ← t.deref node
  if (← t.getColor n.parent) = .red then
    if ← t.siblingBlack node then
      let s ← t.sibling node
      let t ← t.setColor .red s
      t.setColor .black n.parent
    else deleteCase5 t node
  else deleteCase5 t node

/-- `delete_case3`: with a black parent too, the sibling becomes red and the repair goes on
with the parent; `case1` is that call of `delete_case1`. -/
def deleteCase3 (case1 : RbTree K V → Addr → Option (RbTree K V)) (t : RbTree K V)
    (node : Addr) : Option (RbTree K V) := do
  let n ← t.deref node
  let parent ← n.parent
  let p ← t.deref parent
  if p.color = .black then
    if ← t.siblingBlack node then
      let s ← t.sibling node
      let t ← t.setColor .red s
      case1 t parent
    else deleteCase4 t node
  else deleteCase4 t node

/-- `delete_case2`: a red sibling is rotated above the parent. -/
def deleteCase2 (case1 : RbTree K V → Addr → Option (RbTree K V)) (t : RbTree K V)
    (node : Addr) : Option (RbTree K V) := do
  let s ← t.sibling node
  if (← t.getColor s) = .red then
    let n ← t.deref node
    let parent ← n.parent
    let t ← t.setColor .red (some parent)
    let t ← t.setColor .black s
    let p ← t.deref parent
    let t ← rotate (sideOf p node) t parent
    deleteCase3 case1 t node
  else deleteCase3 case1 t node

/-- `delete_case1`, and what it goes on with one level up. -/
def deleteCase1 : Nat → RbTree K V → Addr → Option (RbTree K V)
  | 0, _, _ => none
  | fuel + 1, t, node => do
    let n ← t.deref node
    match n.parent with
    | none => return t
    | some _ => deleteCase2 (deleteCase1 fuel) t node

/-- A black node takes its child's colour, and the ways through it are repaired. -/
def rebalance (t : RbTree K V) (node : Addr) (color : Color) (child : Option Addr) :
    Option (RbTree K V) :=
  if color = .black then do
    let color ← t.getColor child
    let t ← t.setColor color (some node)
    deleteCase1 t.fuel t node
  else some t

/-- The root should be black. -/
def blackenRoot (t : RbTree K V) (parent child : Option Addr) : Option (RbTree K V) :=
  if parent = none ∧ child ≠ none then t.setColor .black child else some t

/-- `__rbtree_remove` from the point where `node` has at most one child. -/
def unlinkNode (t : RbTree K V) (node : Addr) : Option (RbTree K V) := do
  let n ← t.deref node
  if n.left = none ∨ n.right = none then
    let child := if n.right = none then n.left else n.right
    let t ← t.rebalance node n.color child
    let t ← t.replaceNode node child
    let n ← t.deref node
    let t ← t.blackenRoot n.parent child
    return { t with heap := t.heap.erase node }
  else none

/-- `__rbtree_remove`. -/
def removeNode (t : RbTree K V) (node : Addr) : Option (RbTree K V) := do
  let n ← t.deref node
  match n.left, n.right with
  | some _, some right =>
    let next ← t.getMin t.fuel right
    let m ← t.deref next
    let t ← t.modify node fun n => { n with key := m.key, data := m.data }
    unlinkNode t next
  | _, _ => unlinkNode t node

/-- `rbtree_remove`. -/
def rbtreeRemove (t : RbTree K V) (key : K) : Option (Int × RbTree K V) := do
  let found ← doLookup compare t key t.fuel t.root none
  match found.1 with
  | none => return (-1, t)
  | some node =>
    let t ← t.removeNode node
    return (0, t)

end RbTree
end T2u
