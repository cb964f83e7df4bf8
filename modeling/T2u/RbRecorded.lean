import T2u.RbMap
import T2u.Recorded

/-!
# The tree with a record of what it relies on

`rbtree_insert` and `rbtree_remove` once more, with a record of the places where the source
takes something for granted: that the grandparent exists, that the keys of a node and its
new child differ, that there is a child to rotate up, that the sibling it writes to or looks
into exists, and what is asserted.  The record also says where `delete_case1` is entered and
where `delete_case2` finds a red sibling.

Without the record the functions are those of `RbTree` (`callRecorded_result`).
-/

namespace T2u
open RedBlack Recorded

namespace RbTree

/-- An entry of the record. -/
inductive Note
  | grandpa (grandpa : Option Addr)
  | compared (ret : Int)
  | pivot (q : Option Addr)
  | sibling (s : Option Addr)
  | asserted (holds : Bool)
  | case1 (node : Addr)
  | redSibling (node : Addr)

/-- What the source takes for granted is there. -/
def Note.Holds : Note → Prop
  | .grandpa a | .pivot a | .sibling a => a ≠ none
  | .compared ret => ret ≠ 0
  | .asserted holds => holds = true
  | .case1 _ | .redSibling _ => True

/-- Whether `delete_case2` has found a red sibling. -/
def Note.isRedSibling : Note → Bool
  | .redSibling _ => true
  | _ => false

/-- Whether the repair goes on one level up, or with a red sibling. -/
def Note.goesOn : Note → Bool
  | .case1 _ | .redSibling _ => true
  | _ => false

variable {K V : Type} (compare : K → K → Int)

/-! ## Links -/

/-- `set_child`, with what it compares. -/
def setChildRecorded (t : RbTree K V) (node child : Addr) : Recorded Note (RbTree K V) := do
  let n ← t.deref node
  let c ← t.deref child
  check (.compared (compare n.key c.key)) (setChild compare t node child)

/-- The rotations, with the child that comes up. -/
def rotateRecorded (d : Dir) (t : RbTree K V) (node : Addr) : Recorded Note (RbTree K V) := do
  let p ← t.deref node
  check (.pivot (p.child d.other)) (rotate d t node)

/-! ## Inserting -/

/-- The rotation to the outer side. -/
def turnOutRecorded (d : Dir) (t : RbTree K V) (node parent : Addr) :
    Recorded Note (RbTree K V × Addr × Addr) := do
  let p ← t.deref parent
  if p.child d.other = some node then
    let t ← rotateRecorded d t parent
    let n ← t.deref parent
    let above ← n.parent
    return (t, parent, above)
  else return (t, node, parent)

/-- A turn of the loop of `__rbtree_insert`. -/
def insertTurnRecorded (d : Dir) (t : RbTree K V) (node parent grandpa : Addr) :
    Recorded Note (RbTree K V × Addr) := do
  let g ← t.deref grandpa
  let uncle := g.child d.other
  if (← t.getColor uncle) = .red then
    let t ← t.setColor .red (some grandpa)
    let t ← t.setColor .black (some parent)
    let t ← t.setColor .black uncle
    return (t, grandpa)
  else
    let (t, node, parent) ← turnOutRecorded d t node parent
    let t ← t.setColor .black (some parent)
    let t ← t.setColor .red (some grandpa)
    let t ← rotateRecorded d.other t grandpa
    return (t, node)

/-- The loop of `__rbtree_insert`, with the grandparent of each turn. -/
def insertFixRecorded : Nat → RbTree K V → Addr → Recorded Note (RbTree K V)
  | 0, _, _ => liftM (none : Option (RbTree K V))
  | fuel + 1, t, node => do
    let n ← t.deref node
    match n.parent with
    | none => return t
    | some parent =>
      let p ← t.deref parent
      if p.color = .red then
        let grandpa ← check (.grandpa p.parent) p.parent
        let g ← t.deref grandpa
        let (t, node) ← insertTurnRecorded (sideOf g parent) t node parent grandpa
        insertFixRecorded fuel t node
      else return t

/-- The new node is linked. -/
def linkNewRecorded (t : RbTree K V) (node : Addr) : Option Addr → Recorded Note (RbTree K V)
  | none => return { t with root := some node }
  | some parent => setChildRecorded compare t parent node

/-- `__rbtree_insert`. -/
def insertNodeRecorded (t : RbTree K V) (node : Addr) :
    Recorded Note (Option Addr × RbTree K V) := do
  let n ← t.deref node
  let (samenode, parent) ← doLookup compare t n.key t.fuel t.root none
  match samenode with
  | some same => return (some same, t)
  | none =>
    let t ← t.modify node fun n =>
      { n with left := none, right := none, color := .red, parent := parent }
    let t ← linkNewRecorded compare t node parent
    let t ← insertFixRecorded t.fuel t node
    let t ← t.setColor .black t.root
    return (none, t)

/-- `rbtree_insert`. -/
def rbtreeInsertRecorded (t : RbTree K V) (key : K) (data : V) (malloc : Option Addr) :
    Recorded Note (Int × RbTree K V) :=
  match malloc with
  | none => return (-1, t)
  | some node => do
    let t := { t with
      heap := t.heap.insert node ⟨none, none, none, .black, key, data⟩ }
    let (samenode, t) ← insertNodeRecorded compare t node
    return (if samenode.isSome then -2 else 0, t)

/-! ## Removing -/

/-- The condition of `delete_case3` and `delete_case4`, which looks into the sibling. -/
def siblingBlackRecorded (t : RbTree K V) (node : Addr) : Recorded Note Bool := do
  let s ← t.sibling node
  if (← t.getColor s) = .black then
    let s ← check (.sibling s) s
    let sn ← t.deref s
    let right ← t.getColor sn.right
    let left ← t.getColor sn.left
    return right = .black && left = .black
  else return false

/-- `delete_case6`, with the sibling it colours and its assertion. -/
def deleteCase6Recorded (t : RbTree K V) (node : Addr) : Recorded Note (RbTree K V) := do
  let n ← t.deref node
  let parent ← n.parent
  let p ← t.deref parent
  let s ← t.sibling node
  let t ← check (.sibling s) (t.setColor p.color s)
  let t ← t.setColor .black (some parent)
  let d := sideOf p node
  let s ← s
  let sn ← t.deref s
  let far := sn.child d.other
  if (← t.getColor far) = .red then
    let t ← check (.asserted true) (t.setColor .black far)
    rotateRecorded d t parent
  else check (.asserted false) none

/-- `delete_case5`, with the sibling it looks into. -/
def deleteCase5Recorded (t : RbTree K V) (node : Addr) : Recorded Note (RbTree K V) := do
  let n ← t.deref node
  let parent ← n.parent
  let p ← t.deref parent
  let d := sideOf p node
  let s ← t.sibling node
  if p.child d = some node ∧ (← t.getColor s) = .black then
    let s ← check (.sibling s) s
    let sn ← t.deref s
    let near ← t.getColor (sn.child d)
    let far ← t.getColor (sn.child d.other)
    if near = .red ∧ far = .black then
      let t ← t.setColor .red (some s)
      let t ← t.setColor .black (sn.child d)
      let t ← rotateRecorded d.other t s
      deleteCase6Recorded t node
    else deleteCase6Recorded t node
  else deleteCase6Recorded t node

/-- `delete_case4`, with the sibling it colours. -/
def deleteCase4Recorded (t : RbTree K V) (node : Addr) : Recorded Note (RbTree K V) := do
  let n ← t.deref node
  if (← t.getColor n.parent) = .red then
    if ← siblingBlackRecorded t node then
      let s ← t.sibling node
      let t ← check (.sibling s) (t.setColor .red s)
      t.setColor .black n.parent
    else deleteCase5Recorded t node
  else deleteCase5Recorded t node

/-- `delete_case3`, with the sibling it colours. -/
def deleteCase3Recorded (case1 : RbTree K V → Addr → Recorded Note (RbTree K V))
    (t : RbTree K V) (node : Addr) : Recorded Note (RbTree K V) := do
  let n ← t.deref node
  let parent ← n.parent
  let p ← t.deref parent
  if p.color = .black then
    if ← siblingBlackRecorded t node then
      let s ← t.sibling node
      let t ← check (.sibling s) (t.setColor .red s)
      case1 t parent
    else deleteCase4Recorded t node
  else deleteCase4Recorded t node

/-- `delete_case2`, with the sibling it colours, and a note that it is red. -/
def deleteCase2Recorded (case1 : RbTree K V → Addr → Recorded Note (RbTree K V))
    (t : RbTree K V) (node : Addr) : Recorded Note (RbTree K V) := do
  let s ← t.sibling node
  if (← t.getColor s) = .red then
    note (.redSibling node)
    let n ← t.deref node
    let parent ← n.parent
    let t ← t.setColor .red (some parent)
    let t ← check (.sibling s) (t.setColor .black s)
    let p ← t.deref parent
    let t ← rotateRecorded (sideOf p node) t parent
    deleteCase3Recorded case1 t node
  else deleteCase3Recorded case1 t node

/-- `delete_case1`, with a note of each entry. -/
def deleteCase1Recorded : Nat → RbTree K V → Addr → Recorded Note (RbTree K V)
  | 0, _, _ => liftM (none : Option (RbTree K V))
  | fuel + 1, t, node => do
    note (.case1 node)
    let n ← t.deref node
    match n.parent with
    | none => return t
    | some _ => deleteCase2Recorded (deleteCase1Recorded fuel) t node

/-- The ways through a black node are repaired. -/
def rebalanceRecorded (t : RbTree K V) (node : Addr) (color : Color) (child : Option Addr) :
    Recorded Note (RbTree K V) :=
  if color = .black then do
    let color ← t.getColor child
    let t ← t.setColor color (some node)
    deleteCase1Recorded t.fuel t node
  else return t

/-- The end of `__rbtree_remove`, with its assertion. -/
def unlinkNodeRecorded (t : RbTree K V) (node : Addr) : Recorded Note (RbTree K V) := do
  let n ← t.deref node
  if n.left = none ∨ n.right = none then
    note (.asserted true)
    let child := if n.right = none then n.left else n.right
    let t ← rebalanceRecorded t node n.color child
    let t ← t.replaceNode node child
    let n ← t.deref node
    let t ← t.blackenRoot n.parent child
    return { t with heap := t.heap.erase node }
  else check (.asserted false) none

/-- `__rbtree_remove`. -/
def removeNodeRecorded (t : RbTree K V) (node : Addr) : Recorded Note (RbTree K V) := do
  let n ← t.deref node
  match n.left, n.right with
  | some _, some right =>
    let next ← t.getMin t.fuel right
    let m ← t.deref next
    let t ← t.modify node fun n => { n with key := m.key, data := m.data }
    unlinkNodeRecorded t next
  | _, _ => unlinkNodeRecorded t node

/-- `rbtree_remove`. -/
def rbtreeRemoveRecorded (t : RbTree K V) (key : K) : Recorded Note (Int × RbTree K V) := do
  let found ← doLookup compare t key t.fuel t.root none
  match found.1 with
  | none => return (-1, t)
  | some node =>
    let t ← removeNodeRecorded t node
    return (0, t)

/-- A call of one of the three functions. -/
def callRecorded (t : RbTree K V) : Call K V → Recorded Note (Answer V × RbTree K V)
  | .insert key data malloc => do
    let r ← rbtreeInsertRecorded compare t key data malloc
    return (.status r.1, r.2)
  | .remove key => do
    let r ← rbtreeRemoveRecorded compare t key
    return (.status r.1, r.2)
  | .lookup key => do
    let v ← rbtreeLookup compare t key
    return (.data v, t)

/-! ## Without the record -/

variable {compare} {t : RbTree K V} {node parent grandpa : Addr} {d : Dir}

@[simp] theorem setChildRecorded_result (child : Addr) :
    (setChildRecorded compare t node child).result = setChild compare t node child := by
  unfold setChildRecorded setChild
  simp only [result_bind, result_lift, result_check]
  cases t.deref node with
  | none => rfl
  | some n =>
    cases t.deref child with
    | none => rfl
    | some c => rfl

@[simp] theorem rotateRecorded_result : (rotateRecorded d t node).result = rotate d t node := by
  unfold rotateRecorded rotate
  simp only [result_bind, result_lift, result_check]
  cases t.deref node with
  | none => rfl
  | some n => rfl

@[simp] theorem turnOutRecorded_result :
    (turnOutRecorded d t node parent).result = turnOut d t node parent := by
  unfold turnOutRecorded turnOut
  simp only [result_bind, result_lift, result_ite, rotateRecorded_result, result_pure]
  rfl

@[simp] theorem insertTurnRecorded_result :
    (insertTurnRecorded d t node parent grandpa).result = insertTurn d t node parent grandpa := by
  unfold insertTurnRecorded insertTurn
  simp only [result_bind, result_lift, result_ite, turnOutRecorded_result, rotateRecorded_result,
    result_pure]
  rfl

@[simp] theorem insertFixRecorded_result : ∀ (fuel : Nat) (t : RbTree K V) (node : Addr),
    (insertFixRecorded fuel t node).result = insertFix fuel t node
  | 0, _, _ => rfl
  | fuel + 1, t, node => by
    unfold insertFixRecorded insertFix
    rw [result_bind, result_lift]
    refine Option.bind_congr fun n _ => ?_
    cases n.parent with
    | none => rfl
    | some parent =>
      simp only [result_bind, result_lift, result_ite, result_check, insertTurnRecorded_result,
        insertFixRecorded_result fuel]
      rfl

@[simp] theorem linkNewRecorded_result (parent : Option Addr) :
    (linkNewRecorded compare t node parent).result = linkNew compare t node parent := by
  cases parent with
  | none => rfl
  | some parent => exact setChildRecorded_result node

@[simp] theorem insertNodeRecorded_result :
    (insertNodeRecorded compare t node).result = insertNode compare t node := by
  unfold insertNodeRecorded insertNode
  rw [result_bind, result_lift]
  refine Option.bind_congr fun n _ => ?_
  rw [result_bind, result_lift]
  refine Option.bind_congr fun found _ => ?_
  obtain ⟨samenode, parent⟩ := found
  cases samenode with
  | some same => rfl
  | none =>
    simp only [result_bind, result_lift, linkNewRecorded_result, insertFixRecorded_result]
    rfl

@[simp] theorem rbtreeInsertRecorded_result (key : K) (data : V) (malloc : Option Addr) :
    (rbtreeInsertRecorded compare t key data malloc).result =
      rbtreeInsert compare t key data malloc := by
  unfold rbtreeInsertRecorded rbtreeInsert
  cases malloc with
  | none => rfl
  | some node =>
    simp only [result_bind, insertNodeRecorded_result]
    rfl

@[simp] theorem siblingBlackRecorded_result :
    (siblingBlackRecorded t node).result = siblingBlack t node := by
  unfold siblingBlackRecorded siblingBlack
  simp only [result_bind, result_lift, result_ite, result_check, result_pure]
  rfl

@[simp] theorem deleteCase6Recorded_result :
    (deleteCase6Recorded t node).result = deleteCase6 t node := by
  unfold deleteCase6Recorded deleteCase6
  simp only [result_bind, result_lift, result_ite, rotateRecorded_result, result_check]

@[simp] theorem deleteCase5Recorded_result :
    (deleteCase5Recorded t node).result = deleteCase5 t node := by
  unfold deleteCase5Recorded deleteCase5
  simp only [result_bind, result_lift, result_ite, rotateRecorded_result, result_check,
    deleteCase6Recorded_result]

@[simp] theorem deleteCase4Recorded_result :
    (deleteCase4Recorded t node).result = deleteCase4 t node := by
  unfold deleteCase4Recorded deleteCase4
  simp only [result_bind, result_lift, result_ite, result_check, deleteCase5Recorded_result,
    siblingBlackRecorded_result]

section Case1
variable {case1 : RbTree K V → Addr → Recorded Note (RbTree K V)}
  {plain : RbTree K V → Addr → Option (RbTree K V)}

theorem deleteCase3Recorded_result (h : ∀ t node, (case1 t node).result = plain t node) :
    (deleteCase3Recorded case1 t node).result = deleteCase3 plain t node := by
  unfold deleteCase3Recorded deleteCase3
  simp only [result_bind, result_lift, result_ite, result_check, siblingBlackRecorded_result,
    deleteCase4Recorded_result, h]

theorem deleteCase2Recorded_result (h : ∀ t node, (case1 t node).result = plain t node) :
    (deleteCase2Recorded case1 t node).result = deleteCase2 plain t node := by
  unfold deleteCase2Recorded deleteCase2
  simp only [result_bind, result_lift, result_ite, result_check, result_note,
    rotateRecorded_result, deleteCase3Recorded_result h]
  rfl

end Case1

@[simp] theorem deleteCase1Recorded_result : ∀ (fuel : Nat) (t : RbTree K V) (node : Addr),
    (deleteCase1Recorded fuel t node).result = deleteCase1 fuel t node
  | 0, _, _ => rfl
  | fuel + 1, t, node => by
    unfold deleteCase1Recorded deleteCase1
    rw [result_bind, result_note]
    show (liftM (t.deref node) >>= _ : Recorded _ _).result = _
    rw [result_bind, result_lift]
    refine Option.bind_congr fun n _ => ?_
    cases n.parent with
    | none => rfl
    | some parent => exact deleteCase2Recorded_result (deleteCase1Recorded_result fuel)

@[simp] theorem rebalanceRecorded_result (color : Color) (child : Option Addr) :
    (rebalanceRecorded t node color child).result = t.rebalance node color child := by
  unfold rebalanceRecorded rebalance
  simp only [result_ite, result_bind, result_lift, deleteCase1Recorded_result]
  rfl

@[simp] theorem unlinkNodeRecorded_result :
    (unlinkNodeRecorded t node).result = unlinkNode t node := by
  unfold unlinkNodeRecorded unlinkNode
  simp only [result_ite, result_bind, result_lift, result_note, result_check,
    rebalanceRecorded_result]
  rfl

@[simp] theorem removeNodeRecorded_result :
    (removeNodeRecorded t node).result = removeNode t node := by
  unfold removeNodeRecorded removeNode
  rw [result_bind, result_lift]
  refine Option.bind_congr fun n _ => ?_
  cases n.left with
  | none => exact unlinkNodeRecorded_result
  | some left =>
    cases n.right with
    | none => exact unlinkNodeRecorded_result
    | some right => simp only [result_bind, result_lift, unlinkNodeRecorded_result]

@[simp] theorem rbtreeRemoveRecorded_result (key : K) :
    (rbtreeRemoveRecorded compare t key).result = rbtreeRemove compare t key := by
  unfold rbtreeRemoveRecorded rbtreeRemove
  rw [result_bind, result_lift]
  refine Option.bind_congr fun found _ => ?_
  cases found.1 with
  | none => rfl
  | some node =>
    simp only [result_bind, removeNodeRecorded_result]
    rfl

/-- **The record changes nothing.** -/
theorem callRecorded_result (c : Call K V) :
    (callRecorded compare t c).result = call compare t c := by
  cases c with
  | insert key data malloc =>
    unfold callRecorded call
    simp only [result_bind, rbtreeInsertRecorded_result, Option.map_eq_bind]
    rfl
  | remove key =>
    unfold callRecorded call
    simp only [result_bind, rbtreeRemoveRecorded_result, Option.map_eq_bind]
    rfl
  | lookup key =>
    unfold callRecorded call
    simp only [result_bind, result_lift, Option.map_eq_bind]
    rfl

end RbTree
end T2u
