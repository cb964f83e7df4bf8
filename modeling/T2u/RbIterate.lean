import T2u.RbMap

/-!
# Walking through the tree

`rbtree_min`, `rbtree_max`, `rbtree_next` and `rbtree_prev`.  A node does not hold the
order of the keys: its neighbour is the outermost node of a child, or an ancestor, which
is found by climbing along the parent links.  After any sequence of calls the four give
the bindings of the finite map in key order, forwards and backwards (`rbtree_iterate`).
-/

namespace T2u
open RedBlack

namespace RbTree
variable {K V : Type}

/-! ## The functions -/

/-- The outermost node on the side `d`, from a node down. -/
def getEnd (d : Dir) (t : RbTree K V) : Nat → Addr → Option Addr
  | 0, _ => none
  | fuel + 1, node => do
    let n ← t.deref node
    match n.child d with
    | none => some node
    | some child => getEnd d t fuel child

def getMax (t : RbTree K V) : Nat → Addr → Option Addr := getEnd .right t

/-- The outermost node of the tree; `NULL` when the tree is empty. -/
def rbtreeEnd (d : Dir) (t : RbTree K V) : Option (Option Addr) :=
  match t.root with
  | none => some none
  | some root => (getEnd d t t.fuel root).map some

def rbtreeMin (t : RbTree K V) : Option (Option Addr) := rbtreeEnd .left t

def rbtreeMax (t : RbTree K V) : Option (Option Addr) := rbtreeEnd .right t

/-- Up from a node, while it is the child on the side `d`. -/
def climb (d : Dir) (t : RbTree K V) : Nat → Addr → Option (Option Addr)
  | 0, _ => none
  | fuel + 1, node => do
    let n ← t.deref node
    match n.parent with
    | none => some none
    | some parent =>
      let p ← t.deref parent
      if p.child d = some node then climb d t fuel parent else some (some parent)

/-- The next node towards the side `d`; `NULL` after the last one. -/
def neighbour (d : Dir) (t : RbTree K V) (node : Addr) : Option (Option Addr) := do
  let n ← t.deref node
  match n.child d with
  | some child => (getEnd d.other t t.fuel child).map some
  | none => climb d t t.fuel node

def rbtreePrev (t : RbTree K V) (node : Addr) : Option (Option Addr) := neighbour .left t node

def rbtreeNext (t : RbTree K V) (node : Addr) : Option (Option Addr) := neighbour .right t node

/-- `get_min` is the walk down on the left. -/
theorem getMin_eq (t : RbTree K V) (fuel : Nat) (node : Addr) :
    t.getMin fuel node = getEnd .left t fuel node := by
  induction fuel generalizing node with
  | zero => rfl
  | succ fuel ih =>
    unfold getMin getEnd
    cases hd : t.deref node with
    | none => rfl
    | some n =>
      show (match n.left with | none => _ | some left => _) = _
      cases hl : n.left with
      | none => simp [RbNode.child, hl]
      | some left => simpa [RbNode.child, hl] using ih left

/-! ## On the tree -/

open ColorTree
open RedBlack.Trail (fill ahead)

variable {t : RbTree K V} {π : Trail (Cell K V)} {T : ColorTree (Cell K V)} {a : Addr}

theorem ne_nil_of_ptr (h : ptr T = some a) : T ≠ nil := by
  rintro rfl
  cases h

theorem getEnd_spec (d : Dir) {fuel : Nat} (h : t.Represents (fill π T)) (ha : ptr T = some a)
    (hfuel : T.inorder.length ≤ fuel) :
    getEnd d t fuel a = (T.walk d.other).head?.map Cell.addr := by
  induction T using joinInduction d generalizing π fuel a with
  | nil => cases ha
  | join c x e y ihx _ =>
    obtain rfl : e.addr = a := Option.some.inj ((ptr_join d c x e y).symm.trans ha)
    have hlen := length_join d c x e y
    have hwalk : (join d c x e y).walk d.other = x.walk d.other ++ e :: y.walk d.other := by
      rw [← join_other, walk_join]
    cases fuel with
    | zero => omega
    | succ fuel =>
      unfold getEnd
      rw [h.deref, hwalk]
      simp only [Option.bind_eq_bind, Option.bind_some, RbNode.of_child]
      cases hx : ptr x with
      | none =>
        obtain rfl := ptr_eq_none.mp hx
        rw [walk_nil]
        rfl
      | some b =>
        rw [List.head?_append_of_ne_nil _ (walk_ne_nil _ (ne_nil_of_ptr hx))]
        exact ihx (π := ⟨d, c, e, y⟩ :: π) h hx (show _ ≤ fuel by omega)

/-- The node above is left behind when the position is on the side `d` of it. -/
theorem child_above {g : Frame (Cell K V)} (h : t.Represents (fill (g :: π) T))
    (ha : ptr T = some a) (d : Dir) :
    (RbNode.of (above π) g.dir (ptr T) (ptr g.sibling) g.color g.elem).child d = some a ↔
      g.dir = d := by
  have hs : ptr g.sibling ≠ some a := fun hs => h.at.outside a (mem_addrs_of_ptr ha)
    (mem_pathAddrs_cons.mpr (Or.inr (Or.inl (mem_addrs_of_ptr hs))))
  cases hg : g.dir <;> cases d <;> simp [RbNode.of, RbNode.child, ha, hs]

theorem climb_spec (d : Dir) {fuel : Nat} (h : t.Represents (fill π T)) (ha : ptr T = some a)
    (hfuel : π.length < fuel) :
    climb d t fuel a = some ((ahead d π).head?.map Cell.addr) := by
  induction π generalizing T a fuel with
  | nil =>
    obtain ⟨n, hn, hp⟩ := h.deref_some ha
    obtain ⟨fuel, rfl⟩ := Nat.exists_eq_add_one_of_ne_zero (Nat.ne_of_gt hfuel)
    unfold climb
    rw [hn, Option.bind_eq_bind, Option.bind_some, hp, Trail.ahead_nil]
    rfl
  | cons g π ih =>
    obtain ⟨n, hn, hp⟩ := h.deref_some ha
    obtain ⟨fuel, rfl⟩ := Nat.exists_eq_add_one_of_ne_zero (Nat.ne_zero_of_lt hfuel)
    unfold climb
    rw [hn, Option.bind_eq_bind, Option.bind_some, hp]
    simp only [above]
    rw [h.deref_above, Option.bind_some]
    by_cases hd : g.dir = d
    · rw [if_pos ((child_above h ha d).mpr hd)]
      have hup : climb d t fuel g.elem.addr = some ((ahead d π).head?.map Cell.addr) :=
        ih (T := join g.dir g.color T g.elem g.sibling) h (ptr_join _ _ _ _ _)
          (Nat.lt_of_succ_lt_succ hfuel)
      obtain ⟨dir, c, e, s⟩ := g
      obtain rfl : dir = d := hd
      rw [Trail.ahead_same]
      exact hup
    · rw [if_neg (fun hc => hd ((child_above h ha d).mp hc))]
      have hother : g.dir = d.other := by
        cases hg : g.dir <;> cases d <;> simp_all [Dir.other]
      obtain ⟨dir, c, e, s⟩ := g
      subst hother
      rw [Trail.ahead_other]
      rfl

/-- **The neighbour of a node** is the element a walk meets next. -/
theorem neighbour_spec (d : Dir) (h : t.Represents T) {xs ys : List (Cell K V)} {e : Cell K V}
    (hT : T.walk d = xs ++ e :: ys) :
    neighbour d t e.addr = some (ys.head?.map Cell.addr) := by
  obtain ⟨π, c, x, y, rfl, rfl⟩ := exists_position d hT
  have hfuel := h.fuel
  rw [Trail.inorder_fill, List.length_append, List.length_append] at hfuel
  unfold neighbour
  rw [h.deref]
  simp only [Option.bind_eq_bind, Option.bind_some, RbNode.of_child]
  cases hx : ptr x with
  | none =>
    obtain rfl := ptr_eq_none.mp hx
    have hpath : π.length < t.fuel := by
      have hp := length_path π
      rw [List.length_append] at hp
      omega
    rw [walk_nil]
    exact climb_spec d h (ptr_join _ _ _ _ _) hpath
  | some b =>
    have hlen : x.inorder.length ≤ t.fuel := by
      have hj := length_join d c x e y
      omega
    have hend := getEnd_spec d.other (π := ⟨d, c, e, y⟩ :: π) h hx hlen
    rw [Dir.other_other] at hend
    obtain ⟨z, zs, hz⟩ := List.exists_cons_of_ne_nil (walk_ne_nil d (ne_nil_of_ptr hx))
    rw [hz] at hend ⊢
    show (getEnd d.other t t.fuel b).map some = _
    rw [hend]
    rfl

theorem rbtreeEnd_spec (d : Dir) (h : t.Represents T) :
    rbtreeEnd d t = some ((T.walk d.other).head?.map Cell.addr) := by
  unfold rbtreeEnd
  rw [h.root]
  cases hT : ptr T with
  | none =>
    obtain rfl := ptr_eq_none.mp hT
    rw [walk_nil]
    rfl
  | some a =>
    have hend := getEnd_spec d (π := []) h hT (Nat.le_of_lt h.fuel)
    obtain ⟨z, zs, hz⟩ := List.exists_cons_of_ne_nil (walk_ne_nil d.other (ne_nil_of_ptr hT))
    rw [hz] at hend ⊢
    show (getEnd d t t.fuel a).map some = _
    rw [hend]
    rfl

/-! ## Every run -/

/-- The four functions go through these nodes, in this order and back. -/
structure Iterates (t : RbTree K V) (l : List (Cell K V)) : Prop where
  node : ∀ e ∈ l, ∃ n, t.deref e.addr = some n ∧ n.key = e.key ∧ n.data = e.data
  min : rbtreeMin t = some (l.head?.map Cell.addr)
  max : rbtreeMax t = some (l.getLast?.map Cell.addr)
  next : ∀ {xs e ys}, l = xs ++ e :: ys → rbtreeNext t e.addr = some (ys.head?.map Cell.addr)
  prev : ∀ {xs e ys}, l = xs ++ e :: ys → rbtreePrev t e.addr = some (xs.getLast?.map Cell.addr)

theorem Represents.iterates (h : t.Represents T) : t.Iterates T.inorder where
  node e he := by
    obtain ⟨xs, ys, hT⟩ := List.append_of_mem he
    obtain ⟨π, c, x, y, rfl, -⟩ := exists_position .right hT
    exact ⟨_, h.deref, RbNode.of_key _ _ _ _ _ _, RbNode.of_data _ _ _ _ _ _⟩
  min := rbtreeEnd_spec .left h
  max := by
    rw [← List.head?_reverse]
    exact rbtreeEnd_spec .right h
  next hT := neighbour_spec .right h hT
  prev {xs e ys} hT := by
    have hrev : T.walk .left = ys.reverse ++ e :: xs.reverse := by
      show T.inorder.reverse = _
      rw [hT]
      simp
    rw [← List.head?_reverse]
    exact neighbour_spec .left h hrev

variable {compare : K → K → Int}

/-- **The tree is walked through in order.**  After any sequence of calls, the walk from
`rbtree_min` by `rbtree_next` and the one from `rbtree_max` by `rbtree_prev` go through the
same nodes, in strict key order and against it, and these hold the bindings of the finite
map, each one once. -/
theorem rbtree_iterate (hc : IsTotalOrder compare) {σ : Calls K V} (hrun : Run compare σ) :
    ∃ l, σ.tree.Iterates l ∧ Sorted compare l ∧
      Binds compare (bindings l) (mapCalls compare σ.made).2 := by
  obtain ⟨-, T, hT, hB⟩ := run_stores hc hrun
  exact ⟨T.inorder, hT.represents.iterates, hT.sorted, hB⟩

/-- Of four bindings two are removed; the nodes of the others are not in the order of
their addresses. -/
theorem rbtree_iterate_six :
    ∃ l, sixMade.tree.Iterates l ∧ Sorted byNumber l ∧
      Binds byNumber (bindings l) (mapCalls byNumber sixMade.made).2 ∧
      rbtreeMin sixMade.tree = some (some 2) ∧ rbtreeNext sixMade.tree 2 = some (some 1) ∧
      rbtreeNext sixMade.tree 1 = some none := by
  obtain ⟨l, hl, hs, hB⟩ := rbtree_iterate byNumber_total sixMade_run
  exact ⟨l, hl, hs, hB, by decide, by decide, by decide⟩

end RbTree
end T2u
