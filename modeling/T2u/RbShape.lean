import T2u.RbTree

/-!
# Memory that holds a tree

`Represents t T`: following the links from the root of `t` gives the tree `T`, and
every parent link points back along them.  Each write to memory the algorithms make
is shown here to change one position of `T`; after that they can be followed on
trees.
-/

namespace T2u
open RedBlack RedBlack.ColorTree
open RedBlack.Trail (fill)

/-- What a node of the tree stands for: where it is, and its binding. -/
structure Cell (K V : Type) where
  addr : Addr
  key : K
  data : V

variable {K V : Type}

/-- A node with the child `near` on the side `d`. -/
def RbNode.of (parent : Option Addr) (d : Dir) (near far : Option Addr) (c : Color)
    (e : Cell K V) : RbNode K V :=
  match d with
  | .left => ⟨parent, near, far, c, e.key, e.data⟩
  | .right => ⟨parent, far, near, c, e.key, e.data⟩

namespace RbNode
variable (p p' near far new : Option Addr) (d : Dir) (c c' : Color) (e : Cell K V)

@[simp] theorem of_parent : (of p d near far c e).parent = p := by cases d <;> rfl

@[simp] theorem of_color : (of p d near far c e).color = c := by cases d <;> rfl

@[simp] theorem of_key : (of p d near far c e).key = e.key := by cases d <;> rfl

@[simp] theorem of_data : (of p d near far c e).data = e.data := by cases d <;> rfl

@[simp] theorem of_child : (of p d near far c e).child d = near := by cases d <;> rfl

@[simp] theorem of_child_other : (of p d near far c e).child d.other = far := by cases d <;> rfl

@[simp] theorem of_setChild :
    (of p d near far c e).setChild d new = of p d new far c e := by cases d <;> rfl

@[simp] theorem of_setChild_other :
    (of p d near far c e).setChild d.other new = of p d near new c e := by cases d <;> rfl

@[simp] theorem of_setParent :
    { of p d near far c e with parent := p' } = of p' d near far c e := by cases d <;> rfl

@[simp] theorem of_setColor :
    { of p d near far c e with color := c' } = of p d near far c' e := by cases d <;> rfl

/-- A node is found on the side where it is. -/
theorem sideOf_of {a : Addr} (hnear : near = some a) (hfar : far ≠ some a) :
    RbTree.sideOf (of p d near far c e) a = d := by
  cases d with
  | left => exact if_pos hnear
  | right => exact if_neg hfar

end RbNode

/-! ## Addresses -/

/-- The link to a tree. -/
def ptr : ColorTree (Cell K V) → Option Addr
  | nil => none
  | node _ _ e _ => some e.addr

/-- The addresses of a tree's nodes. -/
def addrs (T : ColorTree (Cell K V)) : List Addr := T.inorder.map Cell.addr

/-- The parent of what stands at the end of a path. -/
def above : Trail (Cell K V) → Option Addr
  | [] => none
  | f :: _ => some f.elem.addr

/-- The addresses of the nodes outside the position. -/
def pathAddrs (π : Trail (Cell K V)) : List Addr := (Trail.before π ++ Trail.after π).map Cell.addr

@[simp] theorem ptr_nil : ptr (nil : ColorTree (Cell K V)) = none := rfl

@[simp] theorem ptr_join (d : Dir) (c : Color) (x : ColorTree (Cell K V)) (e : Cell K V)
    (y : ColorTree (Cell K V)) : ptr (join d c x e y) = some e.addr := by
  cases d <;> rfl

@[simp] theorem ptr_paint (c : Color) (T : ColorTree (Cell K V)) : ptr (T.paint c) = ptr T := by
  cases T <;> rfl

theorem ptr_eq_none {T : ColorTree (Cell K V)} : ptr T = none ↔ T = nil := by
  cases T with
  | nil => exact ⟨fun _ => rfl, fun _ => rfl⟩
  | node c l e r =>
    constructor
    · intro h
      cases h
    · intro h
      cases h

@[simp] theorem addrs_nil : addrs (nil : ColorTree (Cell K V)) = [] := rfl

@[simp] theorem mem_addrs_join {d : Dir} {c : Color} {x y : ColorTree (Cell K V)} {e : Cell K V}
    {a : Addr} : a ∈ addrs (join d c x e y) ↔ a = e.addr ∨ a ∈ addrs x ∨ a ∈ addrs y := by
  cases d with
  | left =>
    simp only [addrs, join, inorder, List.map_append, List.map_cons, List.mem_append,
      List.mem_cons]
    exact or_left_comm
  | right =>
    simp only [addrs, join, inorder, List.map_append, List.map_cons, List.mem_append,
      List.mem_cons]
    exact or_left_comm.trans (or_congr_right or_comm)

theorem mem_addrs_of_ptr {T : ColorTree (Cell K V)} {a : Addr} (h : ptr T = some a) : a ∈ addrs T := by
  cases T with
  | nil => cases h
  | node c l e r =>
    have hmem : a ∈ addrs (join .left c l e r) := mem_addrs_join.mpr (Or.inl (Option.some.inj h).symm)
    exact hmem

@[simp] theorem mem_pathAddrs_cons {f : Frame (Cell K V)} {π : Trail (Cell K V)} {a : Addr} :
    a ∈ pathAddrs (f :: π) ↔ a = f.elem.addr ∨ a ∈ addrs f.sibling ∨ a ∈ pathAddrs π := by
  obtain ⟨d, c, e, s⟩ := f
  cases d <;> simp [pathAddrs, Trail.before, Trail.after, addrs] <;> grind

theorem addrs_fill (π : Trail (Cell K V)) (T : ColorTree (Cell K V)) :
    addrs (fill π T) = (Trail.before π).map Cell.addr ++ (addrs T ++ (Trail.after π).map Cell.addr) := by
  unfold addrs
  rw [Trail.inorder_fill, List.map_append, List.map_append]

/-- The nodes of a position and those outside it are different. -/
theorem nodup_fill {π : Trail (Cell K V)} {T : ColorTree (Cell K V)} (h : (addrs (fill π T)).Nodup) :
    (addrs T).Nodup ∧ (∀ a ∈ addrs T, a ∉ pathAddrs π) ∧ (pathAddrs π).Nodup := by
  rw [addrs_fill] at h
  unfold pathAddrs
  rw [List.map_append]
  simp only [List.nodup_append, List.mem_append] at h ⊢
  grind

theorem nodup_join {d : Dir} {c : Color} {x y : ColorTree (Cell K V)} {e : Cell K V}
    (h : (addrs (join d c x e y)).Nodup) :
    (addrs x).Nodup ∧ (addrs y).Nodup ∧ e.addr ∉ addrs x ∧ e.addr ∉ addrs y ∧
      ∀ a ∈ addrs x, a ∉ addrs y := by
  cases d <;> simp only [addrs, join, inorder, List.map_append, List.map_cons, List.nodup_append,
    List.nodup_cons, List.mem_cons] at h ⊢ <;> grind

theorem nodup_path {f : Frame (Cell K V)} {π : Trail (Cell K V)} (h : (pathAddrs (f :: π)).Nodup) :
    f.elem.addr ∉ addrs f.sibling ∧ f.elem.addr ∉ pathAddrs π ∧ (pathAddrs π).Nodup := by
  obtain ⟨d, c, e, s⟩ := f
  cases d <;> simp only [addrs, pathAddrs, Trail.before, Trail.after, List.map_append, List.map_cons,
    List.nodup_append, List.nodup_cons, List.mem_cons, List.mem_append, List.map_nil] at h ⊢ <;> grind

theorem ptr_fill_of_ne {π : Trail (Cell K V)} (h : π ≠ []) (T T' : ColorTree (Cell K V)) :
    ptr (fill π T) = ptr (fill π T') := by
  induction π generalizing T T' with
  | nil => exact absurd rfl h
  | cons f π ih =>
    rw [Trail.fill_cons, Trail.fill_cons]
    cases π with
    | nil => rw [Trail.fill_nil, Trail.fill_nil, ptr_join, ptr_join]
    | cons g π => exact ih (List.cons_ne_nil g π) _ _

/-! ## Memory -/

abbrev Heap (K V : Type) := Table Addr (RbNode K V)

/-- The heap holds the tree, below the node `parent`. -/
def Holds (h : Heap K V) : Option Addr → ColorTree (Cell K V) → Prop
  | _, nil => True
  | parent, node c l e r =>
    h.lookup e.addr = some ⟨parent, ptr l, ptr r, c, e.key, e.data⟩ ∧
      Holds h (some e.addr) l ∧ Holds h (some e.addr) r

/-- The heap holds the nodes outside a position, and `child` is linked there. -/
def HoldsPath (h : Heap K V) : Option Addr → Trail (Cell K V) → Prop
  | _, [] => True
  | child, f :: π =>
    h.lookup f.elem.addr =
        some (.of (above π) f.dir child (ptr f.sibling) f.color f.elem) ∧
      Holds h (some f.elem.addr) f.sibling ∧ HoldsPath h (some f.elem.addr) π

theorem holds_join {h : Heap K V} {p : Option Addr} {d : Dir} {c : Color} {x y : ColorTree (Cell K V)}
    {e : Cell K V} :
    Holds h p (join d c x e y) ↔
      h.lookup e.addr = some (.of p d (ptr x) (ptr y) c e) ∧
        Holds h (some e.addr) x ∧ Holds h (some e.addr) y := by
  cases d with
  | left => exact Iff.rfl
  | right => exact and_congr_right fun _ => and_comm

theorem holds_fill {h : Heap K V} {π : Trail (Cell K V)} {T : ColorTree (Cell K V)} :
    Holds h none (fill π T) ↔ HoldsPath h (ptr T) π ∧ Holds h (above π) T := by
  induction π generalizing T with
  | nil => exact (iff_of_eq (true_and _)).symm
  | cons f π ih =>
    rw [Trail.fill_cons, ih, holds_join, ptr_join]
    constructor
    · intro ⟨hπ, hn, hT, hs⟩
      exact ⟨⟨hn, hs, hπ⟩, hT⟩
    · intro ⟨⟨hn, hs, hπ⟩, hT⟩
      exact ⟨hπ, hn, hT, hs⟩

theorem Holds.frame {h h' : Heap K V} {p : Option Addr} {T : ColorTree (Cell K V)} (hT : Holds h p T)
    (hsame : ∀ a ∈ addrs T, h'.lookup a = h.lookup a) : Holds h' p T := by
  induction T generalizing p with
  | nil => trivial
  | node c l e r ihl ihr =>
    obtain ⟨he, hl, hr⟩ := hT
    have hmem : ∀ a, a = e.addr ∨ a ∈ addrs l ∨ a ∈ addrs r → h'.lookup a = h.lookup a :=
      fun a ha => hsame a (mem_addrs_join (d := .left).mpr ha)
    exact ⟨(hmem _ (Or.inl rfl)).trans he, ihl hl fun a ha => hmem a (Or.inr (Or.inl ha)),
      ihr hr fun a ha => hmem a (Or.inr (Or.inr ha))⟩

theorem HoldsPath.frame {h h' : Heap K V} {child : Option Addr} {π : Trail (Cell K V)}
    (hπ : HoldsPath h child π) (hsame : ∀ a ∈ pathAddrs π, h'.lookup a = h.lookup a) :
    HoldsPath h' child π := by
  induction π generalizing child with
  | nil => trivial
  | cons f π ih =>
    obtain ⟨hf, hs, hπ⟩ := hπ
    exact ⟨(hsame _ (mem_pathAddrs_cons.mpr (Or.inl rfl))).trans hf,
      hs.frame fun a ha => hsame a (mem_pathAddrs_cons.mpr (Or.inr (Or.inl ha))),
      ih hπ fun a ha => hsame a (mem_pathAddrs_cons.mpr (Or.inr (Or.inr ha)))⟩

namespace RbTree

/-- **The memory holds the tree `T`.** -/
structure Represents (t : RbTree K V) (T : ColorTree (Cell K V)) : Prop where
  root : t.root = ptr T
  holds : Holds t.heap none T
  nodup : (addrs T).Nodup

/-- A position of the tree in memory: what stands there, and what is around it. -/
structure At (t : RbTree K V) (π : Trail (Cell K V)) (T : ColorTree (Cell K V)) : Prop where
  path : HoldsPath t.heap (ptr T) π
  tree : Holds t.heap (above π) T
  nodup : (addrs T).Nodup
  outside : ∀ a ∈ addrs T, a ∉ pathAddrs π
  pathNodup : (pathAddrs π).Nodup

variable {t t' : RbTree K V} {π : Trail (Cell K V)} {T : ColorTree (Cell K V)} {a b : Addr}
  {f : RbNode K V → RbNode K V} {n : RbNode K V}

theorem Represents.at (h : t.Represents (fill π T)) : t.At π T := by
  obtain ⟨hpath, htree⟩ := holds_fill.mp h.holds
  obtain ⟨hT, hout, hπ⟩ := nodup_fill h.nodup
  exact ⟨hpath, htree, hT, hout, hπ⟩

/-- The node at a position. -/
theorem Represents.deref {d : Dir} {c : Color} {x y : ColorTree (Cell K V)} {e : Cell K V}
    (h : t.Represents (fill π (join d c x e y))) :
    t.deref e.addr = some (.of (above π) d (ptr x) (ptr y) c e) :=
  (holds_join.mp h.at.tree).1

/-- The node above a position. -/
theorem Represents.deref_above {g : Frame (Cell K V)} (h : t.Represents (fill (g :: π) T)) :
    t.deref g.elem.addr = some (.of (above π) g.dir (ptr T) (ptr g.sibling) g.color g.elem) :=
  Represents.deref (π := π) h

theorem Represents.getColor (h : t.Represents (fill π T)) : t.getColor (ptr T) = some T.color := by
  cases T with
  | nil => rfl
  | node c l e r =>
    have hd := Represents.deref (d := .left) h
    show (t.deref e.addr).map RbNode.color = some c
    rw [hd]
    rfl

theorem sideOf_above {g : Frame (Cell K V)} (h : t.Represents (fill (g :: π) T))
    (ha : ptr T = some a) :
    sideOf (.of (above π) g.dir (ptr T) (ptr g.sibling) g.color g.elem) a = g.dir := by
  refine RbNode.sideOf_of _ _ _ _ _ _ ha fun hs => ?_
  exact h.at.outside a (mem_addrs_of_ptr ha)
    (mem_pathAddrs_cons.mpr (Or.inr (Or.inl (mem_addrs_of_ptr hs))))

theorem Represents.deref_some (h : t.Represents (fill π T)) (ha : ptr T = some a) :
    ∃ n, t.deref a = some n ∧ n.parent = above π := by
  cases T with
  | nil => cases ha
  | node c l e r =>
    obtain rfl := Option.some.inj ha
    exact ⟨_, Represents.deref (d := .left) h, RbNode.of_parent _ _ _ _ _ _⟩

theorem Represents.sibling {g : Frame (Cell K V)} (h : t.Represents (fill (g :: π) T))
    (ha : ptr T = some a) : t.sibling a = some (ptr g.sibling) := by
  obtain ⟨n, hn, hp⟩ := h.deref_some ha
  have hp' : n.parent = some g.elem.addr := hp
  unfold RbTree.sibling
  rw [hn]
  show (n.parent.bind fun parent => (t.deref parent).bind fun p => _) = _
  rw [hp', Option.bind_some, h.deref_above, Option.bind_some, sideOf_above h ha,
    RbNode.of_child_other]
  rfl

/-! ## Writing to a node -/

theorem modify_eq (h : t.deref a = some n) :
    t.modify a f = some { t with heap := t.heap.update a f } := by
  unfold modify
  rw [h]
  rfl

theorem deref_modify_self (h : t.modify a f = some t') : t'.deref a = (t.deref a).map f := by
  unfold modify at h
  obtain ⟨n, hn, rfl⟩ := Option.map_eq_some_iff.mp h
  exact Table.lookup_update_self _ _ _

theorem deref_modify_of_ne (h : t.modify a f = some t') (hne : b ≠ a) :
    t'.deref b = t.deref b := by
  unfold modify at h
  obtain ⟨n, hn, rfl⟩ := Option.map_eq_some_iff.mp h
  exact Table.lookup_update_of_ne _ _ hne

theorem root_modify (h : t.modify a f = some t') : t'.root = t.root := by
  unfold modify at h
  obtain ⟨n, hn, rfl⟩ := Option.map_eq_some_iff.mp h
  rfl

/-- A node gets another colour or binding, where it is. -/
theorem Represents.modify {d : Dir} {c c' : Color} {x y : ColorTree (Cell K V)} {e e' : Cell K V}
    (h : t.Represents (fill π (join d c x e y))) (he : e'.addr = e.addr)
    (hf : f (.of (above π) d (ptr x) (ptr y) c e) = .of (above π) d (ptr x) (ptr y) c' e') :
    ∃ t', t.modify e.addr f = some t' ∧ t'.Represents (fill π (join d c' x e' y)) := by
  have hat := h.at
  obtain ⟨-, hx, hy⟩ := holds_join.mp hat.tree
  obtain ⟨-, -, hex, hey, -⟩ := nodup_join hat.nodup
  have hout := hat.outside e.addr (mem_addrs_join.mpr (Or.inl rfl))
  have hm := modify_eq (f := f) h.deref
  refine ⟨_, hm, ?_, holds_fill.mpr ⟨?_, holds_join.mpr ⟨?_, ?_, ?_⟩⟩, ?_⟩
  · rw [root_modify hm, h.root]
    cases π with
    | nil => rw [Trail.fill_nil, Trail.fill_nil, ptr_join, ptr_join, he]
    | cons g π => exact ptr_fill_of_ne (List.cons_ne_nil g π) _ _
  · rw [ptr_join, he, ← ptr_join d c x e y]
    exact hat.path.frame fun b hb => deref_modify_of_ne hm fun hba => hout (hba ▸ hb)
  · have hself := deref_modify_self hm
    rw [h.deref] at hself
    rw [he]
    exact hself.trans (congrArg some hf)
  · rw [he]
    exact hx.frame fun b hb => deref_modify_of_ne hm fun hba => hex (hba ▸ hb)
  · rw [he]
    exact hy.frame fun b hb => deref_modify_of_ne hm fun hba => hey (hba ▸ hb)
  · have haddrs : addrs (fill π (join d c' x e' y)) = addrs (fill π (join d c x e y)) := by
      rw [addrs_fill, addrs_fill]
      cases d <;> simp [addrs, join, inorder, he]
    rw [haddrs]
    exact h.nodup

theorem Represents.setColor (h : t.Represents (fill π T)) (ha : ptr T = some a) (c : Color) :
    ∃ t', t.setColor c (some a) = some t' ∧ t'.Represents (fill π (T.paint c)) := by
  cases T with
  | nil => cases ha
  | node c₀ l e r =>
    obtain rfl := Option.some.inj ha
    have hm : ∃ t', t.modify e.addr (fun n => { n with color := c }) = some t' ∧
        t'.Represents (fill π (join .left c l e r)) :=
      Represents.modify (d := .left) h rfl rfl
    exact hm

/-! ## Changing links -/

/-- What is left as it was outside the addresses that satisfy `P`. -/
structure Untouched (P : Addr → Prop) (t t' : RbTree K V) : Prop where
  deref : ∀ b, ¬ P b → t'.deref b = t.deref b
  root : t'.root = t.root

theorem modify_spec (h : t.deref a = some n) (f : RbNode K V → RbNode K V) :
    ∃ t', t.modify a f = some t' ∧ t'.deref a = some (f n) ∧ Untouched (· = a) t t' := by
  have hm := modify_eq (f := f) h
  refine ⟨_, hm, ?_, fun b hb => deref_modify_of_ne hm hb, root_modify hm⟩
  rw [deref_modify_self hm, h]
  rfl

/-- A tree hung below another node. -/
theorem setParentOf_spec {p : Option Addr} (hT : Holds t.heap p T) (hn : (addrs T).Nodup)
    (p' : Option Addr) :
    ∃ t', t.setParentOf p' (ptr T) = some t' ∧ Holds t'.heap p' T ∧
      Untouched (· ∈ addrs T) t t' := by
  cases T with
  | nil => exact ⟨t, rfl, trivial, fun _ _ => rfl, rfl⟩
  | node c l e r =>
    obtain ⟨he, hl, hr⟩ := hT
    obtain ⟨-, -, hel, her, -⟩ := nodup_join (d := .left) hn
    obtain ⟨t', hm, hself, hother⟩ := modify_spec (t := t) he fun n => { n with parent := p' }
    refine ⟨t', hm, ⟨hself, ?_, ?_⟩, fun b hb => hother.deref b fun hbe => hb ?_, hother.root⟩
    · exact hl.frame fun b hb => hother.deref b fun hbe => hel (hbe ▸ hb)
    · exact hr.frame fun b hb => hother.deref b fun hbe => her (hbe ▸ hb)
    · exact mem_addrs_of_ptr (congrArg some hbe.symm)

/-- What pointed to `a` from above points to `new`. -/
theorem relink_spec (hπ : HoldsPath t.heap (some a) π) (hout : a ∉ pathAddrs π)
    (hn : (pathAddrs π).Nodup) (new : Option Addr) :
    ∃ t', t.relink (above π) a new = some t' ∧ HoldsPath t'.heap new π ∧
      (∀ b, b ∉ pathAddrs π → t'.deref b = t.deref b) ∧
      (π = [] → t'.root = new) ∧ (π ≠ [] → t'.root = t.root) := by
  cases π with
  | nil =>
    exact ⟨{ t with root := new }, rfl, trivial, fun _ _ => rfl, fun _ => rfl,
      fun h => absurd rfl h⟩
  | cons g π =>
    obtain ⟨hg, hs, hup⟩ := hπ
    obtain ⟨hgs, hgπ, -⟩ := nodup_path hn
    have hside : sideOf (.of (above π) g.dir (some a) (ptr g.sibling) g.color g.elem) a = g.dir :=
      RbNode.sideOf_of _ _ _ _ _ _ rfl fun he =>
        hout (mem_pathAddrs_cons.mpr (Or.inr (Or.inl (mem_addrs_of_ptr he))))
    obtain ⟨t', hm, hself, hother⟩ := modify_spec (t := t) hg (RbNode.setChild g.dir new)
    rw [RbNode.of_setChild] at hself
    refine ⟨t', ?_, ⟨hself, ?_, ?_⟩, fun b hb => hother.deref b fun hbe => hb ?_,
      fun h => absurd h (List.cons_ne_nil g π), fun _ => hother.root⟩
    · unfold relink above
      dsimp only
      rw [show t.deref g.elem.addr = _ from hg]
      show t.modify g.elem.addr (RbNode.setChild (sideOf _ a) new) = some t'
      rw [hside]
      exact hm
    · exact hs.frame fun b hb => hother.deref b fun hbe => hgs (hbe ▸ hb)
    · exact hup.frame fun b hb => hother.deref b fun hbe => hgπ (hbe ▸ hb)
    · exact mem_pathAddrs_cons.mpr (Or.inl hbe)

/-- The root link, after the tree at a position was replaced. -/
theorem root_fill {T T' : ColorTree (Cell K V)} (h : t.root = ptr (fill π T))
    (hnil : π = [] → t'.root = ptr T') (hcons : π ≠ [] → t'.root = t.root) :
    t'.root = ptr (fill π T') := by
  cases π with
  | nil => exact hnil rfl
  | cons g π =>
    have hne := List.cons_ne_nil g π
    rw [hcons hne, h]
    exact ptr_fill_of_ne hne T T'

/-- **A rotation**, on the tree. -/
theorem Represents.rotate {d : Dir} {c c₁ : Color} {x y z : ColorTree (Cell K V)} {e e₁ : Cell K V}
    (h : t.Represents (fill π (join d c x e (join d c₁ y e₁ z)))) :
    ∃ t', RbTree.rotate d t e.addr = some t' ∧
      t'.Represents (fill π (join d c₁ (join d c x e y) e₁ z)) := by
  have hat := h.at
  obtain ⟨ha, hx, hjoin⟩ := holds_join.mp hat.tree
  obtain ⟨hb, hy, hz⟩ := holds_join.mp hjoin
  obtain ⟨-, hn₁, hax, ha₁, hx₁⟩ := nodup_join hat.nodup
  obtain ⟨hny, -, hby, hbz, hyz⟩ := nodup_join hn₁
  have hout : ∀ k, k = e.addr ∨ k ∈ addrs x ∨ k = e₁.addr ∨ k ∈ addrs y ∨ k ∈ addrs z →
      k ∉ pathAddrs π := by
    intro k hk
    refine hat.outside k ?_
    rw [mem_addrs_join, mem_addrs_join]
    exact hk
  have hne : e.addr ≠ e₁.addr ∧ e.addr ∉ addrs y ∧ e.addr ∉ addrs z := by
    rw [mem_addrs_join] at ha₁
    exact ⟨fun he => ha₁ (Or.inl he), fun hm => ha₁ (Or.inr (Or.inl hm)),
      fun hm => ha₁ (Or.inr (Or.inr hm))⟩
  have hxk : ∀ k ∈ addrs x, k ≠ e₁.addr ∧ k ∉ addrs y := by
    intro k hk
    have hk₁ := hx₁ k hk
    rw [mem_addrs_join] at hk₁
    exact ⟨fun he => hk₁ (Or.inl he), fun hm => hk₁ (Or.inr (Or.inl hm))⟩
  rw [ptr_join] at ha
  have hpath := hat.path
  rw [ptr_join] at hpath
  obtain ⟨t₁, hm₁, hpath₁, hsame₁, hroot₁⟩ :=
    relink_spec hpath (hout _ (Or.inl rfl)) hat.pathNodup (some e₁.addr)
  have ha₁' := (hsame₁ e.addr (hout _ (Or.inl rfl))).trans ha
  have hb₁' := (hsame₁ e₁.addr (hout _ (Or.inr (Or.inr (Or.inl rfl))))).trans hb
  obtain ⟨t₂, hm₂, hb₂, hs₂⟩ := modify_spec hb₁' fun n => { n with parent := above π }
  obtain ⟨t₃, hm₃, ha₃, hs₃⟩ := modify_spec ((hs₂.deref _ hne.1).trans ha₁')
    fun n => { n with parent := some e₁.addr }
  have hb₃ := (hs₃.deref _ hne.1.symm).trans hb₂
  rw [RbNode.of_setParent] at ha₃ hb₃
  obtain ⟨t₄, hm₄, ha₄, hs₄⟩ := modify_spec ha₃ (RbNode.setChild d.other (ptr y))
  rw [RbNode.of_setChild_other] at ha₄
  -- nothing of `y` has been written to so far
  have hy₄ : Holds t₄.heap (some e₁.addr) y := hy.frame fun k hk => by
    have hke : k ≠ e.addr := fun he => hne.2.1 (he ▸ hk)
    have hkb : k ≠ e₁.addr := fun he => hby (he ▸ hk)
    exact (hs₄.deref k hke).trans ((hs₃.deref k hke).trans ((hs₂.deref k hkb).trans
      (hsame₁ k (hout k (Or.inr (Or.inr (Or.inr (Or.inl hk))))))))
  obtain ⟨t₅, hm₅, hy₅, hs₅⟩ := setParentOf_spec hy₄ hny (some e.addr)
  have hb₅ := (hs₅.deref _ hby).trans ((hs₄.deref _ hne.1.symm).trans hb₃)
  obtain ⟨t₆, hm₆, hb₆, hs₆⟩ := modify_spec hb₅ (RbNode.setChild d (some e.addr))
  rw [RbNode.of_setChild] at hb₆
  have hrest : ∀ k, k ≠ e.addr → k ≠ e₁.addr → k ∉ addrs y → t₆.deref k = t₁.deref k := by
    intro k h1 h2 h3
    exact (hs₆.deref k h2).trans ((hs₅.deref k h3).trans ((hs₄.deref k h1).trans
      ((hs₃.deref k h1).trans (hs₂.deref k h2))))
  refine ⟨t₆, ?_, ?_, holds_fill.mpr ⟨?_, holds_join.mpr ⟨?_, holds_join.mpr ⟨?_, ?_, ?_⟩, ?_⟩⟩, ?_⟩
  · unfold RbTree.rotate
    rw [show t.deref e.addr = _ from ha]
    simp only [Option.bind_eq_bind, Option.bind_some, RbNode.of_child_other, RbNode.of_parent]
    rw [hm₁]
    simp only [Option.bind_some]
    rw [show t₁.setParent (above π) e₁.addr = some t₂ from hm₂]
    simp only [Option.bind_some]
    rw [show t₂.setParent (some e₁.addr) e.addr = some t₃ from hm₃]
    simp only [Option.bind_some]
    rw [hb₃]
    simp only [Option.bind_some, RbNode.of_child]
    rw [hm₄]
    simp only [Option.bind_some]
    rw [hm₅]
    simp only [Option.bind_some]
    exact hm₆
  · refine root_fill h.root (fun he => ?_) fun he => ?_
    · rw [hs₆.root, hs₅.root, hs₄.root, hs₃.root, hs₂.root, hroot₁.1 he, ptr_join]
    · rw [hs₆.root, hs₅.root, hs₄.root, hs₃.root, hs₂.root, hroot₁.2 he]
  · rw [ptr_join]
    refine hpath₁.frame fun k hk => hrest k ?_ ?_ ?_
    · exact fun he => hout k (Or.inl he) hk
    · exact fun he => hout k (Or.inr (Or.inr (Or.inl he))) hk
    · exact fun hm => hout k (Or.inr (Or.inr (Or.inr (Or.inl hm)))) hk
  · rw [ptr_join]
    exact hb₆
  · exact (hs₆.deref _ hne.1).trans ((hs₅.deref _ hne.2.1).trans ha₄)
  · refine hx.frame fun k hk => ?_
    exact (hrest k (fun he => hax (he ▸ hk)) (hxk k hk).1 (hxk k hk).2).trans
      (hsame₁ k (hout k (Or.inr (Or.inl hk))))
  · exact hy₅.frame fun k hk => hs₆.deref k fun he => hby (he ▸ hk)
  · refine hz.frame fun k hk => ?_
    exact (hrest k (fun he => hne.2.2 (he ▸ hk)) (fun he => hbz (he ▸ hk))
      fun hm => hyz k hm hk).trans (hsame₁ k (hout k (Or.inr (Or.inr (Or.inr (Or.inr hk))))))
  · have haddrs : addrs (fill π (join d c₁ (join d c x e y) e₁ z)) =
        addrs (fill π (join d c x e (join d c₁ y e₁ z))) := by
      rw [addrs_fill, addrs_fill]
      cases d <;> simp [addrs, join, inorder]
    rw [haddrs]
    exact h.nodup

/-- A node with one child at most gives its place to the child; it still stands in
memory. -/
theorem Represents.replaceNode {d : Dir} {c : Color} {x : ColorTree (Cell K V)} {e : Cell K V}
    (h : t.Represents (fill π (join d c x e nil))) :
    ∃ t', t.replaceNode e.addr (ptr x) = some t' ∧ t'.Represents (fill π x) ∧
      t'.deref e.addr = t.deref e.addr ∧ e.addr ∉ addrs (fill π x) := by
  have hat := h.at
  obtain ⟨he, hx, -⟩ := holds_join.mp hat.tree
  obtain ⟨hnx, -, hex, -, -⟩ := nodup_join hat.nodup
  have heπ : e.addr ∉ pathAddrs π := hat.outside _ (mem_addrs_join.mpr (Or.inl rfl))
  have hxπ : ∀ k ∈ addrs x, k ∉ pathAddrs π :=
    fun k hk => hat.outside k (mem_addrs_join.mpr (Or.inr (Or.inl hk)))
  have hpath := hat.path
  rw [ptr_join] at hpath
  obtain ⟨t₁, hm₁, hpath₁, hsame₁, hroot₁⟩ := relink_spec hpath heπ hat.pathNodup (ptr x)
  have hx₁ : Holds t₁.heap (some e.addr) x := hx.frame fun k hk => hsame₁ k (hxπ k hk)
  obtain ⟨t₂, hm₂, hx₂, hs₂⟩ := setParentOf_spec hx₁ hnx (above π)
  have hnd := h.nodup
  rw [addrs_fill] at hnd
  have haddrs : addrs (join d c x e nil) = addrs x ++ [e.addr] ∨
      addrs (join d c x e nil) = e.addr :: addrs x := by
    cases d with
    | left => exact Or.inl (by simp [addrs, join, inorder])
    | right => exact Or.inr (by simp [addrs, join, inorder])
  refine ⟨t₂, ?_, ⟨?_, holds_fill.mpr ⟨?_, hx₂⟩, ?_⟩, ?_, ?_⟩
  · unfold RbTree.replaceNode
    rw [h.deref]
    simp only [Option.bind_eq_bind, Option.bind_some, RbNode.of_parent]
    rw [hm₁]
    exact hm₂
  · refine root_fill h.root (fun hnil => ?_) fun hcons => ?_
    · rw [hs₂.root, hroot₁.1 hnil]
    · rw [hs₂.root, hroot₁.2 hcons]
  · exact hpath₁.frame fun k hk => hs₂.deref k fun hkx => hxπ k hkx hk
  · rw [addrs_fill]
    rcases haddrs with ha | ha <;> rw [ha] at hnd <;> simp only [List.nodup_append,
      List.mem_append, List.nodup_cons, List.mem_cons] at hnd ⊢ <;> grind
  · exact (hs₂.deref _ hex).trans (hsame₁ _ heπ)
  · rw [addrs_fill]
    unfold pathAddrs at heπ
    rw [List.map_append, List.mem_append] at heπ
    rw [List.mem_append, List.mem_append]
    grind

/-! ## Allocating and freeing -/

/-- Every node of the tree is in memory. -/
theorem Holds.deref {p : Option Addr} (hT : Holds t.heap p T) (ha : a ∈ addrs T) :
    ∃ n, t.deref a = some n := by
  induction T generalizing p with
  | nil => cases ha
  | node c l e r ihl ihr =>
    obtain ⟨he, hl, hr⟩ := hT
    rcases (mem_addrs_join (d := .left)).mp ha with rfl | ha | ha
    · exact ⟨_, he⟩
    · exact ihl hl ha
    · exact ihr hr ha

theorem Represents.not_mem (h : t.Represents T) (ha : t.deref a = none) : a ∉ addrs T := by
  intro hmem
  obtain ⟨n, hn⟩ := Holds.deref h.holds hmem
  rw [ha] at hn
  cases hn

/-- A walk along the tree has fuel. -/
theorem Represents.fuel (h : t.Represents T) : T.inorder.length < t.fuel := by
  have hle := t.heap.length_le_size h.nodup fun k hk => Holds.deref h.holds hk
  rw [addrs, List.length_map] at hle
  exact Nat.lt_succ_of_le hle

theorem Represents.malloc (h : t.Represents T) (ha : t.deref a = none) (n : RbNode K V) :
    ({ t with heap := t.heap.insert a n } : RbTree K V).Represents T where
  root := h.root
  holds := h.holds.frame fun b hb => by
    have hne : b ≠ a := fun he => h.not_mem ha (he ▸ hb)
    exact t.heap.lookup_insert_of_ne hne
  nodup := h.nodup

theorem Represents.free (h : t.Represents T) (ha : a ∉ addrs T) :
    ({ t with heap := t.heap.erase a } : RbTree K V).Represents T where
  root := h.root
  holds := h.holds.frame fun b hb => by
    have hne : b ≠ a := fun he => ha (he ▸ hb)
    exact t.heap.lookup_erase_of_ne hne
  nodup := h.nodup

/-! ## A new leaf -/

/-- A red leaf, linked at an empty position. -/
theorem Represents.leaf {e : Cell K V} (h : t.Represents (fill π nil))
    (hnew : e.addr ∉ addrs (fill π nil))
    (he : t'.deref e.addr = some ⟨above π, none, none, .red, e.key, e.data⟩)
    (hpath : HoldsPath t'.heap (some e.addr) π)
    (hnil : π = [] → t'.root = some e.addr) (hcons : π ≠ [] → t'.root = t.root) :
    t'.Represents (fill π (node .red nil e nil)) where
  root := root_fill h.root hnil hcons
  holds := holds_fill.mpr ⟨hpath, he, trivial, trivial⟩
  nodup := by
    have hnd := h.nodup
    rw [addrs_fill] at hnd hnew ⊢
    simp only [addrs, inorder, List.nil_append, List.map_cons, List.map_nil, List.mem_append,
      List.nodup_append, List.nodup_cons, List.mem_cons] at hnd hnew ⊢
    grind

end RbTree
end T2u
