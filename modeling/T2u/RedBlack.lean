import Mathlib.Data.List.Perm.Basic

/-!
# Red-black trees with a hole

Trees whose nodes are coloured, and the paths that lead into them.  A path is the
list of frames above a position, the innermost first; `fill π t` puts `t` there.
The algorithms on red-black trees work at one position and walk up, so their
invariants are about a path and what stands at its end.

Everything is stated for a direction `d` and the other one: `join d c x e y` is a
node with `x` on the side `d` and `y` on the other, so that a case and its mirror
image are one case.

`Balanced t n` says that no red node of `t` has a red child and that every way down
from the root passes `n` black nodes; `Hole π n` says the same of a path, for a
subtree of black height `n` at its end.
-/

namespace RedBlack

inductive Color
  | black
  | red
  deriving DecidableEq, Repr

inductive Dir
  | left
  | right
  deriving DecidableEq, Repr

def Dir.other : Dir → Dir
  | .left => .right
  | .right => .left

@[simp] theorem Dir.other_other (d : Dir) : d.other.other = d := by
  cases d <;> rfl

inductive ColorTree (α : Type)
  | nil
  | node (c : Color) (l : ColorTree α) (e : α) (r : ColorTree α)

/-- One step of a path: the hole is on the side `dir` of this node. -/
structure Frame (α : Type) where
  dir : Dir
  color : Color
  elem : α
  sibling : ColorTree α

/-- The frames above a position, the innermost first. -/
abbrev Trail (α : Type) := List (Frame α)

variable {α : Type}

namespace ColorTree

/-- A missing node counts as black. -/
def color : ColorTree α → Color
  | nil => .black
  | node c _ _ _ => c

/-- The root in another colour. -/
def paint (c : Color) : ColorTree α → ColorTree α
  | nil => nil
  | node _ l e r => node c l e r

def inorder : ColorTree α → List α
  | nil => []
  | node _ l e r => l.inorder ++ e :: r.inorder

/-- A node with `x` on the side `d`. -/
def join (d : Dir) (c : Color) (x : ColorTree α) (e : α) (y : ColorTree α) : ColorTree α :=
  match d with
  | .left => node c x e y
  | .right => node c y e x

@[simp] theorem color_nil : (nil : ColorTree α).color = .black := rfl

@[simp] theorem color_node (c : Color) (l : ColorTree α) (e : α) (r : ColorTree α) :
    (node c l e r).color = c := rfl

@[simp] theorem color_join (d : Dir) (c : Color) (x : ColorTree α) (e : α) (y : ColorTree α) :
    (join d c x e y).color = c := by
  cases d <;> rfl

@[simp] theorem paint_join (c' : Color) (d : Dir) (c : Color) (x : ColorTree α) (e : α) (y : ColorTree α) :
    (join d c x e y).paint c' = join d c' x e y := by
  cases d <;> rfl

@[simp] theorem inorder_paint (c : Color) (t : ColorTree α) : (t.paint c).inorder = t.inorder := by
  cases t <;> rfl

theorem paint_color (t : ColorTree α) : t.paint t.color = t := by
  cases t <;> rfl

theorem join_other (d : Dir) (c : Color) (x : ColorTree α) (e : α) (y : ColorTree α) :
    join d.other c x e y = join d c y e x := by
  cases d <;> rfl

/-- A tree with a node at the root, seen from the side `d`. -/
theorem exists_join (d : Dir) {t : ColorTree α} (h : t ≠ nil) : ∃ c x e y, t = join d c x e y := by
  cases t with
  | nil => exact absurd rfl h
  | node c l e r =>
    cases d with
    | left => exact ⟨c, l, e, r, rfl⟩
    | right => exact ⟨c, r, e, l, rfl⟩

theorem ne_nil_of_color_red {t : ColorTree α} (h : t.color = .red) : t ≠ nil := by
  intro he
  rw [he] at h
  cases h

/-! ## Balance -/

/-- No red node has a red child, and every way down passes `n` black nodes. -/
inductive Balanced : ColorTree α → Nat → Prop
  | nil : Balanced nil 0
  | red {l r : ColorTree α} {e : α} {n : Nat} (hl : Balanced l n) (hr : Balanced r n)
      (cl : l.color = .black) (cr : r.color = .black) : Balanced (node .red l e r) n
  | black {l r : ColorTree α} {e : α} {n : Nat} (hl : Balanced l n) (hr : Balanced r n) :
      Balanced (node .black l e r) (n + 1)

theorem Balanced.joinRed {d : Dir} {x y : ColorTree α} {e : α} {n : Nat} (hx : Balanced x n)
    (hy : Balanced y n) (cx : x.color = .black) (cy : y.color = .black) :
    Balanced (join d .red x e y) n := by
  cases d with
  | left => exact .red hx hy cx cy
  | right => exact .red hy hx cy cx

theorem Balanced.joinBlack {d : Dir} {x y : ColorTree α} {e : α} {n : Nat} (hx : Balanced x n)
    (hy : Balanced y n) : Balanced (join d .black x e y) (n + 1) := by
  cases d with
  | left => exact .black hx hy
  | right => exact .black hy hx

/-- The children of a red node. -/
structure RedNode (x y : ColorTree α) (n : Nat) : Prop where
  left : Balanced x n
  right : Balanced y n
  leftColor : x.color = .black
  rightColor : y.color = .black

theorem Balanced.of_joinRed {d : Dir} {x y : ColorTree α} {e : α} {n : Nat}
    (h : Balanced (join d .red x e y) n) : RedNode x y n := by
  cases d with
  | left =>
    cases h with
    | red hl hr cl cr => exact ⟨hl, hr, cl, cr⟩
  | right =>
    cases h with
    | red hl hr cl cr => exact ⟨hr, hl, cr, cl⟩

theorem Balanced.of_joinBlack {d : Dir} {x y : ColorTree α} {e : α} {n : Nat}
    (h : Balanced (join d .black x e y) n) :
    ∃ m, n = m + 1 ∧ Balanced x m ∧ Balanced y m := by
  cases d with
  | left =>
    cases h with
    | black hl hr => exact ⟨_, rfl, hl, hr⟩
  | right =>
    cases h with
    | black hl hr => exact ⟨_, rfl, hr, hl⟩

/-- The element at a node plays no part. -/
theorem Balanced.replace {d : Dir} {c : Color} {x y : ColorTree α} {e : α} {n : Nat}
    (h : Balanced (join d c x e y) n) (e' : α) : Balanced (join d c x e' y) n := by
  cases c with
  | red =>
    have hr := h.of_joinRed
    exact .joinRed hr.left hr.right hr.leftColor hr.rightColor
  | black =>
    obtain ⟨m, rfl, hx, hy⟩ := h.of_joinBlack
    exact .joinBlack hx hy

/-- Painting a red root black adds one to the black height. -/
theorem Balanced.paintBlack {t : ColorTree α} {n : Nat} (h : Balanced t n) :
    ∃ m, Balanced (t.paint .black) m := by
  cases h with
  | nil => exact ⟨0, .nil⟩
  | red hl hr cl cr => exact ⟨_, .black hl hr⟩
  | black hl hr => exact ⟨_, .black hl hr⟩

/-- A red root painted black. -/
theorem Balanced.blacken {t : ColorTree α} {n : Nat} (h : Balanced t n) (hc : t.color = .red) :
    Balanced (t.paint .black) (n + 1) := by
  cases h with
  | nil => cases hc
  | red hl hr cl cr => exact .black hl hr
  | black hl hr => cases hc

/-- Painting a black root red takes one off, if both children are black. -/
theorem Balanced.paintRed {d : Dir} {x y : ColorTree α} {e : α} {n : Nat}
    (h : Balanced (join d .black x e y) (n + 1)) (cx : x.color = .black) (cy : y.color = .black) :
    Balanced (join d .red x e y) n := by
  obtain ⟨m, hm, hx, hy⟩ := h.of_joinBlack
  obtain rfl := Nat.succ.inj hm
  exact .joinRed hx hy cx cy

theorem Balanced.ne_nil {t : ColorTree α} {n : Nat} (h : Balanced t (n + 1)) : t ≠ ColorTree.nil := by
  intro he
  rw [he] at h
  cases h

end ColorTree

open ColorTree

/-! ## Paths -/

namespace Trail

/-- Puts a tree at the end of a path. -/
def fill : Trail α → ColorTree α → ColorTree α
  | [], t => t
  | f :: π, t => fill π (join f.dir f.color t f.elem f.sibling)

/-- The colour of the node above the position; above the root counts as black. -/
def color : Trail α → Color
  | [] => .black
  | f :: _ => f.color

/-- The elements left of the position. -/
def before : Trail α → List α
  | [] => []
  | f :: π =>
    match f.dir with
    | .left => before π
    | .right => before π ++ (f.sibling.inorder ++ [f.elem])

/-- The elements right of the position. -/
def after : Trail α → List α
  | [] => []
  | f :: π =>
    match f.dir with
    | .left => f.elem :: (f.sibling.inorder ++ after π)
    | .right => after π

@[simp] theorem fill_nil (t : ColorTree α) : fill [] t = t := rfl

theorem fill_cons (f : Frame α) (π : Trail α) (t : ColorTree α) :
    fill (f :: π) t = fill π (join f.dir f.color t f.elem f.sibling) := rfl

theorem fill_append (ρ π : Trail α) (t : ColorTree α) : fill (ρ ++ π) t = fill π (fill ρ t) := by
  induction ρ generalizing t with
  | nil => rfl
  | cons f ρ ih => exact ih _

/-- The same tree, seen from the sibling. -/
theorem fill_sibling (d : Dir) (c : Color) (e : α) (s t : ColorTree α) (π : Trail α) :
    fill (⟨d, c, e, s⟩ :: π) t = fill (⟨d.other, c, e, t⟩ :: π) s := by
  rw [fill_cons, fill_cons, join_other]

theorem inorder_fill (π : Trail α) (t : ColorTree α) :
    (fill π t).inorder = before π ++ (t.inorder ++ after π) := by
  induction π generalizing t with
  | nil => simp [before, after]
  | cons f π ih =>
    rw [fill_cons, ih]
    obtain ⟨d, c, e, s⟩ := f
    cases d <;> simp [before, after, join, inorder]

theorem before_append (ρ π : Trail α) : before (ρ ++ π) = before π ++ before ρ := by
  induction ρ with
  | nil => simp [before]
  | cons f ρ ih =>
    obtain ⟨d, c, e, s⟩ := f
    cases d <;> simp [before, ih]

theorem after_append (ρ π : Trail α) : after (ρ ++ π) = after ρ ++ after π := by
  induction ρ with
  | nil => rfl
  | cons f ρ ih =>
    obtain ⟨d, c, e, s⟩ := f
    cases d <;> simp [after, ih]

/-- Two paths lead to the same place among the elements. -/
structure SamePlace (π π' : Trail α) : Prop where
  before : before π' = before π
  after : after π' = after π

theorem SamePlace.refl (π : Trail α) : SamePlace π π := ⟨rfl, rfl⟩

theorem SamePlace.trans {π π' π'' : Trail α} (h : SamePlace π π') (h' : SamePlace π' π'') :
    SamePlace π π'' :=
  ⟨h'.before.trans h.before, h'.after.trans h.after⟩

/-- Colours above a position do not move it. -/
theorem SamePlace.recolor {d : Dir} {c c' : Color} {e : α} {s s' : ColorTree α} {π π' : Trail α}
    (h : SamePlace π π') (hs : s'.inorder = s.inorder) :
    SamePlace (⟨d, c, e, s⟩ :: π) (⟨d, c', e, s'⟩ :: π') := by
  cases d with
  | left => exact ⟨h.before, by simp [Trail.after, hs, h.after]⟩
  | right => exact ⟨by simp [Trail.before, hs, h.before], h.after⟩

/-- Rotating the node above a position towards it. -/
theorem SamePlace.rotate {d : Dir} {c c₁ c' c₁' : Color} {e e' : α} {y z z' : ColorTree α} {π : Trail α}
    (hz : z'.inorder = z.inorder) :
    SamePlace (⟨d, c, e, join d c₁ y e' z⟩ :: π) (⟨d, c', e, y⟩ :: ⟨d, c₁', e', z'⟩ :: π) := by
  cases d <;> constructor <;> simp [Trail.before, Trail.after, join, inorder, hz]

end Trail

open Trail

/-- A subtree of black height `n` fits at the end of the path, if its colour does. -/
inductive Hole : Trail α → Nat → Prop
  | root {n : Nat} : Hole [] n
  | red {d : Dir} {e : α} {s : ColorTree α} {g : Frame α} {π : Trail α} {n : Nat}
      (hs : Balanced s n) (cs : s.color = .black) (hg : g.color = .black)
      (hπ : Hole (g :: π) n) : Hole (⟨d, .red, e, s⟩ :: g :: π) n
  | black {d : Dir} {e : α} {s : ColorTree α} {π : Trail α} {n : Nat}
      (hs : Balanced s n) (hπ : Hole π (n + 1)) : Hole (⟨d, .black, e, s⟩ :: π) n

/-- What stands at the end of a path must be black below a red node, and at the
root. -/
structure Fits (π : Trail α) (t : ColorTree α) : Prop where
  below : color π = .red → t.color = .black
  root : π = [] → t.color = .black

theorem fits_of_black {π : Trail α} {t : ColorTree α} (h : t.color = .black) : Fits π t :=
  ⟨fun _ => h, fun _ => h⟩

/-- A hole below a node that is not the root. -/
theorem Hole.above {d : Dir} {e : α} {s : ColorTree α} {π : Trail α} {n : Nat}
    (h : Hole (⟨d, .red, e, s⟩ :: π) n) :
    Balanced s n ∧ s.color = .black ∧ Hole π n ∧ color π = .black ∧ π ≠ [] := by
  cases h with
  | red hs cs hg hπ => exact ⟨hs, cs, hπ, hg, List.cons_ne_nil _ _⟩

theorem Hole.red' {d : Dir} {e : α} {s : ColorTree α} {π : Trail α} {n : Nat} (hs : Balanced s n)
    (cs : s.color = .black) (hπ : Hole π n) (hc : color π = .black) (hne : π ≠ []) :
    Hole (⟨d, .red, e, s⟩ :: π) n := by
  cases π with
  | nil => exact absurd rfl hne
  | cons g π => exact .red hs cs hc hπ

/-- Another black sibling of the same black height. -/
theorem Hole.replace {d d' : Dir} {c : Color} {e e' : α} {s s' : ColorTree α} {π : Trail α} {n : Nat}
    (h : Hole (⟨d, c, e, s⟩ :: π) n) (hs : Balanced s' n) (cs : s'.color = .black) :
    Hole (⟨d', c, e', s'⟩ :: π) n := by
  cases h with
  | red _ _ hg hπ => exact .red hs cs hg hπ
  | black _ hπ => exact .black hs hπ

theorem Hole.sibling {d : Dir} {c : Color} {e : α} {s : ColorTree α} {π : Trail α} {n : Nat}
    (h : Hole (⟨d, c, e, s⟩ :: π) n) : Balanced s n := by
  cases h with
  | red hs _ _ _ => exact hs
  | black hs _ => exact hs

/-- **Filling a hole**: the result is balanced and its root is black. -/
theorem Hole.fill {π : Trail α} {t : ColorTree α} {n : Nat} (h : Hole π n) (ht : Balanced t n)
    (hfits : Fits π t) :
    (fill π t).color = .black ∧ ∃ m, Balanced (fill π t) m := by
  induction h generalizing t with
  | root => exact ⟨hfits.root rfl, _, ht⟩
  | red hs cs hg hπ ih =>
    refine ih (.joinRed ht hs (hfits.below rfl) cs) ⟨fun hr => ?_, fun he => ?_⟩
    · rw [show color (_ :: _) = Frame.color _ from rfl, hg] at hr
      cases hr
    · cases he
  | black hs hπ ih => exact ih (.joinBlack ht hs) (fits_of_black (color_join _ _ _ _ _))

/-- **Opening a tree**: every position of a balanced tree with a black root is a
hole, and what stands there fits. -/
theorem ColorTree.Balanced.open_path {π : Trail α} {t : ColorTree α} {m : Nat} (h : Balanced (fill π t) m)
    (hc : (fill π t).color = .black) : ∃ n, Hole π n ∧ Balanced t n ∧ Fits π t := by
  induction π generalizing t with
  | nil => exact ⟨m, .root, h, fun _ => hc, fun _ => hc⟩
  | cons f π ih =>
    obtain ⟨d, c, e, s⟩ := f
    obtain ⟨n, hπ, hj, hfits⟩ := ih h hc
    cases c with
    | red =>
      have hr := hj.of_joinRed
      have hblack : Trail.color π = .black := by
        cases hcπ : Trail.color π with
        | black => rfl
        | red =>
          have := hfits.below hcπ
          rw [color_join] at this
          cases this
      have hne : π ≠ [] := by
        intro he
        have := hfits.root he
        rw [color_join] at this
        cases this
      exact ⟨n, .red' hr.right hr.rightColor hπ hblack hne, hr.left, fun _ => hr.leftColor,
        fun he => absurd he (List.cons_ne_nil _ _)⟩
    | black =>
      obtain ⟨k, rfl, ht, hs⟩ := hj.of_joinBlack
      exact ⟨k, .black hs hπ, ht, fun hr => Color.noConfusion hr,
        fun he => absurd he (List.cons_ne_nil _ _)⟩

/-! ## Searching

`f e` tells where what is looked for lies: at `e` if it is zero, right of `e` if it is
negative, and left of it otherwise. -/

section Search
variable (f : α → Int)

/-- The way down to what is looked for, or to the empty place where it belongs. -/
def search : Trail α → ColorTree α → Trail α × ColorTree α
  | π, .nil => (π, .nil)
  | π, .node c l e r =>
    if f e = 0 then (π, .node c l e r)
    else if f e < 0 then search (⟨.right, c, e, l⟩ :: π) r
    else search (⟨.left, c, e, r⟩ :: π) l

theorem search_fill (π : Trail α) (t : ColorTree α) :
    fill (search f π t).1 (search f π t).2 = fill π t := by
  induction t generalizing π with
  | nil => rfl
  | node c l e r ihl ihr =>
    unfold search
    split
    · rfl
    · split
      · exact ihr _
      · exact ihl _

/-- What is looked for lies at the position. -/
structure Between (π : Trail α) : Prop where
  before : ∀ e ∈ before π, f e < 0
  after : ∀ e ∈ after π, 0 < f e

/-- Along the list, `f` passes from negative to positive. -/
def Crosses (l : List α) : Prop := l.Pairwise fun x y => f y ≤ 0 → f x < 0

theorem search_between {π : Trail α} {t : ColorTree α} (hl : Crosses f (fill π t).inorder)
    (h : Between f π) :
    Between f (search f π t).1 ∧
      ((search f π t).2 = .nil ∨ ∃ c l e r, (search f π t).2 = .node c l e r ∧ f e = 0) := by
  induction t generalizing π with
  | nil => exact ⟨h, Or.inl rfl⟩
  | node c l e r ihl ihr =>
    have hpair := hl
    rw [inorder_fill, Crosses, List.pairwise_append] at hpair
    obtain ⟨hle, her⟩ : (∀ x ∈ l.inorder, f e ≤ 0 → f x < 0) ∧
        ∀ x ∈ r.inorder, f x ≤ 0 → f e < 0 := by
      have hmid := (List.pairwise_append.mp hpair.2.1).1
      obtain ⟨-, hr, hlr⟩ := List.pairwise_append.mp hmid
      exact ⟨fun x hx => hlr x hx e List.mem_cons_self, (List.pairwise_cons.mp hr).1⟩
    unfold search
    split
    · rename_i hzero
      exact ⟨h, Or.inr ⟨c, l, e, r, rfl, hzero⟩⟩
    · rename_i hne
      split
      · rename_i hneg
        refine ihr hl ⟨fun x hx => ?_, h.after⟩
        simp only [Trail.before, List.mem_append, List.mem_singleton] at hx
        rcases hx with hx | hx | rfl
        · exact h.before x hx
        · exact hle x hx (by omega)
        · exact hneg
      · rename_i hnneg
        refine ihl hl ⟨h.before, fun x hx => ?_⟩
        simp only [Trail.after, List.mem_cons, List.mem_append] at hx
        rcases hx with rfl | hx | hx
        · omega
        · by_cases hpos : 0 < f x
          · exact hpos
          · exact absurd (her x hx (by omega)) hnneg
        · exact h.after x hx

/-- The node above a position points to the side where what is looked for lies. -/
theorem Between.dir {g : Frame α} {π : Trail α} (h : Between f (g :: π)) :
    (g.dir = .left ∧ 0 < f g.elem) ∨ (g.dir = .right ∧ f g.elem < 0) := by
  obtain ⟨d, c, e, s⟩ := g
  cases d with
  | left => exact Or.inl ⟨rfl, h.after e List.mem_cons_self⟩
  | right =>
    refine Or.inr ⟨rfl, h.before e ?_⟩
    simp [Trail.before]

theorem length_path (π : Trail α) : π.length ≤ (before π ++ after π).length := by
  induction π with
  | nil => exact Nat.zero_le _
  | cons g π ih =>
    obtain ⟨d, c, e, s⟩ := g
    cases d <;> simp [Trail.before, Trail.after] at ih ⊢ <;> omega

end Search

/-! ## Walking through the elements

A walk towards a side meets the elements in order, or in the opposite order. -/

namespace ColorTree

/-- The elements as a walk towards the side `d` meets them. -/
def walk (d : Dir) (t : ColorTree α) : List α :=
  match d with
  | .left => t.inorder.reverse
  | .right => t.inorder

@[simp] theorem walk_nil (d : Dir) : (nil : ColorTree α).walk d = [] := by
  cases d <;> rfl

theorem walk_join (d : Dir) (c : Color) (x : ColorTree α) (e : α) (y : ColorTree α) :
    (join d c x e y).walk d = y.walk d ++ e :: x.walk d := by
  cases d <;> simp [walk, join, inorder]

theorem length_join (d : Dir) (c : Color) (x : ColorTree α) (e : α) (y : ColorTree α) :
    (join d c x e y).inorder.length = x.inorder.length + (y.inorder.length + 1) := by
  cases d <;> simp only [join, inorder, List.length_append, List.length_cons]
  omega

theorem walk_ne_nil (d : Dir) {t : ColorTree α} (h : t ≠ nil) : t.walk d ≠ [] := by
  obtain ⟨c, x, e, y, rfl⟩ := exists_join d h
  rw [walk_join]
  exact List.append_ne_nil_of_right_ne_nil _ (List.cons_ne_nil _ _)

/-- The side `d` of every node is where an induction may look first. -/
theorem joinInduction (d : Dir) {P : ColorTree α → Prop} (nil : P nil)
    (join : ∀ c x e y, P x → P y → P (join d c x e y)) (t : ColorTree α) : P t := by
  induction t with
  | nil => exact nil
  | node c l e r ihl ihr =>
    cases d with
    | left => exact join c l e r ihl ihr
    | right => exact join c r e l ihr ihl

end ColorTree

namespace Trail

/-- What a walk towards the side `d` has still to meet, past the position. -/
def ahead (d : Dir) (π : Trail α) : List α :=
  match d with
  | .left => (before π).reverse
  | .right => after π

@[simp] theorem ahead_nil (d : Dir) : ahead d ([] : Trail α) = [] := by
  cases d <;> rfl

theorem ahead_same (d : Dir) (c : Color) (e : α) (s : ColorTree α) (π : Trail α) :
    ahead d (⟨d, c, e, s⟩ :: π) = ahead d π := by
  cases d <;> simp [ahead, before, after]

theorem ahead_other (d : Dir) (c : Color) (e : α) (s : ColorTree α) (π : Trail α) :
    ahead d (⟨d.other, c, e, s⟩ :: π) = e :: (s.walk d ++ ahead d π) := by
  cases d <;> simp [ahead, before, after, Dir.other, walk]

end Trail

/-- **Every place among the elements is a position**: the rest of the walk is the child
on that side, and what lies ahead of the position. -/
theorem ColorTree.exists_position (d : Dir) {t : ColorTree α} {xs ys : List α} {e : α}
    (h : t.walk d = xs ++ e :: ys) :
    ∃ π c x y, t = fill π (join d c x e y) ∧ ys = x.walk d ++ ahead d π := by
  induction t using joinInduction d generalizing xs ys with
  | nil =>
    rw [walk_nil] at h
    exact absurd h (by simp)
  | join c x e' y ihx ihy =>
    rw [walk_join] at h
    rcases List.append_eq_append_iff.mp h with ⟨zs, rfl, hz⟩ | ⟨zs, hy, hz⟩
    · cases zs with
      | nil =>
        obtain ⟨rfl, rfl⟩ := List.cons.inj hz
        exact ⟨[], c, x, y, rfl, by simp⟩
      | cons z zs =>
        obtain ⟨-, hx⟩ := List.cons.inj hz
        obtain ⟨π, c', x', y', hfill, hys⟩ := ihx hx
        refine ⟨π ++ [⟨d, c, e', y⟩], c', x', y', ?_, ?_⟩
        · rw [fill_append, ← hfill]
          rfl
        · rw [hys]
          cases d <;> simp [ahead, before_append, after_append, before, after]
    · cases zs with
      | nil =>
        obtain ⟨rfl, rfl⟩ := List.cons.inj hz
        exact ⟨[], c, x, y, rfl, by simp⟩
      | cons z zs =>
        obtain ⟨rfl, hrest⟩ := List.cons.inj hz
        obtain ⟨π, c', x', y', hfill, hys⟩ := ihy hy
        refine ⟨π ++ [⟨d.other, c, e', x⟩], c', x', y', ?_, ?_⟩
        · rw [fill_append, ← hfill, fill_cons, fill_nil]
          exact (join_other d c y e' x).symm
        · rw [show ys = zs ++ e' :: walk d x from hrest, hys]
          cases d <;>
            simp [ahead, before_append, after_append, before, after, Dir.other, walk]

end RedBlack
