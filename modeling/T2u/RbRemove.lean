import T2u.RbInsert

/-!
# Removing from the tree

When a black node goes, every way through its place passes one black node too few.
`delete_case1` to `delete_case6` repair this before the node is taken out, walking up
while the sibling and its children are black.  `deleteCase1_spec` shows what they
leave: the same elements around the place, in a path whose hole takes a subtree of
one black height less, below a black node.  That is also why the one red child the
node may have can take its place as it is.
-/

namespace T2u
open RedBlack RedBlack.ColorTree
open RedBlack.Trail (fill inorder_fill fill_cons fill_sibling SamePlace)

namespace RbTree
variable {K V : Type} {t : RbTree K V} {π : Trail (Cell K V)} {n : Nat} {d : Dir} {c cs : Color}
  {X s near far : ColorTree (Cell K V)} {ep es : Cell K V} {a b : Addr}

/-! ## Around the place -/

theorem Represents.paint_above (h : t.Represents (fill (⟨d, c, ep, s⟩ :: π) X)) (c' : Color) :
    ∃ t', t.setColor c' (some ep.addr) = some t' ∧
      t'.Represents (fill (⟨d, c', ep, s⟩ :: π) X) := by
  rw [fill_cons] at h
  obtain ⟨t', hm, h'⟩ := h.setColor (ptr_join d c X ep s) c'
  rw [paint_join] at h'
  exact ⟨t', hm, h'⟩

theorem Represents.paint_sibling (h : t.Represents (fill (⟨d, c, ep, s⟩ :: π) X))
    (hs : ptr s = some b) (c' : Color) :
    ∃ t', t.setColor c' (some b) = some t' ∧
      t'.Represents (fill (⟨d, c, ep, s.paint c'⟩ :: π) X) := by
  rw [fill_sibling] at h
  obtain ⟨t', hm, h'⟩ := h.setColor hs c'
  rw [fill_sibling, Dir.other_other] at h'
  exact ⟨t', hm, h'⟩

theorem Represents.sibling_color (h : t.Represents (fill (⟨d, c, ep, s⟩ :: π) X)) :
    t.getColor (ptr s) = some s.color := by
  rw [fill_sibling] at h
  exact h.getColor

/-- The sibling and its two children. -/
structure Family (t : RbTree K V) (d : Dir) (cs : Color) (near far : ColorTree (Cell K V))
    (es : Cell K V) : Prop where
  deref : ∃ p, t.deref es.addr = some (.of p d (ptr near) (ptr far) cs es)
  near : t.getColor (ptr near) = some near.color
  far : t.getColor (ptr far) = some far.color

theorem Represents.family
    (h : t.Represents (fill (⟨d, c, ep, join d cs near es far⟩ :: π) X)) :
    t.Family d cs near far es := by
  rw [fill_sibling] at h
  refine ⟨⟨_, h.deref⟩, ?_, ?_⟩
  · exact Represents.getColor (π := ⟨d, cs, es, far⟩ :: ⟨d.other, c, ep, X⟩ :: π) h
  · rw [← join_other d] at h
    exact Represents.getColor (π := ⟨d.other, cs, es, near⟩ :: ⟨d.other, c, ep, X⟩ :: π) h

/-- The node and its parent. -/
structure Place (t : RbTree K V) (d : Dir) (c : Color) (X s : ColorTree (Cell K V)) (ep : Cell K V)
    (a : Addr) : Prop where
  deref : ∃ b, t.deref a = some b ∧ b.parent = some ep.addr
  parent : ∃ p, t.deref ep.addr = some (.of p d (ptr X) (ptr s) c ep) ∧
    sideOf (.of p d (ptr X) (ptr s) c ep) a = d
  sibling : t.sibling a = some (ptr s)

theorem Represents.place (h : t.Represents (fill (⟨d, c, ep, s⟩ :: π) X)) (ha : ptr X = some a) :
    t.Place d c X s ep a :=
  ⟨h.deref_some ha, ⟨_, h.deref_above, sideOf_above h ha⟩, h.sibling ha⟩

/-- Rotating the parent towards the place. -/
theorem Represents.rotate_above
    (h : t.Represents (fill (⟨d, c, ep, join d cs near es far⟩ :: π) X)) :
    ∃ t', RbTree.rotate d t ep.addr = some t' ∧
      t'.Represents (fill (⟨d, c, ep, near⟩ :: ⟨d, cs, es, far⟩ :: π) X) := by
  rw [fill_cons] at h
  exact h.rotate

/-- Rotating the sibling away from the place. -/
theorem Represents.rotate_sibling {n₁ n₂ : ColorTree (Cell K V)} {en : Cell K V} {cn : Color}
    (h : t.Represents (fill (⟨d, c, ep, join d cs (join d cn n₁ en n₂) es far⟩ :: π) X)) :
    ∃ t', RbTree.rotate d.other t es.addr = some t' ∧
      t'.Represents (fill (⟨d, c, ep, join d cn n₁ en (join d cs n₂ es far)⟩ :: π) X) := by
  rw [fill_sibling, ← join_other d cs, ← join_other d cn] at h
  obtain ⟨t', hm, h'⟩ := h.rotate
  rw [fill_sibling, Dir.other_other, join_other d, join_other d] at h'
  exact ⟨t', hm, h'⟩

/-- The sibling's children in other colours. -/
theorem Represents.paint_far
    (h : t.Represents (fill (⟨d, c, ep, join d cs near es far⟩ :: π) X)) (hf : ptr far = some b)
    (c' : Color) :
    ∃ t', t.setColor c' (some b) = some t' ∧
      t'.Represents (fill (⟨d, c, ep, join d cs near es (far.paint c')⟩ :: π) X) := by
  rw [fill_sibling, ← join_other d cs, ← fill_cons ⟨d.other, cs, es, near⟩] at h
  obtain ⟨t', hm, h'⟩ := h.setColor hf c'
  rw [fill_cons, join_other d, fill_sibling, Dir.other_other] at h'
  exact ⟨t', hm, h'⟩

theorem Represents.paint_near
    (h : t.Represents (fill (⟨d, c, ep, join d cs near es far⟩ :: π) X)) (hf : ptr near = some b)
    (c' : Color) :
    ∃ t', t.setColor c' (some b) = some t' ∧
      t'.Represents (fill (⟨d, c, ep, join d cs (near.paint c') es far⟩ :: π) X) := by
  rw [fill_sibling, ← fill_cons ⟨d, cs, es, far⟩] at h
  obtain ⟨t', hm, h'⟩ := h.setColor hf c'
  rw [fill_cons, fill_sibling, Dir.other_other] at h'
  exact ⟨t', hm, h'⟩

/-! ## The cases -/

/-- The far child of the sibling is red: one rotation, and the repair is done. -/
theorem deleteCase6_spec
    (h : t.Represents (fill (⟨d, c, ep, join d cs near es far⟩ :: π) X)) (ha : ptr X = some a)
    (hfar : far.color = .red) :
    ∃ t', deleteCase6 t a = some t' ∧
      t'.Represents (fill (⟨d, .black, ep, near⟩ :: ⟨d, c, es, far.paint .black⟩ :: π) X) := by
  obtain ⟨⟨b, hb, hp⟩, ⟨p, hparent, hside⟩, hsib⟩ := h.place ha
  rw [ptr_join] at hsib
  obtain ⟨t₁, hm₁, h₁⟩ := h.paint_sibling (ptr_join _ _ _ _ _) c
  rw [paint_join] at h₁
  obtain ⟨t₂, hm₂, h₂⟩ := h₁.paint_above .black
  obtain ⟨⟨q, hes⟩, -, hcfar⟩ := h₂.family
  obtain ⟨f, hf⟩ := exists_ptr hfar
  obtain ⟨t₃, hm₃, h₃⟩ := h₂.paint_far hf .black
  obtain ⟨t₄, hm₄, h₄⟩ := h₃.rotate_above
  refine ⟨t₄, ?_, h₄⟩
  unfold deleteCase6
  rw [hb]
  simp only [Option.bind_eq_bind, Option.bind_some]
  rw [hp]
  simp only [Option.bind_some]
  rw [hparent]
  simp only [Option.bind_some, RbNode.of_color]
  rw [hsib, hside]
  simp only [Option.bind_some]
  rw [hm₁]
  simp only [Option.bind_some]
  rw [hm₂]
  simp only [Option.bind_some]
  rw [hes]
  simp only [Option.bind_some, RbNode.of_child_other]
  rw [hcfar, hfar]
  simp only [Option.bind_some]
  rw [if_pos trivial, hf, hm₃]
  exact hm₄

/-- What the cases leave of a path: the place is the same, it takes a subtree of black
height `n`, and the node above it is black. -/
def Repaired (t : RbTree K V) (π : Trail (Cell K V)) (X : ColorTree (Cell K V)) (n : Nat) : Prop :=
  ∃ π', t.Represents (fill π' X) ∧ Hole π' n ∧ Trail.color π' = .black ∧ SamePlace π π'

theorem eq_black {T : ColorTree (Cell K V)} (h : T.color ≠ .red) : T.color = .black := by
  cases hc : T.color with
  | black => rfl
  | red => exact absurd hc h

/-- The repair after the last rotation. -/
theorem repaired_rotated {t' : RbTree K V}
    (h : t'.Represents (fill (⟨d, .black, ep, near⟩ :: ⟨d, c, es, far.paint .black⟩ :: π) X))
    (hnear : Balanced near n) (hfar : Balanced far n) (hred : far.color = .red)
    (hhole : Hole (⟨d, c, ep, s⟩ :: π) (n + 1))
    (hs : (join d .black near es far).inorder = s.inorder) :
    t'.Repaired (⟨d, c, ep, s⟩ :: π) X n := by
  have hcolor : (far.paint .black).color = .black := by
    cases far <;> rfl
  refine ⟨_, h, .black hnear (hhole.replace (hfar.blacken hred) hcolor), rfl, ?_⟩
  have hsame : SamePlace (⟨d, c, ep, join d .black near es far⟩ :: π)
      (⟨d, .black, ep, near⟩ :: ⟨d, c, es, far.paint .black⟩ :: π) :=
    SamePlace.rotate (inorder_paint .black far)
  exact (SamePlace.recolor (SamePlace.refl π) hs).trans hsame

/-- A red child of a black sibling: two rotations at most, and the repair is done. -/
theorem deleteCase5_spec
    (h : t.Represents (fill (⟨d, c, ep, join d .black near es far⟩ :: π) X)) (ha : ptr X = some a)
    (hhole : Hole (⟨d, c, ep, join d .black near es far⟩ :: π) (n + 1))
    (hred : near.color = .red ∨ far.color = .red) :
    ∃ t', deleteCase5 t a = some t' ∧
      t'.Repaired (⟨d, c, ep, join d .black near es far⟩ :: π) X n := by
  obtain ⟨⟨b, hb, hp⟩, ⟨p, hparent, hside⟩, hsib⟩ := h.place ha
  obtain ⟨⟨q, hes⟩, hcnear, hcfar⟩ := h.family
  obtain ⟨m, hm, hnear, hfar⟩ := hhole.sibling.of_joinBlack
  obtain rfl := Nat.succ.inj hm
  have hcs := h.sibling_color
  rw [color_join, ptr_join] at hcs
  rw [ptr_join] at hsib
  unfold deleteCase5
  rw [hb]
  simp only [Option.bind_eq_bind, Option.bind_some]
  rw [hp]
  simp only [Option.bind_some]
  rw [hparent]
  simp only [Option.bind_some]
  rw [hside, hsib]
  simp only [Option.bind_some]
  rw [hcs]
  simp only [Option.bind_some, RbNode.of_child]
  rw [if_pos ⟨ha, trivial⟩, hes]
  simp only [Option.bind_some, RbNode.of_child, RbNode.of_child_other]
  rw [hcnear, hcfar]
  simp only [Option.bind_some]
  by_cases hcase : near.color = .red ∧ far.color = .black
  · -- the near child is red: it becomes the sibling, with a red far child
    rw [if_pos hcase]
    obtain ⟨cn, n₁, en, n₂, rfl⟩ := exists_join d (ne_nil_of_color_red hcase.1)
    obtain rfl : cn = .red := (color_join d cn n₁ en n₂).symm.trans hcase.1
    have hn := hnear.of_joinRed
    obtain ⟨t₁, hm₁, h₁⟩ := h.paint_sibling (ptr_join _ _ _ _ _) .red
    rw [paint_join] at h₁
    obtain ⟨t₂, hm₂, h₂⟩ := h₁.paint_near (ptr_join _ _ _ _ _) .black
    rw [paint_join] at h₂
    obtain ⟨t₃, hm₃, h₃⟩ := h₂.rotate_sibling
    obtain ⟨t₄, hm₄, h₄⟩ := deleteCase6_spec h₃ ha (color_join _ _ _ _ _)
    rw [hm₁]
    simp only [Option.bind_some]
    rw [ptr_join, hm₂]
    simp only [Option.bind_some]
    rw [hm₃]
    refine ⟨t₄, hm₄, repaired_rotated h₄ hn.left (.joinRed hn.right hfar hn.rightColor hcase.2)
      (color_join _ _ _ _ _) hhole ?_⟩
    cases d <;> simp [join, inorder]
  · rw [if_neg hcase]
    have hfr : far.color = .red := by
      by_cases hf : far.color = .red
      · exact hf
      · exact absurd ⟨hred.resolve_right hf, eq_black hf⟩ hcase
    obtain ⟨t₄, hm₄, h₄⟩ := deleteCase6_spec h ha hfr
    exact ⟨t₄, hm₄, repaired_rotated h₄ hnear hfar hfr hhole rfl⟩

/-- Whether the sibling and its children are black. -/
theorem siblingBlack_spec
    (h : t.Represents (fill (⟨d, c, ep, join d .black near es far⟩ :: π) X)) (ha : ptr X = some a) :
    ∃ r, t.siblingBlack a = some r ∧
      (r = true ↔ near.color = .black ∧ far.color = .black) := by
  obtain ⟨-, -, hsib⟩ := h.place ha
  obtain ⟨⟨q, hes⟩, hcnear, hcfar⟩ := h.family
  have hcs := h.sibling_color
  rw [color_join, ptr_join] at hcs
  rw [ptr_join] at hsib
  unfold siblingBlack
  rw [hsib]
  simp only [Option.bind_eq_bind, Option.bind_some]
  rw [hcs]
  simp only [Option.bind_some]
  rw [if_pos trivial, hes]
  simp only [Option.bind_some]
  cases d with
  | left =>
    have hr : t.getColor (RbNode.of q .left (ptr near) (ptr far) .black es).right =
      some far.color := hcfar
    have hl : t.getColor (RbNode.of q .left (ptr near) (ptr far) .black es).left =
      some near.color := hcnear
    rw [hr, hl]
    refine ⟨_, rfl, ?_⟩
    simp only [Bool.and_eq_true, decide_eq_true_eq]
    exact and_comm
  | right =>
    have hr : t.getColor (RbNode.of q .right (ptr near) (ptr far) .black es).right =
      some near.color := hcnear
    have hl : t.getColor (RbNode.of q .right (ptr near) (ptr far) .black es).left =
      some far.color := hcfar
    rw [hr, hl]
    refine ⟨_, rfl, ?_⟩
    simp only [Bool.and_eq_true, decide_eq_true_eq]

/-- A red parent with a black family gives its black to both sides. -/
theorem deleteCase4_spec
    (h : t.Represents (fill (⟨d, c, ep, join d .black near es far⟩ :: π) X)) (ha : ptr X = some a)
    (hhole : Hole (⟨d, c, ep, join d .black near es far⟩ :: π) (n + 1))
    (hred : c = .red ∨ near.color = .red ∨ far.color = .red) :
    ∃ t', deleteCase4 t a = some t' ∧
      t'.Repaired (⟨d, c, ep, join d .black near es far⟩ :: π) X n := by
  obtain ⟨⟨b, hb, hp⟩, ⟨p, hparent, -⟩, hsib⟩ := h.place ha
  obtain ⟨r, hr, hiff⟩ := siblingBlack_spec h ha
  rw [ptr_join] at hsib
  have hcp : t.getColor (some ep.addr) = some c := by
    show (t.deref ep.addr).map RbNode.color = some c
    rw [hparent]
    exact congrArg some (RbNode.of_color _ _ _ _ _ _)
  unfold deleteCase4
  rw [hb]
  simp only [Option.bind_eq_bind, Option.bind_some]
  rw [hp, hcp]
  simp only [Option.bind_some]
  rw [hr]
  by_cases hc : c = .red
  · subst hc
    rw [if_pos rfl]
    simp only [Option.bind_some]
    by_cases hrt : r = true
    · rw [if_pos hrt, hsib]
      obtain ⟨hcn, hcf⟩ := hiff.mp hrt
      obtain ⟨-, -, hπ, -, -⟩ := hhole.above
      obtain ⟨t₁, hm₁, h₁⟩ := h.paint_sibling (ptr_join _ _ _ _ _) .red
      rw [paint_join] at h₁
      obtain ⟨t₂, hm₂, h₂⟩ := h₁.paint_above .black
      simp only [Option.bind_some]
      rw [hm₁]
      refine ⟨t₂, hm₂, _, h₂, .black (hhole.sibling.paintRed hcn hcf) hπ, rfl, ?_⟩
      refine SamePlace.recolor (SamePlace.refl π) ?_
      cases d <;> rfl
    · rw [if_neg hrt]
      refine deleteCase5_spec h ha hhole ?_
      by_cases hn : near.color = .red
      · exact Or.inl hn
      · by_cases hf : far.color = .red
        · exact Or.inr hf
        · exact absurd (hiff.mpr ⟨eq_black hn, eq_black hf⟩) hrt
  · rw [if_neg hc]
    exact deleteCase5_spec h ha hhole (hred.resolve_left hc)

/-- A black parent with a black family loses a black on both sides, and the repair
goes on above it; `case1` is right there. -/
theorem deleteCase3_spec {case1 : RbTree K V → Addr → Option (RbTree K V)}
    (h : t.Represents (fill (⟨d, c, ep, join d .black near es far⟩ :: π) X)) (ha : ptr X = some a)
    (hhole : Hole (⟨d, c, ep, join d .black near es far⟩ :: π) (n + 1))
    (hcase1 : c = .black → ∀ t' Y, t'.Represents (fill π Y) → ptr Y = some ep.addr →
      ∃ t'', case1 t' ep.addr = some t'' ∧ t''.Repaired π Y (n + 1)) :
    ∃ t', deleteCase3 case1 t a = some t' ∧
      t'.Repaired (⟨d, c, ep, join d .black near es far⟩ :: π) X n := by
  obtain ⟨⟨b, hb, hp⟩, ⟨p, hparent, -⟩, hsib⟩ := h.place ha
  obtain ⟨r, hr, hiff⟩ := siblingBlack_spec h ha
  rw [ptr_join] at hsib
  unfold deleteCase3
  rw [hb]
  simp only [Option.bind_eq_bind, Option.bind_some]
  rw [hp]
  simp only [Option.bind_some]
  rw [hparent]
  simp only [Option.bind_some, RbNode.of_color]
  rw [hr]
  cases c with
  | black =>
    rw [if_pos rfl]
    simp only [Option.bind_some]
    by_cases hrt : r = true
    · rw [if_pos hrt, hsib]
      obtain ⟨hcn, hcf⟩ := hiff.mp hrt
      obtain ⟨t₁, hm₁, h₁⟩ := h.paint_sibling (ptr_join _ _ _ _ _) .red
      rw [paint_join] at h₁
      obtain ⟨t₂, hm₂, π', h₂, hhole', -, hsame⟩ := hcase1 rfl t₁ _ h₁ (ptr_join _ _ _ _ _)
      simp only [Option.bind_some]
      rw [hm₁]
      refine ⟨t₂, hm₂, ⟨d, .black, ep, join d .red near es far⟩ :: π', h₂,
        .black (hhole.sibling.paintRed hcn hcf) hhole', rfl, SamePlace.recolor hsame ?_⟩
      cases d <;> rfl
    · rw [if_neg hrt]
      refine deleteCase4_spec h ha hhole (Or.inr ?_)
      by_cases hn : near.color = .red
      · exact Or.inl hn
      · by_cases hf : far.color = .red
        · exact Or.inr hf
        · exact absurd (hiff.mpr ⟨eq_black hn, eq_black hf⟩) hrt
  | red =>
    rw [if_neg Color.noConfusion]
    exact deleteCase4_spec h ha hhole (Or.inl rfl)

/-- A red sibling is rotated up, over the parent, which becomes red. -/
theorem raise_spec
    (h : t.Represents (fill (⟨d, c, ep, join d .red near es far⟩ :: π) X)) (ha : ptr X = some a) :
    ∃ t₁ t₂ q t₃, t.setColor .red (some ep.addr) = some t₁ ∧
      t₁.setColor .black (some es.addr) = some t₂ ∧ t₂.deref ep.addr = some q ∧
      RbTree.rotate (sideOf q a) t₂ ep.addr = some t₃ ∧
      t₃.Represents (fill (⟨d, .red, ep, near⟩ :: ⟨d, .black, es, far⟩ :: π) X) := by
  obtain ⟨t₁, hm₁, h₁⟩ := h.paint_above .red
  obtain ⟨t₂, hm₂, h₂⟩ := h₁.paint_sibling (ptr_join _ _ _ _ _) .black
  rw [paint_join] at h₂
  obtain ⟨-, ⟨q, hparent, hside⟩, -⟩ := h₂.place ha
  obtain ⟨t₃, hm₃, h₃⟩ := h₂.rotate_above
  refine ⟨t₁, t₂, _, t₃, hm₁, hm₂, hparent, ?_, h₃⟩
  rw [hside]
  exact hm₃

/-- A red sibling is rotated up first, so that the sibling is black. -/
theorem deleteCase2_spec {case1 : RbTree K V → Addr → Option (RbTree K V)}
    (h : t.Represents (fill (⟨d, c, ep, s⟩ :: π) X)) (ha : ptr X = some a)
    (hhole : Hole (⟨d, c, ep, s⟩ :: π) (n + 1))
    (hcase1 : ∀ t' Y, Hole π (n + 2) → t'.Represents (fill π Y) → ptr Y = some ep.addr →
      ∃ t'', case1 t' ep.addr = some t'' ∧ t''.Repaired π Y (n + 1)) :
    ∃ t', deleteCase2 case1 t a = some t' ∧ t'.Repaired (⟨d, c, ep, s⟩ :: π) X n := by
  obtain ⟨cs, near, es, far, rfl⟩ := exists_join d hhole.sibling.ne_nil
  obtain ⟨⟨b, hb, hp⟩, -, hsib⟩ := h.place ha
  have hcs := h.sibling_color
  rw [color_join, ptr_join] at hcs
  rw [ptr_join] at hsib
  unfold deleteCase2
  rw [hsib]
  simp only [Option.bind_eq_bind, Option.bind_some]
  rw [hcs]
  simp only [Option.bind_some]
  cases cs with
  | black =>
    rw [if_neg Color.noConfusion]
    refine deleteCase3_spec h ha hhole fun hc t' Y hY hptr => hcase1 t' Y ?_ hY hptr
    subst hc
    cases hhole with
    | black _ hπ => exact hπ
  | red =>
    rw [if_pos rfl, hb]
    obtain ⟨hs, hπ, hc⟩ : Balanced (join d .red near es far) (n + 1) ∧ Hole π (n + 2) ∧
        c = .black := by
      cases hhole with
      | red _ cs' _ _ =>
        rw [color_join] at cs'
        cases cs'
      | black hs hπ => exact ⟨hs, hπ, rfl⟩
    subst hc
    have hred := hs.of_joinRed
    obtain ⟨t₁, t₂, q, t₃, hm₁, hm₂, hparent, hm₃, h₃⟩ := raise_spec h ha
    have hhole' : Hole (⟨d, .red, ep, near⟩ :: ⟨d, .black, es, far⟩ :: π) (n + 1) :=
      .red hred.left hred.leftColor rfl (.black hred.right hπ)
    obtain ⟨cn, n₁, en, n₂, rfl⟩ := exists_join d hred.left.ne_nil
    obtain rfl : cn = .black := (color_join d cn n₁ en n₂).symm.trans hred.leftColor
    obtain ⟨t₄, hm₄, π', h₄, hfit, hcolor, hsame⟩ := deleteCase3_spec h₃ ha hhole'
      fun hc => Color.noConfusion hc
    simp only [Option.bind_some]
    rw [hp]
    simp only [Option.bind_some]
    rw [hm₁]
    simp only [Option.bind_some]
    rw [hm₂]
    simp only [Option.bind_some]
    rw [hparent]
    simp only [Option.bind_some]
    rw [hm₃]
    exact ⟨t₄, hm₄, π', h₄, hfit, hcolor, (SamePlace.rotate rfl).trans hsame⟩

/-- **The repair.**  A place whose hole asks for one black more than its subtree has is
made a hole of the subtree's black height. -/
theorem deleteCase1_spec {fuel : Nat} (h : t.Represents (fill π X)) (ha : ptr X = some a)
    (hhole : Hole π (n + 1)) (hfuel : π.length < fuel) :
    ∃ t', deleteCase1 fuel t a = some t' ∧ t'.Repaired π X n := by
  induction fuel generalizing t π X a n with
  | zero => exact absurd hfuel (Nat.not_lt_zero _)
  | succ fuel ih =>
    obtain ⟨b, hb, hp⟩ := h.deref_some ha
    unfold deleteCase1
    rw [hb]
    simp only [Option.bind_eq_bind, Option.bind_some]
    rw [hp]
    cases π with
    | nil => exact ⟨t, rfl, [], h, .root, rfl, SamePlace.refl []⟩
    | cons g π =>
      obtain ⟨d, c, ep, s⟩ := g
      refine deleteCase2_spec h ha hhole fun t' Y hπ hY hptr => ih hY hptr hπ ?_
      exact Nat.lt_of_succ_lt_succ hfuel

/-! ## Taking a node out -/

/-- What a removal leaves: a balanced tree with a black root and these elements. -/
def Balances (t : RbTree K V) (l : List (Cell K V)) : Prop :=
  ∃ T, t.Represents T ∧ T.inorder = l ∧ T.color = .black ∧ ∃ m, Balanced T m

variable {x : ColorTree (Cell K V)} {e : Cell K V}

/-- The last lines of `__rbtree_remove`: the child takes the place, and the node is
freed. -/
theorem replace_spec (h : t.Represents (fill π (join d c x e nil))) (hhole : Hole π n)
    (hx : Balanced x n) (hcolor : Trail.color π = .red → x.color = .black) :
    ∃ t₁ t₂ b, t.replaceNode e.addr (ptr x) = some t₁ ∧ t₁.deref e.addr = some b ∧
      t₁.blackenRoot b.parent (ptr x) = some t₂ ∧
      ({ t₂ with heap := t₂.heap.erase e.addr } : RbTree K V).Balances
        (Trail.before π ++ (x.inorder ++ Trail.after π)) := by
  obtain ⟨t₁, hm₁, h₁, hsame, hfresh⟩ := h.replaceNode
  have hb : t₁.deref e.addr = some (.of (above π) d (ptr x) none c e) :=
    hsame.trans h.deref
  refine ⟨t₁, ?_⟩
  by_cases hroot : above π = none ∧ ptr x ≠ none
  · -- the child becomes the root
    obtain ⟨hnil, hne⟩ := hroot
    have hπ : π = [] := by
      cases π with
      | nil => rfl
      | cons g π => cases hnil
    subst hπ
    obtain ⟨a, ha⟩ := Option.ne_none_iff_exists'.mp hne
    obtain ⟨t₂, hm₂, h₂⟩ := Represents.setColor (π := []) h₁ ha .black
    refine ⟨t₂, _, hm₁, hb, ?_, x.paint .black, h₂.free ?_, ?_, ?_, hx.paintBlack⟩
    · unfold blackenRoot
      rw [if_pos ⟨RbNode.of_parent _ _ _ _ _ _, hne⟩, ha]
      exact hm₂
    · rw [addrs, Trail.fill_nil, inorder_paint]
      exact hfresh
    · rw [inorder_paint]
      simp [Trail.before, Trail.after]
    · cases x with
      | nil => cases ha
      | node c l e r => rfl
  · have hfits : Fits π x := by
      refine ⟨hcolor, fun hπ => ?_⟩
      subst hπ
      have hnone : ptr x = none := by
        cases hp : ptr x with
        | none => rfl
        | some a => exact absurd ⟨rfl, fun hn => Option.some_ne_none a (hp.symm.trans hn)⟩ hroot
      rw [ptr_eq_none.mp hnone]
      rfl
    obtain ⟨hblack, m, hm⟩ := hhole.fill hx hfits
    refine ⟨t₁, _, hm₁, hb, ?_, fill π x, h₁.free hfresh, inorder_fill π x, hblack, m, hm⟩
    rw [RbNode.of_parent]
    exact if_neg hroot

/-- **A node with one child at most is taken out.** -/
theorem unlinkNode_spec (h : t.Represents (fill π (join d c x e nil)))
    (hbal : ∃ m, Balanced (fill π (join d c x e nil)) m)
    (hroot : (fill π (join d c x e nil)).color = .black) :
    ∃ t', unlinkNode t e.addr = some t' ∧
      t'.Balances (Trail.before π ++ (x.inorder ++ Trail.after π)) := by
  obtain ⟨m, hm⟩ := hbal
  obtain ⟨n, hhole, hnode, hfits⟩ := hm.open_path hroot
  have hone : (RbNode.of (above π) d (ptr x) none c e).left = none ∨
      (RbNode.of (above π) d (ptr x) none c e).right = none := by
    cases d with
    | left => exact Or.inr rfl
    | right => exact Or.inl rfl
  have hchild : (if (RbNode.of (above π) d (ptr x) none c e).right = none then
      (RbNode.of (above π) d (ptr x) none c e).left
      else (RbNode.of (above π) d (ptr x) none c e).right) = ptr x := by
    cases d with
    | left => rfl
    | right =>
      by_cases hp : ptr x = none
      · rw [hp]
        rfl
      · exact if_neg hp
  unfold unlinkNode
  rw [h.deref]
  simp only [Option.bind_eq_bind, Option.bind_some, ptr_nil]
  rw [if_pos hone, hchild, RbNode.of_color]
  cases c with
  | black =>
    obtain ⟨k, rfl, hx, hnil⟩ := hnode.of_joinBlack
    obtain rfl : k = 0 := by
      cases hnil with
      | nil => rfl
    have hcx : t.getColor (ptr x) = some x.color :=
      Represents.getColor (π := ⟨d, .black, e, nil⟩ :: π) h
    obtain ⟨t₁, hm₁, h₁⟩ := h.setColor (ptr_join _ _ _ _ _) x.color
    rw [paint_join] at h₁
    have hfuel : π.length < t₁.fuel := by
      have hlen := length_path π
      have hlt := h₁.fuel
      rw [inorder_fill] at hlt
      simp only [List.length_append] at hlen hlt
      omega
    obtain ⟨t₂, hm₂, π', h₂, hhole', hblack, hsame⟩ :=
      deleteCase1_spec h₁ (ptr_join _ _ _ _ _) hhole hfuel
    obtain ⟨t₃, t₄, b, hm₃, hb, hm₄, hres⟩ := replace_spec h₂ hhole' hx fun hr => by
      rw [hblack] at hr
      cases hr
    rw [hsame.before, hsame.after] at hres
    refine ⟨_, ?_, hres⟩
    have hreb : t.rebalance e.addr .black (ptr x) = some t₂ := by
      unfold rebalance
      rw [if_pos rfl, hcx]
      simp only [Option.bind_eq_bind, Option.bind_some]
      rw [hm₁]
      exact hm₂
    rw [hreb]
    simp only [Option.bind_some]
    rw [hm₃]
    simp only [Option.bind_some]
    rw [hb]
    simp only [Option.bind_some]
    rw [hm₄]
    rfl
  | red =>
    have hr := hnode.of_joinRed
    obtain rfl : n = 0 := by
      cases hr.right with
      | nil => rfl
    obtain ⟨t₃, t₄, b, hm₃, hb, hm₄, hres⟩ := replace_spec h hhole hr.left fun _ => hr.leftColor
    refine ⟨_, ?_, hres⟩
    have hreb : t.rebalance e.addr .red (ptr x) = some t := if_neg Color.noConfusion
    rw [hreb]
    simp only [Option.bind_some]
    rw [hm₃]
    simp only [Option.bind_some]
    rw [hb]
    simp only [Option.bind_some]
    rw [hm₄]
    rfl

/-- `get_min`: the leftmost node. -/
theorem getMin_spec {T : ColorTree (Cell K V)} {fuel : Nat} (h : t.Represents (fill π T))
    (ha : ptr T = some a) (hfuel : T.inorder.length ≤ fuel) :
    ∃ ρ c e r, T = fill ρ (node c nil e r) ∧ Trail.before ρ = [] ∧
      t.getMin fuel a = some e.addr ∧ t.deref e.addr = some (.of (above (ρ ++ π)) .left none (ptr r) c e) := by
  induction T generalizing π fuel a with
  | nil => cases ha
  | node c l e r ihl _ =>
    obtain rfl := Option.some.inj ha
    have hlen : (node c l e r).inorder.length = l.inorder.length + (r.inorder.length + 1) := by
      rw [inorder, List.length_append, List.length_cons]
    have hd : t.deref e.addr = some (.of (above π) .left (ptr l) (ptr r) c e) :=
      Represents.deref (d := .left) h
    cases fuel with
    | zero => omega
    | succ fuel =>
      unfold getMin
      rw [hd]
      simp only [Option.bind_eq_bind, Option.bind_some]
      cases l with
      | nil => exact ⟨[], c, e, r, rfl, rfl, rfl, hd⟩
      | node c₁ l₁ e₁ r₁ =>
        obtain ⟨ρ, c', e', r', hl, hbefore, hm, hd'⟩ :=
          ihl (π := ⟨.left, c, e, r⟩ :: π) h rfl (show _ ≤ fuel by omega)
        refine ⟨ρ ++ [⟨.left, c, e, r⟩], c', e', r', ?_, ?_, hm, ?_⟩
        · rw [Trail.fill_append, ← hl]
          rfl
        · rw [Trail.before_append, hbefore]
          rfl
        · rw [List.append_assoc]
          exact hd'

/-- A position in a right subtree, as one in the whole tree. -/
theorem fill_successor {ρ : Trail (Cell K V)} {cm : Color} {em : Cell K V}
    {r rm : ColorTree (Cell K V)} (π : Trail (Cell K V)) (c : Color) (l : ColorTree (Cell K V))
    (e : Cell K V) (hmin : r = fill ρ (node cm nil em rm)) :
    fill π (join .left c l e r) =
      fill (ρ ++ ⟨.right, c, e, l⟩ :: π) (join .right cm rm em nil) := by
  rw [Trail.fill_append, hmin]
  rfl

/-- The successor's binding is copied to a node with two children. -/
theorem successor_spec {c₁ c₂ : Color} {l₁ r₁ l₂ r₂ : ColorTree (Cell K V)} {e e₁ e₂ : Cell K V}
    (h : t.Represents (fill π (node c (node c₁ l₁ e₁ r₁) e (node c₂ l₂ e₂ r₂)))) :
    ∃ ρ cm em rm p t₁, node c₂ l₂ e₂ r₂ = fill ρ (node cm nil em rm) ∧ Trail.before ρ = [] ∧
      t.getMin t.fuel e₂.addr = some em.addr ∧
      t.deref em.addr = some (.of p .left none (ptr rm) cm em) ∧
      t.modify e.addr (fun n => { n with key := em.key, data := em.data }) = some t₁ ∧
      t₁.Represents (fill π (join .left c (node c₁ l₁ e₁ r₁) ⟨e.addr, em.key, em.data⟩
        (node c₂ l₂ e₂ r₂))) := by
  have hR : t.Represents (fill (⟨.right, c, e, node c₁ l₁ e₁ r₁⟩ :: π) (node c₂ l₂ e₂ r₂)) := h
  have hlt : (node c₂ l₂ e₂ r₂).inorder.length ≤ t.fuel := by
    have hf := hR.fuel
    rw [inorder_fill, List.length_append, List.length_append] at hf
    omega
  obtain ⟨ρ, cm, em, rm, hmin, hbefore, hm, hdm⟩ := getMin_spec hR rfl hlt
  obtain ⟨t₁, hm₁, h₁⟩ : ∃ t',
      t.modify e.addr (fun n => { n with key := em.key, data := em.data }) = some t' ∧
      t'.Represents (fill π (join .left c (node c₁ l₁ e₁ r₁) ⟨e.addr, em.key, em.data⟩
        (node c₂ l₂ e₂ r₂))) :=
    Represents.modify (d := .left) h rfl rfl
  exact ⟨ρ, cm, em, rm, _, t₁, hmin, hbefore, hm, hdm, hm₁, h₁⟩

/-- **`__rbtree_remove`**: the binding of the node goes, wherever the node itself
stays. -/
theorem removeNode_spec {compare : K → K → Int} {T l r : ColorTree (Cell K V)}
    (h : RedBlackTree compare t T) (hT : T = fill π (node c l e r)) :
    ∃ t' l', removeNode t e.addr = some t' ∧ t'.Balances l' ∧
      l'.map (fun x => (x.key, x.data)) =
        ((Trail.before π ++ l.inorder) ++ (r.inorder ++ Trail.after π)).map
          fun x => (x.key, x.data) := by
  subst hT
  have hd : t.deref e.addr = some (.of (above π) .left (ptr l) (ptr r) c e) :=
    Represents.deref (d := .left) h.represents
  unfold removeNode
  rw [hd]
  simp only [Option.bind_eq_bind, Option.bind_some]
  cases l with
  | nil =>
    -- the right child takes the place
    obtain ⟨t', hm, hres⟩ :=
      unlinkNode_spec (d := .right) (x := r) (e := e) (c := c) h.represents h.balanced h.root
    refine ⟨t', _, ?_, hres, ?_⟩
    · exact hm
    · simp [inorder]
  | node c₁ l₁ e₁ r₁ =>
    cases r with
    | nil =>
      obtain ⟨t', hm, hres⟩ :=
        unlinkNode_spec (d := .left) (e := e) (c := c) h.represents h.balanced h.root
      refine ⟨t', _, ?_, hres, ?_⟩
      · exact hm
      · simp [inorder]
    | node c₂ l₂ e₂ r₂ =>
      -- the successor's binding is copied here, and its node goes
      obtain ⟨ρ, cm, em, rm, p, t₁, hmin, hbefore, hm, hdm, hm₁, h₁⟩ :=
        successor_spec h.represents
      have hshape := fill_successor π c (node c₁ l₁ e₁ r₁) ⟨e.addr, em.key, em.data⟩ hmin
      rw [hshape] at h₁
      obtain ⟨hblack, hbal⟩ : (fill π (join .left c (node c₁ l₁ e₁ r₁) ⟨e.addr, em.key, em.data⟩
          (node c₂ l₂ e₂ r₂))).color = .black ∧ ∃ m, Balanced (fill π (join .left c
          (node c₁ l₁ e₁ r₁) ⟨e.addr, em.key, em.data⟩ (node c₂ l₂ e₂ r₂))) m := by
        obtain ⟨m, hbal⟩ := h.balanced
        obtain ⟨k, hhole, hnode, hfits⟩ := hbal.open_path h.root
        exact hhole.fill (Balanced.replace (d := .left) hnode _) ⟨hfits.below, hfits.root⟩
      rw [hshape] at hblack hbal
      obtain ⟨t', hm', hres⟩ := unlinkNode_spec h₁ hbal hblack
      refine ⟨t', _, ?_, hres, ?_⟩
      · show ((t.getMin t.fuel e₂.addr).bind _) = _
        rw [hm]
        simp only [Option.bind_some]
        rw [hdm]
        simp only [Option.bind_some, RbNode.of_key, RbNode.of_data]
        rw [hm₁]
        exact hm'
      · rw [Trail.before_append, Trail.after_append, hbefore, hmin, inorder_fill, hbefore]
        simp [Trail.before, Trail.after, inorder]

end RbTree
end T2u
