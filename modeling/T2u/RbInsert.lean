import T2u.RbLookup

/-!
# Inserting into the tree

The loop of `__rbtree_insert` starts at the new red leaf and walks up while it and
its parent are both red.  `insertFix_spec` shows that it ends, that the tree it
leaves has the same elements in the same order, and that it is balanced once its
root is painted black.
-/

namespace T2u
open RedBlack RedBlack.ColorTree
open RedBlack.Trail (fill inorder_fill fill_cons fill_sibling)

namespace RbTree
variable {K V : Type} {t : RbTree K V} {π : Trail (Cell K V)} {n : Nat}

theorem exists_ptr {T : ColorTree (Cell K V)} (h : T.color = .red) : ∃ a, ptr T = some a := by
  cases T with
  | nil => cases h
  | node c l e r => exact ⟨e.addr, rfl⟩

/-- A red uncle: the parent and the uncle become black, the grandparent red. -/
theorem recolor_spec {d d' : Dir} {ep eg : Cell K V} {s u X : ColorTree (Cell K V)}
    (h : t.Represents (fill π (join d .black (join d' .red X ep s) eg u)))
    (hu : u.color = .red) :
    ∃ t₁ t₂ t₃, t.setColor .red (some eg.addr) = some t₁ ∧
      t₁.setColor .black (some ep.addr) = some t₂ ∧ t₂.setColor .black (ptr u) = some t₃ ∧
      t₃.Represents (fill π (join d .red (join d' .black X ep s) eg (u.paint .black))) := by
  obtain ⟨t₁, hm₁, h₁⟩ := h.setColor (ptr_join d _ _ _ _) .red
  rw [paint_join] at h₁
  have h₁' : t₁.Represents (fill (⟨d, .red, eg, u⟩ :: π) (join d' .red X ep s)) := h₁
  obtain ⟨t₂, hm₂, h₂⟩ := h₁'.setColor (ptr_join d' _ _ _ _) .black
  rw [paint_join, fill_sibling] at h₂
  obtain ⟨b, hb⟩ := exists_ptr hu
  obtain ⟨t₃, hm₃, h₃⟩ := h₂.setColor hb .black
  rw [fill_sibling, Dir.other_other] at h₃
  rw [hb]
  exact ⟨t₁, t₂, t₃, hm₁, hm₂, hm₃, h₃⟩

/-- The red node and its red parent on the outer side, after `turnOut`. -/
theorem turnOut_spec {d d' : Dir} {ep eg : Cell K V} {s u X : ColorTree (Cell K V)} {a : Addr}
    (h : t.Represents (fill (⟨d', .red, ep, s⟩ :: ⟨d, .black, eg, u⟩ :: π) X))
    (hptr : ptr X = some a) (hred : X.color = .red) (hX : Balanced X n) (hs : Balanced s n)
    (cs : s.color = .black) :
    ∃ t' A e₁ B e₂ C, turnOut d t a ep.addr = some (t', e₁.addr, e₂.addr) ∧
      t'.Represents (fill π (join d .black (join d .red (join d .red A e₁ B) e₂ C) eg u)) ∧
      Balanced (join d .red A e₁ B) n ∧ Balanced C n ∧ C.color = .black ∧
      (join d .red (join d .red A e₁ B) e₂ C).inorder = (join d' .red X ep s).inorder := by
  obtain ⟨c, x, e, y, rfl⟩ := exists_join d (ne_nil_of_color_red hred)
  rw [color_join] at hred
  subst hred
  rw [ptr_join] at hptr
  obtain rfl := Option.some.inj hptr
  have hparent := h.deref_above
  unfold turnOut
  rw [hparent]
  simp only [Option.bind_eq_bind, Option.bind_some]
  by_cases hd : d' = d
  · -- on the outer side already
    subst hd
    rw [RbNode.of_child_other]
    have hne : ptr s ≠ some e.addr := fun hps =>
      h.at.outside _ (mem_addrs_join.mpr (Or.inl rfl))
        (mem_pathAddrs_cons.mpr (Or.inr (Or.inl (mem_addrs_of_ptr hps))))
    rw [if_neg hne]
    exact ⟨t, x, e, y, ep, s, rfl, h, hX, hs, cs, rfl⟩
  · have hd' : d' = d.other := by
      cases d <;> cases d' <;> first | rfl | exact absurd rfl hd
    subst hd'
    rw [RbNode.of_child, ptr_join, if_pos rfl]
    have h' : t.Represents (fill (⟨d, .black, eg, u⟩ :: π)
        (join d .red s ep (join d .red x e y))) := by
      rw [← join_other d .red (join d .red x e y) ep s]
      exact h
    obtain ⟨t', hm, hR⟩ := h'.rotate
    have hup : t'.deref ep.addr = some (.of (some e.addr) d (ptr s) (ptr x) .red ep) :=
      Represents.deref (π := ⟨d, .red, e, y⟩ :: ⟨d, .black, eg, u⟩ :: π) hR
    have hX' := hX.of_joinRed
    rw [hm]
    simp only [Option.bind_some]
    rw [hup]
    simp only [Option.bind_some, RbNode.of_parent]
    refine ⟨t', s, ep, x, e, y, rfl, hR, .joinRed hs hX'.left cs hX'.leftColor, hX'.right,
      hX'.rightColor, ?_⟩
    cases d <;> simp [join, inorder, Dir.other]

/-- A tree in memory with a red node at the position `π`, to which the loop goes on. -/
structure RedAt (t : RbTree K V) (π : Trail (Cell K V)) (X : ColorTree (Cell K V)) (a : Addr)
    (n : Nat) : Prop where
  represents : t.Represents (fill π X)
  ptr : ptr X = some a
  color : X.color = .red
  balanced : Balanced X n
  hole : Hole π n

/-- **A turn of the loop.**  The red node is below a red parent, which is below a
black one: the tree keeps its elements, and the position moves up. -/
theorem insertTurn_spec {d d' : Dir} {ep eg : Cell K V} {s u X : ColorTree (Cell K V)} {a : Addr}
    (h : t.RedAt (⟨d', .red, ep, s⟩ :: ⟨d, .black, eg, u⟩ :: π) X a n) :
    ∃ t' b π' X' n', insertTurn d t a ep.addr eg.addr = some (t', b) ∧ t'.RedAt π' X' b n' ∧
      π'.length ≤ π.length + 1 ∧
      (fill π' X').inorder = (fill (⟨d', .red, ep, s⟩ :: ⟨d, .black, eg, u⟩ :: π) X).inorder := by
  obtain ⟨hR, hptr, hred, hX, hhole⟩ := h
  obtain ⟨hs, cs, hup, -, -⟩ := hhole.above
  obtain ⟨hu, hπ⟩ : Balanced u n ∧ Hole π (n + 1) := by
    cases hup with
    | black hu hπ => exact ⟨hu, hπ⟩
  have hgrand := Represents.deref_above (T := join d' .red X ep s) hR
  have huncle : t.getColor (T2u.ptr u) = some u.color := by
    have hR' := hR
    rw [fill_cons, fill_sibling] at hR'
    exact hR'.getColor
  unfold insertTurn
  rw [hgrand]
  simp only [Option.bind_eq_bind, Option.bind_some, RbNode.of_child_other]
  rw [huncle]
  simp only [Option.bind_some]
  by_cases hcu : u.color = .red
  · -- a red uncle: the red moves up to the grandparent
    rw [if_pos hcu]
    obtain ⟨t₁, t₂, t₃, hm₁, hm₂, hm₃, h₃⟩ := recolor_spec (π := π) hR hcu
    rw [hm₁]
    simp only [Option.bind_some]
    rw [hm₂]
    simp only [Option.bind_some]
    rw [hm₃]
    refine ⟨t₃, eg.addr, π, _, n + 1, rfl, ⟨h₃, ptr_join _ _ _ _ _, color_join _ _ _ _ _, ?_, hπ⟩,
      Nat.le_succ _, ?_⟩
    · refine .joinRed (.joinBlack hX hs) (hu.blacken hcu) (color_join _ _ _ _ _) ?_
      cases u <;> rfl
    · rw [fill_cons, fill_cons, inorder_fill, inorder_fill]
      cases d <;> cases d' <;> simp [join, inorder]
  · -- a black uncle: two rotations at most, and the parent is black
    rw [if_neg hcu]
    have hblack : u.color = .black := by
      cases hc : u.color with
      | black => rfl
      | red => exact absurd hc hcu
    obtain ⟨t₁, A, e₁, B, e₂, C, hm₁, h₁, hZ, hC, cC, hin⟩ := turnOut_spec hR hptr hred hX hs cs
    have h₁' : t₁.Represents (fill (⟨d, .black, eg, u⟩ :: π)
      (join d .red (join d .red A e₁ B) e₂ C)) := h₁
    obtain ⟨t₂, hm₂, h₂⟩ := h₁'.setColor (ptr_join d _ _ _ _) .black
    rw [paint_join] at h₂
    have h₂' : t₂.Represents (fill π
      (join d .black (join d .black (join d .red A e₁ B) e₂ C) eg u)) := h₂
    obtain ⟨t₃, hm₃, h₃⟩ := h₂'.setColor (ptr_join d _ _ _ _) .red
    rw [paint_join, ← join_other d .red, ← join_other d .black] at h₃
    obtain ⟨t₄, hm₄, h₄⟩ := h₃.rotate
    rw [join_other, join_other] at h₄
    rw [hm₁]
    simp only [Option.bind_some]
    rw [hm₂]
    simp only [Option.bind_some]
    rw [hm₃]
    simp only [Option.bind_some]
    rw [hm₄]
    refine ⟨t₄, e₁.addr, ⟨d, .black, e₂, join d .red C eg u⟩ :: π, join d .red A e₁ B, n, rfl,
      ⟨h₄, ptr_join _ _ _ _ _, color_join _ _ _ _ _, hZ, ?_⟩, Nat.le_refl _, ?_⟩
    · exact .black (.joinRed hC hu cC hblack) hπ
    · rw [fill_cons, fill_cons, fill_cons, inorder_fill, inorder_fill]
      cases d <;> simp [join, inorder] at hin ⊢ <;> simp [← hin]

/-- **The loop of `__rbtree_insert`.** -/
theorem insertFix_spec {X : ColorTree (Cell K V)} {a : Addr} {fuel : Nat} (h : t.RedAt π X a n)
    (hfuel : π.length < fuel) :
    ∃ t' T', insertFix fuel t a = some t' ∧ t'.Represents T' ∧
      T'.inorder = (fill π X).inorder ∧ ∃ m, Balanced (T'.paint .black) m := by
  induction fuel generalizing t π X a n with
  | zero => exact absurd hfuel (Nat.not_lt_zero _)
  | succ fuel ih =>
    obtain ⟨b, hb, hparent⟩ := h.represents.deref_some h.ptr
    unfold insertFix
    rw [hb]
    simp only [Option.bind_eq_bind, Option.bind_some]
    cases π with
    | nil =>
      have hp : b.parent = none := hparent
      rw [hp]
      exact ⟨t, X, rfl, h.represents, rfl, h.balanced.paintBlack⟩
    | cons g π =>
      have hp : b.parent = some g.elem.addr := hparent
      rw [hp]
      simp only
      rw [h.represents.deref_above]
      simp only [Option.bind_some, RbNode.of_color, RbNode.of_parent]
      obtain ⟨d', c, ep, s⟩ := g
      cases c with
      | black =>
        -- the parent is black: the tree is balanced
        rw [if_neg Color.noConfusion]
        obtain ⟨hblack, m, hm⟩ := h.hole.fill h.balanced
          ⟨fun hc => Color.noConfusion hc, fun he => absurd he (List.cons_ne_nil _ _)⟩
        refine ⟨t, _, rfl, h.represents, rfl, m, ?_⟩
        have hpaint := paint_color (fill (⟨d', .black, ep, s⟩ :: π) X)
        rw [hblack] at hpaint
        rw [hpaint]
        exact hm
      | red =>
        rw [if_pos rfl]
        obtain ⟨-, -, -, hup, hne⟩ := h.hole.above
        cases π with
        | nil => exact absurd rfl hne
        | cons g π =>
          obtain ⟨d, c, eg, u⟩ := g
          have hc : c = .black := hup
          subst hc
          have hgrand := Represents.deref_above (T := join d' .red X ep s) h.represents
          have hside := sideOf_above (T := join d' .red X ep s) h.represents (ptr_join _ _ _ _ _)
          obtain ⟨t₁, b, π', X', n', hm, hat, hlen, hin⟩ := insertTurn_spec h
          have hlt : π'.length < fuel := by
            simp only [List.length_cons] at hfuel
            omega
          obtain ⟨t', T', hfix, hrep, hin', hbal⟩ := ih hat hlt
          refine ⟨t', T', ?_, hrep, hin'.trans hin, hbal⟩
          unfold above
          simp only [Option.bind_some]
          rw [hgrand]
          simp only [Option.bind_some]
          rw [hside, hm]
          exact hfix

/-! ## The whole insertion -/

/-- **A red-black tree in order**: the memory holds `T`, its keys are in strict
order, its root is black, and it is balanced. -/
structure RedBlackTree (compare : K → K → Int) (t : RbTree K V) (T : ColorTree (Cell K V)) : Prop where
  represents : t.Represents T
  sorted : Sorted compare T.inorder
  root : T.color = .black
  balanced : ∃ n, Balanced T n

variable {compare : K → K → Int} {T : ColorTree (Cell K V)}

theorem Represents.congr {t' : RbTree K V} (h : t.Represents T) (hroot : t'.root = t.root)
    (hsame : ∀ a ∈ addrs T, t'.deref a = t.deref a) : t'.Represents T :=
  ⟨hroot.trans h.root, h.holds.frame hsame, h.nodup⟩

/-- The new node is linked at the place where its key belongs. -/
theorem link_spec {e : Cell K V} (h : t.Represents (fill π nil))
    (hnew : e.addr ∉ addrs (fill π nil))
    (he : t.deref e.addr = some ⟨above π, none, none, .red, e.key, e.data⟩)
    (hπ : Between (fun x => compare x.key e.key) π) :
    ∃ t', linkNew compare t e.addr (above π) = some t' ∧
      t'.Represents (fill π (node .red nil e nil)) := by
  cases π with
  | nil =>
    refine ⟨_, rfl, Represents.leaf h hnew he trivial (fun _ => rfl) fun hne => absurd rfl hne⟩
  | cons g π =>
    have hg := h.deref_above
    obtain ⟨hgn, hs, hup⟩ := h.at.path
    obtain ⟨hgs, hgπ, -⟩ := nodup_path h.at.pathNodup
    have hne : e.addr ≠ g.elem.addr := fun heq => hnew (by
      rw [heq, addrs_fill]
      have hmem : g.elem.addr ∈ pathAddrs (g :: π) := mem_pathAddrs_cons.mpr (Or.inl rfl)
      unfold pathAddrs at hmem
      rw [List.map_append, List.mem_append] at hmem
      exact List.mem_append.mpr (hmem.imp_right (List.mem_append_right _)))
    obtain ⟨t', hm, hself, hother⟩ := modify_spec hg (RbNode.setChild g.dir (some e.addr))
    rw [RbNode.of_setChild] at hself
    refine ⟨t', ?_, Represents.leaf h hnew ((hother.deref _ hne).trans he) ⟨hself, ?_, ?_⟩
      (fun hnil => absurd hnil (List.cons_ne_nil g π)) fun _ => hother.root⟩
    · show setChild compare t g.elem.addr e.addr = some t'
      unfold setChild
      rw [hg, he]
      simp only [Option.bind_eq_bind, Option.bind_some, RbNode.of_key]
      rcases hπ.dir with ⟨hd, hcmp⟩ | ⟨hd, hcmp⟩
      · rw [if_neg (by omega), if_pos hcmp, ← hd]
        exact hm
      · rw [if_neg (by omega), if_neg (by omega), ← hd]
        exact hm
    · exact hs.frame fun b hb => hother.deref b fun hbe => hgs (hbe ▸ hb)
    · exact hup.frame fun b hb => hother.deref b fun hbe => hgπ (hbe ▸ hb)

/-- **`__rbtree_insert`** gives the node that has the key already, or adds the new one
where its key belongs. -/
theorem insertNode_spec (hc : IsTotalOrder compare) (h : RedBlackTree compare t T)
    {e : Cell K V} {b : RbNode K V} (hb : t.deref e.addr = some b) (hkey : b.key = e.key)
    (hdata : b.data = e.data) (hnew : e.addr ∉ addrs T) :
    (∃ x ∈ T.inorder, compare x.key e.key = 0 ∧
      insertNode compare t e.addr = some (some x.addr, t)) ∨
    ∃ π t' T', T = fill π nil ∧ Between (fun x => compare x.key e.key) π ∧
      insertNode compare t e.addr = some (none, t') ∧ t'.Represents T' ∧
      T'.inorder = Trail.before π ++ e :: Trail.after π ∧ T'.color = .black ∧
      ∃ m, Balanced T' m := by
  obtain ⟨res, hlookup, hends⟩ := doLookup_ends hc h.represents h.sorted e.key
  unfold insertNode
  rw [hb]
  simp only [Option.bind_eq_bind, Option.bind_some]
  rw [hkey, hlookup]
  simp only [Option.bind_some]
  cases hends with
  | found π c l x r hT hx =>
    refine Or.inl ⟨x, ?_, hx, rfl⟩
    rw [hT, inorder_fill]
    simp [inorder]
  | absent π hT hπ =>
    subst hT
    obtain ⟨t₁, hm₁, he₁, hs₁⟩ := modify_spec hb fun n =>
      { n with left := none, right := none, color := .red, parent := above π }
    rw [hkey, hdata] at he₁
    have h₁ : t₁.Represents (fill π nil) :=
      h.represents.congr hs₁.root fun a ha => hs₁.deref a fun hae => hnew (hae ▸ ha)
    obtain ⟨t₂, hm₂, h₂⟩ := link_spec h₁ hnew he₁ hπ
    obtain ⟨n, hn⟩ := h.balanced
    obtain ⟨k, hhole, hnil, -⟩ := hn.open_path h.root
    obtain rfl : k = 0 := by
      cases hnil with
      | nil => rfl
    have hat : t₂.RedAt π (node .red nil e nil) e.addr 0 :=
      ⟨h₂, rfl, rfl, .red .nil .nil rfl rfl, hhole⟩
    have hfuel : π.length < t₂.fuel := by
      have hlen := length_path π
      have hlt := h₂.fuel
      rw [inorder_fill] at hlt
      simp only [List.length_append] at hlen hlt
      omega
    obtain ⟨t₃, T₃, hm₃, h₃, hin, m, hbal⟩ := insertFix_spec hat hfuel
    rw [inorder_fill] at hin
    have hin' : T₃.inorder = Trail.before π ++ e :: Trail.after π := hin
    obtain ⟨a, ha⟩ : ∃ a, ptr T₃ = some a := by
      cases T₃ with
      | nil =>
        have := congrArg List.length hin'
        simp [inorder] at this
      | node c l x r => exact ⟨x.addr, rfl⟩
    obtain ⟨t₄, hm₄, h₄⟩ := Represents.setColor (π := []) h₃ ha .black
    refine Or.inr ⟨π, t₄, T₃.paint .black, rfl, hπ, ?_, h₄, ?_, ?_, m, hbal⟩
    · rw [hm₁]
      simp only [Option.bind_some]
      rw [hm₂]
      simp only [Option.bind_some]
      rw [hm₃]
      simp only [Option.bind_some]
      rw [h₃.root, ha, hm₄]
      rfl
    · rw [inorder_paint]
      exact hin'
    · cases T₃ with
      | nil => cases ha
      | node c l x r => rfl

end RbTree
end T2u
