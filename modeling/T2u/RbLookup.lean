import T2u.RbShape

/-!
# Looking up a key

`do_lookup` walks down the tree as `search` does.  In a tree whose keys are in order
it ends at the key, or at the empty place where the key belongs.
-/

namespace T2u
open RedBlack RedBlack.ColorTree
open RedBlack.Trail (fill inorder_fill)

variable {K V : Type}

/-- The comparison function is a total order; keys that compare equal count as the
same key. -/
structure IsTotalOrder (compare : K → K → Int) : Prop where
  swap : ∀ a b, compare a b < 0 ↔ 0 < compare b a
  trans : ∀ a b c, compare a b ≤ 0 → compare b c ≤ 0 → compare a c ≤ 0

namespace IsTotalOrder
variable {compare : K → K → Int} {a b c : K}

theorem lt_of_lt_of_le (h : IsTotalOrder compare) (hab : compare a b < 0)
    (hbc : compare b c ≤ 0) : compare a c < 0 := by
  by_cases hac : compare a c < 0
  · exact hac
  · have hca : compare c a ≤ 0 := by
      have := h.swap a c
      omega
    have hba := h.trans b c a hbc hca
    have := h.swap a b
    omega

theorem symm (h : IsTotalOrder compare) (hab : compare a b = 0) : compare b a = 0 := by
  have h₁ := h.swap a b
  have h₂ := h.swap b a
  omega

theorem eq_trans (h : IsTotalOrder compare) (hab : compare a b = 0) (hbc : compare b c = 0) :
    compare a c = 0 := by
  have h₁ := h.trans a b c (Int.le_of_eq hab) (Int.le_of_eq hbc)
  have h₂ := h.trans c b a (Int.le_of_eq (h.symm hbc)) (Int.le_of_eq (h.symm hab))
  have h₃ := h.swap a c
  omega

end IsTotalOrder

/-- The keys are in strict order. -/
def Sorted (compare : K → K → Int) (l : List (Cell K V)) : Prop :=
  l.Pairwise fun x y => compare x.key y.key < 0

variable {compare : K → K → Int}

theorem Sorted.crosses {l : List (Cell K V)} (h : Sorted compare l) (hc : IsTotalOrder compare)
    (key : K) : Crosses (fun e => compare e.key key) l :=
  h.imp fun hxy hy => hc.lt_of_lt_of_le hxy hy

namespace RbTree
variable {t : RbTree K V} {π : Trail (Cell K V)} {T : ColorTree (Cell K V)}

/-- **`do_lookup` walks down the tree.** -/
theorem doLookup_search (key : K) {fuel : Nat} (h : t.Represents (fill π T))
    (hfuel : T.inorder.length < fuel) :
    doLookup compare t key fuel (ptr T) (above π) =
      some (ptr (search (fun e => compare e.key key) π T).2,
        above (search (fun e => compare e.key key) π T).1) := by
  induction T generalizing π fuel with
  | nil => cases fuel <;> rfl
  | node c l e r ihl ihr =>
    cases fuel with
    | zero => exact absurd hfuel (Nat.not_lt_zero _)
    | succ fuel =>
      have hlen : (node c l e r).inorder.length = l.inorder.length + (r.inorder.length + 1) := by
        rw [inorder, List.length_append, List.length_cons]
      have hd : t.deref e.addr = some (.of (above π) .left (ptr l) (ptr r) c e) :=
        Represents.deref (d := .left) h
      show (doLookup compare t key (fuel + 1) (some e.addr) (above π)) = _
      unfold doLookup search
      rw [hd]
      simp only [Option.bind_eq_bind, Option.bind_some, RbNode.of_key]
      by_cases hzero : compare e.key key = 0
      · rw [if_pos hzero, if_pos hzero]
        rfl
      · rw [if_neg hzero, if_neg hzero]
        by_cases hneg : compare e.key key < 0
        · rw [if_pos hneg, if_pos hneg]
          exact ihr (π := ⟨.right, c, e, l⟩ :: π) h (by omega)
        · rw [if_neg hneg, if_neg hneg]
          exact ihl (π := ⟨.left, c, e, r⟩ :: π) h (by omega)

/-- Where a lookup ends. -/
inductive Ends (compare : K → K → Int) (key : K) (T : ColorTree (Cell K V)) :
    Option Addr × Option Addr → Prop
  | found (π : Trail (Cell K V)) (c : Color) (l : ColorTree (Cell K V)) (e : Cell K V)
      (r : ColorTree (Cell K V)) (hT : T = fill π (node c l e r)) (he : compare e.key key = 0) :
      Ends compare key T (some e.addr, above π)
  | absent (π : Trail (Cell K V)) (hT : T = fill π nil)
      (hπ : Between (fun e => compare e.key key) π) : Ends compare key T (none, above π)

/-- **A lookup ends at the key, or at the place where it belongs.** -/
theorem doLookup_ends (hc : IsTotalOrder compare) (h : t.Represents T)
    (hs : Sorted compare T.inorder) (key : K) :
    ∃ res, doLookup compare t key t.fuel t.root none = some res ∧ Ends compare key T res := by
  have hrun : doLookup compare t key t.fuel (ptr T) (above []) = _ :=
    doLookup_search (π := []) key h h.fuel
  rw [show ptr T = t.root from h.root.symm] at hrun
  obtain ⟨hbetween, hend⟩ := search_between (fun e => compare e.key key) (π := []) (t := T)
    (hs.crosses hc key) ⟨fun e he => absurd he List.not_mem_nil, fun e he => absurd he List.not_mem_nil⟩
  have hfill := search_fill (fun e : Cell K V => compare e.key key) [] T
  refine ⟨_, hrun, ?_⟩
  rcases hend with hnil | ⟨c, l, e, r, hnode, hzero⟩
  · rw [hnil] at hfill ⊢
    exact .absent _ hfill.symm hbetween
  · rw [hnode] at hfill ⊢
    exact .found _ c l e r hfill.symm hzero

end RbTree
end T2u
