import T2u.Table

/-!
# Emptying a tree from its root

A loop `while (tree->root)` takes the entry at the root of a search tree and leaves
it to its body to remove that entry.  A `Table` says what a tree binds, not how it is
balanced, so a loop is given a `Root`: a way to choose an entry of a table that is
not empty.  What holds for every choice holds whatever shape the tree has.

`RootLoop.Empties` is the run one hopes for: every turn takes out the entry at the
root and no other, until nothing is left.  `RootLoop.empties_of_invariant` is the rule
that proves it.
-/

namespace Table
variable {σ K V ε : Type} [Ord K]

/-- Which entry of a tree is at its root. -/
structure Root (K V : Type) [Ord K] where
  root : Table K V → Option (K × V)
  stored : ∀ {t e}, root t = some e → t.lookup e.1 = some e.2
  ended : ∀ {t}, root t = none → t.isEmpty = true

/-- The first entry at the root. -/
def Root.first [Std.LawfulEqOrd K] : Root K V where
  root t := t.entries.head?
  stored {t _} h := t.lookup_eq_some.mpr (List.mem_of_mem_head? h)
  ended h := Table.isEmpty_of_entries (List.head?_eq_none_iff.mp h)

/-- An empty tree has no root. -/
theorem Root.eq_none [Std.LawfulEqOrd K] (ρ : Root K V) {t : Table K V} (h : t.isEmpty = true) :
    ρ.root t = none := by
  cases hr : ρ.root t with
  | none => rfl
  | some e =>
    have hl := ρ.stored hr
    rw [t.isEmpty_iff.mp h] at hl
    cases hl

/-- A loop: the tree it empties, which may be gone itself, and what it does with the
entry at the root. -/
structure RootLoop (σ K V ε : Type) [Ord K] where
  tree : σ → Except ε (Table K V)
  body : K → V → σ → Except ε σ

namespace RootLoop

/-- The loop, for so many turns at most; where they are not enough, it does not end. -/
def run (L : RootLoop σ K V ε) (ρ : Root K V) (hang : ε) : Nat → σ → Except ε σ
  | 0, s => do
    let t ← L.tree s
    if t.isEmpty then return s else .error hang
  | fuel + 1, s => do
    let t ← L.tree s
    match ρ.root t with
    | none => return s
    | some (k, v) => do
      let s ← L.body k v s
      L.run ρ hang fuel s

/-- **The loop empties its tree**: each turn removes the entry at the root, and no
other. -/
inductive Empties (L : RootLoop σ K V ε) (ρ : Root K V) : σ → σ → Prop
  | done {s t} (ht : L.tree s = .ok t) (he : t.isEmpty = true) : Empties L ρ s s
  | turn {s s' s'' t k v} (ht : L.tree s = .ok t) (hr : ρ.root t = some (k, v))
      (hb : L.body k v s = .ok s') (ht' : L.tree s' = .ok (t.erase k))
      (h : Empties L ρ s' s'') : Empties L ρ s s''

variable {L : RootLoop σ K V ε} {ρ : Root K V} {s s' : σ}

/-- Nothing is left. -/
theorem Empties.tree (h : L.Empties ρ s s') : ∃ t, L.tree s' = .ok t ∧ t.isEmpty = true := by
  induction h with
  | done ht he => exact ⟨_, ht, he⟩
  | turn _ _ _ _ _ ih => exact ih

/-! One turn, and the end. -/

theorem run_zero (hang : ε) {t : Table K V} (ht : L.tree s = .ok t) :
    L.run ρ hang 0 s = if t.isEmpty then .ok s else .error hang := by
  rw [run, ht]
  rfl

theorem run_none (hang : ε) (fuel : Nat) {t : Table K V} (ht : L.tree s = .ok t)
    (hr : ρ.root t = none) : L.run ρ hang (fuel + 1) s = .ok s := by
  simp only [run, ht, bind, Except.bind, hr]
  rfl

theorem run_some (hang : ε) (fuel : Nat) {t : Table K V} (ht : L.tree s = .ok t) {k : K} {v : V}
    (hr : ρ.root t = some (k, v)) :
    L.run ρ hang (fuel + 1) s = (L.body k v s >>= fun s => L.run ρ hang fuel s) := by
  simp only [run, ht, bind, Except.bind, hr]

variable [Std.LawfulEqOrd K]

/-- As many turns are enough as there are entries. -/
theorem Empties.run (h : L.Empties ρ s s') (hang : ε) {t : Table K V} (ht : L.tree s = .ok t)
    {fuel : Nat} (hfuel : t.size ≤ fuel) : L.run ρ hang fuel s = .ok s' := by
  induction h generalizing t fuel with
  | @done s t' ht' he =>
    cases fuel with
    | zero => rw [run_zero hang ht', if_pos he]
    | succ fuel => exact run_none hang fuel ht' (ρ.eq_none he)
  | @turn s s₁ s₂ t' k v ht' hr hb hnext _ ih =>
    obtain rfl : t' = t := Except.ok.inj (ht'.symm.trans ht)
    have hsize : (t'.erase k).size + 1 = t'.size := t'.size_erase (ρ.stored hr)
    cases fuel with
    | zero => omega
    | succ fuel =>
      rw [run_some hang fuel ht' hr, hb]
      exact ih hnext (by omega)

/-- **The rule.**  In a state that satisfies the invariant the body removes the entry
it is given, and no other, and keeps the invariant. -/
theorem empties_of_invariant {P : σ → Prop}
    (hbody : ∀ s t k v, P s → L.tree s = .ok t → t.lookup k = some v →
      ∃ s', L.body k v s = .ok s' ∧ L.tree s' = .ok (t.erase k) ∧ P s')
    {t : Table K V} (hs : P s) (ht : L.tree s = .ok t) : ∃ s', L.Empties ρ s s' ∧ P s' := by
  obtain ⟨n, hn⟩ : ∃ n, t.size = n := ⟨_, rfl⟩
  induction n generalizing s t with
  | zero => exact ⟨s, .done ht (List.isEmpty_iff.mpr (List.length_eq_zero_iff.mp hn)), hs⟩
  | succ n ih =>
    cases hr : ρ.root t with
    | none => exact ⟨s, .done ht (ρ.ended hr), hs⟩
    | some e =>
      obtain ⟨s₁, hb, ht₁, hs₁⟩ := hbody s t e.1 e.2 hs ht (ρ.stored hr)
      have hsize := t.size_erase (ρ.stored hr)
      obtain ⟨s', he, hs'⟩ := ih hs₁ ht₁ (by omega)
      exact ⟨s', .turn ht hr hb ht₁ he, hs'⟩

end RootLoop
end Table
