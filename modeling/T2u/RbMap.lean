import T2u.Reach
import T2u.RbRemove

/-!
# The tree is a finite map

Any sequence of `rbtree_insert`, `rbtree_remove` and `rbtree_lookup` calls, started
on the tree of `rbtree_init`, gives the answers of a finite map (`rbtree_finite_map`)
and leaves a red-black tree in order (`rbtree_well_formed`).  None of the calls
dereferences `NULL` or freed memory, fails an assertion, or loops.
-/

namespace T2u
open RedBlack RedBlack.ColorTree Machine
open RedBlack.Trail (fill inorder_fill)

variable {K V : Type}

/-- A call, with what `malloc` gives it. -/
inductive Call (K V : Type)
  | insert (key : K) (data : V) (malloc : Option Addr)
  | remove (key : K)
  | lookup (key : K)

/-- What a call returns. -/
inductive Answer (V : Type)
  | status (r : Int)
  | data (v : Option V)
  deriving DecidableEq

/-! ## Runs -/

namespace RbTree

def call (compare : K → K → Int) (t : RbTree K V) : Call K V → Option (Answer V × RbTree K V)
  | .insert key data malloc =>
    (rbtreeInsert compare t key data malloc).map fun r => (.status r.1, r.2)
  | .remove key => (rbtreeRemove compare t key).map fun r => (.status r.1, r.2)
  | .lookup key => (rbtreeLookup compare t key).map fun v => (.data v, t)

/-- `malloc` gives memory that is not in use. -/
def Allocates (t : RbTree K V) : Call K V → Prop
  | .insert _ _ (some a) => t.deref a = none
  | _ => True

instance (t : RbTree K V) (c : Call K V) : Decidable (t.Allocates c) := by
  cases c with
  | insert key data malloc =>
    cases malloc with
    | none => exact isTrue trivial
    | some a => exact decidable_of_iff ((t.deref a).isNone = true) Option.isNone_iff_eq_none
  | remove key => exact isTrue trivial
  | lookup key => exact isTrue trivial

/-- A tree, and the calls made on it since `rbtree_init`. -/
structure Calls (K V : Type) where
  tree : RbTree K V := {}
  made : List (Call K V) := []
  answers : List (Answer V) := []

def next (compare : K → K → Int) (σ : Calls K V) (c : Call K V) : Option (Calls K V) :=
  (call compare σ.tree c).map fun r => ⟨r.2, σ.made ++ [c], σ.answers ++ [r.1]⟩

/-- A run of calls. -/
def Run (compare : K → K → Int) (σ : Calls K V) : Prop :=
  Reach (next compare) (fun σ c => σ.tree.Allocates c) {} σ

end RbTree

/-! ## The finite map -/

/-- What a call does to a finite map, with a comparison function for its keys. -/
def mapCall (compare : K → K → Int) (m : K → Option V) : Call K V → Answer V × (K → Option V)
  | .insert _ _ none => (.status (-1), m)
  | .insert key data (some _) =>
    if (m key).isSome then (.status (-2), m)
    else (.status 0, fun k => if compare key k = 0 then some data else m k)
  | .remove key =>
    if (m key).isSome then (.status 0, fun k => if compare key k = 0 then none else m k)
    else (.status (-1), m)
  | .lookup key => (.data (m key), m)

/-- The answers of an empty finite map to a sequence of calls, and what it becomes. -/
def mapCalls (compare : K → K → Int) (cs : List (Call K V)) : List (Answer V) × (K → Option V) :=
  cs.foldl (fun acc c => (acc.1 ++ [(mapCall compare acc.2 c).1], (mapCall compare acc.2 c).2))
    ([], fun _ => none)

theorem mapCalls_snoc (compare : K → K → Int) (cs : List (Call K V)) (c : Call K V) :
    mapCalls compare (cs ++ [c]) =
      ((mapCalls compare cs).1 ++ [(mapCall compare (mapCalls compare cs).2 c).1],
        (mapCall compare (mapCalls compare cs).2 c).2) := by
  unfold mapCalls
  rw [List.foldl_append]
  rfl

/-! ## The bindings of a tree -/

def bindings (l : List (Cell K V)) : List (K × V) := l.map fun e => (e.key, e.data)

/-- The map `m` consists of these bindings. -/
def Binds (compare : K → K → Int) (B : List (K × V)) (m : K → Option V) : Prop :=
  ∀ k v, m k = some v ↔ ∃ b ∈ B, compare b.1 k = 0 ∧ b.2 = v

variable {compare : K → K → Int} {m : K → Option V} {B₁ B₂ : List (K × V)} {key : K} {data : V}

theorem Binds.eq_none {B : List (K × V)} (h : Binds compare B m)
    (hno : ∀ b ∈ B, compare b.1 key ≠ 0) : m key = none := by
  cases hm : m key with
  | none => rfl
  | some v =>
    obtain ⟨b, hb, hcmp, -⟩ := (h key v).mp hm
    exact absurd hcmp (hno b hb)

theorem Binds.found {l : List (Cell K V)} {e : Cell K V} (h : Binds compare (bindings l) m)
    (he : e ∈ l) (hk : compare e.key key = 0) : m key = some e.data :=
  (h key e.data).mpr ⟨(e.key, e.data), List.mem_map.mpr ⟨e, he, rfl⟩, hk, rfl⟩

/-- Around the place where a key belongs, no key is the same. -/
theorem bindings_ne {π : Trail (Cell K V)} (hπ : Between (fun e => compare e.key key) π) :
    ∀ b ∈ bindings (fill π nil).inorder, compare b.1 key ≠ 0 := by
  intro b hb
  obtain ⟨e, he, rfl⟩ := List.mem_map.mp hb
  rw [inorder_fill] at he
  rcases List.mem_append.mp he with he | he
  · exact Int.ne_of_lt (hπ.before e he)
  · exact Int.ne_of_gt (hπ.after e he)

/-- A new binding. -/
theorem Binds.insert (h : Binds compare (B₁ ++ B₂) m) (hc : IsTotalOrder compare)
    (hno : ∀ b ∈ B₁ ++ B₂, compare b.1 key ≠ 0) :
    Binds compare (B₁ ++ (key, data) :: B₂) fun k => if compare key k = 0 then some data else m k := by
  intro k v
  by_cases hk : compare key k = 0
  · simp only [hk, if_true]
    constructor
    · intro hv
      exact ⟨(key, data), by simp, hk, Option.some.inj hv⟩
    · intro ⟨b, hb, hcmp, hv⟩
      have hmem : b = (key, data) ∨ b ∈ B₁ ++ B₂ := by
        simp only [List.mem_append, List.mem_cons] at hb ⊢
        grind
      rcases hmem with rfl | hmem
      · exact congrArg some hv
      · exact absurd (hc.eq_trans hcmp (hc.symm hk)) (hno b hmem)
  · simp only [hk, if_false]
    rw [h k v]
    constructor
    · intro ⟨b, hb, hcmp, hv⟩
      refine ⟨b, ?_, hcmp, hv⟩
      simp only [List.mem_append, List.mem_cons] at hb ⊢
      grind
    · intro ⟨b, hb, hcmp, hv⟩
      have hne : b ≠ (key, data) := by
        rintro rfl
        exact hk hcmp
      refine ⟨b, ?_, hcmp, hv⟩
      simp only [List.mem_append, List.mem_cons] at hb ⊢
      grind

/-- A binding less. -/
theorem Binds.remove {b₀ : K × V} (h : Binds compare (B₁ ++ b₀ :: B₂) m)
    (hc : IsTotalOrder compare) (hkey : compare b₀.1 key = 0)
    (hs : (B₁ ++ b₀ :: B₂).Pairwise fun x y => compare x.1 y.1 < 0) :
    Binds compare (B₁ ++ B₂) fun k => if compare key k = 0 then none else m k := by
  have hother : ∀ b ∈ B₁ ++ B₂, compare b.1 b₀.1 ≠ 0 := by
    obtain ⟨-, h₂, h₁₂⟩ := List.pairwise_append.mp hs
    intro b hb hzero
    rcases List.mem_append.mp hb with hb | hb
    · have hlt := h₁₂ b hb b₀ List.mem_cons_self
      omega
    · have hlt := (List.pairwise_cons.mp h₂).1 b hb
      have hzero' := hc.symm hzero
      omega
  intro k v
  by_cases hk : compare key k = 0
  · simp only [hk, if_true]
    constructor
    · intro hv
      cases hv
    · rintro ⟨b, hb, hcmp, -⟩
      have hbk : compare b.1 b₀.1 = 0 :=
        hc.eq_trans hcmp (hc.eq_trans (hc.symm hk) (hc.symm hkey))
      exact absurd hbk (hother b hb)
  · simp only [hk, if_false]
    rw [h k v]
    constructor
    · intro ⟨b, hb, hcmp, hv⟩
      have hne : b ≠ b₀ := by
        rintro rfl
        exact hk (hc.eq_trans (hc.symm hkey) hcmp)
      refine ⟨b, ?_, hcmp, hv⟩
      simp only [List.mem_append, List.mem_cons] at hb ⊢
      grind
    · intro ⟨b, hb, hcmp, hv⟩
      refine ⟨b, ?_, hcmp, hv⟩
      simp only [List.mem_append, List.mem_cons] at hb ⊢
      grind

/-! ## One call -/

namespace RbTree
variable {t : RbTree K V}

/-- **The invariant of a run**: a red-black tree in order, with the bindings of the
map. -/
def Stores (compare : K → K → Int) (t : RbTree K V) (m : K → Option V) : Prop :=
  ∃ T, RedBlackTree compare t T ∧ Binds compare (bindings T.inorder) m

theorem Stores.lookup (h : Stores compare t m) (hc : IsTotalOrder compare) (key : K) :
    rbtreeLookup compare t key = some (m key) := by
  obtain ⟨T, hT, hB⟩ := h
  obtain ⟨res, hlookup, hends⟩ := doLookup_ends hc hT.represents hT.sorted key
  unfold rbtreeLookup
  rw [hlookup]
  simp only [Option.bind_eq_bind, Option.bind_some]
  cases hends with
  | found π c l e r hfill he =>
    have hR := hT.represents
    rw [hfill] at hR
    have hd : t.deref e.addr = some (.of (above π) .left (ptr l) (ptr r) c e) :=
      Represents.deref (d := .left) hR
    have hm : m key = some e.data := by
      refine hB.found ?_ he
      rw [hfill, inorder_fill]
      simp [inorder]
    simp only
    rw [hd, hm]
    rfl
  | absent π hfill hπ =>
    subst hfill
    rw [hB.eq_none (bindings_ne hπ)]

theorem sorted_insert {before after : List (Cell K V)} {e : Cell K V}
    (hs : Sorted compare (before ++ after)) (hc : IsTotalOrder compare)
    (hbefore : ∀ x ∈ before, compare x.key e.key < 0)
    (hafter : ∀ x ∈ after, 0 < compare x.key e.key) :
    Sorted compare (before ++ e :: after) := by
  obtain ⟨h₁, h₂, h₁₂⟩ := List.pairwise_append.mp hs
  refine List.pairwise_append.mpr ⟨h₁, List.pairwise_cons.mpr ⟨fun y hy => ?_, h₂⟩, ?_⟩
  · have hlt := hafter y hy
    exact (hc.swap _ _).mpr hlt
  · intro x hx y hy
    rcases List.mem_cons.mp hy with rfl | hy
    · exact hbefore x hx
    · exact h₁₂ x hx y hy

theorem Stores.insert (h : Stores compare t m) (hc : IsTotalOrder compare) (key : K) (data : V)
    {a : Addr} (ha : t.deref a = none) :
    ∃ t', rbtreeInsert compare t key data (some a) =
        some (if (m key).isSome then -2 else 0, t') ∧
      Stores compare t' (mapCall compare m (.insert key data (some a))).2 := by
  obtain ⟨T, hT, hB⟩ := h
  have hR := hT.represents.malloc ha ⟨none, none, none, .black, key, data⟩
  have hT' : RedBlackTree compare
      { t with heap := t.heap.insert a ⟨none, none, none, .black, key, data⟩ } T :=
    ⟨hR, hT.sorted, hT.root, hT.balanced⟩
  have hself := Table.lookup_insert_self t.heap
    (v := (⟨none, none, none, .black, key, data⟩ : RbNode K V)) ha
  unfold rbtreeInsert mapCall
  dsimp only
  rcases insertNode_spec (e := ⟨a, key, data⟩) hc hT' hself rfl rfl (hT.represents.not_mem ha) with
    ⟨x, hx, hzero, hm⟩ | ⟨π, t', T', rfl, hπ, hm, hR', hin, hblack, hbal⟩
  · -- the key is there
    rw [hB.found hx hzero]
    refine ⟨_, ?_, T, hT', hB⟩
    simp only [Option.bind_eq_bind]
    rw [hm]
    rfl
  · have hfill : (fill π nil).inorder = Trail.before π ++ Trail.after π := inorder_fill π nil
    have hno := bindings_ne hπ
    rw [hB.eq_none hno]
    rw [hfill] at hB hno
    refine ⟨t', ?_, T', ⟨hR', ?_, hblack, hbal⟩, ?_⟩
    · simp only [Option.bind_eq_bind]
      rw [hm]
      rfl
    · rw [hin]
      have hs := hT.sorted
      rw [hfill] at hs
      exact sorted_insert hs hc hπ.before hπ.after
    · rw [hin]
      unfold bindings at hB hno ⊢
      rw [List.map_append] at hB hno ⊢
      exact hB.insert hc hno

theorem Stores.remove (h : Stores compare t m) (hc : IsTotalOrder compare) (key : K) :
    ∃ t', rbtreeRemove compare t key = some (if (m key).isSome then 0 else -1, t') ∧
      Stores compare t' (mapCall compare m (.remove key)).2 := by
  obtain ⟨T, hT, hB⟩ := h
  obtain ⟨res, hlookup, hends⟩ := doLookup_ends hc hT.represents hT.sorted key
  unfold rbtreeRemove mapCall
  rw [hlookup]
  simp only [Option.bind_eq_bind, Option.bind_some]
  cases hends with
  | found π c l e r hfill he =>
    have hin : T.inorder = (Trail.before π ++ l.inorder) ++ e :: (r.inorder ++ Trail.after π) := by
      rw [hfill, inorder_fill]
      simp [inorder]
    have hmk : m key = some e.data := hB.found (by rw [hin]; simp) he
    obtain ⟨t', l', hm, ⟨T', hR', hin', hblack, hbal⟩, hl'⟩ := removeNode_spec hT hfill
    have hs : (bindings T.inorder).Pairwise fun x y => compare x.1 y.1 < 0 :=
      List.pairwise_map.mpr hT.sorted
    have hB' : bindings T'.inorder =
        bindings (Trail.before π ++ l.inorder) ++ bindings (r.inorder ++ Trail.after π) := by
      rw [hin']
      unfold bindings
      rw [hl', List.map_append]
    have hsplit : bindings T.inorder = bindings (Trail.before π ++ l.inorder) ++
        (e.key, e.data) :: bindings (r.inorder ++ Trail.after π) := by
      rw [hin]
      unfold bindings
      rw [List.map_append, List.map_cons]
    rw [hsplit] at hs hB
    rw [hmk]
    refine ⟨t', ?_, T', ⟨hR', ?_, hblack, hbal⟩, ?_⟩
    · simp only
      rw [hm]
      rfl
    · have hs' : (bindings T'.inorder).Pairwise fun x y => compare x.1 y.1 < 0 := by
        rw [hB']
        exact hs.sublist ((List.sublist_cons_self _ _).append_left _)
      exact List.pairwise_map.mp hs'
    · rw [hB']
      exact hB.remove hc he hs
  | absent π hfill hπ =>
    subst hfill
    rw [hB.eq_none (bindings_ne hπ)]
    exact ⟨t, rfl, _, hT, hB⟩

/-- **A call answers as the map does**, and stores the map the call leaves. -/
theorem call_spec (h : Stores compare t m) (hc : IsTotalOrder compare) {c : Call K V}
    (hmalloc : t.Allocates c) :
    ∃ t', call compare t c = some ((mapCall compare m c).1, t') ∧
      Stores compare t' (mapCall compare m c).2 := by
  cases c with
  | insert key data malloc =>
    cases malloc with
    | none => exact ⟨t, rfl, h⟩
    | some a =>
      obtain ⟨t', hm, hs⟩ := h.insert hc key data hmalloc
      refine ⟨t', ?_, hs⟩
      show (rbtreeInsert compare t key data (some a)).map _ = _
      rw [hm]
      unfold mapCall
      dsimp only
      split <;> rfl
  | remove key =>
    obtain ⟨t', hm, hs⟩ := h.remove hc key
    refine ⟨t', ?_, hs⟩
    show (rbtreeRemove compare t key).map _ = _
    rw [hm]
    unfold mapCall
    dsimp only
    split <;> rfl
  | lookup key =>
    refine ⟨t, ?_, h⟩
    show (rbtreeLookup compare t key).map _ = _
    rw [h.lookup hc key]
    rfl

/-! ## Every run -/

theorem stores_init : Stores compare ({} : RbTree K V) fun _ => none := by
  refine ⟨nil, ⟨⟨rfl, trivial, List.nodup_nil⟩, List.Pairwise.nil, rfl, 0, .nil⟩, fun k v => ?_⟩
  constructor
  · intro h
    cases h
  · rintro ⟨b, hb, -⟩
    cases hb

theorem run_stores (hc : IsTotalOrder compare) {σ : Calls K V} (hrun : Run compare σ) :
    σ.answers = (mapCalls compare σ.made).1 ∧
      Stores compare σ.tree (mapCalls compare σ.made).2 := by
  refine hrun.invariant (P := fun σ => σ.answers = (mapCalls compare σ.made).1 ∧
    Stores compare σ.tree (mapCalls compare σ.made).2) ?_ ⟨rfl, stores_init⟩
  intro σ c τ ⟨hans, hstores⟩ hmalloc hstep
  obtain ⟨t', hcall, hstores'⟩ := call_spec hstores hc hmalloc
  unfold next at hstep
  rw [hcall] at hstep
  obtain rfl := Option.some.inj hstep
  rw [mapCalls_snoc]
  exact ⟨congrArg (· ++ [_]) hans, hstores'⟩

/-- **The tree is a finite map.**  After any sequence of calls: the answers were those
of a finite map, looking up any key gives what the map has, and the next call,
whatever it is, gives the map's answer. -/
theorem rbtree_finite_map (hc : IsTotalOrder compare) {σ : Calls K V} (hrun : Run compare σ) :
    σ.answers = (mapCalls compare σ.made).1 ∧
      (∀ key, rbtreeLookup compare σ.tree key = some ((mapCalls compare σ.made).2 key)) ∧
      ∀ c, σ.tree.Allocates c → ∃ τ, next compare σ c = some τ ∧
        τ.answers = (mapCalls compare (σ.made ++ [c])).1 := by
  obtain ⟨hans, hstores⟩ := run_stores hc hrun
  refine ⟨hans, hstores.lookup hc, fun c hmalloc => ?_⟩
  obtain ⟨t', hcall, -⟩ := call_spec hstores hc hmalloc
  unfold next
  rw [hcall, mapCalls_snoc]
  exact ⟨_, rfl, congrArg (· ++ [_]) hans⟩

/-- Numbers by their difference. -/
def byNumber (a b : Nat) : Int := a - b

theorem byNumber_total : IsTotalOrder byNumber where
  swap a b := by
    unfold byNumber
    omega
  trans a b c hab hbc := by
    unfold byNumber at hab hbc ⊢
    omega

/-- Four insertions; then 3 goes, a black node with one red child, and 2, whose node
gets the binding of 4. -/
def sixCalls : List (Call Nat Nat) :=
  [.insert 2 20 (some 1), .insert 1 10 (some 2), .insert 3 30 (some 3), .insert 4 40 (some 4),
    .remove 3, .remove 2]

def sixMade : Calls Nat Nat := (exec (next byNumber) {} sixCalls).getD {}

theorem sixMade_run : Run byNumber sixMade :=
  Reach.of_guarded (l := sixCalls) rfl

theorem rbtree_finite_map_six :
    sixMade.answers = List.replicate 6 (.status 0) ∧
      rbtreeLookup byNumber sixMade.tree 4 = some (some 40) ∧
      rbtreeLookup byNumber sixMade.tree 2 = some none := by
  obtain ⟨hans, hlookup, -⟩ := rbtree_finite_map byNumber_total sixMade_run
  exact ⟨hans.trans (by decide), hlookup 4, hlookup 2⟩

/-! ## The shape of the tree -/

/-- The keys are in strict order in every subtree. -/
def Ordered (compare : K → K → Int) : ColorTree (Cell K V) → Prop
  | nil => True
  | node _ l e r =>
    (∀ x ∈ l.inorder, compare x.key e.key < 0) ∧ (∀ x ∈ r.inorder, compare e.key x.key < 0) ∧
      Ordered compare l ∧ Ordered compare r

/-- No red node has a red child. -/
def NoRedRed : ColorTree (Cell K V) → Prop
  | nil => True
  | node c l _ r =>
    (c = .red → l.color = .black ∧ r.color = .black) ∧ NoRedRed l ∧ NoRedRed r

/-- The number of black nodes on each way from the root to a `NULL` link. -/
def blacks : ColorTree (Cell K V) → List Nat
  | nil => [0]
  | node c l _ r => (blacks l ++ blacks r).map fun k => if c = .black then k + 1 else k

/-- **The red-black invariant**: the memory holds a tree, with parent links that match
the child links and no parent of the root, its keys are in order, its root is black,
no red node has a red child, and every way down has the same number of black nodes. -/
def WellFormed (compare : K → K → Int) (t : RbTree K V) : Prop :=
  ∃ T, t.Represents T ∧ Ordered compare T ∧ T.color = .black ∧ NoRedRed T ∧
    ∃ n, ∀ k ∈ blacks T, k = n

theorem ordered_of_sorted {T : ColorTree (Cell K V)} (h : Sorted compare T.inorder) :
    Ordered compare T := by
  induction T with
  | nil => trivial
  | node c l e r ihl ihr =>
    obtain ⟨hl, her, hle⟩ := List.pairwise_append.mp h
    obtain ⟨he, hr⟩ := List.pairwise_cons.mp her
    exact ⟨fun x hx => hle x hx e List.mem_cons_self, he, ihl hl, ihr hr⟩

theorem noRedRed_of_balanced {T : ColorTree (Cell K V)} {n : Nat} (h : Balanced T n) : NoRedRed T := by
  induction h with
  | nil => trivial
  | red _ _ cl cr ihl ihr => exact ⟨fun _ => ⟨cl, cr⟩, ihl, ihr⟩
  | black _ _ ihl ihr => exact ⟨fun hc => Color.noConfusion hc, ihl, ihr⟩

theorem blacks_of_balanced {T : ColorTree (Cell K V)} {n : Nat} (h : Balanced T n) :
    ∀ k ∈ blacks T, k = n := by
  induction h with
  | nil => exact fun k hk => List.mem_singleton.mp hk
  | red _ _ _ _ ihl ihr =>
    intro k hk
    obtain ⟨j, hj, rfl⟩ := List.mem_map.mp hk
    rw [if_neg Color.noConfusion]
    exact (List.mem_append.mp hj).elim (ihl j) (ihr j)
  | black _ _ ihl ihr =>
    intro k hk
    obtain ⟨j, hj, rfl⟩ := List.mem_map.mp hk
    rw [if_pos rfl]
    exact congrArg (· + 1) ((List.mem_append.mp hj).elim (ihl j) (ihr j))

/-- **The red-black invariant holds after every sequence of calls.** -/
theorem rbtree_well_formed (hc : IsTotalOrder compare) {σ : Calls K V} (hrun : Run compare σ) :
    WellFormed compare σ.tree := by
  obtain ⟨-, T, hT, -⟩ := run_stores hc hrun
  obtain ⟨n, hn⟩ := hT.balanced
  exact ⟨T, hT.represents, ordered_of_sorted hT.sorted, hT.root, noRedRed_of_balanced hn, n,
    blacks_of_balanced hn⟩

theorem rbtree_well_formed_six : WellFormed byNumber sixMade.tree :=
  rbtree_well_formed byNumber_total sixMade_run

end RbTree
end T2u
