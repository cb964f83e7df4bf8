import T2u.Examined
import T2u.RbNodes

/-!
# The trees of the program

The program orders its trees by four comparison functions: `compare_uint64_ptr` for the
handles of the sessions of a rule, `compare_uint32_ptr` for the numbers of the messages of a
session, `compare_name` for the services of a context, and `compare_default` for the
contexts of a runner.  Each decides as the order of the keys does, and so the tree in memory
is a table (`trees_are_tables`): it gives the same answers to all calls, and its nodes in
order are the entries.

`find_session_in_context` goes through the tree of a context's rules, without the functions
of `t2u_rbtree.c`, and looks the session up in a tree of each.
-/

namespace T2u
open RedBlack RedBlack.ColorTree Machine

/-! ## Comparison functions -/

/-- The comparison function decides as the order of the keys does. -/
structure ComparesKeys {K : Type} [Ord K] (cmp : K → K → Int) : Prop where
  lt : ∀ a b, cmp a b < 0 ↔ compare a b = .lt
  eq : ∀ a b, cmp a b = 0 ↔ compare a b = .eq

theorem ComparesKeys.total {K : Type} [Ord K] [Std.TransOrd K] {cmp : K → K → Int}
    (h : ComparesKeys cmp) : IsTotalOrder cmp where
  swap a b := by
    have hgt : compare a b = .lt ↔ compare b a = .gt := Std.OrientedCmp.gt_iff_lt.symm
    rw [h.lt, hgt]
    have hlt := h.lt b a
    have heq := h.eq b a
    cases hc : compare b a <;> rw [hc] at hlt heq <;> simp at hlt heq ⊢ <;> omega
  trans a b c hab hbc := by
    have hle : ∀ x y, cmp x y ≤ 0 ↔ (compare x y).isLE = true := by
      intro x y
      rw [Ordering.isLE_iff_eq_lt_or_eq_eq, ← h.lt, ← h.eq, Int.le_iff_lt_or_eq]
    rw [hle] at hab hbc ⊢
    exact Std.TransCmp.isLE_trans hab hbc

/-- `compare_uint64_ptr` and `compare_uint32_ptr`, on the numbers their arguments point to. -/
def compareUint {w : Nat} (a b : BitVec w) : Int := if a > b then 1 else if a < b then -1 else 0

def compareUint64Ptr (a b : Handle) : Int := compareUint a b

def compareUint32Ptr (a b : Seq) : Int := compareUint a b

/-- `compare_default`, on addresses. -/
def compareDefault (a b : Nat) : Int := if a > b then 1 else if a = b then 0 else -1

/-- The characters of a C string. -/
def CString := { name : Name // 0 ∉ name }

/-- `strcmp` on two strings; both end with NUL. -/
def strcmpNames : Name → Name → Int
  | [], [] => 0
  | [], b :: _ => 0 - (b.toNat : Int)
  | a :: _, [] => a.toNat
  | a :: x, b :: y => if a = b then strcmpNames x y else (a.toNat : Int) - b.toNat

def compareName (a b : CString) : Int := strcmpNames a.val b.val

/-- The same `strcmp` as on a string in the receive buffer. -/
theorem strcmpNames_eq {m : Nat → Byte} {x y : Name} {i : Nat} (hx : 0 ∉ x) (hy : 0 ∉ y)
    (h : StandsAt m (y ++ [0]) i) : (strcmp x i).value m = strcmpNames x y := by
  induction x generalizing y i with
  | nil =>
    cases y with
    | nil =>
      obtain ⟨hb, -⟩ := h.cons
      rw [strcmp, Examine.value_bind, Examine.value_byte, ← hb]
      rfl
    | cons b y =>
      obtain ⟨hb, -⟩ := h.cons
      rw [strcmp, Examine.value_bind, Examine.value_byte, ← hb]
      rfl
  | cons a x ih =>
    rw [List.mem_cons, not_or] at hx
    cases y with
    | nil =>
      obtain ⟨hb, -⟩ := h.cons
      rw [strcmp_cons, ← hb, if_neg fun he => hx.1 he.symm]
      exact Int.sub_zero _
    | cons b y =>
      rw [List.mem_cons, not_or] at hy
      obtain ⟨hb, htail⟩ := h.cons
      rw [strcmp_cons, ← hb, ih hx.2 hy.2 htail]
      rfl

instance : Ord CString := ⟨fun a b => compare a.val b.val⟩

instance : Std.TransOrd CString where
  eq_swap {a b} := (inferInstance : Std.TransOrd Name).eq_swap (a := a.val) (b := b.val)
  isLE_trans {a b c} :=
    (inferInstance : Std.TransOrd Name).isLE_trans (a := a.val) (b := b.val) (c := c.val)

instance : Std.LawfulEqOrd CString where
  compare_self {a} := (inferInstance : Std.LawfulEqOrd Name).compare_self (a := a.val)
  eq_of_compare h := Subtype.ext ((inferInstance : Std.LawfulEqOrd Name).eq_of_compare h)

theorem compareUint_keys {w : Nat} : ComparesKeys (compareUint (w := w)) := by
  have hlt : ∀ a b : BitVec w, compare a b = .lt ↔ a < b := by
    intro a b
    exact compareOfLessAndEq_eq_lt
  refine ⟨fun a b => ?_, fun a b => ?_⟩
  · rw [hlt]
    unfold compareUint
    split
    · rename_i h
      exact iff_of_false (by decide) (BitVec.not_lt.mpr (BitVec.le_of_lt h))
    · split
      · rename_i h
        exact iff_of_true (by decide) h
      · rename_i h
        exact iff_of_false (by decide) h
  · rw [Std.LawfulEqCmp.compare_eq_iff_eq]
    unfold compareUint
    split
    · rename_i h
      exact iff_of_false (by decide) fun he => BitVec.lt_irrefl _ (he ▸ h)
    · rename_i hba
      split
      · rename_i h
        exact iff_of_false (by decide) fun he => BitVec.lt_irrefl _ (he ▸ h)
      · rename_i hab
        exact iff_of_true rfl
          (BitVec.le_antisymm (BitVec.not_lt.mp hba) (BitVec.not_lt.mp hab))

theorem compareUint64Ptr_keys : ComparesKeys compareUint64Ptr := compareUint_keys

theorem compareUint32Ptr_keys : ComparesKeys compareUint32Ptr := compareUint_keys

theorem compareDefault_keys : ComparesKeys compareDefault := by
  refine ⟨fun a b => ?_, fun a b => ?_⟩
  · rw [Nat.compare_eq_lt]
    unfold compareDefault
    split
    · omega
    · split <;> omega
  · rw [Nat.compare_eq_eq]
    unfold compareDefault
    split
    · omega
    · split <;> omega

theorem strcmpNames_keys {x y : Name} (hx : 0 ∉ x) (hy : 0 ∉ y) :
    (strcmpNames x y < 0 ↔ compare x y = .lt) ∧ (strcmpNames x y = 0 ↔ x = y) := by
  have hpos : ∀ {b : Byte} {l : Name}, 0 ∉ b :: l → 0 < b.toNat := by
    intro b l hb
    refine Nat.pos_of_ne_zero fun hz => hb ?_
    rw [show b = 0 from BitVec.eq_of_toNat_eq hz]
    exact List.mem_cons_self
  induction x generalizing y with
  | nil =>
    cases y with
    | nil => exact ⟨iff_of_false (by decide) (by decide), iff_of_true rfl rfl⟩
    | cons b y =>
      have hb := hpos hy
      refine ⟨iff_of_true ?_ rfl, iff_of_false ?_ (List.cons_ne_nil _ _).symm⟩
      · show 0 - (b.toNat : Int) < 0
        omega
      · show 0 - (b.toNat : Int) ≠ 0
        omega
  | cons a x ih =>
    cases y with
    | nil =>
      have ha := hpos hx
      refine ⟨iff_of_false ?_ (by simp), iff_of_false ?_ (List.cons_ne_nil _ _)⟩
      · show ¬ (a.toNat : Int) < 0
        omega
      · show (a.toNat : Int) ≠ 0
        omega
    | cons b y =>
      rw [compare_cons, List.cons.injEq]
      unfold strcmpNames
      obtain ⟨hlt, heq⟩ := ih (fun h => hx (List.mem_cons_of_mem _ h))
        (fun h => hy (List.mem_cons_of_mem _ h))
      by_cases hab : a = b
      · subst hab
        rw [if_pos rfl, hlt, heq]
        simp
      · have hne : a.toNat ≠ b.toNat := fun h => hab (BitVec.eq_of_toNat_eq h)
        rw [if_neg hab]
        simp only [hab, false_and, or_false, iff_false]
        omega

theorem compareName_keys : ComparesKeys compareName where
  lt a b := (strcmpNames_keys a.2 b.2).1
  eq a b := by
    rw [Std.LawfulEqCmp.compare_eq_iff_eq]
    exact (strcmpNames_keys a.2 b.2).2.trans Subtype.ext_iff.symm

/-! ## A table -/

section Calls
variable {K V : Type} [Ord K] [Std.TransOrd K]

/-- What a call does to a table. -/
def tableCall (τ : Table K V) : Call K V → Answer V × Table K V
  | .insert _ _ none => (.status (-1), τ)
  | .insert key data (some _) =>
    (.status (if (τ.lookup key).isSome then -2 else 0), τ.insert key data)
  | .remove key => (.status (if (τ.lookup key).isSome then 0 else -1), τ.erase key)
  | .lookup key => (.data (τ.lookup key), τ)

/-- The answers of an empty table to a sequence of calls, and what it becomes. -/
def tableCalls (cs : List (Call K V)) : List (Answer V) × Table K V :=
  cs.foldl (fun acc c => (acc.1 ++ [(tableCall acc.2 c).1], (tableCall acc.2 c).2))
    ([], Table.empty)

theorem tableCalls_snoc (cs : List (Call K V)) (c : Call K V) :
    tableCalls (cs ++ [c]) = ((tableCalls cs).1 ++ [(tableCall (tableCalls cs).2 c).1],
      (tableCall (tableCalls cs).2 c).2) := by
  unfold tableCalls
  rw [List.foldl_append]
  rfl

end Calls

namespace RbTree
variable {K V : Type} [Ord K] [Std.LawfulEqOrd K] {cmp : K → K → Int} {t t' : RbTree K V}
  {τ : Table K V}

/-- The nodes of the tree, in order, hold the entries of the table. -/
def Keeps (cmp : K → K → Int) (t : RbTree K V) (τ : Table K V) : Prop :=
  ∃ T, RedBlackTree cmp t T ∧ bindings T.inorder = τ.entries

theorem binds_lookup (hcmp : ComparesKeys cmp) (τ : Table K V) : Binds cmp τ.entries τ.lookup := by
  intro k v
  rw [τ.lookup_eq_some]
  constructor
  · intro h
    exact ⟨(k, v), h, (hcmp.eq k k).mpr Std.ReflCmp.compare_self, rfl⟩
  · rintro ⟨⟨k', v'⟩, h, hk, rfl⟩
    rwa [Std.LawfulEqCmp.eq_of_compare ((hcmp.eq k' k).mp hk)] at h

variable [Std.TransOrd K]

/-- Bindings in strict order are those of one table. -/
theorem entries_unique (hcmp : ComparesKeys cmp) {B : List (K × V)}
    (hs : B.Pairwise fun x y => cmp x.1 y.1 < 0) (hB : Binds cmp B τ.lookup) : B = τ.entries := by
  have hsB : B.Pairwise fun x y => compare x.1 y.1 = .lt := hs.imp fun h => (hcmp.lt _ _).mp h
  have hirrefl : ∀ x : K × V, ¬ compare x.1 x.1 = .lt := by
    intro x hx
    exact nomatch hx.symm.trans Std.ReflCmp.compare_self
  have hmem : ∀ e, e ∈ B ↔ e ∈ τ.entries := by
    intro e
    rw [← τ.lookup_eq_some (k := e.1) (v := e.2), hB]
    constructor
    · intro he
      exact ⟨e, he, (hcmp.eq _ _).mpr Std.ReflCmp.compare_self, rfl⟩
    · rintro ⟨⟨k', v'⟩, h, hk, hv⟩
      obtain rfl : v' = e.2 := hv
      rwa [show k' = e.1 from Std.LawfulEqCmp.eq_of_compare ((hcmp.eq _ _).mp hk)] at h
  have hperm : B.Perm τ.entries := by
    refine (List.perm_ext_iff_of_nodup (hsB.imp ?_) (τ.sorted.imp ?_)).mpr hmem
    · rintro x _ hxy rfl
      exact hirrefl x hxy
    · rintro x _ hxy rfl
      exact hirrefl x hxy
  refine hperm.eq_of_pairwise (fun x y _ _ hxy hyx => ?_) hsB τ.sorted
  exact absurd (Std.TransCmp.lt_trans hxy hyx) (hirrefl x)

theorem keeps_iff_stores (hcmp : ComparesKeys cmp) : t.Keeps cmp τ ↔ t.Stores cmp τ.lookup := by
  constructor
  · rintro ⟨T, hT, hB⟩
    exact ⟨T, hT, hB ▸ binds_lookup hcmp τ⟩
  · rintro ⟨T, hT, hB⟩
    exact ⟨T, hT, entries_unique hcmp (List.pairwise_map.mpr hT.sorted) hB⟩

/-- The finite map of a table. -/
theorem mapCall_lookup (hcmp : ComparesKeys cmp) (c : Call K V) :
    mapCall cmp τ.lookup c = ((tableCall τ c).1, (tableCall τ c).2.lookup) := by
  have hkey : ∀ key k, cmp key k = 0 ↔ k = key := by
    intro key k
    rw [hcmp.eq, Std.LawfulEqCmp.compare_eq_iff_eq, eq_comm]
  cases c with
  | insert key data malloc =>
    cases malloc with
    | none => rfl
    | some a =>
      unfold mapCall tableCall
      dsimp only
      cases hl : τ.lookup key with
      | none =>
        refine Prod.ext rfl (funext fun k => ?_)
        by_cases hk : k = key
        · simp [hkey, hk, τ.lookup_insert_self hl]
        · simp [hkey, hk, τ.lookup_insert_of_ne hk]
      | some v =>
        rw [τ.insert_of_present hl]
        rfl
  | remove key =>
    unfold mapCall tableCall
    dsimp only
    cases hl : τ.lookup key with
    | none =>
      refine Prod.ext rfl (funext fun k => ?_)
      by_cases hk : k = key
      · simp [hk, hl]
      · simp [τ.lookup_erase_of_ne hk]
    | some v =>
      refine Prod.ext rfl (funext fun k => ?_)
      by_cases hk : k = key
      · simp [hkey, hk]
      · simp [hkey, hk, τ.lookup_erase_of_ne hk]
  | lookup key => rfl

/-- **A call on the tree is the call on the table.** -/
theorem call_table (hcmp : ComparesKeys cmp) (h : t.Keeps cmp τ) {c : Call K V}
    (hmalloc : t.Allocates c) :
    ∃ t', call cmp t c = some ((tableCall τ c).1, t') ∧ t'.Keeps cmp (tableCall τ c).2 := by
  obtain ⟨t', hcall, hstores⟩ := call_spec ((keeps_iff_stores hcmp).mp h) hcmp.total hmalloc
  rw [mapCall_lookup hcmp] at hcall hstores
  exact ⟨t', hcall, (keeps_iff_stores hcmp).mpr hstores⟩

omit [Std.LawfulEqOrd K] [Std.TransOrd K] in
/-- The root is `NULL` when the table is empty. -/
theorem Keeps.root (h : t.Keeps cmp τ) : t.root = none ↔ τ.isEmpty = true := by
  obtain ⟨T, hT, hB⟩ := h
  rw [hT.represents.root, ptr_eq_none, Table.isEmpty, ← hB, List.isEmpty_iff]
  cases T with
  | nil => exact iff_of_true rfl rfl
  | node c l e r => exact iff_of_false (by simp) (by simp [bindings, inorder])

theorem run_keeps (hcmp : ComparesKeys cmp) {σ : Calls K V} (hrun : Run cmp σ) :
    σ.answers = (tableCalls σ.made).1 ∧ σ.tree.Keeps cmp (tableCalls σ.made).2 := by
  refine hrun.invariant (P := fun σ => σ.answers = (tableCalls σ.made).1 ∧
    σ.tree.Keeps cmp (tableCalls σ.made).2) ?_ ⟨rfl, (keeps_iff_stores hcmp).mpr stores_init⟩
  intro σ c σ' ⟨hans, hkeeps⟩ hmalloc hstep
  obtain ⟨t', hcall, hkeeps'⟩ := call_table hcmp hkeeps hmalloc
  unfold next at hstep
  rw [hcall] at hstep
  obtain rfl := Option.some.inj hstep
  rw [tableCalls_snoc]
  exact ⟨congrArg (· ++ [_]) hans, hkeeps'⟩

/-- The calls on a tree have been those on a table: it gave the same answers, the nodes in
order hold its entries, and the root is `NULL` when it is empty. -/
structure IsTable (σ : Calls K V) : Prop where
  answers : σ.answers = (tableCalls σ.made).1
  nodes : ∃ l, σ.tree.Iterates l ∧ bindings l = (tableCalls σ.made).2.entries
  root : σ.tree.root = none ↔ (tableCalls σ.made).2.isEmpty = true

omit [Std.LawfulEqOrd K] in
theorem Keeps.isTable {σ : Calls K V} (hans : σ.answers = (tableCalls σ.made).1)
    (h : σ.tree.Keeps cmp (tableCalls σ.made).2) : IsTable σ := by
  refine ⟨hans, ?_, h.root⟩
  obtain ⟨T, hT, hB⟩ := h
  exact ⟨T.inorder, hT.represents.iterates, hB⟩

end RbTree

open RbTree

/-- **The trees of the program are tables**, whatever they hold and after any sequence of
calls: those of handles, of sequence numbers, of names and of addresses. -/
theorem trees_are_tables {V : Type} :
    (∀ σ : Calls Handle V, Run compareUint64Ptr σ → IsTable σ) ∧
      (∀ σ : Calls Seq V, Run compareUint32Ptr σ → IsTable σ) ∧
      (∀ σ : Calls CString V, Run compareName σ → IsTable σ) ∧
      ∀ σ : Calls Nat V, Run compareDefault σ → IsTable σ := by
  refine ⟨fun σ hrun => ?_, fun σ hrun => ?_, fun σ hrun => ?_, fun σ hrun => ?_⟩
  · obtain ⟨hans, hkeeps⟩ := run_keeps compareUint64Ptr_keys hrun
    exact hkeeps.isTable hans
  · obtain ⟨hans, hkeeps⟩ := run_keeps compareUint32Ptr_keys hrun
    exact hkeeps.isTable hans
  · obtain ⟨hans, hkeeps⟩ := run_keeps compareName_keys hrun
    exact hkeeps.isTable hans
  · obtain ⟨hans, hkeeps⟩ := run_keeps compareDefault_keys hrun
    exact hkeeps.isTable hans

/-- Two services, in the order of their names. -/
def serviceCalls : List (Call CString RuleId) :=
  [.insert ⟨[98], by decide⟩ 0 (some 1), .insert ⟨[97], by decide⟩ 1 (some 2)]

def servicesMade : Calls CString RuleId := (exec (next compareName) {} serviceCalls).getD {}

theorem servicesMade_run : Run compareName servicesMade :=
  Reach.of_guarded (l := serviceCalls) rfl

theorem trees_are_tables_services :
    servicesMade.answers = [.status 0, .status 0] ∧
      ∃ l, servicesMade.tree.Iterates l ∧ (bindings l).map (fun b => (b.1.val, b.2)) =
        [([97], 1), ([98], 0)] := by
  obtain ⟨hans, ⟨l, hl, hB⟩, -⟩ := trees_are_tables.2.2.1 servicesMade servicesMade_run
  exact ⟨hans.trans (by decide), l, hl, by rw [hB]; rfl⟩

/-! ## Finding a session -/

/-- The trees of a context in memory: that of its rules, and the two of each rule. -/
structure ContextTrees where
  rules : RbTree CString RuleId
  sessions : RuleId → RbTree Handle Ptr
  connectingSessions : RuleId → RbTree Handle Ptr

namespace ContextTrees

def tree (m : ContextTrees) (id : RuleId) : Tree → RbTree Handle Ptr
  | .connecting => m.connectingSessions id
  | .connected => m.sessions id

def findSessionInRule (m : ContextTrees) (handle : Handle) (t : Tree) (id : RuleId) :
    Option (Option Ptr) :=
  (m.tree id t).rbtreeLookup compareUint64Ptr handle

def findSessionInContextWalk (m : ContextTrees) (handle : Handle) (t : Tree) :
    Nat → Option Addr → Option (Option Ptr)
  | _, none => some none
  | 0, some _ => none
  | fuel + 1, some a => do
    let n ← m.rules.deref a
    match ← findSessionInContextWalk m handle t fuel n.left with
    | some session => return some session
    | none =>
      match ← m.findSessionInRule handle t n.data with
      | some session => return some session
      | none => findSessionInContextWalk m handle t fuel n.right

def findSessionInContext (m : ContextTrees) (handle : Handle) (t : Tree) : Option (Option Ptr) :=
  m.findSessionInContextWalk handle t m.rules.fuel m.rules.root

/-- The trees in memory are the tables of a context. -/
structure Keeps (m : ContextTrees) (c : Context) : Prop where
  rules : ∃ T, RbTree.RedBlackTree compareName m.rules T ∧
    (bindings T.inorder).map (fun b => (b.1.val, b.2)) = c.rules.entries
  rule : ∀ e ∈ c.rules.entries, ∃ r, c.ruleAt e.2 = some r ∧
    ∀ t, (m.tree e.2 t).Keeps compareUint64Ptr (r.tree t)

variable {m : ContextTrees} {c : Context} {handle : Handle} {t : Tree}

/-- The walk finds the first session in the order of the nodes. -/
theorem findSessionInContextWalk_spec {g : RuleId → Option Ptr} {π : Trail (Cell CString RuleId)}
    {T : ColorTree (Cell CString RuleId)} {fuel : Nat} (h : m.rules.Represents (Trail.fill π T))
    (hg : ∀ e ∈ T.inorder, m.findSessionInRule handle t e.data = some (g e.data))
    (hfuel : T.inorder.length ≤ fuel) :
    m.findSessionInContextWalk handle t fuel (ptr T) =
      some (T.inorder.findSome? fun e => g e.data) := by
  induction T generalizing π fuel with
  | nil => cases fuel <;> rfl
  | node col l e r ihl ihr =>
    have hd : m.rules.deref e.addr = some (.of (above π) .left (ptr l) (ptr r) col e) :=
      RbTree.Represents.deref (d := .left) h
    rw [inorder] at hg ⊢
    rw [inorder, List.length_append, List.length_cons] at hfuel
    obtain ⟨fuel, rfl⟩ := Nat.exists_eq_add_one_of_ne_zero (show fuel ≠ 0 by omega)
    have hl : m.findSessionInContextWalk handle t fuel (ptr l) = _ :=
      ihl (π := ⟨.left, col, e, r⟩ :: π) h
        (fun x hx => hg x (List.mem_append_left _ hx)) (by omega)
    have hr : m.findSessionInContextWalk handle t fuel (ptr r) = _ :=
      ihr (π := ⟨.right, col, e, l⟩ :: π) h
        (fun x hx => hg x (List.mem_append_right _ (List.mem_cons_of_mem _ hx))) (by omega)
    have he := hg e (List.mem_append_right _ List.mem_cons_self)
    show m.findSessionInContextWalk handle t (fuel + 1) (some e.addr) = _
    rw [findSessionInContextWalk, hd]
    simp only [Option.bind_eq_bind, Option.bind_some, RbNode.of_data]
    rw [show (RbNode.of (above π) .left (ptr l) (ptr r) col e).left = ptr l from rfl,
      show (RbNode.of (above π) .left (ptr l) (ptr r) col e).right = ptr r from rfl, hl, he, hr,
      List.findSome?_append, List.findSome?_cons]
    cases l.inorder.findSome? fun e => g e.data with
    | some s => rfl
    | none =>
      cases g e.data with
      | some s => rfl
      | none => rfl

/-- **A session is found in memory as in the model**: the walk ends, reads no freed memory, and
gives the session of the first rule, in the order of the services, whose tree has the
handle. -/
theorem findSessionInContext_spec (h : m.Keeps c) (handle : Handle) (t : Tree) :
    m.findSessionInContext handle t = some (c.findSessionInContext handle t) := by
  obtain ⟨T, hT, hB⟩ := h.rules
  have hg : ∀ e ∈ T.inorder, m.findSessionInRule handle t e.data =
      some ((c.ruleAt e.data).bind fun r => (r.tree t).lookup handle) := by
    intro e he
    have hmem : (e.key.val, e.data) ∈ c.rules.entries := by
      rw [← hB]
      exact List.mem_map.mpr ⟨(e.key, e.data), List.mem_map.mpr ⟨e, he, rfl⟩, rfl⟩
    obtain ⟨r, hr, hkeeps⟩ := h.rule _ hmem
    have hstores := (RbTree.keeps_iff_stores compareUint64Ptr_keys).mp (hkeeps t)
    rw [hr, findSessionInRule]
    exact hstores.lookup compareUint64Ptr_keys.total handle
  have hwalk := findSessionInContextWalk_spec (π := [])
    (g := fun id => (c.ruleAt id).bind fun r => (r.tree t).lookup handle) hT.represents hg
    (Nat.le_of_lt hT.represents.fuel)
  unfold findSessionInContext Context.findSessionInContext
  rw [hT.represents.root, ← hB]
  unfold bindings
  rw [List.map_map, List.findSome?_map]
  exact hwalk

/-- The rule stored first has a session. -/
def oneSessionCalls : List (Call Handle Ptr) := [.insert 5 3 (some 1)]

def oneSessionMade : Calls Handle Ptr :=
  (exec (next compareUint64Ptr) {} oneSessionCalls).getD {}

theorem oneSessionMade_run : Run compareUint64Ptr oneSessionMade :=
  Reach.of_guarded (l := oneSessionCalls) rfl

def twoServices : ContextTrees where
  rules := servicesMade.tree
  sessions id := if id = 0 then oneSessionMade.tree else {}
  connectingSessions _ := {}

def twoServicesContext : Context :=
  ((({} : Context).addRule .server [98]).addRule .server [97]).setRule 0
    (some ((Context.newRule .server [98]).link .connected 5 3))

theorem twoServices_keeps : twoServices.Keeps twoServicesContext where
  rules := by
    obtain ⟨-, T, hT, hB⟩ := RbTree.run_keeps compareName_keys servicesMade_run
    exact ⟨T, hT, by rw [hB]; rfl⟩
  rule e he := by
    have hempty : RbTree.Keeps compareUint64Ptr ({} : RbTree Handle Ptr) Table.empty :=
      (RbTree.keeps_iff_stores compareUint64Ptr_keys).mpr RbTree.stores_init
    have hentries : twoServicesContext.rules.entries = [([97], 1), ([98], 0)] := rfl
    rw [hentries, List.mem_cons, List.mem_singleton] at he
    obtain rfl | rfl := he
    · refine ⟨_, rfl, fun t => ?_⟩
      cases t with
      | connecting => exact hempty
      | connected => exact hempty
    · refine ⟨_, rfl, fun t => ?_⟩
      cases t with
      | connecting => exact hempty
      | connected => exact (RbTree.run_keeps compareUint64Ptr_keys oneSessionMade_run).2

theorem findSessionInContext_second :
    twoServices.findSessionInContext 5 .connected = some (some 3) :=
  (findSessionInContext_spec twoServices_keeps 5 .connected).trans rfl

end ContextTrees
end T2u
