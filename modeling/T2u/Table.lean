import Mathlib.Data.List.Basic
import Mathlib.Data.List.Perm.Subperm
import Mathlib.Order.Basic

/-!
# Ordered tables

A finite map kept as a list of bindings in strictly increasing key order.  The
operations have the interface of a search tree that refuses duplicates: `insert`
leaves the table alone when the key is present, `erase` of an absent key does
nothing, and `update` rewrites the value stored under a key in place.
-/

/-- Bindings in strictly increasing key order. -/
structure Table (K V : Type) [Ord K] where
  entries : List (K × V)
  sorted : entries.Pairwise fun x y => compare x.1 y.1 = .lt

namespace Table
variable {K V : Type} [Ord K]

/-! ## On lists of bindings -/

def findEntry (k : K) : List (K × V) → Option V
  | [] => none
  | (k', v) :: l => if compare k k' = .eq then some v else findEntry k l

def insertEntry (k : K) (v : V) : List (K × V) → List (K × V)
  | [] => [(k, v)]
  | (k', v') :: l =>
    match compare k k' with
    | .lt => (k, v) :: (k', v') :: l
    | .eq => (k', v') :: l
    | .gt => (k', v') :: insertEntry k v l

def updateEntry (k : K) (f : V → V) : List (K × V) → List (K × V) :=
  List.map fun e => if compare k e.1 = .eq then (e.1, f e.2) else e

section Lists
variable [Std.TransOrd K] [Std.LawfulEqOrd K]

omit [Std.TransOrd K] [Std.LawfulEqOrd K] in
theorem mem_insertEntry {k : K} {v : V} {l : List (K × V)} {e : K × V}
    (h : e ∈ insertEntry k v l) : e = (k, v) ∨ e ∈ l := by
  induction l with
  | nil => exact Or.inl (List.mem_singleton.mp h)
  | cons x l ih =>
    obtain ⟨k', v'⟩ := x
    unfold insertEntry at h
    split at h
    · exact (List.mem_cons.mp h).imp_right id
    · exact Or.inr h
    · rcases List.mem_cons.mp h with rfl | h
      · exact Or.inr List.mem_cons_self
      · exact (ih h).imp_right (List.mem_cons_of_mem _)

omit [Std.LawfulEqOrd K] in
theorem insertEntry_sorted {k : K} {v : V} {l : List (K × V)}
    (h : l.Pairwise fun x y => compare x.1 y.1 = .lt) :
    (insertEntry k v l).Pairwise fun x y => compare x.1 y.1 = .lt := by
  induction l with
  | nil => exact List.pairwise_singleton _ _
  | cons x l ih =>
    obtain ⟨k', v'⟩ := x
    obtain ⟨hx, hl⟩ := List.pairwise_cons.mp h
    unfold insertEntry
    split
    · rename_i hlt
      refine List.pairwise_cons.mpr ⟨?_, h⟩
      intro e he
      rcases List.mem_cons.mp he with rfl | he
      · exact hlt
      · exact Std.TransCmp.lt_trans hlt (hx e he)
    · exact h
    · rename_i hgt
      refine List.pairwise_cons.mpr ⟨?_, ih hl⟩
      intro e he
      rcases mem_insertEntry he with rfl | he
      · exact Std.OrientedCmp.gt_iff_lt.mp hgt
      · exact hx e he

omit [Std.TransOrd K] [Std.LawfulEqOrd K] in
theorem updateEntry_sorted {k : K} {f : V → V} {l : List (K × V)}
    (h : l.Pairwise fun x y => compare x.1 y.1 = .lt) :
    (updateEntry k f l).Pairwise fun x y => compare x.1 y.1 = .lt := by
  refine List.pairwise_map.mpr (h.imp ?_)
  intro x y hxy
  split <;> split <;> exact hxy

omit [Std.TransOrd K] in
theorem findEntry_eq_some {k : K} {v : V} {l : List (K × V)}
    (hl : l.Pairwise fun x y => compare x.1 y.1 = .lt) :
    findEntry k l = some v ↔ (k, v) ∈ l := by
  induction l with
  | nil => simp [findEntry]
  | cons x l ih =>
    obtain ⟨k', v'⟩ := x
    obtain ⟨hx, hl⟩ := List.pairwise_cons.mp hl
    unfold findEntry
    split
    · rename_i he
      obtain rfl := Std.LawfulEqCmp.eq_of_compare he
      constructor
      · intro h
        cases h
        exact List.mem_cons_self
      · intro h
        rcases List.mem_cons.mp h with h | h
        · cases h
          rfl
        · exact absurd ((hx _ h).symm.trans Std.ReflCmp.compare_self) (by decide)
    · rename_i hne
      rw [ih hl]
      constructor
      · exact List.mem_cons_of_mem _
      · intro h
        rcases List.mem_cons.mp h with h | h
        · cases h
          exact absurd Std.ReflCmp.compare_self hne
        · exact h

end Lists

/-! ## Tables -/

def empty : Table K V := ⟨[], List.Pairwise.nil⟩

instance : Inhabited (Table K V) := ⟨empty⟩

def lookup (t : Table K V) (k : K) : Option V := findEntry k t.entries

def isEmpty (t : Table K V) : Bool := t.entries.isEmpty

def size (t : Table K V) : Nat := t.entries.length

/-- Adds a binding; a present key keeps the binding it has. -/
def insert [Std.TransOrd K] (t : Table K V) (k : K) (v : V) : Table K V :=
  ⟨insertEntry k v t.entries, insertEntry_sorted t.sorted⟩

/-- Removes a key's binding, if it has one. -/
def erase (t : Table K V) (k : K) : Table K V :=
  ⟨t.entries.filter fun e => compare k e.1 ≠ .eq, t.sorted.filter _⟩

/-- Rewrites the value stored under a key. -/
def update (t : Table K V) (k : K) (f : V → V) : Table K V :=
  ⟨updateEntry k f t.entries, updateEntry_sorted t.sorted⟩

/-- Every binding satisfies `P`. -/
def All (t : Table K V) (P : K → V → Prop) : Prop := ∀ k v, t.lookup k = some v → P k v

theorem all_empty (P : K → V → Prop) : (empty : Table K V).All P := by
  intro k v h
  cases h

theorem All.imp {t : Table K V} {P Q : K → V → Prop} (h : t.All P)
    (hPQ : ∀ k v, P k v → Q k v) : t.All Q :=
  fun k v hv => hPQ k v (h k v hv)

@[simp] theorem lookup_empty (k : K) : (empty : Table K V).lookup k = none := rfl

@[simp] theorem isEmpty_empty : (empty : Table K V).isEmpty = true := rfl

theorem isEmpty_of_entries {t : Table K V} (h : t.entries = []) : t.isEmpty = true :=
  List.isEmpty_iff.mpr h

variable (t : Table K V)

/-! ## Updating in place -/

theorem lookup_update_self (k : K) (f : V → V) :
    (t.update k f).lookup k = (t.lookup k).map f := by
  suffices key : ∀ l : List (K × V), findEntry k (updateEntry k f l) = (findEntry k l).map f from
    key _
  intro l
  induction l with
  | nil => rfl
  | cons x l ih =>
    unfold updateEntry at ih ⊢
    rw [List.map_cons]
    by_cases h : compare k x.1 = .eq
    · simp [findEntry, h]
    · simp [findEntry, h, ih]

theorem isEmpty_update (k : K) (f : V → V) : (t.update k f).isEmpty = t.isEmpty := by
  simp [isEmpty, update, updateEntry]

@[simp] theorem size_update (k : K) (f : V → V) : (t.update k f).size = t.size := by
  simp [size, update, updateEntry]

/-! ## Looking up and erasing -/

section Lookup
variable [Std.LawfulEqOrd K]

theorem lookup_eq_some {k : K} {v : V} : t.lookup k = some v ↔ (k, v) ∈ t.entries :=
  findEntry_eq_some t.sorted

theorem isEmpty_iff : t.isEmpty = true ↔ ∀ k, t.lookup k = none := by
  constructor
  · intro h k
    have : t.entries = [] := List.isEmpty_iff.mp h
    simp [lookup, this, findEntry]
  · intro h
    refine List.isEmpty_iff.mpr (List.eq_nil_iff_forall_not_mem.mpr ?_)
    rintro ⟨k, v⟩ he
    have := (t.lookup_eq_some).mpr he
    rw [h k] at this
    cases this

theorem not_isEmpty_of_lookup {k : K} {v : V} (h : t.lookup k = some v) : t.isEmpty = false := by
  rw [Bool.eq_false_iff]
  intro he
  rw [(t.isEmpty_iff.mp he) k] at h
  cases h

theorem lookup_ext {t u : Table K V} {k k' : K}
    (h : ∀ v, (k, v) ∈ t.entries ↔ (k', v) ∈ u.entries) : t.lookup k = u.lookup k' := by
  refine Option.ext fun v => ?_
  rw [lookup_eq_some, lookup_eq_some, h]

theorem lookup_update_of_ne {k k' : K} (f : V → V) (h : k' ≠ k) :
    (t.update k f).lookup k' = t.lookup k' := by
  suffices key : ∀ l : List (K × V), findEntry k' (updateEntry k f l) = findEntry k' l from key _
  intro l
  induction l with
  | nil => rfl
  | cons x l ih =>
    unfold updateEntry at ih ⊢
    rw [List.map_cons]
    by_cases hx : compare k x.1 = .eq
    · have hne : ¬ compare k' x.1 = .eq := fun he =>
        h ((Std.LawfulEqCmp.eq_of_compare he).trans (Std.LawfulEqCmp.eq_of_compare hx).symm)
      rw [if_pos hx, findEntry, if_neg hne, findEntry, if_neg hne, ih]
    · rw [if_neg hx, findEntry, findEntry, ih]

theorem mem_erase {k : K} {e : K × V} :
    e ∈ (t.erase k).entries ↔ e ∈ t.entries ∧ k ≠ e.1 := by
  rw [erase, List.mem_filter, decide_eq_true_iff, ne_eq, Std.LawfulEqCmp.compare_eq_iff_eq]

@[simp] theorem lookup_erase_self (k : K) : (t.erase k).lookup k = none := by
  refine Option.eq_none_iff_forall_not_mem.mpr fun v hv => ?_
  exact (t.mem_erase.mp ((lookup_eq_some _).mp hv)).2 rfl

theorem lookup_erase_of_ne {k k' : K} (h : k' ≠ k) : (t.erase k).lookup k' = t.lookup k' := by
  refine lookup_ext fun v => ?_
  rw [t.mem_erase]
  exact ⟨And.left, fun he => ⟨he, h.symm⟩⟩

theorem lookup_erase (k k' : K) [DecidableEq K] :
    (t.erase k).lookup k' = if k' = k then none else t.lookup k' := by
  split
  · rename_i h
    rw [h, lookup_erase_self]
  · rename_i h
    exact t.lookup_erase_of_ne h

theorem lookup_of_lookup_erase {k k' : K} {v : V} (h : (t.erase k).lookup k' = some v) :
    t.lookup k' = some v ∧ k' ≠ k := by
  by_cases hk : k' = k
  · rw [hk, lookup_erase_self] at h
    cases h
  · exact ⟨(t.lookup_erase_of_ne hk) ▸ h, hk⟩

theorem size_erase {k : K} {v : V} (h : t.lookup k = some v) :
    (t.erase k).size + 1 = t.size := by
  obtain ⟨l, l', he⟩ := List.append_of_mem (t.lookup_eq_some.mp h)
  have hs := t.sorted
  rw [he] at hs
  obtain ⟨-, h', hl⟩ := List.pairwise_append.mp hs
  have hleft : ∀ e ∈ l, decide (compare k e.1 ≠ .eq) = true := by
    intro e hm
    refine decide_eq_true fun hc => ?_
    have hlt : compare e.1 k = .lt := hl e hm (k, v) List.mem_cons_self
    rw [← Std.LawfulEqCmp.eq_of_compare hc] at hlt
    exact nomatch hlt.symm.trans Std.ReflCmp.compare_self
  have hright : ∀ e ∈ l', decide (compare k e.1 ≠ .eq) = true := by
    intro e hm
    refine decide_eq_true fun hc => ?_
    rw [(List.pairwise_cons.mp h').1 e hm] at hc
    cases hc
  show (t.entries.filter _).length + 1 = t.entries.length
  rw [he, List.filter_append, List.filter_cons_of_neg (by simp [Std.ReflCmp.compare_self]),
    List.filter_eq_self.mpr hleft, List.filter_eq_self.mpr hright]
  simp only [List.length_append, List.length_cons]
  omega

/-- A table has room for all the keys it binds. -/
theorem length_le_size {ks : List K} (hn : ks.Nodup) (h : ∀ k ∈ ks, ∃ v, t.lookup k = some v) :
    ks.length ≤ t.size := by
  have hsub : ks ⊆ t.entries.map Prod.fst := by
    intro k hk
    obtain ⟨v, hv⟩ := h k hk
    exact List.mem_map.mpr ⟨(k, v), t.lookup_eq_some.mp hv, rfl⟩
  have hle := (hn.subperm hsub).length_le
  rw [List.length_map] at hle
  exact hle

theorem All.erase {t : Table K V} {P : K → V → Prop} (h : t.All P) (k : K) : (t.erase k).All P := by
  intro k' v hv
  by_cases hk : k' = k
  · rw [hk, lookup_erase_self] at hv
    cases hv
  · rw [t.lookup_erase_of_ne hk] at hv
    exact h k' v hv

theorem All.update {t : Table K V} {P : K → V → Prop} (h : t.All P) {k : K} {f : V → V}
    (hf : ∀ v, t.lookup k = some v → P k (f v)) : (t.update k f).All P := by
  intro k' v hv
  by_cases hk : k' = k
  · subst hk
    rw [lookup_update_self] at hv
    obtain ⟨w, hw, rfl⟩ := Option.map_eq_some_iff.mp hv
    exact hf w hw
  · rw [t.lookup_update_of_ne f hk] at hv
    exact h k' v hv

end Lookup

/-! ## Inserting -/

theorem mem_insertEntry_of_absent {k : K} {v : V} {l : List (K × V)} (e : K × V)
    (h : findEntry k l = none) : e ∈ insertEntry k v l ↔ e = (k, v) ∨ e ∈ l := by
  refine ⟨mem_insertEntry, ?_⟩
  induction l with
  | nil => exact fun he => List.mem_singleton.mpr (he.resolve_right (List.not_mem_nil))
  | cons x l ih =>
    obtain ⟨k', v'⟩ := x
    unfold findEntry at h
    split at h
    · cases h
    · rename_i hne
      intro he
      unfold insertEntry
      split
      · exact List.mem_cons.mpr he
      · rename_i heq
        exact absurd heq hne
      · rcases he with he | he
        · exact List.mem_cons_of_mem _ (ih h (Or.inl he))
        · rcases List.mem_cons.mp he with rfl | he
          · exact List.mem_cons_self
          · exact List.mem_cons_of_mem _ (ih h (Or.inr he))

theorem length_insertEntry {k : K} {v : V} {l : List (K × V)} (h : findEntry k l = none) :
    (insertEntry k v l).length = l.length + 1 := by
  induction l with
  | nil => rfl
  | cons x l ih =>
    obtain ⟨k', v'⟩ := x
    unfold findEntry at h
    split at h
    · cases h
    · rename_i hne
      unfold insertEntry
      split
      · rfl
      · rename_i heq
        exact absurd heq hne
      · rw [List.length_cons, ih h, List.length_cons]

theorem size_insert [Std.TransOrd K] {k : K} {v : V} (h : t.lookup k = none) :
    (t.insert k v).size = t.size + 1 :=
  length_insertEntry h

section Insert
variable [Std.TransOrd K] [Std.LawfulEqOrd K]

theorem insertEntry_of_present {k : K} {v v' : V} {l : List (K × V)}
    (hl : l.Pairwise fun x y => compare x.1 y.1 = .lt) (h : findEntry k l = some v') :
    insertEntry k v l = l := by
  induction l with
  | nil => cases h
  | cons x l ih =>
    obtain ⟨k', w⟩ := x
    obtain ⟨hx, hl⟩ := List.pairwise_cons.mp hl
    unfold findEntry at h
    unfold insertEntry
    split at h
    · rename_i he
      rw [he]
    · rename_i hne
      have hlt : compare k' k = .lt := hx _ ((findEntry_eq_some hl).mp h)
      rw [Std.OrientedCmp.gt_iff_lt.mpr hlt, ih hl h]

/-- Inserting a present key changes nothing. -/
theorem insert_of_present {k : K} {v v' : V} (h : t.lookup k = some v') : t.insert k v = t := by
  cases t with
  | mk entries sorted =>
    unfold insert
    congr 1
    exact insertEntry_of_present sorted h

theorem lookup_insert_self {k : K} {v : V} (h : t.lookup k = none) :
    (t.insert k v).lookup k = some v :=
  (lookup_eq_some _).mpr ((mem_insertEntry_of_absent _ h).mpr (Or.inl rfl))

theorem lookup_insert_of_ne {k k' : K} {v : V} (h : k' ≠ k) :
    (t.insert k v).lookup k' = t.lookup k' := by
  cases hk : t.lookup k with
  | some w => rw [t.insert_of_present hk]
  | none =>
    refine lookup_ext fun w => ?_
    rw [show (k', w) ∈ (t.insert k v).entries ↔ _ from mem_insertEntry_of_absent _ hk]
    constructor
    · intro he
      rcases he with he | he
      · exact absurd (congrArg Prod.fst he) h
      · exact he
    · exact Or.inr

theorem lookup_of_lookup_insert {k k' : K} {v w : V} (h : (t.insert k v).lookup k' = some w) :
    t.lookup k' = some w ∨ (k' = k ∧ w = v) := by
  by_cases hk : k' = k
  · subst hk
    cases hl : t.lookup k' with
    | some u =>
      rw [t.insert_of_present hl, hl] at h
      exact Or.inl h
    | none =>
      rw [t.lookup_insert_self hl] at h
      exact Or.inr ⟨rfl, (Option.some.inj h).symm⟩
  · rw [t.lookup_insert_of_ne hk] at h
    exact Or.inl h

theorem All.insert {t : Table K V} {P : K → V → Prop} (h : t.All P) {k : K} {v : V} (hv : P k v) :
    (t.insert k v).All P := by
  intro k' w hw
  rcases t.lookup_of_lookup_insert hw with hw | ⟨rfl, rfl⟩
  · exact h k' w hw
  · exact hv

end Insert
end Table
