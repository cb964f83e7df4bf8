import T2u.RbRecorded

/-!
# The tree operations take nothing for granted

A call returns only where all that it relies on is there (`callRecorded_sound`), which is
read off its steps; and in a red-black tree every call returns.  So no call meets a missing
grandparent, pivot or sibling, equal keys or a failed assertion (`rbtree_safe`).

A red sibling is rotated up below a red parent, so the repair ends at that level: after a
red sibling neither `delete_case1` nor the red-sibling case is entered again.
-/

namespace T2u
open RedBlack RedBlack.ColorTree Recorded Machine
open RedBlack.Trail (fill)

namespace RbTree
variable {K V : Type} {compare : K → K → Int} {t : RbTree K V} {node parent grandpa : Addr}
  {d : Dir} {c : Color}

/-- An entry made within one level of the repair. -/
def Note.Quiet (e : Note) : Prop := e.goesOn = false

/-! ## A result shows that all of it holds -/

theorem sibling_sound (s : Option Addr) :
    Sound Note.Quiet Note.Holds (check (.sibling s) s) :=
  sound_check rfl fun ho => Option.isSome_iff_ne_none.mp ho

theorem setColor_sound (s : Option Addr) :
    Sound Note.Quiet Note.Holds (check (.sibling s) (t.setColor c s)) := by
  refine sound_check rfl fun ho hs => ?_
  rw [hs] at ho
  cases ho

theorem rotateRecorded_sound : Sound Note.Quiet Note.Holds (rotateRecorded d t node) := by
  refine sound_after fun p hp => sound_check rfl fun ho hnone => ?_
  have hrotate : rotate d t node = none := by
    unfold rotate
    rw [hp]
    simp only [Option.bind_eq_bind, Option.bind_some]
    rw [hnone]
    rfl
  rw [hrotate] at ho
  cases ho

theorem setChildRecorded_sound (child : Addr) :
    Sound Note.Quiet Note.Holds (setChildRecorded compare t node child) := by
  refine sound_after fun n hn => sound_after fun c hc => sound_check rfl fun ho hzero => ?_
  have hset : setChild compare t node child = none := by
    unfold setChild
    rw [hn, hc]
    simp only [Option.bind_eq_bind, Option.bind_some]
    exact if_pos hzero
  rw [hset] at ho
  cases ho

theorem turnOutRecorded_sound :
    Sound Note.Quiet Note.Holds (turnOutRecorded d t node parent) := by
  refine sound_after fun p _ => sound_ite (fun _ => ?_) fun _ => sound_pure _
  refine rotateRecorded_sound.bind fun t _ => ?_
  exact sound_after fun n _ => sound_after fun above _ => sound_pure _

theorem insertTurnRecorded_sound :
    Sound Note.Quiet Note.Holds (insertTurnRecorded d t node parent grandpa) := by
  refine sound_after fun g _ => sound_after fun c _ => sound_ite (fun _ => ?_) fun _ => ?_
  · exact sound_after fun t _ => sound_after fun t _ => sound_after fun t _ => sound_pure _
  · refine turnOutRecorded_sound.bind fun ⟨t, node, parent⟩ _ => ?_
    refine sound_after fun t _ => sound_after fun t _ => ?_
    exact rotateRecorded_sound.bind fun t _ => sound_pure _

theorem insertFixRecorded_sound (fuel : Nat) (t : RbTree K V) (node : Addr) :
    Sound Note.Quiet Note.Holds (insertFixRecorded fuel t node) := by
  induction fuel generalizing t node with
  | zero => exact sound_lift none
  | succ fuel ih =>
    refine sound_after fun n _ => ?_
    cases n.parent with
    | none => exact sound_pure _
    | some parent =>
      -- below a red parent, the source takes the grandparent unchecked
      refine sound_after fun p _ => sound_ite (fun _ => ?_) fun _ => sound_pure _
      refine Sound.bind (sound_check rfl fun ho => ?_) fun grandpa _ => ?_
      · exact Option.isSome_iff_ne_none.mp ho
      · refine sound_after fun g _ => insertTurnRecorded_sound.bind fun ⟨t, node⟩ _ => ?_
        exact ih t node

theorem linkNewRecorded_sound (parent : Option Addr) :
    Sound Note.Quiet Note.Holds (linkNewRecorded compare t node parent) := by
  cases parent with
  | none => exact sound_pure _
  | some parent => exact setChildRecorded_sound node

theorem insertNodeRecorded_sound :
    Sound Note.Quiet Note.Holds (insertNodeRecorded compare t node) := by
  refine sound_after fun n _ => sound_after fun ⟨samenode, parent⟩ _ => ?_
  cases samenode with
  | some same => exact sound_pure _
  | none =>
    refine sound_after fun t _ => (linkNewRecorded_sound parent).bind fun t _ => ?_
    refine (insertFixRecorded_sound t.fuel t node).bind fun t _ => ?_
    exact sound_after fun t _ => sound_pure _

theorem rbtreeInsertRecorded_sound (key : K) (data : V) (malloc : Option Addr) :
    Sound Note.Quiet Note.Holds (rbtreeInsertRecorded compare t key data malloc) := by
  cases malloc with
  | none => exact sound_pure _
  | some node => exact insertNodeRecorded_sound.bind fun ⟨samenode, t⟩ _ => sound_pure _

theorem siblingBlackRecorded_sound :
    Sound Note.Quiet Note.Holds (siblingBlackRecorded t node) := by
  refine sound_after fun s _ => sound_after fun c _ => sound_ite (fun _ => ?_) fun _ => sound_pure _
  refine (sibling_sound s).bind fun s _ => ?_
  exact sound_after fun sn _ => sound_after fun right _ => sound_after fun left _ => sound_pure _

theorem deleteCase6Recorded_sound :
    Sound Note.Quiet Note.Holds (deleteCase6Recorded t node) := by
  refine sound_after fun n _ => sound_after fun parent _ => sound_after fun p _ => ?_
  refine sound_after fun s _ => (setColor_sound s).bind fun t _ => ?_
  refine sound_after fun t _ => sound_after fun s _ => sound_after fun sn _ => ?_
  refine sound_after fun c _ => sound_ite (fun _ => ?_) fun _ => ?_
  · refine Sound.bind (sound_check rfl fun _ => ?_) fun t _ => rotateRecorded_sound
    rfl
  · refine sound_check rfl fun ho => ?_
    cases ho

theorem deleteCase5Recorded_sound :
    Sound Note.Quiet Note.Holds (deleteCase5Recorded t node) := by
  refine sound_after fun n _ => sound_after fun parent _ => sound_after fun p _ => ?_
  refine sound_after fun s _ => sound_after fun c _ => ?_
  refine sound_ite (fun _ => ?_) fun _ => deleteCase6Recorded_sound
  refine (sibling_sound s).bind fun s _ => ?_
  refine sound_after fun sn _ => sound_after fun near _ => sound_after fun far _ => ?_
  refine sound_ite (fun _ => ?_) fun _ => deleteCase6Recorded_sound
  refine sound_after fun t _ => sound_after fun t _ => ?_
  exact rotateRecorded_sound.bind fun t _ => deleteCase6Recorded_sound

theorem deleteCase4Recorded_sound :
    Sound Note.Quiet Note.Holds (deleteCase4Recorded t node) := by
  refine sound_after fun n _ => sound_after fun c _ => ?_
  refine sound_ite (fun _ => ?_) fun _ => deleteCase5Recorded_sound
  refine siblingBlackRecorded_sound.bind fun black _ => ?_
  refine sound_ite (fun _ => ?_) fun _ => deleteCase5Recorded_sound
  exact sound_after fun s _ => (setColor_sound s).bind fun t _ => sound_lift _

theorem Quiet.loud {α : Type} {x : Recorded Note α} (h : Sound Note.Quiet Note.Holds x) :
    Sound (fun _ => True) Note.Holds x :=
  h.imp (fun _ _ => trivial) fun _ hi => hi

section Case1
variable {case1 : RbTree K V → Addr → Recorded Note (RbTree K V)}

theorem deleteCase3Recorded_sound
    (h : ∀ t node, Sound (fun _ => True) Note.Holds (case1 t node)) :
    Sound (fun _ => True) Note.Holds (deleteCase3Recorded case1 t node) := by
  refine sound_after fun n _ => sound_after fun parent _ => sound_after fun p _ => ?_
  refine sound_ite (fun _ => ?_) fun _ => Quiet.loud deleteCase4Recorded_sound
  refine (Quiet.loud siblingBlackRecorded_sound).bind fun black _ => ?_
  refine sound_ite (fun _ => ?_) fun _ => Quiet.loud deleteCase4Recorded_sound
  exact sound_after fun s _ => (Quiet.loud (setColor_sound s)).bind fun t _ => h t parent

theorem deleteCase2Recorded_sound
    (h : ∀ t node, Sound (fun _ => True) Note.Holds (case1 t node)) :
    Sound (fun _ => True) Note.Holds (deleteCase2Recorded case1 t node) := by
  refine sound_after fun s _ => sound_after fun c _ => ?_
  refine sound_ite (fun _ => ?_) fun _ => deleteCase3Recorded_sound h
  refine Sound.bind (sound_note trivial trivial) fun _ _ => sound_after fun n _ => ?_
  refine sound_after fun parent _ => sound_after fun t _ => ?_
  refine (Quiet.loud (setColor_sound s)).bind fun t _ => sound_after fun p _ => ?_
  exact (Quiet.loud rotateRecorded_sound).bind fun t _ => deleteCase3Recorded_sound h

end Case1

theorem deleteCase1Recorded_sound (fuel : Nat) (t : RbTree K V) (node : Addr) :
    Sound (fun _ => True) Note.Holds (deleteCase1Recorded fuel t node) := by
  induction fuel generalizing t node with
  | zero => exact sound_lift none
  | succ fuel ih =>
    refine Sound.bind (sound_note trivial trivial) fun _ _ => sound_after fun n _ => ?_
    cases n.parent with
    | none => exact sound_pure _
    | some parent => exact deleteCase2Recorded_sound ih

theorem unlinkNodeRecorded_sound :
    Sound (fun _ => True) Note.Holds (unlinkNodeRecorded t node) := by
  refine sound_after fun n _ => sound_ite (fun _ => ?_) fun _ => ?_
  · refine Sound.bind (sound_note trivial rfl) fun _ _ => ?_
    refine Sound.bind ?_ fun t _ => sound_after fun t _ => sound_after fun n _ => ?_
    · refine sound_ite (fun _ => ?_) fun _ => sound_pure _
      refine sound_after fun color _ => sound_after fun t _ => ?_
      exact deleteCase1Recorded_sound t.fuel t node
    · exact sound_after fun t _ => sound_pure _
  · refine sound_check trivial fun ho => ?_
    cases ho

theorem removeNodeRecorded_sound :
    Sound (fun _ => True) Note.Holds (removeNodeRecorded t node) := by
  refine sound_after fun n _ => ?_
  cases n.left with
  | none => exact unlinkNodeRecorded_sound
  | some left =>
    cases n.right with
    | none => exact unlinkNodeRecorded_sound
    | some right =>
      refine sound_after fun next _ => sound_after fun m _ => ?_
      exact sound_after fun t _ => unlinkNodeRecorded_sound

theorem rbtreeRemoveRecorded_sound (key : K) :
    Sound (fun _ => True) Note.Holds (rbtreeRemoveRecorded compare t key) := by
  refine sound_after fun found _ => ?_
  cases found.1 with
  | none => exact sound_pure _
  | some node => exact removeNodeRecorded_sound.bind fun t _ => sound_pure _

/-- **A call that returns relies on nothing that is not there.** -/
theorem callRecorded_sound (c : Call K V) :
    Sound (fun _ => True) Note.Holds (callRecorded compare t c) := by
  cases c with
  | insert key data malloc =>
    exact (Quiet.loud (rbtreeInsertRecorded_sound key data malloc)).bind fun r _ => sound_pure _
  | remove key => exact (rbtreeRemoveRecorded_sound key).bind fun r _ => sound_pure _
  | lookup key => exact sound_after fun v _ => sound_pure _

/-! ## A red sibling ends the repair -/

/-- After a red sibling, neither `delete_case1` nor the red-sibling case is entered. -/
def RedSiblingLast (l : List Note) : Prop :=
  l.Pairwise fun e e' => e.isRedSibling = true → e'.goesOn = false

theorem Note.Quiet.not_red {e : Note} (h : e.Quiet) : e.isRedSibling = false := by
  cases e with
  | redSibling node => cases h
  | _ => rfl

theorem redSiblingLast_of_quiet {l : List Note} (h : ∀ e ∈ l, e.Quiet) : RedSiblingLast l :=
  List.pairwise_of_forall_mem_list fun _ _ e' he' _ => h e' he'

/-- A red sibling comes up once at most. -/
theorem RedSiblingLast.once {l : List Note} (h : RedSiblingLast l) :
    l.countP Note.isRedSibling ≤ 1 := by
  induction l with
  | nil => exact Nat.zero_le 1
  | cons e l ih =>
    obtain ⟨hfirst, hrest⟩ := List.pairwise_cons.mp h
    cases hred : e.isRedSibling with
    | false =>
      rw [List.countP_cons_of_neg (by rw [hred]; exact Bool.false_ne_true)]
      exact ih hrest
    | true =>
      -- all that follows a red sibling is quiet
      have hnone : l.countP Note.isRedSibling = 0 := by
        refine List.countP_eq_zero.mpr fun e' he' hred' => ?_
        have hquiet : e'.Quiet := hfirst e' he' hred
        exact Bool.false_ne_true (hquiet.not_red.symm.trans hred')
      exact Nat.le_of_eq ((List.countP_cons_of_pos hred).trans (congrArg (· + 1) hnone))

section Bind
variable {α β : Type} {x : Recorded Note α} {f : α → Recorded Note β} {o : Option α}

theorem redSiblingLast_bind (hx : ∀ e ∈ x.log, e.isRedSibling = false)
    (hf : ∀ a, x.result = some a → RedSiblingLast (f a).log) : RedSiblingLast (x >>= f).log := by
  have hlast : RedSiblingLast x.log := by
    refine List.pairwise_of_forall_mem_list fun e he e' _ hred => ?_
    exact absurd ((hx e he).symm.trans hred) Bool.false_ne_true
  cases hr : x.result with
  | none =>
    obtain ⟨result, log⟩ := x
    subst hr
    exact hlast
  | some a =>
    rw [log_bind hr]
    refine List.pairwise_append.mpr ⟨hlast, hf a hr, fun e he e' _ hred => ?_⟩
    exact absurd ((hx e he).symm.trans hred) Bool.false_ne_true

theorem redSiblingLast_after (hf : ∀ a, o = some a → RedSiblingLast (f a).log) :
    RedSiblingLast ((liftM o : Recorded Note α) >>= f).log :=
  redSiblingLast_bind (fun _ he => nomatch he) hf

theorem RedSiblingLast.bind (hx : RedSiblingLast x.log) (hf : ∀ a, ∀ e ∈ (f a).log, e.Quiet) :
    RedSiblingLast (x >>= f).log := by
  cases hr : x.result with
  | none =>
    obtain ⟨result, log⟩ := x
    subst hr
    exact hx
  | some a =>
    rw [log_bind hr]
    exact List.pairwise_append.mpr
      ⟨hx, redSiblingLast_of_quiet (hf a), fun e _ e' he' _ => hf a e' he'⟩

end Bind

/-! ## The cases -/

variable {π : Trail (Cell K V)} {X s T : ColorTree (Cell K V)} {ep : Cell K V} {a : Addr}

section Case1
variable {case1 : RbTree K V → Addr → Recorded Note (RbTree K V)}

theorem deleteCase4Recorded_last : RedSiblingLast (deleteCase4Recorded t node).log :=
  redSiblingLast_of_quiet deleteCase4Recorded_sound.always

/-- Below a red parent the repair ends. -/
theorem deleteCase3Recorded_red (h : t.Represents (fill (⟨d, .red, ep, s⟩ :: π) X))
    (ha : ptr X = some a) : deleteCase3Recorded case1 t a = deleteCase4Recorded t a := by
  obtain ⟨⟨b, hb, hp⟩, ⟨p, hparent, -⟩, -⟩ := h.place ha
  unfold deleteCase3Recorded
  rw [hb, lift_some_bind, hp, lift_some_bind, hparent, lift_some_bind, RbNode.of_color]
  exact if_neg Color.noConfusion

theorem deleteCase3Recorded_last (h : t.Represents (fill (⟨d, c, ep, s⟩ :: π) X))
    (ha : ptr X = some a)
    (hcase1 : ∀ t' Y, t'.Represents (fill π Y) → ptr Y = some ep.addr →
      RedSiblingLast (case1 t' ep.addr).log) :
    RedSiblingLast (deleteCase3Recorded case1 t a).log := by
  cases c with
  | red =>
    rw [deleteCase3Recorded_red h ha]
    exact deleteCase4Recorded_last
  | black =>
    obtain ⟨⟨b, hb, hp⟩, ⟨p, hparent, -⟩, hsib⟩ := h.place ha
    unfold deleteCase3Recorded
    rw [hb, lift_some_bind, hp, lift_some_bind, hparent, lift_some_bind, RbNode.of_color,
      if_pos rfl]
    refine redSiblingLast_bind (fun e he => (siblingBlackRecorded_sound.always e he).not_red)
      fun black _ => ?_
    by_cases hblack : black = true
    · -- the family is black: the next level is the parent's
      rw [if_pos hblack, hsib, lift_some_bind]
      refine redSiblingLast_bind (fun e he => ((setColor_sound _).always e he).not_red)
        fun t' ht' => ?_
      rw [result_check] at ht'
      obtain ⟨b, hs⟩ : ∃ b, ptr s = some b := by
        cases hs : ptr s with
        | none =>
          rw [hs] at ht'
          cases ht'
        | some b => exact ⟨b, rfl⟩
      obtain ⟨t₁, hm₁, h₁⟩ := h.paint_sibling hs .red
      rw [hs, hm₁] at ht'
      obtain rfl := Option.some.inj ht'
      exact hcase1 t₁ _ h₁ (ptr_join _ _ _ _ _)
    · rw [if_neg hblack]
      exact deleteCase4Recorded_last

theorem deleteCase2Recorded_last (h : t.Represents (fill (⟨d, c, ep, s⟩ :: π) X))
    (ha : ptr X = some a)
    (hcase1 : ∀ t' Y, t'.Represents (fill π Y) → ptr Y = some ep.addr →
      RedSiblingLast (case1 t' ep.addr).log) :
    RedSiblingLast (deleteCase2Recorded case1 t a).log := by
  obtain ⟨⟨b, hb, hp⟩, -, hsib⟩ := h.place ha
  unfold deleteCase2Recorded
  rw [hsib, lift_some_bind, h.sibling_color, lift_some_bind]
  cases hs : s.color with
  | black =>
    rw [if_neg Color.noConfusion]
    exact deleteCase3Recorded_last h ha hcase1
  | red =>
    -- the parent is red from here on, so the rest stays at this level
    obtain ⟨cs, near, es, far, rfl⟩ := exists_join d (ne_nil_of_color_red hs)
    rw [color_join] at hs
    subst hs
    obtain ⟨t₁, t₂, q, t₃, hm₁, hm₂, hparent, hm₃, h₃⟩ := raise_spec h ha
    rw [if_pos rfl, ptr_join]
    refine RedSiblingLast.bind (List.pairwise_singleton _ _) fun _ => ?_
    refine Sound.always (Q := Note.Holds) ?_
    rw [hb, lift_some_bind, hp, lift_some_bind, hm₁, lift_some_bind]
    refine (setColor_sound _).bind fun t' ht' => ?_
    rw [result_check, hm₂] at ht'
    obtain rfl := Option.some.inj ht'
    rw [hparent, lift_some_bind]
    refine rotateRecorded_sound.bind fun t' ht' => ?_
    rw [rotateRecorded_result, hm₃] at ht'
    obtain rfl := Option.some.inj ht'
    rw [deleteCase3Recorded_red h₃ ha]
    exact deleteCase4Recorded_sound

end Case1

theorem deleteCase1Recorded_last {fuel : Nat} (h : t.Represents (fill π X)) (ha : ptr X = some a) :
    RedSiblingLast (deleteCase1Recorded fuel t a).log := by
  induction fuel generalizing t π X a with
  | zero => exact List.Pairwise.nil
  | succ fuel ih =>
    -- entering a level is no red sibling, and the next level has a shorter path
    obtain ⟨b, hb, hp⟩ := h.deref_some ha
    refine redSiblingLast_bind (fun e he => ?_) fun _ _ => ?_
    · rw [List.mem_singleton.mp he]
      rfl
    · rw [hb, lift_some_bind, hp]
      cases π with
      | nil => exact List.Pairwise.nil
      | cons g π =>
        obtain ⟨d, c, ep, s⟩ := g
        exact deleteCase2Recorded_last h ha fun t' Y hY hptr => ih hY hptr

theorem unlinkNodeRecorded_last (h : t.Represents (fill π X)) (ha : ptr X = some a) :
    RedSiblingLast (unlinkNodeRecorded t a).log := by
  refine redSiblingLast_after fun n _ => ?_
  split
  · refine redSiblingLast_bind (fun e he => ?_) fun _ _ => ?_
    · rw [List.mem_singleton.mp he]
      rfl
    · refine RedSiblingLast.bind ?_ fun t' => ?_
      · unfold rebalanceRecorded
        split
        · refine redSiblingLast_after fun color _ => redSiblingLast_after fun t' ht' => ?_
          obtain ⟨t₁, hm₁, h₁⟩ := h.setColor ha color
          rw [hm₁] at ht'
          obtain rfl := Option.some.inj ht'
          exact deleteCase1Recorded_last h₁ ((ptr_paint color X).trans ha)
        · exact List.Pairwise.nil
      · refine Sound.always (Q := Note.Holds) ?_
        refine sound_after fun t _ => sound_after fun n _ => ?_
        exact sound_after fun t _ => sound_pure _
  · refine redSiblingLast_of_quiet fun e he => ?_
    rw [List.mem_singleton.mp he]
    rfl

theorem removeNodeRecorded_last {l r : ColorTree (Cell K V)} {e : Cell K V}
    (h : t.Represents (fill π (.node c l e r))) :
    RedSiblingLast (removeNodeRecorded t e.addr).log := by
  have hd : t.deref e.addr = some (.of (above π) .left (ptr l) (ptr r) c e) :=
    Represents.deref (d := .left) h
  unfold removeNodeRecorded
  rw [hd, lift_some_bind]
  cases l with
  | nil => exact unlinkNodeRecorded_last h rfl
  | node c₁ l₁ e₁ r₁ =>
    cases r with
    | nil => exact unlinkNodeRecorded_last h rfl
    | node c₂ l₂ e₂ r₂ =>
      -- the successor's node goes, from where it is
      obtain ⟨ρ, cm, em, rm, p, t₁, hfill, -, hm, hdm, hm₁, h₁⟩ := successor_spec h
      show RedSiblingLast (liftM (t.getMin t.fuel e₂.addr) >>= _ : Recorded _ _).log
      rw [hm, lift_some_bind, hdm, lift_some_bind, RbNode.of_key, RbNode.of_data, hm₁,
        lift_some_bind]
      rw [fill_successor π c _ _ hfill] at h₁
      exact unlinkNodeRecorded_last h₁ rfl

/-! ## Every run -/

theorem callRecorded_last (hc : IsTotalOrder compare) (h : RedBlackTree compare t T)
    (c : Call K V) : RedSiblingLast (callRecorded compare t c).log := by
  cases c with
  | insert key data malloc =>
    refine RedSiblingLast.bind ?_ fun r e he => nomatch he
    exact redSiblingLast_of_quiet (rbtreeInsertRecorded_sound key data malloc).always
  | remove key =>
    refine RedSiblingLast.bind ?_ fun r e he => nomatch he
    obtain ⟨res, hlookup, hends⟩ := doLookup_ends hc h.represents h.sorted key
    unfold rbtreeRemoveRecorded
    rw [hlookup, lift_some_bind]
    cases hends with
    | found π c l e r hfill he =>
      have hR := h.represents
      rw [hfill] at hR
      exact (removeNodeRecorded_last hR).bind fun t e he => nomatch he
    | absent π hfill hπ => exact List.Pairwise.nil
  | lookup key => exact redSiblingLast_after fun v _ => List.Pairwise.nil

/-- A call returns, all it relies on on the way is there, and the red-sibling case comes up
once at most, at the last level of the repair. -/
structure Safe (compare : K → K → Int) (t : RbTree K V) (c : Call K V) : Prop where
  returns : ∃ r, call compare t c = some r ∧ (callRecorded compare t c).result = some r
  holds : ∀ e ∈ (callRecorded compare t c).log, e.Holds
  redSiblingOnce : (callRecorded compare t c).log.countP Note.isRedSibling ≤ 1
  redSiblingLast : RedSiblingLast (callRecorded compare t c).log

/-- **No call on a tree that calls have built dereferences `NULL`, fails an assertion or
loops**: the grandparents, pivots and siblings it uses exist, and `set_child` never meets
equal keys. -/
theorem rbtree_safe (hc : IsTotalOrder compare) {σ : Calls K V} (hrun : Run compare σ)
    (c : Call K V) (hmalloc : σ.tree.Allocates c) : Safe compare σ.tree c := by
  obtain ⟨-, hstores⟩ := run_stores hc hrun
  obtain ⟨t', hcall, -⟩ := call_spec hstores hc hmalloc
  have hresult := (callRecorded_result c).trans hcall
  obtain ⟨T, hT, -⟩ := hstores
  have hlast := callRecorded_last hc hT c
  refine ⟨⟨_, hcall, hresult⟩, (callRecorded_sound c).returned ?_, hlast.once, hlast⟩
  rw [hresult]
  rfl

/-- The keys 1 to 6: below the root 2 are 1 and, red, 4 with its children 3 and 5. -/
def sixInserts : List (Call Nat Nat) :=
  [.insert 1 10 (some 1), .insert 2 20 (some 2), .insert 3 30 (some 3), .insert 4 40 (some 4),
    .insert 5 50 (some 5), .insert 6 60 (some 6)]

def sixInserted : Calls Nat Nat := (exec (next byNumber) {} sixInserts).getD {}

theorem sixInserted_run : Run byNumber sixInserted :=
  Reach.of_guarded (l := sixInserts) rfl

/-- Removing 1 meets the red sibling. -/
theorem rbtree_safe_six : Safe byNumber sixInserted.tree (.remove 1) ∧
    (callRecorded byNumber sixInserted.tree (.remove 1)).log.countP Note.isRedSibling = 1 :=
  ⟨rbtree_safe byNumber_total sixInserted_run (.remove 1) trivial, by decide⟩

end RbTree
end T2u
