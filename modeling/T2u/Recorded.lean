/-!
# Computations that may fail, with a record

A `Recorded ε α` gives a result, or fails, and keeps a record of what it passed on the
way; the record is there where it fails, too.  A function into `Option` is written once more
this way to say what it relies on and where: `check` notes a value that the rest needs, and
`result` forgets the record.

`Sound P Q` says that every entry of the record satisfies `P`, and that every entry
satisfies `Q` where there is a result.  It is shown along the structure of a computation, so
that a result at the end is enough to know that all it relies on was there.
-/

structure Recorded (ε α : Type) where
  result : Option α
  log : List ε

namespace Recorded
variable {ε α β : Type}

instance : Monad (Recorded ε) where
  pure a := ⟨some a, []⟩
  bind x f :=
    match x.result with
    | none => ⟨none, x.log⟩
    | some a => ⟨(f a).result, x.log ++ (f a).log⟩

instance : MonadLift Option (Recorded ε) := ⟨fun o => ⟨o, []⟩⟩

/-- Notes `e`, which the computation `o` relies on. -/
def check (e : ε) (o : Option α) : Recorded ε α := ⟨o, [e]⟩

/-- Notes `e`. -/
def note (e : ε) : Recorded ε Unit := ⟨some (), [e]⟩

variable {x : Recorded ε α} {f : α → Recorded ε β} {o : Option α} {e : ε} {a : α}

/-! ## Results -/

@[simp] theorem result_pure (a : α) : (pure a : Recorded ε α).result = some a := rfl

@[simp] theorem result_bind (x : Recorded ε α) (f : α → Recorded ε β) :
    (x >>= f).result = x.result >>= fun a => (f a).result := by
  obtain ⟨result, log⟩ := x
  cases result <;> rfl

@[simp] theorem result_lift (o : Option α) : (liftM o : Recorded ε α).result = o := rfl

@[simp] theorem result_check (e : ε) (o : Option α) : (check e o).result = o := rfl

@[simp] theorem result_note (e : ε) : (note e).result = some () := rfl

theorem result_ite {p : Prop} [Decidable p] (x y : Recorded ε α) :
    (if p then x else y).result = if p then x.result else y.result := apply_ite result p x y

/-! ## Records -/

@[simp] theorem log_pure (a : α) : (pure a : Recorded ε α).log = [] := rfl

@[simp] theorem log_lift (o : Option α) : (liftM o : Recorded ε α).log = [] := rfl

@[simp] theorem log_check (e : ε) (o : Option α) : (check e o).log = [e] := rfl

@[simp] theorem log_note (e : ε) : (note e).log = [e] := rfl

theorem log_bind (h : x.result = some a) : (x >>= f).log = x.log ++ (f a).log := by
  obtain ⟨result, log⟩ := x
  subst h
  rfl

/-- A lifted step that succeeds leaves no trace. -/
@[simp] theorem lift_some_bind (a : α) (f : α → Recorded ε β) :
    ((liftM (some a) : Recorded ε α) >>= f) = f a := rfl

/-! ## Sound records -/

/-- All entries satisfy `P`, and `Q` where there is a result. -/
structure Sound (P Q : ε → Prop) (x : Recorded ε α) : Prop where
  always : ∀ i ∈ x.log, P i
  returned : x.result.isSome = true → ∀ i ∈ x.log, Q i

variable {P P' Q Q' : ε → Prop}

theorem sound_pure (a : α) : Sound P Q (pure a : Recorded ε α) :=
  ⟨fun _ hi => (nomatch hi), fun _ _ hi => nomatch hi⟩

theorem sound_lift (o : Option α) : Sound P Q (liftM o : Recorded ε α) :=
  ⟨fun _ hi => (nomatch hi), fun _ _ hi => nomatch hi⟩

theorem sound_check (hP : P e) (hQ : o.isSome = true → Q e) : Sound P Q (check e o) := by
  refine ⟨fun i hi => ?_, fun ho i hi => ?_⟩
  · rw [List.mem_singleton.mp hi]
    exact hP
  · rw [List.mem_singleton.mp hi]
    exact hQ ho

theorem sound_note (hP : P e) (hQ : Q e) : Sound P Q (note e) :=
  sound_check (o := some ()) hP fun _ => hQ

theorem Sound.bind (hx : Sound P Q x) (hf : ∀ a, x.result = some a → Sound P Q (f a)) :
    Sound P Q (x >>= f) := by
  obtain ⟨result, log⟩ := x
  cases result with
  | none => exact ⟨hx.always, fun hr => nomatch hr⟩
  | some a =>
    refine ⟨fun i hi => ?_, fun hr i hi => ?_⟩
    · rcases List.mem_append.mp hi with hi | hi
      · exact hx.always i hi
      · exact (hf a rfl).always i hi
    · rcases List.mem_append.mp hi with hi | hi
      · exact hx.returned rfl i hi
      · exact (hf a rfl).returned hr i hi

/-- After a lifted step. -/
theorem sound_after (hf : ∀ a, o = some a → Sound P Q (f a)) :
    Sound P Q ((liftM o : Recorded ε α) >>= f) :=
  (sound_lift o).bind hf

theorem sound_ite {p : Prop} [Decidable p] {y : Recorded ε α} (hx : p → Sound P Q x)
    (hy : ¬ p → Sound P Q y) : Sound P Q (if p then x else y) := by
  split
  · rename_i hp
    exact hx hp
  · rename_i hp
    exact hy hp

theorem Sound.imp (h : Sound P Q x) (hP : ∀ i, P i → P' i) (hQ : ∀ i, Q i → Q' i) :
    Sound P' Q' x :=
  ⟨fun i hi => hP i (h.always i hi), fun hr i hi => hQ i (h.returned hr i hi)⟩

end Recorded
