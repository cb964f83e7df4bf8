import Mathlib.Data.List.Basic

/-!
# Programs that look at memory

A program that learns what a memory holds only by looking at one place after the
other.  `value` is what it computes, and `offsets` the places it looked at, in order.
-/

/-- A program over a memory from `ι` to `β`. -/
inductive Examine (ι β α : Type)
  | done (a : α)
  | look (i : ι) (k : β → Examine ι β α)

namespace Examine
variable {ι β α γ : Type}

/-- One program, then another that depends on its value. -/
def andThen : Examine ι β α → (α → Examine ι β γ) → Examine ι β γ
  | .done a, f => f a
  | .look i k, f => .look i fun b => (k b).andThen f

instance : Monad (Examine ι β) where
  pure := .done
  bind := andThen

/-- The content of one place. -/
def byte (i : ι) : Examine ι β β := .look i .done

/-- The contents of some places, in order. -/
def bytes : List ι → Examine ι β (List β)
  | [] => pure []
  | i :: l => byte i >>= fun b => bytes l >>= fun bs => pure (b :: bs)

variable (m : ι → β)

def value : Examine ι β α → α
  | .done a => a
  | .look i k => (k (m i)).value

def offsets : Examine ι β α → List ι
  | .done _ => []
  | .look i k => i :: (k (m i)).offsets

@[simp] theorem value_pure (a : α) : (pure a : Examine ι β α).value m = a := rfl

@[simp] theorem offsets_pure (a : α) : (pure a : Examine ι β α).offsets m = [] := rfl

@[simp] theorem value_byte (i : ι) : (byte i : Examine ι β β).value m = m i := rfl

@[simp] theorem offsets_byte (i : ι) : (byte i : Examine ι β β).offsets m = [i] := rfl

@[simp] theorem value_bind (x : Examine ι β α) (f : α → Examine ι β γ) :
    (x >>= f).value m = (f (x.value m)).value m := by
  induction x with
  | done a => rfl
  | look i k ih => exact ih (m i)

@[simp] theorem offsets_bind (x : Examine ι β α) (f : α → Examine ι β γ) :
    (x >>= f).offsets m = x.offsets m ++ (f (x.value m)).offsets m := by
  induction x with
  | done a => rfl
  | look i k ih => exact congrArg (i :: ·) (ih (m i))

@[simp] theorem value_bytes (l : List ι) : (bytes l).value m = l.map m := by
  induction l with
  | nil => rfl
  | cons i l ih => rw [bytes, value_bind, value_bind, ih]; rfl

@[simp] theorem offsets_bytes (l : List ι) : (bytes l : Examine ι β (List β)).offsets m = l := by
  induction l with
  | nil => rfl
  | cons i l ih => rw [bytes, offsets_bind, offsets_bind, ih]; simp

/-- Every place looked at satisfies `P`. -/
def Within (P : ι → Prop) (x : Examine ι β α) : Prop := ∀ i ∈ x.offsets m, P i

@[simp] theorem within_pure (P : ι → Prop) (a : α) : (pure a : Examine ι β α).Within m P :=
  fun _ hi => absurd hi List.not_mem_nil

@[simp] theorem within_byte {P : ι → Prop} {i : ι} :
    (byte i : Examine ι β β).Within m P ↔ P i := by
  simp [Within]

@[simp] theorem within_bytes {P : ι → Prop} {l : List ι} :
    (bytes l : Examine ι β (List β)).Within m P ↔ ∀ i ∈ l, P i := by
  simp [Within]

@[simp] theorem within_bind {P : ι → Prop} {x : Examine ι β α} {f : α → Examine ι β γ} :
    (x >>= f).Within m P ↔ x.Within m P ∧ (f (x.value m)).Within m P := by
  simp only [Within, offsets_bind, List.mem_append, or_imp, forall_and]

/-- **A program does not depend on what it did not look at.** -/
theorem Within.agree {m m' : ι → β} {x : Examine ι β α} (h : x.Within m fun i => m i = m' i) :
    x.value m = x.value m' ∧ x.offsets m = x.offsets m' := by
  induction x with
  | done a => exact ⟨rfl, rfl⟩
  | look i k ih =>
    have hi : m i = m' i := h i List.mem_cons_self
    have hrest := ih (m i) fun j hj => h j (List.mem_cons_of_mem _ hj)
    refine ⟨?_, ?_⟩
    · show (k (m i)).value m = (k (m' i)).value m'
      rw [hrest.1, hi]
    · show i :: (k (m i)).offsets m = i :: (k (m' i)).offsets m'
      rw [hrest.2, hi]

end Examine
