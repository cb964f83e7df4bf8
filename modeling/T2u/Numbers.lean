import Mathlib.Data.List.Nodup
import T2u.Steps

/-!
# The numbers of sessions

`t2u_add_connecting_session` draws a number for the session it creates from
`handle_seq_`, and nothing else in a context does.  As long as `handle_seq_` has not
come round, no two sessions of a context have the same number.
-/

namespace T2u
namespace Context
variable {c c' c'' : Context}

/-! ## Drawing a number -/

/-- No number is drawn. -/
structure SameNumbers (c c' : Context) : Prop where
  created : c'.created = c.created
  number : c'.handleSeq = c.handleSeq
  next : c'.nextPtr = c.nextPtr

theorem SameNumbers.refl (c : Context) : SameNumbers c c := ⟨rfl, rfl, rfl⟩

theorem SameNumbers.trans (h : SameNumbers c c') (h' : SameNumbers c' c'') : SameNumbers c c'' :=
  ⟨h'.created.trans h.created, h'.number.trans h.number, h'.next.trans h.next⟩

/-- A step draws no number, or lets another context of the process draw one, or draws one
for the session it creates. -/
inductive Draws (c c' : Context) : Prop
  | none (h : SameNumbers c c')
  | other (hcreated : c'.created = c.created) (hnumber : c'.handleSeq = nextHandleSeq c.handleSeq)
  | session (id : RuleId) (handle : Handle)
      (hcreated : c'.created =
        c.created ++ [⟨c.nextPtr, id, handle, nextHandleSeq c.handleSeq⟩])
      (hnumber : c'.handleSeq = nextHandleSeq c.handleSeq)

theorem SameNumbers.draws (h : SameNumbers c c') (hd : Draws c' c'') : Draws c c'' := by
  cases hd with
  | none h' => exact .none (h.trans h')
  | other hcreated hnumber =>
    rw [h.created] at hcreated
    rw [h.number] at hnumber
    exact .other hcreated hnumber
  | session id handle hcreated hnumber =>
    rw [h.created, h.next, h.number] at hcreated
    rw [h.number] at hnumber
    exact .session id handle hcreated hnumber

theorem sameNumbers_deleteConnectingSession {ptr : Ptr} {s : Session}
    (h : c.deleteConnectingSession ptr s = .ok c') : SameNumbers c c' := by
  obtain ⟨r, -, rfl⟩ := deleteConnectingSession_ok h
  exact ⟨rfl, rfl, rfl⟩

theorem sameNumbers_finish {ptr : Ptr} {s : Session} {res : Result}
    (h : c.finish ptr s res = .ok c') : SameNumbers c c' := by
  rcases finish_cases h with ⟨s', -, rfl⟩ | ⟨r, -, -, rfl⟩ <;> exact ⟨rfl, rfl, rfl⟩

/-- **No deletion draws a number.** -/
theorem Deletions.sameNumbers (h : Deletions c c') : SameNumbers c c' := by
  induction h with
  | refl => exact .refl c
  | tail _ hd ih =>
    refine ih.trans ?_
    cases hd <;> exact ⟨rfl, rfl, rfl⟩

theorem sameNumbers_sessionConnect {env : Env} {ptr : Ptr} {s : Session} {r : Rule}
    (h : c.sessionConnect env ptr s r = .ok c') : SameNumbers c c' := by
  rcases sessionConnect_cases h with ⟨-, rfl⟩ | ⟨-, -, rfl⟩ | ⟨-, -, h⟩
  · exact ⟨rfl, rfl, rfl⟩
  · exact .refl c'
  · exact sameNumbers_deleteConnectingSession h

/-- **Where a number is drawn.** -/
theorem draws_addConnectingSession {env : Env} {id : RuleId} {sock : Sock} {handle : Handle}
    (h : c.addConnectingSession env id sock handle = .ok c') : Draws c c' := by
  obtain ⟨r, -, h⟩ := bind_ok h
  have hsame := sameNumbers_sessionConnect h
  exact .session id handle hsame.created hsame.number

theorem sameNumbers_sessionConnectTimeout {env : Env} {ptr : Ptr} {s : Session}
    (h : c.sessionConnectTimeout env ptr s = .ok c') : SameNumbers c c' := by
  obtain ⟨r, -, h⟩ := bind_ok h
  dsimp only at h
  split at h
  · exact sameNumbers_deleteConnectingSession h
  · split at h
    · have hsame := sameNumbers_sessionConnect h
      exact ⟨hsame.created, hsame.number, hsame.next⟩
    · rw [← Except.ok.inj h]
      exact ⟨rfl, rfl, rfl⟩

theorem sameNumbers_sessionConnectSuccess {env : Env} {ptr : Ptr} {s : Session} {error : Bool}
    (h : c.sessionConnectSuccess env ptr s error = .ok c') : SameNumbers c c' := by
  unfold sessionConnectSuccess at h
  split at h
  · exact sameNumbers_deleteConnectingSession h
  · obtain ⟨r, -, h⟩ := bind_ok h
    rw [← Except.ok.inj h]
    exact ⟨rfl, rfl, rfl⟩

theorem sameNumbers_sessionHandleConnectResponse {env : Env} {ptr : Ptr} {s : Session} {p : Packet}
    (h : c.sessionHandleConnectResponse env ptr s p = .ok c') : SameNumbers c c' := by
  unfold sessionHandleConnectResponse at h
  split at h
  · obtain ⟨r, -, h⟩ := bind_ok h
    rw [← Except.ok.inj h]
    exact ⟨rfl, rfl, rfl⟩
  · exact sameNumbers_deleteConnectingSession h

theorem draws_processUdp (hc : Coherent c) {env : Env} {p : Packet}
    (h : c.processUdp env p = .ok c') : Draws c c' := by
  have hdata : ofConnection p = true → Draws c c' := by
    intro ho
    rcases processUdp_ofConnection (c := c) env ho with ⟨-, hn⟩ | ⟨ptr, -, hx⟩
    · rw [Except.ok.inj (hn.symm.trans h)]
      exact .none (.refl c')
    · obtain ⟨s, -, h⟩ := bind_ok (hx.symm.trans h)
      exact .none (sameNumbers_finish h)
  cases ho : p.oper with
  | connectRequest =>
    unfold processUdp at h
    simp only [ho] at h
    split at h
    · obtain ⟨d, hd, h⟩ := bind_ok h
      obtain ⟨hdel, -⟩ := deleteOldSessions_changes hc hd
      split at h
      · rw [← Except.ok.inj h]
        exact .none hdel.sameNumbers
      · exact hdel.sameNumbers.draws (draws_addConnectingSession h)
    · rw [← Except.ok.inj h]
      exact .none (.refl c)
  | connectResponse =>
    unfold processUdp at h
    simp only [ho] at h
    split at h
    · obtain ⟨s, -, h⟩ := bind_ok h
      exact .none (sameNumbers_sessionHandleConnectResponse h)
    · rw [← Except.ok.inj h]
      exact .none (.refl c)
  | closeResponse =>
    unfold processUdp at h
    simp only [ho] at h
    rw [← Except.ok.inj h]
    exact .none (.refl c)
  | dataRequest | dataResponse | retransRequest | closeRequest =>
    exact hdata (by simp only [ofConnection, ho])

/-- **A step draws at most one number.** -/
theorem draws_next (hc : Coherent c) {x : Input} (hn : c.next x = some c') : Draws c c' := by
  obtain ⟨y, hruns, hy⟩ := next_runs hn
  cases hruns with
  | addRule | setOption =>
    rw [← Except.ok.inj hy]
    exact .none ⟨rfl, rfl, rfl⟩
  | noRule | noSocket =>
    rw [← Except.ok.inj hy]
    exact .none (.refl c)
  | deleteRule =>
    obtain ⟨-, -, hdel, -⟩ := deleteRule_changes hc (inContext_ok hy).2
    exact .none hdel.sameNumbers
  | deleteContext =>
    obtain ⟨d, hd, hfree⟩ := bind_ok hy
    have hrules := (deleteRules_changes hc hd).1.sameNumbers
    rw [← Except.ok.inj hfree]
    exact .none ⟨hrules.created, hrules.number, hrules.next⟩
  | accept => exact draws_addConnectingSession (inContext_ok hy).2
  | connectTimer => exact .none (sameNumbers_sessionConnectTimeout (inContext_ok hy).2)
  | connectResult => exact .none (sameNumbers_sessionConnectSuccess (inContext_ok hy).2)
  | overwrittenEvent =>
    have hsame := sameNumbers_sessionConnectSuccess (inContext_ok hy).2
    exact .none ⟨hsame.created, hsame.number, hsame.next⟩
  | overwrittenFreed => cases hy
  | session => exact .none (sameNumbers_finish (inContext_ok hy).2)
  | datagram => exact draws_processUdp hc hy
  | otherContext =>
    rw [← Except.ok.inj hy]
    exact .other rfl rfl

/-! ## Distinct numbers -/

/-- **Every session has its own number**, and none is past the last one drawn. -/
structure Numbered (c : Context) : Prop where
  le : ∀ k ∈ c.created, k.number.toNat ≤ c.handleSeq.toNat
  nodup : (c.created.map Creation.number).Nodup

/-- The condition that `handle_seq_`, which is counted up from 0 with every session of the
process, does not come round in a step. -/
def NotRound (c : Context) (x : Input) : Prop :=
  ∀ c', c.next x = some c' → c.handleSeq.toNat ≤ c'.handleSeq.toNat

instance (c : Context) (x : Input) : Decidable (NotRound c x) :=
  decidable_of_iff (∀ c' ∈ c.next x, c.handleSeq.toNat ≤ c'.handleSeq.toNat) Iff.rfl

theorem numbered_empty : Numbered {} :=
  ⟨fun _ hk => (nomatch hk), List.nodup_nil⟩

theorem nextHandleSeq_ne (n : BitVec 32) : nextHandleSeq n ≠ n := by
  intro h
  unfold nextHandleSeq at h
  split at h
  · rename_i hz
    rw [← h] at hz
    exact absurd hz (by decide)
  · have hn : (n.toNat + 1) % 2 ^ 32 = n.toNat :=
      (BitVec.toNat_add n 1).symm.trans (congrArg BitVec.toNat h)
    omega

theorem nextHandleSeq_ne_zero (n : BitVec 32) : nextHandleSeq n ≠ 0 := by
  unfold nextHandleSeq
  split
  · decide
  · assumption

/-- A number that is drawn without coming round is past all others. -/
theorem Numbered.draws (h : Numbered c) (hd : Draws c c')
    (hle : c.handleSeq.toNat ≤ c'.handleSeq.toNat) : Numbered c' := by
  cases hd with
  | none hsame =>
    refine ⟨fun k hk => ?_, ?_⟩
    · rw [hsame.created] at hk
      exact Nat.le_trans (h.le k hk) hle
    · rw [hsame.created]
      exact h.nodup
  | other hcreated hnumber =>
    refine ⟨fun k hk => ?_, ?_⟩
    · rw [hcreated] at hk
      exact Nat.le_trans (h.le k hk) hle
    · rw [hcreated]
      exact h.nodup
  | session id handle hcreated hnumber =>
    have hlt : c.handleSeq.toNat < c'.handleSeq.toNat := by
      refine Nat.lt_of_le_of_ne hle fun heq => ?_
      exact nextHandleSeq_ne c.handleSeq (hnumber.symm.trans (BitVec.eq_of_toNat_eq heq.symm))
    refine ⟨fun k hk => ?_, ?_⟩
    · rw [hcreated] at hk
      rcases List.mem_append.mp hk with hk | hk
      · exact Nat.le_trans (h.le k hk) hle
      · rw [List.mem_singleton.mp hk, hnumber]
    · rw [hcreated, List.map_append, List.nodup_append]
      refine ⟨h.nodup, List.nodup_singleton _, ?_⟩
      intro n hn m hm heq
      obtain ⟨k, hk, rfl⟩ := List.mem_map.mp hn
      have hold := h.le k hk
      rw [heq, List.mem_singleton.mp hm, ← hnumber] at hold
      exact absurd hold (Nat.not_le_of_lt hlt)

theorem numbered_next (h : Numbered c) (hc : Coherent c) {x : Input} (hx : NotRound c x)
    (hn : c.next x = some c') : Numbered c' :=
  h.draws (draws_next hc hn) (hx c' hn)

/-- **A session is known by its number.** -/
theorem Numbered.unique (h : Numbered c) {k k' : Creation} (hk : k ∈ c.created)
    (hk' : k' ∈ c.created) (heq : k.number = k'.number) : k = k' :=
  List.inj_on_of_nodup_map h.nodup hk hk' heq

end Context
end T2u
