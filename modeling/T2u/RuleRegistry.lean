import T2u.DeleteLoops

/-!
# Every rule is registered

`rules_` holds the rules of a context under their service names.  A rule that is
not in it is not found by a `connect_request`, its sessions are not found by any
datagram, and `free_forward` leaves it behind.  `rbtree_insert` refuses a name that
is there already, so the registry is complete as long as no rule is added under the
name of a live one (`NewName`).

A rule is deleted with its sessions, so its deletion returns as long as what its trees
hold is live.  One event frees a session that stays in `sessions_`: an error reported by a
write event that was overwritten (`SparesEstablished`).
-/

namespace T2u
open Machine Context

namespace Context

/-- **Every live rule is registered under its name, and a freed context has
none.** -/
structure RulesRegistered (c : Context) : Prop where
  coherent : Coherent c
  registered : ∀ id r, c.ruleAt id = some r → c.rules.lookup r.service = some id
  freed : c.freed = true → ∀ id, c.ruleAt id = none

/-- No live rule has this name. -/
def Unnamed (c : Context) (service : Name) : Prop :=
  ∀ id r, c.ruleAt id = some r → r.service ≠ service

/-- A rule is added to a live context, under a name no live rule has. -/
def AddsName (c : Context) : Effect → Prop
  | .addRule service => c.freed = false ∧ Unnamed c service
  | _ => True

namespace RulesRegistered
variable {c c' : Context}

/-- Two live rules have different names. -/
theorem name_injective (h : RulesRegistered c) {id id' : RuleId} {r r' : Rule}
    (hr : c.ruleAt id = some r) (hr' : c.ruleAt id' = some r') (hn : r.service = r'.service) :
    id = id' := by
  have h1 := h.registered id r hr
  rw [hn, h.registered id' r' hr'] at h1
  exact (Option.some.inj h1).symm

theorem same (h : RulesRegistered c) (hs : SameRules c c') (hc : Coherent c') :
    RulesRegistered c' where
  coherent := hc
  registered id r' hr' := by
    obtain ⟨r, hr, he⟩ := hs.back hr'
    have hn : r'.service = r.service := congrArg (fun x => x.2.1) he
    rw [hs.table, hn]
    exact h.registered id r hr
  freed hf id := by
    rw [hs.freed] at hf
    have hstatic := hs.static id
    rw [h.freed hf id] at hstatic
    exact Option.map_eq_none_iff.mp hstatic

theorem addRule (h : RulesRegistered c) (mode : Mode) {service : Name} (hf : c.freed = false)
    (hn : Unnamed c service) : RulesRegistered (c.addRule mode service) where
  coherent := coherent_addRule h.coherent mode service
  registered id r hr := by
    have hr' : (c.setRule c.nextRule (some (newRule mode service))).ruleAt id = some r := hr
    rw [ruleAt_setRule] at hr'
    show (c.rules.insert service c.nextRule).lookup r.service = some id
    split at hr'
    · rename_i hid
      have habsent : c.rules.lookup service = none := by
        cases hl : c.rules.lookup service with
        | none => rfl
        | some q =>
          obtain ⟨u, hu, hs⟩ := h.coherent.rules.rule service q hl
          exact absurd hs (hn q u hu)
      rw [← Option.some.inj hr', hid]
      exact Table.lookup_insert_self _ habsent
    · rw [Table.lookup_insert_of_ne _ (hn id r hr')]
      exact h.registered id r hr'
  freed hx := by
    have hx' : c.freed = true := hx
    rw [hf] at hx'
    cases hx'

theorem dropRule (h : RulesRegistered c) {id : RuleId} {r : Rule} (hr : c.ruleAt id = some r) :
    RulesRegistered { c.setRule id none with rules := c.rules.erase r.service } where
  coherent := coherent_dropRule h.coherent hr
  registered id' r' hr' := by
    have hx : (c.setRule id none).ruleAt id' = some r' := hr'
    rw [ruleAt_setRule] at hx
    split at hx
    · cases hx
    · rename_i hid
      show (c.rules.erase r.service).lookup r'.service = some id'
      rw [Table.lookup_erase_of_ne _ fun hn => hid (h.name_injective hx hr hn)]
      exact h.registered id' r' hx
  freed hx id' := by
    show (c.setRule id none).ruleAt id' = none
    rw [ruleAt_setRule]
    split
    · rfl
    · exact h.freed hx id'

end RulesRegistered

/-- **Every such change keeps the rules registered.** -/
theorem Change.rulesRegistered {c c' : Context} (h : RulesRegistered c)
    (hc : Change AddsName c c') : RulesRegistered c' := by
  have hcoh := hc.coherent h.coherent
  rcases hc.rules_cases with hs | ⟨mode, service, hok, rfl⟩ | ⟨id, r, hr, rfl⟩ |
    ⟨id, r, hr, -, rfl⟩ | ⟨hempty, rfl⟩
  · exact h.same hs hcoh
  · exact h.addRule mode hok.1 hok.2
  · refine ⟨hcoh, fun id' r' hr' => ?_, fun hf => ?_⟩
    · rw [ruleAt_setRule] at hr'
      split at hr'
      · rename_i hid
        rw [← Option.some.inj hr', hid]
        exact h.registered id r hr
      · exact h.registered id' r' hr'
    · exact nomatch (h.freed hf id).symm.trans hr
  · exact h.dropRule hr
  · refine ⟨hcoh, h.registered, fun _ id => ?_⟩
    show c.ruleAt id = none
    cases hr : c.ruleAt id with
    | none => rfl
    | some r =>
      have hl := h.registered id r hr
      rw [(Table.isEmpty_iff _).mp hempty] at hl
      cases hl

/-! ## Runs -/

/-- **The condition on a step**: a rule that is added has a name of its own. -/
def NewName (c : Context) : Input → Prop
  | .addRule mode service fails => ¬ (mode = .client ∧ fails = true) → Unnamed c service
  | _ => True

theorem newName_allows {c : Context} {x : Input} (hx : NewName c x) : Allows AddsName c x := by
  cases x with
  | addRule mode service fails => exact fun hf hadd => ⟨hf, hx hadd⟩
  | _ => simp only [Allows, AddsName, implies_true, and_self]

theorem rulesRegistered_next {c c' : Context} {x : Input} (h : RulesRegistered c)
    (hx : NewName c x) (hn : c.next x = some c') : RulesRegistered c' :=
  next_invariant RulesRegistered.coherent (fun _ hx => newName_allows hx)
    Change.rulesRegistered h hx hn

/-- What a tree of a registered rule holds is found by `find_session_in_context`, if
not hidden by another session with the same handle. -/
theorem RulesRegistered.find {c : Context} (h : RulesRegistered c) {id : RuleId} {t : Tree}
    {k : Handle} {ptr : Ptr} (he : c.entry id t k = some ptr) :
    ∃ q id', c.findSessionInContext k t = some q ∧ c.entry id' t k = some q := by
  obtain ⟨r, hr, hl⟩ := entry_eq.mp he
  have hmem := (Table.lookup_eq_some _).mp (h.registered id r hr)
  cases hf : c.findSessionInContext k t with
  | none =>
    have hnone := List.findSome?_eq_none_iff.mp hf _ hmem
    exact nomatch hnone.symm.trans he
  | some q =>
    obtain ⟨-, id', -, hq⟩ := findSession_entry hf
    exact ⟨q, id', rfl, hq⟩

section Deleting
variable {c : Context}

/-- **`del_forward_rule` returns**, and the rule and its entry are gone. -/
theorem RulesRegistered.deleteRule (h : RulesRegistered c) (hback : Backed c) {id : RuleId}
    {r : Rule} (hr : c.ruleAt id = some r) : ∃ c', c.next (.deleteRule id) = some c' ∧
      c'.ruleAt id = none ∧
      ∀ n, c'.rules.lookup n = if n = r.service then none else c.rules.lookup n := by
  obtain ⟨c', hd, hrules, -⟩ := deleteRuleFrom_ok hback .first hr
  rw [← deleteRule_first hback] at hd
  obtain ⟨-, -, -, hgone, -⟩ := deleteRule_changes h.coherent hd
  have hlive : c.freed = false := by
    refine Bool.eq_false_iff.mpr fun hf => ?_
    exact nomatch (h.freed hf id).symm.trans hr
  refine ⟨c', ?_, hgone, fun n => ?_⟩
  · simp only [next, step, hr, inContext, hlive, hd, Option.map_some, Bool.false_eq_true, if_false]
  · rw [hrules]
    exact Table.lookup_erase _ _ n

/-- **`free_forward` returns**, and no rule is left. -/
theorem RulesRegistered.deleteContext (h : RulesRegistered c) (hback : Backed c)
    (hlive : c.freed = false) : ∃ c', c.next .deleteContext = some c' ∧ c'.freed = true ∧
      ∀ id, c'.ruleAt id = none := by
  obtain ⟨c', hd, hf, -⟩ := deleteContextFrom_ok hback .first
  rw [← deleteContext_first hback] at hd
  have hn : c.next .deleteContext = some c' := by
    simp only [next, step, hlive, hd, Bool.false_eq_true, if_false]
  exact ⟨c', hn, hf, (rulesRegistered_next h (x := .deleteContext) trivial hn).freed hf⟩

end Deleting

/-- And an error of the overwritten write event, after which neither deletion returns. -/
theorem neither_deletion_returns : ∃ c, Reach next NewName {} c ∧
    c.step (.deleteRule 0) = some (.error (.freedSession 0)) ∧
    c.step .deleteContext = some (.error (.freedSession 0)) := by
  have hfirst : Reach next NewName {} serverContext :=
    Reach.single (e := .addRule .server [97] false) (fun _ id r hr => (nomatch hr)) rfl
  have hsecond := hfirst.tail (e := connectTo 0) trivial rfl
  have hthird := hsecond.tail (e := connected 1) trivial rfl
  exact ⟨_, hthird.tail (e := .overwrittenEvent 0 {} true) trivial rfl, rfl, rfl⟩

end Context
end T2u
