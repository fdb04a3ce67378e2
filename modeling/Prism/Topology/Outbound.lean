import Prism.Foundation.Run
import Prism.Foundation.Table

/-!
# Every outbound is closed once

`EnsureNodeOutbound` and `RemoveNodeOutbound` of `internal/outbound/manager.go`, for one hash.  A
call that found the pointer of its entry unset builds an outbound and looks whether the entry is
still in the pool, before it stores the outbound and after.  A removal takes the entry out of the
pool and then swaps the pointer out.  Each lookup, load, swap and compare-and-swap is a step of its
own, and any number of calls may be under way.

Two facts hold at every moment.  An outbound is in one place: a call holds it, a pointer refers to
it, or it was closed (`Accounted.once`).  And a pointer of an entry that is not in the pool is the
concern of a call that has yet to swap it out (`Accounted.owed`): the removal of the entry, or the
call that stored the outbound and has not looked at the pool since.
-/

namespace Prism

open Table

/-- Where a call is. -/
inductive OutboundStage where
  | loaded
  /-- the pointer was nil -/
  | unset
  | built (ob : ℕ)
  /-- the entry was in the pool -/
  | checked (ob : ℕ)
  | stored
  /-- about to swap the pointer out; a removal starts here -/
  | evicting
  | closing (ob : ℕ)
  deriving DecidableEq

/-- A call under way, with the entry it has loaded. -/
structure OutboundCall where
  entry : ℕ
  stage : OutboundStage
  deriving DecidableEq

namespace OutboundCall

/-- The outbound in the hands of a call. -/
def held (c : OutboundCall) : Option ℕ :=
  match c.stage with
  | .built ob => some ob
  | .checked ob => some ob
  | .closing ob => some ob
  | _ => none

/-- The call will clear the pointer of its entry, or find the entry in the pool. -/
abbrev Evicts (c : OutboundCall) : Prop := c.stage = .stored ∨ c.stage = .evicting

end OutboundCall

/-- What there is of one hash.  Entries and outbounds are numbered as they are made; `outbound` has
the entries whose pointer is set, with the outbound it refers to. -/
structure OutboundNode where
  entry : Option ℕ := none
  created : ℕ := 0
  outbound : List (ℕ × ℕ) := []
  built : ℕ := 0
  closed : List ℕ := []
  calls : List OutboundCall := []

inductive OutboundStep where
  | addNode
  | removeNode
  | ensureNodeOutbound
  /-- the next step of a call; an outbound may be denied or fail to build -/
  | advance (c : OutboundCall) (fails : Bool)

namespace OutboundNode

variable (s : OutboundNode)

def pointer (e : ℕ) : Option (ℕ × ℕ) := lookup Prod.fst e s.outbound

def goOn (c : OutboundCall) (stage : OutboundStage) : OutboundNode :=
  { s with calls := ⟨c.entry, stage⟩ :: s.calls.erase c }

def finish (c : OutboundCall) : OutboundNode :=
  { s with calls := s.calls.erase c }

def advance (c : OutboundCall) (fails : Bool) : OutboundNode :=
  match c.stage with
  | .loaded => if (s.pointer c.entry).isSome then s.finish c else s.goOn c .unset
  | .unset =>
    if fails then s.finish c else { s with built := s.built + 1 }.goOn c (.built s.built)
  | .built ob => s.goOn c (if s.entry = some c.entry then .checked ob else .closing ob)
  | .checked ob =>
    match s.pointer c.entry with
    | none => { s with outbound := (c.entry, ob) :: s.outbound }.goOn c .stored
    | some _ => s.goOn c (.closing ob)
  | .stored => if s.entry = some c.entry then s.finish c else s.goOn c .evicting
  | .evicting =>
    match s.pointer c.entry with
    | none => s.finish c
    | some p => { s with outbound := s.outbound.erase p }.goOn c (.closing p.2)
  | .closing ob => { s with closed := ob :: s.closed }.finish c

def addNode : OutboundNode :=
  match s.entry with
  | some _ => s
  | none => { s with entry := some s.created, created := s.created + 1 }

def removeNode : OutboundNode :=
  match s.entry with
  | some e => { s with entry := none, calls := ⟨e, .evicting⟩ :: s.calls }
  | none => s

def ensureNodeOutbound : OutboundNode :=
  match s.entry with
  | some e => { s with calls := ⟨e, .loaded⟩ :: s.calls }
  | none => s

def step : OutboundStep → OutboundNode
  | .addNode => s.addNode
  | .removeNode => s.removeNode
  | .ensureNodeOutbound => s.ensureNodeOutbound
  | .advance c fails => if c ∈ s.calls then s.advance c fails else s

/-- In how many places an outbound is. -/
def places (ob : ℕ) : ℕ :=
  s.calls.countP (·.held = some ob) + s.outbound.countP (·.2 = ob) + s.closed.count ob

/-- **The invariant**. -/
structure Accounted (s : OutboundNode) : Prop where
  once : ∀ ob, s.places ob = (List.range s.built).count ob
  keys : KeysNodup Prod.fst s.outbound
  owed : ∀ p ∈ s.outbound, s.entry = some p.1 ∨ ∃ c ∈ s.calls, c.entry = p.1 ∧ c.Evicts

variable {s : OutboundNode} {c : OutboundCall}

theorem countP_erase_call (hc : c ∈ s.calls) (ob : ℕ) : s.calls.countP (·.held = some ob) =
      (s.calls.erase c).countP (·.held = some ob) + if c.held = some ob then 1 else 0 := by
  rw [(List.perm_cons_erase hc).countP_eq, List.countP_cons]
  simp

section

variable (h : s.Accounted)

include h

/-- **A call moves on.**  The outbounds are where they were, but for what the call has done with its
own; and every pointer is to an entry in the pool, or the concern of the call from now on, or was
there before and is not what the call has given up. -/
theorem Accounted.moves {s' : OutboundNode} (hc : c ∈ s.calls) (new : List OutboundCall)
    (hentry : s'.entry = s.entry) (hcalls : s'.calls = new ++ s.calls.erase c)
    (hplaces : ∀ ob, new.countP (·.held = some ob) + s'.outbound.countP (·.2 = ob) + s'.closed.count
      ob + (List.range s.built).count ob = (if c.held = some ob then 1 else 0) + s.outbound.countP
      (·.2 = ob) + s.closed.count ob + (List.range s'.built).count ob)
    (hkeys : KeysNodup Prod.fst s'.outbound) (howed : ∀ p ∈ s'.outbound, s.entry = some p.1 ∨
      (∃ c' ∈ new, c'.entry = p.1 ∧ c'.Evicts) ∨ p ∈ s.outbound ∧ (c.Evicts → c.entry ≠ p.1)) :
    s'.Accounted := by
  refine ⟨fun ob => ?_, hkeys, fun p hp => ?_⟩
  · have honce := h.once ob
    have hplace := hplaces ob
    unfold places at honce ⊢
    rw [hcalls, List.countP_append]
    rw [countP_erase_call hc ob] at honce
    omega
  · rw [hentry, hcalls]
    rcases howed p hp with hlive | ⟨c', hc', howes⟩ | ⟨hold, hother⟩
    · exact .inl hlive
    · exact .inr ⟨c', List.mem_append_left _ hc', howes⟩
    · refine (h.owed p hold).imp_right fun ⟨c', hc', hentry', hevicts⟩ => ?_
      have hne : c' ≠ c := fun hsame => hother (hsame ▸ hevicts) (hsame ▸ hentry')
      exact ⟨c', List.mem_append_right _ ((List.mem_erase_of_ne hne).mpr hc'), hentry', hevicts⟩

theorem Accounted.finish (hc : c ∈ s.calls) (hheld : c.held = none)
    (howed : c.Evicts → s.entry = some c.entry ∨ s.pointer c.entry = none) :
    (s.finish c).Accounted := by
  refine h.moves hc [] rfl rfl (fun ob => ?_) h.keys fun p hp => ?_
  · simp [hheld, OutboundNode.finish]
  by_cases hevicts : c.Evicts
  · rcases howed hevicts with hlive | hnone
    · by_cases hown : c.entry = p.1
      · exact .inl (hown ▸ hlive)
      · exact .inr (.inr ⟨hp, fun _ => hown⟩)
    · have hother := (lookup_eq_none_iff Prod.fst).mp hnone p hp
      exact .inr (.inr ⟨hp, fun _ => hother.symm⟩)
  · exact .inr (.inr ⟨hp, fun he => absurd he hevicts⟩)

theorem Accounted.goOn (hc : c ∈ s.calls) {stage : OutboundStage}
    (hheld : OutboundCall.held ⟨c.entry, stage⟩ = c.held)
    (howed : c.Evicts → OutboundCall.Evicts ⟨c.entry, stage⟩) : (s.goOn c stage).Accounted := by
  refine h.moves hc [⟨c.entry, stage⟩] rfl rfl (fun ob => ?_) h.keys fun p hp => ?_
  · simp [List.countP_cons, hheld, OutboundNode.goOn]
  · by_cases hown : c.Evicts ∧ c.entry = p.1
    · exact .inr (.inl ⟨_, .head _, hown.2, howed hown.1⟩)
    · exact .inr (.inr ⟨hp, fun he hentry => hown ⟨he, hentry⟩⟩)

theorem Accounted.advance (hc : c ∈ s.calls) (fails : Bool) : (s.advance c fails).Accounted := by
  obtain ⟨e, stage⟩ := c
  unfold OutboundNode.advance
  cases stage with
  | loaded =>
    dsimp only
    split
    · exact h.finish hc rfl (by simp)
    · exact h.goOn hc rfl (by simp)
  | unset =>
    dsimp only
    split
    · exact h.finish hc rfl (by simp)
    · refine h.moves hc [_] rfl rfl (fun ob => ?_) h.keys fun p hp => .inr (.inr ⟨hp, by simp⟩)
      simp only [OutboundCall.held, OutboundNode.goOn, List.countP_singleton, List.range_succ,
        List.count_append, List.count_singleton, decide_eq_true_eq, beq_iff_eq, Option.some.injEq,
        reduceCtorEq, if_false]
      omega
  | built ob =>
    dsimp only
    split <;> exact h.goOn hc rfl (by simp)
  | checked ob =>
    dsimp only
    split
    · rename_i hnone
      refine h.moves hc [_] rfl rfl (fun ob' => ?_) ?_ ?_
      · simp only [OutboundCall.held, OutboundNode.goOn, List.countP_cons, List.countP_nil,
          decide_eq_true_eq, Option.some.injEq, reduceCtorEq, if_false]
        omega
      · refine List.nodup_cons.mpr ⟨fun hmem => ?_, h.keys⟩
        obtain ⟨p, hp, hkey⟩ := List.mem_map.mp hmem
        exact (lookup_eq_none_iff Prod.fst).mp hnone p hp hkey
      · intro p hp
        rcases List.mem_cons.mp hp with rfl | hp
        · exact .inr (.inl ⟨_, .head _, rfl, .inl rfl⟩)
        · exact .inr (.inr ⟨hp, by simp⟩)
    · exact h.goOn hc rfl (by simp)
  | stored =>
    dsimp only
    split
    · rename_i hlive
      exact h.finish hc rfl fun _ => .inl hlive
    · exact h.goOn hc rfl fun _ => .inr rfl
  | evicting =>
    dsimp only
    split
    · rename_i hnone
      exact h.finish hc rfl fun _ => .inr hnone
    rename_i p hp
    have hmem := mem_of_lookup hp
    refine h.moves hc [_] rfl rfl (fun ob => ?_) ?_ fun q hq => ?_
    · have hout : s.outbound.countP (·.2 = ob) = _ := (List.perm_cons_erase hmem).countP_eq _
      simp only [OutboundCall.held, OutboundNode.goOn, hout, List.countP_cons, List.countP_nil,
        decide_eq_true_eq, Option.some.injEq, reduceCtorEq, if_false]
      omega
    · exact (List.erase_sublist.map Prod.fst).nodup h.keys
    · -- the entry has no other pointer
      obtain ⟨hne, hq⟩ := (List.Nodup.mem_erase_iff (List.Nodup.of_map _ h.keys)).mp hq
      refine .inr (.inr ⟨hq, fun _ hkey => hne ?_⟩)
      exact eq_of_mem_of_key_eq h.keys hq hmem
        (hkey.symm.trans (key_of_lookup hp).symm)
  | closing ob =>
    refine h.moves hc [] rfl rfl (fun ob' => ?_) h.keys fun p hp => .inr (.inr ⟨hp, by simp⟩)
    simp only [OutboundCall.held, OutboundNode.finish, List.count_cons, List.countP_nil,
      beq_iff_eq, Option.some.injEq]
    omega

theorem Accounted.step (a : OutboundStep) : (s.step a).Accounted := by
  cases a with
  | addNode =>
    show s.addNode.Accounted
    unfold OutboundNode.addNode
    split
    · exact h
    · rename_i hnone
      refine ⟨h.once, h.keys, fun p hp => .inr ((h.owed p hp).resolve_left ?_)⟩
      simp [hnone]
  | removeNode =>
    show s.removeNode.Accounted
    unfold OutboundNode.removeNode
    split
    · rename_i e hlive
      refine ⟨h.once, h.keys, fun p hp => .inr ?_⟩
      rcases h.owed p hp with hown | ⟨c, hc, howes⟩
      · exact ⟨_, .head _, Option.some.inj (hlive.symm.trans hown), .inr rfl⟩
      · exact ⟨c, .tail _ hc, howes⟩
    · exact h
  | ensureNodeOutbound =>
    show s.ensureNodeOutbound.Accounted
    unfold OutboundNode.ensureNodeOutbound
    split
    · refine ⟨h.once, h.keys, fun p hp => (h.owed p hp).imp_right fun ⟨c, hc, howes⟩ => ?_⟩
      exact ⟨c, .tail _ hc, howes⟩
    · exact h
  | advance c fails =>
    show (if c ∈ s.calls then s.advance c fails else s).Accounted
    split
    · exact h.advance ‹_› fails
    · exact h

end

end OutboundNode

open OutboundNode

/-- **No outbound is leaked or closed twice.**  After any interleaving of calls, removals and
additions of a hash, and once all have finished, an outbound that was built is the one stored in the
entry of the pool and was never closed, or was closed once and is stored nowhere; and an entry that
is not in the pool has no outbound. -/
theorem outbound_stored_or_closed (steps : List OutboundStep)
    (hdone : (run OutboundNode.step {} steps).calls = []) :
    let s := run OutboundNode.step {} steps
    (∀ ob < s.built, (∃ e, s.entry = some e ∧ s.pointer e = some (e, ob) ∧ ob ∉ s.closed) ∨
      s.closed.count ob = 1 ∧ ∀ e, s.pointer e ≠ some (e, ob)) ∧
    ∀ e, s.entry ≠ some e → s.pointer e = none := by
  intro s
  have hstart : Accounted {} := ⟨fun _ => rfl, List.nodup_nil, nofun⟩
  have h : s.Accounted := run_invariant (I := Accounted) (fun _ a hs => hs.step a) hstart steps
  have hlive : ∀ p ∈ s.outbound, s.entry = some p.1 := fun p hp =>
    (h.owed p hp).resolve_right fun ⟨c, hc, _⟩ => by simp [s, hdone] at hc
  refine ⟨fun ob hob => ?_, fun e he => ?_⟩
  · have honce := h.once ob
    rw [List.count_eq_one_of_mem List.nodup_range (List.mem_range.mpr hob)] at honce
    unfold places at honce
    rw [show s.calls = [] from hdone, List.countP_nil, Nat.zero_add] at honce
    by_cases hstored : ∃ p ∈ s.outbound, p.2 = ob
    · obtain ⟨⟨e, ob'⟩, hp, hsame⟩ := hstored
      obtain rfl : ob' = ob := hsame
      refine .inl ⟨e, hlive _ hp, lookup_of_mem h.keys hp, ?_⟩
      have hpos : 0 < s.outbound.countP (·.2 = ob') := List.countP_pos_iff.mpr ⟨_, hp, by simp⟩
      rw [← List.count_eq_zero]
      omega
    · have hnone : s.outbound.countP (·.2 = ob) = 0 :=
        List.countP_eq_zero.mpr fun p hp hsame => hstored ⟨p, hp, of_decide_eq_true hsame⟩
      refine .inr ⟨by omega, fun e he => ?_⟩
      exact hstored ⟨_, mem_of_lookup he, rfl⟩
  · refine (lookup_eq_none_iff Prod.fst).mpr fun p hp hkey => ?_
    exact he (hkey ▸ hlive p hp)

/-- Two calls race for one entry, and the entry is removed before the winner looks at the pool for
the second time: both outbounds are closed. -/
theorem outbound_stored_or_closed_race :
    let s := run OutboundNode.step {} [.addNode, .ensureNodeOutbound, .ensureNodeOutbound,
      .advance ⟨0, .loaded⟩ false, .advance ⟨0, .loaded⟩ false, .advance ⟨0, .unset⟩ false,
      .advance ⟨0, .unset⟩ false, .advance ⟨0, .built 0⟩ false, .advance ⟨0, .built 1⟩ false,
      .advance ⟨0, .checked 1⟩ false, .advance ⟨0, .checked 0⟩ false, .removeNode,
      .advance ⟨0, .closing 0⟩ false, .advance ⟨0, .stored⟩ false, .advance ⟨0, .evicting⟩ false,
      .advance ⟨0, .evicting⟩ false, .advance ⟨0, .closing 1⟩ false]
    s.built = 2 ∧ s.closed = [1, 0] ∧ s.pointer 0 = none :=
  ⟨by decide, by decide, (outbound_stored_or_closed _ (by decide)).2 0 (by decide)⟩

end Prism
