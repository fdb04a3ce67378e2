import Prism.Foundation.Tally
import Prism.Topology.Views

/-!
# Views are told

`internal/topology/pool.go`.  After a node was changed the platforms are told about it.

A view is right at a node, or somebody still owes it a look: a thread has changed the node and has
not listed the platforms yet, or has listed this one and not come to it (`duty`).  Listing without
the platform ends the debt, because nothing is owed to a platform that is not registered; looking
ends it because the look is made at the pool as it is then.

An object that was rebuilt and is not registered yet is in nobody's list.  If a node is changed and
the platforms are listed in between, the object is registered with a view nobody will correct
(`view_misses_a_change`).
-/

namespace Prism

open Table

variable {object : ℕ} {hash : Hash} {objects : List ℕ}

/-! ## Who owes a look -/

/-- A thread that has changed a node owes the platform a look, until it has looked, or has listed the
platforms without this one. -/
def duty (object : ℕ) (hash : Hash) : TopologyEvent → Option Bool
  | .nodeChanged h => if h = hash then some true else none
  | .platformsListed h objects => if h = hash ∧ object ∉ objects then some false else none
  | .nodeEvaluated o h => if o = object ∧ h = hash then some false else none
  | _ => none

namespace TopologyEvent

def builds : TopologyEvent → Bool
  | .platformBuilt _ => true
  | _ => false

def changes : TopologyEvent → Bool
  | .nodeChanged _ => true
  | _ => false

def lists : TopologyEvent → Bool
  | .platformsListed _ _ => true
  | _ => false

end TopologyEvent

def sinceBuilt (i : ℕ) (trace : List (ℕ × TopologyEvent)) : List (ℕ × TopologyEvent) :=
  trace.takeWhile fun q => !(q.1 = i && q.2.builds)

/-- Somebody has changed a node and listed the platforms, all since the thread rebuilt its object. -/
def missed (i : ℕ) (trace : List (ℕ × TopologyEvent)) : Bool :=
  (sinceBuilt i trace).any fun q => q.2.lists &&
    (sinceBuilt i trace).any fun r => r.1 = q.1 && r.2.changes

/-- **An object is published in time**: it has missed nothing. -/
def PublishedInTime (h : TopologyHistory) (i : ℕ) : TopologyEvent → Prop
  | .platformPublished _ => missed i h.trace = false
  | _ => True

instance (h : TopologyHistory) (i : ℕ) (e : TopologyEvent) : Decidable (PublishedInTime h i e) := by
  unfold PublishedInTime
  split <;> infer_instance

theorem duty_begins {e : TopologyEvent} (hd : duty object hash e = some true) :
    e = .nodeChanged hash := by
  cases e with
  | nodeChanged h =>
    by_cases heq : h = hash
    · rw [heq]
    · simp [duty, heq] at hd
  | platformsListed | nodeEvaluated => simp [duty] at hd
  | _ => cases hd

theorem duty_ends {e : TopologyEvent} (hd : duty object hash e = some false) :
    (∃ objects, e = .platformsListed hash objects ∧ object ∉ objects) ∨
      e = .nodeEvaluated object hash := by
  cases e with
  | nodeChanged h => simp [duty] at hd
  | platformsListed h objects =>
    by_cases hboth : h = hash ∧ object ∉ objects
    · exact Or.inl ⟨objects, by rw [hboth.1], hboth.2⟩
    · simp only [duty, if_neg hboth, reduceCtorEq] at hd
  | nodeEvaluated o h =>
    by_cases hboth : o = object ∧ h = hash
    · exact Or.inr (by rw [hboth.1, hboth.2])
    · simp only [duty, if_neg hboth, reduceCtorEq] at hd
  | _ => cases hd

section Since

variable {i j : ℕ} {e : TopologyEvent} {trace : List (ℕ × TopologyEvent)}

theorem sinceBuilt_cons_of_ne (h : j ≠ i) :
    sinceBuilt i ((j, e) :: trace) = (j, e) :: sinceBuilt i trace := by
  unfold sinceBuilt
  rw [List.takeWhile_cons_of_pos (by simp [h])]

theorem missed_of_cons (h : j ≠ i) (hmissed : missed i ((j, e) :: trace) = false) :
    missed i trace = false := by
  refine Bool.eq_false_iff.mpr fun hold => Bool.eq_false_iff.mp hmissed ?_
  unfold missed at hold ⊢
  rw [sinceBuilt_cons_of_ne h]
  obtain ⟨q, hq, hboth⟩ := List.any_eq_true.mp hold
  obtain ⟨hlists, hany⟩ := Bool.and_eq_true_iff.mp hboth
  obtain ⟨r, hr, hr'⟩ := List.any_eq_true.mp hany
  refine List.any_eq_true.mpr ⟨q, .tail _ hq, Bool.and_eq_true_iff.mpr ⟨hlists, ?_⟩⟩
  exact List.any_eq_true.mpr ⟨r, .tail _ hr, hr'⟩

theorem not_mem_openBy_of_not_missed (h : j ≠ i) (he : e.lists = true)
    (hmissed : missed i ((j, e) :: trace) = false) (object : ℕ) (hash : Hash) :
    j ∉ openBy (duty object hash) (sinceBuilt i trace) := by
  intro hmem
  obtain ⟨e', he', hbegin⟩ := exists_begin_of_mem_openBy hmem
  have hchanges : e'.changes = true := by rw [duty_begins hbegin]; rfl
  refine Bool.eq_false_iff.mp hmissed ?_
  unfold missed
  rw [sinceBuilt_cons_of_ne h]
  refine List.any_eq_true.mpr ⟨(j, e), .head _, Bool.and_eq_true_iff.mpr ⟨he, ?_⟩⟩
  exact List.any_eq_true.mpr ⟨(j, e'), List.mem_cons_of_mem _ he', by simp [hchanges]⟩

end Since

/-! ## What the operations keep to -/

/-- The object has been published, if it was built in this history. -/
def Public (h : TopologyHistory) (object : ℕ) : Prop :=
  object < h.state.objects.length ∧ ∀ i, (i, .platformBuilt object) ∈ h.trace →
    ∃ k, (k, .platformPublished object) ∈ h.trace

/-- **The views are current**, where nobody owes them a look. -/
structure Current (h : TopologyHistory) : Prop where
  nodes : KeysNodup NodeEntry.hash h.state.nodes
  named : ∀ i object, (i, .platformBuilt object) ∈ h.trace ∨
    (i, .platformPublished object) ∈ h.trace → object < h.state.objects.length
  builder : ∀ i j object, (i, .platformBuilt object) ∈ h.trace →
    (j, .platformBuilt object) ∈ h.trace → i = j
  pub : ∀ object ∈ h.state.registered, Public h object
  views : ∀ object ∈ h.state.registered, ∀ hash, openBy (duty object hash) h.trace = [] →
    InStep h.state object hash

/-- The object is the thread's own: nobody else has seen it, and its view is right where nobody has
changed a node since it was built. -/
structure Private (i object : ℕ) (h : TopologyHistory) : Prop where
  built : (i, .platformBuilt object) ∈ h.trace
  unpublished : ∀ k, (k, .platformPublished object) ∉ h.trace
  fresh : missed i h.trace = false → ∀ hash,
    openBy (duty object hash) (sinceBuilt i h.trace) = [] → InStep h.state object hash

structure Move (i : ℕ) (h : TopologyHistory) (e : TopologyEvent) (t : Topology) : Prop where
  nodes : KeysNodup NodeEntry.hash h.state.nodes → KeysNodup NodeEntry.hash t.nodes
  objects : h.state.objects.length ≤ t.objects.length
  /-- a view that is right stays right, where the node is not changed -/
  kept : ∀ object hash, object < h.state.objects.length → duty object hash e = none →
    InStep h.state object hash → InStep t object hash
  /-- a listing is of all platforms, and changes nothing -/
  listed : ∀ hash objects, e = .platformsListed hash objects →
    objects = h.state.registered ∧ t = h.state := by nofun
  /-- a platform that is looked at is known, and is right at the node afterwards -/
  looked : ∀ object hash, e = .nodeEvaluated object hash →
    Public h object ∧ InStep t object hash := by nofun
  built : ∀ object, e = .platformBuilt object →
    object = h.state.objects.length ∧ object < t.objects.length := by nofun
  /-- what is published is the thread's own object -/
  published : ∀ object, e = .platformPublished object → Private i object h := by nofun
  registered : ∀ object ∈ t.registered,
    object ∈ h.state.registered ∨ e = .platformPublished object := by exact fun _ ho => .inl ho

structure ViewRely (i : ℕ) (h h' : TopologyHistory) : Prop where
  own : own i h'.trace = own i h.trace
  pub : ∀ object, Public h object → Public h' object
  priv : ∀ object, Private i object h → Private i object h'

def viewing : Discipline Topology TopologyEvent Empty where
  inv := Current
  may := PublishedInTime
  rely := ViewRely
  rely_refl _ _ := ⟨rfl, fun _ h => h, fun _ h => h⟩
  rely_trans h₁ h₂ := ⟨h₂.own.trans h₁.own, fun o h => h₂.pub o (h₁.pub o h),
    fun o h => h₂.priv o (h₁.priv o h)⟩

section Move

variable {i j object : ℕ} {h : TopologyHistory} {e : TopologyEvent} {t : Topology}

theorem Public.not_private (hpub : Public h object) (hpriv : Private j object h) : False := by
  obtain ⟨k, hk⟩ := hpub.2 j hpriv.built
  exact hpriv.unpublished k hk

theorem Public.move (hpub : Public h object) (hm : Move i h e t) : Public (h.did i e t) object := by
  refine ⟨lt_of_lt_of_le hpub.1 hm.objects, fun k hk => ?_⟩
  rcases List.mem_cons.mp hk with heq | hk
  · have hnew := (hm.built object (Prod.mk.inj heq).2.symm).1
    exact absurd hpub.1 (by omega)
  · obtain ⟨k', hk'⟩ := hpub.2 k hk
    exact ⟨k', .tail _ hk'⟩

theorem Private.move (hp : Private j object h) (hj : i ≠ j) (hc : Current h) (hm : Move i h e t) :
    Private j object (h.did i e t) := by
  refine ⟨.tail _ hp.built, fun k hk => ?_, fun hmissed hash hopen => ?_⟩
  · rcases List.mem_cons.mp hk with heq | hk
    · have hown := hm.published object (Prod.mk.inj heq).2.symm
      exact hj (hc.builder i j object hown.built hp.built)
    · exact hp.unpublished k hk
  · have hlt := hc.named j object (.inl hp.built)
    rw [Hist.did_trace] at hmissed hopen
    have hfresh := hp.fresh (missed_of_cons hj hmissed) hash
    rw [sinceBuilt_cons_of_ne hj] at hopen
    cases hd : duty object hash e with
    | none =>
      rw [openBy_other _ _ hd] at hopen
      exact hm.kept object hash hlt hd (hfresh hopen)
    | some b =>
      cases b with
      | true =>
        rw [openBy_begin _ _ hd] at hopen
        cases hopen
      | false =>
        rcases duty_ends hd with ⟨objects, rfl, -⟩ | rfl
        · -- the thread that lists has not changed the node since the object was built
          have hnot := not_mem_openBy_of_not_missed hj rfl hmissed object hash
          rw [openBy_end _ _ hd, List.filter_eq_self.mpr ?_] at hopen
          · rw [Hist.did_state, (hm.listed hash objects rfl).2]
            exact hfresh hopen
          · exact fun k hk => decide_eq_true fun heq => hnot (heq ▸ hk)
        · exact absurd hp (hm.looked object hash rfl).1.not_private

theorem Current.move (hc : Current h) (hm : Move i h e t) (hmay : PublishedInTime h i e) :
    Current (h.did i e t) := by
  refine ⟨hm.nodes hc.nodes, fun k o hko => ?_, fun k k' o hk hk' => ?_, fun o ho => ?_,
    fun o ho hash hopen => ?_⟩
  · refine hko.elim (fun hk => ?_) fun hk => ?_
    · rcases List.mem_cons.mp hk with heq | hk
      · exact (hm.built o (Prod.mk.inj heq).2.symm).2
      · exact lt_of_lt_of_le (hc.named k o (.inl hk)) hm.objects
    · rcases List.mem_cons.mp hk with heq | hk
      · have hown := hm.published o (Prod.mk.inj heq).2.symm
        exact lt_of_lt_of_le (hc.named i o (.inl hown.built)) hm.objects
      · exact lt_of_lt_of_le (hc.named k o (.inr hk)) hm.objects
  · have hnew : ∀ k, (k, .platformBuilt o) ∈ h.trace → e ≠ .platformBuilt o := by
      intro k hk he
      have hlt := hc.named k o (.inl hk)
      have heq := (hm.built o he).1
      omega
    rcases List.mem_cons.mp hk with heq | hk
    · rcases List.mem_cons.mp hk' with heq' | hk'
      · rw [(Prod.mk.inj heq).1, (Prod.mk.inj heq').1]
      · exact absurd (Prod.mk.inj heq).2.symm (hnew k' hk')
    · rcases List.mem_cons.mp hk' with heq' | hk'
      · exact absurd (Prod.mk.inj heq').2.symm (hnew k hk)
      · exact hc.builder k k' o hk hk'
  · rcases hm.registered o ho with ho | rfl
    · exact (hc.pub o ho).move hm
    · have hown := hm.published o rfl
      refine ⟨lt_of_lt_of_le (hc.named i o (.inl hown.built)) hm.objects, fun _ _ => ?_⟩
      exact ⟨i, .head _⟩
  · rw [Hist.did_trace] at hopen
    rcases hm.registered o ho with hold | rfl
    · have hlt := (hc.pub o hold).1
      cases hd : duty o hash e with
      | none =>
        rw [openBy_other _ _ hd] at hopen
        exact hm.kept o hash hlt hd (hc.views o hold hash hopen)
      | some b =>
        cases b with
        | true =>
          rw [openBy_begin _ _ hd] at hopen
          cases hopen
        | false =>
          rcases duty_ends hd with ⟨objects, rfl, hnot⟩ | rfl
          · rw [(hm.listed hash objects rfl).1] at hnot
            exact absurd hold hnot
          · exact (hm.looked o hash rfl).2
    · -- the object is published now: whoever changed a node since still has to list the platforms
      have hown := hm.published o rfl
      rw [openBy_other _ _ rfl] at hopen
      have hsince : openBy (duty o hash) (sinceBuilt i h.trace) = [] := by
        refine List.eq_nil_iff_forall_not_mem.mpr fun k hk => ?_
        have hall := mem_openBy_append (h.trace.dropWhile fun q => !(q.1 = i && q.2.builds)) hk
        unfold sinceBuilt at hall
        rw [List.takeWhile_append_dropWhile, hopen] at hall
        cases hall
      exact hm.kept o hash (hc.named i o (.inl hown.built)) rfl (hown.fresh hmay hash hsince)

theorem viewing_did (hc : Current h) (hmay : PublishedInTime h i e) (hm : Move i h e t) :
    viewing.Keeps i h (h.did i e t) :=
  ⟨hc.move hm hmay, fun _ hj => ⟨own_cons_of_ne (Ne.symm hj) e h.trace, fun _ hpub => hpub.move hm,
    fun _ hpriv => hpriv.move (Ne.symm hj) hc hm⟩⟩

end Move

/-! ## The steps -/

/-- What a change of a node keeps to: it is silent only if no platform thinks otherwise of the node. -/
structure Changes (hash : Hash) (f : Topology → Bool × NodePool) : Prop where
  nodes : ∀ t, KeysNodup NodeEntry.hash t.nodes → KeysNodup NodeEntry.hash (f t).2
  others : ∀ t hash', hash' ≠ hash → (f t).2.getEntry hash' = t.nodes.getEntry hash'
  silent : ∀ t, (f t).1 = false → ∀ p : PlatformObject,
    ((f t).2.getEntry hash).any (p.evaluateNode t.enabled) =
      (t.nodes.getEntry hash).any (p.evaluateNode t.enabled)

section Steps

variable {i : ℕ} {h : TopologyHistory}

theorem move_still {e : TopologyEvent} (hl : ∀ hash objects, e = .platformsListed hash objects →
      objects = h.state.registered)
    (hlook : ∀ object hash, e ≠ .nodeEvaluated object hash)
    (hbuilt : ∀ object, e ≠ .platformBuilt object)
    (hpublished : ∀ object, e ≠ .platformPublished object) : Move i h e h.state where
  nodes := id
  objects := le_refl _
  kept _ _ _ _ hstep := hstep
  listed hash objects he := ⟨hl hash objects he, rfl⟩
  looked object hash he := absurd he (hlook object hash)
  built object he := absurd he (hbuilt object)
  published object he := absurd he (hpublished object)

theorem move_nodeChanged {f : Topology → Bool × NodePool} (hf : Changes hash f) :
    Move i h (.nodeChanged hash) { h.state with nodes := (f h.state).2 } where
  nodes := hf.nodes h.state
  objects := le_refl _
  kept object hash' _ hnone hstep := by
    have hne : hash' ≠ hash := fun heq => by simp [duty, heq] at hnone
    exact hstep.congr rfl fun p => by rw [hf.others h.state hash' hne]

theorem move_nodeTouched {f : Topology → Bool × NodePool} (hf : Changes hash f)
    (hsilent : (f h.state).1 = false) :
    Move i h (.nodeTouched hash) { h.state with nodes := (f h.state).2 } where
  nodes := hf.nodes h.state
  objects := le_refl _
  kept object hash' _ _ hstep := by
    by_cases hne : hash' = hash
    · exact hstep.congr rfl fun p => by rw [hne, hf.silent h.state hsilent p]
    · exact hstep.congr rfl fun p => by rw [hf.others h.state hash' hne]

theorem move_nodeEvaluated (hpub : Public h object) : Move i h (.nodeEvaluated object hash)
      (h.state.onObject object (PlatformObject.notifyDirty h.state.enabled h.state.nodes hash)) where
  nodes := id
  objects := (List.length_modify ..).ge
  kept object' hash' _ hnone hstep := by
    by_cases hobject : object' = object
    · subst hobject
      have hne : hash' ≠ hash := fun heq => by simp [duty, heq] at hnone
      exact hstep.notifyDirty hne
    · exact hstep.of_same (getElem?_onObject_of_ne hobject _) rfl rfl
  looked object' hash' he := by
    obtain ⟨rfl, rfl⟩ := TopologyEvent.nodeEvaluated.inj he
    exact ⟨hpub, inStep_notifyDirty⟩

theorem move_platformRebuilt (object : ℕ) (hnodes : KeysNodup NodeEntry.hash h.state.nodes) :
    Move i h (.platformRebuilt object)
      (h.state.onObject object (PlatformObject.fullRebuild h.state.enabled h.state.nodes)) where
  nodes := id
  objects := (List.length_modify ..).ge
  kept object' hash' _ _ hstep := by
    by_cases hobject : object' = object
    · subst hobject
      exact inStep_fullRebuild hnodes
    · exact hstep.of_same (getElem?_onObject_of_ne hobject _) rfl rfl

theorem move_platformBuilt (p : PlatformObject) :
    Move i h (.platformBuilt h.state.objects.length) { h.state with
      objects := h.state.objects ++ [p.fullRebuild h.state.enabled h.state.nodes] } where
  nodes := id
  objects := by simp
  kept object' hash' hlt _ hstep := hstep.of_same (List.getElem?_append_left hlt) rfl rfl
  built object he := by
    obtain rfl := TopologyEvent.platformBuilt.inj he
    exact ⟨rfl, by simp⟩

structure Publishes (object : ℕ) (t t' : Topology) : Prop where
  nodes : t'.nodes = t.nodes
  objects : t'.objects = t.objects
  enabled : t'.enabled = t.enabled
  registered : ∀ o ∈ t'.registered, o ∈ t.registered ∨ o = object

theorem move_platformPublished {t : Topology} (hp : Private i object h)
    (ht : Publishes object h.state t) : Move i h (.platformPublished object) t where
  nodes := fun hnodes => ht.nodes ▸ hnodes
  objects := by rw [ht.objects]
  kept object' hash' _ _ hstep := hstep.of_same (by rw [ht.objects]) ht.nodes ht.enabled
  published object' he := by
    obtain rfl := TopologyEvent.platformPublished.inj he
    exact hp
  registered o ho := (ht.registered o ho).imp_right fun heq => by rw [heq]

theorem mem_setKey {key : String} {o : ℕ} {rows : List (String × ℕ)}
    (ho : o ∈ (Topology.setKey key object rows).map Prod.snd) :
    o ∈ rows.map Prod.snd ∨ o = object := by
  unfold Topology.setKey at ho
  rw [List.map_append, List.mem_append] at ho
  rcases ho with ho | ho
  · exact .inl ((List.filter_sublist.map Prod.snd).subset ho)
  · exact .inr (List.mem_singleton.mp ho)

theorem publishes_register {t t' : Topology} (ht : t.register object = some t') :
    Publishes object t t' := by
  unfold Topology.register at ht
  split at ht
  · cases ht
  split at ht
  · cases ht
  rename_i p _ _
  cases ht
  refine ⟨rfl, rfl, rfl, fun o ho => ?_⟩
  have ho : o ∈ (t.byID ++ [(p.id, object)]).map Prod.snd := ho
  rw [List.map_append, List.mem_append] at ho
  exact ho.imp_right List.mem_singleton.mp

theorem publishes_swap {t t' : Topology} (ht : t.swap object = some t') :
    Publishes object t t' := by
  unfold Topology.swap at ht
  split at ht
  · cases ht
  split at ht
  · cases ht
  · split at ht
    · cases ht
    · cases ht
      exact ⟨rfl, rfl, rfl, fun o ho => mem_setKey ho⟩

theorem move_platformDropped (id : String) :
    Move i h (.platformDropped id) (h.state.unregister id) := by
  unfold Topology.unregister
  split
  · exact move_still nofun nofun nofun nofun
  exact {
    nodes := fun hnodes => hnodes
    objects := le_refl _
    kept := fun _ _ _ _ hstep => hstep.of_same rfl rfl rfl
    registered := fun _ ho => .inl ((List.filter_sublist.map Prod.snd).subset ho) }

end Steps

/-! ## What the changes keep to -/

theorem changes_addReference (hash : Hash) (rawOptions subID : String) (nowNs : ℤ) :
    Changes hash fun t => (true, t.nodes.addReference hash rawOptions subID nowNs) where
  nodes _ h := NodePool.keysNodup_addReference h rawOptions subID nowNs
  others _ _ hne := NodePool.getEntry_addReference_of_ne hne rawOptions subID nowNs
  silent := nofun

theorem changes_removeReference (hash : Hash) (subID : String) :
    Changes hash fun t => (true, t.nodes.removeReference hash subID) where
  nodes _ h := NodePool.keysNodup_removeReference h subID
  others _ _ hne := NodePool.getEntry_removeReference_of_ne hne subID
  silent := nofun

theorem any_getEntry_modify {nodes : NodePool} {e : NodeEntry} {f : NodeEntry → NodeEntry}
    {p : NodeEntry → Bool} (hf : ∀ e, (f e).hash = e.hash) (he : nodes.getEntry hash = some e)
    (hp : p (f e) = p e) :
    ((NodePool.modify nodes hash f).getEntry hash).any p = (nodes.getEntry hash).any p := by
  rw [NodePool.getEntry_modify hf, if_pos rfl, he]
  exact hp

theorem changes_recordOutcome (hash : Hash) (success : Bool) (nowNs : ℤ) : Changes hash fun t =>
      NodePool.recordOutcome t.maxConsecutiveFailures t.nodes hash success nowNs where
  nodes t h := NodePool.keysNodup_recordOutcome h t.maxConsecutiveFailures success nowNs
  others t _ hne := NodePool.getEntry_recordOutcome_of_ne hne t.maxConsecutiveFailures success nowNs
  silent t hsilent p := by
    unfold NodePool.recordOutcome at hsilent ⊢
    cases he : t.nodes.getEntry hash with
    | none => simp only [he]
    | some e =>
      simp only [he] at hsilent ⊢
      rw [← he]
      by_cases hsuccess : success = true
      · rw [if_pos hsuccess] at hsilent ⊢
        have hclosed : e.circuitOpenSince = 0 := by
          simpa [NodeEntry.isCircuitOpen] using hsilent
        refine any_getEntry_modify (fun _ => rfl) he ?_
        unfold PlatformObject.evaluateNode NodeEntry.isHealthy NodeEntry.isCircuitOpen
        rw [hclosed]
        rfl
      · rw [if_neg hsuccess] at hsilent ⊢
        split_ifs at hsilent with hnot
        rw [if_neg hnot]
        exact any_getEntry_modify (fun _ => rfl) he rfl

theorem changes_updateEgressIP (hash : Hash) (ip : Option Addr) (loc : Option String) :
    Changes hash fun t => NodePool.updateEgressIP t.nodes hash ip loc where
  nodes _ h := NodePool.keysNodup_updateEgressIP h ip loc
  others _ _ hne := NodePool.getEntry_updateEgressIP_of_ne hne ip loc
  silent t hsilent p := by
    unfold NodePool.updateEgressIP at hsilent ⊢
    cases he : t.nodes.getEntry hash with
    | none => simp only [he]
    | some e =>
      simp only [he, Bool.or_eq_false_iff, decide_eq_false_iff_not, not_not] at hsilent ⊢
      rw [← he]
      refine any_getEntry_modify (fun _ => rfl) he ?_
      rw [← hsilent.1, ← hsilent.2]

/-- The looks a thread owes are of this kind. -/
def Owes (i : ℕ) (P : ℕ → Hash → Prop) (h : TopologyHistory) : Prop :=
  ∀ object hash, i ∈ openBy (duty object hash) h.trace → P object hash

abbrev OwesNothing (i : ℕ) (h : TopologyHistory) : Prop := Owes i (fun _ _ => False) h

section Operations

variable {i : ℕ} {h k : TopologyHistory} {P : ℕ → Hash → Prop}

theorem Owes.of_rely (ho : Owes i P h) (hr : ViewRely i h k) : Owes i P k :=
  fun object hash hmem => ho object hash ((mem_openBy_of_own hr.own).mp hmem)

theorem Owes.did {e : TopologyEvent} (ho : Owes i P h) (he : ∀ object hash, duty object hash e = none)
    (t : Topology) : Owes i P (h.did i e t) := by
  intro object hash hmem
  rw [Hist.did_trace, openBy_other _ _ (he object hash)] at hmem
  exact ho object hash hmem

theorem Owes.changed (ho : OwesNothing i h) (t : Topology) :
    Owes i (fun _ hash' => hash' = hash) (h.did i (.nodeChanged hash) t) := by
  intro object hash' hmem
  by_contra hne
  have hnone : duty object hash' (.nodeChanged hash) = none := if_neg (Ne.symm hne)
  rw [Hist.did_trace, openBy_other _ _ hnone] at hmem
  exact ho object hash' hmem

theorem Owes.listed (ho : Owes i (fun _ hash' => hash' = hash) h) (t : Topology) :
    Owes i (fun object hash' => object ∈ objects ∧ hash' = hash)
      (h.did i (.platformsListed hash objects) t) := by
  intro object hash' hmem
  rw [Hist.did_trace] at hmem
  by_cases hends : hash = hash' ∧ object ∉ objects
  · have hend : duty object hash' (.platformsListed hash objects) = some false := if_pos hends
    rw [openBy_end _ _ hend] at hmem
    exact absurd (List.mem_filter.mp hmem).2 (by simp)
  · have hnone : duty object hash' (.platformsListed hash objects) = none := if_neg hends
    rw [openBy_other _ _ hnone] at hmem
    have hhash := ho object hash' hmem
    exact ⟨by_contra fun hnot => hends ⟨hhash.symm, hnot⟩, hhash⟩

theorem Owes.evaluated (ho : Owes i (fun o hash' => o ∈ object :: objects ∧ hash' = hash) h)
    (t : Topology) :
    Owes i (fun o hash' => o ∈ objects ∧ hash' = hash)
      (h.did i (.nodeEvaluated object hash) t) := by
  intro o hash' hmem
  rw [Hist.did_trace] at hmem
  by_cases hends : object = o ∧ hash = hash'
  · have hend : duty o hash' (.nodeEvaluated object hash) = some false := if_pos hends
    rw [openBy_end _ _ hend] at hmem
    exact absurd (List.mem_filter.mp hmem).2 (by simp)
  · have hnone : duty o hash' (.nodeEvaluated object hash) = none := if_neg hends
    rw [openBy_other _ _ hnone] at hmem
    obtain ⟨hlist, hhash⟩ := ho o hash' hmem
    refine ⟨(List.mem_cons.mp hlist).resolve_left fun heq => ?_, hhash⟩
    exact hends ⟨heq.symm, hhash.symm⟩

theorem safe_evaluateOn (ho : Owes i (fun o hash' => o ∈ objects ∧ hash' = hash) h)
    (hpub : ∀ o ∈ objects, Public h o) :
    viewing.Safe i (fun _ => OwesNothing i) (Topology.evaluateOn hash objects) h := by
  induction objects generalizing h with
  | nil =>
    refine fun k hr _ => Owes.of_rely (fun o hash' hmem => ?_) hr
    exact absurd (ho o hash' hmem).1 (by simp)
  | cons object objects ih =>
    intro k hr hinv hmay
    have hmove : Move i k (.nodeEvaluated object hash) _ :=
      move_nodeEvaluated (hr.pub object (hpub object (.head _)))
    refine ⟨viewing_did hinv hmay hmove, ih (Owes.evaluated (ho.of_rely hr) _) fun o hmem => ?_⟩
    exact (hr.pub o (hpub o (.tail _ hmem))).move hmove

variable (walk : Walk)

theorem safe_notifyAllPlatformsDirty (ho : Owes i (fun _ hash' => hash' = hash) h) :
    viewing.Safe i (fun _ => OwesNothing i) (Topology.notifyAllPlatformsDirty walk hash) h := by
  intro k hr hinv hmay
  have hmove : Move i k (.platformsListed hash k.state.registered) k.state :=
    move_still (fun _ _ he => (TopologyEvent.platformsListed.inj he).2.symm) nofun nofun nofun
  refine ⟨viewing_did hinv hmay hmove, safe_evaluateOn (fun o hash' hmem => ?_) fun o hmem => ?_⟩
  · obtain ⟨hlist, hhash⟩ := Owes.listed (ho.of_rely hr) k.state o hash' hmem
    exact ⟨(walk.mem_order _ o).mpr hlist, hhash⟩
  · exact (hinv.pub o ((walk.mem_order _ o).mp hmem)).move hmove

theorem safe_changeNode {f : Topology → Bool × NodePool} (hf : Changes hash f)
    (ho : OwesNothing i h) :
    viewing.Safe i (fun _ => OwesNothing i) (Topology.changeNode walk hash f) h := by
  intro k hr hinv hmay
  have ho' := ho.of_rely hr
  dsimp only at hmay ⊢
  cases htold : (f k.state).1 with
  | true =>
    rw [htold] at hmay
    exact ⟨viewing_did hinv hmay (move_nodeChanged hf),
      safe_notifyAllPlatformsDirty walk (Owes.changed ho' _)⟩
  | false =>
    rw [htold] at hmay
    refine ⟨viewing_did hinv hmay (move_nodeTouched hf htold), fun n hr' _ => ?_⟩
    exact (ho'.did (fun _ _ => rfl) _).of_rely hr'

theorem safe_buildPlatform (p : PlatformObject) (ho : OwesNothing i h) :
    viewing.Safe i (fun object k => Private i object k ∧ OwesNothing i k)
      (Topology.buildPlatform p) h := by
  intro k hr hinv hmay
  refine ⟨viewing_did hinv hmay (move_platformBuilt p), fun n hr' _ => ⟨hr'.priv _ ?_, ?_⟩⟩
  · refine ⟨.head _, fun j hj => ?_, fun _ hash _ => ?_⟩
    · rcases List.mem_cons.mp hj with heq | hj
      · exact absurd (Prod.mk.inj heq).2 (by simp)
      · exact absurd (hinv.named j _ (.inr hj)) (lt_irrefl _)
    · unfold InStep Topology.viewOf Topology.admits
      simp only [Hist.did_state, List.getElem?_concat_length]
      exact mem_fullRebuild hinv.nodes p hash
  · exact ((ho.of_rely hr).did (fun _ _ => rfl) _).of_rely hr'

theorem safe_publish {f : Topology → Option Topology}
    (hf : ∀ t t', f t = some t' → Publishes object t t') (hp : Private i object h)
    (ho : OwesNothing i h) :
    viewing.Safe i (fun _ => OwesNothing i) (Topology.publish object f) h := by
  intro k hr hinv hmay
  have ho' := ho.of_rely hr
  dsimp only at hmay ⊢
  cases hsome : f k.state with
  | some t =>
    rw [hsome] at hmay
    refine ⟨viewing_did hinv hmay (move_platformPublished (hr.priv object hp) (hf _ _ hsome)),
      fun n hr' _ => ?_⟩
    exact (ho'.did (fun _ _ => rfl) _).of_rely hr'
  | none =>
    rw [hsome] at hmay
    refine ⟨viewing_did hinv hmay (move_still nofun nofun nofun nofun), fun n hr' _ => ?_⟩
    exact (ho'.did (fun _ _ => rfl) _).of_rely hr'

theorem safe_build_publish (p : PlatformObject) {f : ℕ → Topology → Option Topology}
    (hf : ∀ object t t', f object t = some t' → Publishes object t t') (ho : OwesNothing i h) :
    viewing.Safe i (fun _ => OwesNothing i)
      ((Topology.buildPlatform p).bind fun object => Topology.publish object (f object)) h := by
  refine (safe_buildPlatform p ho).seq ?_
  rintro object k ⟨hp, ho'⟩
  exact safe_publish (hf object) hp ho'

theorem safe_rebuildOn (ho : OwesNothing i h) :
    viewing.Safe i (fun _ => OwesNothing i) (Topology.rebuildOn objects) h := by
  induction objects generalizing h with
  | nil => exact fun k hr _ => ho.of_rely hr
  | cons object objects ih =>
    intro k hr hinv hmay
    exact ⟨viewing_did hinv hmay (move_platformRebuilt object hinv.nodes),
      ih ((ho.of_rely hr).did (fun _ _ => rfl) _)⟩

theorem safe_rebuildAllPlatforms (ho : OwesNothing i h) :
    viewing.Safe i (fun _ => OwesNothing i) (Topology.rebuildAllPlatforms walk) h := by
  intro k hr hinv hmay
  exact ⟨viewing_did hinv hmay (move_still nofun nofun nofun nofun),
    safe_rebuildOn ((ho.of_rely hr).did (fun _ _ => rfl) _)⟩

theorem safe_unregisterPlatform (id : String) (ho : OwesNothing i h) :
    viewing.Safe i (fun _ => OwesNothing i) (Topology.unregisterPlatform id) h := by
  intro k hr hinv hmay
  refine ⟨viewing_did hinv hmay (move_platformDropped id), fun n hr' _ => ?_⟩
  exact ((ho.of_rely hr).did (fun _ _ => rfl) _).of_rely hr'

end Operations

/-- The operations on nodes and platforms. -/
inductive TopologyCall where
  | addNodeFromSub (walk : Walk) (hash : Hash) (rawOptions subID : String) (nowNs : ℤ)
  | removeNodeFromSub (walk : Walk) (hash : Hash) (subID : String)
  | recordOutcome (walk : Walk) (hash : Hash) (success : Bool) (nowNs : ℤ)
  | updateNodeEgressIP (walk : Walk) (hash : Hash) (ip : Option Addr) (loc : Option String)
  | createPlatform (p : PlatformObject)
  | replacePlatform (next : PlatformObject)
  | rebuildAllPlatforms (walk : Walk)
  | unregisterPlatform (id : String)

def TopologyCall.prog : TopologyCall → TopologyTask Unit
  | .addNodeFromSub walk hash rawOptions subID nowNs =>
    Topology.addNodeFromSub walk hash rawOptions subID nowNs
  | .removeNodeFromSub walk hash subID => Topology.removeNodeFromSub walk hash subID
  | .recordOutcome walk hash success nowNs => Topology.recordOutcome walk hash success nowNs
  | .updateNodeEgressIP walk hash ip loc => Topology.updateNodeEgressIP walk hash ip loc
  | .createPlatform p => (Topology.createPlatform p).bind fun _ => pure ()
  | .replacePlatform next => (Topology.replacePlatform next).bind fun _ => pure ()
  | .rebuildAllPlatforms walk => Topology.rebuildAllPlatforms walk
  | .unregisterPlatform id => Topology.unregisterPlatform id

theorem TopologyCall.safe (call : TopologyCall) {i : ℕ} {h : TopologyHistory}
    (ho : OwesNothing i h) : viewing.Safe i (fun _ => OwesNothing i) call.prog h := by
  have hforget : ∀ {task : TopologyTask Bool}, viewing.Safe i (fun _ => OwesNothing i) task h →
        viewing.Safe i (fun _ => OwesNothing i) (task.bind fun _ => pure ()) h :=
    fun hs => hs.seq fun _ _ ho' _ hr _ => Owes.of_rely ho' hr
  cases call with
  | addNodeFromSub walk hash rawOptions subID nowNs =>
    exact safe_changeNode walk (changes_addReference hash rawOptions subID nowNs) ho
  | removeNodeFromSub walk hash subID =>
    exact safe_changeNode walk (changes_removeReference hash subID) ho
  | recordOutcome walk hash success nowNs =>
    exact safe_changeNode walk (changes_recordOutcome hash success nowNs) ho
  | updateNodeEgressIP walk hash ip loc =>
    exact safe_changeNode walk (changes_updateEgressIP hash ip loc) ho
  | createPlatform p =>
    exact hforget (safe_build_publish p (fun _ _ _ ht => publishes_register ht) ho)
  | replacePlatform next =>
    refine hforget ?_
    unfold Topology.replacePlatform
    split
    · exact fun k hr _ => ho.of_rely hr
    · exact safe_build_publish next (fun _ _ _ ht => publishes_swap ht) ho
  | rebuildAllPlatforms walk => exact safe_rebuildAllPlatforms walk ho
  | unregisterPlatform id => exact safe_unregisterPlatform id ho

/-- **The views are right to begin with.** -/
structure Topology.Settled (t : Topology) : Prop where
  nodes : KeysNodup NodeEntry.hash t.nodes
  objects : ∀ object ∈ t.registered, object < t.objects.length
  views : ∀ object ∈ t.registered, ∀ hash, InStep t object hash

theorem Topology.Settled.current {t : Topology} (ht : t.Settled) : Current { state := t } where
  nodes := ht.nodes
  named _ _ hmem := hmem.elim nofun nofun
  builder _ _ _ hmem := nomatch hmem
  pub object ho := ⟨ht.objects object ho, nofun⟩
  views object ho hash _ := ht.views object ho hash

/-- **Views are current.**  However the operations interleave, if no platform was published after it
had missed a change, then once all have finished the view of every registered platform is exactly the
set of nodes that qualify. -/
theorem views_current {t : Topology} (ht : t.Settled) (calls : List TopologyCall) (sched : List ℕ)
    (hmay : Along Pool.step (Pool.Meets PublishedInTime)
      (Pool.start t (calls.map TopologyCall.prog)) sched)
    (hfinished : (run Pool.step (Pool.start t (calls.map TopologyCall.prog)) sched).Finished) :
    let after := (run Pool.step (Pool.start t (calls.map TopologyCall.prog)) sched).hist.state
    ∀ object ∈ after.registered, ∀ hash, InStep after object hash := by
  intro after
  have hstart : Discipline.Kept viewing (fun i _ k => OwesNothing i k)
      (Pool.start t (calls.map TopologyCall.prog)) :=
    .of_calls ht.current fun _ call _ => call.safe nofun
  have hkept := viewing.run_safe hstart hmay
  intro object ho hash
  refine hkept.inv.views object ho hash (List.eq_nil_iff_forall_not_mem.mpr fun i hi => ?_)
  -- a thread that owes a look has made a step, and has finished: it owes nothing
  obtain ⟨q, hq, rfl⟩ := List.mem_map.mp (openBy_subset hi)
  obtain ⟨a, ha⟩ := hfinished.answer (Pool.numbered_run t _ sched q hq)
  exact hkept.answer ha object hash hi

def oneNode : Topology where
  nodes := [{ hash := 1, subscriptionIDs := ["sub"], egressIP := some "203.0.113.7",
              hasOutbound := true, hasLatency := true }]

def createWhileRemoving : List TopologyCall :=
  [.createPlatform { id := "eu" }, .removeNodeFromSub {} 1 "sub"]

/-- **A change falls in between.**  The platform is rebuilt, the node is removed and the platforms are
listed, and the platform is registered: all is finished, and its view holds a node the pool has not. -/
theorem view_misses_a_change :
    let pool := run Pool.step (Pool.start oneNode (createWhileRemoving.map TopologyCall.prog))
      [0, 1, 1, 0]
    pool.Finished ∧ 0 ∈ pool.hist.state.registered ∧ 1 ∈ pool.hist.state.viewOf 0 ∧
      pool.hist.state.admits 0 1 = false ∧ pool.hist.state.nodes = [] := by
  decide +kernel

theorem oneNode_settled : oneNode.Settled where
  nodes := by decide
  objects := nofun
  views := nofun

theorem views_current_in_time :
    let after := (run Pool.step (Pool.start oneNode (createWhileRemoving.map TopologyCall.prog))
      [0, 1, 0, 1, 1]).hist.state
    0 ∈ after.registered ∧ ∀ object ∈ after.registered, ∀ hash, InStep after object hash :=
  ⟨by decide +kernel, views_current oneNode_settled createWhileRemoving [0, 1, 0, 1, 1]
    (by decide +kernel) (by decide +kernel)⟩

end Prism
