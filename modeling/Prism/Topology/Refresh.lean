import Prism.Foundation.Moment
import Prism.Foundation.Tally
import Prism.Topology.Subscription

/-!
# The latest refresh wins

Any number of attempts to refresh one subscription, in the mode that replaces the managed nodes.
Every attempt takes a number first and lands later, in any order.

The guards of a success and the number of the last success that was applied are read and written
under one lock.  So the numbers that are applied grow: when the lock is free, the last attempt that
was applied has the greatest number of all attempts that have come to the guards, and the managed
nodes are its nodes (`Ordered`).

An attempt that parsed no node at all looks at the number of managed nodes before it takes the lock.
If there are some it is a failure, and if there are none it goes on as a success.  In between
another attempt may bring nodes, and these are then removed (`empty_refresh_wipes`).
-/

namespace Prism

open Prog (ret_bind)

namespace FeedEvent

/-- The managed nodes are replaced. -/
def swaps : FeedEvent → Bool
  | .nodesSwapped _ _ _ => true
  | _ => false

def sizes : FeedEvent → Bool
  | .managedSized _ => true
  | _ => false

def records : FeedEvent → Bool
  | .attemptRecorded _ _ => true
  | _ => false

def guards : FeedEvent → Bool
  | .refreshGuarded _ _ => true
  | _ => false

/-- What may change managed nodes, references, the summary or the error. -/
def mutates : FeedEvent → Bool
  | .nodesSwapped _ _ _ => true
  | .nodeReferenced _ => true
  | .nodeReleased _ => true
  | .attemptRecorded _ _ => true
  | .failureRecorded _ => true
  | _ => false

/-- What is done under the lock only, and decides which attempt wins. -/
def decides (e : FeedEvent) : Bool := e.swaps || e.records || e.guards

end FeedEvent

def Feed.visible (f : Feed) : ManagedNodes × NodePool × Option String × String :=
  (f.sub.managedNodes, f.nodes, f.sub.parseSummary, f.sub.lastError)

def NodeSubscription.config (s : NodeSubscription) : String × SourceType × String × ℤ × Bool :=
  (s.url, s.sourceType, s.content, s.configVersion, s.incrementalAliveNodes)

structure RefreshStep (imp : Importer) (f : Feed) (e : FeedEvent) (f' : Feed) : Prop where
  config : f'.sub.config = f.sub.config
  quiet : e.mutates = false → f'.visible = f.visible
  managed : e.swaps = false → f'.sub.managedNodes = f.sub.managedNodes
  swap : ∀ seq parsed before, e = .nodesSwapped seq parsed before →
    before = f.sub.managedNodes ∧
      f'.sub.managedNodes = f.mergedManagedNodes (imp.refreshed parsed)
  applied : e.records = false → f'.sub.lastAppliedSeq = f.sub.lastAppliedSeq
  record : ∀ seq before, e = .attemptRecorded seq before →
    before = f.sub.lastAppliedSeq ∧ f'.sub.lastAppliedSeq = seq

section RefreshStep

variable {imp : Importer} {f f' : Feed} {e : FeedEvent}

theorem RefreshStep.plain (hs : e.swaps = false) (hr : e.records = false)
    (hconfig : f'.sub.config = f.sub.config)
    (hmanaged : f'.sub.managedNodes = f.sub.managedNodes)
    (happlied : f'.sub.lastAppliedSeq = f.sub.lastAppliedSeq)
    (hquiet : e.mutates = false → f'.visible = f.visible) : RefreshStep imp f e f' where
  config := hconfig
  quiet := hquiet
  managed _ := hmanaged
  swap seq parsed before he := by
    subst he
    cases hs
  applied _ := happlied
  record seq before he := by
    subst he
    cases hr

theorem RefreshStep.still (hs : e.swaps = false) (hr : e.records = false) : RefreshStep imp f e f :=
  RefreshStep.plain hs hr rfl rfl rfl fun _ => rfl

variable (seq : ℤ)

theorem refreshStep_swap (parsed : List ParsedNode) :
    RefreshStep imp f (.nodesSwapped seq parsed f.sub.managedNodes)
      (f.swapManagedNodes (f.mergedManagedNodes (imp.refreshed parsed))) where
  config := rfl
  quiet h := nomatch h
  managed h := nomatch h
  swap seq' parsed' before he := by
    obtain ⟨-, rfl, rfl⟩ := FeedEvent.nodesSwapped.inj he
    exact ⟨rfl, rfl⟩
  applied _ := rfl
  record := nofun

theorem refreshStep_record (result : ParseResult) (nowNs : ℤ) :
    RefreshStep imp f (.attemptRecorded seq f.sub.lastAppliedSeq)
      (f.onSub fun s => s.markApplied imp result seq nowNs) where
  config := rfl
  quiet h := nomatch h
  managed _ := rfl
  swap := nofun
  applied h := nomatch h
  record seq' before he := by
    obtain ⟨rfl, rfl⟩ := FeedEvent.attemptRecorded.inj he
    exact ⟨rfl, rfl⟩

theorem refreshStep_reference (next : ManagedNodes) (raw : String) (nowNs : ℤ) (hash : Hash) :
    RefreshStep imp f (.nodeReferenced hash) (f.reference next raw nowNs hash) := by
  rcases f.references_reference next raw nowNs hash with heq | ⟨raw', heq⟩
  · rw [heq]
    exact RefreshStep.plain rfl rfl rfl rfl rfl nofun
  · rw [heq]
    exact RefreshStep.plain rfl rfl rfl rfl rfl nofun

theorem refreshStep_release (hash : Hash) :
    RefreshStep imp f (.nodeReleased hash) (f.release hash) :=
  RefreshStep.plain rfl rfl rfl rfl rfl nofun

theorem refreshStep_failure (report : Option ParseResult) (err : String) (nowNs : ℤ) :
    RefreshStep imp f (.failureRecorded seq)
      (f.onSub fun s => s.markFailed imp report err nowNs) := by
  cases report with
  | none | some => exact RefreshStep.plain rfl rfl rfl rfl rfl nofun

theorem refreshStep_number : RefreshStep imp f (.attemptNumbered (f.sub.attemptSeq + 1))
      (f.onSub fun s => { s with attemptSeq := s.attemptSeq + 1 }) :=
  RefreshStep.plain rfl rfl rfl rfl rfl fun _ => rfl

end RefreshStep

section Acts

variable {imp : Importer}

/-- A step of an attempt that decides nothing. -/
def PlainStep (imp : Importer) (f : Feed) (e : FeedEvent) (f' : Feed) : Prop :=
  RefreshStep imp f e f' ∧ e.decides = false

theorem steps_referenceOn (parsed : List ParsedNode) (next : ManagedNodes) (nowNs : ℤ)
    (hashes : List Hash) :
    (Feed.referenceOn imp parsed next nowNs hashes).Steps (PlainStep imp) fun _ => True := by
  induction hashes with
  | nil => trivial
  | cons hash hashes ih => exact fun f => ⟨⟨refreshStep_reference _ _ _ _, rfl⟩, ih⟩

theorem steps_releaseOn (hashes : List Hash) :
    (Feed.releaseOn hashes).Steps (PlainStep imp) fun _ => True := by
  induction hashes with
  | nil => trivial
  | cons hash hashes ih => exact fun f => ⟨⟨refreshStep_release _, rfl⟩, ih⟩

theorem acts_applyRefresh (seq : ℤ) (result : ParseResult) (nowNs : ℤ) :
    (Feed.applyRefresh imp seq result nowNs).Acts (RefreshStep imp) := by
  refine fun f => ⟨refreshStep_swap seq result.nodes, ?_⟩
  dsimp only [ret_bind]
  have hplain : ∀ f e f', PlainStep imp f e f' → RefreshStep imp f e f' := fun _ _ _ h => h.1
  refine Prog.Acts.bind ((steps_referenceOn _ _ _ _).acts.mono hplain) fun _ => ?_
  refine Prog.Acts.bind ((steps_referenceOn _ _ _ _).acts.mono hplain) fun _ => ?_
  refine Prog.Acts.bind ((steps_releaseOn _).acts.mono hplain) fun _ => ?_
  exact fun f => ⟨refreshStep_record seq result nowNs, trivial⟩

theorem acts_landRefresh (seq version : ℤ) (result : ParseResult) (nowNs : ℤ) :
    (Feed.landRefresh imp seq version result nowNs).Acts (RefreshStep imp) := by
  refine Prog.Acts.locked ?_ _
  refine fun f => ⟨RefreshStep.still rfl rfl, ?_⟩
  dsimp only [ret_bind]
  split
  · exact Prog.Acts.bind (acts_applyRefresh seq result nowNs) fun _ => trivial
  · trivial

theorem acts_handleUpdateFailure (seq version : ℤ) (err : String) (report : Option ParseResult)
    (nowNs : ℤ) :
    (Feed.handleUpdateFailure imp seq version err report nowNs).Acts (RefreshStep imp) := by
  refine Prog.Acts.locked ?_ _
  refine fun f => ⟨RefreshStep.still rfl rfl, ?_⟩
  dsimp only [ret_bind]
  split
  · exact fun f => ⟨refreshStep_failure seq report err nowNs, trivial⟩
  · trivial

theorem acts_updateSubscription (fetch : String → Except String String) (nowNs : ℤ) :
    (Feed.updateSubscription imp fetch nowNs).Acts (RefreshStep imp) := by
  refine fun f => ⟨refreshStep_number, ?_⟩
  refine fun f => ⟨RefreshStep.still rfl rfl, ?_⟩
  refine fun f => ⟨RefreshStep.still rfl rfl, ?_⟩
  refine fun f => ⟨RefreshStep.still rfl rfl, ?_⟩
  refine fun f => ⟨RefreshStep.still rfl rfl, ?_⟩
  split
  · exact acts_handleUpdateFailure _ _ _ _ _
  split
  · refine fun f => ⟨RefreshStep.still rfl rfl, ?_⟩
    dsimp only [ret_bind]
    split
    · exact acts_handleUpdateFailure _ _ _ _ _
    · exact acts_landRefresh _ _ _ _
  · exact acts_landRefresh _ _ _ _

end Acts

/-- A replacement of the managed nodes, and what there was before. -/
structure Swap where
  thread : ℕ
  seq : ℤ
  parsed : List ParsedNode
  before : ManagedNodes

def swapOf : ℕ × FeedEvent → Option Swap
  | (i, .nodesSwapped seq parsed before) => some ⟨i, seq, parsed, before⟩
  | _ => none

def lastSwap (trace : List (ℕ × FeedEvent)) : Option Swap := trace.findSome? swapOf

def sinceSized (i : ℕ) (trace : List (ℕ × FeedEvent)) : List (ℕ × FeedEvent) :=
  trace.takeWhile fun q => !(q.1 = i && q.2.sizes)

/-- No managed nodes were swapped in since the thread looked. -/
def noneSince (i : ℕ) (trace : List (ℕ × FeedEvent)) : Bool :=
  (sinceSized i trace).all fun q => !q.2.swaps

/-- **An attempt without nodes has not been overtaken.** -/
def NotOvertaken (h : FeedHistory) (i : ℕ) : FeedEvent → Prop
  | .nodesSwapped _ [] _ => noneSince i h.trace = true
  | _ => True

instance (h : FeedHistory) (i : ℕ) (e : FeedEvent) : Decidable (NotOvertaken h i e) := by
  unfold NotOvertaken
  split <;> infer_instance

section Trace

variable {i j : ℕ} {e : FeedEvent} {trace : List (ℕ × FeedEvent)}

theorem lastSwap_cons (he : e.swaps = false) : lastSwap ((i, e) :: trace) = lastSwap trace := by
  unfold lastSwap
  rw [List.findSome?_cons]
  cases e with
  | nodesSwapped seq parsed before => cases he
  | _ => rfl

theorem mem_of_lastSwap {s : Swap} (hs : lastSwap trace = some s) :
    (s.thread, .nodesSwapped s.seq s.parsed s.before) ∈ trace := by
  obtain ⟨⟨k, e'⟩, hmem, hof⟩ := List.exists_of_findSome?_eq_some hs
  cases e' with
  | nodesSwapped seq parsed before =>
    cases hof
    exact hmem
  | _ => cases hof

theorem isSome_lastSwap {seq : ℤ} {parsed : List ParsedNode} {before : ManagedNodes}
    (hmem : (i, .nodesSwapped seq parsed before) ∈ trace) : (lastSwap trace).isSome = true := by
  unfold lastSwap
  rw [List.findSome?_isSome_iff]
  exact ⟨_, hmem, rfl⟩

theorem noneSince_cons (h : ¬(j = i ∧ e.sizes = true)) :
    noneSince i ((j, e) :: trace) = (!e.swaps && noneSince i trace) := by
  unfold noneSince sinceSized
  rw [List.takeWhile_cons_of_pos]
  · rw [List.all_cons]
  · simpa [imp_iff_not_or] using h

theorem mem_of_guarded_cons {seq : ℤ} {passed : Bool} (he : e.guards = false)
    (hmem : (j, .refreshGuarded seq passed) ∈ (i, e) :: trace) :
    (j, .refreshGuarded seq passed) ∈ trace := by
  refine (List.mem_cons.mp hmem).resolve_left fun heq => ?_
  rw [← (Prod.mk.inj heq).2] at he
  cases he

end Trace

/-! ## What the attempts keep to -/

/-- The managed nodes are those of the last swap, and it is the last one that was recorded. -/
def Consistent (imp : Importer) (applied : ℤ) (swap : Option Swap) (managed : ManagedNodes) : Prop :=
  ∀ s, swap = some s →
    applied = s.seq ∧ managed = s.before.inheritEvictions (imp.refreshed s.parsed)

/-- **The attempts land in order.** -/
structure Ordered (imp : Importer) (start : NodeSubscription)
    (parsedBy : ℕ → Option (List ParsedNode)) (h : FeedHistory) : Prop where
  config : h.state.sub.config = start.config
  taken : ∀ i, h.holder .opMu = some i → ∃ e, (i, e) ∈ h.trace
  guarded : h.holder .opMu = none → ∀ i seq passed, (i, .refreshGuarded seq passed) ∈ h.trace →
    seq ≤ h.state.sub.lastAppliedSeq
  latest : h.holder .opMu = none →
    Consistent imp h.state.sub.lastAppliedSeq (lastSwap h.trace) h.state.sub.managedNodes
  recorded : ∀ i seq before, (i, .attemptRecorded seq before) ∈ h.trace → before ≤ seq
  swapped : ∀ i seq parsed before, (i, .nodesSwapped seq parsed before) ∈ h.trace →
    parsedBy i = some parsed ∧ (parsed = [] → before = [])

theorem Ordered.columns {imp : Importer} {start : NodeSubscription}
    {parsedBy : ℕ → Option (List ParsedNode)} {h : FeedHistory} (hinv : Ordered imp start parsedBy h) :
    h.state.sub.url = start.url ∧ h.state.sub.sourceType = start.sourceType ∧
      h.state.sub.content = start.content ∧ h.state.sub.configVersion = start.configVersion ∧
      h.state.sub.incrementalAliveNodes = start.incrementalAliveNodes := by
  simpa only [NodeSubscription.config, Prod.mk.injEq] using hinv.config

/-- There are no managed nodes, unless some were swapped in since the thread looked. -/
def Sized (i : ℕ) (h : FeedHistory) : Prop :=
  noneSince i h.trace = true → h.state.sub.managedNodes = []

/-- Nothing was decided from the one history to the other. -/
structure SameOrder (h h' : FeedHistory) : Prop where
  managed : h'.state.sub.managedNodes = h.state.sub.managedNodes
  applied : h'.state.sub.lastAppliedSeq = h.state.sub.lastAppliedSeq
  swap : lastSwap h'.trace = lastSwap h.trace
  guards : ∀ j seq passed, (j, .refreshGuarded seq passed) ∈ h'.trace →
    (j, .refreshGuarded seq passed) ∈ h.trace

structure RefreshRely (i : ℕ) (h h' : FeedHistory) : Prop where
  own : own i h'.trace = own i h.trace
  free : h.holder .opMu ≠ some i → h'.holder .opMu ≠ some i
  held : h.holder .opMu = some i → h'.holder .opMu = some i ∧ SameOrder h h'
  sized : Sized i h → Sized i h'

def racing (imp : Importer) (start : NodeSubscription)
    (parsedBy : ℕ → Option (List ParsedNode)) : Discipline Feed FeedEvent FeedLock where
  inv := Ordered imp start parsedBy
  may := NotOvertaken
  rely := RefreshRely
  rely_refl _ _ := ⟨rfl, id, fun h => ⟨h, rfl, rfl, rfl, fun _ _ _ h => h⟩, id⟩
  rely_trans h₁ h₂ := by
    refine ⟨h₂.own.trans h₁.own, h₂.free ∘ h₁.free, fun h => ?_, h₂.sized ∘ h₁.sized⟩
    obtain ⟨hh, hm, ha, hl, hg⟩ := h₁.held h
    obtain ⟨hh', hm', ha', hl', hg'⟩ := h₂.held hh
    exact ⟨hh', hm'.trans hm, ha'.trans ha, hl'.trans hl,
      fun j seq p hmem => hg j seq p (hg' j seq p hmem)⟩

section Steps

variable {imp : Importer} {start : NodeSubscription} {parsedBy : ℕ → Option (List ParsedNode)}
  {i j : ℕ} {h k : FeedHistory} {e : FeedEvent} {f : Feed}

theorem Sized.did (hs : Sized i h) (hstep : RefreshStep imp h.state e f)
    (hne : ¬(j = i ∧ e.sizes = true)) : Sized i (h.did j e f) := by
  intro hnone
  rw [Hist.did_trace, noneSince_cons hne] at hnone
  obtain ⟨hswaps, hnone⟩ := Bool.and_eq_true_iff.mp hnone
  exact (hstep.managed (by simpa using hswaps)).trans (hs hnone)

theorem RefreshStep.sameOrder (hstep : RefreshStep imp h.state e f) (hd : e.decides = false) :
    SameOrder h (h.did i e f) := by
  unfold FeedEvent.decides at hd
  rw [Bool.or_eq_false_iff, Bool.or_eq_false_iff] at hd
  obtain ⟨⟨hs, hr⟩, hg⟩ := hd
  exact ⟨hstep.managed hs, hstep.applied hr, lastSwap_cons hs,
    fun _ _ _ hmem => mem_of_guarded_cons hg hmem⟩

section

variable (hinv : Ordered imp start parsedBy h)

include hinv

/-- **A step keeps the order.**  What decides is done by the holder of the lock. -/
theorem racing_did (hstep : RefreshStep imp h.state e f)
    (hhold : e.decides = true → h.holder .opMu = some i)
    (hrecord : ∀ seq before, e = .attemptRecorded seq before → h.state.sub.lastAppliedSeq ≤ seq)
    (hswap : ∀ seq parsed before, e = .nodesSwapped seq parsed before → parsedBy i = some parsed ∧
      (parsed = [] → h.state.sub.managedNodes = [])) :
    (racing imp start parsedBy).Keeps i h (h.did i e f) := by
  -- while another holds the lock, or nobody, what is done leaves the order as it is
  have hsame : h.holder .opMu ≠ some i → SameOrder h (h.did i e f) :=
    fun hne => hstep.sameOrder (Bool.eq_false_iff.mpr fun hd => hne (hhold hd))
  refine ⟨⟨hstep.config.trans hinv.config, fun k hk => ?_, fun hnone k seq passed hmem => ?_,
    fun hnone => ?_, fun k seq before hmem => ?_, fun k seq parsed before hmem => ?_⟩,
    fun j hj => ⟨own_cons_of_ne (Ne.symm hj) e h.trace, fun hh => hh, fun hh => ?_,
      fun hs => hs.did hstep fun hboth => hj hboth.1.symm⟩⟩
  · obtain ⟨e', he'⟩ := hinv.taken k hk
    exact ⟨e', .tail _ he'⟩
  · have hs := hsame (by simp_all [Hist.did])
    rw [hs.applied]
    exact hinv.guarded hnone k seq passed (hs.guards k seq passed hmem)
  · have hs := hsame (by simp_all [Hist.did])
    rw [hs.applied, hs.swap, hs.managed]
    exact hinv.latest hnone
  · rcases List.mem_cons.mp hmem with heq | hmem
    · have he := (Prod.mk.inj heq).2.symm
      rw [(hstep.record seq before he).1]
      exact hrecord seq before he
    · exact hinv.recorded k seq before hmem
  · rcases List.mem_cons.mp hmem with heq | hmem
    · obtain ⟨rfl, he⟩ := Prod.mk.inj heq
      rw [(hstep.swap seq parsed before he.symm).1]
      exact hswap seq parsed before he.symm
    · exact hinv.swapped k seq parsed before hmem
  · exact ⟨hh, hsame fun hi => hj (Hist.holder_unique hi hh)⟩

theorem racing_plain (hstep : RefreshStep imp h.state e f) (hd : e.decides = false) :
    (racing imp start parsedBy).Keeps i h (h.did i e f) := by
  refine racing_did hinv hstep (fun hd' => absurd hd' (by simp [hd])) (fun seq before he => ?_)
    fun seq parsed before he => ?_
  · subst he
    cases hd
  · subst he
    cases hd

theorem racing_acquire (hfree : h.holder .opMu = none) (hstepped : ∃ e, (i, e) ∈ h.trace) :
    (racing imp start parsedBy).Keeps i h (h.acquire i .opMu) := by
  have hholder : (h.acquire i .opMu).holder .opMu = some i := by simp [Hist.acquire]
  refine ⟨⟨hinv.config, fun k hk => ?_, fun hnone => ?_, fun hnone => ?_, hinv.recorded,
    hinv.swapped⟩, fun j hj => ⟨rfl, fun _ hh => ?_, fun hh => ?_, fun hs => hs⟩⟩
  · cases hholder.symm.trans hk
    exact hstepped
  · cases hholder.symm.trans hnone
  · cases hholder.symm.trans hnone
  · exact hj (Hist.holder_unique hholder hh)
  · cases hfree.symm.trans hh

theorem racing_release (hhold : h.holder .opMu = some i) (hguarded : ∀ j seq passed, (j,
      .refreshGuarded seq passed) ∈ h.trace → seq ≤ h.state.sub.lastAppliedSeq)
    (hlatest : Consistent imp h.state.sub.lastAppliedSeq (lastSwap h.trace)
      h.state.sub.managedNodes) : (racing imp start parsedBy).Keeps i h (h.release .opMu) := by
  have hholder : (h.release .opMu).holder .opMu = none := by simp [Hist.release]
  refine ⟨⟨hinv.config, fun k hk => ?_, fun _ => hguarded, fun _ => hlatest, hinv.recorded,
    hinv.swapped⟩, fun j hj => ⟨rfl, fun _ hh => ?_, fun hh => ?_, fun hs => hs⟩⟩
  · cases hholder.symm.trans hk
  · cases hholder.symm.trans hh
  · exact absurd (Hist.holder_unique hhold hh) hj

end

end Steps

/-- A thread holds the lock, and this is what it sees there. -/
structure Landing (i : ℕ) (bound applied : ℤ) (swap : Option Swap) (managed : ManagedNodes)
    (h : FeedHistory) : Prop where
  holding : h.holder .opMu = some i
  guarded : ∀ j seq passed, (j, .refreshGuarded seq passed) ∈ h.trace → seq ≤ bound
  applied : h.state.sub.lastAppliedSeq = applied
  swap : lastSwap h.trace = swap
  managed : h.state.sub.managedNodes = managed

def OwnOnly (i : ℕ) (P : FeedEvent → Prop) (h : FeedHistory) : Prop :=
  ∀ e, (i, e) ∈ h.trace → P e

abbrev Fresh (i : ℕ) (h : FeedHistory) : Prop := OwnOnly i (fun e => e.mutates = false) h

def SwapsAs (seq : ℤ) : FeedEvent → Prop
  | .nodesSwapped seq' _ _ => seq' = seq
  | _ => True

section Attempt

variable {imp : Importer} {start : NodeSubscription} {parsedBy : ℕ → Option (List ParsedNode)}
  {i : ℕ} {h k : FeedHistory} {e : FeedEvent} {f : Feed} {bound applied : ℤ} {swap : Option Swap}
  {managed : ManagedNodes} {P : FeedEvent → Prop}

theorem OwnOnly.of_rely (ho : OwnOnly i P h) (hr : RefreshRely i h k) : OwnOnly i P k :=
  fun e he => ho e ((mem_iff_of_own hr.own).mp he)

theorem OwnOnly.did (ho : OwnOnly i P h) (he : P e) (f : Feed) : OwnOnly i P (h.did i e f) := by
  intro e' he'
  rcases List.mem_cons.mp he' with heq | hmem
  · rw [(Prod.mk.inj heq).2]
    exact he
  · exact ho e' hmem

theorem Fresh.swapsAs (hf : Fresh i h) (seq : ℤ) : OwnOnly i (SwapsAs seq) h := by
  intro e he
  have hquiet := hf e he
  cases e with
  | nodesSwapped seq' parsed before => cases hquiet
  | _ => trivial

section

variable (hl : Landing i bound applied swap managed h)

include hl

theorem Landing.same (hh : k.holder .opMu = some i) (hs : SameOrder h k) :
    Landing i bound applied swap managed k :=
  ⟨hh, fun j seq p hmem => hl.guarded j seq p (hs.guards j seq p hmem), hs.applied.trans hl.applied,
    hs.swap.trans hl.swap, hs.managed.trans hl.managed⟩

theorem Landing.of_rely (hr : RefreshRely i h k) : Landing i bound applied swap managed k := by
  obtain ⟨hh, hs⟩ := hr.held hl.holding
  exact hl.same hh hs

theorem Landing.plain (hstep : RefreshStep imp h.state e f) (hd : e.decides = false) :
    Landing i bound applied swap managed (h.did i e f) :=
  hl.same hl.holding (hstep.sameOrder hd)

variable {seq : ℤ}

theorem Landing.guard {bound' : ℤ} (passed : Bool) (hbound : bound ≤ bound') (hseq : seq ≤ bound') :
    Landing i bound' applied swap managed (h.did i (.refreshGuarded seq passed) h.state) := by
  refine ⟨hl.holding, fun j seq' passed' hmem => ?_, hl.applied, (lastSwap_cons rfl).trans hl.swap,
    hl.managed⟩
  rcases List.mem_cons.mp hmem with heq | hmem
  · obtain ⟨rfl, -⟩ := FeedEvent.refreshGuarded.inj (Prod.mk.inj heq).2
    exact hseq
  · exact (hl.guarded j seq' passed' hmem).trans hbound

end

theorem Landing.of_steps {α : Type} {prog : Prog Feed FeedEvent FeedLock α}
    (hsteps : prog.Steps (PlainStep imp) fun _ => True)
    (hl : Landing i bound applied swap managed h) (ho : OwnOnly i (SwapsAs seq) h) :
    (racing imp start parsedBy).Safe i
      (fun _ k => Landing i bound applied swap managed k ∧ OwnOnly i (SwapsAs seq) k) prog h := by
  refine (Discipline.Safe.of_steps (fun k e f hinv _ hk hstep => ?_)
    (fun k m hr _ hk => ⟨hk.1.of_rely hr, hk.2.of_rely hr⟩) hsteps ⟨hl, ho⟩).mono
    fun _ _ _ hp => hp.2
  obtain ⟨hstep, hd⟩ := hstep
  refine ⟨racing_plain hinv hstep hd, hk.1.plain hstep hd, hk.2.did ?_ f⟩
  cases e with
  | nodesSwapped seq' parsed before => cases hd
  | _ => trivial

theorem Landing.acquire (hinv : Ordered imp start parsedBy k) (hfree : k.holder .opMu = none)
    (hstepped : ∃ e, (i, e) ∈ h.trace) (hr : RefreshRely i h k) :
    (racing imp start parsedBy).Keeps i k (k.acquire i .opMu) ∧
      Landing i k.state.sub.lastAppliedSeq k.state.sub.lastAppliedSeq (lastSwap k.trace)
        k.state.sub.managedNodes (k.acquire i .opMu) := by
  obtain ⟨e, he⟩ := hstepped
  exact ⟨racing_acquire hinv hfree ⟨e, (mem_iff_of_own hr.own).mpr he⟩,
    by simp [Hist.acquire], hinv.guarded hfree, rfl, rfl, rfl⟩

theorem mergedManagedNodes_of_replace (hmode : f.sub.incrementalAliveNodes = false)
    (refreshed : ManagedNodes) :
    f.mergedManagedNodes refreshed = f.sub.managedNodes.inheritEvictions refreshed := by
  unfold Feed.mergedManagedNodes
  simp [hmode]

variable {nowNs : ℤ}

theorem safe_racing_applyRefresh {result : ParseResult}
    (hmode : start.incrementalAliveNodes = false) (hparsed : parsedBy i = some result.nodes)
    (hsized : result.nodes = [] → Sized i h) (happlied : applied ≤ seq)
    (hl : Landing i seq applied swap managed h) (ho : OwnOnly i (SwapsAs seq) h) :
    (racing imp start parsedBy).Safe i
      (fun _ k => (∃ s managed', Landing i seq seq (some s) managed' k ∧
          Consistent imp seq (some s) managed' ∧ s.thread = i) ∧ OwnOnly i (SwapsAs seq) k)
      (Feed.applyRefresh imp seq result nowNs) h := by
  intro k hr hinv hmay
  have hl' := hl.of_rely hr
  have hmode' := hinv.columns.2.2.2.2.trans hmode
  set next := k.state.sub.managedNodes.inheritEvictions (imp.refreshed result.nodes) with hnext
  have hmerged : k.state.mergedManagedNodes (imp.refreshed result.nodes) = next :=
    mergedManagedNodes_of_replace hmode' _
  have hstep : RefreshStep imp k.state (.nodesSwapped seq result.nodes k.state.sub.managedNodes) _ :=
    refreshStep_swap seq result.nodes
  refine ⟨racing_did hinv hstep (fun _ => hl'.holding) nofun fun seq' parsed before he => ?_, ?_⟩
  · obtain ⟨-, rfl, -⟩ := FeedEvent.nodesSwapped.inj he
    refine ⟨hparsed, fun hempty => hr.sized (hsized hempty) ?_⟩
    rw [hempty] at hmay
    exact hmay
  · set s : Swap := ⟨i, seq, result.nodes, k.state.sub.managedNodes⟩
    have hlanding : Landing i seq applied (some s) next
        (k.did i (.nodesSwapped seq result.nodes k.state.sub.managedNodes)
          (k.state.swapManagedNodes (k.state.mergedManagedNodes (imp.refreshed result.nodes)))) :=
      ⟨hl'.holding, fun j seq' passed hmem => hl'.guarded j seq' passed (mem_of_guarded_cons rfl hmem),
        hl'.applied, rfl, hmerged⟩
    have howned := (ho.of_rely hr).did (e := .nodesSwapped seq result.nodes
      k.state.sub.managedNodes) rfl
      (k.state.swapManagedNodes (k.state.mergedManagedNodes (imp.refreshed result.nodes)))
    dsimp only [ret_bind]
    refine (hlanding.of_steps (steps_referenceOn result.nodes _ nowNs _) howned).seq ?_
    rintro - m ⟨hl1, ho1⟩
    refine (hl1.of_steps (steps_referenceOn result.nodes _ nowNs _) ho1).seq ?_
    rintro - m ⟨hl2, ho2⟩
    refine (hl2.of_steps (steps_releaseOn _) ho2).seq ?_
    rintro - m ⟨hl3, ho3⟩ n hr' hinv' -
    have hl4 := hl3.of_rely hr'
    have hrecord : RefreshStep imp n.state (.attemptRecorded seq n.state.sub.lastAppliedSeq) _ :=
      refreshStep_record seq result nowNs
    refine ⟨racing_did hinv' hrecord (fun _ => hl4.holding) (fun seq' before he => ?_) nofun,
      fun n' hr'' _ => ⟨⟨s, next, Landing.of_rely ?_ hr'', ?_, rfl⟩, ?_⟩⟩
    · obtain ⟨rfl, -⟩ := FeedEvent.attemptRecorded.inj he
      rw [hl4.applied]
      exact happlied
    · exact ⟨hl4.holding, fun j seq' passed hmem => hl4.guarded j seq' passed
        (mem_of_guarded_cons rfl hmem), rfl, (lastSwap_cons rfl).trans hl4.swap, hl4.managed⟩
    · rintro s' hs'
      obtain rfl := Option.some.inj hs'
      exact ⟨rfl, hnext⟩
    · have hlast : SwapsAs seq (.attemptRecorded seq n.state.sub.lastAppliedSeq) := trivial
      exact ((ho3.of_rely hr').did hlast _).of_rely hr''

def EndedAs (i : ℕ) (h : FeedHistory) : RefreshAnswer → Prop
  | .applied seq => (∃ passed, (i, .refreshGuarded seq passed) ∈ h.trace) ∧
      (∃ parsed before, (i, .nodesSwapped seq parsed before) ∈ h.trace) ∧
      OwnOnly i (SwapsAs seq) h
  | .discarded seq => (∃ passed, (i, .refreshGuarded seq passed) ∈ h.trace) ∧ Fresh i h
  | .failed _ => OwnOnly i (fun e => e.swaps = false) h
  | .failureIgnored _ => Fresh i h
  | .notFound => Fresh i h

def Ended (i : ℕ) (a : RefreshAnswer) (h : FeedHistory) : Prop :=
  h.holder .opMu ≠ some i ∧ EndedAs i h a

variable {a : RefreshAnswer}

theorem EndedAs.of_own (ha : EndedAs i h a) (hown : own i k.trace = own i h.trace) :
    EndedAs i k a := by
  have honly : ∀ {P : FeedEvent → Prop}, OwnOnly i P h → OwnOnly i P k :=
    fun ho e he => ho e ((mem_iff_of_own hown).mp he)
  cases a with
  | applied seq =>
    obtain ⟨⟨passed, hg⟩, ⟨parsed, before, hs⟩, ho⟩ := ha
    exact ⟨⟨passed, (mem_iff_of_own hown).mpr hg⟩,
      ⟨parsed, before, (mem_iff_of_own hown).mpr hs⟩, honly ho⟩
  | discarded seq =>
    obtain ⟨⟨passed, hg⟩, ho⟩ := ha
    exact ⟨⟨passed, (mem_iff_of_own hown).mpr hg⟩, honly ho⟩
  | failed | failureIgnored | notFound => exact honly ha

theorem Ended.of_rely (ha : Ended i a h) (hr : RefreshRely i h k) : Ended i a k :=
  ⟨hr.free ha.1, ha.2.of_own hr.own⟩

theorem Landing.release (hinv : Ordered imp start parsedBy h)
    (hl : Landing i bound applied swap managed h) (hbound : bound ≤ applied)
    (hconsistent : Consistent imp applied swap managed) (ha : EndedAs i h a) :
    (racing imp start parsedBy).Keeps i h (h.release .opMu) ∧
      ∀ m, RefreshRely i (h.release .opMu) m → Ordered imp start parsedBy m → Ended i a m := by
  refine ⟨racing_release hinv hl.holding (fun j seq passed hmem => ?_) ?_, fun m hr _ => ?_⟩
  · rw [hl.applied]
    exact (hl.guarded j seq passed hmem).trans hbound
  · rw [hl.applied, hl.swap, hl.managed]
    exact hconsistent
  · have hreleased : Ended i a (h.release .opMu) := ⟨by simp [Hist.release], ha⟩
    exact hreleased.of_rely hr

theorem safe_racing_landRefresh {version : ℤ} {result : ParseResult}
    (hmode : start.incrementalAliveNodes = false) (hversion : version = start.configVersion)
    (hparsed : parsedBy i = some result.nodes) (hsized : result.nodes = [] → Sized i h)
    (hstepped : ∃ e, (i, e) ∈ h.trace) (hfresh : Fresh i h) :
    (racing imp start parsedBy).Safe i (Ended i)
      (Feed.landRefresh imp seq version result nowNs) h := by
  refine .locked fun k hr hinv hfree => ?_
  obtain ⟨hkeep, hl⟩ := Landing.acquire hinv hfree hstepped hr
  refine ⟨hkeep, ?_⟩
  have hf : Fresh i (k.acquire i .opMu) := hfresh.of_rely (k := k) hr
  have hz : result.nodes = [] → Sized i (k.acquire i .opMu) := fun hempty => hr.sized (hsized hempty)
  intro m hr' hinv' _
  have hl' := hl.of_rely hr'
  have hf' := hf.of_rely hr'
  have hstill : RefreshStep imp m.state (.refreshGuarded seq (m.state.sub.current seq version))
      m.state := RefreshStep.still rfl rfl
  refine ⟨racing_did hinv' hstill (fun _ => hl'.holding) nofun nofun, ?_⟩
  have hconfig := hinv'.columns.2.2.2.1.trans hversion.symm
  have hcurrent : m.state.sub.current seq version = !decide (seq < k.state.sub.lastAppliedSeq) := by
    unfold NodeSubscription.current
    rw [hconfig, hl'.applied]
    simp
  dsimp only [ret_bind]
  by_cases hlate : seq < k.state.sub.lastAppliedSeq
  · rw [hcurrent, decide_eq_true hlate]
    intro n hr'' hinv''
    have hguarded := hl'.guard false (le_refl _) (le_of_lt hlate)
    exact (hguarded.of_rely hr'').release hinv'' (le_refl _) (hinv.latest hfree)
      ⟨⟨false, (mem_iff_of_own hr''.own).mpr (.head _)⟩, (hf'.did rfl m.state).of_rely hr''⟩
  · rw [hcurrent, decide_eq_false hlate]
    have hseq : k.state.sub.lastAppliedSeq ≤ seq := not_lt.mp hlate
    have hguarded := hl'.guard true hseq (le_refl seq)
    have hquiet : Fresh i (m.did i (.refreshGuarded seq true) m.state) := hf'.did rfl m.state
    have hz' : result.nodes = [] → Sized i (m.did i (.refreshGuarded seq true) m.state) :=
      fun hempty => (hr'.sized (hz hempty)).did (RefreshStep.still rfl rfl : RefreshStep imp _ _ _)
        (by simp [FeedEvent.sizes])
    refine ((safe_racing_applyRefresh hmode hparsed hz' hseq hguarded
      (hquiet.swapsAs seq)).frame
      (P := fun n => (i, FeedEvent.refreshGuarded seq true) ∈ n.trace)
      (fun _ _ _ hmem => .tail _ hmem) (fun _ _ hmem => hmem)
      (fun _ _ hmem => hmem) (fun _ _ (hrely : RefreshRely i _ _) hmem =>
        (mem_iff_of_own hrely.own).mpr hmem) (.head _)).seq ?_
    rintro - n ⟨⟨⟨s, managed', hland, hconsistent, hthread⟩, howned⟩, hmine⟩ n' hr'' hinv''
    have hland' := hland.of_rely hr''
    have hswap : (i, FeedEvent.nodesSwapped seq s.parsed s.before) ∈ n'.trace := by
      rw [← hthread, (hconsistent s rfl).1]
      exact mem_of_lastSwap hland'.swap
    exact hland'.release hinv'' (le_refl _) hconsistent
      ⟨⟨true, (mem_iff_of_own hr''.own).mpr hmine⟩, ⟨s.parsed, s.before, hswap⟩,
        howned.of_rely hr''⟩

theorem safe_racing_handleUpdateFailure {version : ℤ} {err : String} {report : Option ParseResult}
    (hstepped : ∃ e, (i, e) ∈ h.trace) (hfresh : Fresh i h) :
    (racing imp start parsedBy).Safe i (Ended i)
      (Feed.handleUpdateFailure imp seq version err report nowNs) h := by
  refine .locked fun k hr hinv hfree => ?_
  obtain ⟨hkeep, hl⟩ := Landing.acquire hinv hfree hstepped hr
  refine ⟨hkeep, ?_⟩
  have hf : Fresh i (k.acquire i .opMu) := hfresh.of_rely (k := k) hr
  intro m hr' hinv' _
  have hstill : RefreshStep imp m.state (.failureGuarded seq (m.state.sub.current seq version))
      m.state := RefreshStep.still rfl rfl
  have hl' := (hl.of_rely hr').plain hstill rfl
  have hf' := (hf.of_rely hr').did (e := .failureGuarded seq (m.state.sub.current seq version)) rfl
    m.state
  refine ⟨racing_plain hinv' hstill rfl, ?_⟩
  dsimp only [ret_bind]
  split
  · intro n hr'' hinv'' _
    have hstep : RefreshStep imp n.state (.failureRecorded seq) _ :=
      refreshStep_failure seq report err nowNs
    have hquiet : OwnOnly i (fun e => e.swaps = false) n := by
      intro e he
      have hmutates := hf'.of_rely hr'' e he
      cases e with
      | nodesSwapped seq' parsed before => cases hmutates
      | _ => rfl
    refine ⟨racing_plain hinv'' hstep rfl, fun n' hr3 hinv3 => ?_⟩
    exact (((hl'.of_rely hr'').plain hstep rfl).of_rely hr3).release hinv3 (le_refl _)
      (hinv.latest hfree) ((hquiet.did rfl _).of_rely hr3)
  · intro n hr'' hinv''
    exact (hl'.of_rely hr'').release hinv'' (le_refl _) (hinv.latest hfree) (hf'.of_rely hr'')

def parsedOf (imp : Importer) (start : NodeSubscription) (fetch : String → Except String String) :
    Option (List ParsedNode) :=
  match Feed.fetchAndParse imp fetch start.url start.sourceType start.content with
  | .ok result => some result.nodes
  | .error _ => none

theorem Fresh.read {next : Feed → Prog Feed FeedEvent FeedLock RefreshAnswer} (hf : Fresh i h)
    (hnext : ∀ k, Ordered imp start parsedBy k → Fresh i (k.did i .configRead k.state) →
      (racing imp start parsedBy).Safe i (Ended i) (next k.state) (k.did i .configRead k.state)) :
    (racing imp start parsedBy).Safe i (Ended i) (.act (fun _ => .configRead) id next) h :=
  fun k hr hinv _ => ⟨racing_plain hinv (RefreshStep.still rfl rfl) rfl,
    hnext k hinv ((hf.of_rely hr).did rfl _)⟩

theorem safe_racing_updateSubscription {fetch : String → Except String String}
    (hmode : start.incrementalAliveNodes = false) (hparsed : parsedBy i = parsedOf imp start fetch)
    (hfresh : Fresh i h) :
    (racing imp start parsedBy).Safe i (Ended i) (Feed.updateSubscription imp fetch nowNs) h := by
  refine fun k1 hr hinv _ => ⟨racing_plain hinv refreshStep_number rfl, ?_⟩
  have hf1 : Fresh i (k1.did i (.attemptNumbered (k1.state.sub.attemptSeq + 1))
      (k1.state.onSub fun s => { s with attemptSeq := s.attemptSeq + 1 })) :=
    (hfresh.of_rely hr).did rfl _
  refine hf1.read fun k2 hurl hf2 => ?_
  refine hf2.read fun k3 hsource hf3 => ?_
  refine hf3.read fun k4 hcontent hf4 => ?_
  refine hf4.read fun k5 hversion hf5 => ?_
  -- the configuration is the one it started with, so the attempt parses what it would have then
  dsimp only [ret_bind]
  rw [hurl.columns.1, hsource.columns.2.1, hcontent.columns.2.2.1]
  unfold parsedOf at hparsed
  split
  · exact safe_racing_handleUpdateFailure ⟨_, .head _⟩ hf5
  rename_i result hresult
  rw [hresult] at hparsed
  split
  · rename_i hempty
    intro k6 hr' hinv' _
    have hstill : RefreshStep imp k6.state (.managedSized k6.state.sub.managedNodes.length)
        k6.state := RefreshStep.still rfl rfl
    refine ⟨racing_plain hinv' hstill rfl, ?_⟩
    have hf6 : Fresh i (k6.did i (.managedSized k6.state.sub.managedNodes.length) k6.state) :=
      (hf5.of_rely hr').did rfl _
    dsimp only [ret_bind]
    split
    · exact safe_racing_handleUpdateFailure ⟨_, .head _⟩ hf6
    · rename_i hsize
      refine safe_racing_landRefresh hmode hversion.columns.2.2.2.1 hparsed (fun _ _ => ?_)
        ⟨_, .head _⟩ hf6
      exact List.eq_nil_of_length_eq_zero (Nat.eq_zero_of_not_pos hsize)
  · rename_i hne
    exact safe_racing_landRefresh hmode hversion.columns.2.2.2.1 hparsed
      (fun hempty => absurd hempty hne) ⟨_, .head _⟩ hf5

end Attempt

/-- A refresh: what the source answers, and when. -/
structure Attempt where
  fetch : String → Except String String
  nowNs : ℤ := 0

def refreshing (imp : Importer) (f : Feed) (attempts : List Attempt) (sched : List ℕ) :
    Pool Feed FeedEvent FeedLock RefreshAnswer :=
  run Pool.step
    (Pool.start f (attempts.map fun a => Feed.updateSubscription imp a.fetch a.nowNs)) sched

/-- The attempt was discarded, as a success or as a failure that came too late. -/
def RefreshAnswer.Discarded : RefreshAnswer → Prop
  | .discarded _ => True
  | .failureIgnored _ => True
  | _ => False

section Attempts

variable {imp : Importer} {f : Feed} {attempts : List Attempt} {sched : List ℕ}

def parsedAt (imp : Importer) (f : Feed) (attempts : List Attempt) (i : ℕ) :
    Option (List ParsedNode) :=
  attempts[i]?.bind fun a => parsedOf imp f.sub a.fetch

theorem refreshing_kind (imp : Importer) (f : Feed) (attempts : List Attempt) :
    (Pool.start f (attempts.map fun a => Feed.updateSubscription imp a.fetch a.nowNs) :
      Pool Feed FeedEvent FeedLock RefreshAnswer).Kind (RefreshStep imp) := by
  intro prog hprog
  obtain ⟨a, -, rfl⟩ := List.mem_map.mp hprog
  exact acts_updateSubscription a.fetch a.nowNs

theorem refreshing_kept (hmode : f.sub.incrementalAliveNodes = false)
    (hmay : Along Pool.step (Pool.Meets NotOvertaken)
      (Pool.start f (attempts.map fun a => Feed.updateSubscription imp a.fetch a.nowNs)) sched) :
    Discipline.Kept (racing imp f.sub (parsedAt imp f attempts)) Ended
      (refreshing imp f attempts sched) := by
  have hinv : Ordered imp f.sub (parsedAt imp f attempts) { state := f } :=
    ⟨rfl, nofun, nofun, nofun, nofun, nofun⟩
  refine (racing imp f.sub (parsedAt imp f attempts)).run_safe (.of_calls hinv fun i a ha => ?_) hmay
  refine safe_racing_updateSubscription hmode ?_ nofun
  unfold parsedAt
  rw [ha]
  rfl

variable {i : ℕ}

theorem mem_trace_refreshing {l l' : List ℕ} {e : FeedEvent} {before : List (ℕ × FeedEvent)}
    (hsched : sched = l ++ i :: l')
    (htrace : (refreshing imp f attempts (l ++ [i])).hist.trace = (i, e) :: before) :
    (i, e) ∈ (refreshing imp f attempts sched).hist.trace := by
  have hsplit : sched = (l ++ [i]) ++ l' := by rw [hsched]; simp
  rw [hsplit]
  exact (refreshing_kind imp f attempts).mem_trace_of_moment (htrace ▸ .head _)

variable {parsedBy : ℕ → Option (List ParsedNode)}
  (hkept : Discipline.Kept (racing imp f.sub parsedBy) Ended (refreshing imp f attempts sched))

include hkept

theorem lastAppliedSeq_le {l l' : List ℕ} (hsched : sched = l ++ i :: l') :
    (refreshing imp f attempts l).hist.state.sub.lastAppliedSeq ≤
      (refreshing imp f attempts (l ++ [i])).hist.state.sub.lastAppliedSeq := by
  rcases (refreshing_kind imp f attempts).at_moment l i with ⟨hstate, -⟩ | ⟨e, htrace, hstep⟩
  · exact (congrArg (fun g : Feed => g.sub.lastAppliedSeq) hstate).ge
  cases hr : e.records with
  | false => exact (hstep.applied hr).ge
  | true =>
    cases e with
    | attemptRecorded seq before =>
      obtain ⟨rfl, hafter⟩ := hstep.record seq before rfl
      refine le_of_le_of_eq ?_ hafter.symm
      exact hkept.inv.recorded i seq _ (mem_trace_refreshing hsched htrace)
    | _ => cases hr

theorem hashes_subset_of_empty {l l' : List ℕ} (hsched : sched = l ++ i :: l')
    (hempty : parsedBy i = some []) :
    ∀ hash ∈ (refreshing imp f attempts l).hist.state.sub.managedNodes.hashes,
      hash ∈ (refreshing imp f attempts (l ++ [i])).hist.state.sub.managedNodes.hashes := by
  intro hash hhash
  rcases (refreshing_kind imp f attempts).at_moment l i with ⟨hstate, -⟩ | ⟨e, htrace, hstep⟩
  · have hsame := congrArg (fun g : Feed => g.sub.managedNodes) hstate
    exact hsame ▸ hhash
  cases hs : e.swaps with
  | false => exact hstep.managed hs ▸ hhash
  | true =>
    cases e with
    | nodesSwapped seq parsed before =>
      obtain ⟨hparsed, hnone⟩ :=
        hkept.inv.swapped i seq parsed before (mem_trace_refreshing hsched htrace)
      have hbefore := hnone (Option.some.inj (hparsed.symm.trans hempty))
      rw [(hstep.swap seq parsed before rfl).1] at hbefore
      have hgone : hash ∈ ManagedNodes.hashes [] := hbefore ▸ hhash
      cases hgone
    | _ => cases hs

theorem visible_of_discarded {l l' : List ℕ} {a : RefreshAnswer} (hsched : sched = l ++ i :: l')
    (ha : (refreshing imp f attempts sched).answers[i]? = some (some a)) (hd : a.Discarded) :
    (refreshing imp f attempts (l ++ [i])).hist.state.visible =
      (refreshing imp f attempts l).hist.state.visible := by
  have hended := (hkept.answer (Pool.getElem?_answers.mp ha)).2
  have hfresh : Fresh i (refreshing imp f attempts sched).hist := by
    cases a with
    | discarded seq => exact hended.2
    | failureIgnored seq => exact hended
    | applied | failed | notFound => exact hd.elim
  rcases (refreshing_kind imp f attempts).at_moment l i with ⟨hstate, -⟩ | ⟨e, htrace, hstep⟩
  · exact congrArg Feed.visible hstate
  · exact hstep.quiet (hfresh e (mem_trace_refreshing hsched htrace))

variable (hfinished : (refreshing imp f attempts sched).Finished)

include hfinished

theorem holder_of_finished : (refreshing imp f attempts sched).hist.holder .opMu = none := by
  cases hholder : (refreshing imp f attempts sched).hist.holder .opMu with
  | none => rfl
  | some j =>
    obtain ⟨e, he⟩ := hkept.inv.taken j hholder
    obtain ⟨a, ha⟩ := hfinished.answer (Pool.numbered_run f _ sched (j, e) he)
    exact absurd hholder (hkept.answer ha).1

theorem answer_of_swapped {w : ℕ} {seq : ℤ} {parsed : List ParsedNode} {before : ManagedNodes}
    (hswap : (w, .nodesSwapped seq parsed before) ∈ (refreshing imp f attempts sched).hist.trace) :
    (refreshing imp f attempts sched).answers[w]? = some (some (.applied seq)) := by
  obtain ⟨a, ha⟩ := hfinished.answer (Pool.numbered_run f _ sched _ hswap)
  have hended := (hkept.answer ha).2
  cases a with
  | applied seq' =>
    obtain rfl : seq = seq' := hended.2.2 _ hswap
    exact Pool.getElem?_answers.mpr ha
  | discarded seq' => cases hended.2 _ hswap
  | failed | failureIgnored | notFound => cases hended _ hswap

/-- A success that was applied or discarded came to the guards, with a number no greater than the
last one applied. -/
theorem seq_le_of_landed {j : ℕ} {seq : ℤ}
    (hj : (refreshing imp f attempts sched).answers[j]? = some (some (.applied seq)) ∨
      (refreshing imp f attempts sched).answers[j]? = some (some (.discarded seq))) :
    seq ≤ (refreshing imp f attempts sched).hist.state.sub.lastAppliedSeq := by
  have hfree := holder_of_finished hkept hfinished
  have hguarded : ∃ passed, (j, FeedEvent.refreshGuarded seq passed) ∈
      (refreshing imp f attempts sched).hist.trace := by
    rcases hj with hj | hj <;> exact (hkept.answer (Pool.getElem?_answers.mp hj)).2.1
  obtain ⟨passed, hmem⟩ := hguarded
  exact hkept.inv.guarded hfree j seq passed hmem

end Attempts

/-- **The latest refresh wins.**  In the mode that replaces, in every run in which no attempt without
nodes was overtaken: the number of the last attempt that was applied never decreases; an attempt
without nodes removes no managed node; an attempt that was discarded has changed no managed node, no
reference, neither the summary nor the error; and when all have finished and any was applied, the
managed nodes are those parsed by the one with the greatest number of all that came to be applied or
discarded, with the evictions of the nodes it replaced. -/
theorem latest_refresh_wins (imp : Importer) {f : Feed}
    (hmode : f.sub.incrementalAliveNodes = false) (attempts : List Attempt) (sched : List ℕ)
    (hmay : Along Pool.step (Pool.Meets NotOvertaken)
      (Pool.start f (attempts.map fun a => Feed.updateSubscription imp a.fetch a.nowNs)) sched) :
    let at_ := fun l => (refreshing imp f attempts l).hist.state
    let after := refreshing imp f attempts sched
    (∀ l i l', sched = l ++ i :: l' →
      (at_ l).sub.lastAppliedSeq ≤ (at_ (l ++ [i])).sub.lastAppliedSeq) ∧
    (∀ l i l', sched = l ++ i :: l' → parsedAt imp f attempts i = some [] →
      ∀ hash ∈ (at_ l).sub.managedNodes.hashes, hash ∈ (at_ (l ++ [i])).sub.managedNodes.hashes) ∧
    (∀ l i l' a, sched = l ++ i :: l' → after.answers[i]? = some (some a) → a.Discarded →
      (at_ (l ++ [i])).visible = (at_ l).visible) ∧
    (after.Finished → (∃ (i : ℕ) (seq : ℤ), after.answers[i]? = some (some (.applied seq))) →
      ∃ (w : ℕ) (seq : ℤ) (parsed : List ParsedNode) (l l' : List ℕ),
        after.answers[w]? = some (some (.applied seq)) ∧ parsedAt imp f attempts w = some parsed ∧
        (∀ (j : ℕ) (seq' : ℤ), after.answers[j]? = some (some (.applied seq')) ∨
          after.answers[j]? = some (some (.discarded seq')) → seq' ≤ seq) ∧
        sched = l ++ w :: l' ∧ after.hist.state.sub.managedNodes =
          (at_ l).sub.managedNodes.inheritEvictions (imp.refreshed parsed)) := by
  intro at_ after
  have hkept : Discipline.Kept (racing imp f.sub (parsedAt imp f attempts)) Ended after :=
    refreshing_kept hmode hmay
  refine ⟨fun l i l' hsched => lastAppliedSeq_le hkept hsched,
    fun l i l' hsched hempty => hashes_subset_of_empty hkept hsched hempty,
    fun l i l' a hsched ha hd => visible_of_discarded hkept hsched ha hd, fun hfinished hany => ?_⟩
  obtain ⟨i, seq, hi⟩ := hany
  obtain ⟨-, ⟨parsed, before, hswap⟩, -⟩ := (hkept.answer (Pool.getElem?_answers.mp hi)).2
  -- the winner is whoever swapped last
  obtain ⟨s, hs⟩ := Option.isSome_iff_exists.mp (isSome_lastSwap hswap)
  have hwon := mem_of_lastSwap hs
  obtain ⟨happlied, hmanaged⟩ := hkept.inv.latest (holder_of_finished hkept hfinished) s hs
  obtain ⟨l, l', hsched, hstep⟩ := (refreshing_kind imp f attempts).moment hwon (by simp [Pool.start])
  refine ⟨s.thread, s.seq, s.parsed, l, l', answer_of_swapped hkept hfinished hwon,
    (hkept.inv.swapped _ _ _ _ hwon).1, fun j seq' hj => ?_, hsched, ?_⟩
  · exact happlied ▸ seq_le_of_landed hkept hfinished hj
  · rw [hmanaged, (hstep.swap s.seq s.parsed s.before rfl).1]
    rfl

def lineImporter : Importer where
  hashFromRawOptions := String.length
  parseWithReport body := ({ nodes := if body = "" then [] else [⟨"tag", body⟩] }, none)
  summarizeParseResult _ := ""

def emptyFeed : Feed where
  sub := { id := "sub", url := "https://feed" }

def nodeThenNothing : List Attempt := [{ fetch := fun _ => .ok "node" }, { fetch := fun _ => .ok "" }]

/-- **A refresh without nodes wipes.**  It looks while there are no managed nodes, the other attempt
brings one, and it lands after that: the node is gone. -/
theorem empty_refresh_wipes :
    let overtaken := List.replicate 5 0 ++ List.replicate 6 1 ++ List.replicate 6 0
    let pool := refreshing lineImporter emptyFeed nodeThenNothing (overtaken ++ List.replicate 6 1)
    parsedAt lineImporter emptyFeed nodeThenNothing 1 = some [] ∧ pool.Finished ∧
      pool.answers = [some (.applied 1), some (.applied 2)] ∧
      (refreshing lineImporter emptyFeed nodeThenNothing
        overtaken).hist.state.sub.managedNodes.hashes = [4] ∧
      pool.hist.state.sub.managedNodes = [] ∧ pool.hist.state.nodes = [] := by
  decide +kernel

theorem latest_refresh_wins_in_turn :
    let sched := List.replicate 11 0 ++ List.replicate 10 1
    let after := refreshing lineImporter emptyFeed nodeThenNothing sched
    ∃ (w : ℕ) (seq : ℤ) (parsed : List ParsedNode) (l l' : List ℕ),
      after.answers[w]? = some (some (.applied seq)) ∧
      parsedAt lineImporter emptyFeed nodeThenNothing w = some parsed ∧
      (∀ (j : ℕ) (seq' : ℤ), after.answers[j]? = some (some (.applied seq')) ∨
        after.answers[j]? = some (some (.discarded seq')) → seq' ≤ seq) ∧
      sched = l ++ w :: l' ∧ after.hist.state.sub.managedNodes =
        (refreshing lineImporter emptyFeed nodeThenNothing
          l).hist.state.sub.managedNodes.inheritEvictions (lineImporter.refreshed parsed) :=
  (latest_refresh_wins lineImporter rfl nodeThenNothing
    (List.replicate 11 0 ++ List.replicate 10 1) (by decide +kernel)).2.2.2 (by decide +kernel)
    ⟨0, 1, by decide +kernel⟩

end Prism
