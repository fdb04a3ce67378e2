import Prism.Topology.Subscription

/-!
# What a deletion leaves behind

A deletion holds the lock of the object while it deletes the row, releases the managed nodes and
takes the object out of the manager.  Refreshes, renames and cleanups take the same lock: when it is
free, every reference of the subscription is at a node that it manages and it is registered, or
there is no reference at all (`Tended`).

What comes after the section is another matter.  A refresh that was fetching while the subscription
was deleted finds the lock free and its guards satisfied, and puts the references back.  So does a
rename, for the nodes that are in the pool for another subscription.  And a patch that looked the
object up before writes its row by an upsert (`deletion_undone`).
-/

namespace Prism

open Prog (ret_bind)

/-! ## The discipline -/

/-- A reference at the node is in order: the subscription is registered and manages the node. -/
def Tended (managed : ManagedNodes) (registered : Bool) (hash : Hash) : Prop :=
  registered = true ∧ hash ∈ managed.hashes

def RowDeleted (h : FeedHistory) : Prop := ∃ i, (i, FeedEvent.rowDeleted) ∈ h.trace

/-- **The references are in order** whenever the lock is free. -/
structure InOrder (id : String) (h : FeedHistory) : Prop where
  ident : h.state.sub.id = id
  nodup : h.state.nodes.RefsNodup
  tended : h.holder .opMu = none → ∀ hash, h.state.nodes.Refers id hash →
    Tended h.state.sub.managedNodes h.state.registered hash
  row : RowDeleted h → h.state.row = none
  gone : h.state.registered = false → RowDeleted h
  clean : h.state.registered = false → ∀ hash, ¬h.state.nodes.Refers id hash

/-- **Nothing is written for a subscription that is gone**: a refresh passes its guards and a rename
begins while the object is registered, and a row is written over a row. -/
def StillThere (h : FeedHistory) (_ : ℕ) : FeedEvent → Prop
  | .refreshGuarded _ true => h.state.registered = true
  | .renamed => h.state.registered = true
  | .rowWritten => h.state.row.isSome = true
  | _ => True

instance (h : FeedHistory) (i : ℕ) (e : FeedEvent) : Decidable (StillThere h i e) := by
  unfold StillThere
  split <;> infer_instance

structure FeedRely (i : ℕ) (h h' : FeedHistory) : Prop where
  gone : h.state.registered = false → h'.state.registered = false
  deleted : RowDeleted h → RowDeleted h'
  held : h.holder .opMu = some i → h'.holder .opMu = some i ∧ h'.state.nodes = h.state.nodes ∧
    h'.state.sub.managedNodes = h.state.sub.managedNodes ∧
    h'.state.registered = h.state.registered

def tending (id : String) : Discipline Feed FeedEvent FeedLock where
  inv := InOrder id
  may := StillThere
  rely := FeedRely
  rely_refl _ _ := ⟨fun h => h, fun h => h, fun h => ⟨h, rfl, rfl, rfl⟩⟩
  rely_trans h₁ h₂ := by
    refine ⟨fun h => h₂.gone (h₁.gone h), fun h => h₂.deleted (h₁.deleted h), fun h => ?_⟩
    obtain ⟨hh, hn, hm, hr⟩ := h₁.held h
    obtain ⟨hh', hn', hm', hr'⟩ := h₂.held hh
    exact ⟨hh', hn'.trans hn, hm'.trans hm, hr'.trans hr⟩

section Steps

variable {id : String} {i : ℕ} {h k : FeedHistory} {e : FeedEvent} {f : Feed}

theorem RowDeleted.did (hd : RowDeleted h) : RowDeleted (h.did i e f) := by
  obtain ⟨j, hj⟩ := hd
  exact ⟨j, .tail _ hj⟩

theorem RowDeleted.of_did (he : e ≠ .rowDeleted) (hd : RowDeleted (h.did i e f)) :
    RowDeleted h := by
  obtain ⟨j, hj⟩ := hd
  rcases List.mem_cons.mp hj with heq | hj
  · exact absurd (Prod.mk.inj heq).2.symm he
  · exact ⟨j, hj⟩

/-- A step that touches neither the pool nor the managed nodes, the manager or the row. -/
structure Feed.Quiet (f f' : Feed) : Prop where
  ident : f'.sub.id = f.sub.id
  nodes : f'.nodes = f.nodes
  managed : f'.sub.managedNodes = f.sub.managedNodes
  registered : f'.registered = f.registered
  row : f'.row = f.row

protected theorem Feed.Quiet.rfl {f : Feed} : f.Quiet f := ⟨rfl, rfl, rfl, rfl, rfl⟩

section

variable (hinv : InOrder id h)

include hinv

theorem tending_quiet (he : e ≠ .rowDeleted) (hq : h.state.Quiet f) :
    (tending id).Keeps i h (h.did i e f) := by
  refine ⟨⟨hq.ident.trans hinv.ident, ?_, fun hfree hash hrefs => ?_, fun hd => ?_, fun hg => ?_,
    fun hg hash hrefs => ?_⟩, fun j _ => ⟨fun hg => hq.registered.trans hg, RowDeleted.did,
      fun hh => ⟨hh, hq.nodes, hq.managed, hq.registered⟩⟩⟩
  · rw [Hist.did_state, hq.nodes]
    exact hinv.nodup
  · rw [Hist.did_state, hq.nodes] at hrefs
    rw [Hist.did_state, hq.managed, hq.registered]
    exact hinv.tended hfree hash hrefs
  · exact hq.row.trans (hinv.row (hd.of_did he))
  · exact (hinv.gone (hq.registered.symm.trans hg)).did
  · rw [Hist.did_state, hq.nodes] at hrefs
    exact hinv.clean (hq.registered.symm.trans hg) hash hrefs

theorem tending_rowWritten (hrow : h.state.row.isSome = true) (r : SubscriptionRow) :
    (tending id).Keeps i h (h.did i .rowWritten { h.state with row := some r }) := by
  refine ⟨⟨hinv.ident, hinv.nodup, hinv.tended, fun hd => ?_, fun hg => (hinv.gone hg).did,
    hinv.clean⟩, fun j _ => ⟨fun hg => hg, RowDeleted.did, fun hh => ⟨hh, rfl, rfl, rfl⟩⟩⟩
  rw [hinv.row (RowDeleted.of_did (by simp) hd)] at hrow
  cases hrow

theorem tending_held (hhold : h.holder .opMu = some i) (he : e ≠ .rowDeleted)
    (hident : f.sub.id = h.state.sub.id) (hnd : f.nodes.RefsNodup)
    (hreg : f.registered = h.state.registered) (hrow : f.row = h.state.row)
    (hclean : f.registered = false → ∀ hash, ¬f.nodes.Refers id hash) :
    (tending id).Keeps i h (h.did i e f) := by
  refine ⟨⟨hident.trans hinv.ident, hnd, fun hfree => ?_, fun hd => ?_, fun hg => ?_, hclean⟩,
    fun j hj => ⟨fun hg => hreg.trans hg, RowDeleted.did, fun hh => ?_⟩⟩
  · cases hhold.symm.trans hfree
  · exact hrow.trans (hinv.row (hd.of_did he))
  · exact (hinv.gone (hreg.symm.trans hg)).did
  · exact absurd (Hist.holder_unique hhold hh) hj

theorem tending_acquire (hfree : h.holder .opMu = none) :
    (tending id).Keeps i h (h.acquire i .opMu) := by
  refine ⟨⟨hinv.ident, hinv.nodup, fun hnone => ?_, hinv.row, hinv.gone, hinv.clean⟩,
    fun j _ => ⟨fun hg => hg, fun hd => hd, fun hh => ?_⟩⟩
  · exact absurd hnone (by simp [Hist.acquire])
  · cases hfree.symm.trans hh

theorem tending_release (hhold : h.holder .opMu = some i) (htended : ∀ hash, h.state.nodes.Refers id
      hash → Tended h.state.sub.managedNodes h.state.registered hash) :
    (tending id).Keeps i h (h.release .opMu) := by
  refine ⟨⟨hinv.ident, hinv.nodup, fun _ => htended, hinv.row, hinv.gone, hinv.clean⟩,
    fun j hj => ⟨fun hg => hg, fun hd => hd, fun hh => ?_⟩⟩
  exact absurd (Hist.holder_unique hhold hh) hj

end

/-- Looking changes nothing that anybody counts on. -/
theorem safe_look {α : Type} {event : Feed → FeedEvent} {next : Feed → FeedTask α}
    {Q : α → FeedHistory → Prop} (he : ∀ f, event f ≠ .rowDeleted)
    (hnext : ∀ k : FeedHistory, (tending id).Safe i Q (next k.state)
      (k.did i (event k.state) k.state)) :
    (tending id).Safe i Q (.act event (fun f => f) next) h :=
  fun k _ hinv _ => ⟨tending_quiet hinv (he _) .rfl, hnext k⟩

end Steps

/-! ## Under the lock -/

/-- Thread `i` holds the lock; these are the managed nodes, and the references are at such nodes. -/
structure Within (id : String) (i : ℕ) (managed : ManagedNodes) (registered : Bool)
    (at_ : Hash → Prop) (h : FeedHistory) : Prop where
  holding : h.holder .opMu = some i
  managed : h.state.sub.managedNodes = managed
  registered : h.state.registered = registered
  refs : ∀ hash, h.state.nodes.Refers id hash → at_ hash

section Sections

variable {id : String} {i : ℕ} {h k : FeedHistory} {managed : ManagedNodes} {registered : Bool}
  {at_ at' : Hash → Prop}

section

variable (hw : Within id i managed registered at_ h)

include hw

theorem Within.of_rely (hr : FeedRely i h k) : Within id i managed registered at_ k := by
  obtain ⟨hh, hn, hm, hreg⟩ := hr.held hw.holding
  exact ⟨hh, hm.trans hw.managed, hreg.trans hw.registered, fun hash hrefs => hw.refs hash (hn ▸ hrefs)⟩

theorem Within.mono (hat : ∀ hash, at_ hash → at' hash) : Within id i managed registered at' h :=
  ⟨hw.holding, hw.managed, hw.registered, fun hash hrefs => hat hash (hw.refs hash hrefs)⟩

theorem Within.quiet {e : FeedEvent} {f : Feed} (hq : h.state.Quiet f) :
    Within id i managed registered at_ (h.did i e f) :=
  ⟨hw.holding, hq.managed.trans hw.managed, hq.registered.trans hw.registered,
    fun hash hrefs => hw.refs hash (hq.nodes ▸ hrefs)⟩

end

variable {α : Type} {task : FeedTask α} {Q : α → FeedHistory → Prop}

theorem Within.look {event : Feed → FeedEvent} {next : Feed → FeedTask α}
    (hw : Within id i managed registered at_ h) (he : ∀ f, event f ≠ .rowDeleted)
    (hnext : ∀ k : FeedHistory,
      Within id i managed registered at_ (k.did i (event k.state) k.state) →
      (tending id).Safe i Q (next k.state) (k.did i (event k.state) k.state)) :
    (tending id).Safe i Q (.act event (fun f => f) next) h :=
  fun k hr hinv _ => ⟨tending_quiet hinv (he _) .rfl,
    hnext k ((hw.of_rely hr).quiet .rfl)⟩

/-- The lock is held, and every reference is at a node of a subscription that is there. -/
def Attended (id : String) (i : ℕ) (h : FeedHistory) : Prop :=
  ∃ managed registered, Within id i managed registered (Tended managed registered) h

theorem Attended.of_rely (ha : Attended id i h) (hr : FeedRely i h k) : Attended id i k := by
  obtain ⟨managed, registered, hw⟩ := ha
  exact ⟨managed, registered, hw.of_rely hr⟩

/-- **A section under the lock** that begins and ends with the references in order. -/
theorem safe_section (hQ : ∀ a m m', Q a m → FeedRely i m m' → Q a m')
    (hrelease : ∀ a m, Q a m → Q a (m.release .opMu))
    (hs : ∀ m managed registered, Within id i managed registered (Tended managed registered) m →
      (tending id).Safe i (fun a n => Attended id i n ∧ Q a n) task m) :
    (tending id).Safe i Q (Prog.locked .opMu task) h := by
  refine .locked fun m _ hinv hfree => ⟨tending_acquire hinv hfree, ?_⟩
  have hwithin : Within id i m.state.sub.managedNodes m.state.registered
      (Tended m.state.sub.managedNodes m.state.registered) (m.acquire i .opMu) :=
    ⟨by simp [Hist.acquire], rfl, rfl, hinv.tended hfree⟩
  refine (hs _ _ _ hwithin).mono ?_
  rintro a n hinv' ⟨⟨managed', registered', hw⟩, hq⟩
  refine ⟨tending_release hinv' hw.holding fun hash hrefs => ?_, fun n' hr _ => ?_⟩
  · rw [hw.managed, hw.registered]
    exact hw.refs hash hrefs
  · exact hQ a _ _ (hrelease a n hq) hr

theorem safe_section_any
    (hs : ∀ m managed registered, Within id i managed registered (Tended managed registered) m →
      (tending id).Safe i (fun _ => Attended id i) task m) :
    (tending id).Tame i (Prog.locked .opMu task) h :=
  safe_section (fun _ _ _ _ _ => trivial) (fun _ _ _ => trivial) fun m managed' registered' hw =>
    (hs m managed' registered' hw).mono fun _ _ _ hn => ⟨hn, trivial⟩

theorem frame_rowDeleted (hs : (tending id).Safe i Q task h) (hd : RowDeleted h) :
    (tending id).Safe i (fun a k => Q a k ∧ RowDeleted k) task h :=
  hs.frame (fun _ _ _ hk => hk.did) (fun _ _ hk => hk) (fun _ _ hk => hk)
    (fun _ _ (hr : FeedRely i _ _) hk => hr.deleted hk) hd

theorem Within.referenced {hash : Hash} {nowNs : ℤ} {f : Feed} (hinv : InOrder id h)
    (hw : Within id i managed true at_ h) (hhash : at_ hash)
    (hf : h.state.References hash nowNs f) :
    (tending id).Keeps i h (h.did i (.nodeReferenced hash) f) ∧
      Within id i managed true at_ (h.did i (.nodeReferenced hash) f) := by
  rcases hf with rfl | ⟨raw, rfl⟩
  · exact ⟨tending_quiet hinv nofun .rfl, hw.quiet .rfl⟩
  refine ⟨tending_held hinv hw.holding nofun rfl
    (NodePool.refsNodup_addReference hinv.nodup raw nowNs) rfl rfl
    fun hg => absurd (hw.registered.symm.trans hg) (by simp),
    hw.holding, hw.managed, hw.registered, fun hash' hrefs => ?_⟩
  rw [Hist.did_state, hinv.ident] at hrefs
  rcases NodePool.refers_addReference hrefs with hold | rfl
  · exact hw.refs hash' hold
  · exact hhash

variable {hashes : List Hash} (imp : Importer)

theorem safe_referenceEach {reference : Hash → Feed → Feed} {nowNs : ℤ}
    (href : ∀ (f : Feed) hash, f.References hash nowNs (reference hash f))
    (hhashes : ∀ hash ∈ hashes, at_ hash) (hw : Within id i managed true at_ h) :
    (tending id).Safe i (fun _ => Within id i managed true at_)
      (Feed.referenceEach reference hashes) h := by
  induction hashes generalizing h with
  | nil => exact fun k hr _ => hw.of_rely hr
  | cons hash hashes ih =>
    intro k hr hinv _
    obtain ⟨hkeeps, hw'⟩ := (hw.of_rely hr).referenced hinv (hhashes hash (.head _))
      (href k.state hash)
    exact ⟨hkeeps, ih (fun hash' hmem => hhashes hash' (.tail _ hmem)) hw'⟩

theorem safe_releaseOn
    (hw : Within id i managed registered (fun hash => at_ hash ∨ hash ∈ hashes) h) :
    (tending id).Safe i (fun _ => Within id i managed registered at_)
      (Feed.releaseOn hashes) h := by
  induction hashes generalizing h with
  | nil =>
    refine fun k hr _ => (hw.of_rely hr).mono fun hash hat => ?_
    exact hat.resolve_right (by simp)
  | cons hash hashes ih =>
    intro k hr hinv _
    have hw' := hw.of_rely hr
    have hleft : ∀ hash', (k.state.release hash).nodes.Refers id hash' →
        k.state.nodes.Refers id hash' ∧ hash' ≠ hash := by
      intro hash' hrefs
      have hrefs : (k.state.nodes.removeReference hash k.state.sub.id).Refers id hash' := hrefs
      rw [hinv.ident] at hrefs
      exact NodePool.refers_removeReference hinv.nodup hrefs
    refine ⟨tending_held hinv hw'.holding nofun rfl
      (NodePool.refsNodup_removeReference hinv.nodup) rfl rfl
      fun hg hash' hrefs => hinv.clean hg hash' (hleft hash' hrefs).1, ih ?_⟩
    refine ⟨hw'.holding, hw'.managed, hw'.registered, fun hash' hrefs => ?_⟩
    obtain ⟨hold, hne⟩ := hleft hash' hrefs
    exact (hw'.refs hash' hold).imp_right fun hmem => (List.mem_cons.mp hmem).resolve_left hne

theorem safe_applyRefresh (seq : ℤ) (result : ParseResult) (nowNs : ℤ)
    (hw : Within id i managed true (Tended managed true) h) :
    (tending id).Safe i (fun _ => Attended id i) (Feed.applyRefresh imp seq result nowNs) h := by
  intro k hr hinv _
  have hw' := hw.of_rely hr
  set next := k.state.mergedManagedNodes (imp.refreshed result.nodes)
  refine ⟨tending_held hinv hw'.holding nofun rfl hinv.nodup rfl rfl hinv.clean, ?_⟩
  have hswapped : Within id i next true
      (fun hash => hash ∈ next.hashes ∨ hash ∈ (k.state.sub.managedNodes.diffHashes next).removed)
      (k.did i (.nodesSwapped seq result.nodes k.state.sub.managedNodes)
        (k.state.swapManagedNodes next)) := by
    refine ⟨hw'.holding, rfl, hw'.registered, fun hash hrefs => ?_⟩
    have hold := (hw'.refs hash hrefs).2
    rw [hw'.managed]
    exact ManagedNodes.mem_hashes_or_removed hold
  dsimp only [ret_bind]
  have href := fun (f : Feed) hash =>
    f.references_reference next (imp.rawByHash result.nodes hash) nowNs hash
  refine (safe_referenceEach href
    (fun hash hmem => .inl (ManagedNodes.mem_hashes_of_added hmem)) hswapped).seq ?_
  rintro - m hw1
  refine (safe_referenceEach href
    (fun hash hmem => .inl (ManagedNodes.mem_hashes_of_kept hmem)) hw1).seq ?_
  rintro - m hw2
  refine (safe_releaseOn hw2).seq ?_
  rintro - m hw3 n hr' hinv' -
  have hquiet : n.state.Quiet (n.state.onSub fun s => s.markApplied imp result seq nowNs) :=
    ⟨rfl, rfl, rfl, rfl, rfl⟩
  refine ⟨tending_quiet hinv' nofun hquiet, fun n' hr'' _ => ⟨next, true, ?_⟩⟩
  exact (((hw3.of_rely hr').quiet hquiet).of_rely hr'').mono fun hash hat => ⟨rfl, hat⟩

theorem safe_landRefresh (seq version : ℤ) (result : ParseResult) (nowNs : ℤ) :
    (tending id).Tame i (Feed.landRefresh imp seq version result nowNs) h := by
  refine safe_section_any fun m managed registered hw k hr hinv hmay => ?_
  have hw' := hw.of_rely hr
  refine ⟨tending_quiet hinv nofun .rfl, ?_⟩
  dsimp only [ret_bind] at hmay ⊢
  cases hpassed : k.state.sub.current seq version with
  | false =>
    exact fun n hr' _ => ⟨managed, registered, (hw'.quiet .rfl).of_rely hr'⟩
  | true =>
    rw [hpassed] at hmay
    have hreg : registered = true := hw'.registered.symm.trans hmay
    subst hreg
    refine (safe_applyRefresh imp seq result nowNs (hw'.quiet .rfl)).seq ?_
    exact fun _ n hn n' hr' _ => hn.of_rely hr'

theorem safe_handleUpdateFailure (seq version : ℤ) (err : String) (report : Option ParseResult)
    (nowNs : ℤ) :
    (tending id).Tame i
      (Feed.handleUpdateFailure imp seq version err report nowNs) h := by
  refine safe_section_any fun m managed registered hw => hw.look (fun _ => nofun) fun k hw' => ?_
  dsimp only [ret_bind]
  generalize k.state.sub.current seq version = passed at hw' ⊢
  cases passed with
  | false => exact fun n hr' _ => ⟨managed, registered, hw'.of_rely hr'⟩
  | true =>
    intro n hr' hinv' _
    have hquiet : n.state.Quiet (n.state.onSub fun s => s.markFailed imp report err nowNs) := by
      cases report with
      | none | some => exact ⟨rfl, rfl, rfl, rfl, rfl⟩
    refine ⟨tending_quiet hinv' nofun hquiet, fun n' hr'' _ => ⟨managed, registered, ?_⟩⟩
    exact ((hw'.of_rely hr').quiet hquiet).of_rely hr''

theorem safe_updateSubscription (fetch : String → Except String String) (nowNs : ℤ) :
    (tending id).Tame i (Feed.updateSubscription imp fetch nowNs) h := by
  refine fun k _ hinv _ => ⟨tending_quiet hinv nofun ⟨rfl, rfl, rfl, rfl, rfl⟩, ?_⟩
  refine safe_look (fun _ => nofun) fun k => ?_
  refine safe_look (fun _ => nofun) fun k => ?_
  refine safe_look (fun _ => nofun) fun k => ?_
  refine safe_look (fun _ => nofun) fun k => ?_
  split
  · exact safe_handleUpdateFailure imp _ _ _ _ nowNs
  split
  · refine safe_look (fun _ => nofun) fun k => ?_
    dsimp only [ret_bind]
    split
    · exact safe_handleUpdateFailure imp _ _ _ _ nowNs
    · exact safe_landRefresh imp _ _ _ nowNs
  · exact safe_landRefresh imp _ _ _ nowNs

/-! ## The other operations -/

theorem safe_renameSubscription (name : String) (nowNs : ℤ) :
    (tending id).Tame i (Feed.renameSubscription name nowNs) h := by
  refine safe_section_any fun m managed registered hw k hr hinv hmay => ?_
  have hw' := hw.of_rely hr
  have hreg : registered = true := hw'.registered.symm.trans hmay
  subst hreg
  have hquiet : k.state.Quiet (k.state.onSub fun s => { s with name := name }) :=
    ⟨rfl, rfl, rfl, rfl, rfl⟩
  refine ⟨tending_quiet hinv nofun hquiet, ?_⟩
  refine (safe_referenceEach (fun f hash => f.references_referenceAgain nowNs hash)
    (fun hash hmem => ?_) (hw'.quiet hquiet)).mono fun _ n _ hn => ⟨_, _, hn⟩
  have hlisted : hash ∈ k.state.sub.managedNodes.hashes :=
    (List.filter_sublist.map ManagedNode.hash).subset hmem
  exact ⟨rfl, hw'.managed ▸ hlisted⟩

theorem safe_setSubscriptionEnabled (enabled : Bool) :
    (tending id).Tame i (Feed.setSubscriptionEnabled enabled) h := by
  refine safe_section_any fun m managed registered hw k hr hinv _ => ?_
  have hquiet : k.state.Quiet (k.state.onSub fun s => { s with enabled := enabled }) :=
    ⟨rfl, rfl, rfl, rfl, rfl⟩
  exact ⟨tending_quiet hinv nofun hquiet,
    fun n hr' _ => ⟨_, _, ((hw.of_rely hr).quiet hquiet).of_rely hr'⟩⟩

theorem safe_renameIfChanged (old name : String) (nowNs : ℤ) :
    (tending id).Tame i (Feed.renameIfChanged old name nowNs) h := by
  unfold Feed.renameIfChanged
  split
  · exact safe_renameSubscription name nowNs
  · exact .done

theorem safe_enableIfChanged (old enabled : Bool) :
    (tending id).Tame i (Feed.enableIfChanged old enabled) h := by
  unfold Feed.enableIfChanged
  split
  · exact safe_setSubscriptionEnabled enabled
  · exact .done

theorem safe_patchSubscription (parseHTTPAbsoluteURL : String → Except ServiceError Unit)
    (p : FeedPatch) (dbFails : Bool) (nowNs : ℤ) :
    (tending id).Tame i
      (Feed.patchSubscription parseHTTPAbsoluteURL p dbFails nowNs) h := by
  refine safe_look (fun _ => nofun) fun k => ?_
  dsimp only [ret_bind]
  split
  · exact .done
  refine safe_look (fun _ => nofun) fun k => ?_
  dsimp only [ret_bind]
  split
  · exact .done
  split
  · exact .done
  refine fun k _ hinv hmay => ⟨tending_rowWritten hinv hmay _, ?_⟩
  refine fun k _ hinv _ => ⟨tending_quiet hinv nofun ⟨rfl, rfl, rfl, rfl, rfl⟩, ?_⟩
  refine fun k _ hinv _ => ⟨tending_quiet hinv nofun ⟨rfl, rfl, rfl, rfl, rfl⟩, ?_⟩
  refine fun k _ hinv _ => ⟨tending_quiet hinv nofun ⟨rfl, rfl, rfl, rfl, rfl⟩, ?_⟩
  dsimp only [ret_bind]
  refine (safe_renameIfChanged _ _ nowNs).seq fun _ m _ => ?_
  refine (safe_enableIfChanged _ _).seq fun _ n _ => ?_
  exact .done

theorem safe_cleanupWithConfirm (shouldRemove : NodeEntry → Bool)
    (hw : Within id i managed registered (Tended managed registered) h) :
    (tending id).Safe i (fun _ => Attended id i) (Feed.cleanupWithConfirm shouldRemove) h := by
  refine hw.look (fun _ => nofun) fun k hw1 m hr' hinv' _ => ?_
  have hw' := hw1.of_rely hr'
  dsimp only [ret_bind]
  set hashes := m.state.confirmed shouldRemove (k.state.cleanupCandidates shouldRemove)
  refine ⟨tending_held hinv' hw'.holding nofun rfl hinv'.nodup rfl rfl hinv'.clean, ?_⟩
  set managed' := m.state.sub.managedNodes.map fun n =>
    if n.hash ∈ hashes then { n with evicted := true } else n with hmanaged'
  have hsame : ManagedNodes.hashes managed' = managed.hashes := by
    unfold ManagedNodes.hashes
    rw [hmanaged', hw'.managed, List.map_map]
    refine List.map_congr_left fun n _ => ?_
    show (if n.hash ∈ hashes then { n with evicted := true } else n).hash = n.hash
    split <;> rfl
  have hevicted : Within id i managed' registered (Tended managed' registered)
      (m.did i .nodesEvicted (m.state.evict hashes)) := by
    refine ⟨hw'.holding, rfl, hw'.registered, fun hash hrefs => ?_⟩
    obtain ⟨hreg, hmem⟩ := hw'.refs hash hrefs
    exact ⟨hreg, hsame ▸ hmem⟩
  refine (safe_releaseOn (hevicted.mono fun _ hat => .inl hat)).seq ?_
  exact fun _ n hn n' hr'' _ => ⟨managed', registered, Within.of_rely hn hr''⟩

theorem safe_cleanupSubscriptionCircuitOpenNodes :
    (tending id).Tame i Feed.cleanupSubscriptionCircuitOpenNodes h := by
  refine safe_look (fun _ => nofun) fun k => ?_
  dsimp only [ret_bind]
  split
  · exact .done
  refine safe_section_any fun m managed registered hw => hw.look (fun _ => nofun) fun k hw' => ?_
  dsimp only [ret_bind]
  split
  · exact fun n hr' _ => ⟨_, _, hw'.of_rely hr'⟩
  · exact (safe_cleanupWithConfirm _ hw').seq fun _ n hn n' hr' _ => hn.of_rely hr'

theorem safe_sweepOneSubscription (nowNs : ℤ) :
    (tending id).Tame i (Feed.sweepOneSubscription nowNs) h := by
  refine safe_look (fun _ => nofun) fun k => ?_
  dsimp only [ret_bind]
  split
  · exact .done
  · refine safe_section_any fun m managed registered hw => hw.look (fun _ => nofun) fun k hw' => ?_
    dsimp only [ret_bind]
    exact (safe_cleanupWithConfirm _ hw').seq fun _ n hn n' hr' _ => hn.of_rely hr'

/-! ## The deletion -/

/-- The subscription is gone, if the answer says so. -/
def GoneIfOk (a : Except ServiceError Unit) (h : FeedHistory) : Prop :=
  a = .ok () → h.state.registered = false

theorem GoneIfOk.of_error (e : ServiceError) (h : FeedHistory) : GoneIfOk (.error e) h := nofun

theorem safe_unregister (hw : Within id i managed registered (fun _ => False) h)
    (hdeleted : RowDeleted h) :
    (tending id).Safe i (fun a k => Attended id i k ∧ GoneIfOk a k)
      ((Prog.modify .unregistered fun f => { f with registered := false }).bind
        fun _ => pure (.ok ())) h := by
  intro k hr hinv _
  have hw' := hw.of_rely hr
  refine ⟨⟨⟨hinv.ident, hinv.nodup, fun hfree => ?_, fun hd => hinv.row (RowDeleted.of_did (by simp) hd),
    fun _ => (hr.deleted hdeleted).did, fun _ hash hrefs => hw'.refs hash hrefs⟩,
    fun j hj => ⟨fun _ => rfl, RowDeleted.did, fun hh => ?_⟩⟩,
    fun n hr' _ => ⟨⟨managed, false, ?_⟩, fun _ => hr'.gone rfl⟩⟩
  · exact absurd (hw'.holding.symm.trans hfree) (by simp)
  · exact absurd (Hist.holder_unique hw'.holding hh) hj
  · have hdone : Within id i managed false (Tended managed false)
        (k.did i .unregistered { k.state with registered := false }) :=
      ⟨hw'.holding, hw'.managed, rfl, fun hash hrefs => (hw'.refs hash hrefs).elim⟩
    exact hdone.of_rely hr'

theorem safe_deleteLocked (dbFails : Bool)
    (hw : Within id i managed registered (Tended managed registered) h) :
    (tending id).Safe i (fun a k => Attended id i k ∧ GoneIfOk a k)
      (Feed.deleteLocked dbFails) h := by
  refine hw.look (fun _ => nofun) fun k hw1 => ?_
  dsimp only [ret_bind]
  split
  · exact fun n hr' _ => ⟨⟨_, _, hw1.of_rely hr'⟩, GoneIfOk.of_error _ _⟩
  refine hw1.look (fun _ => nofun) fun k hw2 => ?_
  dsimp only [ret_bind]
  rw [show k.state.sub.managedNodes = managed from hw2.managed]
  intro m hr' hinv' _
  have hw3 := hw2.of_rely hr'
  cases dbFails with
  | true =>
    refine ⟨tending_quiet hinv' nofun .rfl, fun n hr'' _ => ?_⟩
    exact ⟨⟨_, _, (hw3.quiet .rfl).of_rely hr''⟩, GoneIfOk.of_error _ _⟩
  | false =>
    cases hrow : m.state.row with
    | none =>
      have hquiet : m.state.Quiet { m.state with row := none } := ⟨rfl, rfl, rfl, rfl, hrow.symm⟩
      simp only [Bool.false_or, hrow, Option.isNone_none, if_true, Option.isSome_none]
      refine ⟨tending_quiet hinv' nofun hquiet, fun n hr'' _ => ?_⟩
      exact ⟨⟨_, _, (hw3.quiet hquiet).of_rely hr''⟩, GoneIfOk.of_error _ _⟩
    | some r =>
      simp only [Bool.false_or, hrow, Option.isNone_some, Option.isSome_some]
      refine ⟨?_, ?_⟩
      · refine ⟨⟨hinv'.ident, hinv'.nodup, fun hfree => ?_, fun _ => rfl,
          fun _ => ⟨i, .head _⟩, hinv'.clean⟩, fun j hj => ⟨fun hg => hg,
            fun hd => RowDeleted.did hd, fun hh => ?_⟩⟩
        · exact absurd (hw3.holding.symm.trans hfree) (by simp)
        · exact absurd (Hist.holder_unique hw3.holding hh) hj
      · have hdeleted : RowDeleted (m.did i .rowDeleted { m.state with row := none }) :=
          ⟨i, .head _⟩
        have hw4 : Within id i managed registered (fun hash => False ∨ hash ∈ managed.hashes)
            (m.did i .rowDeleted { m.state with row := none }) :=
          ⟨hw3.holding, hw3.managed, hw3.registered, fun hash hrefs => .inr (hw3.refs hash hrefs).2⟩
        dsimp only [ret_bind]
        refine (frame_rowDeleted (safe_releaseOn hw4) hdeleted).seq ?_
        rintro - n ⟨hw5, hgone⟩
        exact safe_unregister hw5 hgone

theorem safe_deleteSubscription (dbFails : Bool) :
    (tending id).Safe i GoneIfOk (Feed.deleteSubscription dbFails) h := by
  refine safe_look (fun _ => nofun) fun k => ?_
  dsimp only [ret_bind]
  split
  · exact fun n _ _ => GoneIfOk.of_error _ n
  · refine safe_section (fun a m m' hq hr hok => hr.gone (hq hok)) (fun _ _ hq => hq)
      fun m managed registered hw => ?_
    exact safe_deleteLocked dbFails hw

end Sections

/-- The operations on a subscription. -/
inductive FeedCall where
  | delete (dbFails : Bool)
  | refresh (imp : Importer) (fetch : String → Except String String) (nowNs : ℤ)
  | patch (parseHTTPAbsoluteURL : String → Except ServiceError Unit) (p : FeedPatch)
      (dbFails : Bool) (nowNs : ℤ)
  | cleanup
  | sweep (nowNs : ℤ)

def FeedCall.prog : FeedCall → FeedTask (Option (Except ServiceError Unit))
  | .delete dbFails => (Feed.deleteSubscription dbFails).bind fun a => pure (some a)
  | .refresh imp fetch nowNs =>
    (Feed.refreshSubscription imp fetch nowNs).bind fun _ => pure none
  | .patch parse p dbFails nowNs =>
    (Feed.patchSubscription parse p dbFails nowNs).bind fun _ => pure none
  | .cleanup => Feed.cleanupSubscriptionCircuitOpenNodes.bind fun _ => pure none
  | .sweep nowNs => (Feed.sweepOneSubscription nowNs).bind fun _ => pure none

theorem FeedCall.safe (call : FeedCall) {id : String} {i : ℕ} {h : FeedHistory} :
    (tending id).Safe i (fun a k => ∀ b, a = some b → GoneIfOk b k) call.prog h := by
  have hany : ∀ {α : Type} {task : FeedTask α}, (tending id).Tame i task h →
      (tending id).Safe i (fun a k => ∀ b, a = some b → GoneIfOk b k)
        (task.bind fun _ => pure none) h :=
    fun hs => hs.seq fun _ _ _ _ _ _ => nofun
  cases call with
  | delete dbFails =>
    refine (safe_deleteSubscription dbFails).seq ?_
    intro a k hgone m hr _ b hb hok
    cases hb
    exact hr.gone (hgone hok)
  | refresh imp fetch nowNs =>
    refine hany (safe_look (fun _ => nofun) fun k => ?_)
    dsimp only [ret_bind]
    split
    · exact safe_updateSubscription imp fetch nowNs
    · exact .done
  | patch parse p dbFails nowNs => exact hany (safe_patchSubscription parse p dbFails nowNs)
  | cleanup => exact hany safe_cleanupSubscriptionCircuitOpenNodes
  | sweep nowNs => exact hany (safe_sweepOneSubscription nowNs)

/-- A subscription that is registered, with its references at the nodes it manages. -/
structure Feed.Established (f : Feed) : Prop where
  registered : f.registered = true
  nodup : f.nodes.RefsNodup
  refs : ∀ hash, f.nodes.Refers f.sub.id hash → hash ∈ f.sub.managedNodes.hashes

theorem Feed.Established.inOrder {f : Feed} (hf : f.Established) :
    InOrder f.sub.id { state := f } where
  ident := rfl
  nodup := hf.nodup
  tended _ hash hrefs := ⟨hf.registered, hf.refs hash hrefs⟩
  row := fun ⟨_, hmem⟩ => absurd hmem (by simp)
  gone hgone := absurd (hf.registered.symm.trans hgone) (by simp)
  clean hgone := absurd (hf.registered.symm.trans hgone) (by simp)

/-- **A deleted subscription leaves nothing behind.**  However the operations interleave, if nothing
was written for a subscription that was gone, then from when a deletion has answered with success on
no entry of the pool refers to the subscription and it has no row. -/
theorem deleted_leaves_nothing {f : Feed} (hf : f.Established) (calls : List FeedCall)
    (sched : List ℕ)
    (hmay : Along Pool.step (Pool.Meets StillThere) (Pool.start f (calls.map FeedCall.prog)) sched)
    (hdeleted : some (some (.ok ())) ∈
      (run Pool.step (Pool.start f (calls.map FeedCall.prog)) sched).answers) :
    let after := (run Pool.step (Pool.start f (calls.map FeedCall.prog)) sched).hist.state
    (∀ e ∈ after.nodes, f.sub.id ∉ e.subscriptionIDs) ∧ after.row = none := by
  intro after
  have hstart : Discipline.Kept (tending f.sub.id) (fun _ a k => ∀ b, a = some b → GoneIfOk b k)
      (Pool.start f (calls.map FeedCall.prog)) :=
    .of_calls hf.inOrder fun _ call _ => call.safe
  have hkept := (tending f.sub.id).run_safe hstart hmay
  obtain ⟨i, hi⟩ := List.mem_iff_getElem?.mp hdeleted
  have hgone := hkept.answer (Pool.getElem?_answers.mp hi) (.ok ()) rfl rfl
  refine ⟨fun e he hmem => ?_, hkept.inv.row (hkept.inv.gone hgone)⟩
  exact hkept.inv.clean hgone e.hash ⟨e, he, rfl, hmem⟩

def oneNodeImporter : Importer where
  hashFromRawOptions := String.length
  parseWithReport body := ({ nodes := [⟨"tag", body⟩] }, none)
  summarizeParseResult _ := ""

def oneNodeFeed : Feed where
  sub := { id := "sub", url := "https://feed", updateIntervalNs := 60000000000,
           managedNodes := [{ hash := 4, tags := ["tag"] }] }
  row := some (FeedPatch.row {} { id := "sub" } 0)
  nodes := [{ hash := 4, rawOptions := "node", subscriptionIDs := ["sub"] }]

def deleteWhileChanging : List FeedCall :=
  [.delete false, .refresh oneNodeImporter (fun _ => .ok "node") 7,
    .patch (fun _ => .ok ()) { autoIntel := some false } false 7]

/-- **A deletion is undone.**  A refresh that has read what to fetch, and a patch that has looked the
object up, go on after the deletion has answered with success: the pool refers to the subscription
again, and it has a row. -/
theorem deletion_undone :
    let pool := run Pool.step (Pool.start oneNodeFeed (deleteWhileChanging.map FeedCall.prog))
      (List.replicate 6 1 ++ List.replicate 2 2 ++ List.replicate 8 0 ++ List.replicate 6 1 ++
        List.replicate 4 2)
    pool.Finished ∧ pool.answers = [some (some (.ok ())), some none, some none] ∧
      pool.hist.state.nodes.map NodeEntry.subscriptionIDs = [["sub"]] ∧
      pool.hist.state.row.isSome = true ∧ pool.hist.state.registered = false := by
  decide +kernel

theorem oneNodeFeed_established : oneNodeFeed.Established where
  registered := rfl
  nodup := by decide
  refs := by
    rintro hash ⟨e, he, rfl, -⟩
    obtain rfl := List.mem_singleton.mp he
    decide

theorem deleted_leaves_nothing_in_turn :
    let sched := List.replicate 12 1 ++ List.replicate 6 2 ++ List.replicate 8 0
    let after := (run Pool.step (Pool.start oneNodeFeed (deleteWhileChanging.map FeedCall.prog))
      sched).hist.state
    (∀ e ∈ after.nodes, oneNodeFeed.sub.id ∉ e.subscriptionIDs) ∧ after.row = none :=
  deleted_leaves_nothing oneNodeFeed_established deleteWhileChanging
    (List.replicate 12 1 ++ List.replicate 6 2 ++ List.replicate 8 0) (by decide +kernel)
    (by decide +kernel)

end Prism
