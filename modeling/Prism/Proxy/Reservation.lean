import Prism.Usage.Limiter
import Prism.Usage.Registry

/-!
# Sessions are reserved before they are admitted

`internal/proxy/metering.go`.  A request counts the sessions of its key, registers its own and asks
the gate, all under `sessionReservationMu`.  Everything else happens outside of it: the placeholder
of a request that was refused is taken out later, a session that ends takes its own out, and
`CloseKey` takes out a whole set at any moment.

The lock is enough.  A request goes through four phases.

* It *counts*.  Every session that is admitted, and neither released nor closed, is registered, so
  there are at most as many of them as it counted.
* It *registers*.  From here on its session is registered, or some `CloseKey` has it.
* It is *admitted* against the number it counted.  Nobody else was admitted in the meantime, and what
  others took out has only made room.
* It is *over*, or was refused, and takes its session out.  Nobody else ever registers that handle.
-/

namespace Prism

open Hist (did_trace)

/-- What the gate goes by: sessions, rates, bytes and the clock. -/
structure Gateway where
  registry : ConnRegistry := {}
  rates : RateTable := []
  usage : Counters := {}
  clockNs : ℤ := 0

inductive GatewayEvent where
  | counted (keyID : String)
  | tracked (keyID : String) (conn : Handle)
  /-- the gate has answered, for a session if there is one -/
  | decided (keyID : String) (session : Option Handle) (admitted : Bool)
  | untracked (keyID : String) (conn : Handle)
  /-- a set was taken out of the registry to be closed -/
  | closed (keyID : String) (conns : List Handle)
  | metered
  | clockMoved

inductive GatewayMutex where
  /-- `sessionReservationMu` -/
  | sessionReservation
  deriving DecidableEq

abbrev GatewayTask (α : Type) := Prog Gateway GatewayEvent GatewayMutex α

abbrev GatewayHistory := Hist Gateway GatewayEvent GatewayMutex

/-- What a proxy was built with: a gate, and a tracker of sessions. -/
structure ProxyDeps where
  gated : Bool := true
  tracking : Bool := true

structure SessionReservation where
  /-- the key and the handle, if they were registered -/
  tracked : Option (String × Handle) := none
  released : Bool := false

namespace Proxy

def release (reservation : SessionReservation) : GatewayTask SessionReservation :=
  match reservation.tracked with
  | none => pure reservation
  | some (keyID, conn) =>
    if reservation.released then pure reservation
    else do
      Prog.modify (.untracked keyID conn) fun g =>
        { g with registry := g.registry.untrack keyID conn }
      pure { reservation with released := true }

variable (deps : ProxyDeps) (key : KeyState)

def sessionCount : GatewayTask ℕ :=
  if deps.tracking = false ∨ key.keyID = "" then pure 0
  else Prog.read (.counted key.keyID) fun g => g.registry.count key.keyID

variable (session : Option Handle)

def register : GatewayTask SessionReservation :=
  match session with
  | none => pure {}
  | some conn =>
    if deps.tracking = false ∨ key.keyID = "" then pure {}
    else do
      Prog.modify (.tracked key.keyID conn) fun g =>
        { g with registry := g.registry.track key.keyID conn }
      pure { tracked := some (key.keyID, conn) }

/-- What the gate answers to a request of the key that found so many sessions. -/
def verdict (held : ℕ) (g : Gateway) : Decision × RateTable :=
  if deps.gated then Limiter.check g.usage key held g.clockNs g.rates else (none, g.rates)

def askGate (held : ℕ) : GatewayTask Decision :=
  Prog.step (fun g => .decided key.keyID session (verdict deps key held g).1.isNone) fun g =>
    ((verdict deps key held g).1, { g with rates := (verdict deps key held g).2 })

/-- The critical section: count, register, ask. -/
def reserve : GatewayTask (Decision × SessionReservation) :=
  Prog.locked .sessionReservation do
    let held ← sessionCount deps key
    let reservation ← register deps key session
    let decision ← askGate deps key session held
    pure (decision, reservation)

/-- Reserve a session for a request.  A refusal leaves nothing behind. -/
def reserveSession (key : Option KeyState) (session : Option Handle) :
    GatewayTask (Decision × SessionReservation) :=
  match key with
  | none => pure (none, {})
  | some key => do
    let answer ← reserve deps key session
    match answer.1 with
    | some reason => do
      let reservation ← release answer.2
      pure (some reason, reservation)
    | none => pure answer

/-- Serve a request: it is refused, or it ends at some time and releases its session. -/
def serve (key : Option KeyState) (session : Option Handle) : GatewayTask Decision := do
  let answer ← reserveSession deps key session
  match answer.1 with
  | some reason => pure (some reason)
  | none => do
    let _ ← release answer.2
    pure none

def closeKey (keyID : String) : GatewayTask ℕ :=
  Prog.step (fun g => .closed keyID (g.registry.closeKey keyID).1) fun g =>
    ((g.registry.closeKey keyID).1.length, { g with registry := (g.registry.closeKey keyID).2 })

/-- Close the sessions of the keys that the walk over the map comes by. -/
def closeAll : List String → GatewayTask ℕ
  | [] => pure 0
  | keyID :: visited => do
    let closed ← closeKey keyID
    let more ← closeAll visited
    pure (closed + more)

def meter (count : Counters → Counters) : GatewayTask Unit :=
  Prog.modify .metered fun g => { g with usage := count g.usage }

def passTime (ns : ℕ) : GatewayTask Unit :=
  Prog.modify .clockMoved fun g => { g with clockNs := g.clockNs + ns }

end Proxy

namespace GatewayEvent

variable (keyID : String)

/-- The event admits a session of the key. -/
def admits : GatewayEvent → Option Handle
  | .decided k (some conn) true => if k = keyID then some conn else none
  | _ => none

def releases : GatewayEvent → Option Handle
  | .untracked k conn => if k = keyID then some conn else none
  | _ => none

def closes : GatewayEvent → List Handle
  | .closed k conns => if k = keyID then conns else []
  | _ => []

end GatewayEvent

section Trace

variable (keyID : String) (trace : List (ℕ × GatewayEvent))

def admittedSessions : List Handle := trace.filterMap fun q => q.2.admits keyID

def releasedSessions : List Handle := trace.filterMap fun q => q.2.releases keyID

def closedSessions : List Handle := trace.flatMap fun q => q.2.closes keyID

/-- The sessions that were admitted and neither released nor handed to a `CloseKey`. -/
def liveSessions : List Handle :=
  (admittedSessions keyID trace).filter fun conn =>
    conn ∉ releasedSessions keyID trace ∧ conn ∉ closedSessions keyID trace

end Trace

section Cons

variable {keyID : String} {i : ℕ} {e : GatewayEvent} {trace trace' : List (ℕ × GatewayEvent)}
  {conn : Handle}

theorem admittedSessions_cons_none (h : e.admits keyID = none) :
    admittedSessions keyID ((i, e) :: trace) = admittedSessions keyID trace :=
  List.filterMap_cons_none h

theorem admittedSessions_cons_some (h : e.admits keyID = some conn) :
    admittedSessions keyID ((i, e) :: trace) = conn :: admittedSessions keyID trace :=
  List.filterMap_cons_some h

theorem admittedSessions_mono (h : trace <:+ trace') :
    admittedSessions keyID trace ⊆ admittedSessions keyID trace' :=
  (h.sublist.filterMap _).subset

theorem releasedSessions_mono (h : trace <:+ trace') :
    releasedSessions keyID trace ⊆ releasedSessions keyID trace' :=
  (h.sublist.filterMap _).subset

theorem closedSessions_mono (h : trace <:+ trace') :
    closedSessions keyID trace ⊆ closedSessions keyID trace' := by
  intro c hc
  obtain ⟨q, hq, hcq⟩ := List.mem_flatMap.mp hc
  exact List.mem_flatMap.mpr ⟨q, h.subset hq, hcq⟩

theorem mem_releasedSessions_cons (h : e.releases keyID = some conn) :
    conn ∈ releasedSessions keyID ((i, e) :: trace) :=
  List.mem_filterMap.mpr ⟨(i, e), .head _, h⟩

theorem mem_closedSessions_cons (h : conn ∈ e.closes keyID) :
    conn ∈ closedSessions keyID ((i, e) :: trace) :=
  List.mem_flatMap.mpr ⟨(i, e), .head _, h⟩

theorem length_liveSessions_le (h : trace <:+ trace')
    (hsame : admittedSessions keyID trace' = admittedSessions keyID trace) :
    (liveSessions keyID trace').length ≤ (liveSessions keyID trace).length := by
  unfold liveSessions
  rw [hsame]
  refine (List.monotone_filter_right _ fun c hc => ?_).length_le
  simp only [decide_eq_true_eq] at hc ⊢
  exact ⟨fun hr => hc.1 (releasedSessions_mono h hr), fun hcl => hc.2 (closedSessions_mono h hcl)⟩

theorem length_liveSessions_admit (h : e.admits keyID = some conn) :
    (liveSessions keyID ((i, e) :: trace)).length ≤ (liveSessions keyID trace).length + 1 := by
  have hcons : ∀ (p : Handle → Bool) (l : List Handle),
      ((conn :: l).filter p).length ≤ (l.filter p).length + 1 := by
    intro p l
    rw [List.filter_cons]
    split
    · exact le_refl _
    · exact Nat.le_succ _
  unfold liveSessions
  rw [admittedSessions_cons_some h]
  refine (hcons _ _).trans (Nat.succ_le_succ ?_)
  refine (List.monotone_filter_right _ fun c hc => ?_).length_le
  simp only [decide_eq_true_eq] at hc ⊢
  have hmore : trace <:+ (i, e) :: trace := List.suffix_cons ..
  exact ⟨fun hr => hc.1 (releasedSessions_mono hmore hr),
    fun hcl => hc.2 (closedSessions_mono hmore hcl)⟩

end Cons

/-- Which session a thread has, and no two have one. -/
structure Handles where
  of : ℕ → Option Handle
  inj : ∀ {i j conn}, of i = some conn → of j = some conn → i = j

structure Orderly (keyID : String) (m : ℤ) (h : GatewayHistory) : Prop where
  nodup : (admittedSessions keyID h.trace).Nodup
  reachable : ∀ conn ∈ admittedSessions keyID h.trace, conn ∉ releasedSessions keyID h.trace →
    conn ∈ h.state.registry.held keyID ∨ conn ∈ closedSessions keyID h.trace
  limit : (liveSessions keyID h.trace).length ≤ m

/-- What a request counts on while others go on: nobody touches its handle, except to close it, and
nobody is admitted while it holds the lock. -/
structure SessionRely (handles : Handles) (keyID : String) (i : ℕ) (h h' : GatewayHistory) :
    Prop where
  grown : h.trace <:+ h'.trace
  holding : h.holder .sessionReservation = some i → h'.holder .sessionReservation = some i ∧
    admittedSessions keyID h'.trace = admittedSessions keyID h.trace
  absent : ∀ conn, handles.of i = some conn → ∀ k, conn ∉ h.state.registry.held k →
    conn ∉ h'.state.registry.held k
  reachable : ∀ conn, handles.of i = some conn → conn ∈ h.state.registry.held keyID →
    conn ∈ h'.state.registry.held keyID ∨ conn ∈ closedSessions keyID h'.trace
  waiting : ∀ conn, handles.of i = some conn → conn ∉ admittedSessions keyID h.trace →
    conn ∉ admittedSessions keyID h'.trace

def reserving (handles : Handles) (keyID : String) (m : ℤ) :
    Discipline Gateway GatewayEvent GatewayMutex where
  inv := Orderly keyID m
  may _ _ _ := True
  rely := SessionRely handles keyID
  rely_refl _ _ := ⟨List.suffix_refl _, fun hh => ⟨hh, rfl⟩, fun _ _ _ h => h, fun _ _ h => .inl h,
    fun _ _ h => h⟩
  rely_trans h₁ h₂ :=
    { grown := h₁.grown.trans h₂.grown
      holding := fun hh => ⟨(h₂.holding (h₁.holding hh).1).1,
        (h₂.holding (h₁.holding hh).1).2.trans (h₁.holding hh).2⟩
      absent := fun conn hc k hk => h₂.absent conn hc k (h₁.absent conn hc k hk)
      reachable := fun conn hc hh => (h₁.reachable conn hc hh).elim (h₂.reachable conn hc)
        fun hcl => .inr (closedSessions_mono h₂.grown hcl)
      waiting := fun conn hc hw => h₂.waiting conn hc (h₁.waiting conn hc hw) }

section Threads

variable {handles : Handles} {keyID : String} {m : ℤ} {i : ℕ} {h k : GatewayHistory}
  {e : GatewayEvent} {g : Gateway}

section

variable (hinv : Orderly keyID m h)

include hinv

/-- **A step that admits nobody.**  Others' handles are left alone, or are closed. -/
theorem reserving_did (hadmits : e.admits keyID = none) (hothers : ∀ conn, handles.of i ≠ some conn
      → ∀ k, conn ∈ g.registry.held k → conn ∈ h.state.registry.held k)
    (hstays : ∀ conn, conn ∈ h.state.registry.held keyID → conn ∈ g.registry.held keyID ∨ conn ∈
      e.closes keyID ∨ e.releases keyID = some conn ∧ handles.of i = some conn) :
    (reserving handles keyID m).Keeps i h (h.did i e g) := by
  have hmore : h.trace <:+ (i, e) :: h.trace := List.suffix_cons ..
  have hsame : admittedSessions keyID ((i, e) :: h.trace) = admittedSessions keyID h.trace :=
    admittedSessions_cons_none hadmits
  refine ⟨⟨?_, fun conn hconn hnot => ?_, ?_⟩, fun j hj => ⟨hmore, fun hh => ⟨hh, hsame⟩, ?_, ?_, ?_⟩⟩
  · rw [did_trace, hsame]
    exact hinv.nodup
  · rw [did_trace] at hconn hnot
    rw [hsame] at hconn
    rcases hinv.reachable conn hconn fun hr => hnot (releasedSessions_mono hmore hr) with hh | hcl
    · rcases hstays conn hh with hh | hcl | ⟨hr, -⟩
      · exact .inl hh
      · exact .inr (mem_closedSessions_cons hcl)
      · exact absurd (mem_releasedSessions_cons hr) hnot
    · exact .inr (closedSessions_mono hmore hcl)
  · have hle := length_liveSessions_le hmore hsame
    have hlimit := hinv.limit
    rw [did_trace]
    omega
  · intro conn hc k hnot hk
    exact hnot (hothers conn (fun hi => hj (handles.inj hc hi)) k hk)
  · intro conn hc hh
    rcases hstays conn hh with hh | hcl | ⟨-, hi⟩
    · exact .inl hh
    · exact .inr (mem_closedSessions_cons hcl)
    · exact absurd (handles.inj hc hi) hj
  · intro conn _ hw
    rw [did_trace, hsame]
    exact hw

theorem reserving_quiet (hadmits : e.admits keyID = none) (hreg : g.registry = h.state.registry) :
    (reserving handles keyID m).Keeps i h (h.did i e g) :=
  reserving_did hinv hadmits (fun _ _ _ hk => hreg ▸ hk) fun _ hh => .inl (hreg ▸ hh)

variable {conn : Handle}

theorem reserving_track {k : String} (hk : k ≠ "") (hi : handles.of i = some conn) :
    (reserving handles keyID m).Keeps i h (h.did i (.tracked k conn)
      { h.state with registry := h.state.registry.track k conn }) := by
  refine reserving_did hinv rfl (fun c hc k' hh => ?_) fun c hh => .inl ?_
  · rcases (ConnRegistry.mem_held_track hk).mp hh with hh | ⟨-, rfl⟩
    · exact hh
    · exact absurd hi hc
  · exact (ConnRegistry.mem_held_track hk).mpr (.inl hh)

theorem reserving_untrack {k : String} (hk : k ≠ "") (hi : handles.of i = some conn) :
    (reserving handles keyID m).Keeps i h (h.did i (.untracked k conn)
      { h.state with registry := h.state.registry.untrack k conn }) := by
  refine reserving_did hinv rfl (fun c _ k' hh => ?_) fun c hh => ?_
  · exact ((ConnRegistry.mem_held_untrack hk).mp hh).1
  · by_cases hc : keyID = k ∧ c = conn
    · refine .inr (.inr ⟨?_, hc.2 ▸ hi⟩)
      rw [hc.2]
      exact if_pos hc.1.symm
    · exact .inl ((ConnRegistry.mem_held_untrack hk).mpr ⟨hh, hc⟩)

theorem reserving_close (k : String) :
    (reserving handles keyID m).Keeps i h (h.did i (.closed k (h.state.registry.closeKey k).1)
      { h.state with registry := (h.state.registry.closeKey k).2 }) := by
  by_cases hk : k = ""
  · have hnone : h.state.registry.closeKey k = ([], h.state.registry) := by
      unfold ConnRegistry.closeKey
      rw [if_pos hk]
    rw [hnone]
    exact reserving_quiet hinv rfl rfl
  refine reserving_did hinv rfl (fun c _ k' hh => ?_) fun c hh => ?_
  · exact ((ConnRegistry.mem_held_closeKey hk).mp hh).1
  · by_cases heq : keyID = k
    · refine .inr (.inl ?_)
      rw [ConnRegistry.closeKey_fst hk]
      show c ∈ if k = keyID then h.state.registry.held k else []
      rw [if_pos heq.symm, ← heq]
      exact hh
    · exact .inl ((ConnRegistry.mem_held_closeKey hk).mpr ⟨hh, heq⟩)

/-- **A session is admitted**: its request holds the lock and has counted the others. -/
theorem reserving_admit (hadmits : e.admits keyID = some conn) (hi : handles.of i = some conn)
    (hreg : g.registry = h.state.registry) (hhold : h.holder .sessionReservation = some i)
    (hnew : conn ∉ admittedSessions keyID h.trace)
    (hreach : conn ∈ h.state.registry.held keyID ∨ conn ∈ closedSessions keyID h.trace)
    (hroom : (liveSessions keyID h.trace).length < m) :
    (reserving handles keyID m).Keeps i h (h.did i e g) := by
  have hmore : h.trace <:+ (i, e) :: h.trace := List.suffix_cons ..
  have hadd : admittedSessions keyID ((i, e) :: h.trace) = conn :: admittedSessions keyID h.trace :=
    admittedSessions_cons_some hadmits
  refine ⟨⟨?_, fun c hc hnot => ?_, ?_⟩, fun j hj => ⟨hmore, fun hh => ?_, ?_, ?_, ?_⟩⟩
  · rw [did_trace, hadd]
    exact List.nodup_cons.mpr ⟨hnew, hinv.nodup⟩
  · rw [did_trace] at hc hnot
    rw [hadd] at hc
    have hold : c ∈ h.state.registry.held keyID ∨ c ∈ closedSessions keyID h.trace := by
      rcases List.mem_cons.mp hc with rfl | hc
      · exact hreach
      · exact hinv.reachable c hc fun hr => hnot (releasedSessions_mono hmore hr)
    exact hold.imp (fun hh => hreg ▸ hh) fun hcl => closedSessions_mono hmore hcl
  · have hle : (liveSessions keyID ((i, e) :: h.trace)).length ≤
        (liveSessions keyID h.trace).length + 1 := length_liveSessions_admit hadmits
    rw [did_trace]
    omega
  · exact absurd (Hist.holder_unique hhold hh) hj
  · exact fun c _ k hnot => hreg ▸ hnot
  · exact fun c _ hh => .inl (hreg ▸ hh)
  · intro c hc hw
    rw [did_trace, hadd]
    refine fun hmem => (List.mem_cons.mp hmem).elim (fun heq => ?_) hw
    exact hj (handles.inj hc (heq ▸ hi))

theorem reserving_acquire (hfree : h.holder .sessionReservation = none) :
    (reserving handles keyID m).Keeps i h (h.acquire i .sessionReservation) := by
  refine ⟨⟨hinv.nodup, hinv.reachable, hinv.limit⟩, fun j _ => ⟨List.suffix_refl _, fun hh => ?_,
    fun _ _ _ hk => hk, fun _ _ hh => .inl hh, fun _ _ hw => hw⟩⟩
  cases hfree.symm.trans hh

theorem reserving_release (hhold : h.holder .sessionReservation = some i) :
    (reserving handles keyID m).Keeps i h (h.release .sessionReservation) := by
  refine ⟨⟨hinv.nodup, hinv.reachable, hinv.limit⟩, fun j hj => ⟨List.suffix_refl _, fun hh => ?_,
    fun _ _ _ hk => hk, fun _ _ hh => .inl hh, fun _ _ hw => hw⟩⟩
  exact absurd (Hist.holder_unique hhold hh) hj

theorem Orderly.length_live_le :
    (liveSessions keyID h.trace).length ≤ (h.state.registry.held keyID).length := by
  have hnodup : (liveSessions keyID h.trace).Nodup := hinv.nodup.filter _
  refine (List.subperm_of_subset hnodup fun conn hconn => ?_).length_le
  obtain ⟨hadmitted, hboth⟩ := List.mem_filter.mp hconn
  obtain ⟨hnot, hopen⟩ := of_decide_eq_true hboth
  exact (hinv.reachable conn hadmitted hnot).resolve_right hopen

end

/-- The thread's session is not in the registry. -/
def Unregistered (handles : Handles) (i : ℕ) (h : GatewayHistory) : Prop :=
  ∀ conn, handles.of i = some conn → ∀ k, conn ∉ h.state.registry.held k

def RegisteredAt (handles : Handles) (i : ℕ) (k : String) (h : GatewayHistory) : Prop :=
  ∀ conn, handles.of i = some conn → ∀ k', k' ≠ k → conn ∉ h.state.registry.held k'

theorem Unregistered.of_rely (hu : Unregistered handles i h) (hr : SessionRely handles keyID i h k) :
    Unregistered handles i k :=
  fun conn hc k' => hr.absent conn hc k' (hu conn hc k')

theorem RegisteredAt.of_rely {key : String} (hu : RegisteredAt handles i key h)
    (hr : SessionRely handles keyID i h k) : RegisteredAt handles i key k :=
  fun conn hc k' hne => hr.absent conn hc k' (hu conn hc k' hne)

def StandsFor (handles : Handles) (i : ℕ) (r : SessionReservation) (h : GatewayHistory) : Prop :=
  match r.tracked with
  | none => Unregistered handles i h
  | some (k, conn) => k ≠ "" ∧ handles.of i = some conn ∧ r.released = false ∧
      RegisteredAt handles i k h

variable {r : SessionReservation}

theorem StandsFor.of_rely (hh : StandsFor handles i r h) (hr : SessionRely handles keyID i h k) :
    StandsFor handles i r k := by
  unfold StandsFor at hh ⊢
  split at hh
  · exact hh.of_rely hr
  · exact ⟨hh.1, hh.2.1, hh.2.2.1, hh.2.2.2.of_rely hr⟩

/-- The request is told what the gate decided: its session is admitted if and only if it was not
refused. -/
def Told (handles : Handles) (keyID : String) (i : ℕ) (decision : Decision) (h : GatewayHistory) :
    Prop :=
  ∀ conn, handles.of i = some conn → (conn ∈ admittedSessions keyID h.trace ↔ decision = none)

variable {key : KeyState} {decision : Decision}

theorem Told.of_rely (ht : Told handles keyID i decision h) (hr : SessionRely handles keyID i h k) :
    Told handles keyID i decision k := by
  intro conn hc
  by_cases hin : conn ∈ admittedSessions keyID h.trace
  · exact iff_of_true (admittedSessions_mono hr.grown hin) ((ht conn hc).mp hin)
  · exact iff_of_false (hr.waiting conn hc hin) fun hd => hin ((ht conn hc).mpr hd)

/-- A request of the key has been decided on, and a session of its own was registered for it. -/
structure Reserved (handles : Handles) (keyID : String) (i : ℕ) (key : KeyState)
    (decision : Decision) (r : SessionReservation) (h : GatewayHistory) : Prop where
  told : key.keyID = keyID → Told handles keyID i decision h
  tracked : key.keyID = keyID → ∀ conn, handles.of i = some conn → r.tracked = some (keyID, conn)

/-- A request is over: nothing of it is registered.  One of the key was refused, or was admitted and
has released its session. -/
structure Answered (handles : Handles) (keyID : String) (i : ℕ) (key : Option KeyState)
    (decision : Decision) (h : GatewayHistory) : Prop where
  gone : Unregistered handles i h
  told : ∀ key' ∈ key, key'.keyID = keyID → Told handles keyID i decision h ∧
    ∀ conn, handles.of i = some conn → conn ∈ releasedSessions keyID h.trace

theorem Reserved.of_rely (hd : Reserved handles keyID i key decision r h)
    (hr : SessionRely handles keyID i h k) : Reserved handles keyID i key decision r k :=
  ⟨fun hk => (hd.told hk).of_rely hr, hd.tracked⟩

theorem Answered.of_rely {key : Option KeyState} (ha : Answered handles keyID i key decision h)
    (hr : SessionRely handles keyID i h k) : Answered handles keyID i key decision k := by
  refine ⟨ha.gone.of_rely hr, fun key' hkey hk => ?_⟩
  obtain ⟨htold, hreleased⟩ := ha.told key' hkey hk
  exact ⟨htold.of_rely hr, fun conn hc => releasedSessions_mono hr.grown (hreleased conn hc)⟩

theorem safe_release {key : Option KeyState} (hh : StandsFor handles i r h)
    (hd : ∀ key' ∈ key, Reserved handles keyID i key' decision r h) :
    (reserving handles keyID m).Safe i (fun _ => Answered handles keyID i key decision)
      (Proxy.release r) h := by
  unfold StandsFor at hh
  unfold Proxy.release
  split at hh
  · rename_i hnone
    refine fun k hr _ => Answered.of_rely ⟨hh, fun key' hkey hk => ?_⟩ hr
    refine ⟨(hd key' hkey).told hk, fun conn hc => ?_⟩
    have htracked := (hd key' hkey).tracked hk conn hc
    rw [hnone] at htracked
    cases htracked
  rename_i key₀ conn hsome
  obtain ⟨hkey, hi, hreleased, hat⟩ := hh
  rw [hreleased]
  intro k hr hinv _
  refine ⟨reserving_untrack hinv hkey hi, fun n hr' _ => ?_⟩
  refine Answered.of_rely ⟨fun c hc k' => ?_, fun key' hkey' hk => ⟨fun c hc => ?_, fun c hc => ?_⟩⟩ hr'
  · intro hmem
    obtain ⟨hmem, hnot⟩ := (ConnRegistry.mem_held_untrack hkey).mp hmem
    obtain rfl : conn = c := Option.some.inj (hi.symm.trans hc)
    exact hat.of_rely hr conn hc k' (fun hk' => hnot ⟨hk', rfl⟩) hmem
  · rw [did_trace, admittedSessions_cons_none rfl]
    exact ((hd key' hkey').of_rely hr).told hk c hc
  · have hown := hsome.symm.trans ((hd key' hkey').tracked hk c hc)
    cases hown
    exact mem_releasedSessions_cons (if_pos rfl)

/-- Where the request stands when it comes: it is neither admitted nor registered. -/
structure Arriving (handles : Handles) (keyID : String) (i : ℕ) (h : GatewayHistory) : Prop where
  waiting : ∀ conn, handles.of i = some conn → conn ∉ admittedSessions keyID h.trace
  gone : Unregistered handles i h

theorem Arriving.of_rely (ha : Arriving handles keyID i h) (hr : SessionRely handles keyID i h k) :
    Arriving handles keyID i k :=
  ⟨fun conn hc => hr.waiting conn hc (ha.waiting conn hc), ha.gone.of_rely hr⟩

/-- Where the request stands when it has counted: it holds the lock, and there are at most so many
live sessions. -/
structure Counting (handles : Handles) (keyID : String) (i : ℕ) (key : KeyState) (held : ℕ)
    (h : GatewayHistory) : Prop where
  holding : h.holder .sessionReservation = some i
  waiting : ∀ conn, handles.of i = some conn → conn ∉ admittedSessions keyID h.trace
  counted : key.keyID = keyID → (liveSessions keyID h.trace).length ≤ held

/-- Where it stands when it asks the gate: its own session is registered, or was closed. -/
structure Asking (handles : Handles) (keyID : String) (i : ℕ) (key : KeyState) (held : ℕ)
    (h : GatewayHistory) : Prop extends Counting handles keyID i key held h where
  reach : key.keyID = keyID → ∀ conn, handles.of i = some conn →
    conn ∈ h.state.registry.held keyID ∨ conn ∈ closedSessions keyID h.trace

variable {held : ℕ}

theorem Counting.of_rely (hc : Counting handles keyID i key held h)
    (hr : SessionRely handles keyID i h k) : Counting handles keyID i key held k := by
  obtain ⟨hhold, hsame⟩ := hr.holding hc.holding
  refine ⟨hhold, fun conn hconn => hr.waiting conn hconn (hc.waiting conn hconn), fun hk => ?_⟩
  exact (length_liveSessions_le hr.grown hsame).trans (hc.counted hk)

theorem Asking.of_rely (ha : Asking handles keyID i key held h)
    (hr : SessionRely handles keyID i h k) : Asking handles keyID i key held k := by
  refine ⟨ha.toCounting.of_rely hr, fun hk conn hc => ?_⟩
  rcases ha.reach hk conn hc with hh | hcl
  · exact hr.reachable conn hc hh
  · exact .inr (closedSessions_mono hr.grown hcl)

/-- A request of the key comes with its limit, through a proxy that has a gate and a tracker. -/
def Limited (keyID : String) (m : ℤ) (deps : ProxyDeps) (key : KeyState)
    (session : Option Handle) : Prop :=
  key.keyID = keyID → key.plan.maxConcurrent = m ∧ deps.gated = true ∧ deps.tracking = true ∧
    session.isSome = true

variable {deps : ProxyDeps}

theorem Limited.ne_of_untracked {session : Option Handle} (h : Limited keyID m deps key session)
    (hkeyID : keyID ≠ "") (hnot : deps.tracking = false ∨ key.keyID = "") : key.keyID ≠ keyID := by
  intro hk
  rcases hnot with hnot | hnot
  · simp [(h hk).2.2.1] at hnot
  · exact hkeyID (hk.symm.trans hnot)

theorem safe_askGate (hm : 0 < m) (hlimited : Limited keyID m deps key (handles.of i))
    (ha : Asking handles keyID i key held h) (hh : StandsFor handles i r h) :
    (reserving handles keyID m).Safe i
      (fun decision k => k.holder .sessionReservation = some i ∧ StandsFor handles i r k ∧
        (key.keyID = keyID → Told handles keyID i decision k))
      (Proxy.askGate deps key (handles.of i) held) h := by
  intro k hr hinv _
  have ha' := ha.of_rely hr
  have hh' := hh.of_rely hr
  refine ⟨?_, fun n hr' _ => ⟨(hr'.holding ha'.holding).1, ?_, fun hkey => ?_⟩⟩
  · dsimp only
    cases hanswer : (Proxy.verdict deps key held k.state).1 with
    | some reason => exact reserving_quiet hinv (by cases handles.of i <;> rfl) rfl
    | none =>
      by_cases hkey : key.keyID = keyID
      · obtain ⟨hplan, hgated, -, hsession⟩ := hlimited hkey
        obtain ⟨conn, hconn⟩ := Option.isSome_iff_exists.mp hsession
        have hadmits : (GatewayEvent.decided key.keyID (handles.of i) true).admits keyID =
            some conn := by
          rw [hconn]
          exact if_pos hkey
        unfold Proxy.verdict at hanswer
        rw [if_pos hgated] at hanswer
        have hlt := Limiter.concurrent_lt_of_check (hplan ▸ hm) hanswer
        have hcounted := ha'.counted hkey
        rw [hplan] at hlt
        exact reserving_admit hinv hadmits hconn rfl ha'.holding (ha'.waiting conn hconn)
          (ha'.reach hkey conn hconn) (by omega)
      · refine reserving_quiet hinv ?_ rfl
        cases handles.of i with
        | none => rfl
        | some conn => exact if_neg hkey
  · have hsame : StandsFor handles i r (k.did i (.decided key.keyID (handles.of i)
        (Proxy.verdict deps key held k.state).1.isNone)
        { k.state with rates := (Proxy.verdict deps key held k.state).2 }) := hh'
    exact hsame.of_rely hr'
  · refine Told.of_rely (fun conn hconn => ?_) hr'
    dsimp only
    rw [did_trace, hconn]
    cases (Proxy.verdict deps key held k.state).1 with
    | some reason =>
      rw [admittedSessions_cons_none rfl]
      exact iff_of_false (ha'.waiting conn hconn) nofun
    | none =>
      exact iff_of_true (List.mem_filterMap.mpr ⟨_, .head _, if_pos hkey⟩) rfl

theorem safe_sessionCount (hkeyID : keyID ≠ "") (hlimited : Limited keyID m deps key (handles.of i))
    (hhold : h.holder .sessionReservation = some i) (ha : Arriving handles keyID i h) :
    (reserving handles keyID m).Safe i
      (fun held k => Counting handles keyID i key held k ∧ Unregistered handles i k)
      (Proxy.sessionCount deps key) h := by
  unfold Proxy.sessionCount
  split
  · rename_i hnot
    intro k hr _
    have ha' := ha.of_rely hr
    exact ⟨⟨(hr.holding hhold).1, ha'.waiting,
      fun hk => absurd hk (hlimited.ne_of_untracked hkeyID hnot)⟩, ha'.gone⟩
  · rename_i hboth
    have hne : key.keyID ≠ "" := fun he => hboth (.inr he)
    intro k hr hinv _
    have ha' := ha.of_rely hr
    refine ⟨reserving_quiet hinv rfl rfl, fun n hr' _ => ?_⟩
    have hcounting : Counting handles keyID i key (k.state.registry.count key.keyID)
        (k.did i (.counted key.keyID) k.state) := by
      refine ⟨(hr.holding hhold).1, fun conn hc => ?_, fun hk => ?_⟩
      · rw [did_trace, admittedSessions_cons_none rfl]
        exact ha'.waiting conn hc
      have hle : (liveSessions keyID ((i, .counted key.keyID) :: k.trace)).length ≤
          (liveSessions keyID k.trace).length :=
        length_liveSessions_le (List.suffix_cons ..) (admittedSessions_cons_none rfl)
      unfold ConnRegistry.count
      rw [if_neg hne, hk]
      exact hle.trans (Orderly.length_live_le hinv)
    have hun : Unregistered handles i (k.did i (.counted key.keyID) k.state) := ha'.gone
    exact ⟨hcounting.of_rely hr', hun.of_rely hr'⟩

theorem safe_register (hkeyID : keyID ≠ "") (hlimited : Limited keyID m deps key (handles.of i))
    (hc : Counting handles keyID i key held h) (hu : Unregistered handles i h) :
    (reserving handles keyID m).Safe i
      (fun r k => Asking handles keyID i key held k ∧ StandsFor handles i r k ∧ (key.keyID = keyID →
        ∀ conn, handles.of i = some conn → r.tracked = some (keyID, conn)))
      (Proxy.register deps key (handles.of i)) h := by
  unfold Proxy.register
  cases hi : handles.of i with
  | none =>
    intro k hr _
    refine ⟨⟨hc.of_rely hr, fun _ conn hconn => ?_⟩, hu.of_rely hr, nofun⟩
    rw [hi] at hconn
    cases hconn
  | some conn =>
    dsimp only
    split
    · rename_i hnot
      intro k hr _
      have hother := hlimited.ne_of_untracked hkeyID hnot
      exact ⟨⟨hc.of_rely hr, fun hk => absurd hk hother⟩, hu.of_rely hr,
        fun hk => absurd hk hother⟩
    · rename_i hboth
      have hne : key.keyID ≠ "" := fun he => hboth (.inr he)
      intro k hr hinv _
      refine ⟨reserving_track hinv hne hi, fun n hr' _ => ?_⟩
      have hc' := hc.of_rely hr
      have hasking : Asking handles keyID i key held (k.did i (.tracked key.keyID conn)
          { k.state with registry := k.state.registry.track key.keyID conn }) := by
        refine ⟨⟨hc'.holding, fun c hcc => ?_, fun hk => ?_⟩, fun hk c hcc => .inl ?_⟩
        · rw [did_trace, admittedSessions_cons_none rfl]
          exact hc'.waiting c hcc
        · have hle : (liveSessions keyID ((i, .tracked key.keyID conn) :: k.trace)).length ≤
              (liveSessions keyID k.trace).length :=
            length_liveSessions_le (List.suffix_cons ..) (admittedSessions_cons_none rfl)
          exact hle.trans (hc'.counted hk)
        · have hc : c = conn := Option.some.inj (hcc.symm.trans hi)
          exact (ConnRegistry.mem_held_track hne).mpr (.inr ⟨hk.symm, hc⟩)
      have hholds : StandsFor handles i { tracked := some (key.keyID, conn) }
          (k.did i (.tracked key.keyID conn)
            { k.state with registry := k.state.registry.track key.keyID conn }) := by
        refine ⟨hne, hi, rfl, fun c hcc k' hk' hmem => ?_⟩
        rcases (ConnRegistry.mem_held_track hne).mp hmem with hmem | h
        · exact hu.of_rely hr c hcc k' hmem
        · exact hk' h.1
      refine ⟨hasking.of_rely hr', hholds.of_rely hr', fun hk c hcc => ?_⟩
      rw [hk, Option.some.inj hcc]

theorem safe_reserve (hm : 0 < m) (hkeyID : keyID ≠ "")
    (hlimited : Limited keyID m deps key (handles.of i)) (ha : Arriving handles keyID i h) :
    (reserving handles keyID m).Safe i
      (fun a k => StandsFor handles i a.2 k ∧ Reserved handles keyID i key a.1 a.2 k)
      (Proxy.reserve deps key (handles.of i)) h := by
  refine .locked fun k hr hinv hfree => ⟨reserving_acquire hinv hfree, ?_⟩
  have hhold : (k.acquire i .sessionReservation).holder .sessionReservation = some i := by
    simp [Hist.acquire]
  obtain ⟨hwait, hgone⟩ := ha.of_rely hr
  refine (safe_sessionCount hkeyID hlimited hhold ⟨hwait, hgone⟩).seq ?_
  rintro held n ⟨hcounting, hun⟩
  refine (safe_register hkeyID hlimited hcounting hun).seq ?_
  rintro r w ⟨hasking, hholds, htracked⟩
  refine (safe_askGate hm hlimited hasking hholds).seq ?_
  rintro decision v ⟨hhold', hholds', htold⟩ v' hr' hinv'
  have hhold'' := (hr'.holding hhold').1
  refine ⟨reserving_release hinv' hhold'', fun u hr'' _ => ?_⟩
  have hheld : StandsFor handles i r v' := hholds'.of_rely hr'
  have hreleased : StandsFor handles i r (v'.release .sessionReservation) := hheld
  have hdecided : Reserved handles keyID i key decision r v' :=
    ⟨fun hk => (htold hk).of_rely hr', htracked⟩
  have hopened : Reserved handles keyID i key decision r (v'.release .sessionReservation) :=
    ⟨hdecided.told, htracked⟩
  exact ⟨hreleased.of_rely hr'', hopened.of_rely hr''⟩

theorem safe_reserveSession (hm : 0 < m) (hkeyID : keyID ≠ "") {key : Option KeyState}
    (hlimited : ∀ key' ∈ key, Limited keyID m deps key' (handles.of i))
    (ha : Arriving handles keyID i h) :
    (reserving handles keyID m).Safe i
      (fun a k => (a.1 ≠ none → Answered handles keyID i key a.1 k) ∧ (a.1 = none →
        StandsFor handles i a.2 k ∧ ∀ key' ∈ key, Reserved handles keyID i key' none a.2 k))
      (Proxy.reserveSession deps key (handles.of i)) h := by
  cases key with
  | none =>
    refine fun k hr _ => ⟨fun hne => absurd rfl hne, fun _ => ⟨?_, fun key' hkey => ?_⟩⟩
    · exact ha.gone.of_rely hr
    · cases hkey
  | some key =>
    refine (safe_reserve hm hkeyID (hlimited key rfl) ha).seq ?_
    rintro ⟨decision, r⟩ k ⟨hholds, hdecided⟩
    have hall : ∀ key' ∈ some key, Reserved handles keyID i key' decision r k := by
      intro key' hkey
      cases hkey
      exact hdecided
    cases decision with
    | none =>
      refine fun n hr _ => ⟨fun hne => absurd rfl hne, fun _ => ⟨StandsFor.of_rely hholds hr, ?_⟩⟩
      exact fun key' hkey => (hall key' hkey).of_rely hr
    | some reason =>
      refine (safe_release hholds hall).seq fun r' n ha => ?_
      exact fun n' hr _ => ⟨fun _ => ha.of_rely hr, nofun⟩

theorem safe_serve (hm : 0 < m) (hkeyID : keyID ≠ "") {key : Option KeyState}
    (hlimited : ∀ key' ∈ key, Limited keyID m deps key' (handles.of i))
    (ha : Arriving handles keyID i h) :
    (reserving handles keyID m).Safe i
      (fun decision k => Answered handles keyID i key decision k)
      (Proxy.serve deps key (handles.of i)) h := by
  refine (safe_reserveSession hm hkeyID hlimited ha).seq ?_
  rintro ⟨decision, r⟩ k ⟨hrefused, hadmitted⟩
  cases decision with
  | some reason => exact fun n hr _ => (hrefused (by simp)).of_rely hr
  | none =>
    obtain ⟨hholds, hdecided⟩ := hadmitted rfl
    refine (safe_release hholds hdecided).seq fun r' n ha => ?_
    exact fun n' hr _ => ha.of_rely hr

theorem safe_closeKey (key : String) : (reserving handles keyID m).Tame i (Proxy.closeKey key) h :=
  fun _ _ hinv _ => ⟨reserving_close hinv key, fun _ _ _ => trivial⟩

theorem safe_closeAll (visited : List String) :
    (reserving handles keyID m).Tame i (Proxy.closeAll visited) h := by
  induction visited generalizing h with
  | nil => exact .done
  | cons key visited ih =>
    refine (safe_closeKey key).seq fun closed k _ => ?_
    exact ih.seq fun more n _ _ _ _ => trivial

end Threads

/-- What happens at the gateway. -/
inductive SessionCall where
  /-- a request that reserves a session, and releases it when it is over -/
  | request (deps : ProxyDeps) (key : Option KeyState) (session : Option Handle)
  | closeKey (keyID : String)
  | closeAll (visited : List String)
  | meter (count : Counters → Counters)
  | passTime (ns : ℕ)

inductive SessionAnswer where
  | served
  | refused (reason : Reason)
  | done
  deriving DecidableEq

namespace SessionCall

def task : SessionCall → GatewayTask SessionAnswer
  | .request deps key session => (Proxy.serve deps key session).bind fun decision =>
    .ret (decision.elim .served .refused)
  | .closeKey keyID => (Proxy.closeKey keyID).bind fun _ => .ret .done
  | .closeAll visited => (Proxy.closeAll visited).bind fun _ => .ret .done
  | .meter count => (Proxy.meter count).bind fun _ => .ret .done
  | .passTime ns => (Proxy.passTime ns).bind fun _ => .ret .done

def handle : SessionCall → Option Handle
  | .request _ _ session => session
  | _ => none

/-- The requests of the key come with its limit, through proxies with a gate and a tracker, and each
with a session. -/
def Limits (keyID : String) (m : ℤ) : SessionCall → Prop
  | .request deps key session => ∀ key' ∈ key, Limited keyID m deps key' session
  | _ => True

end SessionCall

def handlesOf (calls : List SessionCall) (hnodup : (calls.filterMap SessionCall.handle).Nodup) :
    Handles where
  of i := calls[i]?.bind SessionCall.handle
  inj := by
    intro i j conn hi hj
    obtain ⟨a, ha, hca⟩ := Option.bind_eq_some_iff.mp hi
    obtain ⟨b, hb, hcb⟩ := Option.bind_eq_some_iff.mp hj
    obtain ⟨hilt, rfl⟩ := List.getElem?_eq_some_iff.mp ha
    obtain ⟨hjlt, rfl⟩ := List.getElem?_eq_some_iff.mp hb
    have hpairs := List.pairwise_iff_getElem.mp (List.pairwise_filterMap.mp hnodup)
    rcases lt_trichotomy i j with hlt | heq | hgt
    · exact absurd rfl (hpairs i j hilt hjlt hlt conn hca conn hcb)
    · exact heq
    · exact absurd rfl (hpairs j i hjlt hilt hgt conn hcb conn hca)

/-- What a call leaves, seen from its answer. -/
def SessionCall.Answers (handles : Handles) (keyID : String) (call : SessionCall) (i : ℕ)
    (a : SessionAnswer) (h : GatewayHistory) : Prop :=
  match call with
  | .request _ key _ => ∃ decision : Decision, a = decision.elim .served .refused ∧
      Answered handles keyID i key decision h
  | _ => True

theorem safe_sessionCall {handles : Handles} {keyID : String} {m : ℤ} (hm : 0 < m)
    (hkeyID : keyID ≠ "") {call : SessionCall} (hlimits : call.Limits keyID m) {i : ℕ}
    (hi : handles.of i = call.handle) {s : Gateway} (hempty : s.registry = {}) :
    (reserving handles keyID m).Safe i (call.Answers handles keyID i) call.task { state := s } := by
  have hu : Unregistered handles i { state := s } := by
    intro conn _ k
    rw [hempty]
    exact List.not_mem_nil
  cases call with
  | request deps key session =>
    have hi' : session = handles.of i := hi.symm
    subst hi'
    refine (safe_serve hm hkeyID hlimits ⟨fun _ _ => List.not_mem_nil, hu⟩).seq ?_
    exact fun decision _ ha _ hr _ => ⟨decision, rfl, Answered.of_rely ha hr⟩
  | closeKey key => exact (safe_closeKey key).seq fun _ _ _ _ _ _ => trivial
  | closeAll visited => exact (safe_closeAll visited).seq fun _ _ _ _ _ _ => trivial
  | meter | passTime => exact fun _ _ hinv _ => ⟨reserving_quiet hinv rfl rfl, fun _ _ _ => trivial⟩

/-- **The limit is never exceeded, and no session escapes the operator.**  Whatever requests come,
end, and are closed, in whatever order: at most `m` sessions of a key are admitted and neither
released nor closed; a request that was refused has left no handle registered; and a session that is
admitted and not released is one that the next `CloseKey` closes, unless one already has it.  The
sessions that are admitted are those of the requests that go on: a request that was served was
admitted, and has released its session, and one that was refused was not. -/
theorem sessions_limited (s : Gateway) (hempty : s.registry = {}) (calls : List SessionCall)
    (hhandles : (calls.filterMap SessionCall.handle).Nodup) (keyID : String) (hkeyID : keyID ≠ "")
    (m : ℤ) (hm : 0 < m) (hlimits : ∀ call ∈ calls, call.Limits keyID m) (sched : List ℕ) :
    let pool := run Pool.step (Pool.start s (calls.map SessionCall.task)) sched
    (liveSessions keyID pool.hist.trace).length ≤ m ∧ (∀ (i : ℕ) deps key conn reason,
        calls[i]? = some (SessionCall.request deps key (some conn)) →
        pool.answers[i]? = some (some (SessionAnswer.refused reason)) →
        ∀ k, conn ∉ pool.hist.state.registry.held k) ∧
      (∀ conn ∈ admittedSessions keyID pool.hist.trace,
        conn ∉ releasedSessions keyID pool.hist.trace →
        conn ∈ (pool.hist.state.registry.closeKey keyID).1 ∨
          conn ∈ closedSessions keyID pool.hist.trace) ∧
      ∀ (i : ℕ) deps key conn, key.keyID = keyID →
        calls[i]? = some (SessionCall.request deps (some key) (some conn)) →
        (pool.answers[i]? = some (some .served) → conn ∈ admittedSessions keyID pool.hist.trace ∧
            conn ∈ releasedSessions keyID pool.hist.trace) ∧
          ∀ reason, pool.answers[i]? = some (some (.refused reason)) →
            conn ∉ admittedSessions keyID pool.hist.trace := by
  intro pool
  let handles := handlesOf calls hhandles
  have hof : ∀ (i : ℕ) call, calls[i]? = some call → handles.of i = call.handle := by
    intro i call hcall
    show calls[i]?.bind SessionCall.handle = call.handle
    rw [hcall]
    rfl
  have hkept := Discipline.run_safe (.of_each_call (D := reserving handles keyID m)
    (R := SessionCall.Answers handles keyID) ⟨List.nodup_nil, nofun, le_of_lt hm⟩
    fun i call hcall => safe_sessionCall hm hkeyID (hlimits call (List.mem_of_getElem? hcall))
      (hof i call hcall) hempty)
    (Discipline.along_of_always (fun _ _ _ => trivial) (Pool.start s (calls.map _)) sched)
  refine ⟨hkept.inv.limit, fun i deps key conn reason hcall hanswer => ?_, fun conn hconn hnot => ?_,
    fun i deps key conn hkey hcall => ⟨fun hanswer => ?_, fun reason hanswer => ?_⟩⟩
  · obtain ⟨_, -, ha⟩ := hkept.answer (Pool.getElem?_answers.mp hanswer) _ hcall
    exact ha.gone conn (hof i _ hcall)
  · rw [ConnRegistry.closeKey_fst hkeyID]
    exact hkept.inv.reachable conn hconn hnot
  · obtain ⟨decision, hsame, ha⟩ := hkept.answer (Pool.getElem?_answers.mp hanswer) _ hcall
    obtain ⟨htold, hreleased⟩ := ha.told key rfl hkey
    cases decision with
    | none => exact ⟨(htold conn (hof i _ hcall)).mpr rfl, hreleased conn (hof i _ hcall)⟩
    | some reason => cases hsame
  · obtain ⟨decision, hsame, ha⟩ := hkept.answer (Pool.getElem?_answers.mp hanswer) _ hcall
    cases decision with
    | none => cases hsame
    | some reason =>
      exact fun hin => nomatch ((ha.told key rfl hkey).1 conn (hof i _ hcall)).mp hin

def oneSessionKey : KeyState :=
  { keyID := "k", userID := "u", secretHash := [], scope := .proxy, status := .active,
    expiresAtNs := 0, platforms := [], userStatus := .active, userRole := .user,
    plan := { maxConcurrent := 1 } }

def twoRequests : List SessionCall :=
  [.request {} (some oneSessionKey) (some 1), .request {} (some oneSessionKey) (some 2),
    .closeKey "k"]

/-- The first request is admitted, the second is refused while the first goes on, and the operator
closes the session of the first. -/
theorem sessions_limited_at_one :
    let pool := run Pool.step (Pool.start {} (twoRequests.map SessionCall.task))
      [0, 0, 0, 0, 0, 1, 1, 1, 1, 1, 1, 2]
    admittedSessions "k" pool.hist.trace = [1] ∧
      pool.answers = [none, some (.refused .concurrency), some .done] ∧
      (liveSessions "k" pool.hist.trace).length ≤ (1 : ℤ) ∧
      (∀ k, 2 ∉ pool.hist.state.registry.held k) ∧
      1 ∈ closedSessions "k" pool.hist.trace := by
  intro pool
  have hlimits : ∀ call ∈ twoRequests, call.Limits "k" 1 := by
    intro call hcall
    rcases List.mem_cons.mp hcall with rfl | hcall
    · exact fun key hkey _ => by cases hkey; exact ⟨rfl, rfl, rfl, rfl⟩
    rcases List.mem_cons.mp hcall with rfl | hcall
    · exact fun key hkey _ => by cases hkey; exact ⟨rfl, rfl, rfl, rfl⟩
    · obtain rfl := List.mem_singleton.mp hcall
      trivial
  have hadmitted : admittedSessions "k" pool.hist.trace = [1] := by decide +kernel
  have hanswers : pool.answers = [none, some (.refused .concurrency), some .done] := by
    decide +kernel
  obtain ⟨hlimit, hrefused, hreach, -⟩ := sessions_limited {} rfl twoRequests (by decide) "k"
    (by decide) 1 (by decide) hlimits [0, 0, 0, 0, 0, 1, 1, 1, 1, 1, 1, 2]
  refine ⟨hadmitted, hanswers, hlimit, fun k => ?_, ?_⟩
  · exact hrefused 1 {} (some oneSessionKey) 2 .concurrency rfl (by rw [hanswers]; rfl) k
  · refine (hreach 1 (by rw [hadmitted]; exact .head _) (by decide +kernel)).resolve_left ?_
    decide +kernel

end Prism
