import Prism.Routing.Lease
import Mathlib.Algebra.Order.BigOperators.Group.List

/-!
# The load counters and the leases

A section moves the counters one by one before its answer is carried out, so while sections are open
the counters and the table disagree.  What they do agree with is what the sections have said so far:
every owner is *counted for* at most one address, the one of its lease until the section takes it
back, none in between, and the one of the new lease afterwards (`reckoned`, read off the history).

* Every counter is the number of owners counted for its address, at every moment.
* An owner that is not locked is counted for the address of its lease.  `safe_compute` asks of every
  section that it ends with the owner counted for the address of the lease it answers with.
-/

namespace Prism

open Table

/-! ## What the owners are counted for -/

/-- The owner is counted for another address, or no longer. -/
def RoutingEvent.moves : RoutingEvent → Option (LeaseOwner × Option Addr)
  | .uncounted o _ => some (o, none)
  | .counted o ip => some (o, some ip)
  | _ => none

/-- The owners with the addresses they are counted for. -/
def reckoned (start : List (LeaseOwner × Addr)) :
    List (ℕ × RoutingEvent) → List (LeaseOwner × Addr)
  | [] => start
  | (_, e) :: trace =>
    match e.moves with
    | none => reckoned start trace
    | some (o, none) => (reckoned start trace).filter fun row => row.1 ≠ o
    | some (o, some ip) => ((reckoned start trace).filter fun row => row.1 ≠ o) ++ [(o, ip)]

def addressOf (start : List (LeaseOwner × Addr)) (trace : List (ℕ × RoutingEvent))
    (o : LeaseOwner) : Option Addr :=
  (lookup Prod.fst o (reckoned start trace)).map Prod.snd

variable (rows : List (LeaseOwner × Addr))

def loadOf (ip : String) : ℤ :=
  (rows.map fun row => if row.2 = some ip then 1 else 0).sum

theorem loadOf_nonneg (ip : String) : 0 ≤ loadOf rows ip := by
  refine List.sum_nonneg fun x hx => ?_
  obtain ⟨row, -, rfl⟩ := List.mem_map.mp hx
  split
  · exact zero_le_one
  · exact le_refl 0

theorem loadOf_eq_countP (ip : String) :
    loadOf rows ip = rows.countP fun row => row.2 = some ip := by
  unfold loadOf
  induction rows with
  | nil => rfl
  | cons row rows ih =>
    rw [List.map_cons, List.sum_cons, ih, List.countP_cons]
    by_cases h : row.2 = some ip
    · simp [h, add_comm]
    · simp [h]

theorem loadOf_filter {rows : List (LeaseOwner × Addr)} (hnd : KeysNodup Prod.fst rows)
    (o : LeaseOwner) (ip : String) :
    loadOf rows ip = loadOf (rows.filter fun row => row.1 ≠ o) ip +
      if (lookup Prod.fst o rows).map Prod.snd = some (some ip) then 1 else 0 := by
  have hsum := sum_map_eq_filter_add_lookup
    (f := fun row : LeaseOwner × Addr => if row.2 = some ip then (1 : ℤ) else 0) hnd o
  unfold loadOf
  rw [hsum]
  cases lookup Prod.fst o rows with
  | none => rfl
  | some row => simp

section CountedFor

variable {start : List (LeaseOwner × Addr)} {trace : List (ℕ × RoutingEvent)} {i : ℕ}
  {e : RoutingEvent} {o : LeaseOwner} {ip : Addr}

theorem reckoned_quiet (h : e.moves = none) :
    reckoned start ((i, e) :: trace) = reckoned start trace := by
  simp only [reckoned, h]

theorem addressOf_quiet (h : e.moves = none) :
    addressOf start ((i, e) :: trace) = addressOf start trace := by
  funext o
  unfold addressOf
  rw [reckoned_quiet h]

@[simp] theorem addressOf_uncounted_self :
    addressOf start ((i, .uncounted o ip) :: trace) o = none := by
  show Option.map _ (lookup Prod.fst o (List.filter _ _)) = _
  rw [lookup_filter_ne, if_pos rfl]
  rfl

theorem addressOf_uncounted_of_ne {o' : LeaseOwner} (h : o' ≠ o) :
    addressOf start ((i, .uncounted o ip) :: trace) o' = addressOf start trace o' := by
  show Option.map _ (lookup Prod.fst o' (List.filter _ _)) = _
  rw [lookup_filter_ne, if_neg h]
  rfl

@[simp] theorem addressOf_counted_self :
    addressOf start ((i, .counted o ip) :: trace) o = some ip := by
  show Option.map _ (lookup Prod.fst o (List.filter _ _ ++ [(o, ip)])) = _
  rw [lookup_append, lookup_filter_ne, if_pos rfl, lookup_cons, if_pos rfl]
  rfl

theorem addressOf_counted_of_ne {o' : LeaseOwner} (h : o' ≠ o) :
    addressOf start ((i, .counted o ip) :: trace) o' = addressOf start trace o' := by
  show Option.map _ (lookup Prod.fst o' (List.filter _ _ ++ [(o, ip)])) = _
  rw [lookup_append, lookup_filter_ne, if_neg h, lookup_cons,
    if_neg (Ne.symm h), lookup_nil, Option.or_none]
  rfl

section

variable (hnd : KeysNodup Prod.fst (reckoned start trace))

include hnd

theorem keysNodup_uncounted : KeysNodup Prod.fst (reckoned start ((i, .uncounted o ip) :: trace)) :=
  keysNodup_filter hnd

theorem keysNodup_counted : KeysNodup Prod.fst (reckoned start ((i, .counted o ip) :: trace)) := by
  refine keysNodup_append_singleton (keysNodup_filter hnd) fun row hrow => ?_
  exact of_decide_eq_true (List.mem_filter.mp hrow).2

theorem loadOf_uncounted (ho : addressOf start trace o = some ip) (a : String) :
    loadOf (reckoned start ((i, .uncounted o ip) :: trace)) a =
      loadOf (reckoned start trace) a - if ip = some a then 1 else 0 := by
  have hfilter := loadOf_filter hnd o a
  unfold addressOf at ho
  rw [ho] at hfilter
  rw [hfilter]
  simp only [Option.some.injEq]
  show loadOf (List.filter _ _) a = _
  omega

theorem loadOf_counted (ho : addressOf start trace o = none) (a : String) :
    loadOf (reckoned start ((i, .counted o ip) :: trace)) a =
      loadOf (reckoned start trace) a + if ip = some a then 1 else 0 := by
  have hfilter := loadOf_filter hnd o a
  unfold addressOf at ho
  rw [ho, if_neg (by simp), add_zero] at hfilter
  rw [hfilter]
  show loadOf (List.filter _ _ ++ [(o, ip)]) a = _
  unfold loadOf
  rw [List.map_append, List.sum_append, List.map_singleton, List.sum_singleton]

end

end CountedFor

/-! ## The discipline -/

/-- **The counters count the owners**, and an owner that is not locked is counted for its lease. -/
structure Tallied (start : List (LeaseOwner × Addr)) (h : RoutingHistory) : Prop where
  leases : KeysNodup Prod.fst h.state.leases
  owners : KeysNodup Prod.fst (reckoned start h.trace)
  loads : ∀ a, h.state.ipLoadStats.get (some a) = loadOf (reckoned start h.trace) a
  settled : ∀ o, h.holder o = none →
    addressOf start h.trace o = (h.state.leases.load o).map Lease.egressIP
  /-- who has locked an owner has taken a step before -/
  taken : ∀ o j, h.holder o = some j → ∃ e, (j, e) ∈ h.trace

structure RoutingRely (start : List (LeaseOwner × Addr)) (i : ℕ) (h h' : RoutingHistory) :
    Prop where
  held : ∀ o, h.holder o = some i → h'.holder o = some i ∧
    addressOf start h'.trace o = addressOf start h.trace o ∧
    h'.state.leases.load o = h.state.leases.load o
  free : ∀ o, h.holder o ≠ some i → h'.holder o ≠ some i
  grown : ∀ e, (i, e) ∈ h.trace → (i, e) ∈ h'.trace

def counting (start : List (LeaseOwner × Addr)) :
    Discipline PlatformRoutingState RoutingEvent LeaseOwner where
  inv := Tallied start
  may _ _ _ := True
  rely := RoutingRely start
  rely_refl _ _ := ⟨fun _ h => ⟨h, rfl, rfl⟩, fun _ h => h, fun _ h => h⟩
  rely_trans h₁ h₂ := by
    refine ⟨fun o h => ?_, fun o h => h₂.free o (h₁.free o h), fun e h => h₂.grown e (h₁.grown e h)⟩
    obtain ⟨hh, ha, hl⟩ := h₁.held o h
    obtain ⟨hh', ha', hl'⟩ := h₂.held o hh
    exact ⟨hh', ha'.trans ha, hl'.trans hl⟩

section Steps

variable {start : List (LeaseOwner × Addr)} {i : ℕ} {h k : RoutingHistory} {e : RoutingEvent}
  {s : PlatformRoutingState} {o : LeaseOwner} {ip : Addr}

section

variable (hinv : Tallied start h)

include hinv

theorem taken_did (o : LeaseOwner) (j : ℕ) (hh : h.holder o = some j) :
    ∃ e', (j, e') ∈ (h.did i e s).trace := by
  obtain ⟨e', he'⟩ := hinv.taken o j hh
  exact ⟨e', .tail _ he'⟩

theorem counting_did (hhold : h.holder o = some i) (hleases : KeysNodup Prod.fst s.leases)
    (howners : KeysNodup Prod.fst (reckoned start ((i, e) :: h.trace)))
    (hloads : ∀ a, s.ipLoadStats.get (some a) = loadOf (reckoned start ((i, e) :: h.trace)) a)
    (haddr : ∀ o', o' ≠ o → addressOf start ((i, e) :: h.trace) o' = addressOf start h.trace o')
    (hload : ∀ o', o' ≠ o → s.leases.load o' = h.state.leases.load o') :
    (counting start).Keeps i h (h.did i e s) := by
  refine ⟨⟨hleases, howners, hloads, fun o' hfree => ?_, taken_did hinv⟩,
    fun j hj => ⟨fun o' hh => ?_, fun _ hh => hh, fun _ hmem => .tail _ hmem⟩⟩
  · have hne : o' ≠ o := by
      rintro rfl
      cases hhold.symm.trans hfree
    rw [Hist.did_trace, haddr o' hne, Hist.did_state, hload o' hne]
    exact hinv.settled o' hfree
  · have hne : o' ≠ o := by
      rintro rfl
      exact hj (Hist.holder_unique hhold hh)
    exact ⟨hh, haddr o' hne, hload o' hne⟩

structure QuietStep (s : PlatformRoutingState) (e : RoutingEvent) (s' : PlatformRoutingState) :
    Prop where
  moves : e.moves = none
  leases : s'.leases = s.leases
  ipLoadStats : s'.ipLoadStats = s.ipLoadStats

theorem counting_quiet (hq : QuietStep h.state e s) : (counting start).Keeps i h (h.did i e s) := by
  have haddr : addressOf start (h.did i e s).trace = addressOf start h.trace :=
    addressOf_quiet hq.moves
  refine ⟨⟨?_, ?_, fun a => ?_, fun o hfree => ?_, taken_did hinv⟩,
    fun j _ => ⟨fun o hh => ⟨hh, by rw [haddr], by rw [Hist.did_state, hq.leases]⟩,
      fun _ hh => hh, fun _ hmem => .tail _ hmem⟩⟩
  · rw [Hist.did_state, hq.leases]
    exact hinv.leases
  · rw [Hist.did_trace, reckoned_quiet hq.moves]
    exact hinv.owners
  · rw [Hist.did_state, hq.ipLoadStats, Hist.did_trace, reckoned_quiet hq.moves]
    exact hinv.loads a
  · rw [haddr, Hist.did_state, hq.leases]
    exact hinv.settled o hfree

theorem counting_uncounted (hhold : h.holder o = some i) (ho : addressOf start h.trace o = some ip) :
    (counting start).Keeps i h (h.did i (.uncounted o ip)
      { h.state with ipLoadStats := h.state.ipLoadStats.dec ip }) := by
  have hload := loadOf_uncounted (i := i) hinv.owners ho
  refine counting_did hinv hhold hinv.leases (keysNodup_uncounted hinv.owners) (fun a => ?_)
    (fun o' hne => addressOf_uncounted_of_ne hne) fun _ _ => rfl
  -- the counter is there, since the others cannot have taken it below one
  have hpos : ∀ b, ip = some b → 0 < h.state.ipLoadStats.get (some b) := by
    intro b hb
    have hafter := loadOf_nonneg (reckoned start ((i, .uncounted o ip) :: h.trace)) b
    rw [hload b, if_pos hb] at hafter
    rw [hinv.loads b]
    omega
  rw [IPLoadStats.get_dec hpos, hinv.loads a, hload a]

theorem counting_counted (hhold : h.holder o = some i) (ho : addressOf start h.trace o = none) :
    (counting start).Keeps i h (h.did i (.counted o ip)
      { h.state with ipLoadStats := h.state.ipLoadStats.inc ip }) := by
  refine counting_did hinv hhold hinv.leases (keysNodup_counted hinv.owners) (fun a => ?_)
    (fun o' hne => addressOf_counted_of_ne hne) fun _ _ => rfl
  rw [IPLoadStats.get_inc, hinv.loads a, loadOf_counted hinv.owners ho]

theorem counting_committed (hhold : h.holder o = some i) (op : ComputeOp) :
    (counting start).Keeps i h (h.did i (.committed o)
      { h.state with leases := h.state.leases.commit o op }) := by
  have haddr : addressOf start ((i, .committed o) :: h.trace) = addressOf start h.trace :=
    addressOf_quiet rfl
  exact counting_did hinv hhold (LeaseTable.keysNodup_commit hinv.leases o op) hinv.owners
    hinv.loads (fun o' _ => congrFun haddr o') fun o' hne => LeaseTable.load_commit_of_ne hne op

end

theorem holder_acquire_of_ne {o' : LeaseOwner} (hne : o' ≠ o) :
    (h.acquire i o).holder o' = h.holder o' := Function.update_of_ne hne ..

theorem holder_release_of_ne {o' : LeaseOwner} (hne : o' ≠ o) :
    (h.release o).holder o' = h.holder o' := Function.update_of_ne hne ..

theorem counting_holder {holder : LeaseOwner → Option ℕ}
    (hinv : Tallied start h) (hother : ∀ o', o' ≠ o → holder o' = h.holder o')
    (hsettled : holder o = none →
      addressOf start h.trace o = (h.state.leases.load o).map Lease.egressIP)
    (htaken : ∀ j, holder o = some j → j = i ∧ ∃ e, (j, e) ∈ h.trace)
    (hheld : ∀ j, h.holder o = some j → j = i) :
    (counting start).Keeps i h { h with holder := holder } := by
  refine ⟨⟨hinv.leases, hinv.owners, hinv.loads, fun o' hnone => ?_, fun o' j hj => ?_⟩,
    fun j hj => ⟨fun o' hh => ⟨?_, rfl, rfl⟩, fun o' hh => ?_, fun _ hmem => hmem⟩⟩
  · by_cases hne : o' = o
    · exact hne ▸ hsettled (hne ▸ hnone)
    · exact hinv.settled o' ((hother o' hne).symm.trans hnone)
  · by_cases hne : o' = o
    · exact (htaken j (hne ▸ hj)).2
    · exact hinv.taken o' j ((hother o' hne).symm.trans hj)
  · exact (hother o' fun hne => hj (hheld j (hne ▸ hh))).trans hh
  · by_cases hne : o' = o
    · exact fun heq => hj (htaken j (hne ▸ heq)).1
    · exact fun heq => hh ((hother o' hne).symm.trans heq)

theorem counting_acquire (hinv : Tallied start h) (hfree : h.holder o = none)
    (htaken : ∃ e, (i, e) ∈ h.trace) : (counting start).Keeps i h (h.acquire i o) := by
  refine counting_holder hinv (fun o' hne => holder_acquire_of_ne hne) ?_ (fun j hj => ?_)
    fun j hj => ?_
  · simp
  · obtain rfl := Hist.holder_unique hj (h.acquire_holder_self i o)
    exact ⟨rfl, htaken⟩
  · cases hfree.symm.trans hj

theorem counting_release (hinv : Tallied start h) (hhold : h.holder o = some i)
    (ho : addressOf start h.trace o = (h.state.leases.load o).map Lease.egressIP) :
    (counting start).Keeps i h (h.release o) := by
  refine counting_holder hinv (fun o' hne => holder_release_of_ne hne) (fun _ => ho)
    (fun j hj => ?_) fun j hj => ?_
  · simp at hj
  · exact Hist.holder_unique hhold hj

end Steps

/-- The thread holds no owner. -/
abbrev Unlocked (i : ℕ) (h : RoutingHistory) : Prop := ∀ o, h.holder o ≠ some i

/-- Thread `i` has locked nothing, and has begun. -/
structure Outside (i : ℕ) (h : RoutingHistory) : Prop where
  free : Unlocked i h
  begun : ∃ e, (i, e) ∈ h.trace

/-- Thread `i` has locked the owner and nothing else; the lease is this one, and the owner is
counted for this address. -/
structure InSection (start : List (LeaseOwner × Addr)) (i : ℕ) (o : LeaseOwner)
    (current : Option Lease) (ip : Option Addr) (h : RoutingHistory) : Prop where
  holding : h.holder o = some i
  alone : ∀ o', o' ≠ o → h.holder o' ≠ some i
  begun : ∃ e, (i, e) ∈ h.trace
  lease : h.state.leases.load o = current
  address : addressOf start h.trace o = ip

section Sections

variable {start : List (LeaseOwner × Addr)} {i : ℕ} {h k : RoutingHistory} {o : LeaseOwner}
  {current : Option Lease} {ip : Option Addr} {α : Type}

theorem Outside.of_rely (ho : Outside i h) (hr : RoutingRely start i h k) : Outside i k := by
  obtain ⟨e, he⟩ := ho.begun
  exact ⟨fun o => hr.free o (ho.free o), e, hr.grown e he⟩

theorem InSection.of_rely (hs : InSection start i o current ip h) (hr : RoutingRely start i h k) :
    InSection start i o current ip k := by
  obtain ⟨hh, ha, hl⟩ := hr.held o hs.holding
  obtain ⟨e, he⟩ := hs.begun
  exact ⟨hh, fun o' hne => hr.free o' (hs.alone o' hne), ⟨e, hr.grown e he⟩, hl.trans hs.lease,
    ha.trans hs.address⟩

theorem InSection.did {e : RoutingEvent} {s : PlatformRoutingState} {current' : Option Lease}
    {ip' : Option Addr} (hs : InSection start i o current ip h)
    (hlease : s.leases.load o = current')
    (haddr : addressOf start ((i, e) :: h.trace) o = ip') :
    InSection start i o current' ip' (h.did i e s) :=
  ⟨hs.holding, hs.alone, ⟨e, .head _⟩, hlease, haddr⟩

/-- A task without sections of its own that moves no counter and changes no lease. -/
def QuietTask (task : RoutingTask α) : Prop := task.Steps QuietStep fun _ => True

theorem InSection.of_steps {task : RoutingTask α} {A : α → Prop} (hq : task.Steps QuietStep A)
    (hs : InSection start i o current ip h) :
    (counting start).Safe i (fun a k => A a ∧ InSection start i o current ip k) task h := by
  refine .of_steps ?_ (fun k m hr _ hk => InSection.of_rely hk hr) hq hs
  intro k e s hinv _ hk hstep
  refine ⟨counting_quiet hinv hstep, hk.did ?_ ?_⟩
  · rw [hstep.leases]
    exact hk.lease
  · rw [addressOf_quiet hstep.moves]
    exact hk.address

theorem QuietTask.inSection {task : RoutingTask α} (hq : QuietTask task)
    (hs : InSection start i o current ip h) :
    (counting start).Safe i (fun _ => InSection start i o current ip) task h :=
  (InSection.of_steps hq hs).mono fun _ _ _ hp => hp.2

theorem QuietTask.outside {task : RoutingTask α} (hq : QuietTask task) (ho : Outside i h) :
    (counting start).Safe i (fun _ => Outside i) task h := by
  refine (Discipline.Safe.of_steps (P := Outside i) ?_ ?_ hq ho).mono fun _ _ _ hp => hp.2
  · intro k e s hinv _ hk hstep
    exact ⟨counting_quiet hinv hstep, hk.free, e, List.mem_cons_self ..⟩
  · exact fun k m hr _ hk => hk.of_rely hr

theorem safe_dec {a : Addr} (hs : InSection start i o current (some a) h) :
    (counting start).Safe i (fun _ => InSection start i o current none)
      (RoutingTask.dec o a) h := by
  intro k hr hinv _
  have hs' := hs.of_rely hr
  refine ⟨counting_uncounted hinv hs'.holding hs'.address, fun m hr' _ => ?_⟩
  have hafter : InSection start i o current none (k.did i (.uncounted o a)
      { k.state with ipLoadStats := k.state.ipLoadStats.dec a }) :=
    hs'.did hs'.lease addressOf_uncounted_self
  exact hafter.of_rely hr'

theorem safe_inc (a : Addr) (hs : InSection start i o current none h) :
    (counting start).Safe i (fun _ k => InSection start i o current (some a) k)
      (RoutingTask.inc o a) h := by
  intro k hr hinv _
  have hs' := hs.of_rely hr
  refine ⟨counting_counted hinv hs'.holding hs'.address, fun m hr' _ => ?_⟩
  have hafter : InSection start i o current (some a) (k.did i (.counted o a)
      { k.state with ipLoadStats := k.state.ipLoadStats.inc a }) :=
    hs'.did hs'.lease addressOf_counted_self
  exact hafter.of_rely hr'

/-- What a section has to end with: the owner is counted for the lease it answers with. -/
def Balanced (start : List (LeaseOwner × Addr)) (i : ℕ) (o : LeaseOwner)
    (current : Option Lease) (answer : ComputeOp × α) (h : RoutingHistory) : Prop :=
  InSection start i o current ((answer.1.apply current).map Lease.egressIP) h

/-- **A `Compute`** whose section leaves the owner counted for the lease it answers with. -/
theorem safe_compute {section_ : Option Lease → RoutingTask (ComputeOp × α)}
    (hsec : ∀ m current, InSection start i o current (current.map Lease.egressIP) m →
      (counting start).Safe i (Balanced start i o current) (section_ current) m)
    (ho : Outside i h) :
    (counting start).Safe i (fun _ => Outside i) (RoutingTask.compute o section_) h := by
  refine .locked fun k hr hinv hfree => ?_
  have ho' := ho.of_rely hr
  refine ⟨counting_acquire hinv hfree ho'.begun, ?_⟩
  have hin : InSection start i o (k.state.leases.load o)
      ((k.state.leases.load o).map Lease.egressIP) (k.acquire i o) := by
    refine ⟨by simp, fun o' hne => ?_, ho'.begun, rfl, hinv.settled o hfree⟩
    rw [holder_acquire_of_ne hne]
    exact ho'.free o'
  intro m hr' hinv' _
  have hin' := hin.of_rely hr'
  refine ⟨counting_quiet hinv' ⟨rfl, rfl, rfl⟩, ?_⟩
  dsimp only [Prog.ret_bind]
  have hread : InSection start i o (m.state.leases.load o)
      ((m.state.leases.load o).map Lease.egressIP) (m.did i (.leaseLoaded o) m.state) := by
    rw [hin'.lease]
    refine hin'.did hin'.lease ?_
    rw [addressOf_quiet rfl]
    exact hin'.address
  refine (hsec _ _ hread).seq fun answer n hbal => ?_
  intro n' hr'' hinv'' _
  have hbal' := InSection.of_rely hbal hr''
  refine ⟨counting_committed hinv'' hbal'.holding answer.1, ?_⟩
  have hdone : InSection start i o (answer.1.apply (m.state.leases.load o))
      ((answer.1.apply (m.state.leases.load o)).map Lease.egressIP)
      (n'.did i (.committed o) { n'.state with leases := n'.state.leases.commit o answer.1 }) := by
    refine hbal'.did ?_ ?_
    · rw [LeaseTable.load_commit_self, hbal'.lease]
    · rw [addressOf_quiet rfl]
      exact hbal'.address
  intro n1 hr1 hinv1
  have hend := hdone.of_rely hr1
  refine ⟨counting_release hinv1 hend.holding (hend.address.trans (by rw [hend.lease])), ?_⟩
  have hout : Outside i (n1.release o) := by
    refine ⟨fun o' => ?_, hend.begun⟩
    by_cases hne : o' = o
    · subst hne
      simp
    · rw [holder_release_of_ne hne]
      exact hend.alone o' hne
  exact fun n2 hr2 _ => hout.of_rely hr2

end Sections

/-! ## The operations -/

open RoutingTask

section Operations

variable {start : List (LeaseOwner × Addr)} {i : ℕ} {h : RoutingHistory} {o : LeaseOwner}
  {current : Option Lease}

theorem quiet_emitLeaseEvent (event : LeaseEvent) : QuietTask (emitLeaseEvent event) :=
  fun _ => ⟨⟨rfl, rfl, rfl⟩, trivial⟩

variable (plat : RoutingSettings)

theorem quiet_rotationAvoidIP (o : LeaseOwner) (nowNs : ℤ) :
    QuietTask (rotationAvoidIP plat o nowNs) := by
  unfold rotationAvoidIP
  split
  · trivial
  · exact fun _ => ⟨⟨rfl, rfl, rfl⟩, trivial⟩

variable (platformID : String)

theorem quiet_recordRotationTombstone (o : LeaseOwner) (ip : Addr) (nowNs ttl : ℤ) :
    QuietTask (recordRotationTombstone platformID o ip nowNs ttl) := by
  unfold recordRotationTombstone
  split
  · trivial
  · exact fun _ => ⟨⟨rfl, rfl, rfl⟩, trivial⟩

variable (sight : RouteSight)

theorem quiet_createLease (o : LeaseOwner) (nowNs : ℤ) :
    QuietTask (createLease plat sight o nowNs) :=
  (quiet_rotationAvoidIP plat o nowNs).bind fun _ _ _ => ⟨⟨rfl, rfl, rfl⟩, trivial⟩

theorem quiet_emitRemoved (o : LeaseOwner) (removed : Option Lease) :
    QuietTask (emitRemoved platformID o removed) := by
  cases removed with
  | none => trivial
  | some lease => exact (quiet_emitLeaseEvent _).bind fun _ _ => trivial

theorem quiet_tryLeaseHit (o : LeaseOwner) (lease : Lease) (nowNs : ℤ) :
    (tryLeaseHit plat sight o lease nowNs).Steps QuietStep
      fun hit => ∀ new ∈ hit, new.1.egressIP = lease.egressIP := by
  unfold tryLeaseHit
  split
  · exact (quiet_emitLeaseEvent _).bind fun _ _ new hnew => by
      rw [← Option.some.inj hnew]
  · exact fun new hnew => nomatch hnew

theorem quiet_tryLeaseSameIPRotation (o : LeaseOwner) (lease : Lease) (nowNs : ℤ) :
    (tryLeaseSameIPRotation plat sight o lease nowNs).Steps QuietStep
      fun moved => ∀ new ∈ moved, new.1.egressIP = lease.egressIP := by
  unfold tryLeaseSameIPRotation
  split
  · exact fun new hnew => nomatch hnew
  · exact (quiet_emitLeaseEvent _).bind fun _ _ new hnew => by
      rw [← Option.some.inj hnew]

theorem safe_cleanupPreviousLease (invalidation : LeaseInvalidation)
    (hs : InSection start i o current (current.map Lease.egressIP) h) :
    (counting start).Safe i (fun _ => InSection start i o current none)
      (cleanupPreviousLease platformID o current invalidation) h := by
  cases current with
  | none => exact fun k hr _ => hs.of_rely hr
  | some lease =>
    refine (safe_dec hs).seq fun _ k hk => ?_
    cases invalidation with
    | none => exact fun m hr _ => hk.of_rely hr
    | expire | remove => exact (quiet_emitLeaseEvent _).inSection hk

theorem apply_abortLeaseCreate (current : Option Lease) :
    (abortLeaseCreate current).apply current = none := by
  cases current with
  | none | some => rfl

variable (nowNs : ℤ)

theorem safe_createOrAbortStickyLease (invalidation : LeaseInvalidation)
    (hs : InSection start i o current (current.map Lease.egressIP) h) :
    (counting start).Safe i (Balanced start i o current)
      (createOrAbortStickyLease plat sight o nowNs current invalidation) h := by
  refine ((quiet_createLease plat sight o nowNs).inSection hs).seq ?_
  intro created k hk
  cases created with
  | error err =>
    refine (safe_cleanupPreviousLease plat.id invalidation hk).seq ?_
    intro _ m hm n hr _
    unfold Balanced
    rw [apply_abortLeaseCreate]
    exact InSection.of_rely hm hr
  | ok new =>
    refine (safe_cleanupPreviousLease plat.id invalidation hk).seq ?_
    intro _ m hm
    refine (safe_inc new.1.egressIP hm).seq fun _ n hn => ?_
    refine ((quiet_emitLeaseEvent _).inSection hn).seq ?_
    exact fun _ n' hn' n'' hr _ => InSection.of_rely hn' hr

theorem safe_decideStickyLease (hs : InSection start i o current (current.map Lease.egressIP) h) :
    (counting start).Safe i (Balanced start i o current)
      (decideStickyLease plat sight o nowNs current) h := by
  cases current with
  | none => exact safe_createOrAbortStickyLease plat sight nowNs _ hs
  | some lease =>
    -- a lease on the same address leaves the owner counted for what it is counted for
    have hsame : ∀ (new : Lease × StickyRoute) (k : RoutingHistory),
        new.1.egressIP = lease.egressIP →
        InSection start i o (some lease) (some lease.egressIP) k →
        (counting start).Safe i (Balanced start i o (some lease))
          (.ret (ComputeOp.update new.1, (.ok new.2 : Except RouteError StickyRoute))) k := by
      intro new k hip hk m hr _
      show InSection start i o (some lease) (some new.1.egressIP) m
      rw [hip]
      exact hk.of_rely hr
    simp only [decideStickyLease]
    split
    · exact safe_createOrAbortStickyLease plat sight nowNs _ hs
    refine (InSection.of_steps (quiet_tryLeaseHit plat sight o lease nowNs) hs).seq ?_
    rintro hit k ⟨hip, hk⟩
    cases hit with
    | some new => exact hsame new k (hip new rfl) hk
    | none =>
      refine (InSection.of_steps
        (quiet_tryLeaseSameIPRotation plat sight o lease nowNs) hk).seq ?_
      rintro moved m ⟨hip', hm⟩
      cases moved with
      | some new => exact hsame new m (hip' new rfl) hm
      | none => exact safe_createOrAbortStickyLease plat sight nowNs _ hm

theorem safe_loadState (hfree : Unlocked i h) :
    (counting start).Safe i (fun _ => Outside i) loadState h := by
  intro k hr hinv _
  refine ⟨counting_quiet hinv ⟨rfl, rfl, rfl⟩, fun m hr' _ => ?_⟩
  have hout : Outside i (k.did i .stateLoaded k.state) :=
    ⟨fun o => RoutingRely.free hr o (hfree o), .stateLoaded, .head _⟩
  exact hout.of_rely hr'

theorem safe_routeRequest (o : LeaseOwner) (nowNs : ℤ) (hfree : Unlocked i h) :
    (counting start).Safe i (fun _ => Outside i) (routeRequest plat sight o nowNs) h := by
  refine (safe_loadState hfree).seq fun _ k hk => ?_
  split
  · have hquiet : QuietTask (routeRandom sight o) := fun _ => ⟨⟨rfl, rfl, rfl⟩, trivial⟩
    exact hquiet.outside hk
  · exact safe_compute (fun m current hm => safe_decideStickyLease plat sight nowNs hm) hk

theorem safe_putLease (o : LeaseOwner) (lease : Lease) (ho : Outside i h) :
    (counting start).Safe i (fun _ => Outside i) (putLease o lease) h := by
  refine safe_compute (fun m current hm => ?_) ho
  cases current with
  | some old =>
    refine (safe_dec hm).seq fun _ n hn => ?_
    refine (safe_inc lease.egressIP hn).seq ?_
    exact fun _ n' hn' n'' hr _ => InSection.of_rely hn' hr
  | none =>
    refine (safe_inc lease.egressIP hm).seq ?_
    exact fun _ n' hn' n'' hr _ => InSection.of_rely hn' hr

theorem safe_upsertLease (parsers : LeaseParsers) (row : LeaseRow) (hfree : Unlocked i h) :
    (counting start).Safe i (fun _ => Unlocked i) (upsertLease parsers row) h := by
  unfold upsertLease
  split
  · exact fun k hr _ o => RoutingRely.free hr o (hfree o)
  · rename_i o lease _
    refine (safe_loadState hfree).seq fun _ k hk => ?_
    refine (safe_putLease o lease hk).seq fun replaced m hm => ?_
    refine ((quiet_emitLeaseEvent _).outside hm).seq fun _ n hn => ?_
    exact fun n' hr _ => (Outside.of_rely hn hr).free

theorem safe_restoreLease (parsers : LeaseParsers) (row : LeaseRow) (hfree : Unlocked i h) :
    (counting start).Safe i (fun _ => Unlocked i) (restoreLease parsers row) h := by
  unfold restoreLease
  split
  · refine (safe_loadState hfree).seq fun _ k hk => ?_
    refine (safe_putLease _ _ hk).seq fun _ m hm => ?_
    exact fun n hr _ => (Outside.of_rely hm hr).free
  · exact fun k hr _ o => RoutingRely.free hr o (hfree o)

theorem safe_removal {α : Type} {lease : Lease} {callback : RoutingTask Unit} (a : α)
    (hquiet : QuietTask callback)
    (hs : InSection start i o (some lease) (some lease.egressIP) h) :
    (counting start).Safe i (Balanced start i o (some lease))
      ((dec o lease.egressIP).bind fun _ => callback.bind fun _ => .ret (.delete, a)) h := by
  refine (safe_dec hs).seq fun _ n hn => ?_
  refine (hquiet.inSection hn).seq ?_
  exact fun _ n' hn' n'' hr _ => InSection.of_rely hn' hr

theorem safe_removeLease (o : LeaseOwner) {onDelete : Lease → RoutingTask Unit}
    (hquiet : ∀ lease, QuietTask (onDelete lease)) (ho : Outside i h) :
    (counting start).Safe i (fun _ => Outside i) (removeLease o onDelete) h := by
  refine safe_compute (fun m current hm => ?_) ho
  cases current with
  | some lease => exact safe_removal _ (hquiet lease) hm
  | none => exact fun n hr _ => InSection.of_rely hm hr

theorem safe_removeLeaseIfOlderThan (o : LeaseOwner) (createdBeforeOrAtNs : ℤ)
    {onDelete : Lease → RoutingTask Unit} (hquiet : ∀ lease, QuietTask (onDelete lease))
    (ho : Outside i h) :
    (counting start).Safe i (fun _ => Outside i)
      (removeLeaseIfOlderThan o createdBeforeOrAtNs onDelete) h := by
  refine safe_compute (fun m current hm => ?_) ho
  cases current with
  | some lease =>
    dsimp only
    split
    · exact fun n hr _ => InSection.of_rely hm hr
    · exact safe_removal _ (hquiet lease) hm
  | none => exact fun n hr _ => InSection.of_rely hm hr

theorem quiet_nothing (_ : Lease) : QuietTask (.ret () : RoutingTask Unit) := trivial

theorem safe_deleteLease (o : LeaseOwner) (hfree : Unlocked i h) :
    (counting start).Safe i (fun _ => Outside i) (deleteLease platformID o) h := by
  refine (safe_loadState hfree).seq fun _ k hk => ?_
  refine (safe_removeLease o quiet_nothing hk).seq fun _ m hm => ?_
  exact (quiet_emitRemoved platformID o _).outside hm

theorem safe_rotateIfOlderThan (o : LeaseOwner) (floorNs nowNs : ℤ) (hfree : Unlocked i h) :
    (counting start).Safe i (fun _ => Outside i) (rotateIfOlderThan plat o floorNs nowNs)
      h := by
  refine (safe_loadState hfree).seq fun _ k hk => ?_
  refine (safe_removeLeaseIfOlderThan o floorNs
    (fun _ => quiet_recordRotationTombstone ..) hk).seq fun _ m hm => ?_
  exact (quiet_emitRemoved plat.id o _).outside hm

theorem safe_rotateLease (o : LeaseOwner) (nowNs : ℤ) (hfree : Unlocked i h) :
    (counting start).Safe i (fun _ => Unlocked i) (rotateLease plat o nowNs) h := by
  unfold rotateLease
  split
  · exact fun k hr _ o => RoutingRely.free hr o (hfree o)
  · refine (safe_loadState hfree).seq fun _ k hk => ?_
    refine (safe_removeLease o
      (fun _ => quiet_recordRotationTombstone ..) hk).seq fun _ m hm => ?_
    exact ((quiet_emitRemoved plat.id o _).outside hm).mono fun _ _ _ hn => hn.free

theorem safe_deleteLeasesOn (owners : List LeaseOwner) (ho : Outside i h) :
    (counting start).Safe i (fun _ => Outside i) (deleteLeasesOn platformID owners) h := by
  induction owners generalizing h with
  | nil => exact fun k hr _ => ho.of_rely hr
  | cons o owners ih =>
    refine (safe_removeLease o quiet_nothing ho).seq ?_
    intro removed k hk
    refine ((quiet_emitRemoved platformID _ removed).outside hk).seq ?_
    intro deleted m hm
    refine (ih hm).seq fun count n hn => ?_
    exact fun n' hr _ => Outside.of_rely hn hr

theorem safe_deleteAllLeases (visited : List LeaseOwner) (hfree : Unlocked i h) :
    (counting start).Safe i (fun _ => Outside i) (deleteAllLeases platformID visited) h :=
  (safe_loadState hfree).seq fun _ _ hk => safe_deleteLeasesOn platformID visited hk

theorem safe_expireLease (o : LeaseOwner) (nowNs : ℤ) (ho : Outside i h) :
    (counting start).Safe i (fun _ => Outside i) (expireLease platformID o nowNs) h := by
  refine safe_compute (fun m current hm => ?_) ho
  cases current with
  | none => exact fun n hr _ => InSection.of_rely hm hr
  | some lease =>
    dsimp only
    split
    · exact safe_removal _ (quiet_emitLeaseEvent _) hm
    · exact fun n hr _ => InSection.of_rely hm hr

theorem safe_expireLeasesOn (visited : List (LeaseOwner × Lease)) (ho : Outside i h) :
    (counting start).Safe i (fun _ => Outside i)
      (expireLeasesOn platformID nowNs visited) h := by
  induction visited generalizing h with
  | nil => exact fun k hr _ => ho.of_rely hr
  | cons row visited ih =>
    obtain ⟨o, lease⟩ := row
    refine .bind (.mono (fun _ k _ hk => ih hk) ?_)
    unfold expireIfExpired
    split
    · exact safe_expireLease platformID o nowNs ho
    · exact fun k hr _ => ho.of_rely hr

theorem safe_sweepPlatformState (visited : List (LeaseOwner × Lease)) (nowNs : ℤ)
    (hfree : Unlocked i h) :
    (counting start).Safe i (fun _ => Outside i)
      (sweepPlatformState platformID visited nowNs) h :=
  (safe_loadState hfree).seq fun _ _ hk =>
    safe_expireLeasesOn platformID nowNs visited hk

/-- **Every operation keeps the counters**, and leaves nothing locked. -/
theorem safe_routingCall (call : RoutingCall) (hfree : Unlocked i h) :
    (counting start).Safe i (fun _ => Unlocked i) call.task h := by
  -- the answer is dropped
  have hdrop : ∀ {α : Type} {task : RoutingTask α},
      (counting start).Safe i (fun _ => Unlocked i) task h →
      (counting start).Safe i (fun _ => Unlocked i)
        (task.bind fun _ => .ret ()) h := fun hs =>
    hs.seq fun _ _ hk _ hr _ o => RoutingRely.free hr o (hk o)
  have hout : ∀ {α : Type} {task : RoutingTask α},
      (counting start).Safe i (fun _ => Outside i) task h →
      (counting start).Safe i (fun _ => Unlocked i) task h := fun hs =>
    hs.mono fun _ _ _ hk => hk.free
  cases call with
  | routeRequest plat sight o nowNs =>
    exact hdrop (hout (safe_routeRequest plat sight o nowNs hfree))
  | upsertLease parsers row => exact hdrop (safe_upsertLease parsers row hfree)
  | restoreLease parsers row => exact safe_restoreLease parsers row hfree
  | deleteLease platformID o => exact hdrop (hout (safe_deleteLease platformID o hfree))
  | rotateIfOlderThan plat o floorNs nowNs =>
    exact hdrop (hout (safe_rotateIfOlderThan plat o floorNs nowNs hfree))
  | rotateLease plat o nowNs => exact hdrop (safe_rotateLease plat o nowNs hfree)
  | deleteAllLeases platformID visited =>
    exact hdrop (hout (safe_deleteAllLeases platformID visited hfree))
  | sweepPlatformState platformID visited nowNs =>
    exact hout (safe_sweepPlatformState platformID visited nowNs hfree)

end Operations

variable (s : PlatformRoutingState)

/-- The leases on an address. -/
def PlatformRoutingState.leasesOn (ip : String) : ℕ :=
  s.leases.countP fun row => row.2.egressIP = some ip

/-- Every counter is the number of leases on its address, and no owner has two leases. -/
def PlatformRoutingState.Consistent : Prop :=
  KeysNodup Prod.fst s.leases ∧ ∀ ip, s.ipLoadStats.get (some ip) = s.leasesOn ip

def LeaseTable.addresses (leases : LeaseTable) : List (LeaseOwner × Addr) :=
  leases.map fun row => (row.1, row.2.egressIP)

theorem loadOf_addresses (ip : String) : loadOf s.leases.addresses ip = s.leasesOn ip := by
  rw [loadOf_eq_countP]
  unfold LeaseTable.addresses PlatformRoutingState.leasesOn
  rw [List.countP_map]
  rfl

theorem lookup_addresses (leases : LeaseTable) (o : LeaseOwner) :
    (lookup Prod.fst o leases.addresses).map Prod.snd = (leases.load o).map Lease.egressIP := by
  unfold LeaseTable.load LeaseTable.addresses
  induction leases with
  | nil => rfl
  | cons row leases ih =>
    rw [List.map_cons, lookup_cons, lookup_cons]
    by_cases h : row.1 = o
    · rw [if_pos h, if_pos h]
      rfl
    · rw [if_neg h, if_neg h]
      exact ih

theorem keysNodup_addresses {leases : LeaseTable} (hnd : KeysNodup Prod.fst leases) :
    KeysNodup Prod.fst leases.addresses := by
  unfold KeysNodup LeaseTable.addresses at *
  rwa [List.map_map]

theorem consistent_new : ({} : PlatformRoutingState).Consistent := ⟨by decide, fun _ => rfl⟩

theorem tallied_start {s : PlatformRoutingState} (hs : s.Consistent) :
    Tallied s.leases.addresses { state := s } where
  leases := hs.1
  owners := keysNodup_addresses hs.1
  loads ip := (hs.2 ip).trans (loadOf_addresses s ip).symm
  settled o _ := lookup_addresses s.leases o
  taken := nofun

theorem loadOf_eq_of_lookup {rows rows' : List (LeaseOwner × Addr)}
    (hnd : KeysNodup Prod.fst rows) (hnd' : KeysNodup Prod.fst rows')
    (hsame : ∀ o, (lookup Prod.fst o rows).map Prod.snd =
      (lookup Prod.fst o rows').map Prod.snd) (ip : String) :
    loadOf rows ip = loadOf rows' ip := by
  have hmem : ∀ {l : List (LeaseOwner × Addr)}, KeysNodup Prod.fst l → ∀ row : LeaseOwner × Addr,
        row ∈ l ↔ (lookup Prod.fst row.1 l).map Prod.snd = some row.2 := by
    intro l hl row
    constructor
    · intro h
      rw [lookup_of_mem hl h]
      rfl
    · intro h
      obtain ⟨found, hfound, hsnd⟩ := Option.map_eq_some_iff.mp h
      have hkey := key_of_lookup hfound
      have heq : found = row := Prod.ext hkey hsnd
      exact heq ▸ mem_of_lookup hfound
  have hperm : rows.Perm rows' := by
    refine (List.perm_ext_iff_of_nodup hnd.of_map hnd'.of_map).mpr fun row => ?_
    rw [hmem hnd, hmem hnd', hsame]
  exact (hperm.map _).sum_eq

/-- **The load counters match the leases.**  Whatever operations work on the routing state of a
platform, however their steps interleave, no counter is ever negative, and when none of them is in
progress every counter is the number of leases on its address. -/
theorem load_counts_match {s : PlatformRoutingState} (hs : s.Consistent)
    (calls : List RoutingCall) (sched : List ℕ) :
    let reached := run Pool.step (Pool.start s (calls.map RoutingCall.task)) sched
    (∀ ip, 0 ≤ reached.hist.state.ipLoadStats.get ip) ∧
      (reached.Finished → ∀ ip, reached.hist.state.ipLoadStats.get (some ip) =
        reached.hist.state.leasesOn ip) := by
  intro reached
  have hkept : Discipline.Kept (counting s.leases.addresses)
      (fun i _ => Unlocked i) reached := by
    refine Discipline.run_safe (.of_calls (tallied_start hs) fun i call _ => ?_)
      (Discipline.along_of_always (fun _ _ _ => trivial) _ sched)
    exact safe_routingCall call fun _ => by simp
  have hinv : Tallied s.leases.addresses reached.hist := hkept.inv
  refine ⟨fun ip => ?_, fun hfin ip => ?_⟩
  · cases ip with
    | none => exact le_refl 0
    | some ip =>
      rw [hinv.loads ip]
      exact loadOf_nonneg _ ip
  · -- whoever has locked an owner has taken a step, so it is a thread, and it has answered
    have hfree : ∀ o, reached.hist.holder o = none := by
      intro o
      cases hh : reached.hist.holder o with
      | none => rfl
      | some j =>
        obtain ⟨e, he⟩ := hinv.taken o j hh
        have hj : j < reached.threads.length := Pool.numbered_run s _ sched (j, e) he
        obtain ⟨a, ha⟩ := hfin.answer hj
        exact absurd hh (hkept.answer ha o)
    rw [hinv.loads ip, ← loadOf_addresses]
    refine loadOf_eq_of_lookup hinv.owners (keysNodup_addresses hinv.leases) (fun o => ?_) ip
    rw [lookup_addresses]
    exact hinv.settled o (hfree o)

def drawing (ip : String) : RouteSight where
  entry hash := if hash = 1 then some (some ip) else none
  view hash := hash = 1
  chooseSameIPRotationCandidate _ := none
  selectLiveRandomRoute _ _ := .ok (1, some ip, false)

/-- Two requests of one account, on nodes with different addresses, and a deletion in between: the
second request finds the lease of the first one off its address and replaces it. -/
def crossing : List RoutingCall :=
  let plat : RoutingSettings :=
    { id := "p", stickyTTLNs := 0, scheduledRotationIntervalNs := 0,
      rotationAvoidPreviousIP := false }
  [.routeRequest plat (drawing "192.0.2.1") ⟨"u", "a"⟩ 1,
    .routeRequest plat (drawing "192.0.2.2") ⟨"u", "a"⟩ 2, .deleteLease "p" ⟨"u", "b"⟩]

theorem load_counts_match_crossing :
    let reached := run Pool.step (Pool.start {} (crossing.map RoutingCall.task))
      [0, 1, 2, 0, 2, 0, 2, 0, 1, 2, 0, 0, 2, 0, 0, 1, 1, 1, 1, 1, 1, 1, 1, 1, 1]
    reached.Finished ∧ reached.hist.state.leasesOn "192.0.2.2" = 1 ∧
      reached.hist.state.ipLoadStats.get (some "192.0.2.1") =
        reached.hist.state.leasesOn "192.0.2.1" ∧
      reached.hist.state.ipLoadStats.get (some "192.0.2.2") =
        reached.hist.state.leasesOn "192.0.2.2" := by
  intro reached
  have hfin : reached.Finished := by decide +kernel
  have hmatch := (load_counts_match consistent_new crossing
    [0, 1, 2, 0, 2, 0, 2, 0, 1, 2, 0, 0, 2, 0, 0, 1, 1, 1, 1, 1, 1, 1, 1, 1, 1]).2 hfin
  exact ⟨hfin, by decide +kernel, hmatch "192.0.2.1", hmatch "192.0.2.2"⟩

end Prism
