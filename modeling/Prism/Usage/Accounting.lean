import Prism.Usage.Metering

/-!
# Traffic is neither lost nor counted twice

What the buckets hold is compared with the history: with what was added to each of them, drained
from it, and put back.  The three levels of the counters keep different books.

* A bucket holds what was added to it and put back, less what was drained.
* The total of a key id is what its buckets hold, at every instant, because it moves in the same
  critical section as the bucket.
* An aggregate is moved by additions alone; neither a drain nor a requeue shows in it.

None of this depends on what a drain or a requeue is in the middle of, so it holds between any two
steps of any interleaving (`Accounted`, kept by every step).  What a call puts back is compared with
what it took itself: until it returns, the difference is the batch in its hands (`HoldsBatch`).
-/

namespace Prism

open Hist (did_state did_trace)

variable (key : CounterKey)

/-- What the event adds to the bucket. -/
def addedTo : ServerEvent → Delta
  | .bucketAdded k delta => if k = key then delta else 0
  | _ => 0

def drainedFrom : ServerEvent → Delta
  | .bucketDrained k delta => if k = key then delta else 0
  | _ => 0

def requeuedTo : ServerEvent → Delta
  | .bucketRequeued k delta => if k = key then delta else 0
  | _ => 0

def countedFor (userID : String) : ServerEvent → ℤ
  | .userAdded u bytes => if u = userID then bytes else 0
  | _ => 0

/-- **The books of a history**: buckets, key totals and aggregates against its events. -/
structure Accounted (h : History) : Prop where
  sound : h.state.usage.Sound
  buckets : ∀ key, tally (addedTo key) h.trace + tally (requeuedTo key) h.trace =
    h.state.usage.bucket key + tally (drainedFrom key) h.trace
  users : ∀ userID, (h.state.usage.users userID).getD 0 = tally (countedFor userID) h.trace

theorem accounted_start (panel : Panel) : Accounted { state := ⟨panel, {}⟩ } :=
  ⟨Counters.sound_empty, fun _ => rfl, fun _ => rfl⟩

namespace Accounted

variable {h : History} (hh : Accounted h) (i : ℕ) (key : CounterKey)
include hh

theorem bucketAdded (delta : Delta) : Accounted (h.did i (.bucketAdded key delta)
      { h.state with usage := h.state.usage.addToBuckets key delta }) := by
  refine ⟨hh.sound.addToBuckets key delta, fun other => ?_, fun userID => ?_⟩
  · simp only [did_state, did_trace, tally_cons, addedTo, requeuedTo, drainedFrom,
      zero_add, Counters.bucket_addToBuckets]
    rw [add_assoc, hh.buckets other, ← add_assoc, add_comm _ (h.state.usage.bucket other)]
  · simp only [did_state, did_trace, tally_cons, countedFor, zero_add]
    exact hh.users userID

theorem bucketRequeued (delta : Delta) : Accounted (h.did i (.bucketRequeued key delta)
      { h.state with usage := h.state.usage.addToBuckets key delta }) := by
  refine ⟨hh.sound.addToBuckets key delta, fun other => ?_, fun userID => ?_⟩
  · simp only [did_state, did_trace, tally_cons, addedTo, requeuedTo, drainedFrom,
      zero_add, Counters.bucket_addToBuckets]
    rw [add_left_comm, hh.buckets other, ← add_assoc, add_comm _ (h.state.usage.bucket other)]
  · simp only [did_state, did_trace, tally_cons, countedFor, zero_add]
    exact hh.users userID

theorem bucketDrained : Accounted (h.did i (.bucketDrained key (h.state.usage.drainOne key).1)
      { h.state with usage := (h.state.usage.drainOne key).2 }) := by
  refine ⟨hh.sound.drainOne key, fun other => ?_, fun userID => ?_⟩
  · have hsplit := Counters.bucket_drainOne (c := h.state.usage) key other
    simp only [did_state, did_trace, tally_cons, addedTo, requeuedTo, drainedFrom, zero_add]
    rw [hh.buckets other, hsplit, add_assoc]
  · have husers : ((h.state.usage.drainOne key).2.users userID) = h.state.usage.users userID := by
      unfold Counters.drainOne
      split <;> rfl
    simp only [did_state, did_trace, tally_cons, countedFor, zero_add, husers]
    exact hh.users userID

omit key in
theorem userAdded (userID : String) (bytes : ℤ) : Accounted (h.did i (.userAdded userID bytes)
      { h.state with usage := h.state.usage.addToUser userID bytes }) := by
  refine ⟨hh.sound.of_buckets rfl rfl, fun other => ?_, fun other => ?_⟩
  · simp only [did_state, did_trace, tally_cons, addedTo, requeuedTo, drainedFrom, zero_add]
    exact hh.buckets other
  · simp only [did_state, did_trace, tally_cons, countedFor, Counters.addToUser]
    by_cases hu : userID = other
    · subst hu
      rw [Function.update_self, Option.getD_some, if_pos rfl, hh.users userID, add_comm]
    · rw [Function.update_of_ne (Ne.symm hu), if_neg hu, zero_add]
      exact hh.users other

end Accounted

/-! ## The calls keep the books -/

theorem own_kept_refl (i : ℕ) (h : History) : own i h.trace = own i h.trace := rfl

theorem own_kept_trans {i : ℕ} {h1 h2 h3 : History} (h : own i h2.trace = own i h1.trace)
    (h' : own i h3.trace = own i h2.trace) : own i h3.trace = own i h1.trace :=
  h'.trans h

/-- The books are kept, by threads that count on nothing but their own part of the history. -/
def metering : Discipline Server ServerEvent Mutex where
  inv := Accounted
  may _ _ _ := True
  rely i h h' := own i h'.trace = own i h.trace
  rely_refl := own_kept_refl
  rely_trans := @own_kept_trans

theorem metering_keeps {i : ℕ} {h : History} {e : ServerEvent} {s : Server}
    (hacc : Accounted (h.did i e s)) : metering.Keeps i h (h.did i e s) :=
  ⟨hacc, fun _ hj => own_cons_of_ne (Ne.symm hj) _ _⟩

def MeterCall.adds : MeterCall → Delta
  | .add k delta => if k = key then delta else 0
  | .drain .. => 0

def MeterCall.counts (userID : String) : MeterCall → ℤ
  | .add k delta => if k.userID = userID then delta.total else 0
  | .drain .. => 0

/-- What a thread has added to the buckets and to the aggregates. -/
def Contributed (adds : CounterKey → Delta) (counts : String → ℤ) (mine : Trace) : Prop :=
  (∀ key, tally (addedTo key) mine = adds key) ∧
    ∀ userID, userID ≠ "" → tally (countedFor userID) mine = counts userID

/-- What a thread has drained and not put back is the batch in its hands. -/
def HoldsBatch (batch : Batch) (mine : Trace) : Prop :=
  ∀ key, tally (drainedFrom key) mine = tally (requeuedTo key) mine + batch.amount key

/-- A call that has returned has put back what it took, or nothing.  Of a key that is listed twice
the batch has the later amount alone, so a list of distinct keys is asked for. -/
def MeterCall.Settled (mine : Trace) : MeterCall → Prop
  | .add .. => ∀ key, tally (drainedFrom key) mine = 0 ∧ tally (requeuedTo key) mine = 0
  | .drain _ true _ => ∀ key, tally (requeuedTo key) mine = 0
  | .drain keys false _ => keys.Nodup → ∀ key,
      tally (requeuedTo key) mine = tally (drainedFrom key) mine

/-- In the middle of a drain, with these keys to go. -/
structure Draining (distinct : Prop) (keys : List CounterKey) (batch : Batch)
    (mine : Trace) : Prop where
  adds : Contributed (fun _ => 0) (fun _ => 0) mine
  keeps : ∀ key, tally (requeuedTo key) mine = 0
  holds : distinct → HoldsBatch batch mine ∧ keys.Nodup ∧ ∀ key ∈ keys, key ∉ batch.map Prod.fst

/-- In the middle of a requeue, with this part of the batch to go. -/
structure Returning (distinct : Prop) (batch : Batch) (mine : Trace) : Prop where
  adds : Contributed (fun _ => 0) (fun _ => 0) mine
  holds : distinct → HoldsBatch batch mine

section Calls

variable {i : ℕ} {distinct : Prop} {key : CounterKey} {delta : Delta} {batch : Batch}
  {mine : Trace}

theorem Draining.drained {keys : List CounterKey}
    (hd : Draining distinct (key :: keys) batch mine) :
    Draining distinct keys (if delta = 0 then batch else batch.put key delta)
      ((i, .bucketDrained key delta) :: mine) := by
  refine ⟨⟨fun other => ?_, fun userID hne => ?_⟩, fun other => ?_, fun hdistinct => ?_⟩
  · simpa [addedTo] using hd.adds.1 other
  · simpa [countedFor] using hd.adds.2 userID hne
  · simpa [requeuedTo] using hd.keeps other
  obtain ⟨hholds, hnodup, hfree⟩ := hd.holds hdistinct
  obtain ⟨hkey, hnodup⟩ := List.nodup_cons.mp hnodup
  have hnew : key ∉ batch.map Prod.fst := hfree key (by simp)
  refine ⟨fun other => ?_, hnodup, fun other hother => ?_⟩
  · simp only [tally_cons, requeuedTo, drainedFrom, zero_add, hholds other]
    split_ifs with heq hzero hzero
    · rw [hzero, zero_add]
    · rw [Batch.amount_put hnew, if_pos heq, add_left_comm, add_comm delta]
    · rw [zero_add]
    · rw [Batch.amount_put hnew, if_neg heq, add_zero, zero_add]
  · split_ifs with hzero
    · exact hfree other (.tail _ hother)
    rw [Batch.put_eq_append hnew, List.map_append, List.mem_append, not_or]
    refine ⟨hfree other (.tail _ hother), fun h => hkey ?_⟩
    rwa [List.mem_singleton.mp h] at hother

theorem Returning.requeued (hr : Returning distinct ((key, delta) :: batch) mine) :
    Returning distinct batch ((i, .bucketRequeued key delta) :: mine) := by
  refine ⟨⟨fun other => ?_, fun userID hne => ?_⟩, fun hdistinct other => ?_⟩
  · simpa [addedTo] using hr.adds.1 other
  · simpa [countedFor] using hr.adds.2 userID hne
  · simp only [tally_cons, drainedFrom, requeuedTo, zero_add]
    rw [hr.holds hdistinct other, Batch.amount_cons, add_left_comm, add_assoc]

theorem Returning.skipped (hr : Returning distinct ((key, 0) :: batch) mine) :
    Returning distinct batch mine := by
  refine ⟨hr.adds, fun hdistinct other => ?_⟩
  rw [hr.holds hdistinct other, Batch.amount_cons, ite_self, zero_add]

theorem safe_add (key : CounterKey) (delta : Delta) {h : History} (hstart : own i h.trace = []) :
    metering.Safe i (fun _ k => Contributed (MeterCall.add key delta).adds
        (MeterCall.add key delta).counts (own i k.trace) ∧
      (MeterCall.add key delta).Settled (own i k.trace)) (add key delta) h := by
  unfold add
  by_cases hzero : delta = 0
  · rw [if_pos hzero]
    intro k hr _
    have hown : own i k.trace = [] := Eq.trans hr hstart
    simp [Contributed, hown, MeterCall.adds, MeterCall.counts, MeterCall.Settled, hzero]
  rw [if_neg hzero]
  intro k hr hinv _
  have hown : own i k.trace = [] := Eq.trans hr hstart
  refine ⟨metering_keeps (hinv.bucketAdded i key delta), ?_⟩
  by_cases hbytes : delta.total ≠ 0 ∧ key.userID ≠ ""
  · rw [if_pos hbytes]
    intro k' hr' hinv' _
    have hown' : own i k'.trace = [(i, .bucketAdded key delta)] := by
      refine Eq.trans hr' ?_
      simp [hown]
    refine ⟨metering_keeps (hinv'.userAdded i key.userID delta.total), ?_⟩
    intro k'' hr'' _
    rw [show own i k''.trace = _ from hr'']
    simp [Contributed, hown', MeterCall.adds, MeterCall.counts, MeterCall.Settled, addedTo,
      countedFor, drainedFrom, requeuedTo]
  · rw [if_neg hbytes]
    intro k' hr' _
    rw [show own i k'.trace = _ from hr']
    refine ⟨⟨fun other => ?_, fun userID hne => ?_⟩, ?_⟩
    · simp [hown, MeterCall.adds, addedTo]
    -- the call leaves the aggregate alone: no bytes, or nobody to count them for
    · simp only [did_trace, own_cons_self, tally_cons, countedFor, hown, tally_nil, add_zero,
        MeterCall.counts]
      split_ifs with hu
      · by_contra hne'
        exact hbytes ⟨fun h => hne' h.symm, hu ▸ hne⟩
      · rfl
    · simp [hown, MeterCall.Settled, drainedFrom, requeuedTo]

theorem safe_drain {α : Type} {Q : α → History → Prop} (f : Batch → Task α) :
    ∀ (keys : List CounterKey) (batch : Batch) (h : History),
      Draining distinct keys batch (own i h.trace) →
      (∀ batch k, Draining distinct [] batch (own i k.trace) → metering.Safe i Q (f batch) k) →
      metering.Safe i Q ((drain keys batch).bind f) h
  | [], batch, h, hd, hf => hf batch h hd
  | key :: keys, batch, h, hd, hf => by
    intro k hr hinv _
    refine ⟨metering_keeps (hinv.bucketDrained i key), ?_⟩
    refine safe_drain f keys _ _ ?_ hf
    rw [did_trace, own_cons_self, show own i k.trace = _ from hr]
    exact hd.drained

theorem safe_requeue : ∀ (batch : Batch) (h : History), Returning distinct batch (own i h.trace) →
      metering.Safe i (fun _ k => Returning distinct [] (own i k.trace)) (requeue batch) h
  | [], _, hb => by
    intro k hr _
    rw [show own i k.trace = _ from hr]
    exact hb
  | (key, delta) :: batch, h, hb => by
    unfold requeue
    split
    · rename_i hzero
      exact safe_requeue batch h (hzero ▸ hb).skipped
    intro k hr hinv _
    refine ⟨metering_keeps (hinv.bucketRequeued i key delta), ?_⟩
    refine safe_requeue batch _ ?_
    rw [did_trace, own_cons_self, show own i k.trace = _ from hr]
    exact hb.requeued

theorem safe_meterCall (call : MeterCall) {h : History} (hstart : own i h.trace = []) :
    metering.Safe i (fun _ k => Contributed call.adds call.counts (own i k.trace) ∧
      call.Settled (own i k.trace)) call.task h := by
  cases call with
  | add key delta => exact safe_add key delta hstart
  | drain keys keep order =>
    have hnone : Draining keys.Nodup keys [] (own i h.trace) := by
      rw [hstart]
      exact ⟨⟨fun _ => rfl, fun _ _ => rfl⟩, fun _ => rfl,
        fun hnodup => ⟨fun _ => rfl, hnodup, fun _ _ => List.not_mem_nil⟩⟩
    refine safe_drain _ keys [] h hnone fun batch k hd => ?_
    cases keep with
    | true =>
      intro k' hr _
      rw [show own i k'.trace = _ from hr]
      exact ⟨hd.adds, hd.keeps⟩
    | false =>
      have hback : Returning keys.Nodup (order.visit batch) (own i k.trace) := by
        refine ⟨hd.adds, fun hnodup key => ?_⟩
        rw [Batch.amount_perm (order.perm batch)]
        exact (hd.holds hnodup).1 key
      refine (safe_requeue _ k hback).mono fun _ k' _ hr => ⟨hr.adds, fun hnodup key => ?_⟩
      rw [hr.holds hnodup key]
      exact (add_zero _).symm

end Calls

/-- **Traffic is neither lost nor counted twice.**  At every point of every interleaving of
additions, drains and requeues, each bucket holds what was added to it less what was drained and
not put back, in all four fields; the total of a key id is what its buckets hold; and an aggregate
is the bytes of the additions counted for the user.  A call that has returned has put back what it
took, or nothing, as it was asked to.  Once every call has returned, these are all the additions that
were asked for. -/
theorem traffic_accounted (panel : Panel) (calls : List MeterCall) (sched : List ℕ) :
    let p := run Pool.step (Pool.start ⟨panel, {}⟩ (calls.map MeterCall.task)) sched
    let trace := p.hist.trace
    let counters := p.hist.state.usage
    (∀ key, tally (addedTo key) trace =
        counters.bucket key + (tally (drainedFrom key) trace - tally (requeuedTo key) trace)) ∧
      (∀ keyID, keyID ≠ "" → counters.keyTotal keyID = counters.keyHeld keyID) ∧
      (∀ userID, userID ≠ "" → counters.userBytes userID = tally (countedFor userID) trace) ∧
      (∀ (i : ℕ) (call : MeterCall), calls[i]? = some call → p.answers[i]? = some (some ()) →
        call.Settled (own i trace)) ∧
      (p.Finished → (∀ key, tally (addedTo key) trace = (calls.map (MeterCall.adds key)).sum) ∧
          ∀ userID, userID ≠ "" →
            tally (countedFor userID) trace = (calls.map (MeterCall.counts userID)).sum) := by
  intro p trace counters
  have hkept := Discipline.run_safe (.of_each_call (accounted_start panel)
    fun i call _ => safe_meterCall (i := i) call rfl)
    (Discipline.along_of_always (fun _ _ _ => trivial) (Pool.start _ (calls.map _)) sched)
  have hacc : Accounted p.hist := hkept.inv
  refine ⟨fun key => ?_, fun keyID hne => ?_, fun userID hne => ?_, fun i call hcall hret => ?_,
    fun hfin => ?_⟩
  · rw [← add_sub_assoc, eq_sub_iff_add_eq]
    exact hacc.buckets key
  · unfold Counters.keyTotal
    rw [if_neg hne]
    exact hacc.sound.keyTotal keyID hne
  · unfold Counters.userBytes
    rw [if_neg hne]
    exact hacc.users userID
  · exact (hkept.answer (Pool.getElem?_answers.mp hret) call hcall).2
  · have hlen : p.threads.length = calls.length := by
      rw [show p.threads.length = _ from Pool.length_run _ sched]
      exact List.length_map ..
    have hids : ∀ q ∈ p.hist.trace, q.1 < calls.length := hlen ▸ Pool.numbered_run _ _ sched
    have hdone : ∀ i call, calls[i]? = some call →
        Contributed call.adds call.counts (own i p.hist.trace) := by
      intro i call hcall
      obtain ⟨_, hans⟩ := hkept.answer_call hfin hcall
      exact hans.1
    exact ⟨fun key => tally_eq_sum_threads hids fun i call hcall => (hdone i call hcall).1 key,
      fun userID hne => tally_eq_sum_threads hids fun i call hcall =>
        (hdone i call hcall).2 userID hne⟩

end Prism
