import Prism.Foundation.Run

/-!
# Threads that share a state

A request of a server is a sequential program whose steps are atomic one by one and not together.
This file has such programs, the pool of threads that runs them in any order, and the one rule by
which a property of every interleaving is proved.

* `Prog` is the tree of a program: a step that acts on the shared state and goes on with what it
  read, a mutex taken, a mutex given back, or an answer.  `exec` runs it alone.
* `Pool.step p i` lets thread `i` take its next step, so a statement about `run Pool.step p sched`
  for every list `sched` is one about every interleaving.
* `Discipline` is what the threads hold each other to: an invariant of the history, a condition the
  steps of a run are taken under, and for every thread what it relies on the others for.
  `Discipline.Safe` says that a program keeps to it, and `Discipline.run_safe` that a pool of such
  programs does, along every schedule.

Every step leaves an event in the history, with the number of the thread that took it, so that what
a thread has read and not yet acted upon is part of the history.
-/

namespace Prism

open Function

/-! ## Programs -/

/-- A program over a shared state `σ`, leaving events `ε`, with mutexes `ι` and an answer `α`. -/
inductive Prog (σ ε ι α : Type) where
  | ret (a : α)
  /-- one atomic step; the rest of the program depends on the state the step found -/
  | act (event : σ → ε) (update : σ → σ) (next : σ → Prog σ ε ι α)
  | lock (l : ι) (next : Prog σ ε ι α)
  | unlock (l : ι) (next : Prog σ ε ι α)

namespace Prog

variable {σ ε ι α β γ : Type}

def bind : Prog σ ε ι α → (α → Prog σ ε ι β) → Prog σ ε ι β
  | ret a, f => f a
  | act event update next, f => act event update fun s => (next s).bind f
  | lock l next, f => lock l (next.bind f)
  | unlock l next, f => unlock l (next.bind f)

instance : Monad (Prog σ ε ι) where
  pure := ret
  bind := bind

@[simp] theorem pure_eq_ret (a : α) : (pure a : Prog σ ε ι α) = ret a := rfl

variable (p : Prog σ ε ι α) (f : α → Prog σ ε ι β)

@[simp] theorem bind_eq : (p >>= f) = p.bind f := rfl

@[simp] theorem ret_bind (a : α) (f : α → Prog σ ε ι β) : (ret a).bind f = f a := rfl

variable (event : σ → ε)

@[simp] theorem act_bind (update : σ → σ) (next : σ → Prog σ ε ι α) (f : α → Prog σ ε ι β) :
    (act event update next).bind f = act event update fun s => (next s).bind f := rfl

variable (l : ι) (next : Prog σ ε ι α)

@[simp] theorem lock_bind (f : α → Prog σ ε ι β) :
    (lock l next).bind f = lock l (next.bind f) := rfl

@[simp] theorem unlock_bind (f : α → Prog σ ε ι β) :
    (unlock l next).bind f = unlock l (next.bind f) := rfl

def read (event : ε) (f : σ → α) : Prog σ ε ι α :=
  act (fun _ => event) id fun s => ret (f s)

def step (event : σ → ε) (f : σ → α × σ) : Prog σ ε ι α :=
  act event (fun s => (f s).2) fun s => ret (f s).1

def modify (event : ε) (f : σ → σ) : Prog σ ε ι Unit :=
  act (fun _ => event) f fun _ => ret ()

/-- A section under a mutex, given back on every way out. -/
def locked (l : ι) (p : Prog σ ε ι α) : Prog σ ε ι α :=
  lock l (p.bind fun a => unlock l (ret a))

@[simp] theorem read_bind (event : ε) (f : σ → α) (g : α → Prog σ ε ι β) :
    (read event f : Prog σ ε ι α).bind g = act (fun _ => event) id fun s => g (f s) := rfl

@[simp] theorem step_bind (f : σ → α × σ) (g : α → Prog σ ε ι β) :
    (step event f : Prog σ ε ι α).bind g = act event (fun s => (f s).2) fun s => g (f s).1 := rfl

/-! ### Alone -/

/-- Run the program with nobody else about. -/
def exec : Prog σ ε ι α → σ → α × σ
  | ret a, s => (a, s)
  | act _ update next, s => (next s).exec (update s)
  | lock _ next, s => next.exec s
  | unlock _ next, s => next.exec s

@[simp] theorem exec_ret (a : α) (s : σ) : (ret a : Prog σ ε ι α).exec s = (a, s) := rfl

@[simp] theorem exec_act (update : σ → σ) (next : σ → Prog σ ε ι α) (s : σ) :
    (act event update next).exec s = (next s).exec (update s) := rfl

variable (s : σ)

@[simp] theorem exec_lock : (lock l next).exec s = next.exec s := rfl

@[simp] theorem exec_read (event : ε) (f : σ → α) (s : σ) :
    (read event f : Prog σ ε ι α).exec s = (f s, s) := rfl

@[simp] theorem exec_modify (event : ε) (f : σ → σ) (s : σ) :
    (modify event f : Prog σ ε ι Unit).exec s = ((), f s) := rfl

theorem exec_bind : (p.bind f).exec s = (f (p.exec s).1).exec (p.exec s).2 := by
  induction p generalizing s with
  | ret a => rfl
  | act event update next ih => exact ih s (update s)
  | lock _ _ ih | unlock _ _ ih => exact ih s

@[simp] theorem exec_locked (p : Prog σ ε ι α) (s : σ) : (locked l p).exec s = p.exec s := by
  unfold locked
  rw [exec_lock, exec_bind]
  rfl

def events : Prog σ ε ι α → σ → List ε
  | ret _, _ => []
  | act event update next, s => event s :: (next s).events (update s)
  | lock _ next, s => next.events s
  | unlock _ next, s => next.events s

theorem events_bind : (p.bind f).events s = p.events s ++ (f (p.exec s).1).events (p.exec s).2 := by
  induction p generalizing s with
  | ret a => rfl
  | act event update next ih => exact congrArg (event s :: ·) (ih s (update s))
  | lock _ _ ih | unlock _ _ ih => exact ih s

/-! ### What the steps of a program have in common -/

/-- Every step the program may take is one of `S`, told by the state before it, its event and the
state after it, and every answer is one of `A`.  It takes no mutex. -/
def Steps (S : σ → ε → σ → Prop) (A : α → Prop) : Prog σ ε ι α → Prop
  | ret a => A a
  | act event update next => ∀ s, S s (event s) (update s) ∧ (next s).Steps S A
  | lock _ _ => False
  | unlock _ _ => False

variable {S : σ → ε → σ → Prop} {p : Prog σ ε ι α} {A : α → Prop}

theorem Steps.bind {B : β → Prop} {f : α → Prog σ ε ι β} (hp : p.Steps S A)
    (hf : ∀ a, A a → (f a).Steps S B) : (p.bind f).Steps S B := by
  induction p with
  | ret a => exact hf a hp
  | act event update next ih => exact fun s => ⟨(hp s).1, ih s (hp s).2⟩
  | lock | unlock => exact hp.elim

theorem Steps.mono {T : σ → ε → σ → Prop} {B : α → Prop} (hp : p.Steps S A)
    (hS : ∀ s e s', S s e s' → T s e s') (hA : ∀ a, A a → B a) : p.Steps T B := by
  induction p with
  | ret a => exact hA a hp
  | act event update next ih => exact fun s => ⟨hS _ _ _ (hp s).1, ih s (hp s).2⟩
  | lock | unlock => exact hp.elim

/-- Every step the program may take is one of `S`, the mutexes aside. -/
def Acts (S : σ → ε → σ → Prop) : Prog σ ε ι α → Prop
  | ret _ => True
  | act event update next => ∀ s, S s (event s) (update s) ∧ (next s).Acts S
  | lock _ next => next.Acts S
  | unlock _ next => next.Acts S

theorem Acts.bind {f : α → Prog σ ε ι β} (hp : p.Acts S) (hf : ∀ a, (f a).Acts S) :
    (p.bind f).Acts S := by
  induction p with
  | ret a => exact hf a
  | act event update next ih => exact fun s => ⟨(hp s).1, ih s (hp s).2⟩
  | lock _ _ ih | unlock _ _ ih => exact ih hp

theorem Acts.locked (hp : p.Acts S) (l : ι) : (locked l p).Acts S :=
  hp.bind fun _ => trivial

theorem Acts.mono {T : σ → ε → σ → Prop} (hp : p.Acts S) (hS : ∀ s e s', S s e s' → T s e s') :
    p.Acts T := by
  induction p with
  | ret a => trivial
  | act event update next ih => exact fun s => ⟨hS _ _ _ (hp s).1, ih s (hp s).2⟩
  | lock _ _ ih | unlock _ _ ih => exact ih hp

theorem Steps.acts (hp : p.Steps S A) : p.Acts S := by
  induction p with
  | ret a => trivial
  | act event update next ih => exact fun s => ⟨(hp s).1, ih s (hp s).2⟩
  | lock | unlock => exact hp.elim

/-! ### A program over a part of the state -/

variable {τ : Type}

/-- The program over a larger state that has the part in it. -/
def zoom (get : τ → σ) (set : σ → τ → τ) : Prog σ ε ι α → Prog τ ε ι α
  | ret a => ret a
  | act event update next =>
    act (fun t => event (get t)) (fun t => set (update (get t)) t)
      fun t => (next (get t)).zoom get set
  | lock l next => lock l (next.zoom get set)
  | unlock l next => unlock l (next.zoom get set)

theorem zoom_bind (get : τ → σ) (set : σ → τ → τ) (p : Prog σ ε ι α) (f : α → Prog σ ε ι β) :
    (p.bind f).zoom get set = (p.zoom get set).bind fun a => (f a).zoom get set := by
  induction p with
  | ret a => rfl
  | act event update next ih =>
    simp only [act_bind, zoom]
    congr 1
    funext t
    exact ih (get t)
  | lock l next ih => simp only [lock_bind, zoom, ih]
  | unlock l next ih => simp only [unlock_bind, zoom, ih]

theorem zoom_locked (get : τ → σ) (set : σ → τ → τ) (l : ι) (p : Prog σ ε ι α) :
    (locked l p).zoom get set = locked l (p.zoom get set) := by
  simp only [locked, zoom, zoom_bind]

theorem Steps.zoom {T : τ → ε → τ → Prop} {get : τ → σ} {set : σ → τ → τ} (hp : p.Steps S A)
    (hST : ∀ t e s, S (get t) e s → T t e (set s t)) : (p.zoom get set).Steps T A := by
  induction p with
  | ret a => exact hp
  | act event update next ih =>
    exact fun t => ⟨hST _ _ _ (hp (get t)).1, ih (get t) (hp (get t)).2⟩
  | lock | unlock => exact hp.elim

theorem Acts.zoom {T : τ → ε → τ → Prop} {get : τ → σ} {set : σ → τ → τ} (hp : p.Acts S)
    (hST : ∀ t e s, S (get t) e s → T t e (set s t)) : (p.zoom get set).Acts T := by
  induction p with
  | ret a => trivial
  | act event update next ih =>
    exact fun t => ⟨hST _ _ _ (hp (get t)).1, ih (get t) (hp (get t)).2⟩
  | lock _ _ ih | unlock _ _ ih => exact ih hp

end Prog

/-! ## Histories and pools -/

/-- The shared state, the events so far with the newest first, and who holds which mutex. -/
structure Hist (σ ε ι : Type) where
  state : σ
  trace : List (ℕ × ε) := []
  holder : ι → Option ℕ := fun _ => none

namespace Hist

variable {σ ε ι : Type} {h : Hist σ ε ι}

/-- A lock has one holder. -/
theorem holder_unique {i j : ℕ} {l : ι} (hi : h.holder l = some i) (hj : h.holder l = some j) :
    j = i :=
  Option.some.inj (hj.symm.trans hi)

variable (h)

def did (i : ℕ) (e : ε) (s : σ) : Hist σ ε ι :=
  { h with state := s, trace := (i, e) :: h.trace }

@[simp] theorem did_state (i : ℕ) (e : ε) (s : σ) : (h.did i e s).state = s := rfl

@[simp] theorem did_trace (i : ℕ) (e : ε) (s : σ) : (h.did i e s).trace = (i, e) :: h.trace := rfl

@[simp] theorem did_holder (i : ℕ) (e : ε) (s : σ) : (h.did i e s).holder = h.holder := rfl

variable [DecidableEq ι]

def acquire (i : ℕ) (l : ι) : Hist σ ε ι :=
  { h with holder := update h.holder l (some i) }

def release (l : ι) : Hist σ ε ι :=
  { h with holder := update h.holder l none }

@[simp] theorem acquire_trace (i : ℕ) (l : ι) : (h.acquire i l).trace = h.trace := rfl

@[simp] theorem acquire_holder_self (i : ℕ) (l : ι) :
    (h.acquire i l).holder l = some i := update_self ..

@[simp] theorem release_holder_self (l : ι) : (h.release l).holder l = none := update_self ..

end Hist

/-- Threads, numbered by their place in the list, over one history. -/
structure Pool (σ ε ι α : Type) where
  hist : Hist σ ε ι
  threads : List (Prog σ ε ι α)

namespace Pool

variable {σ ε ι α : Type} [DecidableEq ι]

/-- The next step of one thread, if it has one and is not waiting for a mutex. -/
def advance (i : ℕ) (h : Hist σ ε ι) : Prog σ ε ι α → Option (Hist σ ε ι × Prog σ ε ι α)
  | .ret _ => none
  | .act event update next => some (h.did i (event h.state) (update h.state), next h.state)
  | .lock l next => if h.holder l = none then some (h.acquire i l, next) else none
  | .unlock l next => some (h.release l, next)

variable (p : Pool σ ε ι α)

/-- Thread `i` takes its next step; a thread that has none leaves the pool as it is. -/
def step (i : ℕ) : Pool σ ε ι α :=
  match p.threads[i]? with
  | none => p
  | some prog =>
    match advance i p.hist prog with
    | none => p
    | some (h, prog') => ⟨h, p.threads.set i prog'⟩

/-- The step thread `i` is about to take meets the condition. -/
def Meets (may : Hist σ ε ι → ℕ → ε → Prop) (p : Pool σ ε ι α) (i : ℕ) : Prop :=
  match p.threads[i]? with
  | some (.act event _ _) => may p.hist i (event p.hist.state)
  | _ => True

instance (may : Hist σ ε ι → ℕ → ε → Prop) [∀ h i e, Decidable (may h i e)]
    (p : Pool σ ε ι α) (i : ℕ) : Decidable (Meets may p i) := by
  unfold Meets
  split <;> infer_instance

instance (prog : Prog σ ε ι α) : Decidable (∃ a, prog = .ret a) :=
  match prog with
  | .ret a => isTrue ⟨a, rfl⟩
  | .act .. | .lock .. | .unlock .. => isFalse (by simp)

def Finished : Prop :=
  ∀ prog ∈ p.threads, ∃ a, prog = .ret a
  deriving Decidable

/-- The threads start together on a state, with no mutex held. -/
def start (s : σ) (threads : List (Prog σ ε ι α)) : Pool σ ε ι α :=
  ⟨{ state := s }, threads⟩

def answers : List (Option α) :=
  p.threads.map fun
    | .ret a => some a
    | _ => none

variable {p : Pool σ ε ι α} {i : ℕ}

omit [DecidableEq ι] in
theorem getElem?_answers {a : α} :
    p.answers[i]? = some (some a) ↔ p.threads[i]? = some (.ret a) := by
  unfold answers
  rw [List.getElem?_map]
  constructor
  · intro h
    obtain ⟨prog, hprog, ha⟩ := Option.map_eq_some_iff.mp h
    cases prog with
    | ret b => rw [hprog, Option.some.inj ha]
    | act | lock | unlock => cases ha
  · intro h
    rw [h]
    rfl

theorem advance_lock {h h' : Hist σ ε ι} {l : ι} {next prog' : Prog σ ε ι α}
    (ha : advance i h (.lock l next) = some (h', prog')) :
    h.holder l = none ∧ h' = h.acquire i l ∧ prog' = next := by
  by_cases hfree : h.holder l = none
  · rw [advance, if_pos hfree] at ha
    obtain ⟨hh, hp⟩ := Prod.mk.inj (Option.some.inj ha)
    exact ⟨hfree, hh.symm, hp.symm⟩
  · rw [advance, if_neg hfree] at ha
    cases ha

theorem step_none (h : p.threads[i]? = none) : p.step i = p := by
  unfold step
  rw [h]

theorem step_waiting {prog : Prog σ ε ι α} (h : p.threads[i]? = some prog)
    (ha : advance i p.hist prog = none) : p.step i = p := by
  unfold step
  rw [h]
  simp only [ha]

theorem step_of_advance {prog prog' : Prog σ ε ι α} {h' : Hist σ ε ι}
    (h : p.threads[i]? = some prog) (ha : advance i p.hist prog = some (h', prog')) :
    p.step i = ⟨h', p.threads.set i prog'⟩ := by
  unfold step
  rw [h]
  simp only [ha]

omit [DecidableEq ι] in
theorem meets_act {may : Hist σ ε ι → ℕ → ε → Prop} {event : σ → ε} {update : σ → σ}
    {next : σ → Prog σ ε ι α} (h : p.threads[i]? = some (.act event update next))
    (hm : p.Meets may i) : may p.hist i (event p.hist.state) := by
  unfold Meets at hm
  rw [h] at hm
  exact hm

theorem length_step (p : Pool σ ε ι α) (i : ℕ) : (p.step i).threads.length = p.threads.length := by
  unfold step
  split
  · rfl
  · split
    · rfl
    · exact List.length_set

theorem length_run (p : Pool σ ε ι α) (sched : List ℕ) :
    (run step p sched).threads.length = p.threads.length := by
  induction sched generalizing p with
  | nil => rfl
  | cons i sched ih => rw [run_cons, ih, length_step]

def Numbered (p : Pool σ ε ι α) : Prop := ∀ q ∈ p.hist.trace, q.1 < p.threads.length

theorem Numbered.step (hp : p.Numbered) (i : ℕ) : (p.step i).Numbered := by
  cases hi : p.threads[i]? with
  | none => rwa [step_none hi]
  | some prog =>
    cases ha : advance i p.hist prog with
    | none => rwa [step_waiting hi ha]
    | some r =>
      obtain ⟨h', prog'⟩ := r
      have hlt : i < p.threads.length := (List.getElem?_eq_some_iff.mp hi).1
      have htrace : ∀ q ∈ h'.trace, q ∈ p.hist.trace ∨ q.1 = i := by
        intro q hq
        cases prog with
        | ret a => cases ha
        | act event update next =>
          cases ha
          rcases List.mem_cons.mp hq with rfl | hq
          · exact .inr rfl
          · exact .inl hq
        | lock l next =>
          obtain ⟨-, rfl, rfl⟩ := advance_lock ha
          exact .inl hq
        | unlock l next =>
          cases ha
          exact .inl hq
      rw [step_of_advance hi ha]
      intro q hq
      rw [List.length_set]
      rcases htrace q hq with hq | hq
      · exact hp q hq
      · exact hq ▸ hlt

theorem numbered_run (s : σ) (threads : List (Prog σ ε ι α)) (sched : List ℕ) :
    (run Pool.step (start s threads) sched).Numbered := by
  have hstep : ∀ (p : Pool σ ε ι α) (i : ℕ), p.Numbered → (p.step i).Numbered :=
    fun _ i hp => hp.step i
  exact run_invariant hstep (fun _ hq => absurd hq (by simp [start])) sched

omit [DecidableEq ι] in
theorem Finished.answer (hf : p.Finished) (hi : i < p.threads.length) :
    ∃ a, p.threads[i]? = some (.ret a) := by
  obtain ⟨a, ha⟩ := hf _ (List.getElem_mem hi)
  exact ⟨a, by rw [List.getElem?_eq_getElem hi, ha]⟩

end Pool

/-- What the threads of a pool keep to. -/
structure Discipline (σ ε ι : Type) where
  /-- holds of the history after every step -/
  inv : Hist σ ε ι → Prop
  /-- the condition a step is taken under, by thread and event, in the history before it -/
  may : Hist σ ε ι → ℕ → ε → Prop
  /-- what the thread may count on while the others take their steps -/
  rely : ℕ → Hist σ ε ι → Hist σ ε ι → Prop
  rely_refl : ∀ i h, rely i h h
  rely_trans : ∀ {i h₁ h₂ h₃}, rely i h₁ h₂ → rely i h₂ h₃ → rely i h₁ h₃

namespace Discipline

variable {σ ε ι α β : Type} [DecidableEq ι] (D : Discipline σ ε ι)

/-- A step of thread `i` from `h` to `h'` keeps the invariant, and what the others rely on. -/
structure Keeps (i : ℕ) (h h' : Hist σ ε ι) : Prop where
  inv : D.inv h'
  others : ∀ j, j ≠ i → D.rely j h h'

/-- Thread `i` keeps to the discipline from `h` on, and answers as `Q` says: whatever the others
have done by the time it takes its next step. -/
def Safe (i : ℕ) (Q : α → Hist σ ε ι → Prop) : Prog σ ε ι α → Hist σ ε ι → Prop
  | .ret a, h => ∀ h', D.rely i h h' → D.inv h' → Q a h'
  | .act event update next, h =>
    ∀ h', D.rely i h h' → D.inv h' → D.may h' i (event h'.state) →
      D.Keeps i h' (h'.did i (event h'.state) (update h'.state)) ∧
        Safe i Q (next h'.state) (h'.did i (event h'.state) (update h'.state))
  | .lock l next, h =>
    ∀ h', D.rely i h h' → D.inv h' → h'.holder l = none →
      D.Keeps i h' (h'.acquire i l) ∧ Safe i Q next (h'.acquire i l)
  | .unlock l next, h =>
    ∀ h', D.rely i h h' → D.inv h' →
      D.Keeps i h' (h'.release l) ∧ Safe i Q next (h'.release l)

/-- Thread `i` keeps to the discipline, whatever it answers. -/
abbrev Tame (i : ℕ) (prog : Prog σ ε ι α) (h : Hist σ ε ι) : Prop := D.Safe i (fun _ _ => True) prog h

variable {D} {i : ℕ} {Q : α → Hist σ ε ι → Prop} {h h' : Hist σ ε ι} {prog : Prog σ ε ι α}

theorem Safe.done {a : α} : D.Tame i (.ret a) h :=
  fun _ _ _ => trivial

theorem Safe.of_rely (hs : D.Safe i Q prog h) (hr : D.rely i h h') : D.Safe i Q prog h' := by
  cases prog with
  | ret | act | lock | unlock => exact fun k hk => hs k (D.rely_trans hr hk)

theorem Safe.of_forall_rely (hs : ∀ k, D.rely i h k → D.inv k → D.Safe i Q prog k) :
    D.Safe i Q prog h := by
  cases prog with
  | ret | act | lock | unlock => exact fun k hr hi => hs k hr hi k (D.rely_refl i k) hi

variable {p : Prog σ ε ι α}

/-- **Programs in sequence**: the second half starts where the first one answers. -/
theorem Safe.bind {Q : β → Hist σ ε ι → Prop} {f : α → Prog σ ε ι β}
    (hs : D.Safe i (fun a k => D.Safe i Q (f a) k) p h) : D.Safe i Q (p.bind f) h := by
  induction p generalizing h with
  | ret a => exact Safe.of_forall_rely hs
  | act event update next ih =>
    intro k hr hi hm
    obtain ⟨hkeep, hrest⟩ := hs k hr hi hm
    exact ⟨hkeep, ih k.state hrest⟩
  | lock l next ih =>
    intro k hr hi hfree
    obtain ⟨hkeep, hrest⟩ := hs k hr hi hfree
    exact ⟨hkeep, ih hrest⟩
  | unlock l next ih =>
    intro k hr hi
    obtain ⟨hkeep, hrest⟩ := hs k hr hi
    exact ⟨hkeep, ih hrest⟩

variable {P : Hist σ ε ι → Prop}

/-- What no step can undo is kept along a program, and helps to say what its answer means. -/
theorem Safe.carry {Q' : α → Hist σ ε ι → Prop} (hdid : ∀ k e s, P k → P (k.did i e s))
    (hlock : ∀ k l, P k → P (k.acquire i l)) (hunlock : ∀ k l, P k → P (k.release l))
    (hrely : ∀ k m, D.rely i k m → P k → P m)
    (hret : ∀ a k, (∀ m, D.rely i k m → D.inv m → Q a m) → D.inv k → P k → Q' a k)
    (hs : D.Safe i Q p h) (hp : P h) : D.Safe i Q' p h := by
  induction p generalizing h with
  | ret a =>
    exact fun k hr hi =>
      hret a k (fun m hm => hs m (D.rely_trans hr hm)) hi (hrely h k hr hp)
  | act event update next ih =>
    intro k hr hi hm
    exact ⟨(hs k hr hi hm).1, ih k.state (hs k hr hi hm).2 (hdid k _ _ (hrely h k hr hp))⟩
  | lock l next ih =>
    intro k hr hi hfree
    exact ⟨(hs k hr hi hfree).1, ih (hs k hr hi hfree).2 (hlock k l (hrely h k hr hp))⟩
  | unlock l next ih =>
    intro k hr hi
    exact ⟨(hs k hr hi).1, ih (hs k hr hi).2 (hunlock k l (hrely h k hr hp))⟩

theorem Safe.frame (hdid : ∀ k e s, P k → P (k.did i e s)) (hlock : ∀ k l, P k → P (k.acquire i l))
    (hunlock : ∀ k l, P k → P (k.release l)) (hrely : ∀ k m, D.rely i k m → P k → P m)
    (hs : D.Safe i Q p h) (hp : P h) : D.Safe i (fun a k => Q a k ∧ P k) p h :=
  hs.carry hdid hlock hunlock hrely (fun _ k hq hi hk => ⟨hq k (D.rely_refl i k) hi, hk⟩) hp

/-- What a program answers with, it still answers with after others have taken steps. -/
theorem Safe.stable (hs : D.Safe i Q p h) :
    D.Safe i (fun a k => ∀ m, D.rely i k m → D.inv m → Q a m) p h :=
  hs.carry (P := fun _ => True) (fun _ _ _ h => h) (fun _ _ h => h) (fun _ _ h => h)
    (fun _ _ _ h => h) (fun _ _ hq _ _ => hq) trivial

theorem Safe.mono {Q' : α → Hist σ ε ι → Prop} (hQ : ∀ a k, D.inv k → Q a k → Q' a k)
    (hs : D.Safe i Q p h) : D.Safe i Q' p h :=
  hs.carry (P := fun _ => True) (fun _ _ _ h => h) (fun _ _ h => h) (fun _ _ h => h)
    (fun _ _ _ h => h) (fun a k hq hi _ => hQ a k hi (hq k (D.rely_refl i k) hi)) trivial

/-- **One program after another**: what the first ends with is where the second starts. -/
theorem Safe.seq {Q' : β → Hist σ ε ι → Prop} {f : α → Prog σ ε ι β} (hs : D.Safe i Q p h)
    (hnext : ∀ a k, Q a k → D.Safe i Q' (f a) k) : D.Safe i Q' (p.bind f) h :=
  .bind (hs.mono fun a k _ => hnext a k)

theorem Safe.of_keeps (hdid : ∀ k e s, D.inv k → D.Keeps i k (k.did i e s))
    (hlock : ∀ k l, D.inv k → D.Keeps i k (k.acquire i l))
    (hunlock : ∀ k l, D.inv k → D.Keeps i k (k.release l)) (prog : Prog σ ε ι α)
    (h : Hist σ ε ι) : D.Tame i prog h := by
  induction prog generalizing h with
  | ret a => exact .done
  | act event update next ih => exact fun k _ hi _ => ⟨hdid k _ _ hi, ih k.state _⟩
  | lock l next ih => exact fun k _ hi _ => ⟨hlock k l hi, ih _⟩
  | unlock l next ih => exact fun k _ hi => ⟨hunlock k l hi, ih _⟩

theorem Safe.of_steps {S : σ → ε → σ → Prop} {A : α → Prop} (hkeep : ∀ k e s, D.inv k → D.may k i e
      → P k → S k.state e s → D.Keeps i k (k.did i e s) ∧ P (k.did i e s))
    (hrely : ∀ k m, D.rely i k m → D.inv m → P k → P m) (hsteps : prog.Steps S A) (hp : P h) :
    D.Safe i (fun a k => A a ∧ P k) prog h := by
  induction prog generalizing h with
  | ret a => exact fun k hr hi => ⟨hsteps, hrely h k hr hi hp⟩
  | act event update next ih =>
    intro k hr hi hm
    obtain ⟨hstep, hrest⟩ := hsteps k.state
    obtain ⟨hkept, hp'⟩ := hkeep k _ _ hi hm (hrely h k hr hi hp) hstep
    exact ⟨hkept, ih k.state hrest hp'⟩
  | lock | unlock => exact hsteps.elim

theorem Safe.of_acts {S : σ → ε → σ → Prop} (hdid : ∀ k e s, D.inv k → D.may k i e → P k → S k.state
      e s → D.Keeps i k (k.did i e s) ∧ P (k.did i e s))
    (hlock : ∀ k l, D.inv k → P k → D.Keeps i k (k.acquire i l) ∧ P (k.acquire i l))
    (hunlock : ∀ k l, D.inv k → P k → D.Keeps i k (k.release l) ∧ P (k.release l))
    (hrely : ∀ k m, D.rely i k m → D.inv m → P k → P m) (hacts : prog.Acts S) (hp : P h) :
    D.Safe i (fun _ => P) prog h := by
  induction prog generalizing h with
  | ret a => exact fun k hr hi => hrely h k hr hi hp
  | act event update next ih =>
    intro k hr hi hm
    obtain ⟨hstep, hrest⟩ := hacts k.state
    obtain ⟨hkept, hp'⟩ := hdid k _ _ hi hm (hrely h k hr hi hp) hstep
    exact ⟨hkept, ih k.state hrest hp'⟩
  | lock l next ih =>
    intro k hr hi _
    obtain ⟨hkept, hp'⟩ := hlock k l hi (hrely h k hr hi hp)
    exact ⟨hkept, ih hacts hp'⟩
  | unlock l next ih =>
    intro k hr hi
    obtain ⟨hkept, hp'⟩ := hunlock k l hi (hrely h k hr hi hp)
    exact ⟨hkept, ih hacts hp'⟩

/-- **A section under a mutex**: it starts when the mutex is taken, and what it ends with must allow
the mutex to be given back. -/
theorem Safe.locked {l : ι} (hs : ∀ k, D.rely i h k → D.inv k → k.holder l = none → D.Keeps i k
      (k.acquire i l) ∧ D.Safe i (fun a m => D.Keeps i m (m.release l) ∧ ∀ m', D.rely i (m.release
      l) m' → D.inv m' → Q a m') p (k.acquire i l)) : D.Safe i Q (Prog.locked l p) h := by
  intro k hr hi hfree
  obtain ⟨hkeep, hbody⟩ := hs k hr hi hfree
  refine ⟨hkeep, Safe.bind (hbody.stable.mono fun a m _ hend => ?_)⟩
  intro m' hr' hi'
  exact hend m' hr' hi'

/-! ## Pools that keep to a discipline -/

/-- The invariant holds and every thread is safe, with its own demand on its answer. -/
structure Kept (D : Discipline σ ε ι) (Q : ℕ → α → Hist σ ε ι → Prop) (p : Pool σ ε ι α) :
    Prop where
  inv : D.inv p.hist
  safe : ∀ i prog, p.threads[i]? = some prog → D.Safe i (Q i) prog p.hist

variable {Q : ℕ → α → Hist σ ε ι → Prop} {p : Pool σ ε ι α}

/-- What a safe thread does in its next step. -/
theorem Safe.advance {Q : α → Hist σ ε ι → Prop} {prog' : Prog σ ε ι α} (hs : D.Safe i Q prog h)
    (hi : D.inv h) (ha : Pool.advance i h prog = some (h', prog'))
    (hm : ∀ event update next, prog = .act event update next → D.may h i (event h.state)) :
    D.Keeps i h h' ∧ D.Safe i Q prog' h' := by
  cases prog with
  | ret a => cases ha
  | act event update next =>
    cases ha
    exact hs h (D.rely_refl i h) hi (hm event update next rfl)
  | lock l next =>
    obtain ⟨hfree, rfl, rfl⟩ := Pool.advance_lock ha
    exact hs h (D.rely_refl i h) hi hfree
  | unlock l next =>
    cases ha
    exact hs h (D.rely_refl i h) hi

theorem Kept.step (hk : Kept D Q p) (hm : p.Meets D.may i) : Kept D Q (p.step i) := by
  cases hi : p.threads[i]? with
  | none =>
    rw [Pool.step_none hi]
    exact hk
  | some prog =>
    cases ha : Pool.advance i p.hist prog with
    | none =>
      rw [Pool.step_waiting hi ha]
      exact hk
    | some r =>
      obtain ⟨h', prog'⟩ := r
      rw [Pool.step_of_advance hi ha]
      obtain ⟨hkeep, hrest⟩ := (hk.safe i prog hi).advance hk.inv ha
        fun event update next heq => Pool.meets_act (heq ▸ hi) hm
      refine ⟨hkeep.inv, fun j other hj => ?_⟩
      rw [List.getElem?_set] at hj
      by_cases hij : i = j
      · subst hij
        rw [if_pos rfl] at hj
        split at hj
        · rw [← Option.some.inj hj]
          exact hrest
        · cases hj
      · rw [if_neg hij] at hj
        exact (hk.safe j other hj).of_rely (hkeep.others j (Ne.symm hij))

/-- **Every interleaving keeps to the discipline**: what each program keeps, step by step and
whatever the others do, a pool of them keeps along every schedule whose steps meet the
condition. -/
theorem run_safe (hk : Kept D Q p) {sched : List ℕ}
    (hm : Along Pool.step (Pool.Meets D.may) p sched) : Kept D Q (run Pool.step p sched) := by
  have hstep : ∀ (p : Pool σ ε ι α) i, p.Meets D.may i → Kept D Q p → Kept D Q (p.step i) :=
    fun _ _ hmeet hkept => hkept.step hmeet
  exact Along.invariant hstep hm hk

theorem Kept.answer (hk : Kept D Q p) {a : α} (hi : p.threads[i]? = some (.ret a)) : Q i a p.hist :=
  hk.safe i _ hi p.hist (D.rely_refl i _) hk.inv

section Calls

variable {γ : Type*} {task : γ → Prog σ ε ι α} {calls : List γ} {s : σ}

theorem Kept.of_calls (hinv : D.inv { state := s }) (hsafe : ∀ i call, calls[i]? = some call →
      D.Safe i (Q i) (task call) { state := s }) : Kept D Q (Pool.start s (calls.map task)) := by
  refine ⟨hinv, fun i prog hprog => ?_⟩
  have hmap : (calls.map task)[i]? = some prog := hprog
  rw [List.getElem?_map] at hmap
  obtain ⟨call, hcall, rfl⟩ := Option.map_eq_some_iff.mp hmap
  exact hsafe i call hcall

theorem Kept.of_each_call {R : γ → ℕ → α → Hist σ ε ι → Prop} (hinv : D.inv { state := s })
    (hsafe : ∀ i call, calls[i]? = some call → D.Safe i (R call i) (task call) { state := s }) :
    Kept D (fun i a h => ∀ call, calls[i]? = some call → R call i a h)
      (Pool.start s (calls.map task)) := by
  refine .of_calls hinv fun i call hcall => (hsafe i call hcall).mono fun a k _ hk other hother => ?_
  rw [hcall] at hother
  exact Option.some.inj hother ▸ hk

theorem Kept.answer_call {R : γ → ℕ → α → Hist σ ε ι → Prop} {sched : List ℕ} {call : γ}
    (hk : Kept D (fun i a h => ∀ call, calls[i]? = some call → R call i a h)
      (run Pool.step (Pool.start s (calls.map task)) sched))
    (hfin : (run Pool.step (Pool.start s (calls.map task)) sched).Finished)
    (hcall : calls[i]? = some call) :
    ∃ a, R call i a (run Pool.step (Pool.start s (calls.map task)) sched).hist := by
  have hlt : i < (run Pool.step (Pool.start s (calls.map task)) sched).threads.length := by
    rw [Pool.length_run]
    simpa [Pool.start] using (List.getElem?_eq_some_iff.mp hcall).1
  obtain ⟨a, ha⟩ := hfin.answer hlt
  exact ⟨a, hk.answer ha call hcall⟩

end Calls

theorem along_of_always (hmay : ∀ h i e, D.may h i e) (p : Pool σ ε ι α) (sched : List ℕ) :
    Along Pool.step (Pool.Meets D.may) p sched := by
  induction sched generalizing p with
  | nil => trivial
  | cons i sched ih =>
    refine ⟨?_, ih _⟩
    unfold Pool.Meets
    split
    · exact hmay ..
    · trivial

end Discipline

end Prism
