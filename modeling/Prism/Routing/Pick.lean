import Prism.Routing.Lease

/-!
# Picking a node

`internal/routing/random.go` and `selectLiveRandomRoute` of `router.go`.  Two candidates are drawn
from the view of the platform and the one with the lower score is taken.  If an address is to be
avoided, each draw leaves out the nodes that come out there; only if there is nothing left the draws
go over the whole view, and the pick says so.

The random numbers are a stream, and which of two candidates has the lower score is a parameter:
latencies and loads have no part in what is proved here.  What is drawn is described by
`Draws`: every draw is one of a set of nodes, and a draw fails if and only if the set is empty.
-/

namespace Prism

abbrev Dice := ℕ → ℕ

def Dice.rest (d : Dice) : Dice := fun n => d (n + 1)

abbrev Draw := Dice → Option Hash × Dice

/-- The nodes of a platform: the egress address of every node in the pool, and the hashes of the
view, in the order `Range` hands them out. -/
structure PlatformNodes where
  entry : Hash → Option Addr
  view : List Hash

structure PickSight extends PlatformNodes where
  /-- the first of two candidates has the lower score -/
  prefersFirst : IPLoadStats → Hash → Hash → Bool
  chooseSameIPRotationCandidate : Addr → Option Hash

/-- `RoutableView.RandomPick`. -/
def randomPick (view : List Hash) : Draw := fun d =>
  if view = [] then (none, d) else (view[d 0 % view.length]?, d.rest)

/-- The walk of `randomPickExcludingEgressIP` over the view: the candidates seen so far, and the one
chosen among them. -/
def reservoir (excluded : Hash → Bool) : List Hash → ℕ → Hash → Draw
  | [], seen, chosen => fun d => (if 0 < seen then some chosen else none, d)
  | h :: view, seen, chosen => fun d =>
    if excluded h then reservoir excluded view seen chosen d
    else
      reservoir excluded view (seen + 1) (if d 0 % (seen + 1) = 0 then h else chosen) d.rest

variable (sight : PickSight)

def randomPickExcludingEgressIP (avoidIP : Addr) : Draw :=
  reservoir (fun h => sight.entry h = some avoidIP) sight.view 0 0

/-- Up to so many further draws for a candidate other than the first one. -/
def redraw (pick : Draw) (h₁ : Hash) : ℕ → Dice → Hash
  | 0, _ => h₁
  | n + 1, d =>
    match (pick d).1 with
    | none => h₁
    | some candidate => if candidate ≠ h₁ then candidate else redraw pick h₁ n (pick d).2

variable (stats : IPLoadStats)

def pickSecond (pick : Draw) (h₁ : Hash) (d : Dice) : Hash :=
  if sight.view.length = 1 then h₁
  else
    match (pick d).1 with
    | none => h₁
    | some drawn =>
      let h₂ := if drawn = h₁ then redraw pick h₁ 3 (pick d).2 else drawn
      if h₂ = h₁ then h₁ else if sight.prefersFirst stats h₁ h₂ then h₁ else h₂

/-- The node, and whether the address could not be avoided. -/
def randomRouteAvoiding (avoidIP : Addr) (d : Dice) : Except RouteError (Hash × Bool) :=
  let pickAny := randomPick sight.view
  let pick := if avoidIP.isSome then randomPickExcludingEgressIP sight avoidIP else pickAny
  if sight.view = [] then .error .noAvailableNodes
  else
    match (pick d).1 with
    | some h₁ => .ok (pickSecond sight stats pick h₁ (pick d).2, false)
    | none =>
      if avoidIP.isSome then
        match (pickAny (pick d).2).1 with
        | some h₁ => .ok (pickSecond sight stats pickAny h₁ (pickAny (pick d).2).2, true)
        | none => .error .noAvailableNodes
      else .error .noAvailableNodes

/-- The loop of `selectLiveRandomRoute`: a node that has left the pool is drawn again, with other
numbers. -/
def selectLive (sight : PickSight) (stats : IPLoadStats) (avoidIP : Addr) :
    List Dice → Bool → Except RouteError (Hash × Addr × Bool)
  | [], _ => .error .noAvailableNodes
  | d :: attempts, fallbackSameIP =>
    match randomRouteAvoiding sight stats avoidIP d with
    | .error err => .error err
    | .ok (h, fallback) =>
      match sight.entry h with
      | some ip => .ok (h, ip, fallbackSameIP || fallback)
      | none => selectLive sight stats avoidIP attempts (fallbackSameIP || fallback)

def selectLiveRandomRoute (avoidIP : Addr)
    (first retry : Dice) : Except RouteError (Hash × Addr × Bool) :=
  selectLive sight stats avoidIP [first, retry] false

def PickSight.route (first retry : Dice) : RouteSight where
  entry := sight.entry
  view h := h ∈ sight.view
  chooseSameIPRotationCandidate := sight.chooseSameIPRotationCandidate
  selectLiveRandomRoute stats avoidIP := selectLiveRandomRoute sight stats avoidIP first retry

/-- A draw is one of these nodes, and there is one unless there are none. -/
structure Draws (pick : Draw) (nodes : Hash → Prop) : Prop where
  mem : ∀ d h, (pick d).1 = some h → nodes h
  some_of : ∀ d h, nodes h → (pick d).1.isSome

theorem draws_randomPick (view : List Hash) : Draws (randomPick view) (· ∈ view) where
  mem := by
    intro d h hdraw
    unfold randomPick at hdraw
    split_ifs at hdraw
    exact List.mem_of_getElem? hdraw
  some_of := by
    intro d h hmem
    unfold randomPick
    rw [if_neg (List.ne_nil_of_mem hmem)]
    have hlt : d 0 % view.length < view.length := Nat.mod_lt _ (List.length_pos_of_mem hmem)
    rw [List.getElem?_eq_getElem hlt]
    rfl

theorem reservoir_cases (excluded : Hash → Bool) (view : List Hash) (seen : ℕ) (chosen : Hash)
    (d : Dice) :
    (∃ h, (reservoir excluded view seen chosen d).1 = some h ∧
      ((0 < seen ∧ h = chosen) ∨ (h ∈ view ∧ excluded h = false))) ∨
    ((reservoir excluded view seen chosen d).1 = none ∧ seen = 0 ∧
      ∀ h ∈ view, excluded h = true) := by
  induction view generalizing seen chosen d with
  | nil =>
    by_cases hseen : 0 < seen
    · exact .inl ⟨chosen, if_pos hseen, .inl ⟨hseen, rfl⟩⟩
    · exact .inr ⟨if_neg hseen, by omega, by simp⟩
  | cons h view ih =>
    unfold reservoir
    by_cases hex : excluded h = true
    · rw [if_pos hex]
      rcases ih seen chosen d with ⟨h', hres, hcase⟩ | ⟨hres, hseen, hall⟩
      · refine .inl ⟨h', hres, hcase.imp_right fun hmem => ⟨?_, hmem.2⟩⟩
        exact List.mem_cons_of_mem h hmem.1
      · refine .inr ⟨hres, hseen, fun h' hmem => ?_⟩
        rcases List.mem_cons.mp hmem with rfl | hmem
        · exact hex
        · exact hall h' hmem
    · rw [if_neg hex]
      have hkept : excluded h = false := Bool.eq_false_iff.mpr hex
      rcases ih (seen + 1) (if d 0 % (seen + 1) = 0 then h else chosen) d.rest with
        ⟨h', hres, hcase⟩ | ⟨-, hseen, -⟩
      · refine .inl ⟨h', hres, ?_⟩
        rcases hcase with ⟨-, rfl⟩ | hmem
        · by_cases hnew : d 0 % (seen + 1) = 0
          · rw [if_pos hnew]
            exact .inr ⟨.head _, hkept⟩
          rw [if_neg hnew]
          -- the first candidate is always chosen, since any number is zero modulo one
          have hpos : 0 < seen := by
            rcases Nat.eq_zero_or_pos seen with rfl | hpos
            · exact absurd (Nat.mod_one _) hnew
            · exact hpos
          exact .inl ⟨hpos, rfl⟩
        · exact .inr ⟨List.mem_cons_of_mem h hmem.1, hmem.2⟩
      · omega

theorem draws_randomPickExcludingEgressIP (avoidIP : Addr) :
    Draws (randomPickExcludingEgressIP sight avoidIP)
      fun h => h ∈ sight.view ∧ sight.entry h ≠ some avoidIP where
  mem := by
    intro d h hdraw
    rcases reservoir_cases (fun h => sight.entry h = some avoidIP) sight.view 0 0 d with
      ⟨h', hres, hcase⟩ | ⟨hres, -, -⟩
    · obtain rfl : h' = h := Option.some.inj (hres.symm.trans hdraw)
      rcases hcase with ⟨hpos, -⟩ | ⟨hmem, hkept⟩
      · omega
      · exact ⟨hmem, of_decide_eq_false hkept⟩
    · exact absurd (hres.symm.trans hdraw) nofun
  some_of := by
    intro d h hmem
    rcases reservoir_cases (fun h => sight.entry h = some avoidIP) sight.view 0 0 d with
      ⟨h', hres, -⟩ | ⟨-, -, hall⟩
    · exact Option.isSome_iff_exists.mpr ⟨h', hres⟩
    · exact absurd (of_decide_eq_true (hall h hmem.1)) hmem.2

theorem Draws.redraw {pick : Draw} {nodes : Hash → Prop} (hpick : Draws pick nodes) {h1 : Hash}
    (h : nodes h1) (n : ℕ) (d : Dice) : nodes (redraw pick h1 n d) := by
  induction n generalizing d with
  | zero => exact h
  | succ n ih =>
    unfold Prism.redraw
    split
    · exact h
    · rename_i candidate hdraw
      split
      · exact hpick.mem d candidate hdraw
      · exact ih _

theorem Draws.pickSecond {pick : Draw} {nodes : Hash → Prop} (hpick : Draws pick nodes)
    {h1 : Hash} (h : nodes h1) (sight : PickSight) (stats : IPLoadStats) (d : Dice) :
    nodes (pickSecond sight stats pick h1 d) := by
  unfold Prism.pickSecond
  split
  · exact h
  split
  · exact h
  rename_i drawn hdraw
  have hsecond : nodes (if drawn = h1 then Prism.redraw pick h1 3 (pick d).2 else drawn) := by
    split
    · exact hpick.redraw h 3 _
    · exact hpick.mem d drawn hdraw
  dsimp only
  generalize (if drawn = h1 then Prism.redraw pick h1 3 (pick d).2 else drawn) = h2 at hsecond ⊢
  split
  · exact h
  · split
    · exact h
    · exact hsecond

def PlatformNodes.AllOn (nodes : PlatformNodes) (ip : Addr) : Prop :=
  ∀ h ∈ nodes.view, nodes.entry h = some ip
  deriving Decidable

/-- **The address is avoided, unless all nodes of the view come out there**, and the pick says which
it is. -/
theorem randomRouteAvoiding_spec {sight : PickSight} {stats : IPLoadStats} {ip : String} {d : Dice}
    {h : Hash} {fallback : Bool}
    (hpick : randomRouteAvoiding sight stats (some ip) d = .ok (h, fallback)) :
    h ∈ sight.view ∧ (sight.entry h ≠ some (some ip) ∨ sight.AllOn (some ip)) ∧
      (fallback = true ↔ sight.AllOn (some ip)) := by
  have havoid := draws_randomPickExcludingEgressIP sight (some ip)
  have hany := draws_randomPick sight.view
  unfold randomRouteAvoiding at hpick
  simp only [Option.isSome_some, if_true] at hpick
  split_ifs at hpick
  split at hpick
  · rename_i h1 hdraw
    cases hpick
    have hfirst := havoid.mem d h1 hdraw
    have hchosen := havoid.pickSecond hfirst sight stats
      (randomPickExcludingEgressIP sight (some ip) d).2
    refine ⟨hchosen.1, .inl hchosen.2, iff_of_false nofun fun hall => ?_⟩
    exact hfirst.2 (hall h1 hfirst.1)
  · rename_i hdraw
    have hall : sight.AllOn (some ip) := by
      intro h' hmem
      by_contra hother
      have hsome := havoid.some_of d h' ⟨hmem, hother⟩
      rw [hdraw] at hsome
      cases hsome
    split at hpick
    · rename_i h1 hagain
      cases hpick
      refine ⟨?_, .inr hall, iff_of_true rfl hall⟩
      exact hany.pickSecond (hany.mem _ h1 hagain) sight stats _
    · cases hpick

theorem selectLiveRandomRoute_spec {sight : PickSight} {stats : IPLoadStats} {ip : String}
    {first retry : Dice} {h : Hash} {drawn : Addr} {fallback : Bool}
    (hpool : ∀ h ∈ sight.view, (sight.entry h).isSome)
    (hsel : selectLiveRandomRoute sight stats (some ip) first retry = .ok (h, drawn, fallback)) :
    (drawn ≠ some ip ∨ sight.AllOn (some ip)) ∧ (fallback = true ↔ sight.AllOn (some ip)) := by
  unfold selectLiveRandomRoute selectLive at hsel
  split at hsel
  · cases hsel
  rename_i h' fallback' hpick
  obtain ⟨hmem, hother, hflag⟩ := randomRouteAvoiding_spec hpick
  obtain ⟨ip', hentry⟩ := Option.isSome_iff_exists.mp (hpool h' hmem)
  rw [hentry] at hsel hother
  cases hsel
  refine ⟨hother.imp_left fun hne heq => hne (congrArg some heq), ?_⟩
  rw [Bool.false_or]
  exact hflag

end Prism
