import Prism.Foundation.Run
import Prism.Proxy.Route
import Prism.Service.AccessKey

/-!
# Which platforms a minted key reaches

A key's own platform list is meant to narrow the set its plan sells.  `CreateAccessKey` takes the
list from the caller, trims it and stores it without comparing it with the plan; the live snapshot
carries both lists; and `EffectivePlatforms` takes the key's list *in place of* the plan's whenever
it is not empty.  So a key reaches what its own list says, inside the plan's set or not.
-/

namespace Prism

/-- What can happen to a published key. -/
inductive StoreOp where
  | publish (key : AccessKey) (user : User) (plan : PlanSnapshot)
  | delete (keyID : String)

def StoreOp.apply (s : KeyStore) : StoreOp → KeyStore
  | .publish key user plan => s.publish key user plan
  | .delete keyID => s.delete keyID

/-- As far as the key is concerned, the operation publishes the same row with the same plan. -/
def StoreOp.Repeats (row : AccessKey) (plan : PlanSnapshot) : StoreOp → Prop
  | .publish key _ plan' => key.id = row.id → key = row ∧ plan' = plan
  | .delete _ => True

/-- The store holds the key as the row and the plan say, or not at all. -/
def Holds (row : AccessKey) (plan : PlanSnapshot) (s : KeyStore) : Prop :=
  ∀ k, s.get row.id = some k → k.platforms = row.platforms ∧ k.plan = plan

theorem Holds.apply {row : AccessKey} {plan : PlanSnapshot} {s : KeyStore} {op : StoreOp}
    (hop : op.Repeats row plan) (h : Holds row plan s) : Holds row plan (op.apply s) := by
  cases op with
  | publish key user plan' =>
    intro k hk
    by_cases hid : key.id = row.id
    · obtain ⟨rfl, rfl⟩ := hop hid
      have hget := KeyStore.get_publish_self s key user plan'
      rw [← Option.some.inj (hget.symm.trans hk)]
      exact ⟨rfl, rfl⟩
    · refine h k ?_
      rw [← KeyStore.get_publish_of_ne s (fun heq => hid heq.symm) user plan']
      exact hk
  | delete keyID =>
    intro k hk
    by_cases hid : row.id = keyID
    · subst hid
      rw [StoreOp.apply, KeyStore.get_delete_self] at hk
      cases hk
    · refine h k ?_
      rw [← KeyStore.get_delete_of_ne s hid]
      exact hk

theorem Holds.run {row : AccessKey} {plan : PlanSnapshot} {s : KeyStore} {ops : List StoreOp}
    (hops : ∀ op ∈ ops, op.Repeats row plan) (h : Holds row plan s) :
    Holds row plan (run StoreOp.apply s ops) := by
  induction ops generalizing s with
  | nil => exact h
  | cons op ops ih =>
    exact ih (fun o ho => hops o (by simp [ho])) (h.apply (hops op (by simp)))

/-- Every platform the key may reach is one of those sold. -/
def KeyState.Within (k : KeyState) (sold : List String) : Prop :=
  ∀ platformID, k.allowsPlatform platformID = true → platformID ∈ sold

/-- Every platform a request of the key is routed to, by whatever router and node pool, is one of
those sold. -/
def KeyState.RoutedWithin (k : KeyState) (sold : List String) : Prop :=
  ∀ (Node Outbound : Type) (r : Router Node) (getOutbound : Node → Option Outbound)
    (platformName account target : String) (result : RouteResult Node) (outbound : Outbound),
    resolveRoutedOutbound r getOutbound platformName account target (some k) =
      .ok (result, outbound) → result.platformID ∈ sold

theorem KeyState.routedWithin_iff {k : KeyState} {sold : List String} :
    k.RoutedWithin sold ↔ k.Within sold := by
  constructor
  · intro h platformID hallowed
    -- a router that knows nothing but this platform
    let r : Router Unit := ⟨fun _ => none, fun _ => some ⟨platformID, ""⟩, fun _ _ _ _ => .ok ()⟩
    exact h Unit Unit r some "name" "" "" _ () (routed_of_allowsPlatform (p := ⟨platformID, ""⟩)
      rfl rfl rfl hallowed)
  · intro h Node Outbound r getOutbound platformName account target result outbound hroute
    exact h _ (allowsPlatform_of_routed hroute)

theorem KeyState.within_iff {k : KeyState} (hsold : k.plan.platforms ≠ []) :
    k.Within k.plan.platforms ↔ ∀ q ∈ k.platforms, q ∈ k.plan.platforms := by
  unfold KeyState.Within
  simp only [KeyState.allowsPlatform_iff, KeyState.effectivePlatforms]
  by_cases hown : k.platforms = []
  · rw [if_pos hown, hown]
    constructor
    · intro _ q hq
      cases hq
    · rintro - q (hempty | hq)
      · exact absurd hempty hsold
      · exact hq
  · rw [if_neg hown]
    constructor
    · intro h q hq
      exact h q (.inr hq)
    · rintro h q (hempty | hq)
      · exact absurd hempty hown
      · exact h q hq

/-- **Which requests for a key keep it inside its plan.**  A key has been minted under a plan that
sells certain platforms, and is published any number of times with that plan, among any other
operations on the store.  It never reaches another platform, and is never routed to one, exactly when
every platform of the request, trimmed, is one of those sold. -/
theorem reach_within_plan_iff {mint : KeyMint} {io : Faults} {userID : String}
    {input : AccessKeyInput} {nowNs : ℤ} {p p' : Panel} {row : AccessKey} {plan : PlanSnapshot}
    (h : createAccessKey mint io userID input nowNs p = (.ok row, p'))
    (hplan : userPlanSnapshot p.db userID = .ok plan) (hsold : plan.platforms ≠ []) :
    ((∀ ops : List StoreOp, (∀ op ∈ ops, op.Repeats row plan) →
        ∀ k, (run StoreOp.apply p'.keys ops).get row.id = some k → k.Within plan.platforms) ↔
      ∀ v ∈ input.platforms, trimSpace v ≠ "" → trimSpace v ∈ plan.platforms) ∧
    ((∀ ops : List StoreOp, (∀ op ∈ ops, op.Repeats row plan) →
        ∀ k, (run StoreOp.apply p'.keys ops).get row.id = some k → k.RoutedWithin plan.platforms) ↔
      ∀ v ∈ input.platforms, trimSpace v ≠ "" → trimSpace v ∈ plan.platforms) := by
  simp only [KeyState.routedWithin_iff, and_self]
  obtain ⟨hown, user, plan', -, hplan', hget⟩ := createAccessKey_eq_ok h
  obtain rfl : plan' = plan := Except.ok.inj (hplan'.symm.trans hplan)
  have hstart : Holds row plan' p'.keys := by
    intro k hk
    rw [← Option.some.inj (hget.symm.trans hk)]
    exact ⟨rfl, rfl⟩
  have hown_iff : (∀ q ∈ row.platforms, q ∈ plan'.platforms) ↔
      ∀ v ∈ input.platforms, trimSpace v ≠ "" → trimSpace v ∈ plan'.platforms := by
    rw [hown]
    simp only [mem_normalizeStringList]
    constructor
    · intro hq v hv hne
      exact hq _ ⟨hne, v, hv, rfl⟩
    · rintro hv q ⟨hne, v, hmem, rfl⟩
      exact hv v hmem hne
  rw [← hown_iff]
  constructor
  · intro hwithin
    have hk := hwithin [] (fun op hop => nomatch hop) _ hget
    exact (KeyState.within_iff (k := newKeyState row user plan') hsold).mp hk
  · intro hrow ops hops k hk
    obtain ⟨hplatforms, hplan''⟩ := hstart.run hops k hk
    rw [← hplan'']
    refine KeyState.within_iff (by rw [hplan'']; exact hsold) |>.mpr ?_
    rw [hplatforms, hplan'']
    exact hrow

/-- A customer who has bought one platform. -/
def onePlatformPanel : Panel where
  db :=
    { users := [.customer]
      userSubscriptions :=
        [{ id := "us", userID := "u", expiresAtNs := 30 * dayNs, status := .active,
           planSnapshot := .plan { id := "pl", platforms := ["plat-plan"], status := .active } }] }

def testMint : KeyMint := ⟨true, some ("pk", [1]), some⟩

def mintFor (platforms : List String) : Except ServiceError AccessKey × Panel :=
  createAccessKey testMint noFaults "u" { name := "mine", platforms := platforms } 0
    onePlatformPanel

def rowFor (platforms : List String) : AccessKey :=
  mintedRow "pk" [1] "u" { name := "mine", platforms := platforms } [] 0

def onePlatformPlan : PlanSnapshot :=
  { platforms := ["plat-plan"], expiresAtNs := 30 * dayNs, status := .active }

theorem reach_within_plan_sold : mintFor [" plat-plan ", ""] =
        (.ok (rowFor [" plat-plan ", ""]), (mintFor [" plat-plan ", ""]).2) ∧
      ∀ ops : List StoreOp, (∀ op ∈ ops, op.Repeats (rowFor [" plat-plan ", ""]) onePlatformPlan) →
        ∀ k, (run StoreOp.apply (mintFor [" plat-plan ", ""]).2.keys ops).get "pk" = some k →
          k.Within ["plat-plan"] ∧ k.RoutedWithin ["plat-plan"] := by
  have hmint : mintFor [" plat-plan ", ""] =
      (.ok (rowFor [" plat-plan ", ""]), (mintFor [" plat-plan ", ""]).2) := by decide +kernel
  have hplan : userPlanSnapshot onePlatformPanel.db "u" = .ok onePlatformPlan := by decide +kernel
  obtain ⟨hreach, hrouted⟩ := reach_within_plan_iff hmint hplan (by decide +kernel)
  refine ⟨hmint, fun ops hops k hk => ⟨hreach.mpr ?_ ops hops k hk, hrouted.mpr ?_ ops hops k hk⟩⟩
  · decide +kernel
  · decide +kernel

def nameRouter : Router Unit :=
  ⟨fun id => some ⟨id, id⟩, fun name => some ⟨name, name⟩, fun _ _ _ _ => .ok ()⟩

theorem reach_beyond_plan :
    mintFor ["plat-key"] = (.ok (rowFor ["plat-key"]), (mintFor ["plat-key"]).2) ∧
      ∃ k, (mintFor ["plat-key"]).2.keys.get "pk" = some k ∧ k.plan = onePlatformPlan ∧
        k.usable 1 = true ∧ k.allowsPlatform "plat-key" = true ∧
        ¬ k.Within onePlatformPlan.platforms ∧
        (resolveRoutedOutbound nameRouter some "plat-key" "" "example.com" (some k)).isOk = true := by
  refine ⟨by decide +kernel, newKeyState (rowFor ["plat-key"]) .customer
    onePlatformPlan, by decide +kernel, rfl, by decide +kernel, by decide +kernel, fun h => ?_,
    by decide +kernel⟩
  exact absurd (h "plat-key" (by decide +kernel)) (by decide +kernel)

end Prism
