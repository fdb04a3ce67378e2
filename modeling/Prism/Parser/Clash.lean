import Prism.Parser.Chains

/-!
# Dialer proxies

`applyClashDialerChains` of `internal/subscription/chains.go`.  A Clash proxy that is dialled
through another one of the document becomes a chain.  What a chain dials in the end is not taken
from the entry at hand but looked up by its tag, in an index of the whole document in which the last
entry of a tag counts.  So a chain dials the options of a later entry of its tag, if there is one
(`repeated_tag_dials_other`), and its own exactly when the two agree (`clash_chain_dials_own`).
-/

namespace Prism

/-- `decodeObject`, with the main object in the place of an envelope.  A text that is no object has
none. -/
def NodeOptions.decodeObject : NodeOptions → Option JsonObject
  | .object o => some o
  | .chain _ main _ => some main
  | .endpoint _ => none

/-- `objectDetour`: an envelope has no reference at its top level. -/
def NodeOptions.objectDetour : NodeOptions → String
  | .object o => o.reference
  | .chain _ _ _ => ""
  | .endpoint _ => ""

def NodeOptions.objectType : NodeOptions → String
  | .object o => o.type
  | .chain _ _ _ => ""
  | .endpoint _ => ""

def NodeOptions.stripDetour : NodeOptions → NodeOptions
  | .object o => .object (o.erase "detour")
  | options => options

variable (nodes : List ImportedNode)

def lookupProxy (tag : String) : Option JsonObject :=
  nodes.reverse.findSome? fun e => if e.tag = tag then e.options.decodeObject else none

variable (env : DocumentReader) (entry : ImportedNode)

def dialerNote (dangling what : String) : SkippedNode :=
  skipNode entry.tag entry.options.objectType "clash" "INVALID"
    ("dangling dialer-proxy " ++ env.quote (env.sanitizeSampleName dangling) ++ what)

/-- An entry with a detour, given the object of its tag and what the walk came to. -/
def dialThrough (object : JsonObject) (walk : DetourWalk) : ImportOutcome :=
  if walk.resolved = false then { node := some entry }
  else if walk.deps = [] then
    { node := some { entry with options := entry.options.stripDetour }
      note := some (dialerNote env entry walk.dangling " was stripped") }
  else
    let main := (object.erase "tag").set "detour" (.string (depTag 0))
    let options := (buildChainEnvelope entry.tag main (clampChainDepth walk.deps)).getD
      entry.options
    { node := some ⟨entry.tag, options⟩
      note := if walk.dangling ≠ "" then
        some (dialerNote env entry walk.dangling " was cut from the chain") else none }

/-- One turn of the loop. -/
def importProxy (nodes : List ImportedNode) (entry : ImportedNode) : ImportOutcome :=
  match lookupProxy nodes entry.tag with
  | none => { node := some entry }
  | some object =>
    if entry.options.objectDetour = "" then { node := some entry }
    else dialThrough env entry object (resolveDetourChainOrdered object (lookupProxy nodes))

def applyClashDialerChains (nodes : List ImportedNode)
    (report : ParseReport) : List ImportedNode × ParseReport :=
  ((nodes.map (importProxy env nodes)).filterMap ImportOutcome.node,
    (nodes.map (importProxy env nodes)).foldl ParseReport.add report)

/-- **What becomes of an entry**: it keeps its tag, without a detour it stays as it is, and a chain
dials its own options, field by field. -/
structure DialsOwn (entry result : ImportedNode) : Prop where
  tag : result.tag = entry.tag
  plain : entry.options.objectDetour = "" → result = entry
  main : ∀ name main deps, result.options = .chain name main deps →
    ∃ o, entry.options = .object o ∧
      ∀ key, main.get key = ((o.erase "tag").set "detour" (.string (depTag 0))).get key

/-- The walk from the object comes to a chain. -/
def ComesToChain (object : JsonObject) : Prop :=
  (resolveDetourChainOrdered object (lookupProxy nodes)).resolved = true ∧
    (resolveDetourChainOrdered object (lookupProxy nodes)).deps ≠ []

/-- The object that stands for the entry's tag is the entry's own, up to tag and detour, if the
entry has a detour and the object comes to a chain. -/
def StandsForOwn : Prop :=
  ∀ o object, entry.options = .object o → o.reference ≠ "" →
    lookupProxy nodes entry.tag = some object → ComesToChain nodes object → object.SameNode o

section Dial

variable {env : DocumentReader} {nodes : List ImportedNode} {entry : ImportedNode}

theorem DialsOwn.self (h : ∀ name main deps, entry.options ≠ .chain name main deps) :
    DialsOwn entry entry :=
  ⟨rfl, fun _ => rfl, fun name main deps he => absurd he (h name main deps)⟩

theorem dialsOwn_chain_iff {o object : JsonObject} {deps : List JsonObject}
    (ho : entry.options = .object o) (hd : o.reference ≠ "") :
    DialsOwn entry ⟨entry.tag, .chain entry.tag ((object.erase "tag").set "detour"
      (.string (depTag 0))) deps⟩ ↔ object.SameNode o := by
  refine Iff.trans ?_ (JsonObject.get_main_eq_iff (.string (depTag 0)))
  constructor
  · intro h
    obtain ⟨o', ho', hsame⟩ := h.main _ _ _ rfl
    cases ho.symm.trans ho'
    exact hsame
  · intro h
    refine ⟨rfl, fun hplain => ?_, fun name main deps he => ⟨o, ho, ?_⟩⟩
    · rw [ho] at hplain
      exact absurd hplain hd
    · cases he
      exact h

/-- One turn leaves one node, and a chain dials its own options exactly when the object of its tag
does. -/
theorem importProxy_node (env : DocumentReader) (nodes : List ImportedNode)
    (hplain : ∀ name main deps, entry.options ≠ .chain name main deps) :
    ∃ result, (importProxy env nodes entry).node = some result ∧
      (DialsOwn entry result ↔ StandsForOwn nodes entry) := by
  have hself := DialsOwn.self hplain
  unfold importProxy
  split
  · rename_i hnone
    refine ⟨entry, rfl, iff_of_true hself fun o object _ _ hobject => ?_⟩
    rw [hnone] at hobject
    cases hobject
  rename_i object hobject
  split
  · rename_i hd
    refine ⟨entry, rfl, iff_of_true hself fun o _ ho href => ?_⟩
    rw [ho] at hd
    exact absurd hd href
  rename_i hd
  obtain ⟨o, ho⟩ : ∃ o, entry.options = .object o := by
    cases hoptions : entry.options with
    | object o => exact ⟨o, rfl⟩
    | chain name main deps => exact absurd hoptions (hplain name main deps)
    | endpoint raw => exact absurd (congrArg NodeOptions.objectDetour hoptions) hd
  have href : o.reference ≠ "" := by rwa [ho] at hd
  -- the walk is refused, comes to nothing, or to a chain
  unfold dialThrough
  split
  · rename_i hres
    refine ⟨entry, rfl, iff_of_true hself fun _ _ _ _ hobject' hchains => ?_⟩
    cases hobject.symm.trans hobject'
    rw [hchains.1] at hres
    cases hres
  rename_i hres
  split
  · rename_i hnone
    refine ⟨_, rfl, iff_of_true ⟨rfl, fun h => absurd h hd, fun _ _ _ he => ?_⟩ ?_⟩
    · rw [ho] at he
      cases he
    · intro _ _ _ _ hobject' hchains
      cases hobject.symm.trans hobject'
      exact absurd hnone hchains.2
  · rename_i hdeps
    dsimp only
    rw [buildChainEnvelope_clampChainDepth _ _ hdeps, Option.getD_some]
    refine ⟨_, rfl, (dialsOwn_chain_iff ho href).trans ⟨fun hsame o' object' ho' _ hobject' _ => ?_,
      fun h => h o object ho href hobject ⟨Bool.eq_true_of_not_eq_false hres, hdeps⟩⟩⟩
    cases ho.symm.trans ho'
    cases hobject.symm.trans hobject'
    exact hsame

end Dial

/-- **Exactly when every Clash chain dials its own proxy.**  For every list of nodes, none of them
an envelope: the results are as many, with the same tags in the same order, an entry without a
detour is unchanged, and each chain has the options of its own entry as its main object, without the
tag and with the first hop as detour, if and only if wherever the last entry of a tag comes to a
chain, it agrees up to tag and detour with the entries of the tag that have a detour. -/
theorem clash_chain_dials_own (env : DocumentReader) (nodes : List ImportedNode)
    (report : ParseReport)
    (hplain : ∀ e ∈ nodes, ∀ name main deps, e.options ≠ .chain name main deps) :
    List.Forall₂ DialsOwn nodes (applyClashDialerChains env nodes report).1 ↔
      ∀ e ∈ nodes, StandsForOwn nodes e := by
  choose! result hnode hown using fun e he => importProxy_node env nodes (hplain e he)
  have hresults : (applyClashDialerChains env nodes report).1 = nodes.map result := by
    unfold applyClashDialerChains
    rw [List.filterMap_map, List.filterMap_eq_map_iff_forall_eq_some]
    exact hnode
  rw [hresults, List.forall₂_map_right_iff, List.forall₂_same]
  exact forall₂_congr hown

def proxyTo (tag server detour : String) : ImportedNode :=
  ⟨tag, .object [("server", .string server), ("detour", .string detour)]⟩

theorem clash_chain_dials_own_two :
    List.Forall₂ DialsOwn [proxyTo "a" "one" "b", proxyTo "b" "two" ""]
      (applyClashDialerChains plainReader [proxyTo "a" "one" "b", proxyTo "b" "two" ""] {}).1 := by
  refine (clash_chain_dials_own plainReader _ {} (by simp [proxyTo])).mpr
    fun e he o object ho _ hl _ => ?_
  -- every tag stands for its only entry
  have hfound : ∀ e ∈ [proxyTo "a" "one" "b", proxyTo "b" "two" ""],
      lookupProxy [proxyTo "a" "one" "b", proxyTo "b" "two" ""] e.tag =
        e.options.decodeObject := by decide +kernel
  rw [hfound e he, ho] at hl
  rw [← Option.some.inj hl]
  exact .refl o

/-- Two proxies of one name: the chain of the first dials the second. -/
theorem repeated_tag_dials_other : (applyClashDialerChains plainReader
      [proxyTo "a" "one" "b", proxyTo "b" "two" "", proxyTo "a" "three" "b"] {}).1.head? =
    some ⟨"a", .chain "a" [("server", .string "three"), ("detour", .string "d0")]
      [[("server", .string "two"), ("tag", .string "d0")]]⟩ := by
  decide +kernel

end Prism
