import Prism.Foundation.Path
import Prism.Foundation.Text
import Prism.Model.Object

/-!
# Detour chains

`parseSingboxDocument` of `internal/subscription/chains.go`, with the report of `report.go`.  An
outbound may name another one that it is dialled through, its `detour`, and that one may name a
third.  The importer makes the outbound a chain: the hops are copied into it under the tags "d0",
"d1" and so on, each with a reference to the next.  A reference that names nothing is noted in the
report and the chain cut there; a reference that comes a second time is a cycle, and the outbound is
refused with an entry in the report.

The walk takes at most three hops.  What lies behind the third is dropped without a word, and a
cycle that does not close within the first three references is not seen.  The path of an outbound
and whether it ends or runs into a cycle are told by `Path`, for the partial function `hop`.
-/

namespace Prism

/-- An entry of the report: what was not imported, and why. -/
structure SkippedNode where
  name : String
  type : String
  source : String
  reason : String
  detail : String
  deriving DecidableEq

def maxSkippedNodes : ℕ := 500

structure ParseReport where
  skipped : List SkippedNode := []
  notes : List SkippedNode := []
  overflow : ℕ := 0
  notesOverflow : ℕ := 0
  deriving DecidableEq

/-- Without a reason an entry is about something invalid. -/
def SkippedNode.withReason (e : SkippedNode) : SkippedNode :=
  if e.reason = "" then { e with reason := "INVALID" } else e

namespace ParseReport

def addSkip (r : ParseReport) (e : SkippedNode) : ParseReport :=
  if maxSkippedNodes ≤ r.skipped.length then { r with overflow := r.overflow + 1 }
  else { r with skipped := r.skipped ++ [e.withReason] }

def addNote (r : ParseReport) (e : SkippedNode) : ParseReport :=
  if maxSkippedNodes ≤ r.notes.length then { r with notesOverflow := r.notesOverflow + 1 }
  else { r with notes := r.notes ++ [e.withReason] }

end ParseReport

def skipNode (name typeName source reason detail : String) : SkippedNode where
  name := trimSpace name
  type := toLower (trimSpace typeName)
  source := source
  reason := reason
  detail := detail

/-- What the parser takes from elsewhere: how a text is quoted, what may be repeated of a name that
comes from a document, and `parseSingboxEndpointItem`. -/
structure DocumentReader where
  quote : String → String
  sanitizeSampleName : String → String
  endpointItem : JsonObject → Option (String × String) × Option SkippedNode

variable (env : DocumentReader)

/-- The type of an outbound, if it is a text. -/
def JsonObject.type (o : JsonObject) : String :=
  match o.get "type" with
  | some (.string t) => t
  | _ => ""

variable (o : JsonObject)

/-- The tag an object is dialled through, or nothing. -/
def JsonObject.reference : String := trimSpace (o.detour.getD "")

def maxDetourDepth : ℕ := 3

structure DetourWalk where
  deps : List JsonObject
  dangling : String := ""
  resolved : Bool := true

/-- The copy of an object that is the hop of a chain with this number. -/
def hopCopy (dep : JsonObject) (i : ℕ) : JsonObject :=
  ((dep.erase "tag").erase "detour").set "tag" (.string (depTag i))

/-- The loop of `resolveDetourChainOrdered`, with the turns it has left. -/
def walkDetours (lookup : String → Option JsonObject) :
    ℕ → String → List String → List JsonObject → DetourWalk
  | 0, _, _, deps => { deps := deps }
  | turns + 1, current, seen, deps =>
    if trimSpace current = "" then { deps := deps }
    else if trimSpace current ∈ seen then { deps := [], resolved := false }
    else
      match lookup (trimSpace current) with
      | none => { deps := deps, dangling := trimSpace current }
      | some dep =>
        let copied := hopCopy dep deps.length
        let next := dep.detour.getD ""
        if trimSpace next = "" then { deps := deps ++ [copied] }
        else
          walkDetours lookup turns next (trimSpace current :: seen)
            (deps ++ [copied.set "detour" (.string (depTag (deps.length + 1)))])

def resolveDetourChainOrdered (start : JsonObject) (lookup : String → Option JsonObject) :
    DetourWalk :=
  walkDetours lookup maxDetourDepth (start.detour.getD "") [] []

/-- Every hop refers to the next one, and the last one to nothing. -/
def relinkFrom (i : ℕ) : List JsonObject → List JsonObject
  | [] => []
  | [dep] => [dep.erase "detour"]
  | dep :: next :: deps =>
    dep.set "detour" (.string (depTag (i + 1))) :: relinkFrom (i + 1) (next :: deps)

def clampChainDepth (deps : List JsonObject) : List JsonObject :=
  relinkFrom 0 (deps.take maxDetourDepth)

/-! ## The document -/

/-- What is imported of a node: an object as it stands, a chain, or an endpoint. -/
inductive NodeOptions where
  | object (o : JsonObject)
  | chain (name : String) (main : JsonObject) (deps : List JsonObject)
  | endpoint (raw : String)
  deriving DecidableEq

def NodeOptions.hops : NodeOptions → List JsonObject
  | .chain _ _ deps => deps
  | .object _ => []
  | .endpoint _ => []

structure ImportedNode where
  tag : String
  options : NodeOptions
  deriving DecidableEq

structure ImportOutcome where
  node : Option ImportedNode := none
  skip : Option SkippedNode := none
  note : Option SkippedNode := none

def buildChainEnvelope (name : String) (main : JsonObject) (deps : List JsonObject) :
    Option NodeOptions :=
  if deps = [] ∨ maxDetourDepth < deps.length then none else some (.chain name main deps)

variable (items : List JsonObject)

def Referenced (tag : String) : Prop :=
  ∃ o ∈ items, o.tag ≠ "" ∧ o.reference ≠ "" ∧ o.reference = tag
  deriving Decidable

def ParseReport.add (r : ParseReport) (outcome : ImportOutcome) : ParseReport :=
  let r := outcome.skip.elim r r.addSkip
  outcome.note.elim r r.addNote

/-- The outbound it is dialled through. -/
def hop (lookup : String → Option JsonObject) (o : JsonObject) : Option JsonObject :=
  if o.reference = "" then none else lookup o.reference

section Walk

variable {lookup : String → Option JsonObject} {o : JsonObject}

/-- The hops are the objects with other tags and references. -/
def HopsOf (i : ℕ) (deps objects : List JsonObject) : Prop :=
  List.Forall₂ JsonObject.SameNode deps objects ∧
    deps.map JsonObject.tag = (List.range' i objects.length).map depTag

theorem HopsOf.cons {i : ℕ} {copy : JsonObject} {deps objects : List JsonObject}
    (hsame : copy.SameNode o) (htag : copy.tag = depTag i) (h : HopsOf (i + 1) deps objects) :
    HopsOf i (copy :: deps) (o :: objects) := by
  refine ⟨List.Forall₂.cons hsame h.1, ?_⟩
  rw [List.map_cons, List.length_cons, List.range'_succ, List.map_cons, htag, h.2]

end Walk

/-! ## What becomes of an outbound -/

theorem HopsOf.length {i : ℕ} {deps objects : List JsonObject} (h : HopsOf i deps objects) :
    deps.length = objects.length :=
  h.1.length_eq

theorem length_relinkFrom (i : ℕ) (deps : List JsonObject) :
    (relinkFrom i deps).length = deps.length := by
  induction deps generalizing i with
  | nil => rfl
  | cons dep deps ih =>
    cases deps with
    | nil => rfl
    | cons next deps =>
      rw [relinkFrom, List.length_cons, ih]
      rfl

theorem length_clampChainDepth (deps : List JsonObject) :
    (clampChainDepth deps).length = min maxDetourDepth deps.length := by
  rw [clampChainDepth, length_relinkFrom, List.length_take]

theorem buildChainEnvelope_clampChainDepth (name : String) (main : JsonObject)
    {deps : List JsonObject} (h : deps ≠ []) :
    buildChainEnvelope name main (clampChainDepth deps) =
      some (.chain name main (clampChainDepth deps)) := by
  have hpos := List.length_pos_iff.mpr h
  have hlen := length_clampChainDepth deps
  refine if_neg (not_or.mpr ⟨fun hnil => ?_, by omega⟩)
  rw [hnil, List.length_nil, maxDetourDepth] at hlen
  omega

section Import

variable {lookup : String → Option JsonObject} {o : JsonObject}

end Import

/-! ## The entries of the report -/

namespace ParseReport

variable {r : ParseReport} {e : SkippedNode} {outcome : ImportOutcome}

end ParseReport

/-! ## The document -/

section Document

variable {env : DocumentReader} {items outbounds endpoints : List JsonObject} {o : JsonObject}

variable {report : ParseReport}

end Document

/-- A reader that quotes nothing and knows no endpoints. -/
def plainReader : DocumentReader := ⟨id, id, fun _ => (none, none)⟩

end Prism
