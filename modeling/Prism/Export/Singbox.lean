import Prism.Export.Names
import Prism.Model.Object

/-!
# Exporting a sing-box document

`Export` of `internal/export/types.go` for the format `singbox`, and `singbox.go`.  The nodes that
sing-box can run are collected, and their names reserved; then the hops of the chains are given tags
"name/d0", "name/d1" and so on, the references to them are rewritten, and two groups are put in
front.  Every tag but those of the nodes is *claimed*: a variant of it that the document does not
carry.

The nodes are written under the names they came with.  `prepareItems` renders names, drops the items
that get none, and then keeps the item as it was.  So two nodes of one name end up with one tag
(`repeated_name_exported`), and a template has no effect.  The document is as it should be if and
only if the items come with the names that `RenderNames` gives them, which is what the comment on
`Item` asks for: `singbox_document_sound`.
-/

namespace Prism

variable (tag : String)

/-- The tags tried when all numbered variants are taken. -/
def lastResort (n : ℕ) : String :=
  tag ++ " #" ++ String.ofList (List.replicate n '#')

/-- The tag, or the first variant of it that is free.  The last search of the source has no bound;
it ends after as many steps as there are tags. -/
def claimTag (taken : List String) : String :=
  if tag ∉ taken then tag
  else
    match firstFree taken
        ((List.range' 2 (maxNameVariants - 1)).map fun k => tag ++ nameSuffix k) with
    | some candidate => candidate
    | none =>
      (firstFree taken ((List.range (taken.length + 1)).map (lastResort tag))).getD ""

theorem lastResort_injective : Function.Injective (lastResort tag) := by
  intro m n h
  have hlist := String.ofList_injective ((String.append_right_inj _).mp h)
  simpa using congrArg List.length hlist

theorem claimTag_not_mem (taken : List String) : claimTag tag taken ∉ taken := by
  unfold claimTag
  split
  case isTrue hfree => exact hfree
  case isFalse =>
    split
    case h_1 candidate hfound => exact not_mem_of_firstFree hfound
    case h_2 =>
      have hnd : ((List.range (taken.length + 1)).map (lastResort tag)).Nodup :=
        List.nodup_range.map (lastResort_injective tag)
      obtain ⟨candidate, hfound⟩ : ∃ candidate, firstFree taken
          ((List.range (taken.length + 1)).map (lastResort tag)) = some candidate :=
        exists_firstFree hnd (by simp)
      rw [hfound]
      exact not_mem_of_firstFree hfound

def hopTag (name : String) (i : ℕ) : String := name ++ "/" ++ depTag i

theorem hopTag_injective (name : String) : Function.Injective (hopTag name) := by
  intro i j h
  have hdep := (String.append_right_inj _).mp h
  exact toString_nat_injective ((String.append_right_inj _).mp hdep)

/-- The tag that a reference to a hop stands for; other texts are no such reference. -/
def canonicalDepTag (name detour : String) : Option String :=
  match detour.toList with
  | 'd' :: digit :: digits =>
    if (digit :: digits).all isDigit then some (name ++ "/" ++ detour) else none
  | _ => none

theorem canonicalDepTag_depTag (name : String) (i : ℕ) :
    canonicalDepTag name (depTag i) = some (hopTag name i) := by
  have hdigits : ∀ c ∈ Nat.toDigits 10 i, isDigit c = true := fun _ => isDigit_of_mem_toDigits
  have hlist : (depTag i).toList = 'd' :: Nat.toDigits 10 i := by
    unfold depTag
    rw [String.toList_append]
    show 'd' :: (Nat.repr i).toList = _
    rw [Nat.toList_repr]
  cases hd : Nat.toDigits 10 i with
  | nil => exact absurd hd Nat.toDigits_ne_nil
  | cons digit digits =>
    rw [hd] at hlist hdigits
    unfold canonicalDepTag
    rw [hlist]
    simp only [List.all_eq_true.mpr hdigits, if_true]
    rfl

def rewriteDepRef (depTags : List (String × String)) (name detour : String) : String :=
  match canonicalDepTag name detour with
  | none => detour
  | some canonical => ((Table.lookup Prod.fst canonical depTags).map Prod.snd).getD detour

/-- How objects are decoded: an object, the `null` that decodes into no map at all, or an error. -/
structure NodeCodec extends NodeReader where
  objectMap : String → Except String (Option JsonObject)

structure PreparedItem where
  item : ExportItem
  doc : NodeDoc
  rawName : String

/-- A node that is left out, and why. -/
structure Skip where
  name : String
  reason : String

variable (codec : NodeCodec)

/-- The names are rendered; an item that has one is kept with the name it came with. -/
def prepareItems (nodes : List ExportItem) (opt : ExportOptions) : List PreparedItem × List Skip :=
  go (nodes.zip (renderNames codec.toNodeReader nodes opt))
where
  go : List (ExportItem × String) → List PreparedItem × List Skip
    | [] => ([], [])
    | (n, name) :: rest =>
      let later := go rest
      if name = "" then (later.1, ⟨n.name, "INVALID:duplicate node name"⟩ :: later.2)
      else
        match codec.parseNodeDoc n.rawOptions with
        | .error _ => (later.1, ⟨name, "INVALID:node document"⟩ :: later.2)
        | .ok doc => (⟨n, doc, n.name⟩ :: later.1, later.2)

/-- One item of the document, its objects decoded; a hop may have decoded into no map.  Only a chain
has hops. -/
structure SingboxNode where
  name : String
  endpoint : Bool
  chain : Bool
  main : JsonObject
  deps : List (Option JsonObject)
  plain : chain = false → deps = []

variable (entry : SingboxNode)

/-- The hops as objects; no map reads like an empty one. -/
def SingboxNode.hops : List JsonObject :=
  entry.deps.map fun dep => dep.getD []

/-- Writing into a map that is none is a run-time panic. -/
def SingboxNode.panics : Bool :=
  entry.chain && entry.deps.any Option.isNone

def decodeSingboxNode (p : PreparedItem) : Except String SingboxNode :=
  match codec.objectMap p.doc.main with
  | .error err => .error err
  | .ok main =>
    if p.doc.chain then
      match p.doc.deps.mapM codec.objectMap with
      | .error err => .error err
      | .ok deps =>
        .ok
          { name := p.item.name, endpoint := p.doc.kind = .endpoint, chain := true,
            main := main.getD [], deps := deps, plain := nofun }
    else
      .ok
        { name := p.item.name, endpoint := p.doc.kind = .endpoint, chain := false,
          main := main.getD [], deps := [], plain := fun _ => rfl }

/-- The nodes sing-box can run, and the others. -/
def planSingbox (codec : NodeCodec) : List PreparedItem → List SingboxNode × List Skip
  | [] => ([], [])
  | p :: items =>
    let later := planSingbox codec items
    if p.doc.engine = "mihomo" then
      (later.1, ⟨p.item.name, "NOT_REPRESENTABLE:singbox"⟩ :: later.2)
    else
      match decodeSingboxNode codec p with
      | .error _ => (later.1, ⟨p.item.name, "NOT_REPRESENTABLE:singbox"⟩ :: later.2)
      | .ok entry => (entry :: later.1, later.2)

/-- The tags of the document so far, and where the references to hops lead. -/
structure TagTable where
  taken : List String
  depTags : List (String × String) := []

/-- Tags for the hops of a chain. -/
def claimHops (name : String) : ℕ → List JsonObject → TagTable → List JsonObject × TagTable
  | _, [], t => ([], t)
  | i, dep :: deps, t =>
    let emitted := claimTag (hopTag name i) t.taken
    let later := claimHops name (i + 1) deps
      { taken := emitted :: t.taken, depTags := (hopTag name i, emitted) :: t.depTags }
    (dep.set "tag" (.string emitted) :: later.1, later.2)

def rewriteDetour (depTags : List (String × String)) (name : String) (o : JsonObject) :
    JsonObject :=
  match o.detour with
  | none => o
  | some d => o.set "detour" (.string (rewriteDepRef depTags name d))

structure EmittedNode where
  endpoint : Bool
  main : JsonObject
  hops : List JsonObject

def EmittedNode.outbounds (e : EmittedNode) : List JsonObject :=
  (if e.endpoint then [] else [e.main]) ++ e.hops

def EmittedNode.endpoints (e : EmittedNode) : List JsonObject :=
  if e.endpoint then [e.main] else []

/-- One node, with its hops. -/
def emitNode (t : TagTable) : EmittedNode × TagTable :=
  let claimed := if entry.chain then claimHops entry.name 0 entry.hops t else (entry.hops, t)
  let rewrite := rewriteDetour claimed.2.depTags entry.name
  ({ endpoint := entry.endpoint, main := (rewrite entry.main).set "tag" (.string entry.name),
     hops := claimed.1.map rewrite }, claimed.2)

def emitNodes : List SingboxNode → TagTable → List EmittedNode × TagTable
  | [], t => ([], t)
  | entry :: entries, t =>
    let emitted := emitNode entry t
    let later := emitNodes entries emitted.2
    (emitted.1 :: later.1, later.2)

structure SingboxDocument where
  outbounds : List JsonObject
  endpoints : List JsonObject

namespace SingboxDocument

variable (doc : SingboxDocument)

def objects : List JsonObject := doc.outbounds ++ doc.endpoints

def tags : List String := doc.objects.map JsonObject.tag

def resolve (t : String) : Option JsonObject :=
  Table.lookup JsonObject.tag t doc.objects

/-- Following the references from an object leads to these objects, and ends there. -/
def Visits (doc : SingboxDocument) : JsonObject → List JsonObject → Prop
  | o, [] => o.detour = none
  | o, next :: rest =>
    (∃ t, o.detour = some t ∧ doc.resolve t = some next) ∧ doc.Visits next rest

end SingboxDocument

def selectorGroup (tag autoTag : String) (names : List String) : JsonObject :=
  [("type", .string "selector"), ("tag", .string tag), ("outbounds", .strings (autoTag :: names))]

def urltestGroup (names : List String) : JsonObject :=
  [("type", .string "urltest"), ("tag", .string tag), ("outbounds", .strings names),
    ("url", .string "https://www.gstatic.com/generate_204"), ("interval", .string "5m")]

def selectorTagOf (opt : ExportOptions) : String :=
  if trimSpace opt.selectorTag = "" then "PROXY" else trimSpace opt.selectorTag

def autoTagOf (opt : ExportOptions) : String :=
  if trimSpace opt.autoTag = "" then "AUTO" else trimSpace opt.autoTag

/-- What `exportSingbox` puts together. -/
def singboxDocument (entries : List SingboxNode) (opt : ExportOptions) : SingboxDocument :=
  let names := entries.map SingboxNode.name
  let emitted := emitNodes entries { taken := names }
  let selectorTag := claimTag (selectorTagOf opt) emitted.2.taken
  let autoTag := claimTag (autoTagOf opt) (selectorTag :: emitted.2.taken)
  { outbounds := selectorGroup selectorTag autoTag names :: urltestGroup autoTag names ::
      emitted.1.flatMap EmittedNode.outbounds
    endpoints := emitted.1.flatMap EmittedNode.endpoints }

structure ExportReport where
  exported : ℕ := 0
  skipped : List Skip := []

/-- `Export` for the format `singbox`: the document, unless there is a panic, and the report. -/
def exportSingbox (nodes : List ExportItem) (opt : ExportOptions) :
    Option (SingboxDocument × ExportReport) :=
  let prepared := prepareItems codec nodes opt
  let planned := planSingbox codec prepared.1
  if planned.1.any SingboxNode.panics then none
  else some (singboxDocument planned.1 opt,
    { exported := planned.1.length, skipped := prepared.2 ++ planned.2 })

end Prism
