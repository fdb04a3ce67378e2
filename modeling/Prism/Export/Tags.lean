import Prism.Export.Singbox

/-!
# The tags of an exported document

What `exportSingbox` writes, read as a document: which tags there are, and where the references of a
chain lead.

* The hops of all nodes are given tags one after the other, each of them free at the time, and free
  ones stay apart from the names of the nodes because those are taken from the start
  (`Claimed`).  The groups come last.
* A reference "d0", "d1", ... of a node leads to the hop of that number, because the table of hops
  holds the tags of the node that is being written, whatever was written before it.
-/

namespace Prism

open Table

/-! ## Hops -/

section Hops

variable {name : String}

theorem rewriteDetour_tag (depTags : List (String × String)) (o : JsonObject) :
    (rewriteDetour depTags name o).tag = o.tag := by
  unfold rewriteDetour
  split
  · rfl
  · exact JsonObject.tag_set_detour

theorem sameNode_rewriteDetour (depTags : List (String × String)) (o : JsonObject) :
    (rewriteDetour depTags name o).SameNode o := by
  unfold rewriteDetour
  split
  · exact .refl o
  · exact (JsonObject.SameNode.refl o).set_detour

variable {o : JsonObject}

theorem rewriteDetour_detour_none {depTags : List (String × String)} (h : o.detour = none) :
    (rewriteDetour depTags name o).detour = none := by
  unfold rewriteDetour
  rw [h]
  exact h

theorem rewriteDetour_detour_hop {depTags : List (String × String)} {i : ℕ} {t : String}
    (h : o.detour = some (depTag i))
    (ht : (lookup Prod.fst (hopTag name i) depTags).map Prod.snd = some t) :
    (rewriteDetour depTags name o).detour = some t := by
  unfold rewriteDetour
  rw [h]
  simp only [JsonObject.detour_set_detour, rewriteDepRef, canonicalDepTag_depTag, ht,
    Option.getD_some]

/-- Tags that were claimed one after the other: they are distinct, were free before and are taken
after. -/
structure Claimed (tags : List String) (t t' : TagTable) : Prop where
  nodup : tags.Nodup
  free : ∀ x ∈ tags, x ∉ t.taken
  taken : ∀ x, x ∈ t'.taken ↔ x ∈ t.taken ∨ x ∈ tags

theorem Claimed.nil (t : TagTable) : Claimed [] t t := by
  refine ⟨List.nodup_nil, fun x hx => absurd hx (by simp), fun x => ?_⟩
  simp

theorem Claimed.append {tags tags' : List String} {t1 t2 t3 : TagTable}
    (h : Claimed tags t1 t2) (h' : Claimed tags' t2 t3) : Claimed (tags ++ tags') t1 t3 := by
  refine ⟨?_, fun x hx => ?_, fun x => ?_⟩
  · refine List.nodup_append.mpr ⟨h.nodup, h'.nodup, ?_⟩
    rintro x hx y hy rfl
    exact h'.free x hy ((h.taken x).mpr (.inr hx))
  · rcases List.mem_append.mp hx with hx | hx
    · exact h.free x hx
    · exact fun hold => h'.free x hx ((h.taken x).mpr (.inl hold))
  · rw [h'.taken, h.taken, List.mem_append, or_assoc]

theorem Claimed.one {t t' : TagTable} (tag : String)
    (ht : t'.taken = claimTag tag t.taken :: t.taken) : Claimed [claimTag tag t.taken] t t' := by
  refine ⟨List.nodup_singleton _, fun x hx => ?_, fun x => ?_⟩
  · rw [List.mem_singleton.mp hx]
    exact claimTag_not_mem tag t.taken
  · rw [ht, List.mem_cons, List.mem_singleton, or_comm]

variable (i : ℕ) (deps : List JsonObject)

theorem claimed_claimHops (t : TagTable) :
    Claimed ((claimHops name i deps t).1.map JsonObject.tag) t (claimHops name i deps t).2 := by
  induction deps generalizing i t with
  | nil => exact Claimed.nil t
  | cons dep deps ih =>
    unfold claimHops
    rw [List.map_cons, JsonObject.tag_set_tag]
    exact (Claimed.one (hopTag name i) rfl).append (ih _ _)

theorem claimHops_detours (t : TagTable) :
    (claimHops name i deps t).1.map JsonObject.detour = deps.map JsonObject.detour := by
  induction deps generalizing i t with
  | nil => rfl
  | cons dep deps ih =>
    unfold claimHops
    rw [List.map_cons, List.map_cons, JsonObject.detour_set_tag, ih]

theorem sameNode_claimHops (t : TagTable) :
    List.Forall₂ JsonObject.SameNode (claimHops name i deps t).1 deps := by
  induction deps generalizing i t with
  | nil => exact List.Forall₂.nil
  | cons dep deps ih =>
    exact List.Forall₂.cons (JsonObject.SameNode.refl dep).set_tag (ih _ _)

theorem claimHops_lookup_of_lt {i j : ℕ} (hj : j < i) (deps : List JsonObject) (t : TagTable) :
    lookup Prod.fst (hopTag name j) (claimHops name i deps t).2.depTags =
      lookup Prod.fst (hopTag name j) t.depTags := by
  induction deps generalizing i t with
  | nil => rfl
  | cons dep deps ih =>
    unfold claimHops
    have hne : hopTag name i ≠ hopTag name j := fun h => absurd (hopTag_injective name h) (by omega)
    rw [ih (by omega), lookup_cons, if_neg hne]

/-- **The table leads to the hops**: the entry of the `j`-th hop is its tag. -/
theorem claimHops_lookup {i j : ℕ} {deps : List JsonObject} {t : TagTable}
    (ho : (claimHops name i deps t).1[j]? = some o) :
    (lookup Prod.fst (hopTag name (i + j)) (claimHops name i deps t).2.depTags).map
      Prod.snd = some o.tag := by
  induction deps generalizing i j t with
  | nil => cases ho
  | cons dep deps ih =>
    unfold claimHops at ho ⊢
    cases j with
    | zero =>
      rw [List.getElem?_cons_zero] at ho
      rw [← Option.some.inj ho, Nat.add_zero, claimHops_lookup_of_lt (by omega),
        lookup_cons, if_pos rfl, JsonObject.tag_set_tag]
      rfl
    | succ j =>
      rw [List.getElem?_cons_succ] at ho
      have hindex : i + (j + 1) = i + 1 + j := by omega
      rw [hindex]
      exact ih ho

end Hops

section Nodes

/-- The tags of a node's hops. -/
def EmittedNode.hopTags (e : EmittedNode) : List String := e.hops.map JsonObject.tag

variable (entry : SingboxNode) (t : TagTable)

theorem emitNode_eq : emitNode entry t =
      ({ endpoint := entry.endpoint
         main := (rewriteDetour (claimHops entry.name 0 entry.hops t).2.depTags entry.name
           entry.main).set "tag" (.string entry.name)
         hops := (claimHops entry.name 0 entry.hops t).1.map
           (rewriteDetour (claimHops entry.name 0 entry.hops t).2.depTags entry.name) },
        (claimHops entry.name 0 entry.hops t).2) := by
  unfold emitNode
  cases hchain : entry.chain with
  | true => rfl
  | false =>
    have hhops : entry.hops = [] := by
      unfold SingboxNode.hops
      rw [entry.plain hchain]
      rfl
    rw [hhops]
    rfl

theorem emitNode_tag : (emitNode entry t).1.main.tag = entry.name := JsonObject.tag_set_tag _

theorem emitNode_hopTags : (emitNode entry t).1.hopTags =
      (claimHops entry.name 0 entry.hops t).1.map JsonObject.tag := by
  unfold EmittedNode.hopTags
  rw [emitNode_eq, List.map_map]
  exact List.map_congr_left fun o _ => rewriteDetour_tag _ o

theorem claimed_emitNode : Claimed (emitNode entry t).1.hopTags t (emitNode entry t).2 := by
  rw [emitNode_hopTags, emitNode_eq]
  exact claimed_claimHops 0 entry.hops t

theorem sameNode_emitNode : (emitNode entry t).1.main.SameNode entry.main :=
  (sameNode_rewriteDetour _ entry.main).set_tag

theorem sameNode_emitNode_hops :
    List.Forall₂ JsonObject.SameNode (emitNode entry t).1.hops entry.hops := by
  rw [emitNode_eq, List.forall₂_map_left_iff]
  refine (sameNode_claimHops 0 entry.hops t).imp fun o o' h key hkey hdetour => ?_
  exact (sameNode_rewriteDetour _ o key hkey hdetour).trans (h key hkey hdetour)

variable {entry t} {doc : SingboxDocument}

theorem SingboxDocument.visits_congr {o o' : JsonObject} {l : List JsonObject}
    (h : o.detour = o'.detour) : doc.Visits o l → doc.Visits o' l := by
  cases l with
  | nil => exact fun hv => h.symm.trans hv
  | cons next rest => exact fun ⟨⟨s, hs, hres⟩, hrest⟩ => ⟨⟨s, h.symm.trans hs, hres⟩, hrest⟩

theorem visits_of_detours {name : String} {depTags : List (String × String)} {i : ℕ}
    {o : JsonObject} {hops : List JsonObject}
    (hlink : (o :: hops).map JsonObject.detour = detoursFrom i hops.length)
    (htable : ∀ (j : ℕ) (x : JsonObject), hops[j]? = some x → (lookup Prod.fst (hopTag name (i
      + j)) depTags).map Prod.snd = some x.tag)
    (hres : ∀ x ∈ hops, doc.resolve x.tag = some (rewriteDetour depTags name x)) :
    doc.Visits (rewriteDetour depTags name o) (hops.map (rewriteDetour depTags name)) := by
  induction hops generalizing i o with
  | nil =>
    have hnone : o.detour = none := by simpa [detoursFrom] using hlink
    exact rewriteDetour_detour_none hnone
  | cons next rest ih =>
    rw [List.length_cons, detoursFrom_succ, List.map_cons, List.cons.injEq] at hlink
    obtain ⟨hdetour, hrest⟩ := hlink
    refine ⟨⟨next.tag, ?_, hres next (.head _)⟩, ih hrest (fun j x hx => ?_)
      fun x hx => hres x (.tail _ hx)⟩
    · exact rewriteDetour_detour_hop hdetour (htable 0 next rfl)
    · have hindex : i + 1 + j = i + (j + 1) := by omega
      rw [hindex]
      exact htable (j + 1) x hx

/-- **The references of a chain lead along its hops**, in a document that carries them under their
tags. -/
theorem visits_emitNode
    (hlink : (entry.main :: entry.hops).map JsonObject.detour = detoursFrom 0 entry.hops.length)
    (hres : ∀ x ∈ (emitNode entry t).1.hops, doc.resolve x.tag = some x) :
    doc.Visits (emitNode entry t).1.main (emitNode entry t).1.hops := by
  rw [emitNode_eq] at hres ⊢
  refine SingboxDocument.visits_congr JsonObject.detour_set_tag.symm ?_
  have hlength : (claimHops entry.name 0 entry.hops t).1.length = entry.hops.length :=
    (sameNode_claimHops 0 entry.hops t).length_eq
  refine visits_of_detours (i := 0) ?_ (fun j x hx => claimHops_lookup hx) fun x hx => ?_
  · rw [List.map_cons, claimHops_detours, hlength, ← List.map_cons]
    exact hlink
  · have hfound := hres _ (List.mem_map_of_mem hx)
    rwa [rewriteDetour_tag] at hfound

end Nodes

/-! ## Documents -/

section Documents

variable (entries : List SingboxNode) (t : TagTable)

theorem emitNodes_tags :
    (emitNodes entries t).1.map (fun e => e.main.tag) = entries.map SingboxNode.name := by
  induction entries generalizing t with
  | nil => rfl
  | cons entry entries ih =>
    unfold emitNodes
    rw [List.map_cons, List.map_cons, ih, emitNode_tag]

theorem claimed_emitNodes :
    Claimed ((emitNodes entries t).1.flatMap EmittedNode.hopTags) t (emitNodes entries t).2 := by
  induction entries generalizing t with
  | nil => exact Claimed.nil t
  | cons entry entries ih =>
    unfold emitNodes
    rw [List.flatMap_cons]
    exact (claimed_emitNode entry t).append (ih _)

theorem forall₂_emitNodes : List.Forall₂ (fun entry e => ∃ t', e = (emitNode entry t').1) entries
      (emitNodes entries t).1 := by
  induction entries generalizing t with
  | nil => exact List.Forall₂.nil
  | cons entry entries ih => exact List.Forall₂.cons ⟨t, rfl⟩ (ih _)

/-- The first node of a document can be read off it, once it is known whether it is an endpoint and
how many hops it has. -/
theorem EmittedNode.main_eq {e e' : EmittedNode} {l l' r r' : List JsonObject}
    (hendpoint : e.endpoint = e'.endpoint) (hlength : e.hops.length = e'.hops.length)
    (hout : e.outbounds ++ l = e'.outbounds ++ l') (hend : e.endpoints ++ r = e'.endpoints ++ r') :
    e.main = e'.main ∧ l = l' ∧ r = r' := by
  unfold outbounds at hout
  unfold endpoints at hend
  rw [hendpoint] at hout hend
  cases hcase : e'.endpoint with
  | true =>
    simp only [hcase, if_true, List.nil_append, List.singleton_append, List.cons.injEq] at hout hend
    exact ⟨hend.1, (List.append_inj hout hlength).2, hend.2⟩
  | false =>
    simp only [hcase, Bool.false_eq_true, if_false, List.nil_append, List.cons_append,
      List.cons.injEq] at hout hend
    exact ⟨hout.1, (List.append_inj hout.2 hlength).2, hend⟩

theorem perm_append_append {α : Type*} (a b c d : List α) :
    (a ++ b ++ (c ++ d)).Perm (a ++ c ++ (b ++ d)) := by
  rw [List.append_assoc, List.append_assoc]
  exact (List.perm_append_comm_assoc b c d).append_left a

theorem perm_objects (emitted : List EmittedNode) :
    (emitted.flatMap EmittedNode.outbounds ++ emitted.flatMap EmittedNode.endpoints).Perm
      (emitted.map EmittedNode.main ++ emitted.flatMap EmittedNode.hops) := by
  induction emitted with
  | nil => exact .refl _
  | cons e emitted ih =>
    rw [List.flatMap_cons, List.flatMap_cons, List.map_cons, List.flatMap_cons]
    -- the objects of the first node are its main object and its hops, on either side
    have hone : (e.outbounds ++ e.endpoints).Perm (e.main :: e.hops) := by
      unfold EmittedNode.outbounds EmittedNode.endpoints
      cases e.endpoint with
      | true => exact List.perm_append_comm
      | false => simp
    refine (perm_append_append ..).trans ((hone.append ih).trans ?_)
    exact perm_append_append [e.main] ..

/-- The nodes of a document, with the names taken from the start. -/
abbrev emitted : List EmittedNode × TagTable :=
  emitNodes entries { taken := entries.map SingboxNode.name }

variable (opt : ExportOptions)

theorem perm_tags : ∃ selectorTag autoTag,
      (singboxDocument entries opt).tags.Perm (selectorTag :: autoTag ::
        (entries.map SingboxNode.name ++ (emitted entries).1.flatMap EmittedNode.hopTags)) ∧
      selectorTag ∉ (emitted entries).2.taken ∧
      autoTag ∉ selectorTag :: (emitted entries).2.taken := by
  refine ⟨_, _, ?_, claimTag_not_mem (selectorTagOf opt) _, claimTag_not_mem (autoTagOf opt) _⟩
  refine List.Perm.cons _ (List.Perm.cons _ ?_)
  refine ((perm_objects _).map JsonObject.tag).trans ?_
  rw [List.map_append, List.map_map, List.map_flatMap]
  refine List.Perm.append ?_ (.refl _)
  exact List.Perm.of_eq (emitNodes_tags entries _)

variable {entries}

theorem nodup_tags (hnames : (entries.map SingboxNode.name).Nodup) :
    (singboxDocument entries opt).tags.Nodup := by
  obtain ⟨selectorTag, autoTag, hperm, hselector, hauto⟩ := perm_tags entries opt
  have hclaimed := claimed_emitNodes entries { taken := entries.map SingboxNode.name }
  have htaken : ∀ x ∈ entries.map SingboxNode.name ++
      (emitted entries).1.flatMap EmittedNode.hopTags, x ∈ (emitted entries).2.taken :=
    fun x hx => (hclaimed.taken x).mpr (List.mem_append.mp hx)
  refine hperm.nodup_iff.mpr (List.nodup_cons.mpr ⟨fun hin => ?_, List.nodup_cons.mpr
    ⟨fun hin => ?_, List.nodup_append.mpr ⟨hnames, hclaimed.nodup, ?_⟩⟩⟩)
  · rcases List.mem_cons.mp hin with heq | hin
    · exact hauto (heq ▸ .head _)
    · exact hselector (htaken _ hin)
  · exact hauto (.tail _ (htaken _ hin))
  · rintro x hx y hy rfl
    exact hclaimed.free x hy hx

variable {opt}

theorem members_mem_tags {group : JsonObject} {m : String}
    (hgroup : group ∈ (singboxDocument entries opt).outbounds.take 2) (hm : m ∈ group.members) :
    m ∈ (singboxDocument entries opt).tags := by
  have hnames : ∀ x ∈ entries.map SingboxNode.name, x ∈ (singboxDocument entries opt).tags := by
    intro x hx
    obtain ⟨selectorTag, autoTag, hperm, -⟩ := perm_tags entries opt
    refine hperm.mem_iff.mpr (.tail _ (.tail _ ?_))
    exact List.mem_append_left _ hx
  have htwo : (singboxDocument entries opt).outbounds.take 2 =
      [(singboxDocument entries opt).outbounds.head (by simp [singboxDocument]),
        (singboxDocument entries opt).outbounds.tail.head (by simp [singboxDocument])] := rfl
  rw [htwo, List.mem_cons, List.mem_singleton] at hgroup
  rcases hgroup with rfl | rfl
  · -- the selector offers the other group, and the nodes
    rcases List.mem_cons.mp hm with rfl | hm
    · exact .tail _ (.head _)
    · exact hnames m hm
  · exact hnames m hm

theorem resolve_of_mem {doc : SingboxDocument} (hnd : doc.tags.Nodup) {o : JsonObject}
    (ho : o ∈ doc.objects) : doc.resolve o.tag = some o :=
  lookup_of_mem hnd ho

theorem hop_mem_objects {e : EmittedNode} {x : JsonObject}
    (he : e ∈ (emitted entries).1) (hx : x ∈ e.hops) :
    x ∈ (singboxDocument entries opt).objects := by
  refine List.mem_append_left _ (.tail _ (.tail _ ?_))
  exact List.mem_flatMap.mpr ⟨e, he, List.mem_append_right _ hx⟩

end Documents

variable (codec : NodeCodec)

/-- The node as it is decoded for an export, if it is. -/
def singboxOf (n : ExportItem) : Option SingboxNode :=
  match codec.parseNodeDoc n.rawOptions with
  | .error _ => none
  | .ok doc =>
    if doc.engine = "mihomo" then none
    else (decodeSingboxNode codec ⟨n, doc, n.name⟩).toOption

/-- What is exported of an item, given the name that is rendered for it. -/
def exportedRow (row : ExportItem × String) : Option (String × SingboxNode) :=
  if row.2 = "" then none else (singboxOf codec row.1).map fun node => (row.2, node)

variable (nodes : List ExportItem) (opt : ExportOptions)

/-- The nodes of an export, with the names that are rendered for them. -/
def exportedNodes : List (String × SingboxNode) :=
  (nodes.zip (renderNames codec.toNodeReader nodes opt)).filterMap (exportedRow codec)

/-- **The items come with their names**: a node that is exported is called what is rendered for
it. -/
def OwnNames : Prop :=
  ∀ row ∈ nodes.zip (renderNames codec.toNodeReader nodes opt),
    row.2 ≠ "" → (singboxOf codec row.1).isSome = true → row.1.name = row.2
  deriving Decidable

/-- Every chain refers to its hops as "d0", "d1" and so on, in order. -/
def ChainsInOrder : Prop :=
  ∀ row ∈ exportedNodes codec nodes opt, row.2.chain = true →
    (row.2.main :: row.2.hops).map JsonObject.detour = detoursFrom 0 row.2.hops.length
  deriving Decidable

/-- A node is written under a name, as it was, and its references lead along its hops. -/
structure Renders (doc : SingboxDocument) (row : String × SingboxNode) (e : EmittedNode) :
    Prop where
  endpoint : e.endpoint = row.2.endpoint
  name : e.main.tag = row.1
  main : e.main.SameNode row.2.main
  hops : List.Forall₂ JsonObject.SameNode e.hops row.2.hops
  visits : row.2.chain = true → doc.Visits e.main e.hops

section Exports

variable {codec : NodeCodec} {nodes : List ExportItem} {opt : ExportOptions}

theorem name_decodeSingboxNode {p : PreparedItem} {entry : SingboxNode}
    (h : decodeSingboxNode codec p = .ok entry) : entry.name = p.item.name := by
  unfold decodeSingboxNode at h
  split at h
  · cases h
  · split at h
    · split at h
      · cases h
      · rw [← Except.ok.inj h]
    · rw [← Except.ok.inj h]

theorem name_singboxOf {n : ExportItem} {entry : SingboxNode} (h : singboxOf codec n = some entry) :
    entry.name = n.name := by
  unfold singboxOf at h
  split at h
  · cases h
  split at h
  · cases h
  rename_i doc _ _
  cases hd : decodeSingboxNode codec ⟨n, doc, n.name⟩ with
  | error err =>
    rw [hd] at h
    cases h
  | ok entry' =>
    rw [hd] at h
    rw [← Option.some.inj h]
    exact name_decodeSingboxNode hd

theorem planSingbox_go (rows : List (ExportItem × String)) :
    (planSingbox codec (prepareItems.go codec rows).1).1 =
      (rows.filterMap (exportedRow codec)).map Prod.snd := by
  induction rows with
  | nil => rfl
  | cons row rows ih =>
    obtain ⟨n, name⟩ := row
    rw [List.filterMap_cons]
    unfold prepareItems.go exportedRow
    by_cases hname : name = ""
    · simp only [hname, if_true]
      exact ih
    simp only [if_neg hname]
    unfold singboxOf
    cases codec.parseNodeDoc n.rawOptions with
    | error err => exact ih
    | ok doc =>
      simp only [planSingbox]
      by_cases hengine : doc.engine = "mihomo"
      · simp only [if_pos hengine, Option.map_none]
        exact ih
      · simp only [if_neg hengine]
        cases decodeSingboxNode codec ⟨n, doc, n.name⟩ with
        | error err => exact ih
        | ok entry => exact congrArg (entry :: ·) ih

variable {row : String × SingboxNode}

theorem mem_exportedNodes (h : row ∈ exportedNodes codec nodes opt) :
    ∃ n, (n, row.1) ∈ nodes.zip (renderNames codec.toNodeReader nodes opt) ∧ row.1 ≠ "" ∧
      singboxOf codec n = some row.2 := by
  obtain ⟨⟨n, name⟩, hmem, hrow⟩ := List.mem_filterMap.mp h
  unfold exportedRow at hrow
  split_ifs at hrow with hname
  obtain ⟨node, hnode, rfl⟩ := Option.map_eq_some_iff.mp hrow
  exact ⟨n, hmem, hname, hnode⟩

theorem name_exportedNodes (hown : OwnNames codec nodes opt)
    (hrow : row ∈ exportedNodes codec nodes opt) : row.2.name = row.1 := by
  obtain ⟨n, hmem, hname, hnode⟩ := mem_exportedNodes hrow
  exact (name_singboxOf hnode).trans (hown (n, row.1) hmem hname (by simp [hnode]))

theorem sublist_exportedRow (codec : NodeCodec) (rows : List (ExportItem × String)) :
    ((rows.filterMap (exportedRow codec)).map Prod.fst).Sublist
      ((rows.map Prod.snd).filter fun name => name ≠ "") := by
  induction rows with
  | nil => exact .refl _
  | cons row rows ih =>
    rw [List.filterMap_cons, List.map_cons]
    unfold exportedRow
    by_cases hname : row.2 = ""
    · simp only [if_pos hname]
      rw [List.filter_cons_of_neg (by simpa using hname)]
      exact ih
    · simp only [if_neg hname]
      rw [List.filter_cons_of_pos (by simpa using hname)]
      cases singboxOf codec row.1 with
      | none => exact ih.cons _
      | some node => exact ih.cons_cons _

theorem nodup_exportedNodes : ((exportedNodes codec nodes opt).map Prod.fst).Nodup := by
  have hsub := sublist_exportedRow codec (nodes.zip (renderNames codec.toNodeReader nodes opt))
  rw [List.map_snd_zip (by simp)] at hsub
  exact (renderNames_nodup codec.toNodeReader nodes opt).sublist hsub

theorem renders_emitNode (hchains : ChainsInOrder codec nodes opt) (hown : OwnNames codec nodes opt)
    (hrow : row ∈ exportedNodes codec nodes opt) {doc : SingboxDocument} {t : TagTable}
    (hres : ∀ x ∈ (emitNode row.2 t).1.hops, doc.resolve x.tag = some x) :
    Renders doc row (emitNode row.2 t).1 where
  endpoint := rfl
  name := (emitNode_tag row.2 t).trans (name_exportedNodes hown hrow)
  main := sameNode_emitNode row.2 t
  hops := sameNode_emitNode_hops row.2 t
  visits hchain := visits_emitNode (hchains row hrow hchain) hres

theorem doc_eq_of_export {doc : SingboxDocument} {report : ExportReport}
    (hexport : exportSingbox codec nodes opt = some (doc, report)) :
    doc = singboxDocument ((exportedNodes codec nodes opt).map Prod.snd) opt := by
  unfold exportSingbox at hexport
  dsimp only at hexport
  split_ifs at hexport
  unfold exportedNodes
  rw [← planSingbox_go]
  exact (Prod.mk.inj (Option.some.inj hexport)).1.symm

/-- Nodes that are in the document under their rendered names were written under them. -/
theorem names_of_renders {doc : SingboxDocument} {rows : List (String × SingboxNode)}
    {emitted : List EmittedNode} (h : List.Forall₂ (Renders doc) rows emitted) {t : TagTable}
    (hout : (emitNodes (rows.map Prod.snd) t).1.flatMap EmittedNode.outbounds =
      emitted.flatMap EmittedNode.outbounds)
    (hend : (emitNodes (rows.map Prod.snd) t).1.flatMap EmittedNode.endpoints =
      emitted.flatMap EmittedNode.endpoints) :
    ∀ row ∈ rows, row.2.name = row.1 := by
  induction h generalizing t with
  | nil => exact fun _ hrow => absurd hrow List.not_mem_nil
  | @cons first e rows emitted hfirst _ ih =>
    have hlength := (sameNode_emitNode_hops first.2 t).length_eq.trans hfirst.hops.length_eq.symm
    obtain ⟨hmain, hout, hend⟩ := EmittedNode.main_eq hfirst.endpoint.symm hlength hout hend
    intro row hrow
    rcases List.mem_cons.mp hrow with rfl | hrow
    · rw [← emitNode_tag row.2 t, hmain, hfirst.name]
    · exact ih hout hend row hrow

theorem ownNames_of_names
    (h : ∀ row ∈ exportedNodes codec nodes opt, row.2.name = row.1) : OwnNames codec nodes opt := by
  intro row hrow hname hsome
  obtain ⟨node, hnode⟩ := Option.isSome_iff_exists.mp hsome
  have hmem : (row.2, node) ∈ exportedNodes codec nodes opt := by
    refine List.mem_filterMap.mpr ⟨row, hrow, ?_⟩
    unfold exportedRow
    rw [if_neg hname, hnode]
    rfl
  exact (name_singboxOf hnode).symm.trans (h _ hmem)

/-- **Exactly when an exported document is sound.**  All tags are distinct, the nodes are there in
the order of the items and under their rendered names, the references of every chain lead along its
own hops, and the groups have no member that is not in the document, if and only if the items come
with the names that are rendered for them. -/
theorem singbox_document_sound (codec : NodeCodec) (nodes : List ExportItem) (opt : ExportOptions)
    {doc : SingboxDocument} {report : ExportReport}
    (hexport : exportSingbox codec nodes opt = some (doc, report))
    (hchains : ChainsInOrder codec nodes opt) :
    (doc.tags.Nodup ∧ (∃ emitted : List EmittedNode,
        doc.outbounds.drop 2 = emitted.flatMap EmittedNode.outbounds ∧
        doc.endpoints = emitted.flatMap EmittedNode.endpoints ∧
        List.Forall₂ (Renders doc) (exportedNodes codec nodes opt) emitted) ∧
      ∀ group ∈ doc.outbounds.take 2, ∀ m ∈ group.members, m ∈ doc.tags) ↔
    OwnNames codec nodes opt := by
  have hdoc := doc_eq_of_export hexport
  constructor
  · rintro ⟨-, ⟨emitted, hout, hend, hrenders⟩, -⟩
    rw [hdoc] at hout hend
    exact ownNames_of_names (names_of_renders hrenders hout hend)
  · intro hown
    set entries := (exportedNodes codec nodes opt).map Prod.snd with hentries
    have hnd : doc.tags.Nodup := by
      rw [hdoc]
      refine nodup_tags opt ?_
      have hnames : entries.map SingboxNode.name = (exportedNodes codec nodes opt).map Prod.fst := by
        rw [hentries, List.map_map]
        exact List.map_congr_left fun row hrow => name_exportedNodes hown hrow
      rw [hnames]
      exact nodup_exportedNodes
    refine ⟨hnd, ⟨(emitted entries).1, ?_, ?_, ?_⟩, ?_⟩
    · rw [hdoc]
      rfl
    · rw [hdoc]
      rfl
    · have hemitted := forall₂_emitNodes entries { taken := entries.map SingboxNode.name }
      rw [hentries, List.forall₂_map_left_iff] at hemitted
      obtain ⟨hlength, hrows⟩ := List.forall₂_iff_zip.mp hemitted
      refine List.forall₂_iff_zip.mpr ⟨hlength, fun {row e} hzip => ?_⟩
      obtain ⟨t', he⟩ := hrows hzip
      obtain ⟨hrow, hmem⟩ := List.of_mem_zip hzip
      rw [he] at hmem ⊢
      refine renders_emitNode hchains hown hrow fun x hx => resolve_of_mem hnd ?_
      rw [hdoc]
      exact hop_mem_objects hmem hx
    · intro group hgroup m hm
      rw [hdoc] at hgroup ⊢
      exact members_mem_tags hgroup hm

end Exports

/-! ## Two exports -/

/-- Documents by their first letter: a chain over two hops, or a plain node. -/
def sampleCodec : NodeCodec where
  toUpper s := s
  parseNodeDoc raw :=
    .ok
      (if raw = "chain" then
        { kind := .chain, engine := "singbox", type := "ss", chain := true, main := "main",
          deps := ["hop", "exit"] }
      else
        { kind := .outbound, engine := "singbox", type := "ss", chain := false, main := "node" })
  objectMap raw :=
    .ok (some
      (if raw = "main" then [("type", .string "ss"), ("detour", .string "d0")]
      else if raw = "hop" then [("type", .string "vless"), ("detour", .string "d1")]
      else [("type", .string "ss")]))

/-- A chain, a node that is called like its first hop, and a node that is called like a group. -/
def sampleNodes : List ExportItem :=
  [{ name := "a", rawOptions := "chain" }, { name := "a/d0", rawOptions := "node" },
    { name := "AUTO", rawOptions := "node" }]

theorem singbox_document_sound_sample :
    ChainsInOrder sampleCodec sampleNodes {} ∧ OwnNames sampleCodec sampleNodes {} ∧
      ∃ doc report, exportSingbox sampleCodec sampleNodes {} = some (doc, report) ∧
        doc.tags = ["PROXY", "AUTO #2", "a", "a/d0 #2", "a/d1", "a/d0", "AUTO"] ∧
        doc.tags.Nodup := by
  have hchains : ChainsInOrder sampleCodec sampleNodes {} := by decide +kernel
  have hown : OwnNames sampleCodec sampleNodes {} := by decide +kernel
  cases hexport : exportSingbox sampleCodec sampleNodes {} with
  | none => exact absurd hexport (by decide +kernel)
  | some result =>
    obtain ⟨doc, report⟩ := result
    refine ⟨hchains, hown, doc, report, rfl, ?_,
      ((singbox_document_sound sampleCodec sampleNodes {} hexport hchains).mpr hown).1⟩
    have htags : (exportSingbox sampleCodec sampleNodes {}).map (fun r => r.1.tags) =
        some ["PROXY", "AUTO #2", "a", "a/d0 #2", "a/d1", "a/d0", "AUTO"] := by
      decide +kernel
    rw [hexport] at htags
    exact Option.some.inj htags

/-- **A name that repeats is exported twice.**  Of two nodes called "a" the second one is to be
called "a #2", and both are written as "a"; and a template is not followed. -/
theorem repeated_name_exported :
    let twice : List ExportItem := [{ name := "a" }, { name := "a" }]
    let once : List ExportItem := [{ name := "a" }]
    renderNames sampleCodec.toNodeReader twice {} = ["a", "a #2"] ∧
      (exportSingbox sampleCodec twice {}).map (fun r => r.1.tags) =
        some ["PROXY", "AUTO", "a", "a"] ∧
      renderNames sampleCodec.toNodeReader once { nameTemplate := "{protocol} {name}" } = ["ss a"] ∧
      (exportSingbox sampleCodec once { nameTemplate := "{protocol} {name}" }).map
        (fun r => r.1.tags) = some ["PROXY", "AUTO", "a"] := by
  decide +kernel

end Prism
