import Prism.Foundation.Fresh
import Prism.Foundation.Table
import Prism.Foundation.Text

/-!
# The names of exported nodes

`internal/export/names.go`.  Every node of an export is given a name from a template: the
placeholders are replaced, runs of white space become one blank, and what is longer than 64 bytes is
cut off at a character.  That is the *base* of the name.  The first node with a base keeps it; the
others get " #2", " #3" and so on behind it, cut to 64 bytes again, the first of these that no node
has.  All bases count as taken from the start, so a node that is really called "a #2" keeps its name.
-/

namespace Prism

/-- What is known about the egress address of a node, as far as names use it. -/
structure IntelEvidence where
  countryCode : String := ""
  city : String := ""
  asn : String := ""
  organization : String := ""

structure IntelAssessment where
  purityScore : Option ℤ := none
  purityBand : String := ""
  verdict : String := ""
  networkType : String := ""

structure IntelSummary where
  evidence : Option IntelEvidence := none
  assessment : Option IntelAssessment := none

/-- `Item`: one node that is to be exported. -/
structure ExportItem where
  name : String
  rawOptions : String := ""
  intel : Option IntelSummary := none

structure ExportOptions where
  nameTemplate : String := ""
  selectorTag : String := ""
  autoTag : String := ""
  includeIntel : Bool := false

inductive DocKind where
  | outbound
  | endpoint
  | chain
  | proxy
  deriving DecidableEq

/-- `NodeDoc`: a node document taken apart, the objects in it still encoded. -/
structure NodeDoc where
  kind : DocKind
  engine : String
  type : String
  chain : Bool
  main : String
  deps : List String := []

/-- Texts are given: how a node document is taken apart, and `strings.ToUpper`. -/
structure NodeReader where
  parseNodeDoc : String → Except String NodeDoc
  toUpper : String → String

variable (reader : NodeReader)

/-- The flag of a country code, as two regional indicators. -/
def countryFlag (code : String) : String :=
  match (reader.toUpper (trimSpace code)).toList with
  | [first, second] =>
    if 'A' ≤ first ∧ first ≤ 'Z' ∧ 'A' ≤ second ∧ second ≤ 'Z' then
      String.ofList [Char.ofNat (0x1F1E6 + (first.toNat - 'A'.toNat)),
        Char.ofNat (0x1F1E6 + (second.toNat - 'A'.toNat))]
    else ""
  | _ => ""

def documentValues (item : ExportItem) : List (String × String) :=
  match reader.parseNodeDoc item.rawOptions with
  | .error _ => []
  | .ok doc => [("engine", doc.engine), ("protocol", doc.type)]

def evidenceValues (e : IntelEvidence) : List (String × String) :=
  [("country", reader.toUpper (trimSpace e.countryCode)),
    ("flag", countryFlag reader e.countryCode), ("city", trimSpace e.city),
    ("asn", trimSpace e.asn), ("org", trimSpace e.organization)]

def assessmentValues (a : IntelAssessment) : List (String × String) :=
  (match a.purityScore with
    | none => []
    | some score => [("purity", toString score)]) ++
  [("band", a.purityBand), ("verdict", a.verdict), ("ip_type", a.networkType)]

def templateValues (item : ExportItem) (index : ℕ) (opt : ExportOptions) : List (String × String) :=
  [("name", item.name), ("index", toString (index + 1))] ++ documentValues reader item ++
    match item.intel with
    | none => []
    | some intel =>
      if opt.includeIntel = false then []
      else ((intel.evidence.map (evidenceValues reader)).getD []) ++
        ((intel.assessment.map assessmentValues).getD [])

/-- The placeholders are replaced from left to right.  Behind an opening brace the characters up to
the closing one are collected; if there is none, they are written as they are. -/
def renderFrom (values : List (String × String)) : Option (List Char) → List Char → List Char
  | none, [] => []
  | some token, [] => '{' :: token
  | none, c :: rest =>
    if c = '{' then renderFrom values (some []) rest else c :: renderFrom values none rest
  | some token, c :: rest =>
    if c = '}' then
      ((Table.lookup Prod.fst (String.ofList token) values).elim "" Prod.snd).toList ++
        renderFrom values none rest
    else renderFrom values (some (token ++ [c])) rest

def renderTemplate (template : String) (item : ExportItem) (index : ℕ)
    (opt : ExportOptions) : String :=
  String.ofList (renderFrom (templateValues reader item index opt) none template.toList)

/-- The room for a name, in bytes. -/
def maxNameLength : ℕ := 64

def maxNameVariants : ℕ := 4096

/-- `pending` says that white space was passed over, `written` that something stands before it. -/
def compressFrom (pending written : Bool) : List Char → List Char
  | [] => []
  | c :: rest =>
    if c = ' ' ∨ c = '\t' ∨ c = '\n' ∨ c = '\r' then compressFrom true written rest
    else if pending && written then ' ' :: c :: compressFrom false true rest
    else c :: compressFrom false true rest

def compressSpace (raw : String) : String := String.ofList (compressFrom false false raw.toList)

def takeBytes (limit : ℕ) : List Char → List Char
  | [] => []
  | c :: rest => if c.utf8Size ≤ limit then c :: takeBytes (limit - c.utf8Size) rest else []

/-- A name is cut at the last character that begins at or before the limit. -/
def truncateName (raw : String) (limit : ℕ) : String :=
  if limit = 0 then ""
  else if raw.utf8ByteSize ≤ limit then raw
  else String.ofList (takeBytes limit raw.toList)

def clampName (raw : String) : String := trimSpace (truncateName (compressSpace raw) maxNameLength)

/-- What tells the namesakes apart. -/
def nameSuffix (k : ℕ) : String := " #" ++ toString k

variable (base : String)

def nameVariant (k : ℕ) : String :=
  let room := maxNameLength - (nameSuffix k).utf8ByteSize
  (if base.utf8ByteSize > room then truncateName base room else base) ++ nameSuffix k

def suffixedName (taken : List String) : String :=
  (firstFree taken ((List.range' 2 (maxNameVariants - 1)).map (nameVariant base))).getD ""

def assignNames (taken earlier : List String) : List String → List String
  | [] => []
  | base :: bases =>
    if base = "" then "" :: assignNames taken (earlier ++ [base]) bases
    else if base ∈ earlier then
      let name := suffixedName base taken
      name :: assignNames (if name = "" then taken else name :: taken) (earlier ++ [base]) bases
    else base :: assignNames taken (earlier ++ [base]) bases

def nameTemplateOf (opt : ExportOptions) : String :=
  if trimSpace opt.nameTemplate = "" then "{name}" else trimSpace opt.nameTemplate

variable (items : List ExportItem)

def baseNames (opt : ExportOptions) : List String :=
  items.mapIdx fun i item => clampName (renderTemplate reader (nameTemplateOf opt) item i opt)

def renderNames (opt : ExportOptions) : List String :=
  let bases := baseNames reader items opt
  assignNames (bases.filter fun base => base ≠ "") [] bases

/-! ## The length of a name -/

theorem utf8ByteSize_takeBytes_le (limit : ℕ) (l : List Char) :
    (String.ofList (takeBytes limit l)).utf8ByteSize ≤ limit := by
  induction l generalizing limit with
  | nil => simp [takeBytes]
  | cons c l ih =>
    unfold takeBytes
    split
    · have hrest := ih (limit - c.utf8Size)
      rw [String.ofList_cons, String.utf8ByteSize_append, String.utf8ByteSize_singleton]
      omega
    · simp

theorem utf8ByteSize_truncateName_le (raw : String) (limit : ℕ) :
    (truncateName raw limit).utf8ByteSize ≤ limit := by
  unfold truncateName
  split
  · simp
  · split
    · assumption
    · exact utf8ByteSize_takeBytes_le limit raw.toList

theorem utf8ByteSize_nameSuffix (k : ℕ) :
    (nameSuffix k).utf8ByteSize = 2 + (Nat.repr k).utf8ByteSize :=
  String.utf8ByteSize_append

theorem utf8ByteSize_nameVariant_le {k : ℕ} (hk : k ≤ maxNameVariants) :
    (nameVariant base k).utf8ByteSize ≤ maxNameLength := by
  have hsuffix : (nameSuffix k).utf8ByteSize ≤ maxNameLength := by
    have hdigits : (Nat.repr k).length ≤ 4 :=
      (Nat.length_repr_le_iff (by decide)).mpr (lt_of_le_of_lt hk (by decide))
    have hsize := utf8ByteSize_le (Nat.repr k)
    rw [utf8ByteSize_nameSuffix]
    unfold maxNameLength
    omega
  unfold nameVariant
  rw [String.utf8ByteSize_append]
  split
  · have hcut := utf8ByteSize_truncateName_le base (maxNameLength - (nameSuffix k).utf8ByteSize)
    omega
  · omega

theorem nameVariant_ne_empty (k : ℕ) : nameVariant base k ≠ "" := by
  intro h
  have hsize := congrArg String.utf8ByteSize h
  unfold nameVariant at hsize
  rw [String.utf8ByteSize_append, utf8ByteSize_nameSuffix, String.utf8ByteSize_empty] at hsize
  omega

/-! ## One item -/

theorem suffixedName_cases (taken : List String) : (suffixedName base taken = "" ∧
      ∀ k, 2 ≤ k → k ≤ maxNameVariants → nameVariant base k ∈ taken) ∨
    suffixedName base taken ∉ taken ∧
      ∃ k, k ≤ maxNameVariants ∧ suffixedName base taken = nameVariant base k := by
  unfold suffixedName
  cases hf : firstFree taken ((List.range' 2 (maxNameVariants - 1)).map (nameVariant base)) with
  | none =>
    refine .inl ⟨rfl, fun k hlow hhigh => firstFree_eq_none_iff.mp hf _ ?_⟩
    refine List.mem_map_of_mem (List.mem_range'_1.mpr ⟨hlow, ?_⟩)
    omega
  | some name =>
    obtain ⟨k, hk, rfl⟩ := List.mem_map.mp (List.mem_of_find?_eq_some hf)
    have hrange := List.mem_range'_1.mp hk
    refine .inr ⟨not_mem_of_firstFree hf, k, ?_, rfl⟩
    omega

/-- What naming an item does: a base that is new is kept, another one gives a free name or, when no
variant of it is free, none. -/
structure ItemNamed (taken earlier : List String) (base name : String) (taken' : List String) :
    Prop where
  kept : base ∉ earlier → name = base
  fresh : base ∈ earlier → name ≠ "" → name ∉ taken ∧ name ∈ taken'
  short : base.utf8ByteSize ≤ maxNameLength → name.utf8ByteSize ≤ maxNameLength
  full : base ≠ "" → name = "" → ∀ k, 2 ≤ k → k ≤ maxNameVariants → nameVariant base k ∈ taken
  grows : taken ⊆ taken'
  added : ∀ v ∈ taken', v ∈ taken ∨ v = name

section Items

variable {taken taken' earlier bases names : List String} {base name : String}

theorem itemNamed_suffixedName (hused : base ∈ earlier) :
    ItemNamed taken earlier base (suffixedName base taken)
      (if suffixedName base taken = "" then taken else suffixedName base taken :: taken) := by
  rcases suffixedName_cases base taken with ⟨hempty, hall⟩ | ⟨hfree, k, hk, hvariant⟩
  · rw [hempty, if_pos rfl]
    exact ⟨fun h => absurd hused h, fun _ h => absurd rfl h, fun _ => by simp, fun _ _ => hall,
      fun _ h => h, fun _ h => .inl h⟩
  · rw [if_neg (hvariant ▸ nameVariant_ne_empty base k)]
    refine ⟨fun h => absurd hused h, fun _ _ => ⟨hfree, .head _⟩, fun _ => ?_, fun _ hempty => ?_,
      fun _ h => .tail _ h, fun _ h => (List.mem_cons.mp h).symm⟩
    · rw [hvariant]
      exact utf8ByteSize_nameVariant_le base hk
    · exact absurd (hvariant.symm.trans hempty) (nameVariant_ne_empty base k)

theorem assignNames_cons (taken earlier : List String) (base : String) (bases : List String) :
    ∃ name taken', ItemNamed taken earlier base name taken' ∧
      assignNames taken earlier (base :: bases) =
        name :: assignNames taken' (earlier ++ [base]) bases := by
  by_cases hbase : base = ""
  · exact ⟨"", taken, ⟨fun _ => hbase.symm, fun _ h => absurd rfl h, fun _ => by simp,
      fun h => absurd hbase h, fun _ h => h, fun _ h => .inl h⟩, if_pos hbase⟩
  by_cases hused : base ∈ earlier
  · exact ⟨_, _, itemNamed_suffixedName hused, (if_neg hbase).trans (if_pos hused)⟩
  · exact ⟨base, taken, ⟨fun _ => rfl, fun h => absurd h hused, id, fun _ h => absurd h hbase,
      fun _ h => h, fun _ h => .inl h⟩, (if_neg hbase).trans (if_neg hused)⟩

/-! ## All items -/

theorem length_assignNames : (assignNames taken earlier bases).length = bases.length := by
  induction bases generalizing taken earlier with
  | nil => rfl
  | cons base bases ih =>
    obtain ⟨name, taken', -, heq⟩ := assignNames_cons taken earlier base bases
    rw [heq, List.length_cons, ih, List.length_cons]

theorem utf8ByteSize_assignNames_le (h : ∀ base ∈ bases, base.utf8ByteSize ≤ maxNameLength) :
    ∀ name ∈ assignNames taken earlier bases, name.utf8ByteSize ≤ maxNameLength := by
  induction bases generalizing taken earlier with
  | nil => simp [assignNames]
  | cons base bases ih =>
    obtain ⟨name, taken', hitem, heq⟩ := assignNames_cons taken earlier base bases
    rw [heq, List.forall_mem_cons]
    exact ⟨hitem.short (h base (.head _)), ih fun b hb => h b (.tail _ hb)⟩

theorem getElem?_assignNames {i : ℕ} (hi : bases[i]? = some base) (hnew : base ∉ earlier)
    (hfirst : base ∉ bases.take i) : (assignNames taken earlier bases)[i]? = some base := by
  induction bases generalizing taken earlier i with
  | nil => simp at hi
  | cons b bases ih =>
    obtain ⟨name, taken', hitem, heq⟩ := assignNames_cons taken earlier b bases
    rw [heq]
    cases i with
    | zero =>
      obtain rfl : b = base := by simpa using hi
      simp [hitem.kept hnew]
    | succ i =>
      rw [List.take_succ_cons, List.mem_cons, not_or] at hfirst
      exact ih (by simpa using hi) (by simp [hnew, hfirst.1]) hfirst.2

theorem variant_mem_of_empty {i k : ℕ} (hi : bases[i]? = some base) (hbase : base ≠ "")
    (hempty : (assignNames taken earlier bases)[i]? = some "") (hlow : 2 ≤ k)
    (hhigh : k ≤ maxNameVariants) :
    nameVariant base k ∈ taken ∨ nameVariant base k ∈ assignNames taken earlier bases := by
  induction bases generalizing taken earlier i with
  | nil => simp at hi
  | cons b bases ih =>
    obtain ⟨name, taken', hitem, heq⟩ := assignNames_cons taken earlier b bases
    rw [heq] at hempty ⊢
    cases i with
    | zero =>
      obtain rfl : b = base := by simpa using hi
      obtain rfl : name = "" := by simpa using hempty
      exact .inl (hitem.full hbase rfl k hlow hhigh)
    | succ i =>
      rcases ih (by simpa using hi) (by simpa using hempty) with h | h
      · exact (hitem.added _ h).imp_right fun hv => List.mem_cons.mpr (.inl hv)
      · exact .inr (.tail _ h)

/-- The names given to items with these bases: they are distinct, and each is the base of an item
that comes first with it, or a name that was not taken. -/
structure Named (taken earlier bases names : List String) : Prop where
  nodup : (names.filter fun name => name ≠ "").Nodup
  origin : ∀ name ∈ names, name ≠ "" → (name ∈ bases ∧ name ∉ earlier) ∨ name ∉ taken

theorem Named.cons (hitem : ItemNamed taken earlier base name taken')
    (htaken : ∀ b ∈ base :: bases, b ≠ "" → b ∈ taken)
    (h : Named taken' (earlier ++ [base]) bases names) :
    Named taken earlier (base :: bases) (name :: names) := by
  refine ⟨?_, List.forall_mem_cons.mpr ⟨fun hne => ?_, fun v hv hne => ?_⟩⟩
  · by_cases hne : name = ""
    · rw [List.filter_cons_of_neg (by simpa using hne)]
      exact h.nodup
    rw [List.filter_cons_of_pos (by simpa using hne), List.nodup_cons]
    refine ⟨fun hin => ?_, h.nodup⟩
    -- no later item has the name: it was free, or it is a base the earlier items did not have
    rcases h.origin name (List.mem_filter.mp hin).1 hne with ⟨hlater, hlate⟩ | hnot
    · by_cases hused : base ∈ earlier
      · exact (hitem.fresh hused hne).1 (htaken name (.tail _ hlater) hne)
      · exact hlate (by simp [hitem.kept hused])
    · by_cases hused : base ∈ earlier
      · exact hnot (hitem.fresh hused hne).2
      · rw [hitem.kept hused] at hne hnot
        exact hnot (hitem.grows (htaken base (.head _) hne))
  · by_cases hused : base ∈ earlier
    · exact .inr (hitem.fresh hused hne).1
    · rw [hitem.kept hused]
      exact .inl ⟨.head _, hused⟩
  · refine (h.origin v hv hne).imp (fun ⟨hin, hnew⟩ => ⟨.tail _ hin, fun hold => hnew ?_⟩)
      fun hnot hin => hnot (hitem.grows hin)
    exact List.mem_append_left _ hold

theorem named_assignNames (htaken : ∀ base ∈ bases, base ≠ "" → base ∈ taken) :
    Named taken earlier bases (assignNames taken earlier bases) := by
  induction bases generalizing taken earlier with
  | nil => exact ⟨List.nodup_nil, fun name hname => nomatch hname⟩
  | cons base bases ih =>
    obtain ⟨name, taken', hitem, heq⟩ := assignNames_cons taken earlier base bases
    rw [heq]
    exact (ih fun b hb hne => hitem.grows (htaken b (.tail _ hb) hne)).cons hitem htaken

end Items

@[simp] theorem length_renderNames (reader : NodeReader) (items : List ExportItem)
    (opt : ExportOptions) : (renderNames reader items opt).length = items.length := by
  unfold renderNames baseNames
  simp [length_assignNames]

theorem renderNames_nodup (opt : ExportOptions) :
    ((renderNames reader items opt).filter fun name => name ≠ "").Nodup := by
  refine (named_assignNames fun base hbase hne => ?_).nodup
  exact List.mem_filter.mpr ⟨hbase, decide_eq_true hne⟩

/-- **Exported names are distinct, bounded and stable.**  An item that goes without a name finds its
base and every variant of it among the names: they are those of other items. -/
theorem renderNames_sound (reader : NodeReader) (items : List ExportItem) (opt : ExportOptions) :
    let bases := baseNames reader items opt
    let names := renderNames reader items opt
    names.length = items.length ∧
    (names.filter fun name => name ≠ "").Nodup ∧
    (∀ name ∈ names, name.utf8ByteSize ≤ maxNameLength) ∧
    (∀ (i : ℕ) base, bases[i]? = some base → base ∉ bases.take i → names[i]? = some base) ∧
    ∀ (i : ℕ) base, bases[i]? = some base → base ≠ "" → names[i]? = some "" →
      base ∈ names ∧ ∀ k, 2 ≤ k → k ≤ maxNameVariants → nameVariant base k ∈ names := by
  intro bases names
  have hfirst : ∀ (i : ℕ) base, bases[i]? = some base → base ∉ bases.take i →
      names[i]? = some base :=
    fun i base hi h => getElem?_assignNames hi List.not_mem_nil h
  have hheld : ∀ base ∈ bases, base ∈ names := by
    intro base hbase
    refine List.mem_of_getElem? (hfirst (bases.idxOf base) base (List.getElem?_idxOf hbase) ?_)
    simp [List.mem_take_iff_idxOf_lt hbase]
  refine ⟨length_renderNames reader items opt, renderNames_nodup reader items opt, ?_, hfirst, ?_⟩
  · refine utf8ByteSize_assignNames_le fun base hbase => ?_
    obtain ⟨i, hi, rfl⟩ := List.mem_mapIdx.mp hbase
    exact (utf8ByteSize_trimSpace_le _).trans (utf8ByteSize_truncateName_le _ _)
  · intro i base hi hbase hempty
    refine ⟨hheld base (List.mem_of_getElem? hi), fun k hlow hhigh => ?_⟩
    rcases variant_mem_of_empty hi hbase hempty hlow hhigh with h | h
    · exact hheld _ (List.mem_filter.mp h).1
    · exact h

end Prism
