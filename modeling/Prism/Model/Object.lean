import Prism.Foundation.Table

/-!
# Configuration objects

An outbound of a sing-box document is a JSON object.  Parser and exporter look at its tag, at the
`detour` that names the outbound it dials through, and at the members of a group; the other fields
are carried along.  The hops of a chain are called "d0", "d1" and so on.
-/

namespace Prism

open Table

/-- A value of an object, as far as it is looked into. -/
inductive JsonValue where
  | string (s : String)
  | strings (l : List String)
  | other (text : String)
  deriving DecidableEq

abbrev JsonObject := List (String × JsonValue)

namespace JsonObject

def get (o : JsonObject) (key : String) : Option JsonValue :=
  (lookup Prod.fst key o).map Prod.snd

def set (o : JsonObject) (key : String) (value : JsonValue) : JsonObject :=
  upsertWith Prod.fst (fun _ row => row) (key, value) o

def erase (o : JsonObject) (key : String) : JsonObject :=
  o.filter fun row => row.1 ≠ key

variable {o : JsonObject} {key key' : String} {value : JsonValue}

@[simp] theorem get_set_self : (o.set key value).get key = some value := by
  unfold get set
  rw [lookup_replace, if_pos rfl]
  rfl

theorem get_set_of_ne (h : key' ≠ key) : (o.set key value).get key' = o.get key' := by
  unfold get set
  rw [lookup_replace, if_neg h]

@[simp] theorem get_erase_self : (o.erase key).get key = none := by
  unfold get erase
  rw [lookup_filter_ne, if_pos rfl]
  rfl

theorem get_erase_of_ne (h : key' ≠ key) : (o.erase key).get key' = o.get key' := by
  unfold get erase
  rw [lookup_filter_ne, if_neg h]

def tag (o : JsonObject) : String :=
  match o.get "tag" with
  | some (.string t) => t
  | _ => ""

def detour (o : JsonObject) : Option String :=
  match o.get "detour" with
  | some (.string t) => some t
  | _ => none

def members (o : JsonObject) : List String :=
  match o.get "outbounds" with
  | some (.strings l) => l
  | _ => []

@[simp] theorem tag_set_tag (t : String) : (o.set "tag" (.string t)).tag = t := by
  unfold tag
  rw [get_set_self]

@[simp] theorem tag_set_detour : (o.set "detour" value).tag = o.tag := by
  unfold tag
  rw [get_set_of_ne (by decide)]

@[simp] theorem detour_set_tag : (o.set "tag" value).detour = o.detour := by
  unfold detour
  rw [get_set_of_ne (by decide)]

@[simp] theorem detour_set_detour (t : String) : (o.set "detour" (.string t)).detour = some t := by
  unfold detour
  rw [get_set_self]

@[simp] theorem tag_erase_detour : (o.erase "detour").tag = o.tag := by
  unfold tag
  rw [get_erase_of_ne (by decide)]

@[simp] theorem detour_erase_detour : (o.erase "detour").detour = none := by
  unfold detour
  rw [get_erase_self]

/-- The two objects differ in tag and detour at most. -/
def SameNode (o o' : JsonObject) : Prop :=
  ∀ key, key ≠ "tag" → key ≠ "detour" → o.get key = o'.get key

theorem SameNode.refl (o : JsonObject) : o.SameNode o := fun _ _ _ => rfl

variable {o' : JsonObject}

theorem SameNode.set_tag (h : o.SameNode o') :
    (o.set "tag" value).SameNode o' := fun key hkey hdetour => by
  rw [get_set_of_ne hkey]
  exact h key hkey hdetour

theorem SameNode.set_detour (h : o.SameNode o') :
    (o.set "detour" value).SameNode o' := fun key hkey hdetour => by
  rw [get_set_of_ne hdetour]
  exact h key hkey hdetour

/-- The main object of a chain tells what node it dials, and nothing else. -/
theorem get_main_eq_iff (value : JsonValue) :
    (∀ key, ((o.erase "tag").set "detour" value).get key =
      ((o'.erase "tag").set "detour" value).get key) ↔ o.SameNode o' := by
  constructor
  · intro h key htag hdetour
    have hkey := h key
    rwa [get_set_of_ne hdetour, get_set_of_ne hdetour, get_erase_of_ne htag,
      get_erase_of_ne htag] at hkey
  · intro h key
    by_cases hdetour : key = "detour"
    · rw [hdetour, get_set_self, get_set_self]
    rw [get_set_of_ne hdetour, get_set_of_ne hdetour]
    by_cases htag : key = "tag"
    · rw [htag, get_erase_self, get_erase_self]
    · rw [get_erase_of_ne htag, get_erase_of_ne htag, h key htag hdetour]

end JsonObject

/-- The tag of a hop, by its place in the chain. -/
def depTag (i : ℕ) : String := "d" ++ toString i

/-- The references of a chain, in order: from the node to its first hop, and so on from hop to
hop. -/
def detoursFrom (i n : ℕ) : List (Option String) :=
  (List.range' i n).map (fun k => some (depTag k)) ++ [none]

theorem detoursFrom_succ (i n : ℕ) :
    detoursFrom i (n + 1) = some (depTag i) :: detoursFrom (i + 1) n := by
  unfold detoursFrom
  rw [List.range'_succ, List.map_cons, List.cons_append]

end Prism
