import Prism.Foundation.Table

/-!
# The registry of live sessions

`internal/usage/connregistry.go`.  What each key has open, so that it can be counted and hung up on.
A key with nothing open has no set: `Track` makes one, and `Untrack` drops the set it has emptied.
`CloseKey` takes the whole set out and closes what was in it.

Every function here is one `Compute` of the source's map, except that `Count` is a load.  A session
is known by the identity of its handle.
-/

namespace Prism

open Table

/-- A session, by the identity of its handle. -/
abbrev Handle := ℕ

/-- The sessions a key has open. -/
structure ConnSet where
  keyID : String
  conns : List Handle

/-- The map from keys to what they have open. -/
structure ConnRegistry where
  sets : List ConnSet := []

namespace ConnRegistry

variable (r : ConnRegistry) (keyID : String)

/-- The set of a key, if it has one. -/
def set : Option ConnSet := lookup ConnSet.keyID keyID r.sets

/-- What a key has open. -/
def held : List Handle := (r.set keyID).elim [] ConnSet.conns

/-- `Track`: a key's first session makes its set. -/
def track (conn : Handle) : ConnRegistry :=
  if keyID = "" then r
  else
    { sets := upsertWith ConnSet.keyID
        (fun old _ => { old with conns := old.conns.insert conn }) ⟨keyID, [conn]⟩ r.sets }

/-- Take a key's set out of the map. -/
def detach : ConnRegistry := { sets := r.sets.filter fun set => set.keyID ≠ keyID }

/-- `Untrack`: the set goes with its last session. -/
def untrack (conn : Handle) : ConnRegistry :=
  if keyID = "" then r
  else
    match r.set keyID with
    | none => r
    | some set =>
      if set.conns.filter (fun c => c ≠ conn) = [] then r.detach keyID
      else
        { sets := updateWhere (fun set => set.keyID = keyID)
            (fun set => { set with conns := set.conns.filter fun c => c ≠ conn }) r.sets }

/-- `Count`. -/
def count : ℕ :=
  if keyID = "" then 0 else (r.held keyID).length

/-- Take out the sessions of a key; they are closed one by one afterwards. -/
def closeKey : List Handle × ConnRegistry :=
  if keyID = "" then ([], r)
  else
    match r.set keyID with
    | none => ([], r)
    | some set => (set.conns, r.detach keyID)

/-! ## What the operations leave -/

variable {r keyID}

variable {k : String} {c conn : Handle}

theorem mem_held_detach : c ∈ (r.detach keyID).held k ↔ c ∈ r.held k ∧ k ≠ keyID := by
  unfold held set detach
  rw [lookup_filter_ne]
  by_cases h : k = keyID <;> simp [h]

theorem mem_held_track (hkey : keyID ≠ "") :
    c ∈ (r.track keyID conn).held k ↔ c ∈ r.held k ∨ k = keyID ∧ c = conn := by
  have hmerge : ∀ old row : ConnSet, old.keyID = row.keyID →
      ({ old with conns := old.conns.insert conn } : ConnSet).keyID = row.keyID := fun _ _ h => h
  unfold held set track
  rw [if_neg hkey]
  by_cases h : k = keyID
  · rw [h]
    have hself := lookup_upsertWith_self ConnSet.keyID
      (fun old _ => { old with conns := old.conns.insert conn }) hmerge ⟨keyID, [conn]⟩ r.sets
    rw [hself]
    cases lookup ConnSet.keyID keyID r.sets with
    | none => simp
    | some old => simp [or_comm]
  · rw [lookup_upsertWith_of_ne ConnSet.keyID _ hmerge _ h]
    simp [h]

theorem held_of_set_none (hset : r.set keyID = none) (hc : c ∈ r.held k) : k ≠ keyID := by
  rintro rfl
  simp [held, hset] at hc

theorem mem_held_untrack (hkey : keyID ≠ "") :
    c ∈ (r.untrack keyID conn).held k ↔ c ∈ r.held k ∧ ¬ (k = keyID ∧ c = conn) := by
  unfold untrack
  rw [if_neg hkey]
  cases hset : r.set keyID with
  | none => exact ⟨fun hc => ⟨hc, fun h => held_of_set_none hset hc h.1⟩, fun h => h.1⟩
  | some set =>
    have hheld : r.held keyID = set.conns := by
      unfold held
      rw [hset]
      rfl
    dsimp only
    split
    · rename_i hempty
      -- whatever the key has open is this handle
      rw [mem_held_detach]
      refine and_congr_right fun hc => not_congr ⟨fun h => ⟨h, ?_⟩, fun h => h.1⟩
      rw [h, hheld] at hc
      simpa using List.filter_eq_nil_iff.mp hempty c hc
    unfold ConnRegistry.set at hset
    unfold held ConnRegistry.set
    rw [lookup_updateWhere ConnSet.keyID]
    swap
    · exact fun _ _ => rfl
    cases hother : lookup ConnSet.keyID k r.sets with
    | none => simp
    | some other =>
      have hid : other.keyID = k := key_of_lookup hother
      by_cases h : k = keyID <;> simp [hid, h]

theorem closeKey_fst (hkey : keyID ≠ "") : (r.closeKey keyID).1 = r.held keyID := by
  unfold closeKey held
  rw [if_neg hkey]
  cases r.set keyID with
  | none | some => rfl

theorem mem_held_closeKey (hkey : keyID ≠ "") :
    c ∈ (r.closeKey keyID).2.held k ↔ c ∈ r.held k ∧ k ≠ keyID := by
  unfold closeKey
  rw [if_neg hkey]
  cases hset : r.set keyID with
  | none => exact ⟨fun hc => ⟨hc, held_of_set_none hset hc⟩, fun h => h.1⟩
  | some set => exact mem_held_detach

end ConnRegistry

end Prism
