import StateSpectre.Slots

/-!
# Reclaiming canonical objects

A canonical object is held by the ranks that created it or attached to it. It is
reclaimed with its run, its cold copy and its table entries (`releaseObject`)
when it is dropped, or when its last holder has gone (`maybeFreeObject`), unless
a transfer of it is under way.
-/

namespace StateSpectre

variable (c : Config) (s : State)

/-- The object is being exported or restored. -/
def CanonicalObject.inFlight (o : CanonicalObject) : Bool :=
  decide (0 < o.exportRefcount) || decide (0 < o.restoreRefcount)

/-- A rank lets go of the object. -/
def CanonicalObject.dropHolder (o : CanonicalObject) (rankId : ℕ) : CanonicalObject :=
  { o with holders := o.holders.erase rankId, refcount := (o.holders.erase rankId).card }

/-- A rank holds the object. -/
def CanonicalObject.addHolder (o : CanonicalObject) (rankId : ℕ) : CanonicalObject :=
  { o with holders := insert rankId o.holders, refcount := (insert rankId o.holders).card }

/-- Changing an object, if it is there. -/
def State.modifyObject (objectId : ℕ) (f : CanonicalObject → CanonicalObject) : State :=
  { s with catalog := { s.catalog with objects := s.catalog.objects.modify objectId f } }

/-- An object that leaves the catalog gives its bytes back to its job. -/
def CanonicalObject.uncharge (o : CanonicalObject) (j : JobRecord) : JobRecord :=
  { j with
    pinnedBytes := if o.nbytes ≤ j.pinnedBytes then j.pinnedBytes - o.nbytes else j.pinnedBytes
    canonicalObjectCount := j.canonicalObjectCount - 1 }

/-- The lease and the location of an object are dropped, and its entries in the
    catalog. -/
def unlinkObject (objectId : ℕ) (o : CanonicalObject) : State :=
  { s with
    store := (s.store.dropLease o.leaseId).dropLocation (canonicalTid objectId)
    catalog :=
      { s.catalog with
        objects := s.catalog.objects.erase objectId
        objectByKey := s.catalog.objectByKey.erase o.keyStr
        jobs := s.catalog.jobs.modify o.key.job o.uncharge } }

/-- The bytes of an object whose location was `loc`: its run is freed if it is
    `PINNED_VALID`, or else its cold copy is forgotten. -/
def releaseBacking (now : ℕ) (o : CanonicalObject) (loc : Location) : State :=
  if loc.kind = .pinned ∧ o.baseSlot ≠ noIndex then
    if s.store.slotState o.baseSlot = .pinnedValid then s.freeSlots c now o.baseSlot o.slotCount
    else s
  else if loc.coldRef ≠ 0 then
    { s with store := { s.store with coldStore := s.store.coldStore.erase loc.coldRef } }
  else s

/-- Reclaiming an object, whoever holds it, unless it is in flight. (The tables
    are independent of each other, and the order in which they are changed under
    the mutex does not show.) -/
def releaseObject (now objectId : ℕ) (o : CanonicalObject) : State × Bool :=
  if o.inFlight then (s, false)
  else
    match s.store.locations.lookup (canonicalTid objectId) with
    | none => (unlinkObject s objectId o, true)
    | some loc => (releaseBacking c (unlinkObject s objectId o) now o loc, true)

/-- Reclaiming an object that no rank holds. -/
def maybeFreeObject (now objectId : ℕ) : State × Bool :=
  match s.catalog.objects.lookup objectId with
  | none => (s, false)
  | some o => if o.holders = ∅ then releaseObject c s now objectId o else (s, false)

def heldObjects (rankId : ℕ) : List ℕ :=
  (s.catalog.objects.rows.filter fun r => decide (rankId ∈ r.2.holders)).map (·.1)

/-- A rank lets go of some objects. -/
def dropHolds (rankId : ℕ) (oids : List ℕ) : State :=
  oids.foldl (fun s oid => s.modifyObject oid fun o => o.dropHolder rankId) s

/-- A rank lets go of all objects, and those that lose their last holder are
    reclaimed. -/
def purgeRankFromCanonical (now rankId : ℕ) : State :=
  (heldObjects s rankId).foldl (fun s oid => (maybeFreeObject c s now oid).1)
    (dropHolds s rankId (heldObjects s rankId))

end StateSpectre
