import ItemTable.Json.Decoder

/-!
Shards of a change log, and the order in which they are read.

`lineageOrder` puts every shard after the shards it descends from and keeps the described order
otherwise. A shard that names no described parent starts a lineage of its own.
-/
namespace ItemTable.ChangeLog

open ItemTable.Json

/-- One partition of a change log. -/
structure Shard where
  id : String
  parent : Option String := none
deriving DecidableEq, Repr

namespace Shard

def toDocument (s : Shard) : Document :=
  .ofPresent [
    .always "ShardId" (.text s.id),
    .optional "ParentShardId" (s.parent.map .text)]

def reader : RecordReader Shard :=
  ((RecordReader.required "ShardId" Decoder.text).map mk)
    |>.and (.optional "ParentShardId" Decoder.text)

def decode : Decoder Shard := reader.decoder "Shard"

end Shard

/-- The place at which an id is described last. -/
def placeOf? (shards : List Shard) (id : String) : Option Nat :=
  (shards.zipIdx.filter fun s => s.1.id = id).getLast?.map Prod.snd

/-- The place of the parent of the shard at a place. -/
def parentPlace? (shards : List Shard) (place : Nat) : Option Nat :=
  (shards[place]?.bind (·.parent)).bind (placeOf? shards)

/-- The places from one upward through its parents, up to the first that is placed already. The
eldest one comes first in the result. -/
def lineage (shards : List Shard) (placed : List Nat) : Nat → Nat → List Nat
  | 0, _ => []
  | fuel + 1, place =>
    if place ∈ placed then []
    else
      (match parentPlace? shards place with
        | some parent => lineage shards (place :: placed) fuel parent
        | none => []) ++ [place]

/-- All places, each after those of its parents. A lineage has no more places than there are
shards. -/
def lineagePlaces (shards : List Shard) : List Nat :=
  (List.range shards.length).foldl
    (fun placed start => placed ++ lineage shards placed (shards.length + 1) start) []

/-- The shards with every parent ahead of its children. -/
def lineageOrder (shards : List Shard) : List Shard :=
  (lineagePlaces shards).filterMap (shards[·]?)

end ItemTable.ChangeLog
