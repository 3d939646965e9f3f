import Federate.Relay

/-!
# The block cache and its index file

A cache holds blocks within a limit on their sizes and forgets those first that were used longest
ago. The index is a hash map, which is iterated in any order, and is written to a file after each
insertion; a restart reads it back. File operations succeed here.
-/

namespace Federate

open Outcome

/-- The entries of `CacheIndex`: time of the last use, and size. -/
abbrev CacheIndex : Type := Table String (UInt64 × UInt64)

/-- An entry of the index under its content address. -/
abbrev CacheEntry : Type := String × UInt64 × UInt64

namespace CdnCache

/-- The index with a block that was just stored. -/
def indexed (c : CdnCache) (now : UInt64) (hash : String) (bytes : Bytes) : CacheIndex :=
  c.index.insert hash (now, UInt64.ofNat bytes.length)

/-- `sort_by_key` of the time of the last use, which is stable. -/
def byAge (order : List CacheEntry) : List CacheEntry := order.mergeSort fun a b => a.2.1 ≤ b.2.1

variable [Externals]

/-- `CdnCache::put`, when the index is iterated in this order. -/
def putIn (c : CdnCache) (maxBytes now : UInt64) (order : List CacheEntry) (hash : String)
    (bytes : Bytes) : Result CdnCache := do
  verifyHash bytes hash
  let c : CdnCache := ⟨c.store.insert hash bytes, c.indexed now hash bytes⟩
  let total := (order.map fun entry => entry.2.2).sum
  if total ≤ maxBytes then return c
  return evict hash maxBytes (byAge order) total c

end CdnCache

/-- A cache with its index file. -/
structure DiskCache where
  /-- The limit. -/
  maxBytes : UInt64
  /-- The blocks, and the index in memory. -/
  cache : CdnCache
  /-- The index in the file. -/
  saved : Option CacheIndex

/-- An operation on a cache, with the clock in seconds. -/
inductive CacheOp where
  /-- `CdnCache::get`. -/
  | get (hash : String) (now : UInt64)
  /-- `CdnCache::put`, with the order in which the index is iterated. -/
  | put (hash : String) (bytes : Bytes) (now : UInt64) (order : List CacheEntry)
  /-- `CdnCache::new` in the same data directory. -/
  | restart (maxBytes : UInt64)

/-- The cache after an operation. -/
def DiskCache.step [Externals] (s : DiskCache) : CacheOp → DiskCache
  | .get hash now =>
    match s.cache.get now hash with
    | .ok (_, cache) => { s with cache }
    | .error _ => s
  | .put hash bytes now order =>
    match s.cache.putIn s.maxBytes now order hash bytes with
    | .ok cache => { s with cache, saved := some cache.index }
    | .error _ => s
  | .restart maxBytes => { s with maxBytes, cache := ⟨s.cache.store, s.saved.getD ∅⟩ }

end Federate
