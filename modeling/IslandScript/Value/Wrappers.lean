import IslandScript.Value.Basic

/-!
# Wrappers

The instances made for primitives, each kept under its primitive. They are spread over a fixed
number of buckets, so that a search looks at few of them.
-/

namespace IslandScript

/-- The number of buckets. A prime spreads the bits of numbers evenly. -/
def bucketCount : Nat := 127

/-- The bucket of a primitive. -/
def Primitive.bucket : Primitive → Nat
  | bool b => b.toNat
  | number n => n.toBits.toNat % bucketCount
  | string s => s.toList.foldl (fun h c => (31 * h + c.toNat) % bucketCount) 0
  | list t => t.index % bucketCount

/-- Instances kept under primitives; in a bucket, one kept later stands before those kept
earlier. -/
structure Wrappers where
  buckets : Array (List (Primitive × ScopeId))
  deriving DecidableEq, Repr

namespace Wrappers

/-- No instances. -/
def empty : Wrappers := ⟨Array.replicate bucketCount []⟩

instance : Inhabited Wrappers := ⟨empty⟩

/-- The instance kept under a primitive. -/
def get? (w : Wrappers) (p : Primitive) : Option ScopeId := do
  let bucket ← w.buckets[p.bucket]?
  bucket.lookup p

/-- Keeps an instance under a primitive. -/
def insert (w : Wrappers) (p : Primitive) (s : ScopeId) : Wrappers :=
  ⟨w.buckets.modify p.bucket ((p, s) :: ·)⟩

end Wrappers
end IslandScript
