import DatasetAudit.Grouping
/-!
Hashes sorted into buckets so that similar ones meet. Hashes that differ in at most `T` bits agree
on at least one of `T + 1` bands of bits, and so share the bucket of that band.
-/

namespace DatasetAudit.Bands

/-- The number of bits of a hash. -/
def hashBits : Nat := 64

/-- A range of bits, from `start` up to but not including `stop`. -/
structure Band where
  start : Nat
  stop : Nat
deriving DecidableEq, Repr

/-- The bands into which hashes are cut for a threshold, which is less than the number of bits. -/
def ofThreshold (threshold : Nat) : List Band :=
  (List.range (threshold + 1)).map fun band =>
    ⟨band * hashBits / (threshold + 1), (band + 1) * hashBits / (threshold + 1)⟩

/-- The bits of a hash in a band, as a number. -/
def Band.value (band : Band) (hash : UInt64) : Nat :=
  (hash.toNat >>> band.start) % (1 <<< (band.stop - band.start))

/-- The positions of the hashes that have each value in a band, in ascending order. -/
def Band.buckets (band : Band) (hashes : List UInt64) : List (List Nat) :=
  (groupByKey (fun (hash, _) => band.value hash) hashes.zipIdx).map
    fun (_, group) => group.map (·.2)

/-- The buckets of positions for a threshold. A threshold of at least the number of bits leaves no
band on which hashes must agree, so all positions share one bucket. -/
def buckets (hashes : List UInt64) (threshold : Nat) : List (List Nat) :=
  if hashBits ≤ threshold then [List.range hashes.length]
  else (ofThreshold threshold).flatMap fun band => band.buckets hashes

end DatasetAudit.Bands
