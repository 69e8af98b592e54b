import Mathlib.Data.List.Sort

/-!
# Iterating over a `HashMap`

A bucket of the hash table is unoccupied when its `hashAndOccupancy` is zero.  `HashMap::begin`
points at the first occupied bucket, or at the end of the bucket array when there is none.
`HashMapIterator::operator++` steps past its bucket and then past the unoccupied buckets after it,
stopping at the end.  `HashMap::end` points at the end, and `operator!=` compares bucket positions.

The loop `for(it = begin(); it != end(); ++it)` therefore visits exactly the occupied buckets,
each once, in increasing order.  It runs one iteration per occupied bucket and one more that ends
it, whatever the length of the array and the pattern of occupied buckets; `operator++` never steps
past the end, so `it != end()` cannot miss it.

The bucket array is modelled by the `hashAndOccupancy` fields of its buckets, the only field the
iteration reads, and an iterator by the positions of its bucket and of the end in that array.
-/

namespace Wavm

/-- `HashMapIterator`: the bucket it points at and the end of the bucket array, as positions in
the array. -/
structure HashMapIterator where
  bucket : Nat
  endBucket : Nat
  deriving DecidableEq, Repr

namespace HashMapIterator

variable (buckets : List (BitVec 64))

/-- `bucket->hashAndOccupancy`, for the `hashAndOccupancy` fields of the bucket array. -/
def hashAndOccupancy (bucket : Nat) : BitVec 64 := buckets.getD bucket 0

/-- `while(bucket < endBucket && !bucket->hashAndOccupancy) { ++bucket; }`, the loop of
`HashMap::begin` and of `operator++`. -/
def skipUnoccupied (endBucket bucket : Nat) : Nat :=
  if h : bucket < endBucket ∧ hashAndOccupancy buckets bucket = 0 then
    skipUnoccupied endBucket (bucket + 1)
  else bucket
termination_by endBucket - bucket
decreasing_by all_goals omega

/-- `operator++`: `do { ++bucket; } while(bucket < endBucket && !bucket->hashAndOccupancy);`. -/
def next (it : HashMapIterator) : HashMapIterator :=
  { it with bucket := skipUnoccupied buckets it.endBucket (it.bucket + 1) }

/-- `operator!=`: the two iterators point at different buckets. -/
def ne (it other : HashMapIterator) : Bool := it.bucket != other.bucket

end HashMapIterator

namespace HashMap

open HashMapIterator

variable (buckets : List (BitVec 64))

/-- `HashMap::begin`: the first occupied bucket, or the end. -/
def begin : HashMapIterator :=
  ⟨skipUnoccupied buckets buckets.length 0, buckets.length⟩

/-- `HashMap::end`. -/
def «end» : HashMapIterator := ⟨buckets.length, buckets.length⟩

/-- The loop `for(; it != end(); ++it)` from `it`, given `fuel` iterations: the buckets it
visits, or `none` when the fuel runs out first. -/
def visitFrom : Nat → HashMapIterator → Option (List Nat)
  | 0, _ => none
  | fuel + 1, it =>
    if it.ne («end» buckets) then (visitFrom fuel (it.next buckets)).map (it.bucket :: ·)
    else some []

/-- `for(it = begin(); it != end(); ++it)`, given `fuel` iterations. -/
def iterate (fuel : Nat) : Option (List Nat) := visitFrom buckets fuel (begin buckets)

/-- The positions of the occupied buckets, in increasing order. -/
def occupiedBuckets : List Nat :=
  (List.range buckets.length).filter fun bucket => hashAndOccupancy buckets bucket != 0

/-! ## The loop of `begin` and `operator++` -/

/-- The occupied buckets from `bucket` to the end. -/
def occupiedFrom (bucket : Nat) : List Nat :=
  (List.range' bucket (buckets.length - bucket)).filter fun bucket =>
    hashAndOccupancy buckets bucket != 0

theorem occupiedFrom_of_occupied {bucket : Nat} (hbucket : bucket < buckets.length)
    (hoccupied : hashAndOccupancy buckets bucket ≠ 0) :
    occupiedFrom buckets bucket = bucket :: occupiedFrom buckets (bucket + 1) := by
  rw [occupiedFrom, show buckets.length - bucket = buckets.length - (bucket + 1) + 1 by omega,
    List.range'_succ, List.filter_cons_of_pos (by simpa using hoccupied)]
  rfl

theorem occupiedFrom_of_unoccupied {bucket : Nat} (hbucket : bucket < buckets.length)
    (hunoccupied : hashAndOccupancy buckets bucket = 0) :
    occupiedFrom buckets bucket = occupiedFrom buckets (bucket + 1) := by
  rw [occupiedFrom, show buckets.length - bucket = buckets.length - (bucket + 1) + 1 by omega,
    List.range'_succ, List.filter_cons_of_neg (by simp [hunoccupied])]
  rfl

/-- From a position up to the end, the loop stops at the first occupied bucket, or at the end,
and skips no occupied bucket. -/
theorem skipUnoccupied_spec {bucket : Nat} (hbucket : bucket ≤ buckets.length) :
    let stop := skipUnoccupied buckets buckets.length bucket
    stop ≤ buckets.length ∧ (stop < buckets.length → hashAndOccupancy buckets stop ≠ 0) ∧
      occupiedFrom buckets stop = occupiedFrom buckets bucket := by
  rw [skipUnoccupied]
  split
  · rename_i h
    dsimp only
    rw [occupiedFrom_of_unoccupied buckets h.1 h.2]
    exact skipUnoccupied_spec (by omega)
  · rename_i h
    exact ⟨hbucket, fun hlt hzero => h ⟨hlt, hzero⟩, rfl⟩
termination_by buckets.length - bucket

/-! ## The whole iteration -/

/-- From an iterator at an occupied bucket or at the end, the loop visits the occupied buckets
from there on, and needs one iteration per occupied bucket and one more. -/
theorem visitFrom_eq (fuel : Nat) {bucket : Nat} (hbucket : bucket ≤ buckets.length)
    (hoccupied : bucket < buckets.length → hashAndOccupancy buckets bucket ≠ 0) :
    visitFrom buckets fuel ⟨bucket, buckets.length⟩ =
      if (occupiedFrom buckets bucket).length < fuel then some (occupiedFrom buckets bucket)
      else none := by
  induction fuel generalizing bucket with
  | zero => rfl
  | succ fuel ih =>
    rw [visitFrom]
    by_cases hend : bucket = buckets.length
    · -- at the end: the loop stops
      subst hend
      have hnil : occupiedFrom buckets buckets.length = [] := by simp [occupiedFrom]
      rw [hnil, if_neg (by simp [ne, «end»]), List.length_nil, if_pos (Nat.succ_pos _)]
    · -- at an occupied bucket: it is visited, and `operator++` finds the next one
      have hlt : bucket < buckets.length := lt_of_le_of_ne hbucket hend
      obtain ⟨hstop, hstopOccupied, hfrom⟩ :=
        skipUnoccupied_spec buckets (show bucket + 1 ≤ buckets.length from hlt)
      rw [if_pos (by simp [ne, «end», hend]), next, ih hstop hstopOccupied, hfrom,
        occupiedFrom_of_occupied buckets hlt (hoccupied hlt), List.length_cons]
      by_cases hfuel : (occupiedFrom buckets (bucket + 1)).length < fuel
      · rw [if_pos hfuel, if_pos (Nat.succ_lt_succ hfuel)]
        rfl
      · rw [if_neg hfuel, if_neg (fun h => hfuel (Nat.lt_of_succ_lt_succ h))]
        rfl

/-- The loop visits the occupied buckets, and runs one iteration per occupied bucket and one
more. -/
theorem iterate_eq (fuel : Nat) :
    iterate buckets fuel =
      if (occupiedBuckets buckets).length < fuel then some (occupiedBuckets buckets) else none := by
  obtain ⟨hstop, hstopOccupied, hfrom⟩ := skipUnoccupied_spec buckets (Nat.zero_le _)
  have hall : occupiedFrom buckets 0 = occupiedBuckets buckets := by
    rw [occupiedFrom, occupiedBuckets, List.range_eq_range', Nat.sub_zero]
  rw [iterate, begin, visitFrom_eq buckets fuel hstop hstopOccupied, hfrom, hall]

/-- For every bucket array and every pattern of occupied buckets, the loop
`for(it = begin(); it != end(); ++it)` stops within one iteration more than there are buckets,
and every run that stops visits the same buckets: the occupied ones, each once, in increasing
order. -/
theorem iterate_visits_occupied :
    ∃ visited, iterate buckets (buckets.length + 1) = some visited ∧
      (∀ fuel visited', iterate buckets fuel = some visited' → visited' = visited) ∧
      visited.Sorted (· < ·) ∧
      ∀ bucket, bucket ∈ visited ↔
        bucket < buckets.length ∧ hashAndOccupancy buckets bucket ≠ 0 := by
  have hlength : (occupiedBuckets buckets).length < buckets.length + 1 :=
    Nat.lt_succ_of_le ((List.length_filter_le _ _).trans (List.length_range _).le)
  refine ⟨occupiedBuckets buckets, by rw [iterate_eq, if_pos hlength], fun fuel visited' h => ?_,
    (List.pairwise_lt_range _).filter _, fun bucket => ?_⟩
  · rw [iterate_eq] at h
    split at h
    · exact (Option.some_inj.mp h).symm
    · cases h
  · simp [occupiedBuckets, List.mem_filter, List.mem_range]

end HashMap

end Wavm
