import Mathlib.Logic.Relation
import Wavm.Runtime.Table.Grow
import Wavm.Runtime.Table.Element

/-!
# Concurrent accesses and growth

Table elements are atomics: the host and compiled code read and write them from any number of
threads, while a growth holds `resizingMutex`.  Here each slot load, slot store, slot
compare-exchange and store of `numElements` is one step, and the threads' steps interleave in any
order.

A thread runs a list of accesses to one table: `setTableElementNonNull`,
`getTableElementNonNull`, an iteration of the loop of `table.copy` (a get whose result is then
set), and `growTableImpl` with initialisation, as `Runtime::growTable` and `table.grow` call it.
`table.fill`, `table.init` and the host's `setTableElement` and `getTableElement` are lists of
these.  An exception ends the list.  `cloneTable` is the only caller that grows without
initialising, and it does so before the clone is published, so no other thread can reach it.

The frontier of a state is the next slot the running growth will initialise, or the count when no
growth runs.  Every slot below the frontier is nonzero, every slot from it to the end of the
reservation is zero, and the published count never passes it.  So a compare-exchange that
succeeds writes below the frontier, over a nonzero word, and the growth's store writes at the
frontier, over a zero word.

Whether a growth's quota charge and commit succeed is a choice of the schedule: the model lets
any growth fail there, which covers every answer the quota and the platform can give.
-/

namespace Wavm.Runtime

/-- A thread. -/
abbrev ThreadRef := Nat

/-- One access of a thread to the shared table. -/
inductive Access
  /-- `setTableElementNonNull(table, index, object)`. -/
  | set (index object : Uptr)
  /-- `getTableElementNonNull(table, index)`. -/
  | get (index : Uptr)
  /-- One iteration of the loop of `table.copy`: get `sourceIndex`, then set `destIndex` to it. -/
  | copy (sourceIndex destIndex : Uptr)
  /-- `growTableImpl(table, numElementsToGrow, ..., true, initializeToElement)`. -/
  | grow (numElementsToGrow initializeToElement : Uptr)

/-- Where a thread is. -/
inductive Thread
  /-- Before its next access. -/
  | run (accesses : List Access)
  /-- In the compare-exchange loop of `setTableElementNonNull`, holding `oldBiasedValue`. -/
  | exchange (index saturatedIndex biasedValue oldBiasedValue : Uptr) (rest : List Access)
  /-- In `growTableImpl`, holding `resizingMutex`. -/
  | resizing (rest : List Access)
  /-- Stopped by an exception. -/
  | threw (exception : Exception)

/-- A `growTableImpl` holding `resizingMutex`, past its checks and its commit. -/
structure Resize where
  thread : ThreadRef
  oldNumElements : Uptr
  newNumElements : Uptr
  /-- The next `elementIndex` of the initialising loop. -/
  elementIndex : Nat
  biasedValue : Uptr

/-- A table and the threads that share it. -/
structure Shared where
  /-- The table's address, named by the exceptions. -/
  ref : TableRef
  table : Table
  resize : Option Resize
  threads : ThreadRef → Thread

variable (host : Host)

/-- The callers' side of the contract: no access passes the out-of-bounds sentinel. -/
def Access.Admissible : Access → Prop
  | .set _ object => object ≠ host.outOfBoundsElement
  | .get _ => True
  | .copy _ _ => True
  | .grow _ initializeToElement => initializeToElement ≠ host.outOfBoundsElement

/-- What holds of each thread: its accesses are admissible, and a thread in the compare-exchange
loop holds an index inside the reservation and a nonzero word to store. -/
def Thread.Admissible : Thread → Prop
  | .run accesses => ∀ a ∈ accesses, a.Admissible host
  | .exchange _ saturatedIndex biasedValue _ rest =>
    saturatedIndex.toNat < tableMaxElements.toNat ∧ biasedValue ≠ 0 ∧
      ∀ a ∈ rest, a.Admissible host
  | .resizing rest => ∀ a ∈ rest, a.Admissible host
  | .threw _ => True

namespace Shared

def setThread (s : Shared) (t : ThreadRef) (thread : Thread) : Shared :=
  { s with threads := Function.update s.threads t thread }

@[simp] theorem setThread_resize (s : Shared) (t : ThreadRef) (thread : Thread) :
    (s.setThread t thread).resize = s.resize := rfl

@[simp] theorem setThread_threads (s : Shared) (t : ThreadRef) (thread : Thread) :
    (s.setThread t thread).threads = Function.update s.threads t thread := rfl

/-- The first step of `setTableElementNonNull`: the bounds check, then the load of the slot. -/
def beginSet (s : Shared) (t : ThreadRef) (index object : Uptr) (rest : List Access) : Shared :=
  if index ≥ s.table.numReservedElements then
    s.setThread t (.threw (.outOfBoundsTableAccess s.ref index))
  else
    let saturatedIndex := branchlessMin index (s.table.numReservedElements - 1)
    let biasedValue := objectToBiasedTableElementValue host object
    match s.table.load host saturatedIndex.toNat with
    | none => s.setThread t (.threw (.outOfBoundsTableAccess s.ref saturatedIndex))
    | some oldBiasedValue =>
      s.setThread t (.exchange index saturatedIndex biasedValue oldBiasedValue rest)

/-- One turn of the compare-exchange loop: throw on the out-of-bounds sentinel, else
`compare_exchange_weak`, which may fail spuriously and on failure reloads the slot. -/
def exchange (s : Shared) (t : ThreadRef) (index saturatedIndex biasedValue oldBiasedValue : Uptr)
    (rest : List Access) (spurious : Bool) : Shared :=
  if biasedTableElementValueToObject host oldBiasedValue = host.outOfBoundsElement then
    s.setThread t (.threw (.outOfBoundsTableAccess s.ref index))
  else
    match s.table.load host saturatedIndex.toNat with
    | none => s.setThread t (.threw (.outOfBoundsTableAccess s.ref saturatedIndex))
    | some current =>
      if current = oldBiasedValue ∧ spurious = false then
        { s.setThread t (.run rest) with
          table := s.table.setSlot saturatedIndex.toNat biasedValue }
      else s.setThread t (.exchange index saturatedIndex biasedValue current rest)

/-- `getTableElementNonNull`, whose one shared access is its load, then `next` with the object
it returns. -/
def get (s : Shared) (t : ThreadRef) (index : Uptr) (next : Uptr → List Access) : Shared :=
  match getTableElementNonNull host s.ref s.table index with
  | .ok object => s.setThread t (.run (next object))
  | .error exception => s.setThread t (.threw exception)

/-- The steps of `growTableImpl` up to its initialising loop: a growth by nothing loads the count
and returns; otherwise the quota charge and, holding `resizingMutex`, the load of the count, the
limit check and the commit.  `none` while another growth holds the mutex. -/
def beginGrow (s : Shared) (t : ThreadRef) (numElementsToGrow initializeToElement : Uptr)
    (rest : List Access) (admitted : Bool) : Option Shared :=
  if numElementsToGrow = 0 ∨ admitted = false then some (s.setThread t (.run rest))
  else
    match s.resize with
    | some _ => none
    | none =>
      let oldNumElements := s.table.numElements
      if numElementsToGrow > s.table.type.size.max
          ∨ oldNumElements > s.table.type.size.max - numElementsToGrow
          ∨ numElementsToGrow > host.maxTableElems
          ∨ oldNumElements > host.maxTableElems - numElementsToGrow then
        some (s.setThread t (.run rest))
      else
        let newNumElements := oldNumElements + numElementsToGrow
        let previousNumPlatformPages := getNumPlatformPages host (oldNumElements * sizeofElement)
        let newNumPlatformPages := getNumPlatformPages host (newNumElements * sizeofElement)
        let committed :=
          if newNumPlatformPages ≠ previousNumPlatformPages then
            s.table.commit previousNumPlatformPages.toNat
              (newNumPlatformPages - previousNumPlatformPages).toNat
          else s.table
        some { s.setThread t (.resizing rest) with
          table := committed
          resize := some ⟨t, oldNumElements, newNumElements, oldNumElements.toNat,
            objectToBiasedTableElementValue host initializeToElement⟩ }

/-- A step of the thread holding `resizingMutex`: the next store of the initialising loop or,
after the last, the release store of the new count, which ends `growTableImpl`.  `none` is an
access violation, or a thread that does not hold the mutex. -/
def resizeStep (s : Shared) (t : ThreadRef) (rest : List Access) : Option Shared :=
  match s.resize with
  | none => none
  | some r =>
    if r.thread ≠ t then none
    else if r.elementIndex < r.newNumElements.toNat then
      (s.table.store host r.elementIndex r.biasedValue).map fun table =>
        { s with table := table, resize := some { r with elementIndex := r.elementIndex + 1 } }
    else
      some { s.setThread t (.run rest) with
        table := { s.table with numElements := r.newNumElements }
        resize := none }

/-- One step of thread `t`, with the schedule's choices of whether a compare-exchange fails
spuriously and whether a growth's quota charge and commit succeed.  `none` when the thread has
nothing left to do or waits for `resizingMutex`. -/
def step (s : Shared) (t : ThreadRef) (spurious admitted : Bool) : Option Shared :=
  match s.threads t with
  | .run [] => none
  | .run (.set index object :: rest) => some (s.beginSet host t index object rest)
  | .run (.get index :: rest) => some (s.get host t index fun _ => rest)
  | .run (.copy sourceIndex destIndex :: rest) =>
    some (s.get host t sourceIndex fun object => .set destIndex object :: rest)
  | .run (.grow numElementsToGrow initializeToElement :: rest) =>
    s.beginGrow host t numElementsToGrow initializeToElement rest admitted
  | .exchange index saturatedIndex biasedValue oldBiasedValue rest =>
    some (s.exchange host t index saturatedIndex biasedValue oldBiasedValue rest spurious)
  | .resizing rest => s.resizeStep host t rest
  | .threw _ => none

/-- One step of some thread. -/
def Next (s s' : Shared) : Prop :=
  ∃ t spurious admitted, s.step host t spurious admitted = some s'

/-- A table shared by threads before any of them runs: the table satisfies `TableInvariant`, no
growth holds `resizingMutex`, and every thread is about to run admissible accesses. -/
structure Initial (s : Shared) : Prop where
  table : TableInvariant host s.table
  resize : s.resize = none
  threads : ∀ t, ∃ accesses, s.threads t = .run accesses ∧ ∀ a ∈ accesses, a.Admissible host

/-- The states some interleaving reaches from an initial one. -/
def Reachable (s : Shared) : Prop :=
  ∃ s₀, s₀.Initial host ∧ Relation.ReflTransGen (Next host) s₀ s

/-- The next slot the running growth initialises, or the count when no growth runs. -/
def frontier (s : Shared) : Nat :=
  match s.resize with
  | some r => r.elementIndex
  | none => s.table.numElements.toNat

/-- The count the running growth publishes, or the count when no growth runs. -/
def limit (s : Shared) : Uptr :=
  match s.resize with
  | some r => r.newNumElements
  | none => s.table.numElements

theorem frontier_of_resize_none {s : Shared} (h : s.resize = none) :
    s.frontier = s.table.numElements.toNat := by
  simp [frontier, h]

theorem limit_of_resize_none {s : Shared} (h : s.resize = none) :
    s.limit = s.table.numElements := by
  simp [limit, h]

theorem frontier_of_resize_some {s : Shared} {r : Resize} (h : s.resize = some r) :
    s.frontier = r.elementIndex := by
  simp [frontier, h]

theorem limit_of_resize_some {s : Shared} {r : Resize} (h : s.resize = some r) :
    s.limit = r.newNumElements := by
  simp [limit, h]

@[simp] theorem frontier_setThread (s : Shared) (t : ThreadRef) (thread : Thread) :
    (s.setThread t thread).frontier = s.frontier := rfl

@[simp] theorem limit_setThread (s : Shared) (t : ThreadRef) (thread : Thread) :
    (s.setThread t thread).limit = s.limit := rfl

/-- What holds of every state an interleaving reaches: the reservation of `TableInvariant`; the
count at most the frontier, the frontier at most the count being published, within both
limits; nonzero slots below the frontier and zero slots from it to the end of the reservation;
the pages up to the count being published committed; a nonzero word for the growth to store; and
admissible threads. -/
structure Invariant (s : Shared) : Prop where
  elements_ne_zero : s.table.elements ≠ 0
  numReservedBytes_eq : s.table.numReservedBytes = tableMaxBytes
  numReservedElements_eq : s.table.numReservedElements = tableMaxElements
  numElements_le_frontier : s.table.numElements.toNat ≤ s.frontier
  frontier_le_limit : s.frontier ≤ s.limit.toNat
  limit_le_max : s.limit.toNat ≤ s.table.type.size.max.toNat
  limit_le_maxTableElems : s.limit.toNat ≤ host.maxTableElems.toNat
  slots_ne_zero : ∀ i < s.frontier, s.table.slots i ≠ 0
  slots_eq_zero : ∀ i, s.frontier ≤ i → i < s.table.numReservedElements.toNat →
    s.table.slots i = 0
  committed_of_lt : ∀ page < (getNumPlatformPages host (s.limit * sizeofElement)).toNat,
    s.table.committed page
  biasedValue_ne_zero : ∀ r, s.resize = some r → r.biasedValue ≠ 0
  threads : ∀ t, (s.threads t).Admissible host

variable {host}

theorem Initial.invariant {s : Shared} (h : s.Initial host) : s.Invariant host := by
  have hfrontier := frontier_of_resize_none h.resize
  have hlimit := limit_of_resize_none h.resize
  have htable := h.table
  refine ⟨htable.elements_ne_zero, htable.numReservedBytes_eq, htable.numReservedElements_eq,
    hfrontier.ge, hfrontier.trans_le (by rw [hlimit]), ?_, ?_, ?_, ?_, ?_, ?_, fun t => ?_⟩
  · rw [hlimit]; exact htable.numElements_le_max
  · rw [hlimit]; exact htable.numElements_le_maxTableElems
  · rw [hfrontier]; exact htable.slots_ne_zero
  · rw [hfrontier]; exact htable.slots_eq_zero
  · rw [hlimit]; exact htable.committed_of_lt
  · simp [h.resize]
  · obtain ⟨accesses, hthread, hadmissible⟩ := h.threads t
    rw [hthread]
    exact hadmissible

/-- With no growth running, the table satisfies the sequential `TableInvariant`. -/
theorem Invariant.tableInvariant {s : Shared} (hinv : s.Invariant host) (h : s.resize = none) :
    TableInvariant host s.table := by
  have hfrontier := frontier_of_resize_none h
  have hlimit := limit_of_resize_none h
  refine ⟨hinv.elements_ne_zero, hinv.numReservedBytes_eq, hinv.numReservedElements_eq, ?_, ?_,
    ?_, ?_, ?_⟩
  · rw [← hlimit]; exact hinv.limit_le_max
  · rw [← hlimit]; exact hinv.limit_le_maxTableElems
  · rw [← hfrontier]; exact hinv.slots_ne_zero
  · rw [← hfrontier]; exact hinv.slots_eq_zero
  · rw [← hlimit]; exact hinv.committed_of_lt

/-! ## One step -/

theorem Invariant.setThread {s : Shared} {t : ThreadRef} {thread : Thread}
    (hinv : s.Invariant host) (hthread : thread.Admissible host) :
    (s.setThread t thread).Invariant host :=
  { hinv with
    threads := fun t' => by
      by_cases ht : t' = t
      · subst ht; simpa using hthread
      · simpa [Function.update_noteq ht] using hinv.threads t' }

theorem frontier_eq {s s' : Shared} (hresize : s'.resize = s.resize)
    (hcount : s'.table.numElements = s.table.numElements) : s'.frontier = s.frontier := by
  unfold frontier; rw [hresize, hcount]

theorem limit_eq {s s' : Shared} (hresize : s'.resize = s.resize)
    (hcount : s'.table.numElements = s.table.numElements) : s'.limit = s.limit := by
  unfold limit; rw [hresize, hcount]

/-- A nonzero slot inside the reservation lies below the frontier. -/
theorem Invariant.lt_frontier {s : Shared} (hinv : s.Invariant host) {i : Nat}
    (hi : i < tableMaxElements.toNat) (hne : s.table.slots i ≠ 0) : i < s.frontier :=
  Nat.lt_of_not_le fun hle =>
    hne (hinv.slots_eq_zero i hle (by rwa [hinv.numReservedElements_eq]))

/-- Overwriting a slot below the frontier with a nonzero word keeps the invariant. -/
theorem Invariant.setSlot {s : Shared} {i : Nat} {v : Uptr} (hinv : s.Invariant host)
    (hi : i < s.frontier) (hv : v ≠ 0) :
    { s with table := s.table.setSlot i v }.Invariant host := by
  have hfrontier : { s with table := s.table.setSlot i v }.frontier = s.frontier :=
    frontier_eq rfl rfl
  have hlimit : { s with table := s.table.setSlot i v }.limit = s.limit := limit_eq rfl rfl
  refine { hinv with
    numElements_le_frontier := hfrontier ▸ hinv.numElements_le_frontier
    frontier_le_limit := hfrontier ▸ hlimit ▸ hinv.frontier_le_limit
    limit_le_max := hlimit ▸ hinv.limit_le_max
    limit_le_maxTableElems := hlimit ▸ hinv.limit_le_maxTableElems
    committed_of_lt := hlimit ▸ hinv.committed_of_lt
    slots_ne_zero := fun j hj => ?_
    slots_eq_zero := fun j hj hres => ?_ }
  · rw [hfrontier] at hj
    by_cases hji : j = i
    · subst hji; simpa using hv
    · simpa [Function.update_noteq hji] using hinv.slots_ne_zero j hj
  · rw [hfrontier] at hj
    have hji : j ≠ i := by omega
    simpa [Function.update_noteq hji] using hinv.slots_eq_zero j hj hres

theorem saturatedIndex_lt (index : Uptr) :
    (branchlessMin index (tableMaxElements - 1)).toNat < tableMaxElements.toNat := by
  have hmax : (tableMaxElements - 1).toNat = 2 ^ 32 - 1 := by decide
  rw [tableMaxElements_toNat]
  unfold branchlessMin
  split
  · rename_i h
    rw [BitVec.lt_def, hmax] at h
    omega
  · rw [hmax]; omega

theorem Invariant.beginSet {s : Shared} {t : ThreadRef} {index object : Uptr}
    {rest : List Access} (hinv : s.Invariant host) (hobject : object ≠ host.outOfBoundsElement)
    (hrest : ∀ a ∈ rest, a.Admissible host) :
    (s.beginSet host t index object rest).Invariant host := by
  unfold Shared.beginSet
  split
  · exact hinv.setThread trivial
  · dsimp only
    split
    · exact hinv.setThread trivial
    · refine hinv.setThread ⟨?_, (objectToBiasedTableElementValue_eq_zero host object).not.mpr hobject,
        hrest⟩
      rw [hinv.numReservedElements_eq]
      exact saturatedIndex_lt index

/-- A compare-exchange that succeeds finds a nonzero word, so it writes below the frontier. -/
theorem Invariant.exchange {s : Shared} {t : ThreadRef}
    {index saturatedIndex biasedValue oldBiasedValue : Uptr} {rest : List Access} {spurious : Bool}
    (hinv : s.Invariant host)
    (hthread : (Thread.exchange index saturatedIndex biasedValue oldBiasedValue rest).Admissible host) :
    (s.exchange host t index saturatedIndex biasedValue oldBiasedValue rest spurious).Invariant host := by
  obtain ⟨hindex, hvalue, hrest⟩ := hthread
  unfold Shared.exchange
  split
  · exact hinv.setThread trivial
  · rename_i hold
    split
    · exact hinv.setThread trivial
    · rename_i current hload
      split
      · rename_i hcas
        rw [biasedTableElementValueToObject_eq_outOfBoundsElement] at hold
        have hslot := (Table.load_eq_some host hload).2
        rw [hcas.1] at hslot
        exact (hinv.setThread (show (Thread.run rest).Admissible host from hrest)).setSlot
          (hinv.lt_frontier hindex (hslot ▸ hold)) hvalue
      · exact hinv.setThread ⟨hindex, hvalue, hrest⟩

theorem Invariant.get {s : Shared} {t : ThreadRef} {index : Uptr} {next : Uptr → List Access}
    (hinv : s.Invariant host)
    (hnext : ∀ object, object ≠ host.outOfBoundsElement → ∀ a ∈ next object, a.Admissible host) :
    (s.get host t index next).Invariant host := by
  unfold Shared.get
  split
  · rename_i object hget
    exact hinv.setThread (hnext object (getTableElementNonNull_ne hget))
  · exact hinv.setThread trivial

/-- The growth that takes `resizingMutex`, within both limits, commits the pages up to the new
count and starts its loop at the old count, which is the frontier. -/
theorem Invariant.beginGrow {s s' : Shared} {t : ThreadRef}
    {numElementsToGrow initializeToElement : Uptr} {rest : List Access} {admitted : Bool}
    (hinv : s.Invariant host) (hinit : initializeToElement ≠ host.outOfBoundsElement)
    (hrest : ∀ a ∈ rest, a.Admissible host)
    (h : s.beginGrow host t numElementsToGrow initializeToElement rest admitted = some s') :
    s'.Invariant host := by
  have hrun : (s.setThread t (.run rest)).Invariant host := hinv.setThread hrest
  unfold Shared.beginGrow at h
  split at h
  · cases h; exact hrun
  split at h
  · cases h
  rename_i hresize
  dsimp only at h
  split at h
  · cases h; exact hrun
  rename_i hcheck
  cases h
  rw [growCheck_iff] at hcheck
  have hfrontier := frontier_of_resize_none hresize
  have hlimit := limit_of_resize_none hresize
  have hnew := @numElements_add_toNat s.table numElementsToGrow (by omega)
  have hreserved := host.maxTableElems_le
  have hle := @getNumPlatformPages_mul_le host s.table.numElements
    (s.table.numElements + numElementsToGrow) (by omega) (by omega)
  rw [commit_previous_eq hle]
  refine ⟨hinv.elements_ne_zero, hinv.numReservedBytes_eq, hinv.numReservedElements_eq, le_rfl,
    ?_, ?_, ?_, ?_, ?_, ?_, ?_, (hinv.setThread (show (Thread.resizing rest).Admissible host from
      hrest)).threads⟩
  · show s.table.numElements.toNat ≤ (s.table.numElements + numElementsToGrow).toNat
    omega
  · show (s.table.numElements + numElementsToGrow).toNat ≤ s.table.type.size.max.toNat
    omega
  · show (s.table.numElements + numElementsToGrow).toNat ≤ host.maxTableElems.toNat
    omega
  · intro i hi
    exact hinv.slots_ne_zero i (hfrontier ▸ hi)
  · intro i hi hres
    exact hinv.slots_eq_zero i (hfrontier ▸ hi) hres
  · intro page hpage
    simp only [Bool.or_eq_true, Bool.and_eq_true, decide_eq_true_eq]
    by_cases hprev : page < (getNumPlatformPages host (s.table.numElements * sizeofElement)).toNat
    · exact .inl (hinv.committed_of_lt page (hlimit ▸ hprev))
    · exact .inr ⟨by omega, hpage⟩
  · rintro r ⟨⟩
    exact (objectToBiasedTableElementValue_eq_zero host _).not.mpr hinit

/-- The growth's store lands on the frontier, and its last step publishes the count it has
initialised up to. -/
theorem Invariant.resizeStep {s s' : Shared} {t : ThreadRef} {rest : List Access}
    (hinv : s.Invariant host) (hrest : ∀ a ∈ rest, a.Admissible host)
    (h : s.resizeStep host t rest = some s') : s'.Invariant host := by
  unfold Shared.resizeStep at h
  split at h
  · cases h
  rename_i r hresize
  have hfrontier := frontier_of_resize_some hresize
  have hlimit := limit_of_resize_some hresize
  have hle := hinv.frontier_le_limit
  rw [hfrontier, hlimit] at hle
  split at h
  · cases h
  split at h
  · rename_i hlt
    obtain ⟨table, hstore, rfl⟩ := Option.map_eq_some'.mp h
    obtain ⟨-, rfl⟩ := Table.store_eq_some host hstore
    have hbiased := hinv.biasedValue_ne_zero r hresize
    refine ⟨hinv.elements_ne_zero, hinv.numReservedBytes_eq, hinv.numReservedElements_eq, ?_, ?_,
      ?_, ?_, ?_, ?_, ?_, ?_, hinv.threads⟩
    · exact (hfrontier ▸ hinv.numElements_le_frontier).trans (Nat.le_succ _)
    · exact hlt
    · exact hlimit ▸ hinv.limit_le_max
    · exact hlimit ▸ hinv.limit_le_maxTableElems
    · intro i hi
      change i < r.elementIndex + 1 at hi
      show Function.update s.table.slots r.elementIndex r.biasedValue i ≠ 0
      by_cases hir : i = r.elementIndex
      · subst hir; simpa using hbiased
      · rw [Function.update_noteq hir]
        exact hinv.slots_ne_zero i (by omega)
    · intro i hi hres
      change r.elementIndex + 1 ≤ i at hi
      show Function.update s.table.slots r.elementIndex r.biasedValue i = 0
      rw [Function.update_noteq (by omega)]
      exact hinv.slots_eq_zero i (by omega) hres
    · exact hlimit ▸ hinv.committed_of_lt
    · rintro r' ⟨⟩
      exact hbiased
  · rename_i hge
    cases h
    have hindex : r.elementIndex = r.newNumElements.toNat := by omega
    refine ⟨hinv.elements_ne_zero, hinv.numReservedBytes_eq, hinv.numReservedElements_eq, le_rfl,
      le_rfl, hlimit ▸ hinv.limit_le_max, hlimit ▸ hinv.limit_le_maxTableElems, ?_, ?_,
      hlimit ▸ hinv.committed_of_lt, by rintro r' ⟨⟩,
      (hinv.setThread (show (Thread.run rest).Admissible host from hrest)).threads⟩
    · intro i hi
      exact hinv.slots_ne_zero i (by rw [hfrontier, hindex]; exact hi)
    · intro i hi hres
      exact hinv.slots_eq_zero i (by rw [hfrontier, hindex]; exact hi) hres

/-! ## What a step writes -/

theorem beginSet_table (s : Shared) (t : ThreadRef) (index object : Uptr) (rest : List Access) :
    (s.beginSet host t index object rest).table = s.table := by
  unfold Shared.beginSet
  split
  · rfl
  · dsimp only; split <;> rfl

theorem get_table (s : Shared) (t : ThreadRef) (index : Uptr) (next : Uptr → List Access) :
    (s.get host t index next).table = s.table := by
  unfold Shared.get; split <;> rfl

/-- A turn of the compare-exchange loop either leaves the table or, finding its expected word,
which is not the out-of-bounds sentinel, in the slot, stores its word there. -/
theorem exchange_table (s : Shared) (t : ThreadRef)
    (index saturatedIndex biasedValue oldBiasedValue : Uptr) (rest : List Access)
    (spurious : Bool) :
    (s.exchange host t index saturatedIndex biasedValue oldBiasedValue rest spurious).table =
        s.table ∨
      (s.table.slots saturatedIndex.toNat = oldBiasedValue ∧
        biasedTableElementValueToObject host oldBiasedValue ≠ host.outOfBoundsElement ∧
        (s.exchange host t index saturatedIndex biasedValue oldBiasedValue rest spurious).table =
          s.table.setSlot saturatedIndex.toNat biasedValue) := by
  unfold Shared.exchange
  split
  · exact .inl rfl
  · rename_i hold
    split
    · exact .inl rfl
    · rename_i current hload
      split
      · rename_i hcas
        exact .inr ⟨(Table.load_eq_some host hload).2.trans hcas.1, hold, rfl⟩
      · exact .inl rfl

theorem beginGrow_table {s s' : Shared} {t : ThreadRef}
    {numElementsToGrow initializeToElement : Uptr} {rest : List Access} {admitted : Bool}
    (h : s.beginGrow host t numElementsToGrow initializeToElement rest admitted = some s') :
    s'.table.slots = s.table.slots ∧ s'.table.numElements = s.table.numElements := by
  unfold Shared.beginGrow at h
  split at h
  · cases h; exact ⟨rfl, rfl⟩
  split at h
  · cases h
  dsimp only at h
  split at h
  · cases h; exact ⟨rfl, rfl⟩
  cases h
  split <;> exact ⟨rfl, rfl⟩

/-- The thread holding `resizingMutex` either stores its word at the next index of its loop, or,
the loop done, publishes the new count. -/
theorem resizeStep_table {s s' : Shared} {t : ThreadRef} {rest : List Access}
    (h : s.resizeStep host t rest = some s') :
    ∃ r, s.resize = some r ∧ r.thread = t ∧
      ((r.elementIndex < r.newNumElements.toNat ∧
          s'.table = s.table.setSlot r.elementIndex r.biasedValue) ∨
        (r.newNumElements.toNat ≤ r.elementIndex ∧ s'.table.slots = s.table.slots ∧
          s'.table.numElements = r.newNumElements)) := by
  unfold Shared.resizeStep at h
  split at h
  · cases h
  rename_i r hresize
  split at h
  · cases h
  rename_i hthread
  refine ⟨r, hresize, not_not.mp hthread, ?_⟩
  split at h
  · obtain ⟨table, hstore, rfl⟩ := Option.map_eq_some'.mp h
    exact .inl ⟨‹_›, (Table.store_eq_some host hstore).2⟩
  · cases h
    exact .inr ⟨by omega, rfl, rfl⟩

/-- Everything a step does to the slots and the count: nothing; a compare-exchange of a thread in
the loop that finds its expected word, not the out-of-bounds sentinel, in the slot; a store of the
thread holding `resizingMutex` at the next index of its loop; or that thread's publication of the
new count once its loop is done. -/
theorem step_table {s s' : Shared} {t : ThreadRef} {spurious admitted : Bool}
    (h : s.step host t spurious admitted = some s') :
    (s'.table.slots = s.table.slots ∧ s'.table.numElements = s.table.numElements) ∨
    (∃ index saturatedIndex biasedValue rest,
      s.threads t = .exchange index saturatedIndex biasedValue
        (s.table.slots saturatedIndex.toNat) rest ∧
      s.table.slots saturatedIndex.toNat ≠ 0 ∧
      s'.table.slots = Function.update s.table.slots saturatedIndex.toNat biasedValue ∧
      s'.table.numElements = s.table.numElements) ∨
    (∃ rest r, s.threads t = .resizing rest ∧ s.resize = some r ∧ r.thread = t ∧
      r.elementIndex < r.newNumElements.toNat ∧
      s'.table.slots = Function.update s.table.slots r.elementIndex r.biasedValue ∧
      s'.table.numElements = s.table.numElements) ∨
    (∃ rest r, s.threads t = .resizing rest ∧ s.resize = some r ∧ r.thread = t ∧
      r.newNumElements.toNat ≤ r.elementIndex ∧ s'.table.slots = s.table.slots ∧
      s'.table.numElements = r.newNumElements) := by
  unfold Shared.step at h
  cases hth : s.threads t with
  | run accesses =>
    rw [hth] at h
    cases accesses with
    | nil => cases h
    | cons a rest =>
      cases a with
      | set => cases h; exact .inl (by simp [beginSet_table])
      | get => cases h; exact .inl (by simp [get_table])
      | copy => cases h; exact .inl (by simp [get_table])
      | grow => exact .inl (beginGrow_table h)
  | exchange index saturatedIndex biasedValue oldBiasedValue rest =>
    rw [hth] at h
    cases h
    rcases @exchange_table host s t index saturatedIndex biasedValue oldBiasedValue rest spurious
      with htable | ⟨hslot, hold, htable⟩
    · exact .inl (by simp [htable])
    · rw [Ne, biasedTableElementValueToObject_eq_outOfBoundsElement] at hold
      subst hslot
      exact .inr (.inl ⟨index, saturatedIndex, biasedValue, rest, rfl, hold, by simp [htable],
        by simp [htable]⟩)
  | resizing rest =>
    rw [hth] at h
    obtain ⟨r, hresize, hthread, ⟨hlt, htable⟩ | ⟨hge, hslots, hcount⟩⟩ := resizeStep_table h
    · exact .inr (.inr (.inl ⟨rest, r, rfl, hresize, hthread, hlt, by simp [htable],
        by simp [htable]⟩))
    · exact .inr (.inr (.inr ⟨rest, r, rfl, hresize, hthread, hge, hslots, hcount⟩))
  | threw => rw [hth] at h; cases h

/-- Every step keeps the invariant. -/
theorem Invariant.step {s s' : Shared} {t : ThreadRef} {spurious admitted : Bool}
    (hinv : s.Invariant host) (h : s.step host t spurious admitted = some s') :
    s'.Invariant host := by
  have hthread := hinv.threads t
  unfold Shared.step at h
  cases hth : s.threads t with
  | run accesses =>
    rw [hth] at h hthread
    cases accesses with
    | nil => cases h
    | cons a rest =>
      have hrest : ∀ a ∈ rest, a.Admissible host := fun a ha =>
        hthread a (List.mem_cons_of_mem _ ha)
      have ha : a.Admissible host := hthread a (List.mem_cons_self _ _)
      cases a with
      | set index object => cases h; exact hinv.beginSet ha hrest
      | get index => cases h; exact hinv.get fun _ _ => hrest
      | copy sourceIndex destIndex =>
        cases h
        refine hinv.get fun object hobject a ha => ?_
        rcases List.mem_cons.mp ha with rfl | ha
        · exact hobject
        · exact hrest a ha
      | grow numElementsToGrow initializeToElement => exact hinv.beginGrow ha hrest h
  | exchange index saturatedIndex biasedValue oldBiasedValue rest =>
    rw [hth] at h hthread
    cases h
    exact hinv.exchange hthread
  | resizing rest =>
    rw [hth] at h hthread
    exact hinv.resizeStep hthread h
  | threw => rw [hth] at h; cases h

/-- Every interleaving keeps the invariant. -/
theorem Invariant.reflTransGen {s s' : Shared} (hinv : s.Invariant host)
    (h : Relation.ReflTransGen (Next host) s s') : s'.Invariant host := by
  induction h with
  | refl => exact hinv
  | tail _ hnext ih =>
    obtain ⟨_, _, _, hstep⟩ := hnext
    exact ih.step hstep

theorem Reachable.invariant {s : Shared} (h : s.Reachable host) : s.Invariant host := by
  obtain ⟨_, hinitial, hrun⟩ := h
  exact hinitial.invariant.reflTransGen hrun

/-! ## What an interleaving keeps -/

/-- A step writes a slot only as a compare-exchange of a thread in the loop, over a nonzero word
below the frontier, or as a store of the thread holding `resizingMutex`, over the zero word at
the frontier. -/
theorem Invariant.step_writes {s s' : Shared} {t : ThreadRef} {spurious admitted : Bool}
    (hinv : s.Invariant host) (h : s.step host t spurious admitted = some s') {i : Nat}
    (hi : s'.table.slots i ≠ s.table.slots i) :
    (i < s.frontier ∧ s.table.slots i ≠ 0 ∧ ∃ index saturatedIndex biasedValue rest,
      s.threads t = .exchange index saturatedIndex biasedValue (s.table.slots i) rest) ∨
    (i = s.frontier ∧ s.table.slots i = 0 ∧ ∃ rest, s.threads t = .resizing rest) := by
  rcases step_table h with ⟨hslots, -⟩ | ⟨index, saturatedIndex, biasedValue, rest, hth, hne, hslots, -⟩ |
    ⟨rest, r, hth, hresize, -, hlt, hslots, -⟩ | ⟨-, -, -, -, -, -, hslots, -⟩
  · exact absurd (congrFun hslots i) hi
  · obtain rfl : i = saturatedIndex.toNat := by
      by_contra hne'
      rw [hslots, Function.update_noteq hne'] at hi
      exact hi rfl
    have hadmissible := hinv.threads t
    rw [hth] at hadmissible
    exact .inl ⟨hinv.lt_frontier hadmissible.1 hne, hne, index, saturatedIndex, biasedValue, rest,
      hth⟩
  · obtain rfl : i = r.elementIndex := by
      by_contra hne'
      rw [hslots, Function.update_noteq hne'] at hi
      exact hi rfl
    have hfrontier := frontier_of_resize_some hresize
    have hlimit := limit_of_resize_some hresize
    have hmax := hinv.limit_le_maxTableElems
    have hreserved := host.maxTableElems_le
    rw [hlimit] at hmax
    refine .inr ⟨hfrontier.symm, hinv.slots_eq_zero _ hfrontier.le ?_, rest, hth⟩
    rw [hinv.numReservedElements_eq, tableMaxElements_toNat]
    omega
  · exact absurd (congrFun hslots i) hi

/-- The count never decreases: its one store publishes the count the frontier has reached. -/
theorem Invariant.numElements_le_step {s s' : Shared} {t : ThreadRef} {spurious admitted : Bool}
    (hinv : s.Invariant host) (h : s.step host t spurious admitted = some s') :
    s.table.numElements.toNat ≤ s'.table.numElements.toNat := by
  rcases step_table h with ⟨-, hcount⟩ | ⟨-, -, -, -, -, -, -, hcount⟩ |
    ⟨-, -, -, -, -, -, -, hcount⟩ | ⟨-, r, -, hresize, -, -, -, hcount⟩
  all_goals rw [hcount]
  have hlimit := limit_of_resize_some hresize
  exact hlimit ▸ hinv.numElements_le_frontier.trans hinv.frontier_le_limit

theorem Invariant.numElements_le_reflTransGen {s s' : Shared} (hinv : s.Invariant host)
    (h : Relation.ReflTransGen (Next host) s s') :
    s.table.numElements.toNat ≤ s'.table.numElements.toNat := by
  induction h with
  | refl => exact le_rfl
  | tail hrun hnext ih =>
    obtain ⟨_, _, _, hstep⟩ := hnext
    exact ih.trans ((hinv.reflTransGen hrun).numElements_le_step hstep)

end Shared

variable {host}

/-- In every state an interleaving reaches, the slots below the frontier are nonzero, those from
it to the end of the reservation are zero, and the published count never passes it.  So every
slot a step writes is a compare-exchange's, over a nonzero word below the frontier, or the
growth's, over the zero word at the frontier; and a reader that has seen the count finds the
slots below it initialised in every later state. -/
theorem reachable_shared_frontier {s : Shared} (hreach : s.Reachable host) :
    (∀ i, s.frontier ≤ i → i < s.table.numReservedElements.toNat → s.table.slots i = 0) ∧
    (∀ i < s.frontier, s.table.slots i ≠ 0) ∧
    s.table.numElements.toNat ≤ s.frontier ∧
    (∀ t spurious admitted s', s.step host t spurious admitted = some s' →
      ∀ i, s'.table.slots i ≠ s.table.slots i →
        (i < s.frontier ∧ s.table.slots i ≠ 0 ∧ ∃ index saturatedIndex biasedValue rest,
          s.threads t = .exchange index saturatedIndex biasedValue (s.table.slots i) rest) ∨
        (i = s.frontier ∧ s.table.slots i = 0 ∧ ∃ rest, s.threads t = .resizing rest)) ∧
    ∀ s', Relation.ReflTransGen (Shared.Next host) s s' →
      ∀ i < s.table.numElements.toNat, s'.table.slots i ≠ 0 := by
  have hinv := hreach.invariant
  refine ⟨hinv.slots_eq_zero, hinv.slots_ne_zero, hinv.numElements_le_frontier,
    fun _ _ _ _ hstep _ hi => hinv.step_writes hstep hi, fun s' hrun i hi => ?_⟩
  have hinv' := hinv.reflTransGen hrun
  exact hinv'.slots_ne_zero i (by
    have := hinv.numElements_le_reflTransGen hrun
    have := hinv'.numElements_le_frontier
    omega)

/-- What the threads of `sampleShared` run: thread `0` grows the table by one null element, then
sets element `2`; thread `1` sets element `2` and copies element `0` to element `1`. -/
def sampleAccesses : ThreadRef → List Access
  | 0 => [.grow 1 0, .set 2 0x3000]
  | 1 => [.set 2 0x3000, .copy 0 1]
  | _ => []

/-- `sampleTable` shared by the threads of `sampleAccesses`. -/
def sampleShared : Shared where
  ref := 0
  table := sampleTable
  resize := none
  threads t := .run (sampleAccesses t)

theorem sampleShared_initial : sampleShared.Initial sampleHost where
  table := sampleTable_invariant
  resize := rfl
  threads t := ⟨sampleAccesses t, rfl, fun a ha => by
    match t, ha with
    | 0, ha | 1, ha =>
      simp only [sampleAccesses, List.mem_cons, List.mem_singleton, List.not_mem_nil,
        or_false] at ha
      rcases ha with rfl | rfl <;> simp [Access.Admissible, sampleHost]
    | _ + 2, ha => simp [sampleAccesses] at ha⟩

theorem reachable_shared_frontier_sampleShared :
    (∀ i, sampleShared.frontier ≤ i → i < sampleShared.table.numReservedElements.toNat →
      sampleShared.table.slots i = 0) ∧
    (∀ i < sampleShared.frontier, sampleShared.table.slots i ≠ 0) ∧
    sampleShared.table.numElements.toNat ≤ sampleShared.frontier ∧
    (∀ t spurious admitted s', sampleShared.step sampleHost t spurious admitted = some s' →
      ∀ i, s'.table.slots i ≠ sampleShared.table.slots i →
        (i < sampleShared.frontier ∧ sampleShared.table.slots i ≠ 0 ∧
          ∃ index saturatedIndex biasedValue rest, sampleShared.threads t =
            .exchange index saturatedIndex biasedValue (sampleShared.table.slots i) rest) ∨
        (i = sampleShared.frontier ∧ sampleShared.table.slots i = 0 ∧
          ∃ rest, sampleShared.threads t = .resizing rest)) ∧
    ∀ s', Relation.ReflTransGen (Shared.Next sampleHost) sampleShared s' →
      ∀ i < sampleShared.table.numElements.toNat, s'.table.slots i ≠ 0 :=
  reachable_shared_frontier ⟨sampleShared, sampleShared_initial, .refl⟩

/-- In every state an interleaving reaches, also while a growth runs, the count is within the
type's maximum and `maxTableElems`; whenever no growth holds `resizingMutex` the table satisfies
the sequential `TableInvariant`; and no later step lowers the count. -/
theorem reachable_shared_numElements_bounded {s : Shared} (hreach : s.Reachable host) :
    s.table.numElements.toNat ≤ s.table.type.size.max.toNat ∧
    s.table.numElements.toNat ≤ host.maxTableElems.toNat ∧
    (s.resize = none → TableInvariant host s.table) ∧
    ∀ s', Relation.ReflTransGen (Shared.Next host) s s' →
      s.table.numElements.toNat ≤ s'.table.numElements.toNat := by
  have hinv := hreach.invariant
  have hlimit : s.table.numElements.toNat ≤ s.limit.toNat :=
    hinv.numElements_le_frontier.trans hinv.frontier_le_limit
  exact ⟨hlimit.trans hinv.limit_le_max, hlimit.trans hinv.limit_le_maxTableElems,
    hinv.tableInvariant, fun _ => hinv.numElements_le_reflTransGen⟩

theorem reachable_shared_numElements_bounded_sampleShared :
    sampleShared.table.numElements.toNat ≤ sampleShared.table.type.size.max.toNat ∧
    sampleShared.table.numElements.toNat ≤ sampleHost.maxTableElems.toNat ∧
    (sampleShared.resize = none → TableInvariant sampleHost sampleShared.table) ∧
    ∀ s', Relation.ReflTransGen (Shared.Next sampleHost) sampleShared s' →
      sampleShared.table.numElements.toNat ≤ s'.table.numElements.toNat :=
  reachable_shared_numElements_bounded ⟨sampleShared, sampleShared_initial, .refl⟩

end Wavm.Runtime
