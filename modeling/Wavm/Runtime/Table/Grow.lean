import Wavm.Runtime.Table.Basic

/-!
# Growing a table

`growTableImpl` charges the quota, checks the two size limits, commits the pages the new
elements need, optionally initialises the new slots in ascending order, and only then publishes
the new count.  Every failing path refunds the quota charge and leaves the table as it was.

The limit check is written the way the code writes it, with `U64` subtractions that could wrap;
`growCheck_iff` shows that the short-circuit order keeps them from wrapping, so the check is the
exact comparison `n + δ ≤ max`.  `growTableImpl_eq_success` then says, from a table satisfying
`TableInvariant`, what every path returns; the initialising stores never fault there because the
committed prefix already covers the old slots and the commit covers the new ones.
-/

namespace Wavm.Runtime

variable (host : Host)

/-- The initialising loop of `growTableImpl`: release-store `biasedValue` into `count` slots
from `first` up, in ascending order. -/
def Table.initializeElements (biasedValue : Uptr) : Nat → Nat → Table → Option Table
  | _, 0, table => some table
  | first, count + 1, table =>
    (table.store host first biasedValue).bind (Table.initializeElements biasedValue (first + 1) count)

/-- What `growTableImpl` leaves behind. -/
structure GrowOutcome where
  table : Table
  quotas : Quotas
  /-- `some old` when `growTableImpl` returns `true` having written `old` to
  `*outOldNumElements`, `none` when it returns `false`. -/
  oldNumElements : Option Uptr

/-- `growTableImpl`.  `commitSucceeds` is what `Platform::commitVirtualPages` returns if it is
called; `none` is an access violation in the initialising loop. -/
def growTableImpl (quotas : Quotas) (table : Table) (numElementsToGrow : Uptr)
    (initializeNewElements : Bool) (initializeToElement : Uptr) (commitSucceeds : Bool) :
    Option GrowOutcome :=
  if numElementsToGrow = 0 then some ⟨table, quotas, some table.numElements⟩
  else
    match allocateTableElems quotas table.resourceQuota numElementsToGrow.toNat with
    | none => some ⟨table, quotas, none⟩
    | some charged =>
      let refunded := freeTableElems charged table.resourceQuota numElementsToGrow.toNat
      let oldNumElements := table.numElements
      if numElementsToGrow > table.type.size.max
          ∨ oldNumElements > table.type.size.max - numElementsToGrow
          ∨ numElementsToGrow > host.maxTableElems
          ∨ oldNumElements > host.maxTableElems - numElementsToGrow then
        some ⟨table, refunded, none⟩
      else
        let newNumElements := oldNumElements + numElementsToGrow
        let previousNumPlatformPages := getNumPlatformPages host (oldNumElements * sizeofElement)
        let newNumPlatformPages := getNumPlatformPages host (newNumElements * sizeofElement)
        if newNumPlatformPages ≠ previousNumPlatformPages ∧ commitSucceeds = false then
          some ⟨table, refunded, none⟩
        else
          let committed :=
            if newNumPlatformPages ≠ previousNumPlatformPages then
              table.commit previousNumPlatformPages.toNat
                (newNumPlatformPages - previousNumPlatformPages).toNat
            else table
          let initialized :=
            if initializeNewElements then
              committed.initializeElements host
                (objectToBiasedTableElementValue host initializeToElement)
                oldNumElements.toNat (newNumElements.toNat - oldNumElements.toNat)
            else some committed
          initialized.map fun grown =>
            ⟨{ grown with numElements := newNumElements }, charged, some oldNumElements⟩

/-! ## The limit check -/

/-- The limit check rejects exactly the growths past either limit, as exact integers. -/
theorem growCheck_iff (oldNumElements delta max limit : U64) :
    (delta > max ∨ oldNumElements > max - delta ∨ delta > limit ∨ oldNumElements > limit - delta)
      ↔ max.toNat < oldNumElements.toNat + delta.toNat ∨
        limit.toNat < oldNumElements.toNat + delta.toNat := by
  bv_omega

/-! ## The initialising loop -/

/-- Storing into slots on committed pages succeeds and sets exactly those slots. -/
theorem initializeElements_eq {biasedValue : Uptr} {first count : Nat} {table : Table}
    (hcommitted : ∀ i, first ≤ i → i < first + count → table.committed (elementPage host i)) :
    table.initializeElements host biasedValue first count =
      some { table with slots := fun i =>
        if first ≤ i ∧ i < first + count then biasedValue else table.slots i } := by
  induction count generalizing first table with
  | zero =>
    have hslots : (fun i => if first ≤ i ∧ i < first + 0 then biasedValue else table.slots i) =
        table.slots := funext fun i => if_neg (by omega)
    rw [hslots]
    rfl
  | succ count ih =>
    have hstore : table.store host first biasedValue = some (table.setSlot first biasedValue) := by
      simp [Table.store, hcommitted first le_rfl (by omega)]
    rw [Table.initializeElements, hstore, Option.some_bind,
      @ih (first + 1) (table.setSlot first biasedValue)
        fun i h1 h2 => hcommitted i (by omega) (by omega)]
    congr 2
    funext i
    by_cases hi : i = first
    · subst hi; simp
    · simp only [Table.setSlot_slots, Function.update_noteq hi]
      congr 1
      exact propext ⟨fun h => ⟨by omega, by omega⟩, fun h => ⟨by omega, by omega⟩⟩

/-! ## The paths of `growTableImpl` -/

/-- The table a successful `growTableImpl` leaves: the count raised by `delta`, the new slots
set to `biasedValue` when they are initialised, and the pages up to the new page count
committed. -/
def Table.grown (table : Table) (delta : Uptr) (initializeNewElements : Bool)
    (biasedValue : Uptr) : Table :=
  { table with
    numElements := table.numElements + delta
    slots := fun i =>
      if initializeNewElements ∧ table.numElements.toNat ≤ i ∧
          i < table.numElements.toNat + delta.toNat then biasedValue
      else table.slots i
    committed := fun page => table.committed page ||
      ((getNumPlatformPages host (table.numElements * sizeofElement)).toNat ≤ page &&
        page < (getNumPlatformPages host ((table.numElements + delta) * sizeofElement)).toNat) }

/-- A growth within the type's maximum does not wrap the count. -/
theorem numElements_add_toNat {table : Table} {delta : Uptr}
    (hmax : table.numElements.toNat + delta.toNat ≤ table.type.size.max.toNat) :
    (table.numElements + delta).toNat = table.numElements.toNat + delta.toNat := by
  rw [BitVec.toNat_add, Nat.mod_eq_of_lt (lt_of_le_of_lt hmax table.type.size.max.isLt)]

section Paths

variable {host} {quotas charged : Quotas} {table : Table} {delta : Uptr}
  {initializeNewElements : Bool} {fill : Uptr} {commitSucceeds : Bool}

theorem growTableImpl_zero :
    growTableImpl host quotas table 0 initializeNewElements fill commitSucceeds =
      some ⟨table, quotas, some table.numElements⟩ := if_pos rfl

theorem growTableImpl_of_allocate_eq_none (hdelta : delta ≠ 0)
    (hcharge : allocateTableElems quotas table.resourceQuota delta.toNat = none) :
    growTableImpl host quotas table delta initializeNewElements fill commitSucceeds =
      some ⟨table, quotas, none⟩ := by
  rw [growTableImpl, if_neg hdelta, hcharge]

theorem growTableImpl_of_limit (hdelta : delta ≠ 0)
    (hcharge : allocateTableElems quotas table.resourceQuota delta.toNat = some charged)
    (hlimit : table.type.size.max.toNat < table.numElements.toNat + delta.toNat ∨
      host.maxTableElems.toNat < table.numElements.toNat + delta.toNat) :
    growTableImpl host quotas table delta initializeNewElements fill commitSucceeds =
      some ⟨table, quotas, none⟩ := by
  rw [growTableImpl, if_neg hdelta, hcharge]
  simp only
  rw [if_pos ((growCheck_iff _ _ _ _).mpr hlimit), freeTableElems_allocateTableElems hcharge]

theorem growTableImpl_of_commit_failed (hdelta : delta ≠ 0)
    (hcharge : allocateTableElems quotas table.resourceQuota delta.toNat = some charged)
    (hmax : table.numElements.toNat + delta.toNat ≤ table.type.size.max.toNat)
    (hlimit : table.numElements.toNat + delta.toNat ≤ host.maxTableElems.toNat)
    (hpages : getNumPlatformPages host ((table.numElements + delta) * sizeofElement) ≠
      getNumPlatformPages host (table.numElements * sizeofElement))
    (hcommit : commitSucceeds = false) :
    growTableImpl host quotas table delta initializeNewElements fill commitSucceeds =
      some ⟨table, quotas, none⟩ := by
  rw [growTableImpl, if_neg hdelta, hcharge]
  simp only
  rw [if_neg (fun h => by rw [growCheck_iff] at h; omega), if_pos ⟨hpages, hcommit⟩,
    freeTableElems_allocateTableElems hcharge]

/-- Committing the pages from the old page count to the new one, when the counts differ, is
the same as committing the range between them. -/
theorem commit_previous_eq {previous next : Uptr} (hle : previous.toNat ≤ next.toNat) :
    (if next ≠ previous then table.commit previous.toNat (next - previous).toNat else table) =
      { table with committed := fun page =>
          table.committed page || (previous.toNat ≤ page && page < next.toNat) } := by
  by_cases hpages : next = previous
  · subst hpages
    rw [if_neg (not_not.mpr rfl)]
    have hcommitted : (fun page => table.committed page ||
        (next.toNat ≤ page && page < next.toNat)) = table.committed := by
      funext page
      have hempty : (decide (next.toNat ≤ page) && decide (page < next.toNat)) = false := by
        simp only [Bool.and_eq_false_iff, decide_eq_false_iff_not]
        omega
      rw [hempty, Bool.or_false]
    rw [hcommitted]
  · rw [if_pos hpages, Table.commit]
    have hsub : (next - previous).toNat = next.toNat - previous.toNat := by bv_omega
    simp only [hsub, Nat.add_sub_cancel' hle]

/-- From a table satisfying `TableInvariant`, a growth within both limits whose commit (if it
needs one) succeeds charges the quota and returns `Table.grown` with the old count. -/
theorem growTableImpl_eq_grown (hinv : TableInvariant host table) (hdelta : delta ≠ 0)
    (hcharge : allocateTableElems quotas table.resourceQuota delta.toNat = some charged)
    (hmax : table.numElements.toNat + delta.toNat ≤ table.type.size.max.toNat)
    (hlimit : table.numElements.toNat + delta.toNat ≤ host.maxTableElems.toNat)
    (hcommit : getNumPlatformPages host ((table.numElements + delta) * sizeofElement) ≠
      getNumPlatformPages host (table.numElements * sizeofElement) → commitSucceeds = true) :
    growTableImpl host quotas table delta initializeNewElements fill commitSucceeds =
      some ⟨table.grown host delta initializeNewElements
        (objectToBiasedTableElementValue host fill), charged, some table.numElements⟩ := by
  have hnew := numElements_add_toNat hmax
  have hreserved : (table.numElements + delta).toNat ≤ 2 ^ 32 := by
    have := host.maxTableElems_le
    omega
  have hle := @getNumPlatformPages_mul_le host table.numElements (table.numElements + delta)
    (by omega) hreserved
  rw [growTableImpl, if_neg hdelta, hcharge]
  simp only
  rw [if_neg (fun h => by rw [growCheck_iff] at h; omega),
    if_neg (fun h => by simp [hcommit h.1] at h), commit_previous_eq hle, hnew,
    Nat.add_sub_cancel_left]
  cases initializeNewElements with
  | false =>
    simp only [Bool.false_eq_true, if_false, Option.map_some', Table.grown, false_and]
  | true =>
    rw [if_pos rfl, initializeElements_eq host fun i h1 h2 => ?covered]
    case covered =>
      have hpage := @elementPage_lt host (table.numElements + delta) i hreserved (by omega)
      by_cases hprev : elementPage host i <
          (getNumPlatformPages host (table.numElements * sizeofElement)).toNat
      · simp [hinv.committed_of_lt _ hprev]
      · simp only [Bool.or_eq_true, Bool.and_eq_true, decide_eq_true_eq]
        exact .inr ⟨by omega, hpage⟩
    simp only [Option.map_some', Table.grown, true_and]

end Paths

/-- A successful initialising growth keeps `TableInvariant`, provided the fill object is not the
out-of-bounds sentinel. -/
theorem TableInvariant.grown {table : Table} {delta biasedValue : Uptr}
    (hinv : TableInvariant host table)
    (hmax : table.numElements.toNat + delta.toNat ≤ table.type.size.max.toNat)
    (hlimit : table.numElements.toNat + delta.toNat ≤ host.maxTableElems.toNat)
    (hvalue : biasedValue ≠ 0) :
    TableInvariant host (table.grown host delta true biasedValue) := by
  have hnew := numElements_add_toNat hmax
  have hreserved := host.maxTableElems_le
  have hslots := hinv.slots_ne_zero
  have hzero := hinv.slots_eq_zero
  constructor
  case elements_ne_zero => exact hinv.elements_ne_zero
  case numReservedBytes_eq => exact hinv.numReservedBytes_eq
  case numReservedElements_eq => exact hinv.numReservedElements_eq
  case numElements_le_max => simpa [Table.grown, hnew] using hmax
  case numElements_le_maxTableElems => simpa [Table.grown, hnew] using hlimit
  case slots_ne_zero =>
    intro i hi
    simp only [Table.grown, hnew, true_and] at hi ⊢
    split
    · exact hvalue
    · exact hslots i (by omega)
  case slots_eq_zero =>
    intro i hi hres
    simp only [Table.grown, hnew, true_and] at hi hres ⊢
    rw [if_neg (by omega)]
    exact hzero i (by omega) hres
  case committed_of_lt =>
    intro page hpage
    simp only [Table.grown, Bool.or_eq_true, Bool.and_eq_true, decide_eq_true_eq] at hpage ⊢
    by_cases hprev : page <
        (getNumPlatformPages host (table.numElements * sizeofElement)).toNat
    · exact .inl (hinv.committed_of_lt page hprev)
    · exact .inr ⟨by omega, hpage⟩

/-- When a growth by `delta ≠ 0` goes through: the quota admits the charge, both limits admit
the exact sum, and the commit succeeds if the page count changes. -/
def GrowAdmitted (quotas : Quotas) (table : Table) (delta : Uptr) (commitSucceeds : Bool) : Prop :=
  (∀ quota, table.resourceQuota = some quota →
    (quotas quota).current + delta.toNat ≤ (quotas quota).max) ∧
  table.numElements.toNat + delta.toNat ≤ table.type.size.max.toNat ∧
  table.numElements.toNat + delta.toNat ≤ host.maxTableElems.toNat ∧
  (getNumPlatformPages host ((table.numElements + delta) * sizeofElement) ≠
    getNumPlatformPages host (table.numElements * sizeofElement) → commitSucceeds = true)

/-- Everything a growth by `delta ≠ 0` can do from a table satisfying `TableInvariant`: either it
is admitted, charges the quota and returns `Table.grown`, or it is refused and changes nothing. -/
theorem growTableImpl_cases {quotas : Quotas} {table : Table} {delta : Uptr}
    {initializeNewElements : Bool} {fill : Uptr} {commitSucceeds : Bool}
    (hinv : TableInvariant host table) (hdelta : delta ≠ 0) :
    (∃ charged, GrowAdmitted host quotas table delta commitSucceeds ∧
      allocateTableElems quotas table.resourceQuota delta.toNat = some charged ∧
      growTableImpl host quotas table delta initializeNewElements fill commitSucceeds =
        some ⟨table.grown host delta initializeNewElements
          (objectToBiasedTableElementValue host fill), charged, some table.numElements⟩) ∨
    (¬GrowAdmitted host quotas table delta commitSucceeds ∧
      growTableImpl host quotas table delta initializeNewElements fill commitSucceeds =
        some ⟨table, quotas, none⟩) := by
  have hadmits := @allocateTableElems_isSome quotas table.resourceQuota delta.toNat
  cases hcharge : allocateTableElems quotas table.resourceQuota delta.toNat with
  | none =>
    simp only [hcharge, Option.isSome_none, Bool.false_eq_true, false_iff] at hadmits
    exact .inr ⟨fun h => hadmits h.1, growTableImpl_of_allocate_eq_none hdelta hcharge⟩
  | some charged =>
    have hquota := hadmits.mp (by simp [hcharge])
    by_cases hlimits : table.numElements.toNat + delta.toNat ≤ table.type.size.max.toNat ∧
        table.numElements.toNat + delta.toNat ≤ host.maxTableElems.toNat
    · by_cases hcommit : getNumPlatformPages host ((table.numElements + delta) * sizeofElement) ≠
          getNumPlatformPages host (table.numElements * sizeofElement) → commitSucceeds = true
      · exact .inl ⟨charged, ⟨hquota, hlimits.1, hlimits.2, hcommit⟩, rfl,
          growTableImpl_eq_grown hinv hdelta hcharge hlimits.1 hlimits.2 hcommit⟩
      · simp only [Classical.not_imp, Bool.not_eq_true] at hcommit
        exact .inr ⟨fun h => absurd (h.2.2.2 hcommit.1) (by simp [hcommit.2]),
          growTableImpl_of_commit_failed hdelta hcharge hlimits.1 hlimits.2 hcommit.1 hcommit.2⟩
    · exact .inr ⟨fun h => hlimits ⟨h.2.1, h.2.2.1⟩,
        growTableImpl_of_limit hdelta hcharge (by omega)⟩

/-- `growTableImpl` from a table satisfying `TableInvariant` always returns. -/
theorem growTableImpl_isSome {quotas : Quotas} {table : Table} {delta : Uptr}
    {initializeNewElements : Bool} {fill : Uptr} {commitSucceeds : Bool}
    (hinv : TableInvariant host table) :
    (growTableImpl host quotas table delta initializeNewElements fill commitSucceeds).isSome := by
  by_cases hdelta : delta = 0
  · rw [hdelta, growTableImpl_zero]
    rfl
  · rcases growTableImpl_cases host hinv hdelta with ⟨_, -, -, h⟩ | ⟨-, h⟩ <;> rw [h] <;> rfl

section Outcome

variable {host} {quotas : Quotas} {table : Table} {delta : Uptr} {initializeNewElements : Bool}
  {fill : Uptr} {commitSucceeds : Bool} {outcome : GrowOutcome}

/-- What `growTableImpl` can leave from a table satisfying `TableInvariant`, whatever `delta`:
the table and the quotas as they were, after a growth by nothing or a refused one, or the grown
table with its quota charged. -/
theorem growTableImpl_eq_some (hinv : TableInvariant host table)
    (h : growTableImpl host quotas table delta initializeNewElements fill commitSucceeds =
      some outcome) :
    (outcome.table = table ∧ outcome.quotas = quotas ∧
      (delta = 0 ∨ outcome.oldNumElements = none)) ∨
    (GrowAdmitted host quotas table delta commitSucceeds ∧ ∃ charged,
      allocateTableElems quotas table.resourceQuota delta.toNat = some charged ∧
      outcome = ⟨table.grown host delta initializeNewElements
        (objectToBiasedTableElementValue host fill), charged, some table.numElements⟩) := by
  by_cases hdelta : delta = 0
  · subst hdelta
    rw [growTableImpl_zero, Option.some_inj] at h
    exact .inl ⟨by rw [← h], by rw [← h], .inl rfl⟩
  rcases growTableImpl_cases host hinv hdelta with ⟨charged, hadmitted, hcharge, hgrow⟩ | ⟨-, hgrow⟩
  · rw [hgrow, Option.some_inj] at h
    exact .inr ⟨hadmitted, charged, hcharge, h.symm⟩
  · rw [hgrow, Option.some_inj] at h
    exact .inl ⟨by rw [← h], by rw [← h], .inr (by rw [← h])⟩

/-- A growth keeps the table's place, and charges its quota exactly the change in its count. -/
theorem growTableImpl_charges (hinv : TableInvariant host table)
    (h : growTableImpl host quotas table delta initializeNewElements fill commitSucceeds =
      some outcome) :
    table.SamePlace outcome.table ∧ ∀ quota, (outcome.quotas quota).current +
        (if table.resourceQuota = some quota then table.numElements.toNat else 0) =
      (quotas quota).current +
        if table.resourceQuota = some quota then outcome.table.numElements.toNat else 0 := by
  rcases growTableImpl_eq_some hinv h with ⟨htable, hquotas, -⟩ | ⟨hadmitted, charged, hcharge, rfl⟩
  · rw [htable, hquotas]
    exact ⟨⟨rfl, rfl, rfl, rfl⟩, fun _ => rfl⟩
  · have hnew := numElements_add_toNat hadmitted.2.1
    refine ⟨⟨rfl, rfl, rfl, rfl⟩, fun quota => ?_⟩
    rw [allocateTableElems_current hcharge]
    simp only [Table.grown, hnew]
    split <;> omega

/-- An initialising growth with an object other than the out-of-bounds sentinel keeps
`TableInvariant`, whether it succeeds or not. -/
theorem growTableImpl_tableInvariant (hinv : TableInvariant host table)
    (hfill : fill ≠ host.outOfBoundsElement)
    (h : growTableImpl host quotas table delta true fill commitSucceeds = some outcome) :
    TableInvariant host outcome.table := by
  rcases growTableImpl_eq_some hinv h with ⟨htable, -, -⟩ | ⟨hadmitted, charged, -, rfl⟩
  · exact htable ▸ hinv
  · exact hinv.grown host hadmitted.2.1 hadmitted.2.2.1
      fun h => hfill ((objectToBiasedTableElementValue_eq_zero host _).mp h)

end Outcome

/-- Every call `growTableImpl(T, δ, out, true, fill)` from a table satisfying `TableInvariant`
returns.  With `δ = 0` it reports `n` and changes nothing.  Otherwise it succeeds exactly when
the quota admits `δ`, `n + δ` is within both limits as an exact sum, and the commit succeeds if
one is needed; on success the count is `n + δ`, the new slots hold the encoded fill object, the
other slots are unchanged and the quota is charged `δ`; on failure the table and the quotas are
exactly as before. -/
theorem growTableImpl_initialized_spec (quotas : Quotas) (table : Table) (delta fill : Uptr)
    (commitSucceeds : Bool) (hinv : TableInvariant host table) :
    ∃ outcome, growTableImpl host quotas table delta true fill commitSucceeds = some outcome ∧
      (delta = 0 → outcome = ⟨table, quotas, some table.numElements⟩) ∧
      (delta ≠ 0 →
        (outcome.oldNumElements.isSome ↔
          (∀ quota, table.resourceQuota = some quota →
            (quotas quota).current + delta.toNat ≤ (quotas quota).max) ∧
          table.numElements.toNat + delta.toNat ≤ table.type.size.max.toNat ∧
          table.numElements.toNat + delta.toNat ≤ host.maxTableElems.toNat ∧
          (getNumPlatformPages host ((table.numElements + delta) * sizeofElement) ≠
            getNumPlatformPages host (table.numElements * sizeofElement) →
              commitSucceeds = true)) ∧
        (outcome.oldNumElements.isSome →
          outcome.oldNumElements = some table.numElements ∧
          outcome.table.numElements.toNat = table.numElements.toNat + delta.toNat ∧
          (∀ i, outcome.table.slots i =
            if table.numElements.toNat ≤ i ∧ i < table.numElements.toNat + delta.toNat then
              objectToBiasedTableElementValue host fill
            else table.slots i) ∧
          ∀ quota, (outcome.quotas quota).current =
            (quotas quota).current + if table.resourceQuota = some quota then delta.toNat else 0) ∧
        (outcome.oldNumElements = none → outcome.table = table ∧ outcome.quotas = quotas)) := by
  by_cases hdelta : delta = 0
  · subst hdelta
    exact ⟨_, growTableImpl_zero, fun _ => rfl, fun h => absurd rfl h⟩
  rcases @growTableImpl_cases host quotas table delta true fill commitSucceeds hinv hdelta with
    ⟨charged, hadmitted, hcharge, hgrow⟩ | ⟨hrefused, hgrow⟩
  · have hnew := numElements_add_toNat hadmitted.2.1
    refine ⟨_, hgrow, (absurd · hdelta), fun _ =>
      ⟨iff_of_true rfl hadmitted, fun _ => ⟨rfl, ?_, fun i => ?_, allocateTableElems_current hcharge⟩,
        fun h => by cases h⟩⟩
    · simp [Table.grown, hnew]
    · simp [Table.grown]
  · exact ⟨_, hgrow, (absurd · hdelta), fun _ =>
      ⟨iff_of_false (by simp) hrefused, fun h => absurd h (by simp), fun _ => ⟨rfl, rfl⟩⟩⟩

theorem growTableImpl_initialized_spec_sampleTable :
    TableInvariant sampleHost sampleTable ∧
    ∃ outcome, growTableImpl sampleHost (fun _ => ⟨0, 0⟩) sampleTable 1 true
        sampleHost.uninitializedElement true = some outcome ∧
      ((1 : Uptr) = 0 → outcome = ⟨sampleTable, fun _ => ⟨0, 0⟩, some sampleTable.numElements⟩) ∧
      ((1 : Uptr) ≠ 0 →
        (outcome.oldNumElements.isSome ↔
          (∀ quota, sampleTable.resourceQuota = some quota →
            ((fun _ => ⟨0, 0⟩ : Quotas) quota).current + (1 : Uptr).toNat ≤
              ((fun _ => ⟨0, 0⟩ : Quotas) quota).max) ∧
          sampleTable.numElements.toNat + (1 : Uptr).toNat ≤ sampleTable.type.size.max.toNat ∧
          sampleTable.numElements.toNat + (1 : Uptr).toNat ≤ sampleHost.maxTableElems.toNat ∧
          (getNumPlatformPages sampleHost ((sampleTable.numElements + 1) * sizeofElement) ≠
            getNumPlatformPages sampleHost (sampleTable.numElements * sizeofElement) →
              true = true)) ∧
        (outcome.oldNumElements.isSome →
          outcome.oldNumElements = some sampleTable.numElements ∧
          outcome.table.numElements.toNat = sampleTable.numElements.toNat + (1 : Uptr).toNat ∧
          (∀ i, outcome.table.slots i =
            if sampleTable.numElements.toNat ≤ i ∧
                i < sampleTable.numElements.toNat + (1 : Uptr).toNat then
              objectToBiasedTableElementValue sampleHost sampleHost.uninitializedElement
            else sampleTable.slots i) ∧
          ∀ quota, (outcome.quotas quota).current =
            ((fun _ => ⟨0, 0⟩ : Quotas) quota).current +
              if sampleTable.resourceQuota = some quota then (1 : Uptr).toNat else 0) ∧
        (outcome.oldNumElements = none →
          outcome.table = sampleTable ∧ outcome.quotas = fun _ => ⟨0, 0⟩)) :=
  ⟨sampleTable_invariant, growTableImpl_initialized_spec sampleHost (fun _ => ⟨0, 0⟩) sampleTable 1
    sampleHost.uninitializedElement true sampleTable_invariant⟩

end Wavm.Runtime
