import Wavm.Runtime.Table.World

/-!
# Table operations on the process state

The host API's element access and growth, `Runtime::initElemSegment`, and the intrinsics that
compiled code calls: `table.grow`, `table.size`, `table.get`, `table.set`, `table.init`,
`elem.drop`, `table.copy`, `table.fill` and `callIndirectFail`.  The intrinsics take the table,
module instance and segment they name already resolved; looking them up in the context's runtime
data is not part of `Table.cpp`.

The loops of `initElemSegment`, `table.copy` and `table.fill` stop at the first exception and
keep the writes made before it, so they return the state together with the exception, if any.
-/

namespace Wavm.Runtime

/-- `for(Uptr index = first; index < first + count; ++index) body(index);` where an exception
thrown by `body` leaves the loop with the effects of the iterations before it. -/
def forIndices {σ ε : Type} (body : Nat → σ → Except ε σ) : Nat → Nat → σ → σ × Option ε
  | _, 0, state => (state, none)
  | index, count + 1, state =>
    match body index state with
    | .error e => (state, some e)
    | .ok state' => forIndices body (index + 1) count state'

/-- Whatever every iteration keeps, the whole loop keeps, also when it stops early. -/
theorem forIndices_invariant {σ ε : Type} {body : Nat → σ → Except ε σ} (P : σ → Prop)
    (hbody : ∀ index state state', P state → body index state = .ok state' → P state') :
    ∀ first count state, P state → P (forIndices body first count state).1 := by
  intro first count
  induction count generalizing first with
  | zero => exact fun _ h => h
  | succ count ih =>
    intro state hstate
    simp only [forIndices]
    split
    · exact hstate
    · exact ih _ _ (hbody _ _ _ hstate ‹_›)

variable (host : Host)

namespace World

/-- `setTableElementNonNull` on table `table` of the process. -/
def setTableElementNonNull (w : World) (table : TableRef) (index object : Uptr) :
    Except Exception (World × Uptr) :=
  (Wavm.Runtime.setTableElementNonNull host table (w.heap table) index object).map
    fun (t, old) => (w.setTable table t, old)

/-- `Runtime::setTableElement` on table `table` of the process. -/
def setTableElement (w : World) (table : TableRef) (index newValue : Uptr) :
    Except Exception (World × Uptr) :=
  (Wavm.Runtime.setTableElement host table (w.heap table) index newValue).map
    fun (t, old) => (w.setTable table t, old)

/-- `Runtime::growTable`: the new state and what `growTableImpl` returned; `none` is an access
violation. -/
def growTable (w : World) (table : TableRef) (numElementsToGrow initialElement : Uptr)
    (commitSucceeds : Bool) : Option (World × Option Uptr) :=
  (growTableImpl host w.quotas (w.heap table) numElementsToGrow true initialElement
    commitSucceeds).map fun outcome => (w.applyGrow table outcome, outcome.oldNumElements)

/-- `Runtime::initElemSegment`. -/
def initElemSegment (w : World) (moduleInstance : ModuleRef) (elemSegmentIndex : Uptr)
    (elemVector : List Elem) (table : TableRef) (destOffset sourceOffset numElems : Uptr) :
    World × Option Exception :=
  forIndices (fun index w =>
    let sourceIndex := sourceOffset + BitVec.ofNat 64 index
    let destIndex := destOffset + BitVec.ofNat 64 index
    if h : sourceIndex.toNat ≥ elemVector.length ∨ sourceIndex < sourceOffset then
      .error (.outOfBoundsElemSegmentAccess moduleInstance elemSegmentIndex sourceIndex)
    else
      let elem := elemVector.get ⟨sourceIndex.toNat, Nat.lt_of_not_le fun h' => h (.inl h')⟩
      let elemObject := match elem.type with
        | .refNull => 0
        | .refFunc => (w.moduleInstances moduleInstance).functions elem.index
      (w.setTableElement host table destIndex elemObject).map Prod.fst)
    0 numElems.toNat w

/-- The `table.grow` intrinsic: the old count, or `-1` when the growth fails. -/
def tableGrow (w : World) (initialValue : Uptr) (deltaNumElements : U32) (table : TableRef)
    (commitSucceeds : Bool) : Option (World × I32) :=
  (w.growTable host table (deltaNumElements.setWidth 64)
    (if initialValue = 0 then host.uninitializedElement else initialValue) commitSucceeds).map
    fun (w, old) => (w, match old with
      | none => -1
      | some oldNumElements => oldNumElements.setWidth 32)

/-- The `table.size` intrinsic. -/
def tableSize (w : World) (table : TableRef) : U32 :=
  (getTableNumElements (w.heap table)).setWidth 32

/-- The `table.get` intrinsic. -/
def tableGet (w : World) (index : U32) (table : TableRef) : Except Exception Uptr :=
  getTableElement host table (w.heap table) (index.setWidth 64)

/-- The `table.set` intrinsic. -/
def tableSet (w : World) (index : U32) (value : Uptr) (table : TableRef) :
    World × Option Exception :=
  match w.setTableElement host table (index.setWidth 64) value with
  | .ok (w', _) => (w', none)
  | .error e => (w, some e)

/-- The `table.init` intrinsic: `invalidArgument` once the segment has been dropped. -/
def tableInit (w : World) (destIndex sourceIndex numElems : U32) (moduleInstance : ModuleRef)
    (table : TableRef) (elemSegmentIndex : Uptr) : World × Option Exception :=
  match (w.moduleInstances moduleInstance).elemSegments elemSegmentIndex with
  | none => (w, some .invalidArgument)
  | some elemVector =>
    w.initElemSegment host moduleInstance elemSegmentIndex elemVector table
      (destIndex.setWidth 64) (sourceIndex.setWidth 64) (numElems.setWidth 64)

/-- The `elem.drop` intrinsic. -/
def elemDrop (w : World) (moduleInstance : ModuleRef) (elemSegmentIndex : Uptr) :
    World × Option Exception :=
  let segments := (w.moduleInstances moduleInstance).elemSegments
  match segments elemSegmentIndex with
  | none => (w, some .invalidArgument)
  | some _ =>
    let dropped : ModuleInstance := { w.moduleInstances moduleInstance with
      elemSegments := Function.update segments elemSegmentIndex none }
    ({ w with moduleInstances := Function.update w.moduleInstances moduleInstance dropped }, none)

/-- One element of `table.copy`: read slot `sourceIndex` of the source, write it to slot
`destIndex` of the destination. -/
def copyElement (w : World) (sourceTable destTable : TableRef) (sourceIndex destIndex : Uptr) :
    Except Exception World := do
  let object ← getTableElementNonNull host sourceTable (w.heap sourceTable) sourceIndex
  let (w, _) ← w.setTableElementNonNull host destTable destIndex object
  pure w

/-- The `table.copy` intrinsic: descending when copying to higher indices, ascending
otherwise. -/
def tableCopy (w : World) (destOffset sourceOffset numElements : U32)
    (sourceTable destTable : TableRef) : World × Option Exception :=
  if sourceOffset < destOffset then
    forIndices (fun index w =>
      let offset := numElements.setWidth 64 - BitVec.ofNat 64 index - 1
      w.copyElement host sourceTable destTable (sourceOffset.setWidth 64 + offset)
        (destOffset.setWidth 64 + offset)) 0 numElements.toNat w
  else
    forIndices (fun index w =>
      w.copyElement host sourceTable destTable (sourceOffset.setWidth 64 + BitVec.ofNat 64 index)
        (destOffset.setWidth 64 + BitVec.ofNat 64 index)) 0 numElements.toNat w

/-- The `table.fill` intrinsic. -/
def tableFill (w : World) (destOffset : U32) (value : Uptr) (numElements : U32)
    (destTable : TableRef) : World × Option Exception :=
  let value := if value = 0 then host.uninitializedElement else value
  forIndices (fun index w =>
    (w.setTableElementNonNull host destTable (destOffset.setWidth 64 + BitVec.ofNat 64 index)
      value).map Prod.fst) 0 numElements.toNat w

end World

/-- The `callIndirectFail` intrinsic: the exception it raises for the function compiled code
found in the slot (its debug logging is not modelled). -/
def callIndirectFail (index : U32) (table : TableRef) (function : Uptr) : Exception :=
  if function = host.outOfBoundsElement then .outOfBoundsTableAccess table (index.setWidth 64)
  else if function = host.uninitializedElement then
    .uninitializedTableElement table (index.setWidth 64)
  else .indirectCallSignatureMismatch

end Wavm.Runtime
