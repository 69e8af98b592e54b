import Wavm.Runtime.Table.Lifecycle

/-!
# The narrowing cast of `table.grow`

`table.grow` returns the old count as an `I32`, narrowing a `Uptr`.  It asserts that the old count
fits in an `I32`, and nothing keeps it there: a table of type `{min = 0, max = UINT32_MAX}` grows
to `UINT32_MAX` elements through `table.grow` itself, and a growth of it by nothing then succeeds
and returns `-1`, the value `table.grow` returns on failure.
-/

namespace Wavm.Runtime

variable {host : Host}

/-- `table.grow` by nothing succeeds, changes nothing, and returns the count narrowed to an
`I32`. -/
theorem tableGrow_zero (w : World) (initialValue : Uptr) (table : TableRef)
    (commitSucceeds : Bool) :
    w.tableGrow host initialValue 0 table commitSucceeds =
      some (w.applyGrow table ⟨w.heap table, w.quotas, some (w.heap table).numElements⟩,
        (w.heap table).numElements.setWidth 32) := by
  rw [World.tableGrow, World.growTable, show (0 : U32).setWidth 64 = 0 from rfl,
    growTableImpl_zero]
  rfl

/-- `createTable` of a `funcref` table of type `{min = 0, max = UINT32_MAX}` with a null initial
element and no quota. -/
def sampleHugeCreate : Op := .createTable 0 ⟨.funcref, ⟨0, 0xFFFFFFFF⟩⟩ 0 "" none 0x10000000 true

theorem sampleHugeCreate_isSome : (sampleInitial.step sampleHost sampleHugeCreate).isSome = true := by
  decide

/-- The process after `sampleHugeCreate`: table `0`, empty. -/
def sampleHugeCreated : World :=
  (sampleInitial.step sampleHost sampleHugeCreate).get sampleHugeCreate_isSome

theorem sampleHugeCreated_reachable : Reachable sampleHost sampleHugeCreated :=
  .step sampleHugeCreate (.initial sampleInitial_initial)
    ⟨by decide, by decide, fun _ h => absurd h Bool.false_ne_true⟩ (Option.some_get _).symm

/-- The process after `table.grow(null, UINT32_MAX)` of table `0` of `sampleHugeCreated`. -/
def sampleHuge : World :=
  sampleHugeCreated.applyGrow 0
    ⟨(sampleHugeCreated.heap 0).grown sampleHost 0xFFFFFFFF true
      (objectToBiasedTableElementValue sampleHost sampleHost.uninitializedElement),
      sampleHugeCreated.quotas, some (sampleHugeCreated.heap 0).numElements⟩

theorem sampleHuge_reachable : Reachable sampleHost sampleHuge := by
  refine .step (.tableGrow 0 0xFFFFFFFF 0 true) sampleHugeCreated_reachable
    ⟨by decide, by decide⟩ ?_
  have hgrow := @growTableImpl_eq_grown sampleHost sampleHugeCreated.quotas
    sampleHugeCreated.quotas (sampleHugeCreated.heap 0) ((0xFFFFFFFF : U32).setWidth 64) true
    sampleHost.uninitializedElement true
    (sampleHugeCreated_reachable.invariant.tableInvariant 0 (by decide)) (by decide) rfl
    (by decide) (by decide) (fun _ => rfl)
  simp only [World.step, World.tableGrow, World.growTable, if_pos rfl, ite_true, hgrow]
  rfl

/-- A reachable table of type `{min = 0, max = UINT32_MAX}`, within `IR::maxTableElems`, holds
`UINT32_MAX` elements; `growTable` by nothing then succeeds with an old count above
`INT32_MAX`, and `table.grow` by nothing succeeds and returns `-1`. -/
theorem tableGrow_success_returns_failure :
    Reachable sampleHost sampleHuge ∧ sampleHuge.live 0 ∧
      (sampleHuge.heap 0).type.size.max ≤ sampleHost.maxTableElems ∧
      (∃ w', sampleHuge.growTable sampleHost 0 0 sampleHost.uninitializedElement true =
        some (w', some (sampleHuge.heap 0).numElements)) ∧
      2 ^ 31 - 1 < (sampleHuge.heap 0).numElements.toNat ∧
      ∃ w', sampleHuge.tableGrow sampleHost 0 0 0 true = some (w', -1) := by
  have hcount : (sampleHuge.heap 0).numElements = 0xFFFFFFFF := by decide
  exact ⟨sampleHuge_reachable, by decide, by decide,
    ⟨_, by rw [World.growTable, growTableImpl_zero]; rfl⟩, by rw [hcount]; decide,
    ⟨_, by rw [tableGrow_zero, hcount]; rfl⟩⟩

end Wavm.Runtime
