import Wavm.Runtime.Table.Concurrent

/-!
# A thread that runs alone

`Concurrent` splits `setTableElementNonNull` and `growTableImpl` into their atomic steps.  Run with
no step of another thread in between and no spurious failure of the compare-exchange, those steps
compute what the sequential functions of `Element` and `Grow` compute.

* `set` reaches, within two steps, the table `setTableElementNonNull` returns, or throws the
  exception it throws.
* `grow` needs no other growth holding `resizingMutex`, and the schedule's `admitted` must be the
  answer of the quota and the platform.  Then, whenever `growTableImpl` returns, `grow` reaches
  the table it returns.

So the sequential functions are the interleaved model's steps with nothing interleaved.

With other threads in between, a set still takes effect at one step: the compare-exchange that
succeeds computes, on the table of that step, the table and the old object that the sequential
`setTableElementNonNull` computes.
-/

namespace Wavm.Runtime

variable (host : Host)

namespace Shared

/-- A step of thread `t` with no spurious failure, under the schedule's `admitted`. -/
def AloneStep (t : ThreadRef) (admitted : Bool) (s s' : Shared) : Prop :=
  s.step host t false admitted = some s'

/-- Whether the quota and the platform let a growth by `delta` through: the quota admits the
charge, and the commit succeeds if the page count changes.  This is the schedule's `admitted` for
`growTableImpl` with these quotas and this answer of the commit. -/
def growAdmits (quotas : Quotas) (table : Table) (delta : Uptr) (commitSucceeds : Bool) : Bool :=
  (allocateTableElems quotas table.resourceQuota delta.toNat).isSome &&
    (getNumPlatformPages host ((table.numElements + delta) * sizeofElement) ==
        getNumPlatformPages host (table.numElements * sizeofElement) || commitSucceeds)

variable {host}

@[simp] theorem setThread_ref (s : Shared) (t : ThreadRef) (thread : Thread) :
    (s.setThread t thread).ref = s.ref := rfl

/-- Setting thread `t` leaves every other thread where it was. -/
theorem setThread_threads_ne (s : Shared) {t t' : ThreadRef} (thread : Thread) (ht : t' ≠ t) :
    (s.setThread t thread).threads t' = s.threads t' := by
  simp [Function.update_noteq ht]

/-! ## `setTableElementNonNull` -/

/-- The thread holding `resizingMutex`, run alone, stores its word into each slot of its loop in
turn and then publishes the new count: it ends with the table the sequential initialising loop
returns, with the new count, and releases the mutex. -/
theorem resize_alone {s : Shared} {r : Resize} {t : ThreadRef} {rest : List Access}
    {admitted : Bool} {table : Table} (hresize : s.resize = some r) (hholder : r.thread = t)
    (hthread : s.threads t = .resizing rest)
    (hloop : s.table.initializeElements host r.biasedValue r.elementIndex
      (r.newNumElements.toNat - r.elementIndex) = some table) :
    ∃ s', Relation.ReflTransGen (AloneStep host t admitted) s s' ∧ s'.ref = s.ref ∧
      s'.resize = none ∧ (∀ t', t' ≠ t → s'.threads t' = s.threads t') ∧
      s'.table = { table with numElements := r.newNumElements } ∧ s'.threads t = .run rest := by
  generalize hcount : r.newNumElements.toNat - r.elementIndex = count at hloop
  induction count generalizing s r with
  | zero =>
    rw [Table.initializeElements, Option.some_inj] at hloop
    subst hloop
    have hstep : AloneStep host t admitted s { s.setThread t (.run rest) with
        table := { s.table with numElements := r.newNumElements }, resize := none } := by
      simp [AloneStep, step, hthread, resizeStep, hresize, hholder,
        show ¬r.elementIndex < r.newNumElements.toNat by omega]
    exact ⟨_, .single hstep, rfl, rfl, fun t' ht' => by simp [Function.update_noteq ht'], rfl,
      by simp⟩
  | succ count ih =>
    rw [Table.initializeElements, Option.bind_eq_some] at hloop
    obtain ⟨stored, hstore, hloop⟩ := hloop
    let r' : Resize := ⟨r.thread, r.oldNumElements, r.newNumElements, r.elementIndex + 1,
      r.biasedValue⟩
    have hstep : AloneStep host t admitted s ⟨s.ref, stored, some r', s.threads⟩ := by
      simp [AloneStep, step, hthread, resizeStep, hresize, hholder,
        show r.elementIndex < r.newNumElements.toNat by omega, hstore, r']
    obtain ⟨s', hrun, href, hres, hothers, htable, hth⟩ :=
      @ih ⟨s.ref, stored, some r', s.threads⟩ r' rfl hholder hthread (by simp [r']; omega) hloop
    exact ⟨s', .head hstep hrun, href, hres, hothers, htable, hth⟩

/-- A thread running `growTableImpl` alone, while no growth holds `resizingMutex`, with the
schedule's `admitted` the answer of the quota and the platform: whenever the sequential
`growTableImpl` returns, the thread's steps reach the table it returns, release the mutex and go
on to the rest of the thread's accesses. -/
theorem grow_alone {s : Shared} {t : ThreadRef} {delta fill : Uptr} {rest : List Access}
    {quotas : Quotas} {commitSucceeds : Bool} {outcome : GrowOutcome}
    (hresize : s.resize = none) (hthread : s.threads t = .run (.grow delta fill :: rest))
    (hgrow : growTableImpl host quotas s.table delta true fill commitSucceeds = some outcome) :
    ∃ s', Relation.ReflTransGen
        (AloneStep host t (growAdmits host quotas s.table delta commitSucceeds)) s s' ∧
      s'.ref = s.ref ∧ s'.resize = none ∧
      (∀ t', t' ≠ t → s'.threads t' = s.threads t') ∧
      s'.table = outcome.table ∧ s'.threads t = .run rest := by
  generalize hadmitted : growAdmits host quotas s.table delta commitSucceeds = admitted
  have hbegin : ∀ s', s.beginGrow host t delta fill rest admitted = some s' →
      AloneStep host t admitted s s' := fun s' h => by simp [AloneStep, step, hthread, h]
  /- A growth that changes nothing: `beginGrow` goes on to the rest of the accesses. -/
  have hunchanged : outcome.table = s.table →
      s.beginGrow host t delta fill rest admitted = some (s.setThread t (.run rest)) →
      ∃ s', Relation.ReflTransGen (AloneStep host t admitted) s s' ∧ s'.ref = s.ref ∧
        s'.resize = none ∧ (∀ t', t' ≠ t → s'.threads t' = s.threads t') ∧
        s'.table = outcome.table ∧ s'.threads t = .run rest := fun htable hb =>
    ⟨_, .single (hbegin _ hb), rfl, hresize, fun t' ht' => setThread_threads_ne _ _ ht',
      by rw [htable]; rfl, by simp⟩
  unfold growTableImpl at hgrow
  split at hgrow
  · -- a growth by nothing
    rename_i hzero
    cases hgrow
    exact hunchanged rfl (by simp [beginGrow, hzero])
  rename_i hdelta
  split at hgrow
  · -- the quota refuses the charge
    rename_i hcharge
    cases hgrow
    exact hunchanged rfl (by simp [beginGrow, ← hadmitted, growAdmits, hcharge])
  rename_i charged hcharge
  dsimp only at hgrow
  split at hgrow
  · -- past a limit
    rename_i hlimit
    cases hgrow
    refine hunchanged rfl ?_
    unfold beginGrow
    split
    · rfl
    · simp only [hresize, if_pos hlimit]
  split at hgrow
  · -- the commit fails
    rename_i hlimit hcommit
    cases hgrow
    exact hunchanged rfl (by simp [beginGrow, ← hadmitted, growAdmits, hcommit.1, hcommit.2])
  rename_i hlimit hcommit
  obtain ⟨grown, hinit, rfl⟩ := Option.map_eq_some'.mp hgrow
  rw [if_pos rfl] at hinit
  have hadmits : admitted = true := by
    rw [← hadmitted, growAdmits, hcharge, Option.isSome_some, Bool.true_and, Bool.or_eq_true,
      beq_iff_eq]
    by_cases hpages : getNumPlatformPages host ((s.table.numElements + delta) * sizeofElement) =
        getNumPlatformPages host (s.table.numElements * sizeofElement)
    · exact .inl hpages
    · exact .inr (Bool.not_eq_false _ ▸ fun h => hcommit ⟨hpages, h⟩)
  subst hadmits
  let r : Resize := ⟨t, s.table.numElements, s.table.numElements + delta,
    s.table.numElements.toNat, objectToBiasedTableElementValue host fill⟩
  let committed :=
    if getNumPlatformPages host ((s.table.numElements + delta) * sizeofElement) ≠
        getNumPlatformPages host (s.table.numElements * sizeofElement) then
      s.table.commit (getNumPlatformPages host (s.table.numElements * sizeofElement)).toNat
        (getNumPlatformPages host ((s.table.numElements + delta) * sizeofElement) -
          getNumPlatformPages host (s.table.numElements * sizeofElement)).toNat
    else s.table
  have hstep : AloneStep host t true s
      ⟨s.ref, committed, some r, Function.update s.threads t (.resizing rest)⟩ :=
    hbegin _ (by simp only [beginGrow, hdelta, Bool.false_eq_true, or_self, if_false, hresize,
      if_neg hlimit]; rfl)
  obtain ⟨s', hrun, href, hres, hothers, htable, hth⟩ :=
    @resize_alone host ⟨s.ref, committed, some r, Function.update s.threads t (.resizing rest)⟩
      r t rest true grown rfl rfl (by simp) hinit
  exact ⟨s', .head hstep hrun, href, hres, fun t' ht' => by
    rw [hothers t' ht']; exact Function.update_noteq ht' _ _, htable, hth⟩

/-- The quotas of the sample growth; `sampleTable` charges no quota. -/
def sampleQuotas : Quotas := fun _ => ⟨0, 0⟩

theorem sampleGrowImpl_isSome :
    (growTableImpl sampleHost sampleQuotas sampleTable 1 true 0 true).isSome = true := by
  decide

/-- `growTableImpl` growing `sampleTable` by one null element. -/
def sampleGrowOutcome : GrowOutcome :=
  (growTableImpl sampleHost sampleQuotas sampleTable 1 true 0 true).get sampleGrowImpl_isSome

theorem grow_alone_sampleShared :
    sampleShared.resize = none ∧ sampleShared.threads 0 = .run [.grow 1 0, .set 2 0x3000] ∧
      growTableImpl sampleHost sampleQuotas sampleShared.table 1 true 0 true =
        some sampleGrowOutcome ∧
      ∃ s', Relation.ReflTransGen
          (AloneStep sampleHost 0 (growAdmits sampleHost sampleQuotas sampleShared.table 1 true))
          sampleShared s' ∧
        s'.ref = sampleShared.ref ∧ s'.resize = none ∧
        (∀ t', t' ≠ 0 → s'.threads t' = sampleShared.threads t') ∧
        s'.table = sampleGrowOutcome.table ∧ s'.threads 0 = .run [.set 2 0x3000] :=
  ⟨rfl, rfl, (Option.some_get _).symm, grow_alone rfl rfl (Option.some_get _).symm⟩

end Shared

/-! ## The step at which a set takes effect -/

/-- A thread in the compare-exchange loop of `setTableElementNonNull` holds an index that passed
the bounds check, and the index `branchlessMin` saturated it to. -/
def Thread.SetsWithin : Thread → Prop
  | .exchange index saturatedIndex _ _ _ =>
    index < tableMaxElements ∧ saturatedIndex = branchlessMin index (tableMaxElements - 1)
  | _ => True

namespace Shared

variable {host}

theorem setsWithin_setThread {s : Shared} {t : ThreadRef} {thread : Thread}
    (hsets : ∀ t, (s.threads t).SetsWithin) (hthread : thread.SetsWithin) :
    ∀ t', ((s.setThread t thread).threads t').SetsWithin := fun t' => by
  by_cases ht : t' = t
  · subst ht; simpa using hthread
  · simpa [Function.update_noteq ht] using hsets t'

theorem setsWithin_beginSet {s : Shared} {t : ThreadRef} {index object : Uptr}
    {rest : List Access} (hinv : s.Invariant host) (hsets : ∀ t, (s.threads t).SetsWithin) :
    ∀ t', ((s.beginSet host t index object rest).threads t').SetsWithin := by
  unfold beginSet
  split
  · exact setsWithin_setThread hsets trivial
  · rename_i hreserved
    dsimp only
    split
    · exact setsWithin_setThread hsets trivial
    · rw [hinv.numReservedElements_eq] at hreserved ⊢
      exact setsWithin_setThread hsets ⟨BitVec.not_le.mp hreserved, rfl⟩

/-- A turn of the compare-exchange loop keeps its indices. -/
theorem setsWithin_exchange {s : Shared} {t : ThreadRef}
    {index saturatedIndex biasedValue oldBiasedValue : Uptr} {rest : List Access} {spurious : Bool}
    (hsets : ∀ t, (s.threads t).SetsWithin)
    (hthread : (Thread.exchange index saturatedIndex biasedValue oldBiasedValue rest).SetsWithin) :
    ∀ t', ((s.exchange host t index saturatedIndex biasedValue oldBiasedValue rest
      spurious).threads t').SetsWithin := by
  unfold exchange
  split
  · exact setsWithin_setThread hsets trivial
  · split
    · exact setsWithin_setThread hsets trivial
    · split
      · exact setsWithin_setThread hsets (show (Thread.run rest).SetsWithin from trivial)
      · exact setsWithin_setThread hsets hthread

theorem setsWithin_get {s : Shared} {t : ThreadRef} {index : Uptr} {next : Uptr → List Access}
    (hsets : ∀ t, (s.threads t).SetsWithin) :
    ∀ t', ((s.get host t index next).threads t').SetsWithin := by
  unfold get
  split <;> exact setsWithin_setThread hsets trivial

theorem setsWithin_beginGrow {s s' : Shared} {t : ThreadRef}
    {numElementsToGrow initializeToElement : Uptr} {rest : List Access} {admitted : Bool}
    (hsets : ∀ t, (s.threads t).SetsWithin)
    (hgrow : s.beginGrow host t numElementsToGrow initializeToElement rest admitted = some s') :
    ∀ t', (s'.threads t').SetsWithin := by
  unfold beginGrow at hgrow
  split at hgrow
  · cases hgrow; exact setsWithin_setThread hsets trivial
  split at hgrow
  · cases hgrow
  dsimp only at hgrow
  split at hgrow
  · cases hgrow; exact setsWithin_setThread hsets trivial
  · cases hgrow
    exact setsWithin_setThread hsets (show (Thread.resizing rest).SetsWithin from trivial)

theorem setsWithin_resizeStep {s s' : Shared} {t : ThreadRef} {rest : List Access}
    (hsets : ∀ t, (s.threads t).SetsWithin) (hstep : s.resizeStep host t rest = some s') :
    ∀ t', (s'.threads t').SetsWithin := by
  unfold resizeStep at hstep
  split at hstep
  · cases hstep
  split at hstep
  · cases hstep
  split at hstep
  · obtain ⟨table, -, rfl⟩ := Option.map_eq_some'.mp hstep
    exact hsets
  · cases hstep; exact setsWithin_setThread hsets (show (Thread.run rest).SetsWithin from trivial)

/-- Only the bounds check of `beginSet` enters the compare-exchange loop. -/
theorem setsWithin_step {s s' : Shared} {t : ThreadRef} {spurious admitted : Bool}
    (hinv : s.Invariant host) (hsets : ∀ t, (s.threads t).SetsWithin)
    (hstep : s.step host t spurious admitted = some s') : ∀ t', (s'.threads t').SetsWithin := by
  have hthread := hsets t
  unfold Shared.step at hstep
  cases hth : s.threads t with
  | run accesses =>
    rw [hth] at hstep
    cases accesses with
    | nil => cases hstep
    | cons a rest =>
      cases a with
      | set index object => cases hstep; exact setsWithin_beginSet hinv hsets
      | get index => cases hstep; exact setsWithin_get hsets
      | copy sourceIndex destIndex => cases hstep; exact setsWithin_get hsets
      | grow numElementsToGrow initializeToElement => exact setsWithin_beginGrow hsets hstep
  | exchange index saturatedIndex biasedValue oldBiasedValue rest =>
    rw [hth] at hstep hthread
    cases hstep
    exact setsWithin_exchange hsets hthread
  | resizing rest =>
    rw [hth] at hstep
    exact setsWithin_resizeStep hsets hstep
  | threw => rw [hth] at hstep; cases hstep

theorem Reachable.setsWithin {s : Shared} (hreach : s.Reachable host) :
    ∀ t, (s.threads t).SetsWithin := by
  obtain ⟨s₀, hinitial, hrun⟩ := hreach
  induction hrun with
  | refl => intro t; obtain ⟨_, hth, -⟩ := hinitial.threads t; rw [hth]; trivial
  | tail hrun hnext ih =>
    obtain ⟨_, _, _, hstep⟩ := hnext
    exact setsWithin_step (hinitial.invariant.reflTransGen hrun) ih hstep

/-- The compare-exchange that completes a set is where the set takes effect: on the table of
that step, the sequential `setTableElementNonNull` gives the table after it and, as the old
object, the word the exchange replaced. -/
theorem interleaving_set_linearizes {s s' : Shared} {t : ThreadRef}
    {index saturatedIndex biasedValue oldBiasedValue : Uptr} {rest : List Access}
    {spurious admitted : Bool} (hreach : s.Reachable host)
    (hthread : s.threads t = .exchange index saturatedIndex biasedValue oldBiasedValue rest)
    (hstep : s.step host t spurious admitted = some s') (hdone : s'.threads t = .run rest) :
    setTableElementNonNull host s.ref s.table index
        (biasedTableElementValueToObject host biasedValue) =
      .ok (s'.table, biasedTableElementValueToObject host oldBiasedValue) := by
  have hsets := hreach.setsWithin t
  rw [hthread] at hsets
  obtain ⟨hindex, rfl⟩ := hsets
  have hreserved := hreach.invariant.numReservedElements_eq
  unfold Shared.step at hstep
  rw [hthread] at hstep
  cases hstep
  unfold exchange at hdone ⊢
  unfold setTableElementNonNull
  rw [hreserved, if_neg (BitVec.not_le.mpr hindex),
    objectToBiasedTableElementValue_biasedTableElementValueToObject]
  dsimp only
  split at hdone
  · simp at hdone
  · split at hdone
    · simp at hdone
    · rename_i hsentinel _ current hload
      split at hdone
      · obtain ⟨rfl, hspurious⟩ := ‹current = oldBiasedValue ∧ spurious = false›
        simp only [hload, if_neg hsentinel, hspurious, and_self, if_true]
      · simp at hdone

end Shared

/-- `sampleTable` shared by threads that each set element `1`. -/
def sampleSetters : Shared := { sampleShared with threads := fun _ => .run [.set 1 0x3000] }

theorem sampleSetters_initial : sampleSetters.Initial sampleHost where
  table := sampleTable_invariant
  resize := rfl
  threads _ := ⟨_, rfl, by simp [Access.Admissible, sampleHost]⟩

/-- Thread `0` of `sampleSetters` past its bounds check, about to exchange slot `1`. -/
def sampleSetting : Shared := sampleSetters.beginSet sampleHost 0 1 0x3000 []

theorem interleaving_set_linearizes_sampleSetting :
    ∃ s', sampleSetting.Reachable sampleHost ∧
      sampleSetting.threads 0 = .exchange 1 1 (objectToBiasedTableElementValue sampleHost 0x3000)
        (objectToBiasedTableElementValue sampleHost sampleHost.uninitializedElement) [] ∧
      sampleSetting.step sampleHost 0 false false = some s' ∧ s'.threads 0 = .run [] ∧
      setTableElementNonNull sampleHost sampleSetting.ref sampleSetting.table 1
          (biasedTableElementValueToObject sampleHost
            (objectToBiasedTableElementValue sampleHost 0x3000)) =
        .ok (s'.table, biasedTableElementValueToObject sampleHost
          (objectToBiasedTableElementValue sampleHost sampleHost.uninitializedElement)) :=
  have hreach : sampleSetting.Reachable sampleHost :=
    ⟨sampleSetters, sampleSetters_initial, .single ⟨0, false, false, rfl⟩⟩
  have hthread : sampleSetting.threads 0 = .exchange 1 1
      (objectToBiasedTableElementValue sampleHost 0x3000)
      (objectToBiasedTableElementValue sampleHost sampleHost.uninitializedElement) [] := rfl
  ⟨_, hreach, hthread, rfl, rfl,
    @Shared.interleaving_set_linearizes _ _ _ _ _ _ _ _ _ false false hreach hthread rfl rfl⟩

end Wavm.Runtime
