import Mathlib.Data.List.Nodup
import Mathlib.Data.List.Range
import ShimService.Tenant.Context

/-! Which writes to a tenant's context include all that were made before them. -/
namespace ShimService.TenantContextRepo

open CondTable AbstractAwsRepo Transition

variable {s t : State} {a : Act} {xs : List Act} {table table' : Table ℕ TenantContext}
  {tenantId c : ℕ} {context row : TenantContext} {held passed : Copy}

/-- Each successful call's copy includes every write before it, and no two calls that succeed
start from the same state of the row. -/
structure NoneLost (s : State) : Prop where
  included : ∀ (tenantId i base : ℕ), (s.writes tenantId)[i]? = some base → base = i
  once : ∀ tenantId, (s.writes tenantId).Nodup

/-- No client patches a row of counter 0 with a default context built when there was no row. -/
def RowKnown (s : State) : Act → Prop
  | .patch c _ _ => ∀ held, s.clients c = .holding held → held.missing = true →
      ∀ row, s.table held.tenantId = some row → row.stateCounter ≠ 0
  | _ => True

/-- A default copy has counter 0, and where there is a row by now, a call has written it. A found
copy is no newer than the row, and includes every write if it has the row's counter. -/
structure CopyOk (s : State) (copy : Copy) : Prop where
  missing : copy.missing = true → copy.context.stateCounter = 0 ∧ copy.base = 0 ∧
    (s.table copy.tenantId ≠ none → s.writes copy.tenantId ≠ [])
  found : copy.missing = false → ∃ row, s.table copy.tenantId = some row ∧
    copy.context.stateCounter ≤ row.stateCounter ∧
      (copy.context.stateCounter = row.stateCounter →
        copy.base = (s.writes copy.tenantId).length)

/-- The copies a client has, of which `create` uses the one passed. -/
def Client.copies : Client → List Copy
  | .idle => []
  | .holding held => [held]
  | .creating held passed => [held, passed]

structure Inv (s : State) : Prop where
  copies : ∀ c, ∀ copy ∈ (s.clients c).copies, CopyOk s copy
  unwritten : ∀ tenantId, s.table tenantId = none → s.writes tenantId = []

theorem inv_initial : Inv (initial table) :=
  ⟨fun _ _ hcopy => (by cases hcopy), fun _ _ => rfl⟩

theorem patchContext_eq_some : patchContext table tenantId context = some table' ↔
    ∃ row, table tenantId = some row ∧ row.stateCounter = context.stateCounter ∧
      table' = Function.update table tenantId (some ⟨context.stateCounter + 1, context.data⟩) :=
  patchWithCondition_eq_some

theorem createContext_eq_some : createContext table tenantId context = some table' ↔
    table tenantId = none ∧ table' = Function.update table tenantId (some context) :=
  create_eq_some

/-- A write that raises the row's counter leaves every copy as good as it was. -/
theorem copyOk_wrote {copy : Copy}
    (hnew : ∀ old, s.table passed.tenantId = some old → old.stateCounter < row.stateCounter)
    (h : CopyOk s copy) :
    CopyOk (s.wrote (Function.update s.table passed.tenantId (some row)) passed) copy := by
  by_cases ht : copy.tenantId = passed.tenantId
  · constructor
    · intro hm
      obtain ⟨hcounter, hbase, _⟩ := h.missing hm
      exact ⟨hcounter, hbase, fun _ => by simp [State.wrote, ht]⟩
    · intro hf
      obtain ⟨old, hold, hle, _⟩ := h.found hf
      have hlt := hnew old (ht ▸ hold)
      refine ⟨row, by simp [State.wrote, ht], by omega, fun heq => by omega⟩
  · exact ⟨by simpa [State.wrote, ht] using h.missing, by simpa [State.wrote, ht] using h.found⟩

/-- The client's own copy is in step with the row it has just written or read. -/
theorem copyOk_synced (h : s.table tenantId = some row)
    (hcounter : context.stateCounter = row.stateCounter) :
    CopyOk s (s.synced tenantId context) :=
  ⟨fun hm => (by cases hm), fun _ => ⟨row, h, hcounter.le, fun _ => rfl⟩⟩

theorem inv_setClient {client : Client} (hi : Inv s)
    (hcopies : ∀ copy ∈ client.copies, CopyOk s copy) : Inv (s.setClient c client) := by
  refine ⟨?_, hi.unwritten⟩
  intro d copy hcopy
  by_cases hd : d = c
  · subst d
    have hmem : copy ∈ client.copies := by simpa [State.setClient] using hcopy
    have hok := hcopies copy hmem
    exact ⟨hok.missing, hok.found⟩
  · have hmem : copy ∈ (s.clients d).copies := by simpa [State.setClient, hd] using hcopy
    have hok := hi.copies d copy hmem
    exact ⟨hok.missing, hok.found⟩

theorem inv_wrote (hi : Inv s)
    (hnew : ∀ old, s.table passed.tenantId = some old → old.stateCounter < row.stateCounter) :
    Inv (s.wrote (Function.update s.table passed.tenantId (some row)) passed) := by
  refine ⟨fun d copy hcopy => copyOk_wrote hnew (hi.copies d copy hcopy), ?_⟩
  intro tenantId hnone
  by_cases ht : tenantId = passed.tenantId
  · simp [State.wrote, ht] at hnone
  · simpa [State.wrote, ht] using hi.unwritten tenantId (by simpa [State.wrote, ht] using hnone)

/-- What a step does: it only moves clients, or a call writes the row of its copy. -/
inductive Effect (s : State) (a : Act) (t : State) : Prop where
  | quiet (htable : t.table = s.table) (hwrites : t.writes = s.writes)
  | patched (c : ℕ) (held passed : Copy) (row : TenantContext)
      (ha : ∃ data copied, a = .patch c data copied) (hc : s.clients c = .holding held)
      (hpassed : passed.tenantId = held.tenantId ∧ passed.missing = held.missing ∧
        passed.base = held.base ∧ passed.context.stateCounter = held.context.stateCounter)
      (hrow : s.table held.tenantId = some row)
      (hcounter : row.stateCounter = held.context.stateCounter)
      (hwrites : t.writes = (s.wrote t.table passed).writes)
  | created (c : ℕ) (held passed : Copy) (hc : s.clients c = .creating held passed)
      (hrow : s.table passed.tenantId = none)
      (hwrites : t.writes = (s.wrote t.table passed).writes)

theorem step_effect (h : step s a = some t) : Effect s a t := by
  cases a with
  | find c tenantId =>
    simp only [step] at h
    split at h <;> cases h <;> exact .quiet rfl rfl
  | patch c data copied =>
    simp only [step] at h
    split at h
    · rename_i held hc
      split at h <;> cases h
      · rename_i table hw
        obtain ⟨row, hrow, hcounter, _⟩ := patchContext_eq_some.mp hw
        exact .patched c held _ row ⟨data, copied, rfl⟩ hc ⟨rfl, rfl, rfl, rfl⟩ hrow hcounter rfl
      · exact .quiet rfl rfl
    · cases h
  | create c copied =>
    simp only [step] at h
    split at h
    · rename_i held passed hc
      split at h <;> cases h
      · rename_i table hw
        exact .created c held passed hc (createContext_eq_some.mp hw).1 rfl
      · exact .quiet rfl rfl
    · cases h

theorem inv_step (h : step s a = some t) (hi : Inv s) : Inv t := by
  cases a with
  | find c tenantId =>
    simp only [step, findContext, find] at h
    split at h <;> cases h
    · rename_i context hrow
      refine inv_setClient hi fun copy hcopy => ?_
      obtain rfl := List.mem_singleton.mp hcopy
      exact copyOk_synced hrow rfl
    · rename_i hnone
      refine inv_setClient hi fun copy hcopy => ?_
      obtain rfl := List.mem_singleton.mp hcopy
      refine ⟨fun _ => ⟨rfl, by simp [hi.unwritten tenantId hnone], fun hsome => ?_⟩, fun hf => ?_⟩
      · exact absurd hnone hsome
      · cases hf
  | patch c data copied =>
    simp only [step] at h
    split at h
    · rename_i held hc
      have hheld : CopyOk s held := hi.copies c held (by simp [hc, Client.copies])
      have hpassed : CopyOk s { held with context := { held.context with data := data } } :=
        ⟨hheld.missing, hheld.found⟩
      split at h <;> cases h
      · rename_i table hw
        obtain ⟨row, hrow, hcounter, rfl⟩ := patchContext_eq_some.mp hw
        have hnew : ∀ old, s.table held.tenantId = some old →
            old.stateCounter < held.context.stateCounter + 1 := by
          intro old hold
          obtain rfl : row = old := Option.some.inj (hrow.symm.trans hold)
          exact Nat.lt_succ_of_le hcounter.le
        refine inv_setClient (inv_wrote hi hnew) fun copy hcopy => ?_
        obtain rfl := List.mem_singleton.mp hcopy
        split
        · exact copyOk_wrote hnew hheld
        · exact copyOk_synced (by simp [State.wrote]) rfl
      · refine inv_setClient hi fun copy hcopy => ?_
        simp only [Client.copies, List.mem_cons, List.not_mem_nil, or_false] at hcopy
        rcases hcopy with rfl | rfl
        · split
          · exact hheld
          · exact hpassed
        · exact hpassed
    · cases h
  | create c copied =>
    simp only [step] at h
    split at h
    · rename_i held passed hc
      have hheld : CopyOk s held := hi.copies c held (by simp [hc, Client.copies])
      split at h <;> cases h
      · rename_i table hw
        obtain ⟨hnone, rfl⟩ := createContext_eq_some.mp hw
        have hnew : ∀ old, s.table passed.tenantId = some old →
            old.stateCounter < passed.context.stateCounter := by simp [hnone]
        refine inv_setClient (inv_wrote hi hnew) fun copy hcopy => ?_
        obtain rfl := List.mem_singleton.mp hcopy
        split
        · exact copyOk_wrote hnew hheld
        · exact copyOk_synced (by simp [State.wrote]) rfl
      · refine inv_setClient hi fun copy hcopy => ?_
        obtain rfl := List.mem_singleton.mp hcopy
        exact hheld
    · cases h

/-- Some call's copy missed a write before it. -/
def Missed (s : State) : Prop :=
  ∃ tenantId i base : ℕ, (s.writes tenantId)[i]? = some base ∧ base ≠ i

theorem noneLost_iff : NoneLost s ↔ ¬ Missed s := by
  constructor
  · rintro h ⟨tenantId, i, base, hi, hne⟩
    exact hne (h.included tenantId i base hi)
  · intro h
    have hincluded : ∀ (tenantId i base : ℕ), (s.writes tenantId)[i]? = some base → base = i :=
      fun tenantId i base hi => by_contra fun hne => h ⟨tenantId, i, base, hi, hne⟩
    refine ⟨hincluded, fun tenantId => ?_⟩
    rw [List.nodup_iff_getElem?_ne_getElem?]
    intro i j hij hj heq
    obtain ⟨base, hbase⟩ : ∃ base, (s.writes tenantId)[j]? = some base := by simp [hj]
    have hji := hincluded tenantId j base hbase
    have hii := hincluded tenantId i base (heq.trans hbase)
    omega

theorem wrote_writes (i : ℕ) : ((s.wrote table passed).writes tenantId)[i]? =
    if tenantId = passed.tenantId ∧ i = (s.writes tenantId).length then some passed.base
    else (s.writes tenantId)[i]? := by
  by_cases ht : tenantId = passed.tenantId
  · subst ht
    simp only [State.wrote, Function.update_self, List.getElem?_append, true_and]
    grind
  · simp [State.wrote, ht]

theorem missed_step (h : step s a = some t) (hm : Missed s) : Missed t := by
  obtain ⟨tenantId, i, base, hi, hne⟩ := hm
  have hlt : i < (s.writes tenantId).length := (List.getElem?_eq_some_iff.mp hi).1
  refine ⟨tenantId, i, base, ?_, hne⟩
  cases step_effect h with
  | quiet _ hwrites => rwa [hwrites]
  | patched _ _ _ _ _ _ _ _ _ hwrites | created _ _ _ _ _ hwrites =>
    rw [hwrites, wrote_writes, if_neg (by omega)]
    exact hi

theorem not_missed_wrote (hbase : passed.base = (s.writes passed.tenantId).length)
    (hs : ¬ Missed s) : ¬ Missed (s.wrote table passed) := by
  rintro ⟨tenantId, i, base, hi, hne⟩
  rw [wrote_writes] at hi
  split at hi
  · rename_i heq
    obtain ⟨rfl, rfl⟩ := heq
    exact hne (by rw [← Option.some.inj hi, hbase])
  · exact hs ⟨tenantId, i, base, hi, hne⟩

theorem not_missed_step (hok : RowKnown s a) (h : step s a = some t) (hi : Inv s)
    (hs : ¬ Missed s) : ¬ Missed t := by
  cases step_effect h with
  | quiet _ hwrites => simpa [Missed, hwrites] using hs
  | patched c held passed row ha hc hpassed hrow hcounter hwrites =>
    obtain ⟨data, copied, rfl⟩ := ha
    obtain ⟨htenant, hmissing, hbase, _⟩ := hpassed
    have hheld : CopyOk s held := hi.copies c held (by simp [hc, Client.copies])
    have hfound : held.missing = false := by
      by_contra hm
      have hm : held.missing = true := by simpa using hm
      exact hok held hc hm row hrow (hcounter.trans (hheld.missing hm).1)
    obtain ⟨row', hrow', _, hsync⟩ := hheld.found hfound
    obtain rfl : row = row' := Option.some.inj (hrow.symm.trans hrow')
    have hlast : passed.base = (s.writes passed.tenantId).length := by
      rw [hbase, htenant]
      exact hsync hcounter.symm
    have hnext : ¬ Missed (s.wrote t.table passed) := not_missed_wrote hlast hs
    simpa [Missed, hwrites] using hnext
  | created c held passed hc hrow hwrites =>
    have hok := hi.copies c passed (by simp [hc, Client.copies])
    have hmissing : passed.missing = true := by
      by_contra hm
      obtain ⟨row, hsome, _⟩ := hok.found (by simpa using hm)
      simp [hrow] at hsome
    have hlast : passed.base = (s.writes passed.tenantId).length := by
      rw [(hok.missing hmissing).2.1, hi.unwritten _ hrow, List.length_nil]
    have hnext : ¬ Missed (s.wrote t.table passed) := not_missed_wrote hlast hs
    simpa [Missed, hwrites] using hnext

/-- A default copy that passes the patch's condition overwrites the row it did not know of. -/
theorem missed_of_unknown (h : step s a = some t) (hi : Inv s) (hok : ¬ RowKnown s a) :
    Missed t := by
  cases a with
  | patch c data copied =>
    simp only [RowKnown, not_forall, not_not] at hok
    obtain ⟨held, hc, hmissing, row, hrow, hzero⟩ := hok
    have hheld : CopyOk s held := hi.copies c held (by simp [hc, Client.copies])
    obtain ⟨hcounter, hbase, hwritten⟩ := hheld.missing hmissing
    have hne : s.writes held.tenantId ≠ [] := hwritten (by simp [hrow])
    have hpos : 0 < (s.writes held.tenantId).length := List.length_pos_iff.mpr hne
    simp only [step, hc] at h
    split at h <;> cases h
    · refine ⟨held.tenantId, (s.writes held.tenantId).length, 0, ?_, by omega⟩
      simp only [State.setClient]
      rw [wrote_writes, if_pos ⟨rfl, rfl⟩]
      exact congrArg some hbase
    · rename_i hrefused
      have hpatch : patchContext s.table held.tenantId { held.context with data := data } =
          some _ := patchContext_eq_some.mpr ⟨row, hrow, hzero.trans hcounter.symm, rfl⟩
      rw [hpatch] at hrefused
      cases hrefused
  | _ => exact absurd trivial hok

/-- No write to a tenant's context is lost in a run exactly when no default context is patched
into a row of counter 0 that was created after it was built. -/
theorem none_lost_iff_row_known (h : Run step Free (initial table) xs s) :
    NoneLost s ↔ Run step RowKnown (initial table) xs s := by
  rw [noneLost_iff]
  have hstart : ¬ Missed (initial table) := by
    rintro ⟨_, _, _, hi, _⟩
    simp [initial] at hi
  exact h.good_iff_guarded (G := fun s => ¬ Missed s) (fun _ _ _ => inv_step)
    (fun _ _ _ hs _ hmissed => not_not_intro (missed_step hs (not_not.mp hmissed)))
    (fun _ _ _ => not_missed_step)
    (fun _ _ _ hs hi hok => not_not_intro (missed_of_unknown hs hi hok)) inv_initial hstart

def rowKnownCheck (s : State) : Act → Bool
  | .patch c _ _ =>
    match s.clients c with
    | .holding held => !held.missing || (s.table held.tenantId).all (·.stateCounter ≠ 0)
    | _ => true
  | _ => true

theorem rowKnown_of_check (s : State) (a : Act) (h : rowKnownCheck s a = true) : RowKnown s a := by
  cases a with
  | patch c data copied =>
    intro held hc hmissing row hrow
    simpa [rowKnownCheck, hc, hmissing, hrow] using h
  | _ => trivial

def replayed (n : ℕ) : ContextSettings := ⟨some [n]⟩

/-- One client creates the row, and a second reads it and patches it. -/
theorem none_lost_in_turn : ∃ s : State, s.writes 1 = [0, 1] ∧ NoneLost s := by
  obtain ⟨s, hs, hp⟩ := exists_run_of_exec rowKnown_of_check step (initial fun _ => none)
    [.find 0 1, .patch 0 (replayed 1) true, .create 0 true, .find 1 1, .patch 1 (replayed 2) true]
    (fun s => s.writes 1 = [0, 1]) (by decide)
  exact ⟨s, by simpa using hp, (none_lost_iff_row_known hs.free).mpr hs⟩

/-- Two clients find no row; the one creates it with counter 0, which is the counter that the
other's patch expects. -/
theorem default_context_overwrites_created_row : ¬ ∀ (table : Table ℕ TenantContext) (s : State)
    (xs : List Act), Run step Free (initial table) xs s → NoneLost s := by
  intro hall
  obtain ⟨s, hs, hp⟩ := exists_run_of_exec free_of_check step (initial fun _ => none)
    [.find 0 1, .find 1 1, .patch 0 (replayed 1) true, .create 0 true,
      .patch 1 (replayed 2) true]
    (fun s => s.writes 1 = [0, 0]) (by decide)
  have hwrites : s.writes 1 = [0, 0] := by simpa using hp
  have hbase := (hall _ s _ hs).included 1 1 0 (by simp [hwrites])
  omega

end ShimService.TenantContextRepo
