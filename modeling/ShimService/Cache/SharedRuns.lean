import ShimService.Cache.SharedKept

/-! Every step of a shared `ConcurrentTtlCache` keeps the invariant. -/
namespace ShimService.ConcurrentTtlCache.Shared

open Transition

variable {τ κ β : Type} [DecidableEq τ] [DecidableEq κ] {settings : Settings} {hash : κ → ℤ}
  {s s' : State τ κ β} {t u : τ} {c : Call κ β} {key : κ} {e : CacheEntry β} {value : Option β}
  {used i : ℕ} {oldest : Option (κ × CacheEntry β)} {outcome : Outcome β}
  {choice : Choice κ β} {act : Act τ κ β} {xs : List (Act τ κ β)}

/-! ### `__get_shard_mutex` -/

/-- A step before the section of the shard, which may set the variable for the mutex. -/
theorem Inv.goto_before (h : Inv settings hash s) (hc : s.call t = some c) {pc : Pc κ β}
    {m : Option ℕ} (hin : pc.inMutex = c.pc.inMutex) (hold : c.pc.inShard = false)
    (hnew : pc.inShard = false)
    (hok : Call.Ok settings hash s { c with m, pc }) :
    Inv settings hash (s.goto t { c with m } pc) := by
  have hlocked : Locked (s.goto t { c with m } pc) :=
    h.locked.same hc rfl rfl rfl hin fun a => by simp [hold, hnew]
  refine h.of_sameData hc rfl hlocked ⟨rfl, rfl, rfl, rfl, rfl, rfl⟩ fun c' hc' => ?_
  obtain rfl := Option.some.inj hc'
  exact ⟨hok.shard, hok.known⟩

theorem inv_lookingUp (h : Inv settings hash s) (hc : s.call t = some c)
    (hpc : c.pc = .lookingUp) (hnext : next settings hash s t c .goes = some s') :
    Inv settings hash s' := by
  simp only [next, hpc] at hnext
  obtain rfl := Option.some.inj hnext
  cases hm : s.mutexes (shardIndex settings hash c.op.key) with
  | none =>
    exact h.goto_before hc (by rw [hpc]; rfl) (by rw [hpc]; rfl) rfl
      ⟨by simp [Pc.hasShard, Pc.inShard], trivial⟩
  | some a =>
    exact h.goto_before hc (by rw [hpc]; rfl) (by rw [hpc]; rfl) rfl
      ⟨fun _ => ⟨a, rfl, hm⟩, trivial⟩

theorem inv_acquiringMutex (h : Inv settings hash s) (hc : s.call t = some c)
    (hpc : c.pc = .acquiringMutex) (hnext : next settings hash s t c .goes = some s') :
    Inv settings hash s' := by
  simp only [next, hpc, Option.isNone_iff_eq_none] at hnext
  obtain ⟨hfree, hnext⟩ := Option.ite_none_right_eq_some.mp hnext
  obtain rfl := Option.some.inj hnext
  refine h.of_sameData hc rfl ?_ ⟨rfl, rfl, rfl, rfl, rfl, rfl⟩ fun c' hc' => ?_
  · exact h.locked.takesMutex hc rfl hfree rfl rfl rfl fun a => by simp [hpc, Pc.inShard]
  · obtain rfl := Option.some.inj hc'
    exact ⟨by simp [Pc.hasShard, Pc.inShard], trivial⟩

theorem inv_lookingAgain (h : Inv settings hash s) (hc : s.call t = some c)
    (hpc : c.pc = .lookingAgain) (hnext : next settings hash s t c .goes = some s') :
    Inv settings hash s' := by
  simp only [next, hpc] at hnext
  obtain rfl := Option.some.inj hnext
  cases hm : s.mutexes (shardIndex settings hash c.op.key) with
  | none =>
    exact h.goto_before hc (by rw [hpc]; rfl) (by rw [hpc]; rfl) rfl
      ⟨by simp [Pc.hasShard, Pc.inShard], hm⟩
  | some a =>
    exact h.goto_before hc (by rw [hpc]; rfl) (by rw [hpc]; rfl) rfl
      ⟨fun _ => ⟨a, rfl, hm⟩, trivial⟩

theorem inv_creating (h : Inv settings hash s) (hc : s.call t = some c)
    (hpc : c.pc = .creating) (hnext : next settings hash s t c .goes = some s') :
    Inv settings hash s' := by
  have hnone : s.mutexes (shardIndex settings hash c.op.key) = none := by
    have hknown := (h.calls t c hc).known
    unfold Call.Known at hknown
    rwa [hpc] at hknown
  simp only [next, hpc] at hnext
  obtain rfl := Option.some.inj hnext
  set index := shardIndex settings hash c.op.key with hindex
  have hkept : ∀ i a, s.mutexes i = some a →
      Function.update s.mutexes index (some s.created) i = some a := by
    intro i a ha
    have hne : i ≠ index := by
      rintro rfl
      rw [hnone] at ha
      cases ha
    rw [Function.update_of_ne hne, ha]
  have hnew : ∀ i a, Function.update s.mutexes index (some s.created) i = some a →
      (i = index ∧ a = s.created) ∨ (i ≠ index ∧ s.mutexes i = some a) := by
    intro i a ha
    by_cases hi : i = index
    · subst hi
      exact .inl ⟨rfl, by simpa [eq_comm] using ha⟩
    · exact .inr ⟨hi, by rwa [Function.update_of_ne hi] at ha⟩
  refine ⟨?_, ?_, ?_, ?_, h.holds, h.size_le, h.faults_le⟩
  · exact h.locked.same hc rfl rfl rfl (by rw [hpc]; rfl) fun a => by simp [hpc, Pc.inShard]
  · intro i a ha
    rcases hnew i a ha with ⟨-, rfl⟩ | ⟨-, ha⟩
    · exact Nat.lt_succ_self _
    · exact Nat.lt_succ_of_lt (h.created i a ha)
  · intro i j a hi hj
    rcases hnew i a hi with ⟨rfl, rfl⟩ | ⟨-, hi⟩
    · rcases hnew j _ hj with ⟨rfl, -⟩ | ⟨-, hj⟩
      · rfl
      · exact absurd (h.created j _ hj) (Nat.lt_irrefl _)
    · rcases hnew j a hj with ⟨-, rfl⟩ | ⟨-, hj⟩
      · exact absurd (h.created i _ hi) (Nat.lt_irrefl _)
      · exact h.inj i j a hi hj
  · intro u d hd
    by_cases hu : u = t
    · subst hu
      obtain rfl : { c with m := some s.created, pc := .leavingMutex } = d := by
        simpa [State.goto, State.setCall] using hd
      exact ⟨fun _ => ⟨s.created, rfl, Function.update_self ..⟩, trivial⟩
    · have hd : s.call u = some d := by simpa [State.goto, State.setCall, hu] using hd
      exact ok_of_effect h hc hd hu ⟨le_rfl, hkept, .inr (by rw [hpc]; rfl), fun _ => .inl rfl,
        .inl ⟨rfl, rfl, rfl⟩⟩

theorem inv_leavingMutex (h : Inv settings hash s) (hc : s.call t = some c)
    (hpc : c.pc = .leavingMutex) (hnext : next settings hash s t c .goes = some s') :
    Inv settings hash s' := by
  simp only [next, hpc] at hnext
  obtain rfl := Option.some.inj hnext
  refine h.of_sameData hc rfl ?_ ⟨rfl, rfl, rfl, rfl, rfl, rfl⟩ fun c' hc' => ?_
  · exact h.locked.leavesMutex hc rfl (by rw [hpc]; rfl) rfl rfl rfl fun a => by
      simp [hpc, Pc.inShard]
  · obtain rfl := Option.some.inj hc'
    exact h.ok_next hc (by rw [hpc]; rfl) rfl trivial

theorem inv_entering (h : Inv settings hash s) (hc : s.call t = some c)
    (hpc : c.pc = .entering) (hnext : next settings hash s t c .goes = some s') :
    Inv settings hash s' := by
  simp only [next, hpc, Option.isNone_iff_eq_none] at hnext
  obtain ⟨m, hm, hnext⟩ := Option.bind_eq_some_iff.mp hnext
  obtain ⟨hfree, hnext⟩ := Option.ite_none_right_eq_some.mp hnext
  obtain rfl := Option.some.inj hnext
  have hshard : c.pc.hasShard = true := by rw [hpc]; rfl
  cases hop : c.op <;>
  · refine h.of_sameData hc rfl ?_ ⟨rfl, rfl, rfl, rfl, rfl, rfl⟩ fun c' hc' => ?_
    · exact h.locked.entersShard hc rfl hfree rfl rfl (by rw [hpc]; rfl) (by rw [hpc]; rfl) hm rfl
    · obtain rfl := Option.some.inj hc'
      exact h.ok_next hc hshard rfl trivial

/-! ### The section of the shard -/

omit [DecidableEq τ] in
theorem Inv.latest_of_find (h : Inv settings hash s) (hfind : s.store.cache.find key = some e) :
    latest key s.store.log = some e := by
  rcases h.holds key with hsame | ⟨hnone, -⟩
  · exact latest_of_lastStored (hsame.symm.trans hfind)
  · rw [hfind] at hnone
    cases hnone

theorem Inv.goto_loading (h : Inv settings hash s) (hc : s.call t = some c)
    (hin : c.pc.inMutex = false) (hold : c.pc.inShard = true) :
    Inv settings hash ({ s with store := s.store.loading c.op.key }.goto t c .loading) :=
  h.goto_store hc ⟨rfl, rfl, rfl, rfl, rfl, rfl⟩
    ⟨le_rfl, fun _ _ ha => ha, .inl rfl, fun _ => .inl rfl, .inl ⟨rfl, rfl, rfl⟩⟩ hin.symm hold rfl
    trivial h.holds.loading h.size_le h.faults_le

theorem inv_reading (h : Inv settings hash s) (hc : s.call t = some c)
    (hpc : c.pc = .reading) (hnext : next settings hash s t c .goes = some s') :
    Inv settings hash s' := by
  have hin : c.pc.inMutex = false := by rw [hpc]; rfl
  have hold : c.pc.inShard = true := by rw [hpc]; rfl
  simp only [next, hpc] at hnext
  split at hnext
  · rename_i current hfind
    obtain rfl := Option.some.inj hnext
    exact h.goto hc hin.symm hold rfl (h.latest_of_find hfind)
  · obtain rfl := Option.some.inj hnext
    exact h.goto_loading hc hin hold
  · obtain rfl := Option.some.inj hnext
    exact h.goto hc hin.symm hold rfl trivial

theorem inv_checking (h : Inv settings hash s) (hc : s.call t = some c)
    (hpc : c.pc = .checking e) (hnext : next settings hash s t c .goes = some s') :
    Inv settings hash s' := by
  have hin : c.pc.inMutex = false := by rw [hpc]; rfl
  have hold : c.pc.inShard = true := by rw [hpc]; rfl
  have hlatest : latest c.op.key s.store.log = some e := by
    have hknown := (h.calls t c hc).known
    unfold Call.Known at hknown
    rwa [hpc] at hknown
  simp only [next, hpc] at hnext
  split at hnext
  · rename_i hlive
    obtain rfl := Option.some.inj hnext
    exact h.goto hc hin.symm hold rfl ⟨hlatest, hlive, le_rfl⟩
  · rename_i hexpired
    split at hnext
    · obtain rfl := Option.some.inj hnext
      exact h.goto hc hin.symm hold rfl ⟨hlatest, not_lt.mp hexpired⟩
    · obtain rfl := Option.some.inj hnext
      exact h.goto_loading hc hin hold
    · obtain rfl := Option.some.inj hnext
      exact h.goto hc hin.symm hold rfl trivial

theorem inv_dropping (h : Inv settings hash s) (hc : s.call t = some c)
    (hpc : c.pc = .dropping e) (hnext : next settings hash s t c .goes = some s') :
    Inv settings hash s' := by
  have hknown : latest c.op.key s.store.log = some e ∧ e.expireAt ≤ s.clock := by
    have hknown := (h.calls t c hc).known
    unfold Call.Known at hknown
    rwa [hpc] at hknown
  simp only [next, hpc] at hnext
  obtain rfl := Option.some.inj hnext
  refine h.goto_drop hc (by rw [hpc]; rfl) (by rw [hpc]; rfl) rfl rfl (fun _ => rfl)
    (fun hmem => ?_) trivial
  -- What is there now is what has been found to be out of date.
  obtain ⟨current, hfind⟩ := OrderedDict.mem_keys_iff.mp hmem
  obtain rfl : e = current := Option.some.inj (hknown.1.symm.trans (h.latest_of_find hfind))
  exact h.holds.expire hfind hknown.2

theorem inv_popping (h : Inv settings hash s) (hc : s.call t = some c)
    (hpc : c.pc = .popping) (hnext : next settings hash s t c .goes = some s') :
    Inv settings hash s' := by
  have hin : c.pc.inMutex = false := by rw [hpc]; rfl
  have hold : c.pc.inShard = true := by rw [hpc]; rfl
  have hlog : ∀ k, latest k (s.store.invalidate c.op.key).log = latest k s.store.log :=
    fun _ => rfl
  have hlatest : ∀ e, s.store.cache.find c.op.key = some e →
      latest c.op.key (s.drop c.op.key (s.store.invalidate c.op.key)).store.log = some e := by
    intro e hfind
    unfold State.drop
    split <;> exact h.latest_of_find hfind
  simp only [next, hpc] at hnext
  split at hnext
  · rename_i hfind _
    obtain rfl := Option.some.inj hnext
    exact h.goto_drop hc hin.symm hold rfl rfl hlog (fun _ => h.holds.invalidate)
      (hlatest _ hfind)
  · rename_i hfind _
    obtain rfl := Option.some.inj hnext
    exact h.goto_drop hc hin.symm hold rfl rfl hlog (fun _ => h.holds.invalidate)
      (hlatest _ hfind)
  · obtain rfl := Option.some.inj hnext
    exact h.goto hc hin.symm hold rfl trivial

theorem inv_acting (h : Inv settings hash s) (hc : s.call t = some c)
    (hpc : c.pc = .acting e) : Inv settings hash (s.goto t c (.leaving (.removed e))) ∧
      Inv settings hash (s.goto t c (.leaving (.raised .action))) := by
  have hknown := (h.calls t c hc).known
  unfold Call.Known at hknown
  rw [hpc] at hknown
  exact ⟨h.goto hc (by rw [hpc]; rfl) (by rw [hpc]; rfl) rfl hknown,
    h.goto hc (by rw [hpc]; rfl) (by rw [hpc]; rfl) rfl trivial⟩

theorem inv_leaving (h : Inv settings hash s) (hc : s.call t = some c)
    (hpc : c.pc = .leaving outcome) (hnext : next settings hash s t c .goes = some s') :
    Inv settings hash s' := by
  simp only [next, hpc] at hnext
  obtain ⟨m, hm, hnext⟩ := Option.bind_eq_some_iff.mp hnext
  obtain rfl := Option.some.inj hnext
  have hlocked : Locked ((s.setLock m none).setCall t none) :=
    h.locked.leavesShard hc rfl hm (by rw [hpc]; rfl) rfl rfl (by rw [hpc]; rfl)
  exact h.of_sameData hc rfl hlocked ⟨rfl, rfl, rfl, rfl, rfl, rfl⟩ fun c' hc' => by cases hc'

end ShimService.ConcurrentTtlCache.Shared
