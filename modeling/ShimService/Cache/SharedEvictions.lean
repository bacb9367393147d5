import ShimService.Cache.SharedSound

/-!
The evictions of a shared `ConcurrentTtlCache`: when one fails, and that no thread waits for ever.
-/
namespace ShimService.ConcurrentTtlCache.Shared

open Transition

variable {τ κ β : Type} [DecidableEq τ] [DecidableEq κ] {settings : Settings} {hash : κ → ℤ}
  {clock : ℚ} {s s' : State τ κ β} {t u : τ} {c d : Call κ β} {a : ℕ} {choice : Choice κ β}
  {act : Act τ κ β} {xs : List (Act τ κ β)}

/-! ### A thread that can take a step -/

def Moves (settings : Settings) (hash : κ → ℤ) (s : State τ κ β) (t : τ) : Prop :=
  ∃ choice, (step settings hash s (.thread t choice)).isSome

theorem moves_of_next (hc : s.call t = some c) (choice : Choice κ β)
    (hnext : (next settings hash s t c choice).isSome) : Moves settings hash s t :=
  ⟨choice, by simpa only [step, hc] using hnext⟩

/-- Nobody waits for the thread that holds the mutex of the cache. -/
theorem moves_in_mutex (hc : s.call t = some c) (hin : c.pc.inMutex = true) :
    Moves settings hash s t := by
  refine moves_of_next hc .goes ?_
  cases hpc : c.pc <;> rw [hpc] at hin
  case iterating value used i oldest =>
    simp only [next, hpc]
    split
    · rfl
    · cases s.store.cache.entries[i]? with
      | some entry => rfl
      | none => cases oldest <;> rfl
  case deleting value oldest =>
    simp only [next, hpc]
    split <;> rfl
  all_goals first | (simp only [next, hpc, Option.isSome_some]; done) | cases hin

theorem Inv.mutex_moves (h : Inv settings hash s) (hheld : s.mutex.isNone ≠ true) :
    ∃ u, Moves settings hash s u := by
  obtain ⟨u, hu⟩ := Option.ne_none_iff_exists'.mp (mt Option.isNone_iff_eq_none.mpr hheld)
  obtain ⟨d, hd, hin⟩ := (h.locked.mutex u).mp hu
  exact ⟨u, moves_in_mutex hd hin⟩

/-- A thread in the section of a shard waits for the mutex of the cache, if at all. -/
theorem Inv.shard_moves (h : Inv settings hash s) (hc : s.call t = some c)
    (hin : c.pc.inShard = true) : ∃ u, Moves settings hash s u := by
  by_cases hmutex : c.pc.inMutex = true
  · exact ⟨t, moves_in_mutex hc hmutex⟩
  · cases hpc : c.pc <;> rw [hpc] at hin hmutex
    case reading =>
      refine ⟨t, moves_of_next hc .goes ?_⟩
      simp only [next, hpc]
      split <;> rfl
    case checking current =>
      refine ⟨t, moves_of_next hc .goes ?_⟩
      simp only [next, hpc]
      split
      · rfl
      · split <;> rfl
    case dropping | acting => exact ⟨t, moves_of_next hc .goes (by simp [next, hpc])⟩
    case loading =>
      exact ⟨t, moves_of_next hc (.returns none) (by simp [next, hpc])⟩
    case popping =>
      refine ⟨t, moves_of_next hc .goes ?_⟩
      simp only [next, hpc]
      split <;> rfl
    case acquiringStore value =>
      by_cases hfree : s.mutex.isNone = true
      · exact ⟨t, moves_of_next hc .goes (by simp [next, hpc, hfree])⟩
      · exact h.mutex_moves hfree
    case leaving outcome =>
      obtain ⟨m, hm, -⟩ := (h.calls t c hc).shard (by rw [hpc]; rfl)
      exact ⟨t, moves_of_next hc .goes (by simp [next, hpc, hm])⟩
    all_goals first | exact absurd rfl hmutex | cases hin

/-- While there is a call, some thread can take a step. -/
theorem Inv.exists_moves (h : Inv settings hash s) (hc : s.call t = some c) :
    ∃ u, Moves settings hash s u := by
  by_cases hshard : c.pc.inShard = true
  · exact h.shard_moves hc hshard
  · by_cases hmutex : c.pc.inMutex = true
    · exact ⟨t, moves_in_mutex hc hmutex⟩
    · cases hpc : c.pc <;> rw [hpc] at hshard hmutex
      case lookingUp => exact ⟨t, moves_of_next hc .goes (by simp [next, hpc])⟩
      case acquiringMutex =>
        by_cases hfree : s.mutex.isNone = true
        · exact ⟨t, moves_of_next hc .goes (by simp [next, hpc, hfree])⟩
        · exact h.mutex_moves hfree
      case entering =>
        obtain ⟨a, hm, -⟩ := (h.calls t c hc).shard (by rw [hpc]; rfl)
        by_cases hfree : (s.locks a).isNone = true
        · have hfree' := Option.isNone_iff_eq_none.mp hfree
          exact ⟨t, moves_of_next hc .goes (by simp [next, hpc, hm, hfree'])⟩
        · obtain ⟨u, hu⟩ := Option.ne_none_iff_exists'.mp (mt Option.isNone_iff_eq_none.mpr hfree)
          obtain ⟨d, hd, -, hin⟩ := (h.locked.locks a u).mp hu
          exact h.shard_moves hd hin
      all_goals first | exact absurd rfl hshard | exact absurd rfl hmutex

/-! ### Caches that entries are taken out of by evictions only -/

/-- The calls are `get`s and `set`s. -/
def LoadsOnly (_ : State τ κ β) : Act τ κ β → Prop
  | .thread _ (.begins (.find _)) | .thread _ (.begins (.invalidate ..)) => False
  | .thread _ .clears => False
  | _ => True

def Op.plain : Op κ β → Bool
  | .get .. | .set .. => true
  | _ => false

/-- Not about to take an entry out other than by an eviction. -/
def Pc.plain : Pc κ β → Bool
  | .dropping _ | .popping | .acting _ => false
  | _ => true

def Call.Plain (c : Call κ β) : Prop := c.op.plain = true ∧ c.pc.plain = true

structure Plain (s : State τ κ β) : Prop where
  drops : s.drops = 0
  calls : ∀ t c, s.call t = some c → c.Plain

omit [DecidableEq κ] in
theorem Plain.goto {s₁ : State τ κ β} {m : Option ℕ} {pc : Pc κ β} (h : Plain s)
    (hc : s.call t = some c) (hdrops : s₁.drops = s.drops) (hcall : s₁.call = s.call)
    (hpc : pc.plain = true) : Plain (s₁.goto t { c with m } pc) := by
  refine ⟨hdrops.trans h.drops, fun u d hd => ?_⟩
  by_cases hu : u = t
  · subst hu
    obtain rfl : { c with m, pc } = d := by simpa [State.goto, State.setCall] using hd
    exact ⟨(h.calls u c hc).1, hpc⟩
  · refine h.calls u d ?_
    simpa [State.goto, State.setCall, hu, hcall] using hd

theorem plain_goes (h : Plain s) (hc : s.call t = some c)
    (hnext : next settings hash s t c .goes = some s') : Plain s' := by
  obtain ⟨hop, hplain⟩ := h.calls t c hc
  cases hpc : c.pc <;> rw [hpc] at hplain <;> simp only [next, hpc] at hnext
  case lookingUp | lookingAgain =>
    obtain rfl := Option.some.inj hnext
    refine h.goto hc rfl rfl ?_
    split <;> rfl
  case acquiringMutex | acquiringStore =>
    obtain ⟨-, hnext⟩ := Option.ite_none_right_eq_some.mp hnext
    obtain rfl := Option.some.inj hnext
    exact h.goto hc rfl rfl rfl
  case creating | leavingMutex | choosing | stamping | storing | leavingStore =>
    obtain rfl := Option.some.inj hnext
    exact h.goto hc rfl rfl rfl
  case entering =>
    obtain ⟨m, -, hnext⟩ := Option.bind_eq_some_iff.mp hnext
    obtain ⟨-, hnext⟩ := Option.ite_none_right_eq_some.mp hnext
    obtain rfl := Option.some.inj hnext
    refine h.goto hc rfl rfl ?_
    cases hcall : c.op <;> rw [hcall] at hop <;> first | rfl | cases hop
  case reading =>
    split at hnext <;>
    · obtain rfl := Option.some.inj hnext
      exact h.goto hc rfl rfl rfl
  case checking =>
    split at hnext
    · obtain rfl := Option.some.inj hnext
      exact h.goto hc rfl rfl rfl
    · cases hcall : c.op with
      | get key loads =>
        rw [hcall] at hnext
        cases loads <;>
        · obtain rfl := Option.some.inj hnext
          exact h.goto hc rfl rfl rfl
      | set key value =>
        rw [hcall] at hnext
        obtain rfl := Option.some.inj hnext
        exact h.goto hc rfl rfl rfl
      | find key | invalidate key acts =>
        rw [hcall] at hop
        cases hop
  case testingKey | testingSize =>
    obtain rfl := Option.some.inj hnext
    refine h.goto hc rfl rfl ?_
    split <;> rfl
  case iterating =>
    split at hnext
    · obtain rfl := Option.some.inj hnext
      exact h.goto hc rfl rfl rfl
    · split at hnext
      · obtain rfl := Option.some.inj hnext
        exact h.goto hc rfl rfl rfl
      · split at hnext <;>
        · obtain rfl := Option.some.inj hnext
          exact h.goto hc rfl rfl rfl
  case deleting =>
    split at hnext <;>
    · obtain rfl := Option.some.inj hnext
      exact h.goto hc rfl rfl rfl
  case leaving =>
    obtain ⟨m, -, hnext⟩ := Option.bind_eq_some_iff.mp hnext
    obtain rfl := Option.some.inj hnext
    refine ⟨h.drops, fun u d hd => ?_⟩
    by_cases hu : u = t
    · simp [State.setCall, hu] at hd
    · exact h.calls u d (by simpa [State.setCall, State.setLock, hu] using hd)
  case loading => cases hnext
  all_goals cases hplain

theorem plain_step (hok : LoadsOnly s act) (hstep : step settings hash s act = some s')
    (h : Plain s) : Plain s' := by
  cases act with
  | tick now =>
    obtain ⟨-, hstep⟩ := Option.ite_none_right_eq_some.mp hstep
    obtain rfl := Option.some.inj hstep
    exact ⟨h.drops, h.calls⟩
  | thread t choice =>
    cases hc : s.call t with
    | none =>
      cases choice with
      | begins op =>
        simp only [step, hc] at hstep
        obtain rfl := Option.some.inj hstep
        refine ⟨h.drops, fun u d hd => ?_⟩
        by_cases hu : u = t
        · subst hu
          obtain rfl : ⟨op, none, .lookingUp⟩ = d := by simpa [State.setCall] using hd
          cases op <;> first | exact ⟨rfl, rfl⟩ | exact hok.elim
        · exact h.calls u d (by simpa [State.setCall, hu] using hd)
      | clears => exact hok.elim
      | goes | returns value | raises => simp [step, hc] at hstep
    | some c =>
      simp only [step, hc] at hstep
      cases choice with
      | goes => exact plain_goes h hc hstep
      | returns value =>
        cases hpc : c.pc <;> simp only [next, hpc] at hstep
        case loading =>
          cases value <;>
          · obtain rfl := Option.some.inj hstep
            exact h.goto hc rfl rfl rfl
        all_goals cases hstep
      | raises =>
        cases hpc : c.pc <;> simp only [next, hpc] at hstep
        case loading | acting =>
          obtain rfl := Option.some.inj hstep
          exact h.goto hc rfl rfl rfl
        all_goals cases hstep
      | begins op | clears => cases hstep

/-! ### The results -/

/-- In every run no more evictions fail than entries have been taken out in other ways, and while
there is a call, some thread can take a step. -/
theorem evictions_accounted
    (h : Run (step settings hash) Free (initial clock : State τ κ β) xs s) :
    s.faults ≤ s.drops ∧ ∀ t, s.call t ≠ none → ∃ u, Moves settings hash s u := by
  have hi := inv_run h
  refine ⟨hi.faults_le, fun t hcall => ?_⟩
  obtain ⟨c, hc⟩ := Option.ne_none_iff_exists'.mp hcall
  exact hi.exists_moves hc

/-- No eviction fails in a cache of which the threads only get and set entries. -/
theorem no_eviction_fails
    (h : Run (step settings hash) LoadsOnly (initial clock : State τ κ β) xs s) :
    s.faults = 0 := by
  have hplain : Plain s := h.invariant (fun _ _ _ hok hstep hi => plain_step hok hstep hi)
    ⟨rfl, fun t c hc => by cases hc⟩
  exact Nat.le_zero.mp (hplain.drops ▸ (inv_run h.free).faults_le)

/-- A thread fills a cache of two places and has begun to look for the oldest entry when another
thread clears the cache. -/
def clearedMeanwhile : List (Act Bool ℤ ℕ) :=
  .thread false (.begins (.set 1 (some 10))) :: List.replicate 13 (.thread false .goes) ++
    .thread false (.begins (.set 2 (some 20))) :: List.replicate 9 (.thread false .goes) ++
    .thread false (.begins (.set 3 (some 30))) :: List.replicate 6 (.thread false .goes) ++
    [.thread true .clears, .thread false .goes]

theorem evictions_accounted_clearedMeanwhile : ∃ s : State Bool ℤ ℕ,
    Run (step twoPlaces id) Free (initial 0) clearedMeanwhile s ∧
      s.call false = some ⟨.set 3 (some 30), some 0, .leavingStore (.raised .changedSize)⟩ ∧
      s.faults = 1 ∧ 1 ≤ s.drops := by
  obtain ⟨s, hrun, hs⟩ := exists_run_of_exec (free_of_check (σ := State Bool ℤ ℕ))
    (step twoPlaces id) (initial 0) clearedMeanwhile
    (fun s => decide (s.call false =
      some ⟨.set 3 (some 30), some 0, .leavingStore (.raised .changedSize)⟩ ∧ s.faults = 1))
    (by decide +kernel)
  obtain ⟨hcall, hfaults⟩ := of_decide_eq_true hs
  exact ⟨s, hrun, hcall, hfaults, hfaults ▸ (evictions_accounted hrun).1⟩

end ShimService.ConcurrentTtlCache.Shared
