import ShimService.Cache.SharedSteps

/-! The invariant of a shared `ConcurrentTtlCache`, over whole runs. -/
namespace ShimService.ConcurrentTtlCache.Shared

open Transition

variable {τ κ β : Type} [DecidableEq τ] [DecidableEq κ] {settings : Settings} {hash : κ → ℤ}
  {s s' s₁ : State τ κ β} {t u : τ} {c c' d : Call κ β} {key : κ} {e entry : CacheEntry β}
  {i a : ℕ} {pc : Pc κ β} {oldest : Option (κ × CacheEntry β)} {store : Store κ β}
  {call : Option (Call κ β)} {choice : Choice κ β} {act : Act τ κ β} {xs : List (Act τ κ β)}

/-! ### The mutexes -/

omit [DecidableEq κ] in
/-- The mutexes are right where the step has set what concerns the thread, and that only. -/
theorem Locked.change (h : Locked s) (hcall : s'.call = Function.update s.call t call)
    (hmutex : ∀ u ≠ t, s'.mutex = some u ↔ s.mutex = some u)
    (hmutex' : s'.mutex = some t ↔ ∃ c, call = some c ∧ c.pc.inMutex = true)
    (hlocks : ∀ a, ∀ u ≠ t, s'.locks a = some u ↔ s.locks a = some u)
    (hlocks' : ∀ a, s'.locks a = some t ↔
      ∃ c, call = some c ∧ c.m = some a ∧ c.pc.inShard = true) : Locked s' := by
  constructor
  · intro u
    by_cases hu : u = t
    · subst hu
      simpa only [hcall, Function.update_self] using hmutex'
    · rw [hmutex u hu, h.mutex u, hcall, Function.update_of_ne hu]
  · intro a u
    by_cases hu : u = t
    · subst hu
      simpa only [hcall, Function.update_self] using hlocks' a
    · rw [hlocks a u hu, h.locks a u, hcall, Function.update_of_ne hu]

omit [DecidableEq κ] in
theorem Locked.same (h : Locked s) (hc : s.call t = some c)
    (hcall : s'.call = Function.update s.call t (some c')) (hmutex : s'.mutex = s.mutex)
    (hlocks : s'.locks = s.locks) (hin : c'.pc.inMutex = c.pc.inMutex)
    (hshard : ∀ a, c'.m = some a ∧ c'.pc.inShard = true ↔ c.m = some a ∧ c.pc.inShard = true) :
    Locked s' := by
  refine h.change hcall (fun u _ => by rw [hmutex]) ?_ (fun a u _ => by rw [hlocks]) fun a => ?_
  · rw [hmutex, h.mutex t]
    simp only [hc, Option.some.injEq, exists_eq_left', hin]
  · rw [hlocks, h.locks a t]
    simp only [hc, Option.some.injEq, exists_eq_left', hshard]

omit [DecidableEq κ] in
theorem Locked.takesMutex (h : Locked s) (hc : s.call t = some c)
    (hcall : s'.call = Function.update s.call t (some c')) (hfree : s.mutex = none)
    (hmutex : s'.mutex = some t) (hlocks : s'.locks = s.locks) (hin : c'.pc.inMutex = true)
    (hshard : ∀ a, c'.m = some a ∧ c'.pc.inShard = true ↔ c.m = some a ∧ c.pc.inShard = true) :
    Locked s' := by
  refine h.change hcall (fun u hu => ?_) ?_ (fun a u _ => by rw [hlocks]) fun a => ?_
  · rw [hmutex, hfree]
    simp [Ne.symm hu]
  · simp [hmutex, hin]
  · rw [hlocks, h.locks a t]
    simp only [hc, Option.some.injEq, exists_eq_left', hshard]

omit [DecidableEq κ] in
theorem Locked.leavesMutex (h : Locked s) (hc : s.call t = some c)
    (hcall : s'.call = Function.update s.call t (some c')) (hheld : c.pc.inMutex = true)
    (hmutex : s'.mutex = none) (hlocks : s'.locks = s.locks) (hin : c'.pc.inMutex = false)
    (hshard : ∀ a, c'.m = some a ∧ c'.pc.inShard = true ↔ c.m = some a ∧ c.pc.inShard = true) :
    Locked s' := by
  have hholder : s.mutex = some t := (h.mutex t).mpr ⟨c, hc, hheld⟩
  refine h.change hcall (fun u hu => ?_) ?_ (fun a u _ => by rw [hlocks]) fun a => ?_
  · rw [hmutex, hholder]
    simp [Ne.symm hu]
  · simp [hmutex, hin]
  · rw [hlocks, h.locks a t]
    simp only [hc, Option.some.injEq, exists_eq_left', hshard]

omit [DecidableEq κ] in
theorem Locked.entersShard (h : Locked s) (hc : s.call t = some c)
    (hcall : s'.call = Function.update s.call t (some c')) (hfree : s.locks a = none)
    (hlocks : s'.locks = Function.update s.locks a (some t)) (hmutex : s'.mutex = s.mutex)
    (hin : c'.pc.inMutex = c.pc.inMutex) (hout : c.pc.inShard = false) (hm : c'.m = some a)
    (hshard : c'.pc.inShard = true) : Locked s' := by
  refine h.change hcall (fun u _ => by rw [hmutex]) ?_ (fun b u hu => ?_) fun b => ?_
  · rw [hmutex, h.mutex t]
    simp only [hc, Option.some.injEq, exists_eq_left', hin]
  · rw [hlocks]
    by_cases hb : b = a
    · subst hb
      simp [hfree, Ne.symm hu]
    · rw [Function.update_of_ne hb]
  · rw [hlocks]
    by_cases hb : b = a
    · subst hb
      simp [hm, hshard]
    · have hnot : ¬ s.locks b = some t := by
        rw [h.locks b t]
        simp [hc, hout]
      rw [Function.update_of_ne hb]
      simp [hnot, hm, Ne.symm hb]

omit [DecidableEq κ] in
theorem Locked.leavesShard (h : Locked s) (hc : s.call t = some c)
    (hcall : s'.call = Function.update s.call t none) (hm : c.m = some a)
    (hheld : c.pc.inShard = true) (hlocks : s'.locks = Function.update s.locks a none)
    (hmutex : s'.mutex = s.mutex) (hin : c.pc.inMutex = false) : Locked s' := by
  have hholder : s.locks a = some t := (h.locks a t).mpr ⟨c, hc, hm, hheld⟩
  refine h.change hcall (fun u _ => by rw [hmutex]) ?_ (fun b u hu => ?_) fun b => ?_
  · rw [hmutex, h.mutex t]
    simp [hc, hin]
  · rw [hlocks]
    by_cases hb : b = a
    · subst hb
      simp [hholder, Ne.symm hu]
    · rw [Function.update_of_ne hb]
  · rw [hlocks]
    by_cases hb : b = a
    · subst hb
      simp
    · have hnot : ¬ s.locks b = some t := by
        rw [h.locks b t]
        simp [hc, hm, Ne.symm hb]
      rw [Function.update_of_ne hb]
      simp [hnot]

/-! ### Steps that change no data -/

def SameData (s s' : State τ κ β) : Prop :=
  s'.clock = s.clock ∧ s'.store = s.store ∧ s'.mutexes = s.mutexes ∧ s'.created = s.created ∧
    s'.drops = s.drops ∧ s'.faults = s.faults

omit [DecidableEq τ] in
theorem SameData.effect (h : SameData s s') : Effect s s' c := by
  obtain ⟨hclock, hstore, hmutexes, -, hdrops, hfaults⟩ := h
  exact ⟨hclock.ge, fun i a ha => hmutexes ▸ ha, .inl hmutexes, fun key => .inl (by rw [hstore]),
    .inl ⟨by rw [hstore], hdrops, hfaults⟩⟩

theorem Inv.of_sameData (h : Inv settings hash s) (hc : s.call t = some c)
    (hcall : s'.call = Function.update s.call t call) (hlocked : Locked s')
    (hdata : SameData s s') (hok : ∀ c', call = some c' → c'.Ok settings hash s') :
    Inv settings hash s' := by
  have heffect : Effect s s' c := hdata.effect
  obtain ⟨hclock, hstore, hmutexes, hcreated, hdrops, hfaults⟩ := hdata
  refine ⟨hlocked, ?_, ?_, fun u d hd => ?_, ?_, ?_, ?_⟩
  · rw [hmutexes, hcreated]
    exact h.created
  · rw [hmutexes]
    exact h.inj
  · by_cases hu : u = t
    · subst hu
      exact hok d (by simpa [hcall] using hd)
    · rw [hcall, Function.update_of_ne hu] at hd
      exact ok_of_effect h hc hd hu heffect
  · rw [hstore, hclock]
    exact h.holds
  · rw [hstore]
    exact h.size_le
  · rw [hdrops, hfaults]
    exact h.faults_le

omit [DecidableEq τ] in
/-- The mutex of the shard stays known. -/
theorem Inv.ok_next (h : Inv settings hash s) (hc : s.call t = some c)
    (hshard : c.pc.hasShard = true) (hmutexes : s'.mutexes = s.mutexes)
    (hknown : Call.Known settings hash s' { c with pc }) :
    Call.Ok settings hash s' { c with pc } :=
  ⟨fun _ => hmutexes ▸ (h.calls t c hc).shard hshard, hknown⟩

/-- A step from one place to another one, in the section of the shard. -/
theorem Inv.goto (h : Inv settings hash s) (hc : s.call t = some c)
    (hin : pc.inMutex = c.pc.inMutex) (hold : c.pc.inShard = true) (hnew : pc.inShard = true)
    (hknown : Call.Known settings hash s { c with pc }) : Inv settings hash (s.goto t c pc) := by
  have hlocked : Locked (s.goto t c pc) :=
    h.locked.same hc rfl rfl rfl hin fun a => by simp [hold, hnew]
  refine h.of_sameData hc rfl hlocked ⟨rfl, rfl, rfl, rfl, rfl, rfl⟩ fun c' hc' => ?_
  obtain rfl := Option.some.inj hc'
  exact h.ok_next hc (Pc.hasShard_of_inShard hold) rfl hknown

/-! ### Steps that change the store -/

/-- What a step leaves as it is where it changes the store and the counts. -/
def SameLocks (s s₁ : State τ κ β) : Prop :=
  s₁.call = s.call ∧ s₁.mutex = s.mutex ∧ s₁.locks = s.locks ∧ s₁.mutexes = s.mutexes ∧
    s₁.created = s.created ∧ s₁.clock = s.clock

theorem Effect.goto (h : Effect s s₁ c) : Effect s (s₁.goto t c' pc) c :=
  ⟨h.clock, h.mutexes, h.table, h.latest, h.cache⟩

theorem Inv.goto_store (h : Inv settings hash s) (hc : s.call t = some c) (hsame : SameLocks s s₁)
    (heffect : Effect s s₁ c) (hin : pc.inMutex = c.pc.inMutex) (hold : c.pc.inShard = true)
    (hnew : pc.inShard = true) (hknown : Call.Known settings hash s₁ { c with pc })
    (hholds : Holds s₁.store s₁.clock) (hsize : s₁.store.cache.size ≤ settings.maxsize)
    (hfaults : s₁.faults ≤ s₁.drops) : Inv settings hash (s₁.goto t c pc) := by
  obtain ⟨hcall, hmutex, hlocks, hmutexes, hcreated, -⟩ := hsame
  have hcall' : (s₁.goto t c pc).call = Function.update s.call t (some { c with pc }) := by
    rw [← hcall]
    rfl
  have hlocked : Locked (s₁.goto t c pc) :=
    h.locked.same hc hcall' hmutex hlocks hin fun a => by simp [hold, hnew]
  refine ⟨hlocked, ?_, ?_, fun u d hd => ?_, hholds, hsize, hfaults⟩
  · change ∀ i a, s₁.mutexes i = some a → a < s₁.created
    rw [hmutexes, hcreated]
    exact h.created
  · change ∀ i j a, s₁.mutexes i = some a → s₁.mutexes j = some a → i = j
    rw [hmutexes]
    exact h.inj
  · by_cases hu : u = t
    · subst hu
      obtain rfl : { c with pc } = d := by simpa [hcall'] using hd
      exact h.ok_next hc (Pc.hasShard_of_inShard hold) hmutexes hknown
    · rw [hcall', Function.update_of_ne hu] at hd
      exact ok_of_effect h hc hd hu heffect.goto

omit [DecidableEq τ] in
/-- An entry is taken out other than by an eviction. -/
theorem drop_effect (hdrop : store.cache = s.store.cache.erase key)
    (hlog : ∀ k, latest k store.log = latest k s.store.log) (hfaults : s.faults ≤ s.drops) :
    Effect s (s.drop key store) c := by
  unfold State.drop
  split
  · rename_i hmem
    refine ⟨le_rfl, fun _ _ ha => ha, .inl rfl, fun k => .inl (hlog k), .inr (.inl ⟨?_, ?_⟩)⟩
    · change store.cache.size < s.store.cache.size
      rw [hdrop]
      exact OrderedDict.size_erase_lt hmem
    · exact Nat.lt_succ_of_le hfaults
  · exact ⟨le_rfl, fun _ _ ha => ha, .inl rfl, fun _ => .inl rfl, .inl ⟨rfl, rfl, rfl⟩⟩

omit [DecidableEq τ] in
theorem drop_sameLocks : SameLocks s (s.drop key store) := by
  unfold State.drop
  split <;> exact ⟨rfl, rfl, rfl, rfl, rfl, rfl⟩

theorem Inv.goto_drop (h : Inv settings hash s) (hc : s.call t = some c)
    (hin : pc.inMutex = c.pc.inMutex) (hold : c.pc.inShard = true) (hnew : pc.inShard = true)
    (hdrop : store.cache = s.store.cache.erase key)
    (hlog : ∀ k, latest k store.log = latest k s.store.log)
    (hholds : key ∈ s.store.cache.keys → Holds store s.clock)
    (hknown : Call.Known settings hash (s.drop key store) { c with pc }) :
    Inv settings hash ((s.drop key store).goto t c pc) := by
  refine h.goto_store hc drop_sameLocks (drop_effect hdrop hlog h.faults_le) hin hold hnew hknown
    ?_ ?_ ?_
  all_goals
    unfold State.drop
    split
  · rename_i hmem
    exact hholds hmem
  · exact h.holds
  · change store.cache.size ≤ settings.maxsize
    rw [hdrop]
    exact OrderedDict.size_erase_le.trans h.size_le
  · exact h.size_le
  · exact h.faults_le.trans (Nat.le_succ _)
  · exact h.faults_le

/-- An eviction fails only where an entry has been taken out since the last one that failed. -/
theorem Inv.fail (h : Inv settings hash s) (hc : s.call t = some c) (hin : c.pc.inMutex = true)
    (hold : c.pc.inShard = true) (hdisturbed : s.Disturbed) (ex : Raised) :
    Inv settings hash (s.fail t c ex) :=
  h.goto_store hc ⟨rfl, rfl, rfl, rfl, rfl, rfl⟩
    ⟨le_rfl, fun _ _ ha => ha, .inl rfl, fun _ => .inl rfl, .inr (.inr hin)⟩ hin.symm hold rfl
    trivial h.holds h.size_le hdisturbed

end ShimService.ConcurrentTtlCache.Shared
