import ShimService.Poll.PollingGroup

/-! What `collect` leaves behind where it returns without another invocation. -/
namespace ShimService.PollingGroup

open Paging Transition

variable {ε : Type*} {max : ℕ} {s t : State ε} {a : Act ε} {xs : List (Act ε)} {i : ℕ} {event : ε}
  {pc : Pc} {left : List ε} {start last nextToken : Option ℕ} {page : QueryResult ε}
  {read : List (Option ℕ × QueryResult ε)}

/-- Each page was asked for with the token of the one before, from the first token to the last. -/
def Leads (last : Option ℕ) : Option ℕ → List (Option ℕ × QueryResult ε) → Prop
  | start, [] => start = last
  | start, (nextToken, page) :: rest => nextToken = start ∧ Leads last page.nextToken rest

/-- Every event of the pages read has a worker, in order, and there are no more pages. -/
structure AllHanded (s : State ε) : Prop where
  rows : s.workers.map Worker.event = s.read.flatMap fun (_, page) => page.rows
  tokens : Leads none none s.read
  asked : s.read ≠ []

/-- The events of the pages read up to `left` have workers, and `nextToken` is what comes next. -/
structure Handed (workers : List (Worker ε)) (read : List (Option ℕ × QueryResult ε))
    (left : List ε) (nextToken : Option ℕ) : Prop where
  rows : workers.map Worker.event ++ left = read.flatMap fun (_, page) => page.rows
  tokens : Leads nextToken none read

/-- What `collect` knows at each of its points. -/
def CollectOk (s : State ε) : Prop :=
  match s.collector with
  | .querying nextToken => Handed s.workers s.read [] nextToken
  | .adding event rest nextToken | .starting event rest nextToken =>
    Handed s.workers s.read (event :: rest) nextToken ∧ s.read ≠ []
  | .checking nextToken => Handed s.workers s.read [] (some nextToken) ∧ s.read ≠ []
  | .leaving false nextToken => Handed s.workers s.read [] nextToken ∧ s.read ≠ []
  | .returned => AllHanded s ∨ s.invoked = true
  | .leaving true _ | .raised => True

theorem leads_append (h : Leads last start read) :
    Leads page.nextToken start (read ++ [(last, page)]) := by
  induction read generalizing start with
  | nil => exact ⟨h.symm, rfl⟩
  | cons _ rest ih => exact ⟨h.1, ih h.2⟩

theorem collectOk_initial : CollectOk (initial : State ε) := ⟨rfl, rfl⟩

theorem collectOk_nextEvent (h : Handed s.workers s.read left nextToken) (hasked : s.read ≠ [])
    (hcollector : s.collector = nextEvent left nextToken) : CollectOk s := by
  unfold CollectOk
  rw [hcollector]
  cases left with
  | cons event rest => exact ⟨h, hasked⟩
  | nil => cases nextToken <;> exact ⟨h, hasked⟩

/-- A worker keeps its event. -/
theorem setPc_events (h : s.workers[i]? = some ⟨event, pc⟩) (pc' : Pc) :
    (s.setPc i event pc').workers.map Worker.event = s.workers.map Worker.event := by
  obtain ⟨hi, hw⟩ := List.getElem?_eq_some_iff.mp h
  have hi' : i < (s.workers.map Worker.event).length := by simpa using hi
  have hevent : (s.workers.map Worker.event)[i] = event := by simp [hw]
  rw [State.setPc, List.map_set]
  exact hevent ▸ List.set_getElem_self hi'

/-- What `collect` knows is about the events of the workers and its own part of the state. -/
theorem collectOk_congr (hevents : t.workers.map Worker.event = s.workers.map Worker.event)
    (hcollector : t.collector = s.collector) (hread : t.read = s.read)
    (hinvoked : t.invoked = s.invoked) (h : CollectOk s) : CollectOk t := by
  have hhanded : ∀ {left nextToken}, Handed s.workers s.read left nextToken →
      Handed t.workers s.read left nextToken :=
    fun h => ⟨by rw [hevents, h.rows], h.tokens⟩
  have hall : AllHanded s → AllHanded t :=
    fun h => ⟨by rw [hevents, hread, h.rows], by rw [hread]; exact h.tokens, hread ▸ h.asked⟩
  unfold CollectOk at h ⊢
  rw [hcollector, hread, hinvoked]
  cases hc : s.collector with
  | querying => simp only [hc] at h; exact hhanded h
  | adding | starting | checking => simp only [hc] at h; exact h.imp_left hhanded
  | leaving full =>
    cases full with
    | false => simp only [hc] at h; exact h.imp_left hhanded
    | true => trivial
  | returned => simp only [hc] at h; exact h.imp_left hall
  | raised => trivial

theorem workerStep_collectOk (h : workerStep s a i = some t) (hi : CollectOk s) : CollectOk t := by
  unfold workerStep at h
  split at h
  · rename_i hw
    split at h <;> cases h <;> exact collectOk_congr (setPc_events hw _) rfl rfl rfl hi
  · rename_i hw
    split at h <;> cases h <;> exact collectOk_congr (setPc_events hw _) rfl rfl rfl hi
  · rename_i hw
    cases h
    exact collectOk_congr (s := s) (setPc_events (s := s.decSubmitCount) hw _) rfl rfl rfl hi
  · rename_i hw
    cases h
    exact collectOk_congr (s := s) (setPc_events (s := s.beginPoll) hw _) rfl rfl rfl hi
  · rename_i hw
    cases h
    exact collectOk_congr (setPc_events hw _) rfl rfl rfl hi
  · cases h

theorem collectorStep_collectOk (h : collectorStep max s a = some t) (hi : CollectOk s) :
    CollectOk t := by
  unfold CollectOk at hi
  unfold collectorStep at h
  split at h
  · split at h
    · rename_i result hcollector
      simp only [hcollector] at hi
      cases h
      refine collectOk_nextEvent ⟨?_, leads_append hi.tokens⟩ (by simp) rfl
      rw [List.flatMap_append, ← hi.rows]
      simp
    · cases h
      trivial
    · cases h
  · split at h
    · rename_i hcollector
      simp only [hcollector] at hi
      split at h
      · cases h
        unfold CollectOk
        rw [hcollector]
        exact hi
      · cases h
        trivial
      · cases h
        exact hi
    · rename_i hcollector
      simp only [hcollector] at hi
      split at h
      · cases h
        exact hi
      · cases h
        exact hi.1
    · cases h
  · split at h
    · rename_i hcollector
      simp only [hcollector] at hi
      cases h
      refine collectOk_nextEvent ⟨?_, hi.1.tokens⟩ hi.2 rfl
      rw [← hi.1.rows]
      simp
    · cases h
  · split at h
    · rename_i full nextToken hcollector
      simp only [hcollector] at hi
      cases h
      cases full with
      | true => exact .inr rfl
      | false =>
        cases nextToken with
        | some nextToken => exact .inr rfl
        | none =>
          refine .inl ⟨?_, hi.1.tokens, hi.2⟩
          rw [← hi.1.rows, List.append_nil]
    · cases h
  · cases h

theorem step_collectOk (h : step max s a = some t) (hi : CollectOk s) : CollectOk t := by
  rcases step_cases h with h | ⟨i, h⟩
  · exact collectorStep_collectOk h hi
  · exact workerStep_collectOk h hi

/-- When `collect` returns, every event of every page has been handed to a worker and no page is
left, or it has asked for another invocation. -/
theorem collect_hands_over_or_invokes_again (h : Run (step max) Free (initial : State ε) xs s)
    (hreturned : s.collector = .returned) : AllHanded s ∨ s.invoked = true := by
  have hi : CollectOk s := h.invariant (fun _ _ _ _ => step_collectOk) collectOk_initial
  simpa only [CollectOk, hreturned] using hi

/-- An empty page with a token and then one event: it is handed over, and nothing is invoked. -/
theorem collect_hands_over_second_page : ∃ s : State ℕ, s.collector = .returned ∧
    s.invoked = false ∧ (AllHanded s ∨ s.invoked = true) := by
  obtain ⟨s, hs, hp⟩ := exists_run_of_exec free_of_check (step 1) (initial : State ℕ)
    [.queryEvents (some ⟨[], some 4⟩), .isFull true, .queryEvents (some ⟨[7], none⟩), .isFull true,
      .startThread, .endCollect]
    (fun s => s.collector = .returned ∧ s.invoked = false) (by decide)
  obtain ⟨hreturned, hinvoked⟩ := of_decide_eq_true hp
  exact ⟨s, hreturned, hinvoked, collect_hands_over_or_invokes_again hs hreturned⟩

end ShimService.PollingGroup
