import Mathlib.Order.WellFounded
import ShimService.Bean.Initialized

/-! Calls of `get_instance` do not wait for each other for ever. -/
namespace ShimService.BeanImpl

open Transition Once

variable {τ β ν : Type*} [DecidableEq τ] [DecidableEq β] [DecidableEq ν] {setup : Setup β}
  {s : State τ β ν} {t u : τ} {f g : Frame β ν} {rest : List (Frame β ν)} {b : β}
  {xs : List (τ × Choice β ν)}

/-- The call on top of a thread's stack has a next step. -/
def Moves (setup : Setup β) (s : State τ β ν) (u : τ) : Prop :=
  s.stack u ≠ [] ∧ ∃ choice, (∀ b, choice ≠ .gets b) ∧ (step setup s (u, choice)).isSome

omit [DecidableEq ν] in
theorem moves_of_frame (hs : s.stack t = f :: rest)
    (h : (nextFrame setup s t f rest .goes).isSome ∨ (nextFrame setup s t f rest .raises).isSome) :
    Moves setup s t := by
  refine ⟨by simp [hs], ?_⟩
  rcases h with h | h
  · exact ⟨.goes, by simp, by simpa [step, next, hs] using h⟩
  · exact ⟨.raises, by simp, by simpa [step, next, hs] using h⟩

/-- A call that cannot move waits for another thread, at the global mutex or at its bean's. -/
theorem Inv.moves_or_waits (h : Inv setup s) (hs : s.stack t = f :: rest) :
    Moves setup s t ∨ (f.pc = .acquiringGlobal ∧ ∃ u, s.globalMutex = some u) ∨
      (f.pc = .entering ∧ ∃ u, ∃ g ∈ s.stack u, g.bean = f.bean ∧ g.pc.inside = true) := by
  have htop := h.top hs
  cases hpc : f.pc with
  | acquiringGlobal =>
    cases hglobal : s.globalMutex with
    | none => exact .inl (moves_of_frame hs (.inl (by simp [nextFrame, hpc, hglobal])))
    | some u => exact .inr (.inl ⟨rfl, u, rfl⟩)
  | entering =>
    simp only [Frame.Ok, hpc] at htop
    cases hm : f.m with
    | none => exact .inl (moves_of_frame hs (.inl (by simp [nextFrame, hpc, hm])))
    | some m =>
      obtain rfl := htop.2.2 m hm
      cases hl : RLock.acquire (s.locks f.bean 0) t with
      | some l => exact .inl (moves_of_frame hs (.inl (by simp [nextFrame, hpc, hm, hl])))
      | none =>
        obtain ⟨u, -, hu⟩ := RLock.acquire_eq_none hl
        rw [h.lock, inSection, List.countP_pos_iff] at hu
        obtain ⟨g, hg, hgb⟩ := hu
        exact .inr (.inr ⟨rfl, u, g, hg, by simpa using hgb⟩)
  | asserting =>
    refine .inl (moves_of_frame hs (.inl ?_))
    cases hbusy : (s.bean f.bean).initInProgress <;> simp [nextFrame, hpc, hbusy]
  | calling => exact .inl (moves_of_frame hs (.inr (by simp [nextFrame, hpc])))
  | unmarking raised =>
    exact .inl (moves_of_frame hs (.inl (by cases raised <;> simp [nextFrame, hpc])))
  | clearing =>
    refine .inl (moves_of_frame hs (.inl ?_))
    cases hkeeps : setup.resettable <;> simp [nextFrame, hpc, hkeeps]
  | leaving raised =>
    have hm : f.m = some 0 := by
      simp only [Frame.Ok, hpc] at htop
      cases raised <;> exact htop.1
    exact .inl (moves_of_frame hs (.inl (by simp [nextFrame, hpc, hm])))
  | _ => exact .inl (moves_of_frame hs (.inl (by simp [nextFrame, hpc])))

theorem Inv.global_holder_moves (h : Inv setup s) (hu : s.globalMutex = some u) :
    Moves setup s u := by
  obtain ⟨g, hg, hglobal⟩ := (h.global u).mp hu
  cases hs : s.stack u with
  | nil => simp [hs] at hg
  | cons f rest =>
    have hf : f.pc.inGlobal = true := (h.global_iff hs).mp hu
    rcases h.moves_or_waits hs with hmoves | ⟨hpc, -⟩ | ⟨hpc, -⟩
    · exact hmoves
    · simp [hpc, Pc.inGlobal] at hf
    · simp [hpc, Pc.inGlobal] at hf

/-- A call in the section of its bean's mutex moves, or one above it for a bean that it needs
waits. -/
theorem Inv.inside_moves (h : Inv setup s) (hneeded : Needed setup s) (hg : g ∈ s.stack u)
    (hin : g.pc.inside = true) :
    Moves setup s u ∨ ∃ f rest, s.stack u = f :: rest ∧ Reaches setup g.bean f.bean := by
  cases hs : s.stack u with
  | nil => simp [hs] at hg
  | cons f rest =>
    rw [hs] at hg
    rcases List.mem_cons.mp hg with rfl | hg
    · rcases h.moves_or_waits hs with hmoves | ⟨hpc, -⟩ | ⟨hpc, -⟩
      · exact .inl hmoves
      · simp [hpc, Pc.inside] at hin
      · simp [hpc, Pc.inside] at hin
    · have hbeans := hneeded u
      rw [hs] at hbeans
      have hreaches := (List.pairwise_cons.mp hbeans).1 g.bean (List.mem_map_of_mem hg)
      exact .inr ⟨f, rest, rfl, hreaches⟩

/-- Where no bean needs itself, one of the calls of `get_instance` can move as long as there are
any. -/
theorem exists_moves (hacyclic : WellFounded fun c b => c ∈ setup.needs b)
    (h : Run (step setup) Free (initial : State τ β ν) xs s) (hcall : s.stack t ≠ []) :
    ∃ u, Moves setup s u := by
  have hi := inv_run h
  have hneeded := needed_run h
  have hreaches : WellFounded fun c b => Reaches setup b c := by
    have hswap : (fun c b => Reaches setup b c) =
        Relation.TransGen fun c b => c ∈ setup.needs b := by
      funext c b
      exact propext (Relation.transGen_swap (r := fun c b => c ∈ setup.needs b))
    exact hswap ▸ hacyclic.transGen
  -- by induction on the bean that the call on top is for
  have hbean : ∀ b t f rest, s.stack t = f :: rest → f.bean = b → ∃ u, Moves setup s u := by
    intro b
    induction b using hreaches.induction with
    | _ b ih =>
      rintro t f rest hs rfl
      rcases hi.moves_or_waits hs with hmoves | ⟨-, u, hu⟩ | ⟨-, u, g, hg, hgb, hin⟩
      · exact ⟨t, hmoves⟩
      · exact ⟨u, hi.global_holder_moves hu⟩
      · rcases hi.inside_moves hneeded hg hin with hmoves | ⟨f', rest', hs', hnext⟩
        · exact ⟨u, hmoves⟩
        · exact ih f'.bean (hgb ▸ hnext) u f' rest' hs' rfl
  cases hs : s.stack t with
  | nil => exact absurd hs hcall
  | cons f rest => exact hbean f.bean t f rest hs rfl

end ShimService.BeanImpl
