import Mathlib.Data.Option.Basic

/-! `flat_iterator`: the objects that a transformer makes of each object of a source, in turn. -/
namespace ShimService.Collections

variable {τ ω : Type*}

/-- `__TransformerIterator`, whose source and list being emptied are what is left of them. -/
structure TransformerIterator (τ ω : Type*) where
  source : List τ
  transformed : Option (List ω)

inductive Next (τ ω : Type*)
  | yields (obj : ω) (rest : TransformerIterator τ ω)
  | stops
  | raises

/-- `flat_iterator` and its `__iter__`. -/
def flatIterator (source : List τ) : TransformerIterator τ ω := ⟨source, none⟩

/-- `__next__`; a transformer that raises is `none`. -/
def next (transformer : τ → Option (List ω)) : List τ → Option (List ω) → Next τ ω
  | source, some (obj :: rest) => .yields obj ⟨source, some rest⟩
  | [], _ => .stops
  | x :: source, _ =>
    match transformer x with
    | none => .raises
    | some objs => next transformer source (some objs)

def TransformerIterator.next (it : TransformerIterator τ ω)
    (transformer : τ → Option (List ω)) : Next τ ω :=
  Collections.next transformer it.source it.transformed

/-- What a loop over the iterator is given. -/
inductive Yields (transformer : τ → Option (List ω)) : TransformerIterator τ ω → List ω → Prop
  | stops {it : TransformerIterator τ ω} (h : it.next transformer = .stops) :
      Yields transformer it []
  | yields {it rest : TransformerIterator τ ω} {obj : ω} {objs : List ω}
      (h : it.next transformer = .yields obj rest) (hrest : Yields transformer rest objs) :
      Yields transformer it (obj :: objs)

variable {transformer : τ → Option (List ω)} {it : TransformerIterator τ ω} {objs : List ω}

/-- All that an iterator over a source that the transformer accepts has left. -/
def TransformerIterator.Left (transformer : τ → Option (List ω)) (it : TransformerIterator τ ω)
    (objs : List ω) : Prop :=
  ∃ lists, it.source.mapM transformer = some lists ∧
    it.transformed.getD [] ++ lists.flatten = objs

theorem getD_of_exhausted {transformed : Option (List ω)}
    (h : ∀ obj rest, transformed = some (obj :: rest) → False) : transformed.getD [] = [] := by
  cases transformed with
  | none => rfl
  | some objs =>
    cases objs with
    | nil => rfl
    | cons obj rest => exact (h obj rest rfl).elim

theorem next_of_left (h : it.Left transformer objs) :
    (objs = [] ∧ it.next transformer = .stops) ∨
    ∃ obj rest it', objs = obj :: rest ∧ it.next transformer = .yields obj it' ∧
      it'.Left transformer rest := by
  obtain ⟨source, transformed⟩ := it
  obtain ⟨lists, hlists, hobjs⟩ := h
  simp only [TransformerIterator.next] at hlists hobjs ⊢
  induction source, transformed using next.induct transformer generalizing lists with
  | case1 source obj rest => exact .inr ⟨obj, _, _, hobjs.symm, by rw [next], lists, hlists, rfl⟩
  | case2 transformed hexhausted =>
    obtain rfl : [] = lists := by simpa using hlists
    rw [getD_of_exhausted hexhausted] at hobjs
    exact .inl ⟨hobjs.symm, by rw [next]; exact hexhausted⟩
  | case3 x source transformed hexhausted hraises => simp [List.mapM_cons, hraises] at hlists
  | case4 x source transformed hexhausted objs' hx ih =>
    rw [List.mapM_cons, hx] at hlists
    obtain ⟨made, hmade, hlists⟩ := Option.bind_eq_some_iff.mp hlists
    obtain ⟨others, hothers, hlists⟩ := Option.bind_eq_some_iff.mp hlists
    obtain rfl := Option.some.inj hmade
    obtain rfl := Option.some.inj hlists
    rw [getD_of_exhausted hexhausted] at hobjs
    have hnext : next transformer (x :: source) transformed =
        next transformer source (some objs') := by
      rw [next, hx]
      exact hexhausted
    rw [hnext]
    exact ih others hothers hobjs

/-- A loop is given what is left, and nothing else. -/
theorem yields_iff (h : it.Left transformer objs) {given : List ω} :
    Yields transformer it given ↔ given = objs := by
  constructor
  · intro hgiven
    induction hgiven generalizing objs with
    | stops hstops =>
      rcases next_of_left h with ⟨hnil, _⟩ | ⟨_, _, _, _, hyields, _⟩
      · exact hnil.symm
      · simp [hstops] at hyields
    | yields hyields _ ih =>
      rcases next_of_left h with ⟨_, hstops⟩ | ⟨_, rest, _, rfl, hnext, hrest⟩
      · simp [hstops] at hyields
      · rw [hyields] at hnext
        obtain ⟨rfl, rfl⟩ := Next.yields.inj hnext
        rw [ih hrest]
  · rintro rfl
    induction given generalizing it with
    | nil =>
      rcases next_of_left h with ⟨_, hstops⟩ | ⟨_, _, _, hcons, _⟩
      · exact .stops hstops
      · cases hcons
    | cons obj rest ih =>
      rcases next_of_left h with ⟨hnil, _⟩ | ⟨_, _, _, hcons, hnext, hrest⟩
      · cases hnil
      · obtain ⟨rfl, rfl⟩ := List.cons.inj hcons
        exact .yields hnext (ih hrest)

theorem flatIterator_left {source : List τ} {lists : List (List ω)}
    (h : source.mapM transformer = some lists) :
    (flatIterator source).Left transformer lists.flatten :=
  ⟨lists, h, rfl⟩

end ShimService.Collections
