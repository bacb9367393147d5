import Mathlib.Data.List.Nodup

/-!
Parsers that take named entries out of a dictionary. What one returns is decided by the values under
its names, so it does not depend on the order of the entries.
-/
namespace Fields

variable {κ ν ε α β : Type} [DecidableEq κ]

/-- What is made of the entries, and the entries that are left. -/
abbrev Parser (κ ν ε α : Type) := List (κ × ν) → Except ε (α × List (κ × ν))

def without (names : List κ) (entries : List (κ × ν)) : List (κ × ν) :=
  entries.filter fun entry => entry.1 ∉ names

def valueOf (entries : List (κ × ν)) (name : κ) : Option ν := entries.lookup name

/-- The entries of some names are taken, and `check` tells what is made of their values. -/
structure Takes (p : Parser κ ν ε α) (names : List κ) (check : (κ → Option ν) → Except ε α) :
    Prop where
  run : ∀ entries, p entries = (check (valueOf entries)).map (·, without names entries)
  only : ∀ f g : κ → Option ν, (∀ name ∈ names, f name = g name) → check f = check g

/-- A parser that has to leave nothing. -/
def closed (p : Parser κ ν ε α) (unrecognized : List κ → ε) (entries : List (κ × ν)) :
    Except ε α := do
  let (a, rest) ← p entries
  if rest.length ≠ 0 then .error (unrecognized (rest.map Prod.fst)) else .ok a

variable {p : Parser κ ν ε α} {q : α → Parser κ ν ε β} {names names' : List κ}
  {check : (κ → Option ν) → Except ε α} {check' : α → (κ → Option ν) → Except ε β}
  {entries entries' : List (κ × ν)} {name : κ} {a : α} {e : ε} {unrecognized : List κ → ε}

theorem bind_eq_ok_iff {x : Except ε α} {f : α → Except ε β} {b : β} :
    (x >>= f) = .ok b ↔ ∃ a, x = .ok a ∧ f a = .ok b := by
  cases x <;> simp [Bind.bind, Except.bind]

theorem mapError_eq_ok_iff {ε' : Type} {x : Except ε α} {f : ε → ε'} :
    x.mapError f = .ok a ↔ x = .ok a := by
  cases x <;> simp [Except.mapError]

theorem valueOf_without_of_not_mem (h : name ∉ names) :
    valueOf (without names entries) name = valueOf entries name := by
  unfold valueOf without
  induction entries with
  | nil => rfl
  | cons entry entries ih =>
    by_cases hentry : entry.1 ∈ names
    · have hne : (name == entry.1) = false := beq_false_of_ne fun heq => h (heq ▸ hentry)
      rw [List.filter_cons_of_neg (by simpa using hentry), ih, List.lookup_cons, hne]
    · rw [List.filter_cons_of_pos (by simpa using hentry), List.lookup_cons, List.lookup_cons, ih]

theorem without_without :
    without names' (without names entries) = without (names ++ names') entries := by
  unfold without
  rw [List.filter_filter]
  refine List.filter_congr fun entry _ => ?_
  rw [Bool.eq_iff_iff]
  simp [and_comm]

theorem without_eq_nil_iff : without names entries = [] ↔ ∀ entry ∈ entries, entry.1 ∈ names := by
  simp [without]

/-- Where the entries have names of their own, their order does not matter. -/
theorem valueOf_perm (hperm : entries.Perm entries') (hnodup : (entries.map Prod.fst).Nodup) :
    valueOf entries = valueOf entries' := by
  funext name
  unfold valueOf
  induction hperm with
  | nil => rfl
  | cons entry _ ih =>
    rw [List.lookup_cons, List.lookup_cons, ih (List.nodup_cons.mp hnodup).2]
  | swap first second entries =>
    have hne : second.1 ≠ first.1 := by
      intro heq
      simp [heq] at hnodup
    rw [List.lookup_cons, List.lookup_cons, List.lookup_cons, List.lookup_cons]
    by_cases hfirst : name = first.1
    · have hsecond : (name == second.1) = false :=
        beq_false_of_ne fun heq => hne (heq.symm.trans hfirst)
      rw [hsecond]
    · rw [beq_false_of_ne hfirst]
  | trans h _ ih ih' =>
    exact (ih hnodup).trans (ih' ((h.map Prod.fst).nodup_iff.mp hnodup))

namespace Takes

theorem pure : Takes (fun entries => .ok (a, entries) : Parser κ ν ε α) [] fun _ => .ok a :=
  ⟨fun entries => by simp [without, Except.map], fun _ _ _ => rfl⟩

/-- A parser that looks one name up and drops its entry. -/
theorem single {check : Option ν → Except ε α}
    (h : ∀ entries, p entries =
      (check (entries.lookup name)).map (·, entries.filter fun entry => entry.1 ≠ name)) :
    Takes p [name] fun f => check (f name) := by
  refine ⟨fun entries => ?_, fun f g hfg => by rw [hfg name List.mem_cons_self]⟩
  rw [h entries]
  simp only [without, valueOf, List.mem_singleton]

/-- The second parser does not see what the first has taken. -/
theorem bind (hp : Takes p names check) (hq : ∀ a, Takes (q a) names' (check' a))
    (hdisjoint : ∀ name ∈ names', name ∉ names) :
    Takes (fun entries => do let (a, entries) ← p entries; q a entries) (names ++ names')
      (fun f => do let a ← check f; check' a f) := by
  refine ⟨fun entries => ?_, fun f g hfg => ?_⟩
  · show (p entries >>= fun x => q x.1 x.2) = _
    rw [hp.run entries]
    cases hcheck : check (valueOf entries) with
    | error e => rfl
    | ok a =>
      have hsame : check' a (valueOf (without names entries)) = check' a (valueOf entries) :=
        (hq a).only _ _ fun name hname => valueOf_without_of_not_mem (hdisjoint name hname)
      show q a (without names entries) = _
      rw [(hq a).run, hsame, without_without]
      rfl
  · have hcheck : check f = check g :=
      hp.only f g fun name hname => hfg name (List.mem_append_left _ hname)
    have hcheck' (a : α) : check' a f = check' a g :=
      (hq a).only f g fun name hname => hfg name (List.mem_append_right _ hname)
    simp only [hcheck, hcheck']

/-- What is returned may be made into something else. -/
theorem map (hp : Takes p names check) (g : α → Except ε β) :
    Takes (fun entries => do let (a, entries) ← p entries; let b ← g a; return (b, entries)) names
      (fun f => do let a ← check f; g a) := by
  refine ⟨fun entries => ?_, fun f g' hfg => by simp only [hp.only f g' hfg]⟩
  show (p entries >>= fun x => g x.1 >>= fun b => Pure.pure (b, x.2)) = _
  rw [hp.run entries]
  cases hcheck : check (valueOf entries) with
  | error e => rfl
  | ok a =>
    show (g a >>= fun b => Pure.pure (b, without names entries)) =
      (g a).map (·, without names entries)
    cases g a <;> rfl

/-- What is returned may be checked. -/
theorem guard (hp : Takes p names check) (g : α → Except ε Unit) :
    Takes (fun entries => do let (a, entries) ← p entries; g a; return (a, entries)) names
      (fun f => do let a ← check f; g a; return a) := by
  refine ⟨fun entries => ?_, fun f g' hfg => by simp only [hp.only f g' hfg]⟩
  show (p entries >>= fun x => g x.1 >>= fun _ => Pure.pure (x.1, x.2)) = _
  rw [hp.run entries]
  cases hcheck : check (valueOf entries) with
  | error e => rfl
  | ok a =>
    show (g a >>= fun _ => Pure.pure (a, without names entries)) =
      (g a >>= fun _ => Pure.pure a).map (·, without names entries)
    cases g a <;> rfl

/-- Something may be computed first that does not see the entries. -/
theorem after {x : Except ε α} (hq : ∀ a, Takes (q a) names (check' a)) :
    Takes (fun entries => do let a ← x; q a entries) names
      (fun f => do let a ← x; check' a f) := by
  refine ⟨fun entries => ?_, fun f g hfg => by simp only [(hq _).only f g hfg]⟩
  cases x with
  | error e => rfl
  | ok a => exact (hq a).run entries

theorem mapError {ε' : Type} (hp : Takes p names check) (f : ε → ε') :
    Takes (fun entries => (p entries).mapError f) names fun g => (check g).mapError f := by
  refine ⟨fun entries => ?_, fun g g' hg => by simp only [hp.only g g' hg]⟩
  rw [hp.run entries]
  cases check (valueOf entries) <;> rfl

variable (hp : Takes p names check)
include hp

theorem closed_eq : closed p unrecognized entries = (check (valueOf entries)).bind fun a =>
    if without names entries = [] then .ok a
    else .error (unrecognized ((without names entries).map Prod.fst)) := by
  unfold closed
  rw [hp.run entries]
  cases check (valueOf entries) with
  | error e => rfl
  | ok a =>
    show (if (without names entries).length ≠ 0 then _ else _) = ite _ _ _
    by_cases hnil : without names entries = []
    · rw [if_pos hnil, if_neg (by simp [hnil])]
    · rw [if_neg hnil, if_pos (by simpa using hnil)]

/-- Accepted are the dictionaries with good values and with no other names. -/
theorem closed_eq_ok_iff : closed p unrecognized entries = .ok a ↔
    check (valueOf entries) = .ok a ∧ ∀ entry ∈ entries, entry.1 ∈ names := by
  rw [hp.closed_eq, ← without_eq_nil_iff]
  cases check (valueOf entries) with
  | error e => simp [Except.bind]
  | ok b =>
    by_cases hnil : without names entries = [] <;> simp [Except.bind, hnil]

/-- Only the list of the names that are left over follows the order of the entries. -/
theorem closed_perm (hperm : entries.Perm entries') (hnodup : (entries.map Prod.fst).Nodup) :
    closed p unrecognized entries = closed p unrecognized entries' ∨
      ∃ left left' : List κ, left.Perm left' ∧
        closed p unrecognized entries = .error (unrecognized left) ∧
        closed p unrecognized entries' = .error (unrecognized left') := by
  have hleft : (without names entries).Perm (without names entries') := hperm.filter _
  rw [hp.closed_eq, hp.closed_eq, valueOf_perm hperm hnodup]
  cases check (valueOf entries') with
  | error e => exact .inl rfl
  | ok a =>
    by_cases hnil : without names entries = []
    · have hnil' : without names entries' = [] := (hnil ▸ hleft).nil_eq.symm
      exact .inl (by simp [Except.bind, hnil, hnil'])
    · have hnil' : without names entries' ≠ [] := fun h => hnil (h ▸ hleft).eq_nil
      exact .inr ⟨_, _, hleft.map Prod.fst, by simp [Except.bind, hnil],
        by simp [Except.bind, hnil']⟩

end Takes

end Fields
