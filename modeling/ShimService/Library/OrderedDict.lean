import Mathlib.Data.List.Nodup
import Mathlib.Order.Lattice

/-!
Dictionaries that keep their entries in the order in which the keys were added, and the entry that
a comparison with exceptions finds to be the least.
-/

@[ext]
structure OrderedDict (κ ν : Type*) where
  entries : List (κ × ν)
  nodup : (entries.map Prod.fst).Nodup

namespace OrderedDict

variable {κ ν μ : Type*}

def keys (d : OrderedDict κ ν) : List κ := d.entries.map Prod.fst

def size (d : OrderedDict κ ν) : ℕ := d.entries.length

def empty : OrderedDict κ ν := ⟨[], List.nodup_nil⟩

@[simp] theorem size_empty : (empty : OrderedDict κ ν).size = 0 := rfl

variable [DecidableEq κ] {d : OrderedDict κ ν} {k j : κ} {v w : ν}

def find (d : OrderedDict κ ν) (k : κ) : Option ν := d.entries.lookup k

theorem keys_overwrite (entries : List (κ × ν)) :
    (entries.map fun entry => if entry.1 = k then (k, v) else entry).map Prod.fst =
      entries.map Prod.fst := by
  rw [List.map_map]
  refine List.map_congr_left fun entry _ => ?_
  rw [Function.comp_apply]
  split
  · rename_i heq
    exact heq.symm
  · rfl

/-- An overwritten entry keeps its place. -/
def set (d : OrderedDict κ ν) (k : κ) (v : ν) : OrderedDict κ ν where
  entries :=
    if k ∈ d.keys then d.entries.map fun entry => if entry.1 = k then (k, v) else entry
    else d.entries ++ [(k, v)]
  nodup := by
    split
    · rw [keys_overwrite]
      exact d.nodup
    · rename_i hk
      rw [List.map_append, List.nodup_append]
      refine ⟨d.nodup, List.nodup_singleton _, ?_⟩
      rintro a ha b hb rfl
      obtain rfl : a = k := by simpa using hb
      exact hk ha

def erase (d : OrderedDict κ ν) (k : κ) : OrderedDict κ ν where
  entries := d.entries.filter fun entry => entry.1 ≠ k
  nodup := d.nodup.sublist (List.filter_sublist.map Prod.fst)

@[simp] theorem find_empty : (empty : OrderedDict κ ν).find k = none := rfl

theorem mem_entries_iff : (k, v) ∈ d.entries ↔ d.find k = some v := by
  obtain ⟨entries, hnodup⟩ := d
  change (k, v) ∈ entries ↔ entries.lookup k = some v
  induction entries with
  | nil => simp
  | cons entry entries ih =>
    obtain ⟨k', v'⟩ := entry
    rw [List.map_cons, List.nodup_cons] at hnodup
    rw [List.mem_cons, ih hnodup.2, List.lookup_cons]
    by_cases hk : k = k'
    · subst hk
      have hnot : entries.lookup k ≠ some v := fun h =>
        hnodup.1 (List.mem_map.mpr ⟨_, (ih hnodup.2).mpr h, rfl⟩)
      simp [hnot, @eq_comm _ v]
    · have hbeq : (k == k') = false := beq_false_of_ne hk
      simp [hk, hbeq]

theorem mem_keys_iff : k ∈ d.keys ↔ ∃ v, d.find k = some v := by
  simp only [keys, List.mem_map, Prod.exists, exists_and_right, exists_eq_right, mem_entries_iff]

theorem find_eq_none_iff : d.find k = none ↔ k ∉ d.keys := by
  rw [mem_keys_iff, Option.eq_none_iff_forall_ne_some, not_exists]

theorem find_set : (d.set k v).find j = if j = k then some v else d.find j := by
  refine Option.ext fun w => ?_
  rw [← mem_entries_iff]
  unfold set
  split
  · rename_i hmem
    obtain ⟨old, hold⟩ := mem_keys_iff.mp hmem
    split
    · rename_i hj
      subst hj
      constructor
      · intro h
        obtain ⟨entry, _, heq⟩ := List.mem_map.mp h
        split at heq
        · simpa using congrArg Prod.snd heq
        · rename_i hne
          exact absurd (congrArg Prod.fst heq) hne
      · rintro ⟨⟩
        exact List.mem_map.mpr ⟨(j, old), mem_entries_iff.mpr hold, if_pos rfl⟩
    · rename_i hj
      rw [← mem_entries_iff]
      constructor
      · intro h
        obtain ⟨entry, hentry, heq⟩ := List.mem_map.mp h
        split at heq
        · exact absurd (congrArg Prod.fst heq).symm hj
        · exact heq ▸ hentry
      · intro h
        exact List.mem_map.mpr ⟨(j, w), h, if_neg hj⟩
  · rename_i hmem
    rw [List.mem_append, mem_entries_iff, List.mem_singleton, Prod.mk.injEq]
    split
    · rename_i hj
      subst hj
      simp [find_eq_none_iff.mpr hmem, @eq_comm _ w]
    · rename_i hj
      simp [hj]

theorem find_erase : (d.erase k).find j = if j = k then none else d.find j := by
  refine Option.ext fun w => ?_
  rw [← mem_entries_iff, erase, List.mem_filter, mem_entries_iff]
  split
  · rename_i hj
    simp [hj]
  · rename_i hj
    simp [hj]

theorem erase_of_not_mem (h : k ∉ d.keys) : d.erase k = d := by
  refine OrderedDict.ext (List.filter_eq_self.mpr fun entry hentry => ?_)
  have hne : entry.1 ≠ k := fun heq => h (heq ▸ List.mem_map_of_mem hentry)
  simpa using hne

theorem keys_set_of_mem (h : k ∈ d.keys) : (d.set k v).keys = d.keys := by
  have hentries : (d.set k v).entries =
      d.entries.map fun entry => if entry.1 = k then (k, v) else entry := if_pos h
  rw [keys, hentries]
  exact keys_overwrite d.entries

theorem entries_set_of_not_mem (h : k ∉ d.keys) : (d.set k v).entries = d.entries ++ [(k, v)] :=
  if_neg h

theorem keys_set_of_not_mem (h : k ∉ d.keys) : (d.set k v).keys = d.keys ++ [k] := by
  rw [keys, entries_set_of_not_mem h, List.map_append]
  rfl

theorem find_foldl_set {value : κ → ν} (ks : List κ) (d : OrderedDict κ ν) :
    (ks.foldl (fun d k => d.set k (value k)) d).find j =
      if j ∈ ks then some (value j) else d.find j := by
  induction ks generalizing d with
  | nil => simp
  | cons k ks ih =>
    rw [List.foldl_cons, ih, find_set]
    by_cases hmem : j ∈ ks
    · rw [if_pos hmem, if_pos (List.mem_cons_of_mem k hmem)]
    · by_cases hj : j = k
      · subst hj
        rw [if_neg hmem, if_pos rfl, if_pos List.mem_cons_self]
      · rw [if_neg hmem, if_neg hj, if_neg (by simp [hj, hmem])]

theorem size_set_of_mem (h : k ∈ d.keys) : (d.set k v).size = d.size := by
  simp [size, set, h]

theorem size_set_of_not_mem (h : k ∉ d.keys) : (d.set k v).size = d.size + 1 := by
  simp [size, set, h]

theorem size_set_le : (d.set k v).size ≤ d.size + 1 := by
  by_cases h : k ∈ d.keys
  · rw [size_set_of_mem h]
    exact Nat.le_succ _
  · exact Nat.le_of_eq (size_set_of_not_mem h)

theorem size_erase_le : (d.erase k).size ≤ d.size := List.length_filter_le _ _

theorem size_erase_lt (h : k ∈ d.keys) : (d.erase k).size < d.size := by
  obtain ⟨v, hv⟩ := mem_keys_iff.mp h
  refine List.length_filter_lt_length_iff_exists.mpr ⟨(k, v), mem_entries_iff.mpr hv, ?_⟩
  simp

/-- The first of the entries that a comparison `lt` with exceptions finds no other one less than,
each being compared with the least so far. -/
def leastFrom (lt : ν → ν → Option Bool) (least : κ × ν) : List (κ × ν) → Option (κ × ν)
  | [] => some least
  | entry :: entries =>
    match lt entry.2 least.2 with
    | none => none
    | some true => leastFrom lt entry entries
    | some false => leastFrom lt least entries

def least (lt : ν → ν → Option Bool) (d : OrderedDict κ ν) : Option (κ × ν) :=
  match d.entries with
  | [] => none
  | entry :: entries => leastFrom lt entry entries

variable {lt : ν → ν → Option Bool} {first entry : κ × ν} {entries : List (κ × ν)}

omit [DecidableEq κ] in
theorem leastFrom_mem (h : leastFrom lt first entries = some entry) :
    entry ∈ first :: entries := by
  induction entries generalizing first with
  | nil =>
    obtain rfl : first = entry := by simpa [leastFrom] using h
    exact List.mem_cons_self
  | cons next entries ih =>
    unfold leastFrom at h
    split at h
    · cases h
    · exact List.mem_cons_of_mem _ (ih h)
    · rcases List.mem_cons.mp (ih h) with rfl | hmem
      · exact List.mem_cons_self
      · exact List.mem_cons_of_mem _ (List.mem_cons_of_mem _ hmem)

theorem least_find (h : d.least lt = some entry) : d.find entry.1 = some entry.2 := by
  rw [← mem_entries_iff]
  unfold least at h
  split at h
  · cases h
  · rename_i hentries
    rw [hentries]
    exact leastFrom_mem h

omit [DecidableEq κ] in
/-- A comparison by a linearly ordered part of the values finds a least entry. -/
theorem leastFrom_linear {τ : Type*} [LinearOrder τ] (f : ν → τ) (first : κ × ν)
    (entries : List (κ × ν)) :
    ∃ entry, leastFrom (fun v w => some (decide (f v < f w))) first entries = some entry ∧
      ∀ other ∈ first :: entries, f entry.2 ≤ f other.2 := by
  induction entries generalizing first with
  | nil => exact ⟨first, rfl, by simp⟩
  | cons next entries ih =>
    by_cases hlt : f next.2 < f first.2
    · obtain ⟨entry, heq, hle⟩ := ih next
      refine ⟨entry, by simpa [leastFrom, hlt] using heq, ?_⟩
      intro other hmem
      rcases List.mem_cons.mp hmem with rfl | hmem
      · exact (hle next List.mem_cons_self).trans hlt.le
      · exact hle other hmem
    · obtain ⟨entry, heq, hle⟩ := ih first
      refine ⟨entry, by simpa [leastFrom, hlt] using heq, ?_⟩
      intro other hmem
      rcases List.mem_cons.mp hmem with rfl | hmem
      · exact hle _ List.mem_cons_self
      · rcases List.mem_cons.mp hmem with rfl | hmem
        · exact (hle first List.mem_cons_self).trans (not_lt.mp hlt)
        · exact hle other (List.mem_cons_of_mem _ hmem)

theorem least_linear {τ : Type*} [LinearOrder τ] (f : ν → τ) (h : 0 < d.size) :
    ∃ entry, d.least (fun v w => some (decide (f v < f w))) = some entry ∧
      ∀ k v, d.find k = some v → f entry.2 ≤ f v := by
  unfold least
  split
  · rename_i hnil
    rw [size, hnil] at h
    exact absurd h (Nat.lt_irrefl 0)
  · rename_i first entries hcons
    obtain ⟨entry, heq, hle⟩ := leastFrom_linear f first entries
    refine ⟨entry, heq, fun k v hfind => hle (k, v) ?_⟩
    rw [← hcons]
    exact mem_entries_iff.mpr hfind

/-- An entry under a new key has taken the place of one whose part `f` is least, and of no
other. -/
def ReplacesLeast {τ : Type*} [LE τ] (f : ν → τ) (before : OrderedDict κ ν) (k : κ) (v : ν)
    (after : OrderedDict κ ν) : Prop :=
  ∃ victim old, before.find victim = some old ∧
    (∀ j w, before.find j = some w → f old ≤ f w) ∧
    ∀ j, after.find j = if j = k then some v else if j = victim then none else before.find j

theorem replacesLeast {τ : Type*} [LE τ] {f : ν → τ} (hentry : d.find entry.1 = some entry.2)
    (hleast : ∀ j w, d.find j = some w → f entry.2 ≤ f w) :
    d.ReplacesLeast f k v ((d.erase entry.1).set k v) := by
  refine ⟨entry.1, entry.2, hentry, hleast, fun j => ?_⟩
  rw [find_set, find_erase]

end OrderedDict
