import Mathlib.Algebra.Group.Nat.Defs
import ShimService.Library.Text

/-!
The lexicographic order of strings, by code point, on numerals of one width and on joined fields.
-/
namespace Text

variable {s t : String} {d : Char} {m n w : ℕ} {fields fields' : List String}
  {cs ds xs ys : List Char}

/-- Where the fronts differ and are of one length, nothing after them matters. -/
theorem append_lt_append (hlen : cs.length = ds.length) (h : cs < ds) (xs ys : List Char) :
    cs ++ xs < ds ++ ys := by
  induction cs generalizing ds with
  | nil =>
    obtain rfl := List.eq_nil_of_length_eq_zero hlen.symm
    exact absurd h (List.lt_irrefl _)
  | cons c cs ih =>
    obtain ⟨e, ds, rfl⟩ := List.exists_cons_of_length_eq_add_one hlen.symm
    rcases List.cons_lt_cons_iff.mp h with hce | ⟨rfl, hrest⟩
    · exact List.cons_lt_cons_iff.mpr (.inl hce)
    · exact List.cons_lt_cons_iff.mpr (.inr ⟨rfl, ih (Nat.succ.inj hlen) hrest⟩)

theorem digit_toNat {c : Char} (h : c.isDigit = true) : 48 ≤ c.toNat ∧ c.toNat ≤ 57 := by
  simp only [Char.isDigit, Bool.and_eq_true, decide_eq_true_eq, ge_iff_le,
    UInt32.le_iff_toNat_le] at h
  exact h

theorem ofDigitChars_cons_eq {c : Char} : Nat.ofDigitChars 10 (c :: cs) 0 =
    10 ^ cs.length * (c.toNat - 48) + Nat.ofDigitChars 10 cs 0 := by
  rw [Nat.ofDigitChars_cons, Nat.ofDigitChars_eq_ofDigitChars_zero, Nat.mul_zero, Nat.zero_add]
  rfl

theorem ofDigitChars_lt (h : ∀ c ∈ cs, c.isDigit = true) :
    Nat.ofDigitChars 10 cs 0 < 10 ^ cs.length := by
  induction cs with
  | nil => simp
  | cons c cs ih =>
    have hrest := ih fun e he => h e (List.mem_cons_of_mem _ he)
    have hc := digit_toNat (h c List.mem_cons_self)
    have hmul : 10 ^ cs.length * (c.toNat - 48) ≤ 10 ^ cs.length * 9 :=
      Nat.mul_le_mul_left _ (by omega)
    rw [ofDigitChars_cons_eq, List.length_cons, Nat.pow_succ]
    omega

/-- A leading digit decides, and else the rest. -/
theorem mul_add_lt_iff {b p q v u : ℕ} (hv : v < b) (hu : u < b) :
    b * p + v < b * q + u ↔ p < q ∨ p = q ∧ v < u := by
  rcases Nat.lt_trichotomy p q with hlt | rfl | hgt
  · have hmul : b * (p + 1) ≤ b * q := Nat.mul_le_mul_left _ hlt
    rw [Nat.mul_add] at hmul
    omega
  · omega
  · have hmul : b * (q + 1) ≤ b * p := Nat.mul_le_mul_left _ hgt
    rw [Nat.mul_add] at hmul
    omega

/-- Numerals of one length are ordered as their values are. -/
theorem digits_lt_iff (hc : ∀ c ∈ cs, c.isDigit = true) (hd : ∀ d ∈ ds, d.isDigit = true)
    (hlen : cs.length = ds.length) :
    cs < ds ↔ Nat.ofDigitChars 10 cs 0 < Nat.ofDigitChars 10 ds 0 := by
  induction cs generalizing ds with
  | nil =>
    obtain rfl := List.eq_nil_of_length_eq_zero hlen.symm
    simp
  | cons c cs ih =>
    obtain ⟨e, ds, rfl⟩ := List.exists_cons_of_length_eq_add_one hlen.symm
    have hrestc : ∀ x ∈ cs, x.isDigit = true := fun x hx => hc x (List.mem_cons_of_mem _ hx)
    have hreste : ∀ x ∈ ds, x.isDigit = true := fun x hx => hd x (List.mem_cons_of_mem _ hx)
    have hlen' : cs.length = ds.length := Nat.succ.inj hlen
    have hcdigit := digit_toNat (hc c List.mem_cons_self)
    have hedigit := digit_toNat (hd e List.mem_cons_self)
    have hlt : c < e ↔ c.toNat - 48 < e.toNat - 48 := by
      rw [Char.lt_def, UInt32.lt_iff_toNat_lt]
      change c.toNat < e.toNat ↔ _
      omega
    have heq : c = e ↔ c.toNat - 48 = e.toNat - 48 := by
      rw [← Char.toNat_inj]
      omega
    rw [List.cons_lt_cons_iff, ofDigitChars_cons_eq, ofDigitChars_cons_eq, hlen',
      mul_add_lt_iff (hlen' ▸ ofDigitChars_lt hrestc) (ofDigitChars_lt hreste), hlt, heq,
      ih hrestc hreste hlen']

theorem rjust_digits (n w : ℕ) : ∀ c ∈ (rjust (toString n) w '0').toList, c.isDigit = true := by
  intro c hc
  rw [toList_rjust] at hc
  rcases List.mem_append.mp hc with hzero | hdigit
  · rw [List.eq_of_mem_replicate hzero]
    rfl
  · exact isDigit_toString hdigit

theorem length_rjust_toString (hw : 0 < w) (hn : n < 10 ^ w) :
    (rjust (toString n) w '0').toList.length = w := by
  have hle : n.repr.length ≤ w := (Nat.length_repr_le_iff hw).mpr hn
  rw [String.length_toList, length_rjust, Nat.toString_eq_repr]
  omega

theorem ofDigitChars_rjust (n w : ℕ) :
    Nat.ofDigitChars 10 (rjust (toString n) w '0').toList 0 = n := by
  rw [toList_rjust, Nat.ofDigitChars_append, Nat.ofDigitChars_replicate_zero, Nat.mul_zero,
    Nat.toString_eq_repr, Nat.toList_repr, Nat.ofDigitChars_ten_toDigits]

/-- Numerals padded to one width are ordered as their numbers are. -/
theorem rjust_lt_iff (hw : 0 < w) (hm : m < 10 ^ w) (hn : n < 10 ^ w) :
    rjust (toString m) w '0' < rjust (toString n) w '0' ↔ m < n := by
  have hlt := digits_lt_iff (rjust_digits m w) (rjust_digits n w)
    ((length_rjust_toString hw hm).trans (length_rjust_toString hw hn).symm)
  rwa [ofDigitChars_rjust, ofDigitChars_rjust] at hlt

/-- The first field decides where it is of one length in both. -/
theorem join_lt_join {field field' : String} (hlen : field.length = field'.length)
    (h : field < field') : join d (field :: s :: fields) < join d (field' :: t :: fields') := by
  change (join d (field :: s :: fields)).toList < (join d (field' :: t :: fields')).toList
  rw [toList_join_cons, toList_join_cons]
  exact append_lt_append (by rwa [String.length_toList, String.length_toList]) h _ _

/-- Equal first fields do not matter. -/
theorem join_cons_lt_join_cons {field : String} (h : join d (s :: fields) < join d (t :: fields')) :
    join d (field :: s :: fields) < join d (field :: t :: fields') := by
  change (join d (field :: s :: fields)).toList < (join d (field :: t :: fields')).toList
  rw [toList_join_cons, toList_join_cons]
  exact List.append_left_lt (List.cons_lt_cons_iff.mpr (.inr ⟨rfl, h⟩))

end Text
