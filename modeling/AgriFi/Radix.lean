import Mathlib.Data.Nat.Digits.Lemmas

/-
  Numerals with the highest digit first: the number that they stand for (`value`), and the numeral
  of a width for a number (`numeral`). Digits are below the base throughout.
-/

namespace AgriFi.Radix

variable {b : Nat}

/-- The number of a numeral, highest digit first. -/
def value (b : Nat) (ds : List Nat) : Nat := Nat.ofDigits b ds.reverse

/-- The numeral of `width` digits. -/
def numeral (b width n : Nat) : List Nat := (Nat.digitsAppend b width n).reverse

@[simp]
theorem value_nil : value b [] = 0 := rfl

theorem value_concat (ds : List Nat) (d : Nat) : value b (ds ++ [d]) = b * value b ds + d := by
  simp [value, Nat.ofDigits_cons, Nat.add_comm]

theorem value_append (ds es : List Nat) :
    value b (ds ++ es) = value b ds * b ^ es.length + value b es := by
  rw [value, List.reverse_append, Nat.ofDigits_append, List.length_reverse, Nat.mul_comm,
    Nat.add_comm]
  rfl

theorem value_cons (d : Nat) (ds : List Nat) :
    value b (d :: ds) = d * b ^ ds.length + value b ds := by
  rw [← List.singleton_append, value_append]
  simp [value]

theorem value_lt {ds : List Nat} (hb : 1 < b) (h : ∀ d ∈ ds, d < b) :
    value b ds < b ^ ds.length := by
  have hlt := Nat.ofDigits_lt_base_pow_length hb (l := ds.reverse) (by simpa using h)
  rwa [List.length_reverse] at hlt

/-- Numerals of one width with one value are equal. -/
theorem eq_of_value {ds es : List Nat} (hb : 1 < b) (hlen : ds.length = es.length)
    (hds : ∀ d ∈ ds, d < b) (hes : ∀ d ∈ es, d < b) (h : value b ds = value b es) : ds = es := by
  refine List.reverse_injective (Nat.ofDigits_inj_of_len_eq hb ?_ ?_ ?_ h)
  · simpa using hlen
  · simpa using hds
  · simpa using hes

section Numeral

variable {width n : Nat}

theorem length_numeral (hb : 1 < b) (hn : n < b ^ width) : (numeral b width n).length = width := by
  rw [numeral, List.length_reverse, Nat.length_digitsAppend hb width hn]

theorem numeral_lt (hb : 1 < b) : ∀ d ∈ numeral b width n, d < b := by
  intro d hd
  exact Nat.lt_of_mem_digitsAppend hb width d (List.mem_reverse.mp hd)

theorem value_numeral : value b (numeral b width n) = n := by
  rw [value, numeral, List.reverse_reverse, Nat.digitsAppend, Nat.ofDigits_append_replicate_zero,
    Nat.ofDigits_digits]

end Numeral

/-- A numeral without a leading zero is the numeral of its value. -/
theorem digits_value {d : Nat} {ds : List Nat} (hb : 1 < b) (h : ∀ x ∈ d :: ds, x < b)
    (hd : d ≠ 0) : (Nat.digits b (value b (d :: ds))).reverse = d :: ds := by
  rw [value, Nat.digits_ofDigits b hb _ (fun x hx => h x (List.mem_reverse.mp hx)),
    List.reverse_reverse]
  intro hne
  rwa [List.getLast_reverse]

end AgriFi.Radix
