import AgriFi.JsValue
import Mathlib.Data.Nat.Digits.Defs
import Mathlib.Data.Nat.Log

/-
  `Number.prototype.toString`: the shortest decimal digits that still round to the double, written
  plainly between `1e-6` and `1e21` and with an exponent outside. The text of a number consists of
  digits, signs, a point, an `e` and the letters of `NaN` and `Infinity` (`isPlain_toText`).
-/

namespace AgriFi.JsValue.Number

open AgriFi.Binary64

/-- `n` with `10 ^ (n - 1) ≤ x < 10 ^ n`, for a positive `x`. -/
def decimalExponent (x : Rat) : Int :=
  if 1 ≤ x then Nat.log 10 ⌊x⌋₊ + 1 else -(Nat.log 10 (⌈1 / x⌉₊ - 1) : Int)

/-- The nearest number of `k` digits to a positive `x`, with its exponent. -/
def nearestDigits (x : Rat) (k : Nat) : Nat × Int :=
  let n := decimalExponent x
  let s := ⌊x / 10 ^ (n - k) + 1 / 2⌋₊
  if s = 10 ^ k then (10 ^ (k - 1), n + 1) else (s, n)

/-- The digits `s` and the exponent `n` of the shortest decimal that rounds to `x`; seventeen
    digits always do. -/
def shortestDigits (x : Rat) (k : Nat) : Nat → Nat × Int
  | 0 => nearestDigits x k
  | fuel + 1 =>
    let (s, n) := nearestDigits x k
    if toDouble (s * 10 ^ (n - k)) = x then (s, n) else shortestDigits x (k + 1) fuel

def digitChar (n : Nat) : Char := Char.ofNat (48 + n % 10)

/-- The decimal digits of a natural number. -/
def digitsOf (n : Nat) : List Char :=
  if n = 0 then ['0'] else (Nat.digits 10 n).reverse.map digitChar

/-- The digits `ds` of a number below `10 ^ n`. -/
def layout (ds : List Char) (n : Int) : List Char :=
  let k := ds.length
  if k ≤ n ∧ n ≤ 21 then ds ++ List.replicate (n.toNat - k) '0'
  else if 0 < n ∧ n ≤ 21 then ds.take n.toNat ++ ['.'] ++ ds.drop n.toNat
  else if -6 < n ∧ n ≤ 0 then ['0', '.'] ++ List.replicate (-n).toNat '0' ++ ds
  else
    let mantissa := if k = 1 then ds else ds.take 1 ++ ['.'] ++ ds.drop 1
    mantissa ++ ['e', if 0 < n then '+' else '-'] ++ digitsOf (n - 1).natAbs

/-- The text of a positive double. -/
def positiveText (x : Rat) : List Char :=
  let (s, n) := shortestDigits x 1 16
  layout (digitsOf s) n

def toText : Number → List Char
  | .nan => "NaN".toList
  | .infinity negative => (if negative then ['-'] else []) ++ "Infinity".toList
  | .finite q =>
    if q = 0 then ['0'] else if q < 0 then '-' :: positiveText (-q) else positiveText q

/-- `JSON.stringify` of a number. -/
def jsonText : Number → List Char
  | .finite q => toText (.finite q)
  | .nan | .infinity _ => "null".toList

/-! ## The characters of a number -/

/-- A letter, a digit, a sign or a point. -/
def IsPlain (c : Char) : Prop := c.isAlphanum ∨ c = '.' ∨ c = '+' ∨ c = '-'

theorem isPlain_of_isAlphanum {c : Char} (h : c.isAlphanum) : IsPlain c := .inl h

theorem isPlain_digitChar (n : Nat) : IsPlain (digitChar n) := by
  have hall : ∀ k < 10, (Char.ofNat (48 + k)).isAlphanum := by decide
  exact isPlain_of_isAlphanum (hall _ (Nat.mod_lt _ (by decide)))

theorem isPlain_digitsOf {n : Nat} {c : Char} (h : c ∈ digitsOf n) : IsPlain c := by
  unfold digitsOf at h
  split at h
  · rw [List.mem_singleton.mp h]
    exact .inl (by decide)
  · obtain ⟨d, -, rfl⟩ := List.mem_map.mp h
    exact isPlain_digitChar d

theorem isPlain_layout {ds : List Char} (hds : ∀ c ∈ ds, IsPlain c) (n : Int) {c : Char}
    (h : c ∈ layout ds n) : IsPlain c := by
  have hpoint : IsPlain '.' := .inr (.inl rfl)
  have hzero : IsPlain '0' := .inl (by decide)
  unfold layout at h
  dsimp only at h
  split at h
  · cases List.mem_append.mp h with
    | inl h => exact hds c h
    | inr h => exact List.eq_of_mem_replicate h ▸ hzero
  split at h
  · simp only [List.append_assoc, List.mem_append, List.mem_singleton] at h
    rcases h with h | rfl | h
    · exact hds c (List.mem_of_mem_take h)
    · exact hpoint
    · exact hds c (List.mem_of_mem_drop h)
  split at h
  · simp only [List.mem_append, List.mem_cons, List.not_mem_nil, or_false] at h
    rcases h with ((rfl | rfl) | h) | h
    · exact hzero
    · exact hpoint
    · exact List.eq_of_mem_replicate h ▸ hzero
    · exact hds c h
  · -- with an exponent
    simp only [List.mem_append, List.mem_cons, List.not_mem_nil, or_false] at h
    rcases h with (h | rfl | rfl) | h
    · split at h
      · exact hds c h
      · simp only [List.mem_append, List.mem_singleton] at h
        rcases h with (h | rfl) | h
        · exact hds c (List.mem_of_mem_take h)
        · exact hpoint
        · exact hds c (List.mem_of_mem_drop h)
    · exact .inl (by decide)
    · split
      · exact .inr (.inr (.inl rfl))
      · exact .inr (.inr (.inr rfl))
    · exact isPlain_digitsOf h

theorem isPlain_positiveText {x : Rat} {c : Char} (h : c ∈ positiveText x) : IsPlain c :=
  isPlain_layout (fun _ => isPlain_digitsOf) _ h

theorem isPlain_toText {n : Number} {c : Char} (h : c ∈ toText n) : IsPlain c := by
  have hminus : IsPlain '-' := .inr (.inr (.inr rfl))
  cases n with
  | nan =>
    have hall : "NaN".toList.all Char.isAlphanum := by decide
    exact .inl (List.all_eq_true.mp hall c h)
  | infinity negative =>
    have hall : "Infinity".toList.all Char.isAlphanum := by decide
    cases List.mem_append.mp h with
    | inl h =>
      split at h
      · rw [List.mem_singleton.mp h]
        exact hminus
      · cases h
    | inr h => exact .inl (List.all_eq_true.mp hall c h)
  | finite q =>
    rw [toText] at h
    split at h
    · rw [List.mem_singleton.mp h]
      exact .inl (by decide)
    split at h
    · cases List.mem_cons.mp h with
      | inl h => exact h ▸ hminus
      | inr h => exact isPlain_positiveText h
    · exact isPlain_positiveText h

/-- No plain character is a colon. -/
theorem IsPlain.ne_colon {c : Char} (h : IsPlain c) : c ≠ ':' := by
  rintro rfl
  revert h
  unfold IsPlain
  decide

/-- A plain character is one byte. -/
theorem IsPlain.utf8Size {c : Char} (h : IsPlain c) : c.utf8Size = 1 := by
  rw [Char.utf8Size_eq_one_iff]
  rcases h with h | rfl | rfl | rfl
  · delta Char.isAlphanum Char.isAlpha Char.isUpper Char.isLower Char.isDigit at h
    simp only [Bool.or_eq_true, Bool.and_eq_true, decide_eq_true_eq, UInt32.le_iff_toNat_le] at h
    rw [UInt32.le_iff_toNat_le]
    simp at h ⊢
    omega
  all_goals decide

end AgriFi.JsValue.Number
