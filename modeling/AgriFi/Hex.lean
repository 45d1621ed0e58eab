import Mathlib.Data.List.Basic
import Mathlib.Tactic.IntervalCases

/-
  Bytes as hexadecimal text: two digits a byte, the high half first, in lower case. Reading takes
  both cases and stops at the first pair that is not two digits. What was written reads back
  (`decode_encode`).
-/

namespace AgriFi.Hex

variable {bytes : List UInt8} {n : Nat} {c : Char}

def digit (n : Nat) : Char :=
  if n < 10 then Char.ofNat (48 + n) else Char.ofNat (87 + n)

def value (c : Char) : Option Nat :=
  if '0' ≤ c ∧ c ≤ '9' then some (c.toNat - 48)
  else if 'a' ≤ c ∧ c ≤ 'f' then some (c.toNat - 87)
  else if 'A' ≤ c ∧ c ≤ 'F' then some (c.toNat - 55)
  else none

def encode (bytes : List UInt8) : List Char :=
  bytes.flatMap fun b => [digit (b.toNat / 16), digit (b.toNat % 16)]

def decode : List Char → List UInt8
  | high :: low :: rest =>
    match value high, value low with
    | some x, some y => UInt8.ofNat (16 * x + y) :: decode rest
    | _, _ => []
  | _ => []

theorem value_digit (h : n < 16) : value (digit n) = some n := by
  interval_cases n <;> decide

theorem decode_encode (bytes : List UInt8) : decode (encode bytes) = bytes := by
  induction bytes with
  | nil => rfl
  | cons b bytes ih =>
    have hhigh : b.toNat / 16 < 16 := by
      have := b.toNat_lt
      omega
    have hlow : b.toNat % 16 < 16 := Nat.mod_lt _ (by decide)
    show decode (digit _ :: digit _ :: encode bytes) = b :: bytes
    simp only [decode, value_digit hhigh, value_digit hlow, ih, Nat.div_add_mod, UInt8.ofNat_toNat]

theorem length_encode (bytes : List UInt8) : (encode bytes).length = 2 * bytes.length := by
  induction bytes with
  | nil => rfl
  | cons b bytes ih =>
    show (digit _ :: digit _ :: encode bytes).length = _
    rw [List.length_cons, List.length_cons, ih, List.length_cons]
    omega

theorem isSome_value_of_mem (h : c ∈ encode bytes) : (value c).isSome := by
  unfold encode at h
  obtain ⟨b, -, hc⟩ := List.mem_flatMap.mp h
  have hhigh : b.toNat / 16 < 16 := by
    have := b.toNat_lt
    omega
  have hlow : b.toNat % 16 < 16 := Nat.mod_lt _ (by decide)
  rcases List.mem_pair.mp hc with rfl | rfl
  · rw [value_digit hhigh]
    rfl
  · rw [value_digit hlow]
    rfl

theorem not_mem_encode (h : value c = none) : c ∉ encode bytes := by
  intro hc
  have hsome := isSome_value_of_mem hc
  rw [h] at hsome
  cases hsome

end AgriFi.Hex
