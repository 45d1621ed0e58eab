import Mathlib.Data.List.Basic
import Mathlib.Logic.Equiv.Defs

/-
  A block cipher in a mode that keeps lengths, as a permutation of the byte strings for each key and
  initialization vector, and the padding that makes a text whole blocks: n bytes of value n, from 1
  to the size of a block. Nothing is assumed of two keys, so a text may pass the padding check under
  a key it was not encrypted with. Under its own key it comes back (`decrypt_encrypt`).
-/

namespace AgriFi.PaddedCipher

variable {κ ι : Type} {b : Nat} {bytes : List UInt8}

structure Cipher (κ ι : Type) where
  blockSize : Nat
  positive : 0 < blockSize
  small : blockSize < 256
  perm : κ → ι → Equiv.Perm (List UInt8)
  length_perm : ∀ key iv bytes, (perm key iv bytes).length = bytes.length

/-- The bytes that are added. -/
def padding (b : Nat) (bytes : List UInt8) : Nat := b - bytes.length % b

def pad (b : Nat) (bytes : List UInt8) : List UInt8 :=
  bytes ++ List.replicate (padding b bytes) (UInt8.ofNat (padding b bytes))

def unpad (b : Nat) (bytes : List UInt8) : Option (List UInt8) := do
  let last ← bytes.getLast?
  if 1 ≤ last.toNat ∧ last.toNat ≤ b ∧ last.toNat ≤ bytes.length ∧
      bytes.drop (bytes.length - last.toNat) = List.replicate last.toNat last then
    some (bytes.take (bytes.length - last.toNat))
  else none

def Cipher.encrypt (cipher : Cipher κ ι) (key : κ) (iv : ι) (bytes : List UInt8) : List UInt8 :=
  cipher.perm key iv (pad cipher.blockSize bytes)

def Cipher.decrypt (cipher : Cipher κ ι) (key : κ) (iv : ι) (bytes : List UInt8) :
    Option (List UInt8) :=
  if bytes ≠ [] ∧ bytes.length % cipher.blockSize = 0 then
    unpad cipher.blockSize ((cipher.perm key iv).symm bytes)
  else none

theorem padding_pos (bytes : List UInt8) (hb : 0 < b) : 0 < padding b bytes :=
  Nat.sub_pos_of_lt (Nat.mod_lt _ hb)

theorem padding_le (b : Nat) (bytes : List UInt8) : padding b bytes ≤ b := Nat.sub_le _ _

theorem length_pad (b : Nat) (bytes : List UInt8) :
    (pad b bytes).length = bytes.length + padding b bytes := by
  unfold pad
  rw [List.length_append, List.length_replicate]

theorem length_pad_mod (hb : 0 < b) : (pad b bytes).length % b = 0 := by
  have hlt := Nat.mod_lt bytes.length hb
  have hsum : bytes.length + (b - bytes.length % b) = b * (bytes.length / b + 1) := by
    have hdiv := Nat.div_add_mod bytes.length b
    rw [Nat.mul_succ]
    omega
  rw [length_pad, padding, hsum, Nat.mul_mod_right]

theorem pad_ne_nil (hb : 0 < b) : pad b bytes ≠ [] := by
  intro hnil
  have hlength := congrArg List.length hnil
  rw [length_pad, List.length_nil] at hlength
  have := padding_pos bytes hb
  omega

theorem unpad_pad (hb : 0 < b) (hsmall : b < 256) : unpad b (pad b bytes) = some bytes := by
  have hpos := padding_pos bytes hb
  have hle := padding_le b bytes
  have hlength := length_pad b bytes
  have hlast : (pad b bytes).getLast? = some (UInt8.ofNat (padding b bytes)) := by
    unfold pad
    rw [List.getLast?_append, List.getLast?_replicate, if_neg (Nat.pos_iff_ne_zero.mp hpos)]
    rfl
  have hvalue : (UInt8.ofNat (padding b bytes)).toNat = padding b bytes :=
    UInt8.toNat_ofNat_of_lt (Nat.lt_of_le_of_lt hle hsmall)
  have hkept : (pad b bytes).length - padding b bytes = bytes.length := by omega
  unfold unpad
  rw [hlast]
  show (if _ then _ else _) = _
  rw [hvalue, hkept, if_pos, pad, List.take_left]
  refine ⟨hpos, hle, by omega, ?_⟩
  rw [pad, List.drop_left]

theorem Cipher.decrypt_encrypt (cipher : Cipher κ ι) (key : κ) (iv : ι) (bytes : List UInt8) :
    cipher.decrypt key iv (cipher.encrypt key iv bytes) = some bytes := by
  have hlength := cipher.length_perm key iv (pad cipher.blockSize bytes)
  have hne : cipher.encrypt key iv bytes ≠ [] := by
    intro hnil
    have hzero : (pad cipher.blockSize bytes).length = 0 := by
      rw [← hlength]
      exact congrArg List.length hnil
    exact pad_ne_nil cipher.positive (List.length_eq_zero_iff.mp hzero)
  unfold Cipher.decrypt
  rw [if_pos ⟨hne, hlength ▸ length_pad_mod cipher.positive⟩]
  unfold Cipher.encrypt
  rw [Equiv.symm_apply_apply]
  exact unpad_pad cipher.positive cipher.small

end AgriFi.PaddedCipher
