import Mathlib.Data.List.Nodup

/-
  Bytes as Base64 text: three bytes make four digits of six bits, and a rest of one or two bytes
  is padded with `=`. Reading stops at the first character that is no digit. What was written
  reads back (`decode_encode`), and the text of whole groups of three bytes is the beginning of
  the text of all bytes (`encode_append`, `take_encode`).
-/

namespace AgriFi.Base64

def alphabet : List Char :=
  "ABCDEFGHIJKLMNOPQRSTUVWXYZabcdefghijklmnopqrstuvwxyz0123456789+/".toList

def digit (n : Nat) : Char := alphabet.getD n '='

def value (c : Char) : Option Nat := alphabet.idxOf? c

/-- The four digits of three bytes. -/
def group (a b c : UInt8) : List Char :=
  [digit (a.toNat / 4), digit (a.toNat % 4 * 16 + b.toNat / 16),
    digit (b.toNat % 16 * 4 + c.toNat / 64), digit (c.toNat % 64)]

def encode : List UInt8 → List Char
  | a :: b :: c :: bytes => group a b c ++ encode bytes
  | [a, b] => (group a b 0).take 3 ++ ['=']
  | [a] => (group a 0 0).take 2 ++ ['=', '=']
  | [] => []

/-- The values of the digits before the first character that is none. -/
def values : List Char → List Nat
  | [] => []
  | c :: text =>
    match value c with
    | some v => v :: values text
    | none => []

/-- The bytes that digits stand for; bits that make no whole byte are dropped. -/
def bytesOf : List Nat → List UInt8
  | w :: x :: y :: z :: rest =>
    UInt8.ofNat (w * 4 + x / 16) :: UInt8.ofNat (x * 16 + y / 4) :: UInt8.ofNat (y * 64 + z) ::
      bytesOf rest
  | [w, x, y] => [UInt8.ofNat (w * 4 + x / 16), UInt8.ofNat (x * 16 + y / 4)]
  | [w, x] => [UInt8.ofNat (w * 4 + x / 16)]
  | _ => []

def decode (text : List Char) : List UInt8 := bytesOf (values text)

/-! ## Reading back -/

theorem nodup_alphabet : alphabet.Nodup := by
  -- a literal is `String.ofList` of its characters, which are faster to decide about
  unfold alphabet
  rw [String.toList_ofList]
  exact .of_map Char.toNat (by decide)

theorem length_alphabet : alphabet.length = 64 := by
  unfold alphabet
  rw [String.toList_ofList]
  rfl

theorem value_digit {n : Nat} (h : n < 64) : value (digit n) = some n := by
  have hlt : n < alphabet.length := by rw [length_alphabet]; exact h
  have hget : digit n = alphabet[n] := (List.getElem_eq_getD _).symm
  refine List.findIdx?_eq_some_iff_getElem.mpr ⟨hlt, by rw [hget, beq_self_eq_true], fun j hj => ?_⟩
  rw [hget, Bool.not_eq_true, beq_eq_false_iff_ne]
  exact fun heq => Nat.ne_of_lt hj (nodup_alphabet.getElem_inj_iff.mp heq)

theorem values_cons {n : Nat} (h : n < 64) (text : List Char) :
    values (digit n :: text) = n :: values text := by
  rw [values, value_digit h]

theorem values_padding (text : List Char) : values ('=' :: text) = [] := by
  have hpad : value '=' = none := by
    unfold value alphabet
    rw [String.toList_ofList]
    decide
  rw [values, hpad]

theorem byte_eq {n : Nat} {b : UInt8} (h : n % 256 = b.toNat) : UInt8.ofNat n = b := by
  apply UInt8.toNat_inj.mp
  rw [UInt8.toNat_ofNat']
  exact h

theorem decode_encode (bytes : List UInt8) : decode (encode bytes) = bytes := by
  unfold decode
  induction bytes using encode.induct with
  | case1 a b c bytes ih =>
    have ha := a.toNat_lt
    have hb := b.toNat_lt
    have hc := c.toNat_lt
    rw [encode, group]
    simp only [List.cons_append, List.nil_append]
    rw [values_cons (by omega), values_cons (by omega), values_cons (by omega),
      values_cons (by omega), bytesOf, ih, byte_eq (b := a) (by omega), byte_eq (b := b) (by omega),
      byte_eq (b := c) (by omega)]
  | case2 a b =>
    have ha := a.toNat_lt
    have hb := b.toNat_lt
    rw [encode, group]
    simp only [List.take_succ_cons, List.take_zero, List.cons_append, List.nil_append]
    rw [values_cons (by omega), values_cons (by omega), values_cons (by simp; omega),
      values_padding, bytesOf, byte_eq (b := a) (by omega), byte_eq (b := b) (by simp; omega)]
  | case3 a =>
    have ha := a.toNat_lt
    rw [encode, group]
    simp only [List.take_succ_cons, List.take_zero, List.cons_append, List.nil_append]
    rw [values_cons (by omega), values_cons (by simp; omega), values_padding, bytesOf,
      byte_eq (b := a) (by simp; omega)]
  | case4 => rfl

example : decode (encode [104, 105]) = [104, 105] := by decide +kernel

/-! ## Length and prefixes -/

theorem length_encode (bytes : List UInt8) :
    (encode bytes).length = (bytes.length + 2) / 3 * 4 := by
  induction bytes using encode.induct with
  | case1 a b c bytes ih =>
    rw [encode, List.length_append, ih]
    simp only [group, List.length_cons, List.length_nil]
    omega
  | case2 a b => simp [encode, group]
  | case3 a => simp [encode, group]
  | case4 => rfl

theorem encode_append {bytes : List UInt8} (h : 3 ∣ bytes.length) (rest : List UInt8) :
    encode (bytes ++ rest) = encode bytes ++ encode rest := by
  induction bytes using encode.induct with
  | case1 a b c bytes ih =>
    have hrest : 3 ∣ bytes.length := by
      simp only [List.length_cons] at h
      omega
    rw [List.cons_append, List.cons_append, List.cons_append, encode, encode, ih hrest,
      List.append_assoc]
  | case2 a b => simp at h
  | case3 a => simp at h
  | case4 => rfl

theorem take_encode (bytes : List UInt8) (k : Nat) :
    (encode bytes).take (4 * k) = encode (bytes.take (3 * k)) := by
  by_cases h : 3 * k ≤ bytes.length
  · have hlength : (bytes.take (3 * k)).length = 3 * k := List.length_take_of_le h
    calc (encode bytes).take (4 * k)
        = (encode (bytes.take (3 * k)) ++ encode (bytes.drop (3 * k))).take (4 * k) := by
          rw [← encode_append (by rw [hlength]; exact Nat.dvd_mul_right 3 k),
            List.take_append_drop]
      _ = encode (bytes.take (3 * k)) := by
          apply List.take_left'
          rw [length_encode, hlength]
          omega
  · rw [List.take_of_length_le (l := bytes) (by omega)]
    apply List.take_of_length_le
    rw [length_encode]
    omega

end AgriFi.Base64
