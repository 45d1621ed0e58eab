import AgriFi.Documents.IpfsCid
import Mathlib.Tactic.IntervalCases

/-
  The two readers of variable length integers. Both read one of at most five bytes
  (`readVarint_eq_some`, `readVarintValue_eq_some`); the second keeps the last 32 bits of its
  number.
-/

namespace AgriFi.IpfsCid

/-- The last byte, and no other, is below 128. -/
def Terminated : List UInt8 → Prop
  | [] => False
  | b :: w => if b.toNat < 128 then w = [] else Terminated w

/-- A variable length integer of at most five bytes. -/
def IsVarint (w : List UInt8) : Prop := Terminated w ∧ w.length ≤ 5

/-- The number of a variable length integer, lowest seven bits first. -/
def varint : List UInt8 → Nat
  | [] => 0
  | b :: w => b.toNat % 128 + 128 * varint w

theorem Terminated.append_inj {v w xs ys : List UInt8} (hv : Terminated v) (hw : Terminated w)
    (h : v ++ xs = w ++ ys) : v = w ∧ xs = ys := by
  induction v generalizing w with
  | nil => exact hv.elim
  | cons b v ih =>
    cases w with
    | nil => exact hw.elim
    | cons c w =>
      obtain ⟨rfl, hrest⟩ := List.cons_eq_cons.mp h
      unfold Terminated at hv hw
      split at hv
      · next hlt =>
        rw [if_pos hlt] at hw
        subst hv hw
        exact ⟨rfl, hrest⟩
      · next hge =>
        rw [if_neg hge] at hw
        obtain ⟨rfl, hxs⟩ := ih hv hw hrest
        exact ⟨rfl, hxs⟩

theorem and_0x80 (b : UInt8) : b &&& 0x80 = 0 ↔ b.toNat < 128 := by
  have hall : ∀ n < 256, (n &&& 128 = 0 ↔ n < 128) := by decide +kernel
  rw [← hall b.toNat b.toNat_lt, ← UInt8.toNat_inj, UInt8.toNat_and]
  rfl

theorem and_0x7f (b : UInt8) : (b &&& 0x7f).toNat = b.toNat % 128 := by
  rw [UInt8.toNat_and]
  exact Nat.and_two_pow_sub_one_eq_mod b.toNat 7

/-! ## The readers -/

/-- Seven more bits over a number that has none of them. -/
theorem ofNat_or {n m k : Nat} (hn : n < 2 ^ (7 * k)) (hm : m < 128) (hk : k < 5) :
    BitVec.ofNat 32 n ||| BitVec.ofNat 32 m <<< (7 * k) =
      BitVec.ofNat 32 (n + 2 ^ (7 * k) * m) := by
  refine BitVec.eq_of_toNat_eq ?_
  have hor (a : Nat) : n ||| 2 ^ (7 * k) * a = n + 2 ^ (7 * k) * a := by
    rw [Nat.or_comm, ← Nat.two_pow_add_eq_or_of_lt hn, Nat.add_comm]
  have hshift : m * 2 ^ (7 * k) % 2 ^ 32 = 2 ^ (7 * k) * (m % 2 ^ (32 - 7 * k)) := by
    have hpow : 2 ^ 32 = 2 ^ (7 * k) * 2 ^ (32 - 7 * k) := by
      rw [← Nat.pow_add]
      congr 1
      omega
    rw [hpow, Nat.mul_comm m, Nat.mul_mod_mul_left]
  have hn32 : n < 2 ^ 32 := Nat.lt_of_lt_of_le hn (Nat.pow_le_pow_right (by decide) (by omega))
  rw [BitVec.toNat_or, BitVec.toNat_shiftLeft, BitVec.toNat_ofNat, BitVec.toNat_ofNat,
    BitVec.toNat_ofNat, Nat.mod_eq_of_lt hn32, Nat.mod_eq_of_lt (by omega : m < 2 ^ 32),
    Nat.shiftLeft_eq, hshift, hor]
  clear hor hshift hn32
  interval_cases k <;> omega

theorem readVarintValueFrom_eq_some {bytes : List UInt8} {index k n : Nat} {v : Varint}
    (hn : n < 2 ^ (7 * k)) :
    readVarintValueFrom bytes index (7 * k) (BitVec.ofNat 32 n) = some v ↔ ∃ w rest,
      bytes = w ++ rest ∧ Terminated w ∧ k + w.length ≤ 5 ∧
        v = ⟨BitVec.ofNat 32 (n + 2 ^ (7 * k) * varint w), index + w.length⟩ := by
  induction bytes generalizing index k n with
  | nil =>
    constructor
    · exact nofun
    · rintro ⟨w, rest, h, hw, -⟩
      obtain ⟨rfl, -⟩ := List.append_eq_nil_iff.mp h.symm
      exact hw.elim
  | cons b bytes ih =>
    have hb : b.toNat % 128 < 128 := Nat.mod_lt _ (by decide)
    have hpow : 2 ^ (7 * (k + 1)) = 2 ^ (7 * k) * 128 := by rw [Nat.mul_add, Nat.pow_add]
    have hle : 2 ^ (7 * k) * (b.toNat % 128) ≤ 2 ^ (7 * k) * 127 :=
      Nat.mul_le_mul_left _ (by omega)
    have hstep := @ih (index + 1) (k + 1) (n + 2 ^ (7 * k) * (b.toNat % 128)) (by omega)
    rw [Nat.mul_add] at hstep
    have hvalue (w : List UInt8) :
        n + 2 ^ (7 * k) * (b.toNat % 128) + 2 ^ (7 * k + 7 * 1) * varint w =
          n + 2 ^ (7 * k) * varint (b :: w) := by
      rw [varint, Nat.pow_add, Nat.mul_add, Nat.mul_assoc, Nat.add_assoc]
    simp only [hvalue] at hstep
    unfold readVarintValueFrom
    simp only [and_0x80, and_0x7f]
    constructor
    · intro h
      split at h
      · next hk =>
        rw [ofNat_or hn hb (by omega)] at h
        split at h
        · next hlt =>
          refine ⟨[b], bytes, rfl, by simp [Terminated, hlt], ?_, ?_⟩
          · rw [List.length_singleton]
            omega
          · simpa [varint] using (Option.some.inj h).symm
        · next hge =>
          obtain ⟨w, rest, rfl, hw, hlen, rfl⟩ := hstep.mp h
          refine ⟨b :: w, rest, rfl, by simp [Terminated, hge, hw], ?_, ?_⟩
          · rw [List.length_cons]
            omega
          · rw [List.length_cons, Nat.add_assoc, Nat.add_comm 1]
      · cases h
    · rintro ⟨w, rest, h, hw, hlen, rfl⟩
      cases w with
      | nil => exact hw.elim
      | cons c w =>
        obtain ⟨rfl, rfl⟩ := List.cons_eq_cons.mp h
        rw [List.length_cons] at hlen
        rw [if_pos (by omega), ofNat_or hn hb (by omega)]
        unfold Terminated at hw
        split at hw
        · next hlt =>
          subst hw
          rw [if_pos hlt]
          simp [varint]
        · next hge =>
          rw [if_neg hge, hstep]
          refine ⟨w, rest, rfl, hw, by omega, ?_⟩
          rw [List.length_cons, Nat.add_assoc, Nat.add_comm 1]

theorem readVarintValue_eq_some {bytes : List UInt8} {offset : Nat} {v : Varint} :
    readVarintValue bytes offset = some v ↔ ∃ w rest, bytes.drop offset = w ++ rest ∧
      IsVarint w ∧ v = ⟨BitVec.ofNat 32 (varint w), offset + w.length⟩ := by
  have h := @readVarintValueFrom_eq_some (bytes.drop offset) offset 0 0 v (by decide)
  simp only [Nat.mul_zero, Nat.pow_zero, Nat.one_mul, Nat.zero_add] at h
  simp only [IsVarint, and_assoc, ← h]
  rfl

/-- `readVarint` is `readVarintValue` without the value. -/
theorem readVarintFrom_eq (bytes : List UInt8) (index shift : Nat) (value : BitVec 32) :
    readVarintFrom bytes index shift =
      (readVarintValueFrom bytes index shift value).map Varint.nextOffset := by
  induction bytes generalizing index shift value with
  | nil => rfl
  | cons b bytes ih =>
    simp only [readVarintFrom, readVarintValueFrom]
    split
    · split
      · rfl
      · exact ih _ _ _
    · rfl

theorem readVarint_eq_some {bytes : List UInt8} {offset e : Nat} :
    readVarint bytes offset = some e ↔ ∃ w rest, bytes.drop offset = w ++ rest ∧ IsVarint w ∧
      e = offset + w.length := by
  have h : readVarint bytes offset = (readVarintValue bytes offset).map Varint.nextOffset :=
    readVarintFrom_eq _ _ _ _
  rw [h, Option.map_eq_some_iff]
  simp only [readVarintValue_eq_some]
  constructor
  · rintro ⟨v, ⟨w, rest, hdrop, hw, rfl⟩, rfl⟩
    exact ⟨w, rest, hdrop, hw, rfl⟩
  · rintro ⟨w, rest, hdrop, hw, rfl⟩
    exact ⟨_, ⟨w, rest, hdrop, hw, rfl⟩, rfl⟩

end AgriFi.IpfsCid

/-
  What the decoders compute. Base 58: the number of the text in base 256 (`decodeBase58_text`).
  Base 32: the bytes whose number, followed by fewer than eight spare bits, is the number of the
  text (`decodeBase32_eq_some`). The 32-bit buffer has the last bits of the text, which are all
  that a byte is taken from.
-/

namespace AgriFi.IpfsCid

open AgriFi.Radix

/-! ## Alphabets -/

def char58 (d : Nat) : Char := BASE58_ALPHABET.getD d '1'

def char32 (d : Nat) : Char := alphabet.getD d 'a'

/-- Digits and characters of the alphabets, and the ASCII characters that are in one. -/
theorem alphabets :
    (∀ d < 58, BASE58_ALPHABET.idxOf? (char58 d) = some d ∧ isBase58 (char58 d) = true ∧
      isSpace (char58 d) = false ∧ (d ≠ 0 → char58 d ≠ '1')) ∧
    (∀ d < 32, alphabet.idxOf (char32 d) = d ∧ isBase32 (char32 d) = true ∧
      isSpace (char32 d) = false) ∧
    (∀ n < 128, isBase58 (Char.ofNat n) = true → BASE58_ALPHABET.idxOf (Char.ofNat n) < 58 ∧
      char58 (BASE58_ALPHABET.idxOf (Char.ofNat n)) = Char.ofNat n) ∧
    ∀ n < 128, isBase32 (Char.ofNat n) = true → alphabet.idxOf (Char.ofNat n) < 32 ∧
      char32 (alphabet.idxOf (Char.ofNat n)) = Char.ofNat n := by
  decide +kernel

theorem idxOf?_char58 (d : Nat) (h : d < 58) : BASE58_ALPHABET.idxOf? (char58 d) = some d :=
  (alphabets.1 d h).1

theorem isBase58_char58 (d : Nat) (h : d < 58) : isBase58 (char58 d) = true :=
  (alphabets.1 d h).2.1

theorem idxOf_char32 (d : Nat) (h : d < 32) : alphabet.idxOf (char32 d) = d :=
  (alphabets.2.1 d h).1

theorem isBase32_char32 (d : Nat) (h : d < 32) : isBase32 (char32 d) = true :=
  (alphabets.2.1 d h).2.1

section Ascii

variable {p : Char → Bool} {char : Nat → Char} {place : Char → Nat} {b : Nat}

/-- A class of ASCII characters is the digits of an alphabet. -/
theorem exists_digit (h : ∀ n < 128, p (Char.ofNat n) = true →
      place (Char.ofNat n) < b ∧ char (place (Char.ofNat n)) = Char.ofNat n)
    {c : Char} (hc : c.toNat < 128) (hp : p c = true) : ∃ d < b, char d = c := by
  have hchar := h c.toNat hc
  rw [Char.ofNat_toNat] at hchar
  exact ⟨place c, hchar hp⟩

theorem exists_digits (h : ∀ c, p c = true → ∃ d < b, char d = c) {text : Text}
    (htext : text.all p = true) : ∃ ds : List Nat, (∀ d ∈ ds, d < b) ∧ text = ds.map char := by
  induction text with
  | nil => exact ⟨[], by simp, rfl⟩
  | cons c text ih =>
    rw [List.all_cons, Bool.and_eq_true] at htext
    obtain ⟨d, hd, rfl⟩ := h c htext.1
    obtain ⟨ds, hds, rfl⟩ := ih htext.2
    exact ⟨d :: ds, by simpa using ⟨hd, hds⟩, rfl⟩

end Ascii

theorem toNat_le {c d : Char} (h : c ≤ d) : c.toNat ≤ d.toNat := h

theorem exists_char58 (c : Char) (h : isBase58 c = true) : ∃ d < 58, char58 d = c := by
  refine @exists_digit isBase58 char58 BASE58_ALPHABET.idxOf 58 alphabets.2.2.1 c ?_ h
  simp only [isBase58, Bool.or_eq_true, Bool.and_eq_true, decide_eq_true_eq] at h
  have hz : ∀ d : Char, d.toNat < 128 → c ≤ d → c.toNat < 128 := fun d hd hle =>
    Nat.lt_of_le_of_lt (toNat_le hle) hd
  rcases h with ((((h | h) | h) | h) | h) | h <;> exact hz _ (by decide) h.2

theorem exists_char32 (c : Char) (h : isBase32 c = true) : ∃ d < 32, char32 d = c := by
  refine @exists_digit isBase32 char32 alphabet.idxOf 32 alphabets.2.2.2 c ?_ h
  simp only [isBase32, Bool.or_eq_true, Bool.and_eq_true, decide_eq_true_eq] at h
  have hz : ∀ d : Char, d.toNat < 128 → c ≤ d → c.toNat < 128 := fun d hd hle =>
    Nat.lt_of_le_of_lt (toNat_le hle) hd
  rcases h with h | h <;> exact hz _ (by decide) h.2

/-- The number of some bytes. -/
def number (bytes : List UInt8) : Nat := value 256 (bytes.map UInt8.toNat)

theorem toNat_lt_256 (bytes : List UInt8) : ∀ d ∈ bytes.map UInt8.toNat, d < 256 := by
  intro d hd
  obtain ⟨b, -, rfl⟩ := List.mem_map.mp hd
  exact b.toNat_lt

theorem number_lt (bytes : List UInt8) : number bytes < 256 ^ bytes.length := by
  have h := value_lt (by decide) (toNat_lt_256 bytes)
  rwa [List.length_map] at h

theorem eq_of_number {xs ys : List UInt8} (hlen : xs.length = ys.length)
    (h : number xs = number ys) : xs = ys := by
  refine List.map_injective_iff.mpr (fun _ _ => UInt8.toNat.inj) (eq_of_value (b := 256)
    (by decide) (by simpa using hlen) (toNat_lt_256 xs) (toNat_lt_256 ys) h)

theorem map_toNat_ofNat {ds : List Nat} (h : ∀ d ∈ ds, d < 256) :
    (ds.map UInt8.ofNat).map UInt8.toNat = ds := by
  rw [List.map_map]
  exact (List.map_congr_left fun d hd => UInt8.toNat_ofNat_of_lt' (h d hd)).trans (List.map_id ds)

/-! ## Base 58 -/

theorem and_255 (n : Nat) : n &&& 0xff = n % 256 := Nat.and_two_pow_sub_one_eq_mod n 8

theorem shift_8 (n : Nat) : n >>> 8 = n / 256 := Nat.shiftRight_eq_div_pow n 8

theorem carryBytes_eq (carry : Nat) : carryBytes carry = Nat.digits 256 carry := by
  induction carry using Nat.strongRecOn with
  | _ carry ih =>
    rw [carryBytes]
    split
    · next h => rw [h, Nat.digits_zero]
    · next h =>
      rw [and_255, shift_8, ih _ (by omega), ← Nat.digits_def' (by decide) (by omega)]

/-- By induction on the bytes, which are those of the number over 256. -/
theorem addDigit_digits (n d : Nat) :
    addDigit (Nat.digits 256 n) d = Nat.digits 256 (58 * n + d) := by
  induction n using Nat.strongRecOn generalizing d with
  | _ n ih =>
    rcases Nat.eq_zero_or_pos n with rfl | hn
    · rw [Nat.digits_zero]
      exact (carryBytes_eq d).trans (by rw [Nat.mul_zero, Nat.zero_add])
    · have hrest := ih (n / 256) (by omega) ((n % 256 * 58 + d) / 256)
      have hdigits : Nat.digits 256 n = n % 256 :: Nat.digits 256 (n / 256) :=
        Nat.digits_def' (by decide) hn
      have hresult : Nat.digits 256 (58 * n + d) =
          (58 * n + d) % 256 :: Nat.digits 256 ((58 * n + d) / 256) :=
        Nat.digits_def' (by decide) (by omega)
      have hhead : (58 * n + d) % 256 = (n % 256 * 58 + d) % 256 := by omega
      have htail : (58 * n + d) / 256 = 58 * (n / 256) + (n % 256 * 58 + d) / 256 := by omega
      rw [hdigits, hresult, hhead, htail, ← hrest]
      simp only [addDigit, mulAdd, and_255, shift_8, List.cons_append]

theorem foldlM_text {ds : List Nat} (h : ∀ d ∈ ds, d < 58) (bytes : List Nat) :
    (ds.map char58).foldlM (fun bytes char =>
      (BASE58_ALPHABET.idxOf? char).map (addDigit bytes)) bytes =
      some (ds.foldl addDigit bytes) := by
  induction ds generalizing bytes with
  | nil => rfl
  | cons d ds ih =>
    rw [List.map_cons, List.foldlM_cons, idxOf?_char58 d (h d (List.mem_cons_self ..))]
    exact ih (fun x hx => h x (List.mem_cons_of_mem _ hx)) _

theorem foldl_addDigit (ds es : List Nat) :
    es.foldl addDigit (Nat.digits 256 (value 58 ds)) = Nat.digits 256 (value 58 (ds ++ es)) := by
  induction es generalizing ds with
  | nil => rw [List.append_nil]; rfl
  | cons d es ih =>
    rw [List.foldl_cons, addDigit_digits, ← value_concat, ih, List.append_assoc]
    rfl

/-- A text that does not begin with `1` is its number in base 256. -/
theorem decodeBase58_text {d : Nat} {ds : List Nat} (h : ∀ x ∈ d :: ds, x < 58) (hd : d ≠ 0) :
    decodeBase58 ((d :: ds).map char58) =
      some ((Nat.digits 256 (value 58 (d :: ds))).reverse.map UInt8.ofNat) := by
  have hlt : d < 58 := h d (List.mem_cons_self ..)
  have hfirst : addDigit [0] d = Nat.digits 256 (value 58 [d]) := by
    have hzero : addDigit [0] d = d % 256 :: carryBytes (d / 256) := by
      simp [addDigit, mulAdd, and_255, shift_8]
    rw [hzero, carryBytes_eq, ← Nat.digits_def' (by decide) (by omega)]
    simp [value]
  have hone : char58 d ≠ '1' := (alphabets.1 d hlt).2.2.2 hd
  have hfold := foldlM_text h [0]
  unfold decodeBase58
  rw [hfold, List.foldl_cons, hfirst, foldl_addDigit]
  simp [hone]

/-! ## Base 32 -/

theorem or_of_lt {i d : Nat} (h : d < 2 ^ i) (a : Nat) : 2 ^ i * a ||| d = 2 ^ i * a + d :=
  (Nat.two_pow_add_eq_or_of_lt h a).symm

/-- The variables of the loop after some digits. -/
structure Buffer.Holds (s : Buffer) (ds : List Nat) : Prop where
  buffer : s.buffer.toNat = value 32 ds % 2 ^ 32
  bits : s.bits < 8
  length : 5 * ds.length = 8 * s.bytes.length + s.bits
  bytes : number s.bytes = value 32 ds / 2 ^ s.bits

theorem number_concat (bytes : List UInt8) (b : UInt8) :
    number (bytes ++ [b]) = 256 * number bytes + b.toNat := by
  rw [number, List.map_append]
  exact value_concat _ _

theorem toNat_buffer {buffer : BitVec 32} {n d : Nat} (h : buffer.toNat = n % 2 ^ 32)
    (hd : d < 32) :
    (buffer <<< 5 ||| BitVec.ofNat 32 d).toNat = (32 * n + d) % 2 ^ 32 := by
  have hmul : n % 2 ^ 32 * 2 ^ 5 % 2 ^ 32 = 2 ^ 5 * (n % 2 ^ 27) := by omega
  rw [BitVec.toNat_or, BitVec.toNat_shiftLeft, BitVec.toNat_ofNat, h, Nat.shiftLeft_eq, hmul,
    Nat.mod_eq_of_lt (by omega : d < 2 ^ 32), or_of_lt (by omega)]
  omega

theorem toNat_byte (buffer : BitVec 32) (k : Nat) :
    (UInt8.ofNat (buffer >>> k &&& 0xff).toNat).toNat = buffer.toNat / 2 ^ k % 256 := by
  have h : (buffer >>> k &&& 0xff).toNat = buffer.toNat / 2 ^ k % 256 := by
    rw [BitVec.toNat_and, BitVec.toNat_ushiftRight, Nat.shiftRight_eq_div_pow]
    exact and_255 _
  rw [h]
  exact UInt8.toNat_ofNat_of_lt' (Nat.mod_lt _ (by decide))

theorem Buffer.Holds.push {s : Buffer} {ds : List Nat} {d : Nat} (h : s.Holds ds) (hd : d < 32) :
    (s.push d).Holds (ds ++ [d]) := by
  obtain ⟨buffer, bits, bytes⟩ := s
  obtain ⟨hbuffer, hbits, hlength, hbytes⟩ := h
  simp only at hbuffer hbits hlength hbytes
  have hnext := toNat_buffer hbuffer hd
  rw [← value_concat] at hnext
  dsimp only [Buffer.push]
  split
  · next hge =>
    obtain ⟨k, rfl⟩ : ∃ k, bits = k + 3 := ⟨bits - 3, by omega⟩
    have hk : k + 3 + 5 - 8 = k := by omega
    simp only [hk]
    refine ⟨hnext, by simp only; omega, ?_, ?_⟩
    · simp only [List.length_append, List.length_singleton]
      omega
    · simp only
      rw [number_concat, toNat_byte, hnext, hbytes, value_concat]
      generalize value 32 ds = n
      have hk4 : k ≤ 4 := by omega
      interval_cases k <;> omega
  · next hlt =>
    refine ⟨hnext, by simp only; omega, ?_, ?_⟩
    · simp only [List.length_append, List.length_singleton]
      omega
    · simp only
      rw [hbytes, value_concat]
      generalize value 32 ds = n
      have hbits2 : bits ≤ 2 := by omega
      interval_cases bits <;> omega

/-- The digits are those of the bytes, and of fewer than eight spare bits. -/
def Spells (ds : List Nat) (bytes : List UInt8) (spare : Nat) : Prop :=
  ∃ bits < 8, 5 * ds.length = 8 * bytes.length + bits ∧ spare < 2 ^ bits ∧
    value 32 ds = number bytes * 2 ^ bits + spare

theorem Spells.unique {ds : List Nat} {xs ys : List UInt8} {a b : Nat} (hx : Spells ds xs a)
    (hy : Spells ds ys b) : xs = ys ∧ a = b := by
  obtain ⟨i, hi, hilen, ha, hxs⟩ := hx
  obtain ⟨j, hj, hjlen, hb, hys⟩ := hy
  obtain rfl : i = j := by omega
  have hpos : 0 < 2 ^ i := Nat.two_pow_pos i
  have heq := hxs.symm.trans hys
  have hnumber : number xs = number ys := by
    have hdiv := congrArg (· / 2 ^ i) heq
    simpa only [Nat.add_comm _ a, Nat.add_comm _ b, Nat.add_mul_div_right _ _ hpos,
      Nat.div_eq_of_lt ha, Nat.div_eq_of_lt hb, Nat.zero_add] using hdiv
  rw [hnumber] at heq
  exact ⟨eq_of_number (by omega) hnumber, Nat.add_left_cancel heq⟩

theorem foldl_push {s : Buffer} {ds es : List Nat} (h : s.Holds ds) (hes : ∀ d ∈ es, d < 32) :
    ((es.map char32).foldl (fun s char => Buffer.push s (alphabet.idxOf char)) s).Holds
      (ds ++ es) := by
  induction es generalizing s ds with
  | nil => simpa using h
  | cons d es ih =>
    have hd := hes d (List.mem_cons_self ..)
    rw [List.map_cons, List.foldl_cons, idxOf_char32 d hd, List.append_cons]
    exact ih (h.push hd) fun x hx => hes x (List.mem_cons_of_mem _ hx)

theorem decodeBase32_text {ds : List Nat} (hne : ds ≠ []) (hds : ∀ d ∈ ds, d < 32) :
    ∃ bytes spare, decodeBase32 ('b' :: ds.map char32) = some bytes ∧ Spells ds bytes spare := by
  have hholds := @foldl_push ⟨0, 0, []⟩ [] _ ⟨rfl, by decide, rfl, rfl⟩ hds
  rw [List.nil_append] at hholds
  have hall : (ds.map char32).all isBase32 = true := by
    simpa using fun d hd => isBase32_char32 d (hds d hd)
  obtain ⟨-, hbits, hlength, hbytes⟩ := hholds
  refine ⟨_, _, if_pos ⟨by simpa using hne, hall⟩, _, hbits, hlength,
    Nat.mod_lt (value 32 ds) (Nat.two_pow_pos _), ?_⟩
  rw [hbytes, Nat.div_add_mod']

/-- What `decodeBase32` accepts, and the bytes of it. -/
theorem decodeBase32_eq_some {s : Text} {bytes : List UInt8} :
    decodeBase32 s = some bytes ↔ ∃ ds spare, ds ≠ [] ∧ (∀ d ∈ ds, d < 32) ∧
      s = 'b' :: ds.map char32 ∧ Spells ds bytes spare := by
  constructor
  · intro h
    unfold decodeBase32 at h
    split at h
    · next text =>
      split at h
      · next htext =>
        obtain ⟨ds, hds, rfl⟩ := exists_digits exists_char32 htext.2
        have hne : ds ≠ [] := by simpa using htext.1
        obtain ⟨bytes', spare, hdecode, hspells⟩ := decodeBase32_text hne hds
        have heq : bytes' = bytes := by
          rw [decodeBase32, if_pos htext] at hdecode
          exact Option.some.inj (hdecode.symm.trans h)
        exact ⟨ds, spare, hne, hds, rfl, heq ▸ hspells⟩
      · cases h
    · cases h
  · rintro ⟨ds, spare, hne, hds, rfl, hspells⟩
    obtain ⟨bytes', spare', hdecode, hspells'⟩ := decodeBase32_text hne hds
    rw [hdecode, (hspells'.unique hspells).1]

end AgriFi.IpfsCid
