import AgriFi.Hex
import Mathlib.Data.String.Basic

/-
  Strings of JavaScript, as their UTF-16 code units, and how JSON writes one between quotes: a
  surrogate pair as its character, a lone surrogate and a control character as `\\uXXXX`. What was
  written is read back, whatever the code units are (`read_quoted`). In UTF-8 a lone surrogate is
  the replacement character, so a string is determined by its bytes where it has none
  (`eq_of_utf8`).
-/

namespace AgriFi

abbrev CodeUnit : Type := Fin 65536

instance instNeZeroUnits : NeZero 65536 := ⟨by decide⟩

/-- A string, as its code units. -/
abbrev JsString : Type := List CodeUnit

namespace JsString

def isHigh (u : CodeUnit) : Bool := 0xD800 ≤ u.val && u.val < 0xDC00

def isLow (u : CodeUnit) : Bool := 0xDC00 ≤ u.val && u.val < 0xE000

def unit (n : Nat) : CodeUnit := Fin.ofNat 65536 n

/-- The code units of a character. -/
def ofChar (c : Char) : JsString :=
  if c.toNat < 0x10000 then [unit c.toNat]
  else [unit (0xD800 + (c.toNat - 0x10000) / 0x400), unit (0xDC00 + (c.toNat - 0x10000) % 0x400)]

/-- The character of a surrogate pair. -/
def pairChar (u v : CodeUnit) : Char :=
  Char.ofNat (0x10000 + (u.val - 0xD800) * 0x400 + (v.val - 0xDC00))

/-- The characters of a string, where `lone` writes the units that are in no surrogate pair. -/
def write (lone : CodeUnit → List Char) : JsString → List Char
  | [] => []
  | [u] => lone u
  | u :: v :: s =>
    if isHigh u && isLow v then pairChar u v :: write lone s else lone u ++ write lone (v :: s)

def ofChars (cs : List Char) : JsString := cs.flatMap ofChar

/-- The string of a literal. -/
def str (s : String) : JsString := ofChars s.toList

/-- The characters as UTF-8 has them. -/
def chars (s : JsString) : List Char :=
  write (fun u => if isHigh u || isLow u then [Char.ofNat 0xFFFD] else [Char.ofNat u.val]) s

/-! ## Quotes -/

def fourDigits (u : CodeUnit) : List Char :=
  [Hex.digit (u.val / 4096), Hex.digit (u.val / 256 % 16), Hex.digit (u.val / 16 % 16),
    Hex.digit (u.val % 16)]

/-- A code unit that is in no surrogate pair, within quotes. -/
def quoteUnit (u : CodeUnit) : List Char :=
  if u = 34 then ['\\', '"']
  else if u = 92 then ['\\', '\\']
  else if u = 8 then ['\\', 'b']
  else if u = 9 then ['\\', 't']
  else if u = 10 then ['\\', 'n']
  else if u = 12 then ['\\', 'f']
  else if u = 13 then ['\\', 'r']
  else if u.val < 32 || isHigh u || isLow u then '\\' :: 'u' :: fourDigits u
  else [Char.ofNat u.val]

/-- `JSON.stringify` of a string. -/
def quoted (s : JsString) : List Char := '"' :: (write quoteUnit s ++ ['"'])

def readFourDigits (a b c d : Char) : Option CodeUnit := do
  let a ← Hex.value a
  let b ← Hex.value b
  let c ← Hex.value c
  let d ← Hex.value d
  some (unit (4096 * a + 256 * b + 16 * c + d))

/-- What a letter after a backslash stands for. -/
def escaped (c : Char) : Option CodeUnit :=
  [('"', 34), ('\\', 92), ('/', 47), ('b', 8), ('f', 12), ('n', 10), ('r', 13), ('t', 9)].lookup c

/-- A string from after its first quote, with what follows it. -/
def read : List Char → Option (JsString × List Char)
  | [] => none
  | c :: rest =>
    if c = '"' then some ([], rest)
    else if c = '\\' then
      match rest with
      | 'u' :: w :: x :: y :: z :: rest => do
        let u ← readFourDigits w x y z
        let (s, rest) ← read rest
        some (u :: s, rest)
      | e :: rest => do
        let u ← escaped e
        let (s, rest) ← read rest
        some (u :: s, rest)
      | [] => none
    else if c.toNat < 32 then none
    else do
      let (s, rest) ← read rest
      some (ofChar c ++ s, rest)

/-! ## Code units and characters -/

variable {u v : CodeUnit} {s t : JsString} {cs rest : List Char} {c : Char} {n : Nat}

theorem isHigh_iff : isHigh u = true ↔ 0xD800 ≤ u.val ∧ u.val < 0xDC00 := by
  simp [isHigh]

theorem isLow_iff : isLow u = true ↔ 0xDC00 ≤ u.val ∧ u.val < 0xE000 := by
  simp [isLow]

theorem val_unit (h : n < 65536) : (unit n).val = n := Nat.mod_eq_of_lt h

theorem unit_val (u : CodeUnit) : unit u.val = u := Fin.ext (val_unit u.isLt)

theorem toNat_ofNat (h : n.isValidChar) : (Char.ofNat n).toNat = n := by
  rw [Char.ofNat, dif_pos h]
  rfl

theorem isValidChar_of_lone (h : (isHigh u || isLow u) = false) : u.val.isValidChar := by
  rw [Bool.or_eq_false_iff, ← Bool.not_eq_true, ← Bool.not_eq_true, isHigh_iff, isLow_iff] at h
  have := u.isLt
  unfold Nat.isValidChar
  omega

theorem ofChar_of_lone (h : (isHigh u || isLow u) = false) : ofChar (Char.ofNat u.val) = [u] := by
  unfold ofChar
  rw [toNat_ofNat (isValidChar_of_lone h), if_pos u.isLt, unit_val]

theorem toNat_pairChar (hu : isHigh u = true) (hv : isLow v = true) :
    (pairChar u v).toNat = 0x10000 + (u.val - 0xD800) * 0x400 + (v.val - 0xDC00) := by
  rw [isHigh_iff] at hu
  rw [isLow_iff] at hv
  refine toNat_ofNat ?_
  unfold Nat.isValidChar
  omega

theorem ofChar_pairChar (hu : isHigh u = true) (hv : isLow v = true) :
    ofChar (pairChar u v) = [u, v] := by
  have hnat := toNat_pairChar hu hv
  rw [isHigh_iff] at hu
  rw [isLow_iff] at hv
  have hhigh : 0xD800 + ((pairChar u v).toNat - 0x10000) / 0x400 = u.val := by omega
  have hlow : 0xDC00 + ((pairChar u v).toNat - 0x10000) % 0x400 = v.val := by omega
  unfold ofChar
  rw [if_neg (by omega), hhigh, hlow, unit_val, unit_val]

/-! ## Reading what was written -/

theorem readFourDigits_fourDigits (u : CodeUnit) :
    readFourDigits (Hex.digit (u.val / 4096)) (Hex.digit (u.val / 256 % 16))
      (Hex.digit (u.val / 16 % 16)) (Hex.digit (u.val % 16)) = some u := by
  have := u.isLt
  unfold readFourDigits
  rw [Hex.value_digit (by omega), Hex.value_digit (by omega), Hex.value_digit (by omega),
    Hex.value_digit (by omega)]
  refine congrArg some (Fin.ext ((val_unit (by omega)).trans ?_))
  omega

/-- What is read after a piece that stands for the code units `s`. -/
def Reads (piece : List Char) (s : JsString) : Prop :=
  ∀ rest, read (piece ++ rest) = (read rest).map fun p => (s ++ p.1, p.2)

theorem reads_fourDigits (u : CodeUnit) : Reads ('\\' :: 'u' :: fourDigits u) [u] := by
  intro rest
  show ((readFourDigits _ _ _ _).bind fun u => (read rest).bind fun p => some (u :: p.1, p.2)) = _
  rw [readFourDigits_fourDigits]
  cases read rest <;> rfl

theorem reads_escaped {e : Char} (he : e ≠ 'u') (h : escaped e = some u) :
    Reads ['\\', e] [u] := by
  intro rest
  show read ('\\' :: e :: rest) = _
  rw [read.eq_def]
  dsimp only
  rw [if_neg (by decide), if_pos rfl]
  split
  · next heq => exact absurd (List.cons.inj heq).1 he
  · next heq =>
    obtain ⟨rfl, rfl⟩ := List.cons.inj heq
    show ((escaped _).bind fun u => (read _).bind fun p => some (u :: p.1, p.2)) = _
    rw [h]
    cases read rest <;> rfl
  · next heq => cases heq

theorem reads_char (hquote : c ≠ '"') (hslash : c ≠ '\\') (hcontrol : 32 ≤ c.toNat) :
    Reads [c] (ofChar c) := by
  intro rest
  show read (c :: rest) = _
  rw [read.eq_def]
  dsimp only
  rw [if_neg hquote, if_neg hslash, if_neg (by omega)]
  cases read rest <;> rfl

theorem reads_quoteUnit (u : CodeUnit) : Reads (quoteUnit u) [u] := by
  unfold quoteUnit
  split
  · next h => exact reads_escaped (by decide) (h ▸ rfl)
  split
  · next h => exact reads_escaped (by decide) (h ▸ rfl)
  split
  · next h => exact reads_escaped (by decide) (h ▸ rfl)
  split
  · next h => exact reads_escaped (by decide) (h ▸ rfl)
  split
  · next h => exact reads_escaped (by decide) (h ▸ rfl)
  split
  · next h => exact reads_escaped (by decide) (h ▸ rfl)
  split
  · next h => exact reads_escaped (by decide) (h ▸ rfl)
  split
  · exact reads_fourDigits u
  · next hquote hslash _ _ _ _ _ hraw =>
    simp only [Bool.or_eq_true, decide_eq_true_eq, not_or, not_lt] at hraw
    obtain ⟨⟨hcontrol, hhigh⟩, hlow⟩ := hraw
    have hlone : (isHigh u || isLow u) = false := by
      rw [Bool.or_eq_false_iff]
      exact ⟨Bool.not_eq_true _ ▸ hhigh, Bool.not_eq_true _ ▸ hlow⟩
    have hnat := toNat_ofNat (isValidChar_of_lone hlone)
    rw [← ofChar_of_lone hlone]
    refine reads_char ?_ ?_ (by omega)
    · exact fun h => hquote (Fin.ext (hnat.symm.trans (congrArg Char.toNat h)))
    · exact fun h => hslash (Fin.ext (hnat.symm.trans (congrArg Char.toNat h)))

theorem reads_pairChar (hu : isHigh u = true) (hv : isLow v = true) :
    Reads [pairChar u v] [u, v] := by
  have hnat := toNat_pairChar hu hv
  rw [← ofChar_pairChar hu hv]
  refine reads_char ?_ ?_ (by omega)
  · intro h
    rw [h] at hnat
    have : '"'.toNat = 34 := rfl
    omega
  · intro h
    rw [h] at hnat
    have : '\\'.toNat = 92 := rfl
    omega

theorem Reads.append {p q : List Char} (hp : Reads p s) (hq : Reads q t) :
    Reads (p ++ q) (s ++ t) := by
  intro rest
  rw [List.append_assoc, hp, hq, Option.map_map]
  simp only [Function.comp_def, List.append_assoc]

theorem reads_write (s : JsString) : Reads (write quoteUnit s) s := by
  fun_induction write quoteUnit s with
  | case1 =>
    intro rest
    show read rest = (read rest).map id
    rw [Option.map_id_apply]
  | case2 u => exact reads_quoteUnit u
  | case3 u v s hpair ih =>
    rw [Bool.and_eq_true] at hpair
    exact (reads_pairChar hpair.1 hpair.2).append ih
  | case4 u v s hpair ih => exact (reads_quoteUnit u).append ih

/-- A string is read back from between its quotes. -/
theorem read_quoted (s : JsString) (rest : List Char) :
    read (write quoteUnit s ++ '"' :: rest) = some (s, rest) := by
  have hend : read ('"' :: rest) = some ([], rest) := by
    rw [read.eq_def]
    exact if_pos rfl
  rw [reads_write, hend, Option.map_some, List.append_nil]

/-! ## UTF-8 -/

theorem write_append_of_lone {lone : CodeUnit → List Char} (h : (isHigh u || isLow u) = false)
    (s : JsString) : write lone (u :: s) = lone u ++ write lone s := by
  cases s with
  | nil => exact (List.append_nil _).symm
  | cons v s =>
    rw [Bool.or_eq_false_iff] at h
    rw [write, h.1, Bool.false_and, if_neg Bool.false_ne_true]

theorem chars_ofChars (cs : List Char) : chars (ofChars cs) = cs := by
  induction cs with
  | nil => rfl
  | cons c cs ih =>
    show write _ (ofChar c ++ ofChars cs) = _
    unfold ofChar
    have hvalid := c.valid
    have hnat : c.val.toNat = c.toNat := rfl
    split
    · next hsmall =>
      have hlone : (isHigh (unit c.toNat) || isLow (unit c.toNat)) = false := by
        rw [Bool.or_eq_false_iff, ← Bool.not_eq_true, ← Bool.not_eq_true, isHigh_iff, isLow_iff,
          val_unit hsmall]
        rcases hvalid with h | h <;> omega
      rw [List.singleton_append, write_append_of_lone hlone, hlone, if_neg Bool.false_ne_true,
        val_unit hsmall, Char.ofNat_toNat]
      exact congrArg (c :: ·) ih
    · next hlarge =>
      have hlt : c.toNat < 0x110000 := by
        rcases hvalid with h | h <;> omega
      have hhigh : isHigh (unit (0xD800 + (c.toNat - 0x10000) / 0x400)) = true := by
        rw [isHigh_iff, val_unit (by omega)]
        omega
      have hlow : isLow (unit (0xDC00 + (c.toNat - 0x10000) % 0x400)) = true := by
        rw [isLow_iff, val_unit (by omega)]
        omega
      rw [List.cons_append, List.singleton_append, write, hhigh, hlow, Bool.and_self, if_pos rfl]
      have hpair : pairChar (unit (0xD800 + (c.toNat - 0x10000) / 0x400))
          (unit (0xDC00 + (c.toNat - 0x10000) % 0x400)) = c := by
        refine Char.toNat_inj.mp ?_
        rw [toNat_pairChar hhigh hlow, val_unit (by omega), val_unit (by omega)]
        omega
      rw [hpair]
      exact congrArg (c :: ·) ih

theorem ofChars_eq_map (h : ∀ c ∈ cs, c.toNat < 0x10000) :
    ofChars cs = cs.map fun c => unit c.toNat := by
  induction cs with
  | nil => rfl
  | cons c cs ih =>
    show ofChar c ++ ofChars cs = _
    rw [ih fun d hd => h d (List.mem_cons_of_mem _ hd), ofChar,
      if_pos (h c (List.mem_cons_self ..))]
    rfl

/-- No surrogate is alone. -/
def WellFormed (s : JsString) : Prop := ofChars (chars s) = s

instance (s : JsString) : Decidable (WellFormed s) := inferInstanceAs (Decidable (_ = _))

theorem eq_of_chars (hs : WellFormed s) (ht : WellFormed t) (h : chars s = chars t) : s = t := by
  rw [← hs, ← ht, h]

def encodeUtf8 (cs : List Char) : List UInt8 := cs.flatMap String.utf8EncodeChar

/-- `Buffer.from(s, 'utf8')`. -/
def utf8 (s : JsString) : List UInt8 := encodeUtf8 (chars s)

/-- The characters of bytes; `malformed` reads what is no UTF-8. -/
def decodeUtf8 (malformed : List UInt8 → List Char) (bytes : List UInt8) :
    List Char :=
  if h : bytes.toByteArray.IsValidUTF8 then (String.ofByteArray bytes.toByteArray h).toList
  else malformed bytes

theorem encodeUtf8_injective {ds : List Char} (h : encodeUtf8 cs = encodeUtf8 ds) : cs = ds := by
  have hbytes : (String.ofList cs).toByteArray = (String.ofList ds).toByteArray :=
    congrArg List.toByteArray h
  exact String.ofList_inj.mp (String.toByteArray_inj.mp hbytes)

theorem decodeUtf8_encodeUtf8 (malformed : List UInt8 → List Char) (cs : List Char) :
    decodeUtf8 malformed (encodeUtf8 cs) = cs := by
  unfold decodeUtf8
  rw [dif_pos ⟨cs, rfl⟩]
  exact String.toList_ofList

theorem eq_of_utf8 (hs : WellFormed s) (ht : WellFormed t) (h : utf8 s = utf8 t) : s = t :=
  eq_of_chars hs ht (encodeUtf8_injective h)

end JsString

end AgriFi
