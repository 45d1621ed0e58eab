import AgriFi.Radix

/-
  Content identifiers and the check of content against them. A number of the bit operations is a
  `BitVec 32` where it can outgrow 32 bits; the numbers of the base 58 loop cannot.
-/

namespace AgriFi.IpfsCid

abbrev Text := List Char

def BASE58_ALPHABET : Text :=
  "123456789ABCDEFGHJKLMNPQRSTUVWXYZabcdefghijkmnopqrstuvwxyz".toList

/-- The alphabet of `decodeBase32`. -/
def alphabet : Text := "abcdefghijklmnopqrstuvwxyz234567".toList

/-! ## Decoders -/

/-- The loop over the bytes, lowest first: the new bytes and the carry. -/
def mulAdd : List Nat → Nat → List Nat × Nat
  | [], carry => ([], carry)
  | byte :: bytes, carry =>
    let next := byte * 58 + carry
    let r := mulAdd bytes (next >>> 8)
    ((next &&& 0xff) :: r.1, r.2)

/-- What `while (carry > 0)` pushes. -/
def carryBytes (carry : Nat) : List Nat :=
  if _h : carry = 0 then [] else (carry &&& 0xff) :: carryBytes (carry >>> 8)
termination_by carry
decreasing_by
  rw [Nat.shiftRight_eq_div_pow]
  omega

def addDigit (bytes : List Nat) (digit : Nat) : List Nat :=
  let r := mulAdd bytes digit
  r.1 ++ carryBytes r.2

def decodeBase58 (value : Text) : Option (List UInt8) := do
  let bytes ← value.foldlM (fun bytes char =>
    (BASE58_ALPHABET.idxOf? char).map (addDigit bytes)) [0]
  let zeros := List.replicate (value.takeWhile (· = '1')).length 0
  some ((bytes ++ zeros).reverse.map UInt8.ofNat)

/-- The variables of the loop of `decodeBase32`. -/
structure Buffer where
  buffer : BitVec 32
  bits : Nat
  bytes : List UInt8

def Buffer.push (s : Buffer) (index : Nat) : Buffer :=
  let buffer := s.buffer <<< 5 ||| BitVec.ofNat 32 index
  let bits := s.bits + 5
  if 8 ≤ bits then
    ⟨buffer, bits - 8, s.bytes ++ [UInt8.ofNat (buffer >>> (bits - 8) &&& 0xff).toNat]⟩
  else ⟨buffer, bits, s.bytes⟩

/-- `[a-z2-7]`. -/
def isBase32 (c : Char) : Bool := 'a' ≤ c && c ≤ 'z' || '2' ≤ c && c ≤ '7'

def decodeBase32 : Text → Option (List UInt8)
  | 'b' :: text =>
    if text ≠ [] ∧ text.all isBase32 = true then
      some (text.foldl (fun s char => Buffer.push s (alphabet.idxOf char)) ⟨0, 0, []⟩).bytes
    else none
  | _ => none

/-! ## Variable length integers -/

def readVarintFrom : List UInt8 → Nat → Nat → Option Nat
  | [], _, _ => none
  | byte :: bytes, index, shift =>
    if shift < 35 then
      if byte &&& 0x80 = 0 then some (index + 1) else readVarintFrom bytes (index + 1) (shift + 7)
    else none

def readVarint (bytes : List UInt8) (offset : Nat) : Option Nat :=
  readVarintFrom (bytes.drop offset) offset 0

/-- `{ value, nextOffset }`. -/
structure Varint where
  value : BitVec 32
  nextOffset : Nat

def readVarintValueFrom : List UInt8 → Nat → Nat → BitVec 32 → Option Varint
  | [], _, _, _ => none
  | byte :: bytes, index, shift, value =>
    if shift < 35 then
      let value := value ||| BitVec.ofNat 32 (byte &&& 0x7f).toNat <<< shift
      if byte &&& 0x80 = 0 then some ⟨value, index + 1⟩
      else readVarintValueFrom bytes (index + 1) (shift + 7) value
    else none

def readVarintValue (bytes : List UInt8) (offset : Nat) : Option Varint :=
  readVarintValueFrom (bytes.drop offset) offset 0 0

/-! ## Identifiers -/

/-- `\s`. -/
def isSpace (c : Char) : Bool :=
  9 ≤ c.toNat && c.toNat ≤ 13 || 8192 ≤ c.toNat && c.toNat ≤ 8202 ||
    c.toNat ∈ [32, 160, 5760, 8232, 8233, 8239, 8287, 12288, 65279]

/-- `[1-9A-HJ-NP-Za-km-z]`. -/
def isBase58 (c : Char) : Bool :=
  '1' ≤ c && c ≤ '9' || 'A' ≤ c && c ≤ 'H' || 'J' ≤ c && c ≤ 'N' || 'P' ≤ c && c ≤ 'Z' ||
    'a' ≤ c && c ≤ 'k' || 'm' ≤ c && c ≤ 'z'

/-- The regular expression of a version 0 identifier. -/
def isQm : Text → Bool
  | 'Q' :: 'm' :: text => text.length = 44 && text.all isBase58
  | _ => false

/-- The test of the bytes of a version 0 identifier. -/
def isSha256Multihash (bytes : List UInt8) : Bool :=
  bytes.length = 34 && bytes[0]? = some 0x12 && bytes[1]? = some 0x20

/-- The test of the bytes of a version 1 identifier. -/
def isVersion1 (bytes : List UInt8) : Bool :=
  match readVarint bytes 0 with
  | none => false
  | some versionEnd =>
    bytes[0]? = some 1 &&
      match readVarint bytes versionEnd >>= readVarint bytes >>= readVarint bytes with
      | none => false
      | some digestLengthEnd => digestLengthEnd < bytes.length

def isValidIpfsCid (value : Text) : Bool :=
  if value = [] || value.any isSpace then false
  else if isQm value then
    match decodeBase58 value with
    | some bytes => isSha256Multihash bytes
    | none => false
  else
    match if value.head? = some 'b' then decodeBase32 value else none with
    | some bytes => isVersion1 bytes
    | none => false

/-- `cid.startsWith('Qm')`. -/
def startsWithQm (cid : Text) : Bool := ['Q', 'm'].isPrefixOf cid

/-- The hash code and the digest of the bytes of `cid`. -/
def multihash (cid : Text) (encoded : List UInt8) : Option (Int × List UInt8) :=
  if startsWithQm cid then some (((encoded.getD 0 0).toNat : Int), encoded.drop 2)
  else do
    let version ← readVarintValue encoded 0
    let codec ← readVarintValue encoded version.nextOffset
    let hash ← readVarintValue encoded codec.nextOffset
    let length ← readVarintValue encoded hash.nextOffset
    if length.value.toInt = (encoded.length : Int) - length.nextOffset then
      some (hash.value.toInt, encoded.drop length.nextOffset)
    else none

section Verify

-- `createHash(algorithm).update(content).digest()` for the two algorithms
variable (sha256 sha512 : List UInt8 → List UInt8)

def algorithm (hashCode : Int) : Option (List UInt8 → List UInt8) :=
  if hashCode = 0x12 then some sha256 else if hashCode = 0x13 then some sha512 else none

def verifyIpfsContent (cid : Text) (content : List UInt8) : Bool :=
  if isValidIpfsCid cid = false then false
  else
    match if startsWithQm cid then decodeBase58 cid else decodeBase32 cid with
    | none => false
    | some encoded =>
      match multihash cid encoded with
      | none => false
      | some (hashCode, digest) =>
        match algorithm sha256 sha512 hashCode with
        | none => false
        | some hash => hash content = digest

end Verify

end AgriFi.IpfsCid
