import AgriFi.Hex
import AgriFi.PaddedCipher

/-
  The column transformer of `src/common/encryption.transformer.ts` and the helpers of
  `scripts/reencrypt-pii.ts` for the same format, `<iv>:<ciphertext>` in hexadecimal. Texts are
  encoded in UTF-8; what bytes that are no UTF-8 read as is left open.
-/

namespace AgriFi.EncryptionTransformer

open AgriFi.PaddedCipher

/-- A key of 32 bytes, and an initialization vector of 16. -/
abbrev Key := { bytes : List UInt8 // bytes.length = 32 }

abbrev Iv := { bytes : List UInt8 // bytes.length = 16 }

/-- `aes-256-cbc`, with blocks of 16 bytes, and what bytes that are no UTF-8 read as. -/
structure Crypto where
  cipher : Cipher Key Iv
  blockSize : cipher.blockSize = 16
  malformed : List UInt8 → String

variable {crypto : Crypto} {key : Key} {iv : Iv} {value plaintext : String}

def utf8 (text : String) : List UInt8 := text.toByteArray.data.toList

def Crypto.ofUtf8 (crypto : Crypto) (bytes : List UInt8) : String :=
  if h : ByteArray.IsValidUTF8 ⟨bytes.toArray⟩ then String.ofByteArray ⟨bytes.toArray⟩ h
  else crypto.malformed bytes

/-- The two texts in hexadecimal, deciphered; none where `crypto` throws. -/
def Crypto.decipher (crypto : Crypto) (key : Key) (ivHex encHex : List Char) : Option String :=
  if h : (Hex.decode ivHex).length = 16 then
    (crypto.cipher.decrypt key ⟨Hex.decode ivHex, h⟩ (Hex.decode encHex)).map crypto.ofUtf8
  else none

def Crypto.enciphered (crypto : Crypto) (key : Key) (iv : Iv) (value : String) : List Char :=
  Hex.encode iv.1 ++ ':' :: Hex.encode (crypto.cipher.encrypt key iv (utf8 value))

/-- `to` of the transformer, with the vector that it draws. -/
def Crypto.toColumn (crypto : Crypto) (key : Key) (iv : Iv) (value : Option String) :
    Option String :=
  value.map fun value => String.ofList (crypto.enciphered key iv value)

/-- `from` of the transformer. -/
def Crypto.fromColumn (crypto : Crypto) (key : Key) (value : Option String) : Option String := do
  let value ← value
  match value.toList.splitOn ':' with
  -- a value without a colon was stored before encryption was enabled
  | [_] => some value
  | ivHex :: encHex :: _ => crypto.decipher key ivHex encHex
  | [] => none

def isHex (text : List Char) : Bool := text.all fun c => (Hex.value c).isSome

def isTransformerCiphertext (value : String) : Bool :=
  match value.toList.splitOn ':' with
  | [ivHex, ctHex] => ivHex.length == 32 && !ctHex.isEmpty && isHex ivHex && isHex ctHex
  | _ => false

def Crypto.transformerDecrypt (crypto : Crypto) (value : String) (key : Key) : Option String :=
  if isTransformerCiphertext value then
    match value.toList.splitOn ':' with
    | [ivHex, encHex] => crypto.decipher key ivHex encHex
    | _ => none
  else none

def Crypto.transformerEncrypt (crypto : Crypto) (plaintext : String) (key : Key) (iv : Iv) :
    String :=
  String.ofList (crypto.enciphered key iv plaintext)

def Crypto.transformerVerify (crypto : Crypto) (ciphertext expectedPlaintext : String)
    (key : Key) : Bool :=
  crypto.transformerDecrypt ciphertext key == some expectedPlaintext

/-! ## Round trips -/

theorem ofUtf8_utf8 (crypto : Crypto) (text : String) : crypto.ofUtf8 (utf8 text) = text := by
  unfold Crypto.ofUtf8 utf8
  exact dif_pos text.isValidUTF8

theorem splitOn_enciphered (crypto : Crypto) (key : Key) (iv : Iv) (value : String) :
    (String.ofList (crypto.enciphered key iv value)).toList.splitOn ':' =
      [Hex.encode iv.1, Hex.encode (crypto.cipher.encrypt key iv (utf8 value))] := by
  have hcolon : ∀ bytes, ':' ∉ Hex.encode bytes := fun _ => Hex.not_mem_encode (by decide)
  rw [String.toList_ofList, Crypto.enciphered, List.splitOn_append_cons_self,
    List.splitOn_eq_singleton (hcolon _), List.splitOn_eq_singleton (hcolon _)]
  rfl

theorem decipher_enciphered (crypto : Crypto) (key : Key) (iv : Iv) (value : String) :
    crypto.decipher key (Hex.encode iv.1)
      (Hex.encode (crypto.cipher.encrypt key iv (utf8 value))) = some value := by
  unfold Crypto.decipher
  simp only [Hex.decode_encode]
  rw [dif_pos iv.2, Cipher.decrypt_encrypt, Option.map_some, ofUtf8_utf8]

theorem isHex_encode (bytes : List UInt8) : isHex (Hex.encode bytes) = true :=
  List.all_eq_true.mpr fun _ hc => Hex.isSome_value_of_mem hc

theorem isTransformerCiphertext_encrypt (crypto : Crypto) (plaintext : String) (key : Key)
    (iv : Iv) : isTransformerCiphertext (crypto.transformerEncrypt plaintext key iv) = true := by
  have hiv : (Hex.encode iv.1).length = 32 := by
    rw [Hex.length_encode, iv.2]
  have hct : Hex.encode (crypto.cipher.encrypt key iv (utf8 plaintext)) ≠ [] := by
    intro hnil
    have hdecrypt := crypto.cipher.decrypt_encrypt key iv (utf8 plaintext)
    have hempty : crypto.cipher.encrypt key iv (utf8 plaintext) = [] := by
      rw [← Hex.decode_encode (crypto.cipher.encrypt ..), hnil]
      rfl
    rw [hempty, Cipher.decrypt, if_neg fun h => h.1 rfl] at hdecrypt
    cases hdecrypt
  unfold isTransformerCiphertext Crypto.transformerEncrypt
  rw [splitOn_enciphered]
  simp [hiv, hct, isHex_encode]

theorem transformerDecrypt_encrypt (crypto : Crypto) (plaintext : String) (key : Key) (iv : Iv) :
    crypto.transformerDecrypt (crypto.transformerEncrypt plaintext key iv) key =
      some plaintext := by
  unfold Crypto.transformerDecrypt
  rw [if_pos (isTransformerCiphertext_encrypt ..), Crypto.transformerEncrypt, splitOn_enciphered]
  exact decipher_enciphered ..

theorem transformerVerify_encrypt (crypto : Crypto) (plaintext : String) (key : Key) (iv : Iv) :
    crypto.transformerVerify (crypto.transformerEncrypt plaintext key iv) plaintext key = true := by
  unfold Crypto.transformerVerify
  rw [transformerDecrypt_encrypt]
  exact beq_self_eq_true _

/-- The application reads what the script decrypts. -/
theorem fromColumn_of_transformerDecrypt (h : crypto.transformerDecrypt value key = some plaintext) :
    crypto.fromColumn key (some value) = some plaintext := by
  unfold Crypto.transformerDecrypt at h
  split at h
  case isFalse => cases h
  case isTrue =>
    show (match value.toList.splitOn ':' with
      | [_] => some value
      | ivHex :: encHex :: _ => crypto.decipher key ivHex encHex
      | [] => none) = _
    split at h
    · next hsplit =>
      rw [hsplit]
      exact h
    · cases h

theorem fromColumn_toColumn (crypto : Crypto) (key : Key) (iv : Iv) (value : Option String) :
    crypto.fromColumn key (crypto.toColumn key iv value) = value := by
  cases value with
  | none => rfl
  | some value => exact fromColumn_of_transformerDecrypt (transformerDecrypt_encrypt ..)

end AgriFi.EncryptionTransformer
