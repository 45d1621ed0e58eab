import AgriFi.JsonText
import AgriFi.Outbox.Processor
import AgriFi.PaddedCipher

/-
  `src/queue/queue.crypto.ts`: the key ring and its primary key, `encryptPayload` and
  `decryptPayload`. Environment variables and texts are strings of code units. AES-256-GCM is given
  as an encryption that its decryption inverts, AES-256-CBC as a padded cipher, and so is what bytes
  that are no UTF-8 read as.
-/

namespace AgriFi.Queue

open AgriFi.JsonText
open AgriFi.JsString (str)

abbrev Bytes : Type := List UInt8

/-- `aes-256-gcm` with tags of 16 bytes; the arguments are the key, the nonce, the associated data
    and a text. -/
structure Gcm where
  encrypt : Bytes → Bytes → Bytes → Bytes → Bytes × Bytes
  decrypt : Bytes → Bytes → Bytes → Bytes → Bytes → Option Bytes
  length_tag : ∀ key nonce aad text, (encrypt key nonce aad text).2.length = 16
  decrypt_encrypt : ∀ key nonce aad text,
    decrypt key nonce aad (encrypt key nonce aad text).1 (encrypt key nonce aad text).2 = some text

structure Crypto where
  gcm : Gcm
  cbc : PaddedCipher.Cipher Bytes Bytes
  malformed : Bytes → List Char

/-- What is thrown: an error of this module with its message, or one of Node's own. -/
inductive Failure where
  | error (message : JsString)
  | argumentType
  | cipher
  | json

/-- The variables that are read; `none` where one is not set. -/
structure Env where
  QUEUE_ENCRYPTION_KEYS : Option JsString
  QUEUE_ENCRYPTION_KEY_ID : Option JsString
  QUEUE_ENCRYPTION_KEY : Option JsString
  ENCRYPTION_KEY : Option JsString

def DEFAULT_KEY_ID : JsString := [49]

def GCM_NONCE_BYTES : Nat := 12

def GCM_TAG_BYTES : Nat := 16

def LEGACY_IV_BYTES : Nat := 16

/-! ## Patterns -/

/-- `[A-Za-z0-9_-]`. -/
def isKeyIdUnit (u : CodeUnit) : Bool :=
  65 ≤ u.val && u.val ≤ 90 || 97 ≤ u.val && u.val ≤ 122 || 48 ≤ u.val && u.val ≤ 57 ||
    u = 95 || u = 45

/-- `KEY_ID_PATTERN`. -/
def isKeyId (s : JsString) : Bool := s ≠ [] && s.all isKeyIdUnit

/-- `HEX_PATTERN`. -/
def isHex (s : JsString) : Bool := s.all fun u => (Hex.value (Char.ofNat u.val)).isSome

/-- `Buffer.from(s, 'hex')`. -/
def fromHex (s : JsString) : Bytes := Hex.decode (JsString.chars s)

def toHex (bytes : Bytes) : JsString := JsString.ofChars (Hex.encode bytes)

/-- What `trim` removes. -/
def isBlank (u : CodeUnit) : Bool :=
  9 ≤ u.val && u.val ≤ 13 || 8192 ≤ u.val && u.val ≤ 8202 ||
    u.val ∈ [32, 160, 5760, 8232, 8233, 8239, 8287, 12288, 65279]

/-! ## Keys -/

abbrev KeyRing : Type := List (JsString × Bytes)

def notHex (source : JsString) : Failure :=
  .error (source ++ str (" must be a 64-character hex string (32 bytes). " ++
    "Generate with: openssl rand -hex 32"))

def parseKey (hex source : JsString) : Except Failure Bytes :=
  if hex.length = 64 ∧ isHex hex then .ok (fromHex hex) else .error (notHex source)

/-- The entries of the parsed object, set one after the other. -/
def ringOf (ring : KeyRing) : List (JsString × Value) → Except Failure KeyRing
  | [] => .ok ring
  | (keyId, value) :: entries =>
    if isKeyId keyId then
      match value with
      | .str hex => do
        let key ← parseKey hex (str "QUEUE_ENCRYPTION_KEYS[" ++ keyId ++ str "]")
        ringOf (setEntry ring keyId key) entries
      | _ => .error (.error (str "Key \"" ++ keyId ++
          str "\" in QUEUE_ENCRYPTION_KEYS must be a string."))
    else .error (.error (str "Invalid key id \"" ++ keyId ++ str ("\" in QUEUE_ENCRYPTION_KEYS: " ++
      "only letters, digits, \"_\" and \"-\" are allowed (the id is embedded in the payload).")))

def parseKeyRing (raw : JsString) : Except Failure KeyRing :=
  match parse (JsString.chars raw) with
  | none => .error (.error (str ("QUEUE_ENCRYPTION_KEYS must be a JSON object mapping key ids " ++
      "to 64-character hex keys, e.g. \x7b\"1\":\"<hex>\",\"2\":\"<hex>\"\x7d.")))
  | some (.obj entries) => do
    let ring ← ringOf [] entries
    if ring = [] then .error (.error (str "QUEUE_ENCRYPTION_KEYS does not contain any keys."))
    else .ok ring
  | some _ => .error (.error (str "QUEUE_ENCRYPTION_KEYS must be a JSON object of keyId -> key."))

/-- The first of `KEY_ENV_VARS` that is set and not empty. -/
def singleKey (env : Env) : Option JsString :=
  (env.QUEUE_ENCRYPTION_KEY.filter (· ≠ [])).or (env.ENCRYPTION_KEY.filter (· ≠ []))

def readSingleKey (env : Env) : Except Failure KeyRing :=
  match singleKey env with
  | none => .error (notHex (str "QUEUE_ENCRYPTION_KEY"))
  | some hex =>
    let keyId := env.QUEUE_ENCRYPTION_KEY_ID.getD DEFAULT_KEY_ID
    if isKeyId keyId then do
      let key ← parseKey hex (str "QUEUE_ENCRYPTION_KEY")
      .ok [(keyId, key)]
    else .error (.error (str "QUEUE_ENCRYPTION_KEY_ID must match ^[A-Za-z0-9_-]+$."))

def readKeyRing (env : Env) : Except Failure KeyRing :=
  match env.QUEUE_ENCRYPTION_KEYS with
  | some raw => if raw.all isBlank then readSingleKey env else parseKeyRing raw
  | none => readSingleKey env

/-- The id of the primary key, and the key. -/
def getPrimaryKey (env : Env) : Except Failure (JsString × Bytes) := do
  let ring ← readKeyRing env
  match env.QUEUE_ENCRYPTION_KEY_ID.filter (· ≠ []) with
  | some keyId =>
    match ring.lookup keyId with
    | some key => .ok (keyId, key)
    | none => .error (.error (str "QUEUE_ENCRYPTION_KEY_ID=" ++ keyId ++
        str " is not present in the configured queue encryption key ring."))
  | none =>
    match ring.lookup DEFAULT_KEY_ID, ring.head? with
    | some key, _ => .ok (DEFAULT_KEY_ID, key)
    | none, some entry => .ok entry
    | none, none => .error .argumentType

def getLegacyKey (env : Env) : Except Failure Bytes :=
  match singleKey env with
  | none => .error (.error (str "QUEUE_ENCRYPTION_KEY must be set to decrypt legacy v1 payloads."))
  | some hex => parseKey hex (str "QUEUE_ENCRYPTION_KEY")

def getKeyById (env : Env) (keyId : JsString) : Except Failure Bytes := do
  let ring ← readKeyRing env
  match ring.lookup keyId with
  | some key => .ok key
  | none => .error (.error (str "No queue encryption key configured for key id \"" ++ keyId ++
      str "\". Add it to QUEUE_ENCRYPTION_KEYS to decrypt this payload."))

/-! ## Payloads -/

abbrev Nonce : Type := { bytes : Bytes // bytes.length = 12 }

/-- What `createDecipheriv` is given. -/
structure Envelope where
  key : Bytes
  nonce : Bytes
  tag : Bytes
  ciphertext : Bytes

/-- `decryptV2` up to the decryption. -/
def envelopeV2 (env : Env) (parts : List JsString) : Except Failure Envelope :=
  match parts with
  | [_, keyId, nonceHex, tagHex, encHex] =>
    if ¬ isKeyId keyId then
      .error (.error (str "Invalid key id in ciphertext: \"" ++ keyId ++ str "\""))
    else if nonceHex.length ≠ GCM_NONCE_BYTES * 2 ∨ ¬ isHex nonceHex then
      .error (.error (str "Invalid AES-GCM nonce in ciphertext."))
    else if tagHex.length ≠ GCM_TAG_BYTES * 2 ∨ ¬ isHex tagHex then
      .error (.error (str "Invalid AES-GCM authentication tag in ciphertext."))
    else if encHex.length % 2 ≠ 0 ∨ ¬ isHex encHex then
      .error (.error (str "Invalid ciphertext payload encoding."))
    else do
      let key ← getKeyById env keyId
      .ok ⟨key, fromHex nonceHex, fromHex tagHex, fromHex encHex⟩
  | _ => .error (.error
      (str "Invalid ciphertext format — expected v2:<keyId>:<nonce>:<tag>:<data>"))

/-- `JSON.parse` of bytes. -/
def Crypto.parseBytes (crypto : Crypto) (bytes : Bytes) : Except Failure Value :=
  match parse (JsString.decodeUtf8 crypto.malformed bytes) with
  | some v => .ok v
  | none => .error .json

def Crypto.decryptV2 (crypto : Crypto) (env : Env) (parts : List JsString) (aad : JsString) :
    Except Failure Value := do
  let envelope ← envelopeV2 env parts
  match crypto.gcm.decrypt envelope.key envelope.nonce (JsString.utf8 aad) envelope.ciphertext
    envelope.tag with
  | some dec => crypto.parseBytes dec
  | none => .error .cipher

def Crypto.decryptV1 (crypto : Crypto) (env : Env) (parts : List JsString) :
    Except Failure Value :=
  match parts with
  | [_, ivHex, encHex] =>
    if ivHex.length ≠ LEGACY_IV_BYTES * 2 ∨ ¬ isHex ivHex then
      .error (.error (str "Invalid AES-CBC IV in legacy v1 ciphertext."))
    else if encHex.length % 2 ≠ 0 ∨ ¬ isHex encHex then
      .error (.error (str "Invalid ciphertext payload encoding."))
    else do
      let key ← getLegacyKey env
      match crypto.cbc.decrypt key (fromHex ivHex) (fromHex encHex) with
      | some dec => crypto.parseBytes dec
      | none => .error .cipher
  | _ => .error (.error (str "Invalid ciphertext format — expected v1:<iv>:<data>"))

/-- `v2:<keyId>:<nonce hex>:<auth tag hex>:<ciphertext hex>`. -/
def joined (keyId : JsString) (nonce tag enc : Bytes) : JsString :=
  str "v2:" ++ keyId ++ str ":" ++ toHex nonce ++ str ":" ++ toHex tag ++ str ":" ++ toHex enc

/-- With the nonce that is drawn. -/
def Crypto.encryptPayload (crypto : Crypto) (env : Env) (nonce : Nonce) (data : Value)
    (aad : JsString) : Except Failure JsString := do
  let (keyId, key) ← getPrimaryKey env
  match stringify data with
  | none => .error .argumentType
  | some text =>
    let (enc, tag) := crypto.gcm.encrypt key nonce.1 (JsString.utf8 aad) (JsString.encodeUtf8 text)
    .ok (joined keyId nonce.1 tag enc)

def Crypto.decryptPayload (crypto : Crypto) (env : Env) (ciphertext aad : JsString) :
    Except Failure Value :=
  if ciphertext = [] then
    .error (.error (str "Invalid ciphertext: expected a non-empty string."))
  else
    let parts := ciphertext.splitOn 58
    if parts.head? = some (str "v2") then crypto.decryptV2 env parts aad
    else if parts.head? = some (str "v1") then crypto.decryptV1 env parts
    else .error (.error (str "Unsupported queue payload version \"" ++ parts.head?.getD [] ++
      str "\" — expected v1 or v2."))

/-! ## Hexadecimal pieces -/

variable {bytes : Bytes} {u : CodeUnit} {keyId : JsString} {key : Bytes} {env : Env}
variable {ring : KeyRing}

theorem toNat_of_isSome_value {c : Char} (h : (Hex.value c).isSome) : c.toNat < 128 := by
  have hle : ∀ d : Char, c ≤ d → c.toNat ≤ d.toNat := fun _ h => h
  unfold Hex.value at h
  split at h
  · next hc => exact (hle _ hc.2).trans_lt (by decide)
  split at h
  · next hc => exact (hle _ hc.2).trans_lt (by decide)
  split at h
  · next hc => exact (hle _ hc.2).trans_lt (by decide)
  · cases h

theorem toNat_encode {c : Char} (h : c ∈ Hex.encode bytes) : c.toNat < 0x10000 :=
  (toNat_of_isSome_value (Hex.isSome_value_of_mem h)).trans (by decide)

theorem mem_toHex (h : u ∈ toHex bytes) :
    ∃ c ∈ Hex.encode bytes, u = JsString.unit c.toNat ∧ Char.ofNat u.val = c := by
  rw [toHex, JsString.ofChars_eq_map fun _ => toNat_encode] at h
  obtain ⟨c, hc, rfl⟩ := List.mem_map.mp h
  refine ⟨c, hc, rfl, ?_⟩
  rw [JsString.val_unit (toNat_encode hc), Char.ofNat_toNat]

theorem isHex_toHex (bytes : Bytes) : isHex (toHex bytes) = true := by
  refine List.all_eq_true.mpr fun u hu => ?_
  obtain ⟨c, hc, -, hchar⟩ := mem_toHex hu
  rw [hchar]
  exact Hex.isSome_value_of_mem hc

theorem fromHex_toHex (bytes : Bytes) : fromHex (toHex bytes) = bytes := by
  rw [fromHex, toHex, JsString.chars_ofChars, Hex.decode_encode]

theorem length_toHex (bytes : Bytes) : (toHex bytes).length = 2 * bytes.length := by
  rw [toHex, JsString.ofChars_eq_map fun _ => toNat_encode, List.length_map, Hex.length_encode]

theorem colon_not_mem_toHex (bytes : Bytes) : (58 : CodeUnit) ∉ toHex bytes := by
  intro h
  obtain ⟨c, hc, -, hchar⟩ := mem_toHex h
  obtain rfl : ':' = c := hchar
  exact Hex.not_mem_encode (by decide) hc

theorem colon_not_mem_keyId (h : isKeyId keyId = true) : (58 : CodeUnit) ∉ keyId := by
  intro hmem
  have hall := (Bool.and_eq_true _ _ ▸ h : _ ∧ _).2
  exact absurd (List.all_eq_true.mp hall _ hmem) (by decide)

/-! ## Key rings -/

/-- The configuration has the key under the id. -/
def Keeps (keyId : JsString) (key : Bytes) (env : Env) : Prop :=
  ∃ ring, readKeyRing env = .ok ring ∧ ring.lookup keyId = some key

theorem getKeyById_of_keeps (h : Keeps keyId key env) : getKeyById env keyId = .ok key := by
  obtain ⟨ring, hring, hkey⟩ := h
  unfold getKeyById
  rw [hring]
  show (match ring.lookup keyId with | some key => _ | none => _) = _
  rw [hkey]

theorem mem_setEntry {es : KeyRing} {e : JsString × Bytes} (h : e ∈ setEntry es keyId key) :
    e = (keyId, key) ∨ e ∈ es := by
  induction es with
  | nil => exact .inl (List.mem_singleton.mp h)
  | cons d es ih =>
    unfold setEntry at h
    split at h
    · exact (List.mem_cons.mp h).imp_right (List.mem_cons_of_mem _)
    · rcases List.mem_cons.mp h with rfl | h
      · exact .inr (List.mem_cons_self ..)
      · exact (ih h).imp_right (List.mem_cons_of_mem _)

/-- Every id of the ring passes the pattern. -/
def GoodIds (ring : KeyRing) : Prop := ∀ e ∈ ring, isKeyId e.1 = true

theorem ringOf_goodIds {entries : List (JsString × Value)} {start : KeyRing}
    (hstart : GoodIds start) (h : ringOf start entries = .ok ring) : GoodIds ring := by
  induction entries generalizing start with
  | nil =>
    cases h
    exact hstart
  | cons e entries ih =>
    obtain ⟨keyId, value⟩ := e
    unfold ringOf at h
    split at h
    · next hid =>
      split at h
      · next hex =>
        cases hkey : parseKey hex (str "QUEUE_ENCRYPTION_KEYS[" ++ keyId ++ str "]") with
        | error e =>
          rw [hkey] at h
          cases h
        | ok key =>
          rw [hkey] at h
          refine ih (fun e he => ?_) h
          rcases mem_setEntry he with rfl | he
          · exact hid
          · exact hstart e he
      · cases h
    · cases h

theorem readSingleKey_goodIds (h : readSingleKey env = .ok ring) : GoodIds ring := by
  unfold readSingleKey at h
  split at h
  · cases h
  · next hex _ =>
    dsimp only at h
    split at h
    · next hid =>
      cases hkey : parseKey hex (str "QUEUE_ENCRYPTION_KEY") with
      | error e =>
        rw [hkey] at h
        cases h
      | ok key =>
        rw [hkey] at h
        cases h
        exact List.forall_mem_singleton.mpr hid
    · cases h

theorem parseKeyRing_goodIds {raw : JsString} (h : parseKeyRing raw = .ok ring) :
    GoodIds ring := by
  unfold parseKeyRing at h
  split at h
  · cases h
  · next entries _ =>
    cases hring : ringOf [] entries with
    | error e =>
      rw [hring] at h
      cases h
    | ok made =>
      rw [hring] at h
      dsimp only [Except.bind, bind] at h
      split at h
      · cases h
      · cases h
        exact ringOf_goodIds (fun _ he => by cases he) hring
  · cases h

theorem readKeyRing_goodIds (h : readKeyRing env = .ok ring) : GoodIds ring := by
  unfold readKeyRing at h
  split at h
  · split at h
    · exact readSingleKey_goodIds h
    · exact parseKeyRing_goodIds h
  · exact readSingleKey_goodIds h

theorem mem_of_lookup (h : ring.lookup keyId = some key) : (keyId, key) ∈ ring := by
  induction ring with
  | nil => cases h
  | cons e ring ih =>
    obtain ⟨k, v⟩ := e
    rw [List.lookup_cons] at h
    split at h
    · next heq =>
      obtain rfl := Option.some.inj h
      rw [eq_of_beq heq]
      exact List.mem_cons_self ..
    · exact List.mem_cons_of_mem _ (ih h)

theorem isKeyId_of_keeps (h : Keeps keyId key env) : isKeyId keyId = true := by
  obtain ⟨ring, hring, hkey⟩ := h
  exact readKeyRing_goodIds hring _ (mem_of_lookup hkey)

/-- The primary key is found again under its id. -/
theorem keeps_of_getPrimaryKey (h : getPrimaryKey env = .ok (keyId, key)) :
    Keeps keyId key env := by
  unfold getPrimaryKey at h
  cases hring : readKeyRing env with
  | error e =>
    rw [hring] at h
    cases h
  | ok ring =>
    rw [hring] at h
    dsimp only [Except.bind, bind] at h
    refine ⟨ring, hring, ?_⟩
    split at h
    · split at h
      · next hlookup =>
        cases h
        exact hlookup
      · cases h
    · split at h
      · next hlookup =>
        cases h
        exact hlookup
      · next entry _ hhead =>
        cases h
        cases ring with
        | nil => cases hhead
        | cons e ring =>
          cases hhead
          rw [List.lookup_cons, beq_self_eq_true]
      · cases h

end AgriFi.Queue

/-
  Runs of `encryptPayload` and `decryptPayload` under configurations that change. What was encrypted
  is decrypted as long as its key stays under its id (`decryptPayload_joined`), and where GCM
  accepts no forgery what is decrypted was encrypted (`call_of_decryptPayload`). The associated data
  is bound as UTF-8 only: a lone surrogate passes for the replacement character.
-/

namespace AgriFi.Queue

open AgriFi.JsonText
open AgriFi.JsString (str)
open AgriFi.Outbox (OutboxEntity)

variable {crypto : Crypto} {env : Env} {keyId aad c : JsString} {key nonce tag enc : Bytes}
variable {data v : Value}

/-! ## One payload -/

theorem splitOn_joined (h : isKeyId keyId = true) (nonce tag enc : Bytes) :
    (joined keyId nonce tag enc).splitOn 58 =
      [str "v2", keyId, toHex nonce, toHex tag, toHex enc] := by
  have hcolon : str ":" = [58] := by decide
  have hversion : str "v2:" = str "v2" ++ [58] := by decide
  have hshape : joined keyId nonce tag enc = str "v2" ++ 58 :: (keyId ++ 58 ::
      (toHex nonce ++ 58 :: (toHex tag ++ 58 :: toHex enc))) := by
    simp only [joined, hcolon, hversion, List.append_assoc, List.cons_append, List.nil_append]
  rw [hshape, List.splitOn_append_cons_self, List.splitOn_append_cons_self,
    List.splitOn_append_cons_self, List.splitOn_append_cons_self,
    List.splitOn_eq_singleton (by decide), List.splitOn_eq_singleton (colon_not_mem_keyId h),
    List.splitOn_eq_singleton (colon_not_mem_toHex _),
    List.splitOn_eq_singleton (colon_not_mem_toHex _),
    List.splitOn_eq_singleton (colon_not_mem_toHex _)]
  rfl

theorem prefix_joined (keyId : JsString) (nonce tag enc : Bytes) :
    str "v2:" <+: joined keyId nonce tag enc := by
  refine ⟨keyId ++ str ":" ++ toHex nonce ++ str ":" ++ toHex tag ++ str ":" ++ toHex enc, ?_⟩
  simp only [joined, List.append_assoc]

theorem envelopeV2_joined (h : Keeps keyId key env) (hnonce : nonce.length = 12)
    (htag : tag.length = 16) (enc : Bytes) :
    envelopeV2 env [str "v2", keyId, toHex nonce, toHex tag, toHex enc] =
      .ok ⟨key, nonce, tag, enc⟩ := by
  have hid : ¬ ¬ isKeyId keyId = true := not_not.mpr (isKeyId_of_keeps h)
  have hhex : ∀ bytes, ¬ ¬ isHex (toHex bytes) = true := fun bytes =>
    not_not.mpr (isHex_toHex bytes)
  unfold envelopeV2
  dsimp only
  rw [if_neg hid, if_neg, if_neg, if_neg, getKeyById_of_keeps h]
  · dsimp only [Except.bind, bind]
    rw [fromHex_toHex, fromHex_toHex, fromHex_toHex]
  · rw [length_toHex, Nat.mul_mod_right]
    exact not_or.mpr ⟨fun h => h rfl, hhex enc⟩
  · rw [length_toHex, htag]
    exact not_or.mpr ⟨fun h => h rfl, hhex tag⟩
  · rw [length_toHex, hnonce]
    exact not_or.mpr ⟨fun h => h rfl, hhex nonce⟩

theorem parseBytes_encodeUtf8 (crypto : Crypto) (hdata : IsJson data)
    (hordered : ordered data = data) :
    crypto.parseBytes (JsString.encodeUtf8 (text data)) = .ok data := by
  unfold Crypto.parseBytes
  rw [JsString.decodeUtf8_encodeUtf8, parse_text hdata hordered]

theorem stringify_of_isJson (h : IsJson data) : stringify data = some (text data) := by
  cases h <;> rfl

/-- A text that begins with the version. -/
theorem head_splitOn (h : str "v2:" <+: c) : (c.splitOn 58).head? = some (str "v2") := by
  obtain ⟨rest, rfl⟩ := h
  have hversion : str "v2:" ++ rest = str "v2" ++ 58 :: rest := by
    rw [show str "v2:" = str "v2" ++ [58] by decide, List.append_assoc, List.singleton_append]
  rw [hversion, List.splitOn_append_cons_self, List.splitOn_eq_singleton (by decide)]
  rfl

theorem decryptPayload_v2 (crypto : Crypto) (env : Env) (h : str "v2:" <+: c) (aad : JsString) :
    crypto.decryptPayload env c aad = crypto.decryptV2 env (c.splitOn 58) aad := by
  have hne : c ≠ [] := by
    rintro rfl
    exact absurd (List.prefix_nil.mp h) (by decide)
  unfold Crypto.decryptPayload
  dsimp only
  rw [if_neg hne, if_pos (head_splitOn h)]

theorem encryptPayload_eq (crypto : Crypto) (hkey : getPrimaryKey env = .ok (keyId, key))
    {text : List Char} (htext : stringify data = some text) (nonce : Nonce) (aad : JsString) :
    crypto.encryptPayload env nonce data aad = .ok (joined keyId nonce.1
      (crypto.gcm.encrypt key nonce.1 (JsString.utf8 aad) (JsString.encodeUtf8 text)).2
      (crypto.gcm.encrypt key nonce.1 (JsString.utf8 aad) (JsString.encodeUtf8 text)).1) := by
  unfold Crypto.encryptPayload
  rw [hkey]
  dsimp only [Except.bind, bind]
  rw [htext]

/-- What was encrypted is decrypted wherever its key is found under its id. -/
theorem decryptPayload_joined (crypto : Crypto) (h : Keeps keyId key env) (nonce : Nonce)
    (aad : JsString) (hdata : IsJson data) (hordered : ordered data = data) :
    crypto.decryptPayload env (joined keyId nonce.1
      (crypto.gcm.encrypt key nonce.1 (JsString.utf8 aad) (JsString.encodeUtf8 (text data))).2
      (crypto.gcm.encrypt key nonce.1 (JsString.utf8 aad) (JsString.encodeUtf8 (text data))).1)
      aad = .ok data := by
  rw [decryptPayload_v2 crypto env (prefix_joined ..), splitOn_joined (isKeyId_of_keeps h),
    Crypto.decryptV2, envelopeV2_joined h nonce.2 (crypto.gcm.length_tag ..)]
  dsimp only [Except.bind, bind]
  rw [crypto.gcm.decrypt_encrypt]
  exact parseBytes_encodeUtf8 crypto hdata hordered

/-- What `processEvent` of the outbox emits, under the pattern that it emits it with. -/
def Crypto.emitted (crypto : Crypto) (env : Env) (nonce : Nonce) (event : OutboxEntity Value) :
    Except Failure (JsString × JsString) := do
  let encryptedPayload ← crypto.encryptPayload env nonce event.payload (str event.eventType)
  .ok (str event.eventType, encryptedPayload)

/-- The consumer of the pattern reads the payload of the event. -/
theorem decryptPayload_emitted {env' : Env} {event : OutboxEntity Value}
    {message : JsString × JsString}
    (hkey : getPrimaryKey env = .ok (keyId, key)) (hkeeps : Keeps keyId key env') (nonce : Nonce)
    (hdata : IsJson event.payload) (hordered : ordered event.payload = event.payload)
    (h : crypto.emitted env nonce event = .ok message) :
    crypto.decryptPayload env' message.2 message.1 = .ok event.payload := by
  unfold Crypto.emitted at h
  rw [encryptPayload_eq crypto hkey (stringify_of_isJson hdata)] at h
  obtain rfl := Except.ok.inj h
  exact decryptPayload_joined crypto hkeeps nonce _ hdata hordered

/-! ## Runs -/

/-- A call of `encryptPayload` that returned. -/
structure Call where
  env : Env
  nonce : Nonce
  data : Value
  aad : JsString

/-- The configuration, and as history variable the calls of `encryptPayload` that returned. -/
structure State where
  env : Env
  calls : List Call

inductive Event where
  | configure (env : Env)
  | encrypt (nonce : Nonce) (data : Value) (aad : JsString)
  | decrypt (ciphertext aad : JsString)

def Crypto.step (crypto : Crypto) (s : State) : Event → State
  | .configure env => { s with env }
  | .encrypt nonce data aad =>
    match crypto.encryptPayload s.env nonce data aad with
    | .ok _ => { s with calls := s.calls ++ [⟨s.env, nonce, data, aad⟩] }
    | .error _ => s
  | .decrypt _ _ => s

def Crypto.run (crypto : Crypto) (s : State) (events : List Event) : State :=
  events.foldl crypto.step s

/-- A change of the configuration has the key under the id. -/
def Event.Keeps (keyId : JsString) (key : Bytes) : Event → Prop
  | .configure env => Queue.Keeps keyId key env
  | .encrypt .. | .decrypt .. => True

/-- The call had this key, and GCM made this ciphertext and tag for it. -/
def Call.Made (crypto : Crypto) (call : Call) (key enc tag : Bytes) : Prop :=
  ∃ keyId text, getPrimaryKey call.env = .ok (keyId, key) ∧ stringify call.data = some text ∧
    crypto.gcm.encrypt key call.nonce.1 (JsString.utf8 call.aad) (JsString.encodeUtf8 text) =
      (enc, tag)

/-- What GCM accepts of this payload was produced under that key, nonce and associated data. -/
def Crypto.NoForgery (crypto : Crypto) (s : State) (c aad : JsString) : Prop :=
  ∀ envelope, envelopeV2 s.env (c.splitOn 58) = .ok envelope →
    (crypto.gcm.decrypt envelope.key envelope.nonce (JsString.utf8 aad) envelope.ciphertext
      envelope.tag).isSome →
    ∃ call ∈ s.calls, call.Made crypto envelope.key envelope.ciphertext envelope.tag ∧
      call.nonce.1 = envelope.nonce ∧ JsString.utf8 call.aad = JsString.utf8 aad

theorem step_keeps {s : State} {event : Event} (h : Keeps keyId key s.env)
    (hevent : event.Keeps keyId key) : Keeps keyId key (crypto.step s event).env := by
  cases event with
  | configure env => exact hevent
  | encrypt nonce data aad =>
    unfold Crypto.step
    dsimp only
    split
    · exact h
    · exact h
  | decrypt c aad => exact h

theorem run_keeps {s : State} {events : List Event} (h : Keeps keyId key s.env)
    (hevents : ∀ event ∈ events, event.Keeps keyId key) :
    Keeps keyId key (crypto.run s events).env := by
  induction events generalizing s with
  | nil => exact h
  | cons event events ih =>
    exact ih (step_keeps h (hevents event (List.mem_cons_self ..)))
      fun e he => hevents e (List.mem_cons_of_mem _ he)

/-- What is decrypted was encrypted, with associated data of the same bytes and data of the same
    JSON text. -/
theorem call_of_decryptPayload {s : State} (hforge : crypto.NoForgery s c aad)
    (hc : str "v2:" <+: c) (h : crypto.decryptPayload s.env c aad = .ok v) :
    ∃ envelope, envelopeV2 s.env (c.splitOn 58) = .ok envelope ∧
      ∃ call ∈ s.calls, call.Made crypto envelope.key envelope.ciphertext envelope.tag ∧
        call.nonce.1 = envelope.nonce ∧ JsString.utf8 call.aad = JsString.utf8 aad ∧
        (stringify call.data).bind parse = some v := by
  rw [decryptPayload_v2 crypto s.env hc] at h
  unfold Crypto.decryptV2 at h
  cases henvelope : envelopeV2 s.env (c.splitOn 58) with
  | error e =>
    rw [henvelope] at h
    cases h
  | ok envelope =>
    rw [henvelope] at h
    dsimp only [Except.bind, bind] at h
    split at h
    · next dec hdec =>
      obtain ⟨call, hcall, hmade, hnonce, haad⟩ := hforge envelope henvelope (by rw [hdec]; rfl)
      refine ⟨envelope, rfl, call, hcall, hmade, hnonce, haad, ?_⟩
      obtain ⟨keyId, text, -, htext, hmade⟩ := hmade
      -- GCM decrypts its own output to the text of the call
      have hown := crypto.gcm.decrypt_encrypt envelope.key call.nonce.1 (JsString.utf8 call.aad)
        (JsString.encodeUtf8 text)
      rw [hmade, hnonce, haad, hdec] at hown
      rw [Option.some.inj hown] at h
      rw [htext, Option.bind_some]
      unfold Crypto.parseBytes at h
      rw [JsString.decodeUtf8_encodeUtf8] at h
      split at h
      · next hparse =>
        cases h
        exact hparse
      · cases h
    · cases h

theorem run_encrypt {s : State} (hkey : getPrimaryKey s.env = .ok (keyId, key))
    {text : List Char} (htext : stringify data = some text) (nonce : Nonce) (aad : JsString)
    (events : List Event) :
    crypto.run s (.encrypt nonce data aad :: events) =
      crypto.run { s with calls := s.calls ++ [⟨s.env, nonce, data, aad⟩] } events := by
  have hstep : crypto.step s (.encrypt nonce data aad) =
      { s with calls := s.calls ++ [⟨s.env, nonce, data, aad⟩] } := by
    unfold Crypto.step
    dsimp only
    rw [encryptPayload_eq crypto hkey htext]
  unfold Crypto.run
  rw [List.foldl_cons, hstep]

/-- An encrypted payload is decrypted to its data, at the end of every run that keeps its key under
    its id. And in every state that a run reaches, where GCM accepts no forgery, what a payload is
    decrypted to was encrypted by an earlier call: with the key, nonce, ciphertext and tag of the
    payload, with associated data of the same bytes, the same where both are well-formed, and with
    data of the same JSON text, the same where it is a JSON value. -/
theorem decryptPayload_encryptPayload (crypto : Crypto) :
    (∀ s nonce data aad keyId key events, getPrimaryKey s.env = .ok (keyId, key) →
      IsJson data → ordered data = data → (∀ event ∈ events, event.Keeps keyId key) →
      ∃ c, crypto.encryptPayload s.env nonce data aad = .ok c ∧
        crypto.decryptPayload (crypto.run s (.encrypt nonce data aad :: events)).env c aad =
          .ok data) ∧
    ∀ env events c aad v, let s := crypto.run ⟨env, []⟩ events
      crypto.NoForgery s c aad → str "v2:" <+: c → crypto.decryptPayload s.env c aad = .ok v →
      ∃ envelope, envelopeV2 s.env (c.splitOn 58) = .ok envelope ∧
        ∃ call ∈ s.calls, call.Made crypto envelope.key envelope.ciphertext envelope.tag ∧
          call.nonce.1 = envelope.nonce ∧ JsString.utf8 call.aad = JsString.utf8 aad ∧
          (JsString.WellFormed call.aad → JsString.WellFormed aad → call.aad = aad) ∧
          (stringify call.data).bind parse = some v ∧
          (IsJson call.data → ordered call.data = call.data → call.data = v) := by
  constructor
  · intro s nonce data aad keyId key events hkey hdata hordered hevents
    have htext := stringify_of_isJson hdata
    have hstart : Keeps keyId key s.env := keeps_of_getPrimaryKey hkey
    have hkeeps : Keeps keyId key (crypto.run s (.encrypt nonce data aad :: events)).env := by
      rw [run_encrypt hkey htext]
      exact run_keeps hstart hevents
    exact ⟨_, encryptPayload_eq crypto hkey htext nonce aad,
      decryptPayload_joined crypto hkeeps nonce aad hdata hordered⟩
  · intro env events c aad v s hforge hc h
    obtain ⟨envelope, henvelope, call, hcall, hmade, hnonce, haad, hparse⟩ :=
      call_of_decryptPayload hforge hc h
    refine ⟨envelope, henvelope, call, hcall, hmade, hnonce, haad,
      fun hold hnew => JsString.eq_of_utf8 hold hnew haad, hparse, fun hdata hordered => ?_⟩
    rw [stringify_of_isJson hdata, Option.bind_some, parse_text hdata hordered] at hparse
    exact Option.some.inj hparse

/-! ## One input -/

/-- An encryption with these results on one input; on the others the text stays as it is, with a tag
    of zeros. -/
def gcmAt (key nonce aad text enc tag : Bytes) (hlength : tag.length = 16)
    (hzero : tag ≠ List.replicate 16 0) : Gcm where
  encrypt k n a t :=
    if k = key ∧ n = nonce ∧ a = aad ∧ t = text then (enc, tag) else (t, List.replicate 16 0)
  decrypt k n a e g :=
    if g = tag then
      if k = key ∧ n = nonce ∧ a = aad ∧ e = enc then some text else none
    else if g = List.replicate 16 0 then some e else none
  length_tag k n a t := by
    split
    · exact hlength
    · rfl
  decrypt_encrypt k n a t := by
    by_cases h : k = key ∧ n = nonce ∧ a = aad ∧ t = text
    · rw [if_pos h, if_pos rfl, if_pos ⟨h.1, h.2.1, h.2.2.1, rfl⟩, h.2.2.2]
    · rw [if_neg h, if_neg (Ne.symm hzero), if_pos rfl]

/-- Blocks of 16 bytes that stay as they are. -/
def plainCbc : PaddedCipher.Cipher Bytes Bytes where
  blockSize := LEGACY_IV_BYTES
  positive := by decide
  small := by decide
  perm _ _ := Equiv.refl _
  length_perm _ _ _ := rfl

def zeroNonce : Nonce := ⟨List.replicate 12 0, rfl⟩

def zeroEnv : Env := ⟨none, none, some (List.replicate 64 48), none⟩

def zeroKey : Bytes := List.replicate 32 0

theorem getPrimaryKey_zeroEnv : getPrimaryKey zeroEnv = .ok (DEFAULT_KEY_ID, zeroKey) := by
  rfl

/-- AES-256-GCM of `null` for `deal.funded`, under the key and the nonce of zeros. -/
def nullCrypto : Crypto where
  gcm := gcmAt zeroKey zeroNonce.1 (JsString.utf8 (str "deal.funded"))
    (JsString.encodeUtf8 (text .null)) [160, 210, 44, 81]
    [27, 35, 44, 75, 131, 142, 86, 27, 231, 250, 230, 238, 25, 207, 64, 118] rfl (by decide)
  cbc := plainCbc
  malformed _ := []

/-- AES-256-GCM of an empty object for the replacement character, under the same key and nonce. -/
def emptyCrypto : Crypto where
  gcm := gcmAt zeroKey zeroNonce.1 (JsString.utf8 [0xFFFD]) (JsString.encodeUtf8 (text (.obj [])))
    [181, 218] [156, 24, 252, 124, 58, 50, 90, 62, 139, 132, 134, 31, 111, 155, 105, 93] rfl
    (by decide)
  cbc := plainCbc
  malformed _ := []

theorem decryptPayload_congr {aad aad' : JsString} (crypto : Crypto) (env : Env) (c : JsString)
    (h : JsString.utf8 aad = JsString.utf8 aad') :
    crypto.decryptPayload env c aad = crypto.decryptPayload env c aad' := by
  unfold Crypto.decryptPayload Crypto.decryptV2
  rw [h]

/-- GCM accepts no forgery in a payload that a call of the run has made. -/
theorem noForgery_joined (s : State) (call : Call) {text : List Char} (hcall : call ∈ s.calls)
    (hkey : getPrimaryKey call.env = .ok (keyId, key)) (htext : stringify call.data = some text)
    (hkeeps : Keeps keyId key s.env) (haad : JsString.utf8 call.aad = JsString.utf8 aad) :
    crypto.NoForgery s (joined keyId call.nonce.1
      (crypto.gcm.encrypt key call.nonce.1 (JsString.utf8 call.aad) (JsString.encodeUtf8 text)).2
      (crypto.gcm.encrypt key call.nonce.1 (JsString.utf8 call.aad) (JsString.encodeUtf8 text)).1)
      aad := by
  intro envelope henvelope _
  rw [splitOn_joined (isKeyId_of_keeps hkeeps),
    envelopeV2_joined hkeeps call.nonce.2 (crypto.gcm.length_tag ..)] at henvelope
  obtain rfl := Except.ok.inj henvelope
  exact ⟨call, hcall, ⟨keyId, text, hkey, htext, rfl⟩, rfl, haad⟩

theorem decryptPayload_encryptPayload_null :
    let events := [Event.encrypt zeroNonce .null (str "deal.funded")]
    (∃ c, nullCrypto.encryptPayload zeroEnv zeroNonce .null (str "deal.funded") = .ok c ∧
      nullCrypto.decryptPayload (nullCrypto.run ⟨zeroEnv, []⟩ (.encrypt zeroNonce .null
        (str "deal.funded") :: [.configure zeroEnv])).env c (str "deal.funded") = .ok .null) ∧
      ∃ call ∈ (nullCrypto.run ⟨zeroEnv, []⟩ events).calls, call.nonce.1 = zeroNonce.1 ∧
        JsString.utf8 call.aad = JsString.utf8 (str "deal.funded") := by
  intro events
  have hkeeps : Keeps DEFAULT_KEY_ID zeroKey zeroEnv := keeps_of_getPrimaryKey getPrimaryKey_zeroEnv
  have hrun : nullCrypto.run ⟨zeroEnv, []⟩ events =
      ⟨zeroEnv, [⟨zeroEnv, zeroNonce, .null, str "deal.funded"⟩]⟩ :=
    run_encrypt getPrimaryKey_zeroEnv rfl zeroNonce _ []
  refine ⟨(decryptPayload_encryptPayload nullCrypto).1 ⟨zeroEnv, []⟩ zeroNonce .null _ _ _
    [.configure zeroEnv] getPrimaryKey_zeroEnv .null rfl
    (List.forall_mem_singleton.mpr hkeeps), ?_⟩
  have hopen := decryptPayload_joined nullCrypto hkeeps zeroNonce (str "deal.funded") .null rfl
  let call : Call := ⟨zeroEnv, zeroNonce, .null, str "deal.funded"⟩
  have hforge : nullCrypto.NoForgery ⟨zeroEnv, [call]⟩ _ (str "deal.funded") :=
    noForgery_joined _ call (List.mem_singleton_self _) getPrimaryKey_zeroEnv rfl hkeeps rfl
  have henv : (nullCrypto.run ⟨zeroEnv, []⟩ events).env = zeroEnv := by rw [hrun]
  rw [← hrun] at hforge
  rw [← henv] at hopen
  obtain ⟨envelope, henvelope, call, hcall, -, hnonce, haad, -⟩ :=
    (decryptPayload_encryptPayload nullCrypto).2 zeroEnv events _ _ _ hforge (prefix_joined ..)
      hopen
  rw [hrun] at hcall
  obtain rfl := List.mem_singleton.mp hcall
  exact ⟨_, hrun ▸ List.mem_singleton_self _, rfl, haad⟩

/-- What was encrypted for the replacement character is decrypted for a lone surrogate, and a field
    that is `undefined` is lost. -/
theorem decryptPayload_not_bound :
    let data : Value := .obj [([97], .undefined)]
    let s := emptyCrypto.run ⟨zeroEnv, []⟩ [.encrypt zeroNonce data [0xFFFD]]
    ∃ c, emptyCrypto.NoForgery s c [0xD800] ∧ str "v2:" <+: c ∧
      emptyCrypto.decryptPayload s.env c [0xD800] = .ok (.obj []) ∧
      ∀ call ∈ s.calls, call.aad ≠ [0xD800] ∧ call.data ≠ .obj [] := by
  intro data s
  have hkeeps : Keeps DEFAULT_KEY_ID zeroKey zeroEnv := keeps_of_getPrimaryKey getPrimaryKey_zeroEnv
  have hrun : s = ⟨zeroEnv, [⟨zeroEnv, zeroNonce, data, [0xFFFD]⟩]⟩ :=
    run_encrypt getPrimaryKey_zeroEnv rfl zeroNonce _ []
  have hbytes : JsString.utf8 [0xFFFD] = JsString.utf8 [0xD800] := by decide
  have hempty : IsJson (.obj []) := .obj List.nodup_nil nofun
  rw [hrun]
  refine ⟨_, noForgery_joined _ ⟨zeroEnv, zeroNonce, data, [0xFFFD]⟩ (List.mem_singleton_self _)
    getPrimaryKey_zeroEnv rfl hkeeps hbytes, ?_, ?_, ?_⟩
  · exact prefix_joined ..
  · rw [← decryptPayload_congr _ _ _ hbytes]
    exact decryptPayload_joined emptyCrypto hkeeps zeroNonce [0xFFFD] hempty rfl
  · refine List.forall_mem_singleton.mpr ⟨by decide, ?_⟩
    intro h
    cases h

end AgriFi.Queue
