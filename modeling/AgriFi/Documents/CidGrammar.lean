import AgriFi.Documents.Varints

/-
  The grammar of content identifiers, and what `isValidIpfsCid` accepts: version 0 identifiers, and
  texts in base 32 that have the fields of version 1, whatever their spare bits and whatever length
  they declare (`isValidIpfsCid_iff`).
-/

namespace AgriFi.IpfsCid

open AgriFi.Radix

/-! ## Grammar -/

/-- base58btc. -/
def encodeBase58 (bytes : List UInt8) : Text :=
  List.replicate (bytes.takeWhile (· = 0)).length '1' ++
    (Nat.digits 58 (number bytes)).reverse.map char58

/-- The base58btc of a SHA-256 multihash. -/
def CidV0 (s : Text) : Prop :=
  ∃ digest : List UInt8, digest.length = 32 ∧ s = encodeBase58 (0x12 :: 0x20 :: digest)

/-- The fields of a version 1 identifier after the version. -/
@[ext]
structure Fields where
  codec : List UInt8
  hashCode : List UInt8
  digestLength : List UInt8
  digest : List UInt8
  isVarint_codec : IsVarint codec
  isVarint_hashCode : IsVarint hashCode
  isVarint_digestLength : IsVarint digestLength
  digest_ne_nil : digest ≠ []

def Fields.bytes (f : Fields) : List UInt8 :=
  1 :: (f.codec ++ (f.hashCode ++ (f.digestLength ++ f.digest)))

/-- `s` is the multibase character and the fields in lower-case base 32, with these spare bits. -/
def Reads (s : Text) (f : Fields) (spare : Nat) : Prop :=
  ∃ ds : List Nat, (∀ d ∈ ds, d < 32) ∧ s = 'b' :: ds.map char32 ∧ Spells ds f.bytes spare

/-- The spare bits are zero, and the digest has its declared length. -/
def CidV1 (s : Text) : Prop :=
  ∃ f, Reads s f 0 ∧ varint f.digestLength = f.digest.length

theorem Fields.bytes_injective {f g : Fields} (h : f.bytes = g.bytes) : f = g := by
  obtain ⟨-, h⟩ := List.cons_eq_cons.mp h
  obtain ⟨hcodec, h⟩ := f.isVarint_codec.1.append_inj g.isVarint_codec.1 h
  obtain ⟨hcode, h⟩ := f.isVarint_hashCode.1.append_inj g.isVarint_hashCode.1 h
  obtain ⟨hlength, h⟩ := f.isVarint_digestLength.1.append_inj g.isVarint_digestLength.1 h
  exact Fields.ext hcodec hcode hlength h

theorem map_char32_inj {ds es : List Nat} (hds : ∀ d ∈ ds, d < 32) (hes : ∀ d ∈ es, d < 32)
    (h : ds.map char32 = es.map char32) : ds = es := by
  have hidx (xs : List Nat) (hxs : ∀ d ∈ xs, d < 32) :
      (xs.map char32).map (alphabet.idxOf ·) = xs := by
    rw [List.map_map]
    exact (List.map_congr_left fun d hd => idxOf_char32 d (hxs d hd)).trans (List.map_id xs)
  rw [← hidx ds hds, h, hidx es hes]

/-- A text has one reading. -/
theorem Reads.unique {s : Text} {f g : Fields} {a b : Nat} (hf : Reads s f a) (hg : Reads s g b) :
    f = g ∧ a = b := by
  obtain ⟨ds, hds, rfl, hf⟩ := hf
  obtain ⟨es, hes, heq, hg⟩ := hg
  obtain rfl := map_char32_inj hds hes (List.cons_eq_cons.mp heq).2
  obtain ⟨hbytes, hspare⟩ := hf.unique hg
  exact ⟨Fields.bytes_injective hbytes, hspare⟩

theorem decodeBase32_of_reads {s : Text} {f : Fields} {spare : Nat} (h : Reads s f spare) :
    decodeBase32 s = some f.bytes := by
  obtain ⟨ds, hds, rfl, hspells⟩ := h
  refine decodeBase32_eq_some.mpr ⟨ds, spare, ?_, hds, rfl, hspells⟩
  rintro rfl
  obtain ⟨bits, -, hlen, -⟩ := hspells
  simp only [Fields.bytes, List.length_nil, List.length_cons] at hlen
  omega

/-! ## Version 1 -/

theorem readVarintValue_field {bytes w rest : List UInt8} {offset : Nat}
    (h : bytes.drop offset = w ++ rest) (hw : IsVarint w) :
    readVarintValue bytes offset = some ⟨BitVec.ofNat 32 (varint w), offset + w.length⟩ ∧
      bytes.drop (offset + w.length) = rest := by
  refine ⟨readVarintValue_eq_some.mpr ⟨w, rest, h, hw, rfl⟩, ?_⟩
  rw [← List.drop_drop, h, List.drop_left]

theorem readVarint_field {bytes w rest : List UInt8} {offset : Nat}
    (h : bytes.drop offset = w ++ rest) (hw : IsVarint w) :
    readVarint bytes offset = some (offset + w.length) ∧
      bytes.drop (offset + w.length) = rest :=
  ⟨readVarint_eq_some.mpr ⟨w, rest, h, hw, rfl⟩, (readVarintValue_field h hw).2⟩

theorem exists_field {bytes : List UInt8} {offset e : Nat}
    (h : readVarint bytes offset = some e) :
    ∃ w, IsVarint w ∧ bytes.drop offset = w ++ bytes.drop e := by
  obtain ⟨w, rest, hdrop, hw, rfl⟩ := readVarint_eq_some.mp h
  exact ⟨w, hw, by rw [(readVarint_field hdrop hw).2, hdrop]⟩

theorem isVersion1_iff {bytes : List UInt8} :
    isVersion1 bytes = true ↔ ∃ f : Fields, bytes = f.bytes := by
  constructor
  · intro h
    cases bytes with
    | nil => cases h
    | cons b bytes =>
      by_cases hb : b = 1
      · subst hb
        have hversion : readVarint (1 :: bytes) 0 = some 1 := rfl
        simp only [isVersion1, hversion] at h
        cases hchain : readVarint (1 :: bytes) 1 >>= readVarint (1 :: bytes) >>=
            readVarint (1 :: bytes) with
        | none =>
          rw [hchain] at h
          simp at h
        | some e =>
          rw [hchain] at h
          obtain ⟨hashCodeEnd, hcode, hlength⟩ := Option.bind_eq_some_iff.mp hchain
          obtain ⟨codecEnd, hcodec, hcode⟩ := Option.bind_eq_some_iff.mp hcode
          obtain ⟨codec, hcodecOk, hcodecDrop⟩ := exists_field hcodec
          obtain ⟨hashCode, hcodeOk, hcodeDrop⟩ := exists_field hcode
          obtain ⟨digestLength, hlengthOk, hlengthDrop⟩ := exists_field hlength
          have hne : (1 :: bytes).drop e ≠ [] := by
            rw [Ne, List.drop_eq_nil_iff]
            simpa using h
          refine ⟨⟨codec, hashCode, digestLength, _, hcodecOk, hcodeOk, hlengthOk, hne⟩, ?_⟩
          rw [Fields.bytes, ← hlengthDrop, ← hcodeDrop, ← hcodecDrop]
          rfl
      · unfold isVersion1 at h
        split at h
        · cases h
        · simp [hb] at h
  · rintro ⟨f, rfl⟩
    have hversion : readVarint f.bytes 0 = some 1 := rfl
    have hfirst : f.bytes[0]? = some 1 := rfl
    obtain ⟨hcodec, hdrop⟩ := @readVarint_field f.bytes _ _ 1 rfl f.isVarint_codec
    obtain ⟨hcode, hdrop⟩ := readVarint_field hdrop f.isVarint_hashCode
    obtain ⟨hlength, hdrop⟩ := readVarint_field hdrop f.isVarint_digestLength
    have hlt : 1 + f.codec.length + f.hashCode.length + f.digestLength.length < f.bytes.length := by
      have hne := f.digest_ne_nil
      rw [← hdrop, Ne, List.drop_eq_nil_iff] at hne
      omega
    simp only [isVersion1, hversion, hfirst, hcodec, Option.bind_eq_bind, Option.bind_some, hcode,
      hlength, decide_true, Bool.true_and, hlt]

/-! ## Version 0 -/

/-- The digits of a number whose first two are those of `Qm`. -/
theorem digits_of_qm {n : Nat} (hlo : 1378 * 58 ^ 44 ≤ n) (hhi : n < 1379 * 58 ^ 44) :
    ∃ ds, ds.length = 44 ∧ (∀ d ∈ ds, d < 58) ∧ (Nat.digits 58 n).reverse = 23 :: 44 :: ds := by
  have hlen : (Nat.digits 58 n).reverse.length = 46 := by
    have hle : (Nat.digits 58 n).length ≤ 46 :=
      (Nat.digits_length_le_iff (by decide) n).mpr (Nat.lt_trans hhi (by norm_num))
    have hge : 45 < (Nat.digits 58 n).length :=
      (Nat.lt_digits_length_iff (by decide) n).mpr (Nat.le_trans (by norm_num) hlo)
    rw [List.length_reverse]
    omega
  have hvalue : value 58 (Nat.digits 58 n).reverse = n := by
    rw [value, List.reverse_reverse, Nat.ofDigits_digits]
  have hdigit : ∀ d ∈ (Nat.digits 58 n).reverse, d < 58 := fun d hd =>
    Nat.digits_lt_base (by decide) (List.mem_reverse.mp hd)
  generalize (Nat.digits 58 n).reverse = ds at hlen hvalue hdigit
  obtain _ | ⟨x, _ | ⟨y, ds⟩⟩ := ds
  · cases hlen
  · cases hlen
  · have hds : ds.length = 44 := by simpa using hlen
    have hdsDigit : ∀ d ∈ ds, d < 58 := fun d hd => hdigit d (by simp [hd])
    have hrest := value_lt (by decide) hdsDigit
    have hy : y < 58 := hdigit y (by simp)
    rw [value_cons, value_cons, List.length_cons, hds] at hvalue
    rw [hds] at hrest
    norm_num at hvalue hrest hlo hhi
    obtain ⟨rfl, rfl⟩ : x = 23 ∧ y = 44 := by omega
    exact ⟨ds, hds, hdsDigit, rfl⟩

theorem number_sha256 {digest : List UInt8} (h : digest.length = 32) :
    1378 * 58 ^ 44 ≤ number (0x12 :: 0x20 :: digest) ∧
      number (0x12 :: 0x20 :: digest) < 1379 * 58 ^ 44 := by
  have hlt := number_lt digest
  have hnumber : number (0x12 :: 0x20 :: digest) = 18 * 256 ^ 33 + 32 * 256 ^ 32 + number digest := by
    rw [number, List.map_cons, List.map_cons, value_cons, value_cons, List.length_cons,
      List.length_map, h, Nat.add_assoc]
    rfl
  rw [hnumber]
  rw [h] at hlt
  norm_num at hlt ⊢
  omega

theorem decode_encodeBase58 {digest : List UInt8} (h : digest.length = 32) :
    isQm (encodeBase58 (0x12 :: 0x20 :: digest)) = true ∧
      decodeBase58 (encodeBase58 (0x12 :: 0x20 :: digest)) = some (0x12 :: 0x20 :: digest) := by
  obtain ⟨hlo, hhi⟩ := number_sha256 h
  obtain ⟨ds, hlen, hdigit, hdigits⟩ := digits_of_qm hlo hhi
  have htext : encodeBase58 (0x12 :: 0x20 :: digest) = (23 :: 44 :: ds).map char58 := by
    rw [encodeBase58, hdigits]
    rfl
  have hall : ∀ x ∈ 23 :: 44 :: ds, x < 58 := by simpa using hdigit
  have hvalue : value 58 (23 :: 44 :: ds) = number (0x12 :: 0x20 :: digest) := by
    rw [← hdigits, value, List.reverse_reverse, Nat.ofDigits_digits]
  rw [htext]
  constructor
  · have hbase : (ds.map char58).all isBase58 = true := by
      simpa using fun d hd => isBase58_char58 d (hdigit d hd)
    have hqm : (23 :: 44 :: ds).map char58 = 'Q' :: 'm' :: ds.map char58 := rfl
    simp [hqm, isQm, hlen, hbase]
  · rw [decodeBase58_text hall (by decide), hvalue, number]
    have hbytes : ((0x12 : UInt8) :: 0x20 :: digest).map UInt8.toNat =
        18 :: (0x20 :: digest).map UInt8.toNat := rfl
    have hmem := toNat_lt_256 (0x12 :: 0x20 :: digest)
    rw [hbytes] at hmem ⊢
    rw [digits_value (by decide) hmem (by decide), ← hbytes, List.map_map]
    exact congrArg some ((List.map_congr_left fun b _ => UInt8.ofNat_toNat).trans (List.map_id _))

theorem cidV0_of_decodeBase58 {s : Text} {bytes : List UInt8} (hqm : isQm s = true)
    (hdecode : decodeBase58 s = some bytes) (h : isSha256Multihash bytes = true) : CidV0 s := by
  unfold isQm at hqm
  split at hqm
  · next text =>
    rw [Bool.and_eq_true] at hqm
    obtain ⟨ds, hds, rfl⟩ := exists_digits exists_char58 hqm.2
    have hall : ∀ x ∈ 23 :: 44 :: ds, x < 58 := by simpa using hds
    have htext : 'Q' :: 'm' :: ds.map char58 = (23 :: 44 :: ds).map char58 := rfl
    rw [htext] at hdecode ⊢
    obtain rfl := Option.some.inj ((decodeBase58_text hall (by decide)).symm.trans hdecode)
    have hlt : ∀ d ∈ (Nat.digits 256 (value 58 (23 :: 44 :: ds))).reverse, d < 256 := fun d hd =>
      Nat.digits_lt_base (by decide) (List.mem_reverse.mp hd)
    have hnumber : number ((Nat.digits 256 (value 58 (23 :: 44 :: ds))).reverse.map UInt8.ofNat) =
        value 58 (23 :: 44 :: ds) := by
      rw [number, map_toNat_ofNat hlt, value, List.reverse_reverse, Nat.ofDigits_digits]
    generalize (Nat.digits 256 (value 58 (23 :: 44 :: ds))).reverse.map UInt8.ofNat = bytes
      at h hnumber
    simp only [isSha256Multihash, Bool.and_eq_true, decide_eq_true_eq] at h
    obtain _ | ⟨x, _ | ⟨y, digest⟩⟩ := bytes
    · simp at h
    · simp at h
    · obtain ⟨⟨hlen, hx⟩, hy⟩ := h
      simp only [List.getElem?_cons_zero, List.getElem?_cons_succ, Option.some.injEq] at hx hy
      subst hx hy
      refine ⟨digest, by simpa using hlen, ?_⟩
      rw [encodeBase58, hnumber, digits_value (by decide) hall (by decide)]
      rfl
  · cases hqm

theorem cidV0_iff {s : Text} : CidV0 s ↔ isQm s = true ∧
    ∃ bytes, decodeBase58 s = some bytes ∧ isSha256Multihash bytes = true := by
  constructor
  · rintro ⟨digest, hlen, rfl⟩
    obtain ⟨hqm, hdecode⟩ := decode_encodeBase58 hlen
    exact ⟨hqm, _, hdecode, by simp [isSha256Multihash, hlen]⟩
  · rintro ⟨hqm, bytes, hdecode, h⟩
    exact cidV0_of_decodeBase58 hqm hdecode h

/-! ## `isValidIpfsCid` -/

theorem not_space_of_isQm {s : Text} (h : isQm s = true) : s ≠ [] ∧ s.any isSpace = false := by
  unfold isQm at h
  split at h
  · next text =>
    rw [Bool.and_eq_true] at h
    obtain ⟨ds, hds, rfl⟩ := exists_digits exists_char58 h.2
    refine ⟨nofun, ?_⟩
    have hqm : isSpace 'Q' = false ∧ isSpace 'm' = false := ⟨rfl, rfl⟩
    simpa [hqm] using fun d hd => (alphabets.1 d (hds d hd)).2.2.1
  · cases h

theorem not_space_of_reads {s : Text} {f : Fields} {spare : Nat} (h : Reads s f spare) :
    s ≠ [] ∧ s.any isSpace = false ∧ isQm s = false ∧ s.head? = some 'b' := by
  obtain ⟨ds, hds, rfl, -⟩ := h
  have hb : isSpace 'b' = false := rfl
  refine ⟨nofun, ?_, rfl, rfl⟩
  simpa [hb] using fun d hd => (alphabets.2.1 d (hds d hd)).2.2

theorem isValidIpfsCid_iff {s : Text} :
    isValidIpfsCid s = true ↔ CidV0 s ∨ ∃ f spare, Reads s f spare := by
  constructor
  · intro h
    unfold isValidIpfsCid at h
    split at h
    · cases h
    · split at h
      · next hqm =>
        split at h
        · next bytes hdecode => exact .inl (cidV0_iff.mpr ⟨hqm, bytes, hdecode, h⟩)
        · cases h
      · split at h
        · next bytes hdecode =>
          split at hdecode
          · obtain ⟨ds, spare, -, hds, rfl, hspells⟩ := decodeBase32_eq_some.mp hdecode
            obtain ⟨f, rfl⟩ := isVersion1_iff.mp h
            exact .inr ⟨f, spare, ds, hds, rfl, hspells⟩
          · cases hdecode
        · cases h
  · rintro (h | ⟨f, spare, h⟩)
    · obtain ⟨hqm, bytes, hdecode, hbytes⟩ := cidV0_iff.mp h
      obtain ⟨hne, hspace⟩ := not_space_of_isQm hqm
      simp [isValidIpfsCid, hne, hspace, hqm, hdecode, hbytes]
    · obtain ⟨hne, hspace, hqm, hhead⟩ := not_space_of_reads h
      have hbytes := isVersion1_iff.mpr ⟨f, rfl⟩
      simp [isValidIpfsCid, hne, hspace, hqm, hhead, decodeBase32_of_reads h, hbytes]

theorem not_cidV0_of_reads {s : Text} {f : Fields} {spare : Nat} (h : Reads s f spare) :
    ¬CidV0 s := by
  intro h0
  have hqm := (cidV0_iff.mp h0).1
  rw [(not_space_of_reads h).2.2.1] at hqm
  cases hqm

/-- What the check of content accepts is valid. -/
theorem isValidIpfsCid_of_verify {sha256 sha512 : List UInt8 → List UInt8} {cid : Text}
    {content : List UInt8} (h : verifyIpfsContent sha256 sha512 cid content = true) :
    isValidIpfsCid cid = true := by
  by_contra hnot
  simp [verifyIpfsContent, hnot] at h

/-- `isValidIpfsCid` is the grammar on the texts whose reading in base 32, where they have one, has
    no spare bits set and a digest of the declared length. -/
theorem isValidIpfsCid_exact_iff (s : Text) :
    ((isValidIpfsCid s = true ↔ CidV0 s ∨ CidV1 s) ∧
      ∀ sha256 sha512 content, verifyIpfsContent sha256 sha512 s content = true →
        isValidIpfsCid s = true) ↔
      ∀ f spare, Reads s f spare → spare = 0 ∧ varint f.digestLength = f.digest.length := by
  rw [isValidIpfsCid_iff]
  constructor
  · rintro ⟨hiff, -⟩ f spare hreads
    rcases hiff.mp (.inr ⟨f, spare, hreads⟩) with h0 | ⟨g, hg, hlength⟩
    · exact absurd h0 (not_cidV0_of_reads hreads)
    · obtain ⟨rfl, rfl⟩ := hreads.unique hg
      exact ⟨rfl, hlength⟩
  · intro hstrict
    refine ⟨or_congr_right ⟨?_, ?_⟩, fun _ _ _ h =>
      isValidIpfsCid_iff.mp (isValidIpfsCid_of_verify h)⟩
    · rintro ⟨f, spare, hreads⟩
      obtain ⟨rfl, hlength⟩ := hstrict f spare hreads
      exact ⟨f, hreads, hlength⟩
    · rintro ⟨f, hreads, -⟩
      exact ⟨f, 0, hreads⟩

theorem isVarint_raw : IsVarint [0x55] := by simp [IsVarint, Terminated]

theorem isVarint_sha256Length : IsVarint [0x20] := by simp [IsVarint, Terminated]

/-- The fields of a raw SHA-256 identifier that was cut after the first byte of its digest. -/
def cutFields : Fields :=
  ⟨[0x55], [0x12], [0x20], [0xaa], isVarint_raw, by simp [IsVarint, Terminated],
    isVarint_sha256Length, nofun⟩

theorem reads_cut : Reads "bafkreifk".toList cutFields 0 :=
  ⟨[0, 5, 10, 17, 4, 8, 5, 10], by decide, by decide +kernel, 0, by decide, rfl, by decide,
    by decide +kernel⟩

theorem cut_valid_not_grammar :
    ¬(isValidIpfsCid "bafkreifk".toList = true ↔
      CidV0 "bafkreifk".toList ∨ CidV1 "bafkreifk".toList) := by
  intro h
  rcases h.mp (isValidIpfsCid_iff.mpr (.inr ⟨_, _, reads_cut⟩)) with h0 | ⟨f, hf, hlength⟩
  · exact not_cidV0_of_reads reads_cut h0
  · obtain ⟨rfl, -⟩ := hf.unique reads_cut
    simp [cutFields, varint] at hlength

end AgriFi.IpfsCid
