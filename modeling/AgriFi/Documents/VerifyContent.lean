import AgriFi.Documents.CidGrammar

/-
  `verifyIpfsContent`: what it accepts (`verify_reads`, `verify_encodeBase58`), and that this is
  content under its own identifier where no integer of the multihash outgrows the 32 bits of
  `readVarintValue` and no spare bit is set.
-/

namespace AgriFi.IpfsCid

open AgriFi.Radix

/-! ## Canonical identifiers -/

/-- The shortest variable length integer of a number. -/
def encodeVarint (n : Nat) : List UInt8 :=
  if n < 128 then [UInt8.ofNat n] else UInt8.ofNat (n % 128 + 128) :: encodeVarint (n / 128)
termination_by n
decreasing_by omega

/-- Lower-case base 32 without padding. -/
def encodeBase32 (bytes : List UInt8) : Text :=
  let width := (8 * bytes.length + 4) / 5
  (numeral 32 width (number bytes * 2 ^ (5 * width - 8 * bytes.length))).map char32

def cidV0 (digest : List UInt8) : Text := encodeBase58 (0x12 :: 0x20 :: digest)

def cidV1 (codec hashCode : Nat) (digest : List UInt8) : Text :=
  'b' :: encodeBase32 (1 :: (encodeVarint codec ++
    (encodeVarint hashCode ++ (encodeVarint digest.length ++ digest))))

theorem toNat_ofNat_of_lt {n : Nat} (h : n < 256) : (UInt8.ofNat n).toNat = n :=
  UInt8.toNat_ofNat_of_lt' h

theorem terminated_encodeVarint (n : Nat) : Terminated (encodeVarint n) := by
  induction n using Nat.strongRecOn with
  | _ n ih =>
    rw [encodeVarint]
    split
    · next h =>
      simp only [Terminated, toNat_ofNat_of_lt (by omega : n < 256), if_pos h]
    · next h =>
      have hbyte := toNat_ofNat_of_lt (by omega : n % 128 + 128 < 256)
      have hge : ¬n % 128 + 128 < 128 := by omega
      simp only [Terminated, hbyte, if_neg hge]
      exact ih _ (by omega)

theorem varint_encodeVarint (n : Nat) : varint (encodeVarint n) = n := by
  induction n using Nat.strongRecOn with
  | _ n ih =>
    rw [encodeVarint]
    split
    · next h =>
      simp only [varint, toNat_ofNat_of_lt (by omega : n < 256)]
      omega
    · next h =>
      have hbyte := toNat_ofNat_of_lt (by omega : n % 128 + 128 < 256)
      rw [varint, hbyte, ih _ (by omega)]
      omega

theorem length_encodeVarint (n k : Nat) :
    (encodeVarint n).length ≤ k + 1 ↔ n < 128 ^ (k + 1) := by
  induction k generalizing n with
  | zero =>
    rw [encodeVarint]
    split
    · next h => simpa using h
    · next h =>
      rw [encodeVarint]
      split <;> simpa using h
  | succ k ih =>
    rw [encodeVarint]
    split
    · next h =>
      refine iff_of_true (by simp) (Nat.lt_of_lt_of_le h ?_)
      exact Nat.le_self_pow (by omega) 128
    · next h =>
      rw [List.length_cons, Nat.add_le_add_iff_right, ih, Nat.pow_succ 128 (k + 1)]
      omega

theorem isVarint_encodeVarint_iff (n : Nat) : IsVarint (encodeVarint n) ↔ n < 2 ^ 35 := by
  rw [IsVarint, length_encodeVarint n 4, and_iff_right (terminated_encodeVarint n)]
  norm_num

theorem spells_encodeBase32 (bytes : List UInt8) :
    ∃ ds, (∀ d ∈ ds, d < 32) ∧ encodeBase32 bytes = ds.map char32 ∧ Spells ds bytes 0 := by
  obtain ⟨pad, hpad, hwidth⟩ :
      ∃ pad, pad < 8 ∧ 5 * ((8 * bytes.length + 4) / 5) = 8 * bytes.length + pad :=
    ⟨5 * ((8 * bytes.length + 4) / 5) - 8 * bytes.length, by omega, by omega⟩
  have hlt : number bytes * 2 ^ pad < 32 ^ ((8 * bytes.length + 4) / 5) := by
    have hpow : 32 ^ ((8 * bytes.length + 4) / 5) = 256 ^ bytes.length * 2 ^ pad := by
      rw [show (32 : Nat) = 2 ^ 5 from rfl, ← Nat.pow_mul, hwidth, Nat.pow_add, Nat.pow_mul]
    rw [hpow]
    exact Nat.mul_lt_mul_of_pos_right (number_lt bytes) (Nat.two_pow_pos pad)
  have hpadEq : 5 * ((8 * bytes.length + 4) / 5) - 8 * bytes.length = pad := by omega
  refine ⟨_, numeral_lt (by decide), rfl, pad, hpad, ?_, Nat.two_pow_pos pad, ?_⟩
  · rw [hpadEq, length_numeral (by decide) hlt, hwidth]
  · rw [hpadEq, value_numeral, Nat.add_zero]

/-! ## What is accepted -/

theorem toInt_ofNat_eq {n k : Nat} (hk : k < 2 ^ 31) :
    (BitVec.ofNat 32 n).toInt = (k : Int) ↔ n % 2 ^ 32 = k := by
  rw [BitVec.toInt_ofNat', Int.bmod]
  split <;> omega

section Verify

variable {sha256 sha512 : List UInt8 → List UInt8} {cid : Text} {content digest : List UInt8}
  {f : Fields} {spare : Nat}

theorem verify_encodeBase58 (h : digest.length = 32) :
    verifyIpfsContent sha256 sha512 (cidV0 digest) content = true ↔ sha256 content = digest := by
  obtain ⟨hqm, hdecode⟩ := decode_encodeBase58 h
  have hvalid : isValidIpfsCid (cidV0 digest) = true :=
    isValidIpfsCid_iff.mpr (.inl ⟨digest, h, rfl⟩)
  have hstarts : startsWithQm (cidV0 digest) = true := by
    unfold isQm at hqm
    split at hqm
    · next text heq =>
      rw [cidV0, heq]
      rfl
    · cases hqm
  have hmultihash : multihash (cidV0 digest) (0x12 :: 0x20 :: digest) = some (18, digest) := by
    rw [multihash, if_pos hstarts]
    rfl
  have halgorithm : algorithm sha256 sha512 18 = some sha256 := rfl
  rw [verifyIpfsContent, if_neg (by simp [hvalid]), if_pos hstarts]
  simp only [cidV0] at hmultihash ⊢
  simp only [hdecode, hmultihash, halgorithm, decide_eq_true_eq]

theorem multihash_reads (h : Reads cid f spare) :
    multihash cid f.bytes =
      if (BitVec.ofNat 32 (varint f.digestLength)).toInt = (f.digest.length : Int) then
        some ((BitVec.ofNat 32 (varint f.hashCode)).toInt, f.digest)
      else none := by
  have hstarts : startsWithQm cid = false := by
    obtain ⟨ds, -, rfl, -⟩ := h
    rfl
  have hone : IsVarint [1] := by simp [IsVarint, Terminated]
  obtain ⟨hversion, hdrop⟩ := @readVarintValue_field f.bytes _ _ 0 rfl hone
  obtain ⟨hcodec, hdrop⟩ := readVarintValue_field hdrop f.isVarint_codec
  obtain ⟨hcode, hdrop⟩ := readVarintValue_field hdrop f.isVarint_hashCode
  obtain ⟨hlength, hdrop⟩ := readVarintValue_field hdrop f.isVarint_digestLength
  have hrest := congrArg List.length hdrop
  rw [List.length_drop] at hrest
  have hpos := List.length_pos_iff.mpr f.digest_ne_nil
  rw [multihash, hstarts]
  simp only [Bool.false_eq_true, if_false, hversion, Option.bind_eq_bind, Option.bind_some, hcodec,
    hcode, hlength, hdrop]
  congr 2
  omega

theorem algorithm_eq_some {hashCode : Int} {hash : List UInt8 → List UInt8} :
    algorithm sha256 sha512 hashCode = some hash ↔
      hashCode = 0x12 ∧ sha256 = hash ∨ hashCode = 0x13 ∧ sha512 = hash := by
  unfold algorithm
  split
  · next h => simp [h]
  · next h =>
    split
    · next h' => simp [h']
    · next h' => simp [h, h']

theorem verify_fields (h : Reads cid f spare) :
    verifyIpfsContent sha256 sha512 cid content = true ↔
      (BitVec.ofNat 32 (varint f.digestLength)).toInt = (f.digest.length : Int) ∧
        ∃ hash, algorithm sha256 sha512 (BitVec.ofNat 32 (varint f.hashCode)).toInt = some hash ∧
          hash content = f.digest := by
  have hvalid : isValidIpfsCid cid = true := isValidIpfsCid_iff.mpr (.inr ⟨f, spare, h⟩)
  have hstarts : startsWithQm cid = false := by
    obtain ⟨ds, -, rfl, -⟩ := h
    rfl
  rw [verifyIpfsContent, if_neg (by simp [hvalid]), hstarts]
  simp only [Bool.false_eq_true, if_false, decodeBase32_of_reads h, multihash_reads h]
  by_cases hlength : (BitVec.ofNat 32 (varint f.digestLength)).toInt = (f.digest.length : Int)
  · rw [if_pos hlength, and_iff_right hlength]
    cases halgorithm : algorithm sha256 sha512 (BitVec.ofNat 32 (varint f.hashCode)).toInt with
    | none => simp [halgorithm]
    | some hash => simp [halgorithm]
  · rw [if_neg hlength]
    simp [hlength]

/-- The identifier names the hash of the content, up to multiples of `2 ^ 32` in its code and
    its length. -/
theorem verify_reads (h256 : (sha256 content).length = 32) (h512 : (sha512 content).length = 64)
    (h : Reads cid f spare) :
    verifyIpfsContent sha256 sha512 cid content = true ↔
      varint f.digestLength % 2 ^ 32 = f.digest.length ∧
        (varint f.hashCode % 2 ^ 32 = 0x12 ∧ sha256 content = f.digest ∨
          varint f.hashCode % 2 ^ 32 = 0x13 ∧ sha512 content = f.digest) := by
  have h18 := @toInt_ofNat_eq (varint f.hashCode) 0x12 (by decide)
  have h19 := @toInt_ofNat_eq (varint f.hashCode) 0x13 (by decide)
  have hhash : (∃ hash, algorithm sha256 sha512 (BitVec.ofNat 32 (varint f.hashCode)).toInt =
      some hash ∧ hash content = f.digest) ↔
      (varint f.hashCode % 2 ^ 32 = 0x12 ∧ sha256 content = f.digest ∨
        varint f.hashCode % 2 ^ 32 = 0x13 ∧ sha512 content = f.digest) := by
    rw [← h18, ← h19]
    constructor
    · rintro ⟨hash, halgorithm, heq⟩
      rcases algorithm_eq_some.mp halgorithm with ⟨hcode, rfl⟩ | ⟨hcode, rfl⟩
      · exact .inl ⟨hcode, heq⟩
      · exact .inr ⟨hcode, heq⟩
    · rintro (⟨hcode, heq⟩ | ⟨hcode, heq⟩)
      · exact ⟨sha256, algorithm_eq_some.mpr (.inl ⟨hcode, rfl⟩), heq⟩
      · exact ⟨sha512, algorithm_eq_some.mpr (.inr ⟨hcode, rfl⟩), heq⟩
  rw [verify_fields h, hhash]
  refine and_congr_left fun hor => toInt_ofNat_eq ?_
  rcases hor with ⟨-, heq⟩ | ⟨-, heq⟩
  · rw [← heq, h256]
    decide
  · rw [← heq, h512]
    decide

/-! ## Canonical identifiers are accepted -/

theorem reads_of_cidV1 {codec hashCode : Nat} (hcodec : codec < 2 ^ 35) (hcode : hashCode < 2 ^ 35)
    (hlength : digest.length < 2 ^ 35) (hne : digest ≠ []) :
    Reads (cidV1 codec hashCode digest)
      ⟨encodeVarint codec, encodeVarint hashCode, encodeVarint digest.length, digest,
        (isVarint_encodeVarint_iff _).mpr hcodec, (isVarint_encodeVarint_iff _).mpr hcode,
        (isVarint_encodeVarint_iff _).mpr hlength, hne⟩ 0 := by
  obtain ⟨ds, hds, htext, hspells⟩ := spells_encodeBase32 (1 :: (encodeVarint codec ++
    (encodeVarint hashCode ++ (encodeVarint digest.length ++ digest))))
  exact ⟨ds, hds, by rw [cidV1, htext], hspells⟩

/-- A codec that five bytes do not hold makes the identifier invalid. -/
theorem codec_lt_of_valid {codec hashCode : Nat}
    (h : isValidIpfsCid (cidV1 codec hashCode digest) = true) : codec < 2 ^ 35 := by
  obtain ⟨ds, hds, htext, hspells⟩ := spells_encodeBase32 (1 :: (encodeVarint codec ++
    (encodeVarint hashCode ++ (encodeVarint digest.length ++ digest))))
  rcases isValidIpfsCid_iff.mp h with h0 | ⟨f, spare, es, hes, heq, hf⟩
  · exact absurd (cidV0_iff.mp h0).1 (by simp [cidV1, isQm])
  · rw [cidV1, htext] at heq
    obtain rfl := map_char32_inj hds hes (List.cons_eq_cons.mp heq).2
    obtain ⟨-, hbytes⟩ := List.cons_eq_cons.mp (hspells.unique hf).1
    have hcodec := ((terminated_encodeVarint codec).append_inj f.isVarint_codec.1 hbytes).1
    exact (isVarint_encodeVarint_iff codec).mp (hcodec ▸ f.isVarint_codec)

theorem verify_cidV1 (h256 : (sha256 content).length = 32) (h512 : (sha512 content).length = 64)
    {codec hashCode : Nat} (hcodec : codec < 2 ^ 35)
    (h : hashCode = 0x12 ∧ digest = sha256 content ∨ hashCode = 0x13 ∧ digest = sha512 content) :
    verifyIpfsContent sha256 sha512 (cidV1 codec hashCode digest) content = true := by
  have hlen : digest.length = 32 ∨ digest.length = 64 := by
    rcases h with ⟨-, rfl⟩ | ⟨-, rfl⟩
    · exact .inl h256
    · exact .inr h512
  have hcode : hashCode = 0x12 ∨ hashCode = 0x13 := h.imp And.left And.left
  have hne : digest ≠ [] := by
    rintro rfl
    simp at hlen
  refine (verify_reads h256 h512 (reads_of_cidV1 hcodec (by omega) (by omega) hne)).mpr ?_
  simp only [varint_encodeVarint]
  refine ⟨by omega, ?_⟩
  rcases h with ⟨rfl, rfl⟩ | ⟨rfl, rfl⟩
  · exact .inl ⟨rfl, rfl⟩
  · exact .inr ⟨rfl, rfl⟩

/-! ## Exactness -/

/-- `cid` is an identifier whose multihash has exactly the code, the length and the digest of a
    hash of the content. -/
def Identifies (sha256 sha512 : List UInt8 → List UInt8) (cid : Text) (content : List UInt8) :
    Prop :=
  cid = cidV0 (sha256 content) ∨
    ∃ f, Reads cid f 0 ∧ varint f.digestLength = f.digest.length ∧
      (varint f.hashCode = 0x12 ∧ f.digest = sha256 content ∨
        varint f.hashCode = 0x13 ∧ f.digest = sha512 content)

theorem identifies_of_cidV0 (h0 : CidV0 cid)
    (h : verifyIpfsContent sha256 sha512 cid content = true) : cid = cidV0 (sha256 content) := by
  obtain ⟨digest, hlen, rfl⟩ := h0
  rw [(verify_encodeBase58 hlen).mp h]
  rfl

theorem identifies_iff (h256 : (sha256 content).length = 32) (h512 : (sha512 content).length = 64)
    (h : verifyIpfsContent sha256 sha512 cid content = true) :
    Identifies sha256 sha512 cid content ↔ ∀ f spare, Reads cid f spare →
      spare = 0 ∧ varint f.hashCode < 2 ^ 32 ∧ varint f.digestLength < 2 ^ 32 := by
  constructor
  · rintro (rfl | ⟨f, hf, hlength, hhash⟩) g spare hg
    · exact absurd ⟨_, h256, rfl⟩ (not_cidV0_of_reads hg)
    · obtain ⟨rfl, rfl⟩ := hf.unique hg
      have hmod := ((verify_reads h256 h512 hf).mp h).1
      refine ⟨rfl, by omega, ?_⟩
      rw [hlength, ← hmod]
      exact Nat.mod_lt _ (by decide)
  · intro hcond
    rcases isValidIpfsCid_iff.mp (isValidIpfsCid_of_verify h) with h0 | ⟨f, spare, hf⟩
    · exact .inl (identifies_of_cidV0 h0 h)
    · obtain ⟨rfl, hcode, hlength⟩ := hcond f spare hf
      have hverify := (verify_reads h256 h512 hf).mp h
      rw [Nat.mod_eq_of_lt hcode, Nat.mod_eq_of_lt hlength] at hverify
      exact .inr ⟨f, hf, hverify.1, hverify.2.imp (And.imp_right Eq.symm) (And.imp_right Eq.symm)⟩

/-- Two contents that one identifier verifies have one hash. -/
theorem same_hash {other : List UInt8} (h256 : ∀ c, (sha256 c).length = 32)
    (h512 : ∀ c, (sha512 c).length = 64)
    (h : verifyIpfsContent sha256 sha512 cid content = true)
    (hother : verifyIpfsContent sha256 sha512 cid other = true) :
    sha256 content = sha256 other ∨ sha512 content = sha512 other := by
  rcases isValidIpfsCid_iff.mp (isValidIpfsCid_of_verify h) with ⟨digest, hlen, rfl⟩ | ⟨f, spare, hf⟩
  · exact .inl (((verify_encodeBase58 hlen).mp h).trans ((verify_encodeBase58 hlen).mp hother).symm)
  · have hhash := ((verify_reads (h256 _) (h512 _) hf).mp h).2
    have hotherHash := ((verify_reads (h256 _) (h512 _) hf).mp hother).2
    rcases hhash with ⟨hcode, heq⟩ | ⟨hcode, heq⟩ <;>
      rcases hotherHash with ⟨hcode', heq'⟩ | ⟨hcode', heq'⟩
    · exact .inl (heq.trans heq'.symm)
    · omega
    · omega
    · exact .inr (heq.trans heq'.symm)

/-- `verifyIpfsContent` accepts a content under its canonical identifiers when five bytes hold the
    codec; an identifier that it accepts is exact when its spare bits are zero and its hash code and
    digest length are below `2 ^ 32`; and it verifies no two contents with different hashes. -/
theorem verifyIpfsContent_exact (h256 : ∀ c, (sha256 c).length = 32)
    (h512 : ∀ c, (sha512 c).length = 64) (codec : Nat) (cid : Text)
    (content other : List UInt8) :
    ((verifyIpfsContent sha256 sha512 (cidV0 (sha256 content)) content = true ∧
      verifyIpfsContent sha256 sha512 (cidV1 codec 0x12 (sha256 content)) content = true ∧
      verifyIpfsContent sha256 sha512 (cidV1 codec 0x13 (sha512 content)) content = true) ↔
        codec < 2 ^ 35) ∧
    (verifyIpfsContent sha256 sha512 cid content = true →
      (Identifies sha256 sha512 cid content ↔ ∀ f spare, Reads cid f spare →
        spare = 0 ∧ varint f.hashCode < 2 ^ 32 ∧ varint f.digestLength < 2 ^ 32)) ∧
    (verifyIpfsContent sha256 sha512 cid content = true →
      verifyIpfsContent sha256 sha512 cid other = true →
        sha256 content = sha256 other ∨ sha512 content = sha512 other) := by
  refine ⟨⟨fun h => codec_lt_of_valid (isValidIpfsCid_of_verify h.2.1), fun hcodec => ?_⟩,
    identifies_iff (h256 _) (h512 _), same_hash h256 h512⟩
  exact ⟨(verify_encodeBase58 (h256 _)).mpr rfl,
    verify_cidV1 (h256 _) (h512 _) hcodec (.inl ⟨rfl, rfl⟩),
    verify_cidV1 (h256 _) (h512 _) hcodec (.inr ⟨rfl, rfl⟩)⟩

end Verify

/-! ## The empty content -/

/-- The SHA-256 of no bytes. -/
def emptySha256 : List UInt8 :=
  [0xe3, 0xb0, 0xc4, 0x42, 0x98, 0xfc, 0x1c, 0x14, 0x9a, 0xfb, 0xf4, 0xc8, 0x99, 0x6f,
    0xb9, 0x24, 0x27, 0xae, 0x41, 0xe4, 0x64, 0x9b, 0x93, 0x4c, 0xa4, 0x95, 0x99, 0x1b,
    0x78, 0x52, 0xb8, 0x55]

/-- The SHA-512 of no bytes. -/
def emptySha512 : List UInt8 :=
  [0xcf, 0x83, 0xe1, 0x35, 0x7e, 0xef, 0xb8, 0xbd, 0xf1, 0x54, 0x28, 0x50, 0xd6, 0x6d,
    0x80, 0x07, 0xd6, 0x20, 0xe4, 0x05, 0x0b, 0x57, 0x15, 0xdc, 0x83, 0xf4, 0xa9, 0x21,
    0xd3, 0x6c, 0xe9, 0xce, 0x47, 0xd0, 0xd1, 0x3c, 0x5d, 0x85, 0xf2, 0xb0, 0xff, 0x83,
    0x18, 0xd2, 0x87, 0x7e, 0xec, 0x2f, 0x63, 0xb9, 0x31, 0xbd, 0x47, 0x41, 0x7a, 0x81,
    0xa5, 0x38, 0x32, 0x7a, 0xf9, 0x27, 0xda, 0x3e]

theorem verifyIpfsContent_exact_empty :
    let sha256 := fun _ => emptySha256
    let sha512 := fun _ => emptySha512
    let cid := cidV1 0x55 0x12 emptySha256
    ((verifyIpfsContent sha256 sha512 (cidV0 (sha256 [])) [] = true ∧
      verifyIpfsContent sha256 sha512 (cidV1 0x55 0x12 (sha256 [])) [] = true ∧
      verifyIpfsContent sha256 sha512 (cidV1 0x55 0x13 (sha512 [])) [] = true) ↔
        0x55 < 2 ^ 35) ∧
    (verifyIpfsContent sha256 sha512 cid [] = true →
      (Identifies sha256 sha512 cid [] ↔ ∀ f spare, Reads cid f spare →
        spare = 0 ∧ varint f.hashCode < 2 ^ 32 ∧ varint f.digestLength < 2 ^ 32)) ∧
    (verifyIpfsContent sha256 sha512 cid [] = true →
      verifyIpfsContent sha256 sha512 cid [] = true →
        sha256 [] = sha256 [] ∨ sha512 [] = sha512 []) :=
  verifyIpfsContent_exact (fun _ => rfl) (fun _ => rfl) 0x55 _ [] []

/-- A raw identifier of no bytes whose hash code is `0x12 + 2 ^ 32`. -/
def aliasFields : Fields :=
  ⟨[0x55], [0x92, 0x80, 0x80, 0x80, 0x10], [0x20], emptySha256, isVarint_raw,
    by simp [IsVarint, Terminated], isVarint_sha256Length, nofun⟩

def aliasText : {text : Text // Reads text aliasFields 0} :=
  ⟨"bafkzfaeaqaicby5qyrbjr7a4csnpx5gitfx3sjbhvza6ize3sngkjfmzdn4ffocv".toList,
    [0, 5, 10, 25, 5, 0, 4, 0, 16, 0, 8, 2, 1, 24, 29, 16, 24, 17, 1, 9, 17, 31,
    0, 28, 2, 18, 13, 15, 23, 29, 6, 8, 19, 5, 23, 27, 18, 9, 1, 7, 21, 25, 0, 30,
    8, 25, 4, 27, 18, 13, 6, 10, 9, 5, 12, 25, 3, 13, 28, 5, 5, 14, 2, 21],
    by decide, by decide +kernel, 0, by decide, rfl, by decide, by decide +kernel⟩

theorem alias_accepted_not_exact :
    verifyIpfsContent (fun _ => emptySha256) (fun _ => emptySha512) aliasText.1 [] = true ∧
      ¬Identifies (fun _ => emptySha256) (fun _ => emptySha512) aliasText.1 [] := by
  have hverify : verifyIpfsContent (fun _ => emptySha256) (fun _ => emptySha512) aliasText.1 [] =
      true :=
    (verify_reads rfl rfl aliasText.2).mpr ⟨by decide +kernel, .inl ⟨by decide +kernel, rfl⟩⟩
  refine ⟨hverify, fun h => ?_⟩
  have hcode := ((identifies_iff rfl rfl hverify).mp h _ _ aliasText.2).2.1
  exact absurd hcode (by decide +kernel)

end AgriFi.IpfsCid
