import AgriFi.Split
import AgriFi.StellarMonitor.Service

/-
  The memo of a deposit. `MEMO_PATTERN` takes four groups between hyphens for an id, and a uuid has
  five, so that no memo with the ids of a deal and of an investment is read; it would not fit the
  text memo of a transaction either (`memo_never`). What is read is one memo only: the ids are found
  again in it, and no other ids make the same memo.
-/

namespace AgriFi.StellarMonitor

open AgriFi.Split

/-! ## What is claimed -/

/-- `DEAL-{dealId}-INV-{investmentId}`. -/
def memoOf (dealId investmentId : String) : String := "DEAL-" ++ dealId ++ "-INV-" ++ investmentId

/-- The bytes of a text memo. -/
def MEMO_LIMIT : Nat := 28

/-- White space and line ends. -/
def isBlank (c : Char) : Bool :=
  9 ≤ c.toNat && c.toNat ≤ 13 || 8192 ≤ c.toNat && c.toNat ≤ 8202 ||
    c.toNat ∈ [32, 160, 5760, 8232, 8233, 8239, 8287, 12288, 65279]

/-- `s.trim()`. -/
def trimmed (s : String) : String :=
  String.ofList ((s.toList.dropWhile isBlank).reverse.dropWhile isBlank).reverse

def isHexDigit (c : Char) : Bool :=
  '0' ≤ c && c ≤ '9' || 'a' ≤ c && c ≤ 'f' || 'A' ≤ c && c ≤ 'F'

/-- The ids of deals and investments. -/
def IsUuid (id : String) : Prop :=
  (id.toList.splitOn '-').map List.length = [8, 4, 4, 4, 12] ∧
    ∀ group ∈ id.toList.splitOn '-', group.all isHexDigit = true

/-- What the pattern takes for an id. -/
def IsPatternId (id : String) : Prop :=
  (id.toList.splitOn '-').length = 4 ∧ [] ∉ id.toList.splitOn '-'

instance (id : String) : Decidable (IsUuid id) := inferInstanceAs (Decidable (_ ∧ _))

instance (id : String) : Decidable (IsPatternId id) := inferInstanceAs (Decidable (_ ∧ _))

/-- A memo fits a transaction, and is read as the ids that it was made of. -/
structure Setup.RoundTrip (setup : Setup) (dealId investmentId : String) : Prop where
  fits : (memoOf dealId investmentId).utf8ByteSize ≤ MEMO_LIMIT
  parsed : setup.parseMemo (some (memoOf dealId investmentId)) = some (dealId, investmentId)

/-- What is read of a memo is what it was made of, and this alone. -/
def Setup.ReadsOnly (setup : Setup) : Prop :=
  ∀ memo dealId investmentId, setup.parseMemo (some memo) = some (dealId, investmentId) →
    setup.trim memo = memoOf dealId investmentId ∧
      ∀ dealId' investmentId', IsUuid dealId' ∨ IsPatternId dealId' →
        IsUuid investmentId' ∨ IsPatternId investmentId' →
          memoOf dealId' investmentId' = memoOf dealId investmentId →
            dealId' = dealId ∧ investmentId' = investmentId

/-! ## The parts of a memo -/

section Parts

variable {setup : Setup} {memo dealId investmentId id : String} {d i parts : List (List Char)}

theorem splitOn_memoOf (dealId investmentId : String) :
    (memoOf dealId investmentId).toList.splitOn '-' =
      "DEAL".toList :: (dealId.toList.splitOn '-' ++
        "INV".toList :: investmentId.toList.splitOn '-') := by
  have htext : (memoOf dealId investmentId).toList =
      "DEAL".toList ++ '-' :: (dealId.toList ++ '-' :: ("INV".toList ++
        '-' :: investmentId.toList)) := by
    simp [memoOf, String.toList_append]
  rw [htext, List.splitOn_append_cons_self, List.splitOn_append_cons_self,
    List.splitOn_append_cons_self]
  rfl

theorem joined_splitOn (id : String) : joined (id.toList.splitOn '-') = id := by
  unfold joined
  rw [List.intercalate_splitOn, String.ofList_toList]

theorem splitOn_joined (hne : d ≠ []) (h : ∀ group ∈ d, '-' ∉ group) :
    (joined d).toList.splitOn '-' = d := by
  unfold joined
  rw [String.toList_ofList, List.splitOn_intercalate '-' h hne]

theorem memoGroups_eq_some (h : memoGroups parts = some (d, i)) :
    parts = "DEAL".toList :: (d ++ "INV".toList :: i) ∧ d.length = 4 ∧ i.length = 4 ∧
      [] ∉ d ∧ [] ∉ i := by
  unfold memoGroups at h
  split at h
  · next deal d₁ d₂ d₃ d₄ inv i₁ i₂ i₃ i₄ =>
    split at h
    · next hmatch =>
      obtain ⟨rfl, rfl⟩ := Prod.mk.inj (Option.some.inj h)
      obtain ⟨rfl, rfl, hnonempty⟩ := hmatch
      simp only [List.mem_cons, List.not_mem_nil, or_false, not_or] at hnonempty ⊢
      obtain ⟨h₁, h₂, h₃, h₄, h₅, h₆, h₇, h₈⟩ := hnonempty
      exact ⟨rfl, rfl, rfl, ⟨h₁, h₂, h₃, h₄⟩, h₅, h₆, h₇, h₈⟩
    · cases h
  · cases h

theorem length_of_uuid (h : IsUuid id) : (id.toList.splitOn '-').length = 5 := by
  have hlength := congrArg List.length h.1
  rwa [List.length_map] at hlength

theorem parseMemo_eq_some (h : setup.parseMemo (some memo) = some (dealId, investmentId)) :
    setup.trim memo = memoOf dealId investmentId ∧ IsPatternId dealId ∧
      IsPatternId investmentId := by
  unfold Setup.parseMemo at h
  obtain ⟨memo', hmemo, hread⟩ := Option.bind_eq_some_iff.mp h
  obtain rfl : memo = memo' := Option.some.inj (Option.filter_eq_some_iff.mp hmemo).1
  obtain ⟨⟨d, i⟩, hparts, hids⟩ := Option.bind_eq_some_iff.mp hread
  obtain ⟨rfl, rfl⟩ := Prod.mk.inj (Option.some.inj hids)
  obtain ⟨hsplit, hd, hi, hd', hi'⟩ := memoGroups_eq_some hparts
  have hhyphens : ∀ group ∈ (setup.trim memo).toList.splitOn '-', '-' ∉ group :=
    fun group hgroup => not_mem_of_mem_splitOn hgroup
  rw [hsplit] at hhyphens
  have hsplitD : (joined d).toList.splitOn '-' = d :=
    splitOn_joined (List.ne_nil_of_length_eq_add_one hd) fun group hgroup =>
      hhyphens group (List.mem_cons_of_mem _ (List.mem_append_left _ hgroup))
  have hsplitI : (joined i).toList.splitOn '-' = i :=
    splitOn_joined (List.ne_nil_of_length_eq_add_one hi) fun group hgroup =>
      hhyphens group (List.mem_cons_of_mem _ (List.mem_append_right _
        (List.mem_cons_of_mem _ hgroup)))
  refine ⟨?_, ⟨by rw [hsplitD, hd], by rwa [hsplitD]⟩, ⟨by rw [hsplitI, hi], by rwa [hsplitI]⟩⟩
  rw [← joined_splitOn (setup.trim memo), ← joined_splitOn (memoOf _ _), splitOn_memoOf, hsplit,
    hsplitD, hsplitI]

end Parts

/-! ## What holds, and what never does -/

section Main

variable {setup : Setup} {dealId investmentId : String}

theorem readsOnly (setup : Setup) : setup.ReadsOnly := by
  intro memo dealId investmentId h
  obtain ⟨htrim, hdeal, hinvestment⟩ := parseMemo_eq_some h
  refine ⟨htrim, fun dealId' investmentId' hdeal' hinvestment' hsame => ?_⟩
  have hparts := congrArg (fun text => text.toList.splitOn '-') hsame
  simp only [splitOn_memoOf, List.cons.injEq, true_and] at hparts
  have hgroups : ∀ {id}, IsUuid id ∨ IsPatternId id → 4 ≤ (id.toList.splitOn '-').length := by
    rintro id (huuid | hpattern)
    · exact (length_of_uuid huuid).ge.trans' (by decide)
    · exact hpattern.1.ge
  have hd := hgroups hdeal'
  have hi := hgroups hinvestment'
  have hlength := congrArg List.length hparts
  simp only [List.length_append, List.length_cons, hdeal.1, hinvestment.1] at hlength
  obtain ⟨hleft, hright⟩ := List.append_inj hparts (by rw [hdeal.1]; omega)
  constructor
  · rw [← joined_splitOn dealId', hleft, joined_splitOn]
  · rw [← joined_splitOn investmentId', (List.cons.inj hright).2, joined_splitOn]

theorem length_le_utf8ByteSize (cs : List Char) : cs.length ≤ (String.ofList cs).utf8ByteSize := by
  induction cs with
  | nil => exact Nat.zero_le _
  | cons c cs ih =>
    have hc : 1 ≤ (String.ofList [c]).utf8ByteSize := by
      rw [← String.singleton_eq_ofList, String.utf8ByteSize_singleton]
      exact c.utf8Size_pos
    rw [← List.singleton_append, String.ofList_append, String.utf8ByteSize_append,
      List.length_append, List.length_singleton]
    omega

theorem length_memoOf (dealId investmentId : String) :
    (memoOf dealId investmentId).toList.length =
      10 + dealId.toList.length + investmentId.toList.length := by
  simp [memoOf, String.toList_append]
  omega

/-- The last group of a uuid, and what stands before it. -/
theorem last_group {id : String} (h : IsUuid id) :
    ∃ front group, id.toList = front ++ group ∧ front.length = 24 ∧ group.length = 12 ∧
      ∀ c ∈ group, isHexDigit c = true := by
  have htext : ['-'].intercalate (id.toList.splitOn '-') = id.toList :=
    List.intercalate_splitOn '-'
  obtain ⟨hlengths, hhex⟩ := h
  generalize id.toList.splitOn '-' = groups at htext hlengths hhex
  obtain ⟨g₁, rest, rfl, h₁, hlengths⟩ := List.map_eq_cons_iff.mp hlengths
  obtain ⟨g₂, rest, rfl, h₂, hlengths⟩ := List.map_eq_cons_iff.mp hlengths
  obtain ⟨g₃, rest, rfl, h₃, hlengths⟩ := List.map_eq_cons_iff.mp hlengths
  obtain ⟨g₄, rest, rfl, h₄, hlengths⟩ := List.map_eq_cons_iff.mp hlengths
  obtain ⟨g₅, rest, rfl, h₅, hlengths⟩ := List.map_eq_cons_iff.mp hlengths
  obtain rfl := List.map_eq_nil_iff.mp hlengths
  refine ⟨g₁ ++ '-' :: g₂ ++ '-' :: g₃ ++ '-' :: g₄ ++ ['-'], g₅, ?_, ?_, h₅,
    List.all_eq_true.mp (hhex g₅ (by simp))⟩
  · simp [← htext]
  · simp [h₁, h₂, h₃, h₄]

theorem length_uuid {id : String} (h : IsUuid id) : id.toList.length = 36 := by
  obtain ⟨front, group, htext, hfront, hgroup, -⟩ := last_group h
  rw [htext, List.length_append, hfront, hgroup]

theorem trimmed_eq {c c' : Char} {cs : List Char} (hfirst : isBlank c = false)
    (hlast : isBlank c' = false) :
    trimmed (String.ofList (c :: cs ++ [c'])) = String.ofList (c :: cs ++ [c']) := by
  unfold trimmed
  rw [String.toList_ofList, List.cons_append, List.dropWhile_cons_of_neg (by simp [hfirst]),
    ← List.cons_append, List.reverse_append]
  show String.ofList (((c' :: (c :: cs).reverse).dropWhile isBlank).reverse) = _
  rw [List.dropWhile_cons_of_neg (by simp [hlast])]
  simp

theorem not_blank_of_hex {c : Char} (h : isHexDigit c = true) : isBlank c = false := by
  have hcode : 48 ≤ c.toNat ∧ c.toNat ≤ 57 ∨ 97 ≤ c.toNat ∧ c.toNat ≤ 102 ∨
      65 ≤ c.toNat ∧ c.toNat ≤ 70 := by
    simpa [isHexDigit, Char.le_def, UInt32.le_iff_toNat_le, or_assoc] using h
  unfold isBlank
  simp only [Bool.or_eq_false_iff, Bool.and_eq_false_iff, decide_eq_false_iff_not, List.mem_cons,
    List.not_mem_nil, or_false]
  omega

theorem trimmed_memoOf (h : IsUuid investmentId) :
    trimmed (memoOf dealId investmentId) = memoOf dealId investmentId := by
  obtain ⟨front, group, htext, -, hgroup, hhex⟩ := last_group h
  obtain ⟨cs, c, rfl⟩ := List.eq_nil_or_concat' group |>.resolve_left
    (List.ne_nil_of_length_eq_add_one hgroup)
  have hmemo : memoOf dealId investmentId = String.ofList
      ('D' :: ("EAL-".toList ++ dealId.toList ++ "-INV-".toList ++ front ++ cs) ++ [c]) := by
    rw [← String.ofList_toList (s := memoOf dealId investmentId)]
    congr 1
    simp [memoOf, String.toList_append, htext]
  rw [hmemo]
  exact trimmed_eq (by decide) (not_blank_of_hex (hhex c (by simp)))

/-- No memo of the ids of a deal and of an investment fits, and none is read; and what is read of a
    memo is what it was made of. -/
theorem memo_never (htrim : setup.trim = trimmed) (hdeal : IsUuid dealId)
    (hinvestment : IsUuid investmentId) :
    ¬ setup.RoundTrip dealId investmentId ∧
      MEMO_LIMIT < (memoOf dealId investmentId).utf8ByteSize ∧
      setup.parseMemo (some (memoOf dealId investmentId)) = none ∧ setup.ReadsOnly := by
  have hsize : MEMO_LIMIT < (memoOf dealId investmentId).utf8ByteSize := by
    have hbytes := length_le_utf8ByteSize (memoOf dealId investmentId).toList
    rw [String.ofList_toList, length_memoOf, length_uuid hdeal, length_uuid hinvestment] at hbytes
    exact hbytes.trans_lt' (by decide)
  refine ⟨fun h => absurd h.fits (not_le.mpr hsize), hsize, ?_, readsOnly setup⟩
  cases hread : setup.parseMemo (some (memoOf dealId investmentId)) with
  | none => rfl
  | some ids =>
    obtain ⟨dealId', investmentId'⟩ := ids
    obtain ⟨htext, hpattern, -⟩ := parseMemo_eq_some hread
    rw [htrim, trimmed_memoOf hinvestment] at htext
    have hsame := (readsOnly setup _ _ _ hread).2 dealId investmentId (.inl hdeal)
      (.inl hinvestment) htext
    have hgroups := length_of_uuid hdeal
    rw [hsame.1, hpattern.1] at hgroups
    cases hgroups

end Main

/-! ## The ids of the tests -/

def plainSetup : Setup := ⟨"GPLATFORM", trimmed, some⟩

theorem memo_never_here :
    ¬ plainSetup.RoundTrip "a1b2c3d4-e5f6-7890-abcd-ef1234567890"
        "b2c3d4e5-f6a7-8901-bcde-f12345678901" :=
  (memo_never rfl (by decide +kernel) (by decide +kernel)).1

end AgriFi.StellarMonitor
