import AgriFi.NumberText
import AgriFi.Rounding
import AgriFi.Split
import Mathlib.Data.Nat.Digits.Lemmas

/-
  Numbers of JSON read back. A text that `Number.prototype.toString` wrote for a double is read as
  that double (`readNumber_toText`): the digits and the exponent come back whichever way they were
  laid out (`readMagnitude_layout`), and they round to the double because seventeen digits are
  always near enough (`toDouble_eq_of_near`).
-/

namespace AgriFi.JsValue.Number

open AgriFi.Binary64 AgriFi.Split

/-! ## Reading -/

def digitValue (c : Char) : Nat := c.toNat - 48

/-- The number that decimal digits stand for. -/
def natOf (ds : List Char) : Nat := ds.foldl (fun n c => 10 * n + digitValue c) 0

def readDigits (ds : List Char) : Option Nat :=
  if ds ≠ [] ∧ ds.all Char.isDigit then some (natOf ds) else none

/-- What follows the digits: nothing, or an exponent. -/
def readExponent : List Char → Option Int
  | [] => some 0
  | c :: rest =>
    if c = 'e' ∨ c = 'E' then
      match rest with
      | '+' :: ds => (readDigits ds).map Int.ofNat
      | '-' :: ds => (readDigits ds).map fun n => -Int.ofNat n
      | ds => (readDigits ds).map Int.ofNat
    else none

/-- The digits after the point, and the exponent. -/
def readFraction : List Char → Option (List Char × Int)
  | '.' :: rest =>
    let fraction := rest.takeWhile Char.isDigit
    if fraction = [] then none
    else (readExponent (rest.dropWhile Char.isDigit)).map fun e => (fraction, e)
  | rest => (readExponent rest).map fun e => ([], e)

/-- The number with the digits before and after the point. -/
def decimal (whole fraction : List Char) (e : Int) : Rat :=
  natOf (whole ++ fraction) * 10 ^ (e - fraction.length)

/-- No zero before other digits. -/
def readMagnitude (cs : List Char) : Option Rat :=
  let whole := cs.takeWhile Char.isDigit
  if whole = [] ∨ whole.head? = some '0' ∧ whole ≠ ['0'] then none
  else (readFraction (cs.dropWhile Char.isDigit)).map fun p => decimal whole p.1 p.2

def readNumber : List Char → Option Number
  | '-' :: cs => (readMagnitude cs).map fun x => ofRat (-x)
  | cs => (readMagnitude cs).map ofRat

/-! ## Digits -/

section Digits

variable {ds es : List Char} {n k : Nat}

theorem isDigit_digitChar (n : Nat) : (digitChar n).isDigit = true := by
  have hall : (List.range 10).all fun k => (Char.ofNat (48 + k)).isDigit := by decide
  exact List.all_eq_true.mp hall (n % 10) (List.mem_range.mpr (Nat.mod_lt _ (by decide)))

theorem digitValue_digitChar (n : Nat) : digitValue (digitChar n) = n % 10 := by
  have hall : (List.range 10).all fun k => (Char.ofNat (48 + k)).toNat - 48 = k := by decide
  have h := List.all_eq_true.mp hall (n % 10) (List.mem_range.mpr (Nat.mod_lt _ (by decide)))
  exact of_decide_eq_true h

theorem natOf_concat (ds : List Char) (c : Char) :
    natOf (ds ++ [c]) = 10 * natOf ds + digitValue c := by
  simp [natOf]

theorem natOf_append (ds es : List Char) :
    natOf (ds ++ es) = natOf ds * 10 ^ es.length + natOf es := by
  induction es using List.reverseRecOn with
  | nil => simp [natOf]
  | append_singleton es c ih =>
    rw [← List.append_assoc, natOf_concat, natOf_concat, ih, List.length_append,
      List.length_singleton, pow_succ]
    ring

theorem natOf_zeros (n : Nat) : natOf (List.replicate n '0') = 0 := by
  induction n with
  | zero => rfl
  | succ n ih =>
    rw [List.replicate_succ', natOf_concat, ih]
    rfl

theorem natOf_digits (l : List Nat) (h : ∀ d ∈ l, d < 10) :
    natOf (l.reverse.map digitChar) = Nat.ofDigits 10 l := by
  induction l with
  | nil => rfl
  | cons d l ih =>
    rw [List.reverse_cons, List.map_append, List.map_singleton, natOf_concat, digitValue_digitChar,
      ih fun e he => h e (List.mem_cons_of_mem _ he), Nat.ofDigits_cons,
      Nat.mod_eq_of_lt (h d (List.mem_cons_self ..)), Nat.add_comm]

theorem digitsOf_pos (h : n ≠ 0) : digitsOf n = (Nat.digits 10 n).reverse.map digitChar :=
  if_neg h

theorem natOf_digitsOf (n : Nat) : natOf (digitsOf n) = n := by
  by_cases h : n = 0
  · subst h
    rfl
  · rw [digitsOf_pos h, natOf_digits _ fun d hd => Nat.digits_lt_base (by decide) hd,
      Nat.ofDigits_digits]

theorem isDigit_of_mem_digitsOf {c : Char} (h : c ∈ digitsOf n) : c.isDigit = true := by
  by_cases hn : n = 0
  · subst hn
    obtain rfl := List.mem_singleton.mp h
    decide
  · rw [digitsOf_pos hn] at h
    obtain ⟨d, -, rfl⟩ := List.mem_map.mp h
    exact isDigit_digitChar d

theorem digitsOf_ne_nil (n : Nat) : digitsOf n ≠ [] := by
  unfold digitsOf
  split
  · exact List.cons_ne_nil _ _
  · next h => simpa [Nat.digits_ne_nil_iff_ne_zero] using h

theorem length_digitsOf (h : n ≠ 0) (hle : 10 ^ (k - 1) ≤ n) (hlt : n < 10 ^ k) :
    (digitsOf n).length = k := by
  have hle' := (Nat.digits_length_le_iff (b := 10) (by decide) n (k := k)).mpr hlt
  have hlt' : ¬ (Nat.digits 10 n).length ≤ k - 1 := by
    rw [Nat.digits_length_le_iff (by decide)]
    omega
  rw [digitsOf_pos h, List.length_map, List.length_reverse]
  have hpos : k ≠ 0 := by
    rintro rfl
    omega
  omega

theorem head_digitsOf (h : n ≠ 0) : (digitsOf n).head? ≠ some '0' := by
  rw [digitsOf_pos h, List.head?_map, List.head?_reverse]
  have hne := Nat.digits_ne_nil_iff_ne_zero (b := 10).mpr h
  rw [List.getLast?_eq_some_getLast hne, Option.map_some]
  intro hzero
  have hvalue := congrArg digitValue (Option.some.inj hzero)
  rw [digitValue_digitChar, Nat.mod_eq_of_lt
    (Nat.digits_lt_base (by decide) (List.getLast_mem hne))] at hvalue
  exact Nat.getLast_digit_ne_zero 10 h hvalue

theorem readDigits_digitsOf (n : Nat) : readDigits (digitsOf n) = some n := by
  unfold readDigits
  rw [if_pos ⟨digitsOf_ne_nil n, List.all_eq_true.mpr fun _ => isDigit_of_mem_digitsOf⟩,
    natOf_digitsOf]

end Digits

/-! ## Layouts -/

section Layout

variable {ds whole rest fraction tail : List Char} {e : Int} {n : Int}

theorem readMagnitude_eq (hdigits : ∀ c ∈ whole, c.isDigit = true) (hne : whole ≠ [])
    (hzero : whole.head? ≠ some '0' ∨ whole = ['0']) (hrest : Stops Char.isDigit rest)
    (hread : readFraction rest = some (fraction, e)) :
    readMagnitude (whole ++ rest) = some (decimal whole fraction e) := by
  obtain ⟨htake, hdrop⟩ := takeWhile_stops hdigits hrest
  unfold readMagnitude
  dsimp only
  rw [htake, hdrop, hread, if_neg, Option.map_some]
  rintro (hnil | ⟨hhead, hmany⟩)
  · exact hne hnil
  · exact hzero.elim (fun h => h hhead) hmany

theorem readFraction_point (hdigits : ∀ c ∈ fraction, c.isDigit = true) (hne : fraction ≠ [])
    (htail : Stops Char.isDigit tail) (hread : readExponent tail = some e) :
    readFraction ('.' :: (fraction ++ tail)) = some (fraction, e) := by
  obtain ⟨htake, hdrop⟩ := takeWhile_stops hdigits htail
  show (if (fraction ++ tail).takeWhile Char.isDigit = [] then none else _) = _
  rw [htake, hdrop, if_neg hne, hread, Option.map_some]

/-- The exponent as it is written after a number with the digits before `n` places. -/
def exponentText (n : Int) : List Char :=
  'e' :: (if 0 < n then '+' else '-') :: digitsOf (n - 1).natAbs

theorem readExponent_exponentText (n : Int) : readExponent (exponentText n) = some (n - 1) := by
  show (if 'e' = 'e' ∨ 'e' = 'E' then _ else none) = _
  rw [if_pos (Or.inl rfl)]
  by_cases hn : 0 < n
  · rw [if_pos hn]
    show (readDigits _).map _ = _
    rw [readDigits_digitsOf]
    show some ((n - 1).natAbs : Int) = some (n - 1)
    congr 1
    omega
  · rw [if_neg hn]
    show (readDigits _).map _ = _
    rw [readDigits_digitsOf]
    show some (-((n - 1).natAbs : Int)) = some (n - 1)
    congr 1
    omega

theorem stops_exponentText (n : Int) : Stops Char.isDigit (exponentText n) := stops_cons rfl

/-- The digits and the exponent of a number, from its text. -/
theorem readMagnitude_layout (hdigits : ∀ c ∈ ds, c.isDigit = true) (hne : ds ≠ [])
    (hhead : ds.head? ≠ some '0') (n : Int) :
    readMagnitude (layout ds n) = some ((natOf ds : Rat) * 10 ^ (n - (ds.length : Int))) := by
  have hlength := List.length_pos_iff.mpr hne
  have hpoint : ∀ cs, Stops Char.isDigit ('.' :: cs) := fun cs => stops_cons rfl
  unfold layout
  dsimp only
  split
  · next hwhole =>
    -- zeros after the digits
    have hzeros : ∀ c ∈ ds ++ List.replicate (n.toNat - ds.length) '0', c.isDigit = true := by
      intro c hc
      rcases List.mem_append.mp hc with hc | hc
      · exact hdigits c hc
      · rw [List.eq_of_mem_replicate hc]
        rfl
    have hread := @readMagnitude_eq _ [] [] 0 hzeros (by simp [hne])
      (.inl (by rwa [List.head?_append_of_ne_nil _ hne])) stops_nil rfl
    rw [List.append_nil] at hread
    rw [hread, decimal, List.append_nil, natOf_append, natOf_zeros, List.length_replicate]
    congr 1
    push_cast
    rw [add_zero, List.length_nil, Nat.cast_zero, sub_zero, zpow_zero, mul_one, ← zpow_natCast]
    congr 2
    omega
  split
  · next hmany hinside =>
    -- a point between the digits
    obtain ⟨k, rfl⟩ : ∃ k : Nat, n = k := ⟨n.toNat, by omega⟩
    have hlt : k < ds.length := by omega
    have hfraction : readFraction ('.' :: ds.drop k) = some (ds.drop k, 0) := by
      have h : readFraction ('.' :: (ds.drop k ++ [])) = some (ds.drop k, 0) :=
        readFraction_point (fun c hc => hdigits c (List.mem_of_mem_drop hc)) (by simp; omega)
          stops_nil rfl
      rwa [List.append_nil] at h
    have hhead' : (ds.take k).head? ≠ some '0' := by
      rwa [List.head?_take, if_neg (by omega)]
    rw [Int.toNat_natCast, List.append_assoc, List.singleton_append,
      readMagnitude_eq (fun c hc => hdigits c (List.mem_of_mem_take hc))
        (by simp [hne]; omega) (.inl hhead') (hpoint _) hfraction,
      decimal, List.take_append_drop, List.length_drop]
    congr 3
    omega
  split
  · next hmany hinside hsmall =>
    -- zeros after the point
    obtain ⟨m, rfl⟩ : ∃ m : Nat, n = -m := ⟨(-n).toNat, by omega⟩
    have hdigits' : ∀ c ∈ List.replicate m '0' ++ ds, c.isDigit = true := by
      intro c hc
      rcases List.mem_append.mp hc with hc | hc
      · rw [List.eq_of_mem_replicate hc]
        rfl
      · exact hdigits c hc
    have hfraction : readFraction ('.' :: (List.replicate m '0' ++ ds)) =
        some (List.replicate m '0' ++ ds, 0) := by
      have h : readFraction ('.' :: ((List.replicate m '0' ++ ds) ++ [])) =
          some (List.replicate m '0' ++ ds, 0) :=
        readFraction_point hdigits' (by simp [hne]) stops_nil rfl
      rwa [List.append_nil] at h
    rw [neg_neg, Int.toNat_natCast, List.append_assoc]
    show readMagnitude (['0'] ++ '.' :: (List.replicate m '0' ++ ds)) = _
    have hzero : natOf ['0'] = 0 := rfl
    have hall : ∀ c ∈ ['0'], c.isDigit = true := List.forall_mem_singleton.mpr rfl
    rw [readMagnitude_eq hall (List.cons_ne_nil _ _) (.inr rfl) (hpoint _) hfraction, decimal,
      natOf_append, natOf_append, hzero, natOf_zeros, List.length_append, List.length_replicate]
    congr 1
    push_cast
    rw [zero_mul, zero_mul, zero_add, zero_add]
    congr 2
    ring
  · -- an exponent
    rw [List.append_assoc]
    show readMagnitude (_ ++ exponentText n) = _
    split
    · next hone =>
      have hfraction : readFraction (exponentText n) = some ([], n - 1) := by
        show (readExponent (exponentText n)).map _ = _
        rw [readExponent_exponentText, Option.map_some]
      rw [readMagnitude_eq hdigits hne (.inl hhead) (stops_exponentText n) hfraction, decimal,
        List.append_nil, hone, List.length_nil]
      congr 3
      omega
    · next hmany =>
      have hfraction : readFraction ('.' :: (ds.drop 1 ++ exponentText n)) =
          some (ds.drop 1, n - 1) :=
        readFraction_point (fun c hc => hdigits c (List.mem_of_mem_drop hc))
          (mt List.drop_eq_nil_iff.mp (by omega)) (stops_exponentText n)
          (readExponent_exponentText n)
      have hhead' : (ds.take 1).head? ≠ some '0' := by
        rwa [List.head?_take, if_neg (by decide)]
      rw [List.append_assoc, List.append_assoc, List.singleton_append,
        readMagnitude_eq (fun c hc => hdigits c (List.mem_of_mem_take hc)) (by simp [hne])
          (.inl hhead') (hpoint _) hfraction,
        decimal, List.take_append_drop, List.length_drop]
      congr 3
      omega

end Layout

/-! ## The shortest digits -/

section Shortest

variable {x : Rat} {k : Nat}

theorem decimalExponent_spec (hx : 0 < x) :
    (10 : Rat) ^ (decimalExponent x - 1) ≤ x ∧ x < (10 : Rat) ^ decimalExponent x := by
  unfold decimalExponent
  split
  · next hone =>
    have hfloor : ⌊x⌋₊ ≠ 0 := (Nat.floor_pos.mpr hone).ne'
    have hle : (10 : Rat) ^ Nat.log 10 ⌊x⌋₊ ≤ ⌊x⌋₊ := by
      exact_mod_cast Nat.pow_log_le_self 10 hfloor
    have hlt : ((⌊x⌋₊ + 1 : Nat) : Rat) ≤ (10 : Rat) ^ (Nat.log 10 ⌊x⌋₊ + 1) := by
      exact_mod_cast Nat.lt_pow_succ_log_self (by decide) ⌊x⌋₊
    constructor
    · rw [add_sub_cancel_right, zpow_natCast]
      exact hle.trans (Nat.floor_le hx.le)
    · have hcast : ((Nat.log 10 ⌊x⌋₊ : Int) + 1) = ((Nat.log 10 ⌊x⌋₊ + 1 : Nat) : Int) := by
        push_cast
        rfl
      rw [hcast, zpow_natCast]
      push_cast at hlt
      exact (Nat.lt_floor_add_one x).trans_le hlt
  · next hless =>
    have hinv : 1 < 1 / x := by
      rw [lt_div_iff₀ hx, one_mul]
      exact not_le.mp hless
    have hceil : 1 < ⌈1 / x⌉₊ := Nat.lt_ceil.mpr (by exact_mod_cast hinv)
    set m := ⌈1 / x⌉₊ - 1 with hm
    have hm0 : m ≠ 0 := by omega
    have hbelow : (m : Rat) < 1 / x := Nat.lt_ceil.mp (by omega)
    have habove : 1 / x ≤ ((m + 1 : Nat) : Rat) := by
      rw [show m + 1 = ⌈1 / x⌉₊ by omega]
      exact Nat.le_ceil _
    have hle : (10 : Rat) ^ Nat.log 10 m ≤ m := by exact_mod_cast Nat.pow_log_le_self 10 hm0
    have hlt : ((m + 1 : Nat) : Rat) ≤ (10 : Rat) ^ (Nat.log 10 m + 1) := by
      exact_mod_cast Nat.lt_pow_succ_log_self (by decide) m
    constructor
    · have hneg : (-(Nat.log 10 m : Int) - 1) = -((Nat.log 10 m + 1 : Nat) : Int) := by
        push_cast
        ring
      rw [hneg, zpow_neg, zpow_natCast, ← one_div, div_le_iff₀ (by positivity)]
      have hprod := (div_le_iff₀ hx).mp (habove.trans hlt)
      linarith
    · rw [zpow_neg, zpow_natCast, ← one_div, lt_div_iff₀ (by positivity)]
      have hprod := (lt_div_iff₀ hx).mp (hle.trans_lt hbelow)
      linarith

/-- The nearest number of `k` digits is off by at most half a unit of the last one. -/
theorem nearestDigits_spec (hx : 0 < x) (hk : 1 ≤ k) :
    10 ^ (k - 1) ≤ (nearestDigits x k).1 ∧ (nearestDigits x k).1 < 10 ^ k ∧
      |((nearestDigits x k).1 : Rat) * 10 ^ ((nearestDigits x k).2 - k) - x| ≤
        (10 : Rat) ^ (decimalExponent x - k) / 2 := by
  obtain ⟨hlow, hhigh⟩ := decimalExponent_spec hx
  set n := decimalExponent x with hn
  set u : Rat := 10 ^ (n - k) with hu
  have hu0 : 0 < u := zpow_pos (by norm_num) _
  have hlow' : (10 : Rat) ^ (k - 1) ≤ x / u := by
    rw [le_div_iff₀ hu0, hu, ← zpow_natCast, ← zpow_add₀ (by norm_num)]
    refine le_of_eq_of_le ?_ hlow
    congr 1
    omega
  have hhigh' : x / u < (10 : Rat) ^ k := by
    rw [div_lt_iff₀ hu0, hu, ← zpow_natCast, ← zpow_add₀ (by norm_num)]
    refine hhigh.trans_eq ?_
    congr 1
    omega
  set s := ⌊x / u + 1 / 2⌋₊ with hs
  have hs1 : (s : Rat) ≤ x / u + 1 / 2 := Nat.floor_le (by positivity)
  have hs2 : x / u + 1 / 2 < s + 1 := Nat.lt_floor_add_one _
  have hge : 10 ^ (k - 1) ≤ s := by
    refine Nat.le_floor ?_
    push_cast
    linarith
  have hle : s ≤ 10 ^ k := by
    have hlt : (s : Rat) < ((10 ^ k + 1 : Nat) : Rat) := by
      push_cast
      linarith
    have hlt' : s < 10 ^ k + 1 := by exact_mod_cast hlt
    omega
  have hdist : |(s : Rat) * u - x| ≤ u / 2 := by
    have hsplit : (s : Rat) * u - x = (s - x / u) * u := by
      rw [sub_mul, div_mul_cancel₀ x hu0.ne']
    have hhalf : |(s : Rat) - x / u| ≤ 1 / 2 := abs_le.mpr ⟨by linarith, by linarith⟩
    rw [hsplit, abs_mul, abs_of_pos hu0]
    linarith [mul_le_mul_of_nonneg_right hhalf hu0.le]
  unfold nearestDigits
  dsimp only
  rw [← hn, ← hu, ← hs]
  split
  · next htop =>
    refine ⟨le_rfl, Nat.pow_lt_pow_right (by decide) (by omega), ?_⟩
    -- a one and zeros, one place further up
    have hsame : ((10 ^ (k - 1) : Nat) : Rat) * 10 ^ (n + 1 - k) = s * u := by
      rw [htop, hu]
      push_cast
      rw [← zpow_natCast, ← zpow_natCast, ← zpow_add₀ (by norm_num), ← zpow_add₀ (by norm_num)]
      congr 1
      omega
    rw [hsame]
    exact hdist
  · next hbelow => exact ⟨hge, by omega, hdist⟩

/-- Seventeen digits are enough. -/
theorem shortestDigits_spec (hx : toDouble x = x) (hpos : 0 < x) (fuel : Nat) (hk : 1 ≤ k)
    (hfuel : k + fuel = 17) :
    ∃ j : Nat, 10 ^ (j - 1) ≤ (shortestDigits x k fuel).1 ∧
      (shortestDigits x k fuel).1 < 10 ^ j ∧
      toDouble (((shortestDigits x k fuel).1 : Rat) *
        10 ^ ((shortestDigits x k fuel).2 - (j : Int))) = x := by
  induction fuel generalizing k with
  | zero =>
    obtain ⟨hge, hlt, hdist⟩ := nearestDigits_spec hpos hk
    refine ⟨k, hge, hlt, toDouble_eq_of_near hx hpos (hdist.trans ?_)⟩
    obtain rfl : k = 17 := hfuel
    have hlow := (decimalExponent_spec hpos).1
    have hunit : (10 : Rat) ^ (decimalExponent x - (17 : Nat)) =
        10 ^ (decimalExponent x - 1) / 10 ^ 16 := by
      rw [← zpow_natCast, ← zpow_sub₀ (by norm_num)]
      congr 1
      push_cast
      ring
    rw [hunit, div_div, mul_comm (2 : Rat)]
    exact div_le_div_of_nonneg_right hlow (by norm_num)
  | succ fuel ih =>
    unfold shortestDigits
    dsimp only
    split
    · next hround =>
      obtain ⟨hge, hlt, -⟩ := nearestDigits_spec hpos hk
      exact ⟨k, hge, hlt, hround⟩
    · exact ih (by omega) (by omega)

end Shortest

/-! ## Numbers -/

section Numbers

variable {q x : Rat} {cs : List Char}

/-- The finite doubles. -/
def IsDouble (q : Rat) : Prop := toDouble q = q ∧ |q| < 2 ^ 1024

instance (q : Rat) : Decidable (IsDouble q) := inferInstanceAs (Decidable (_ ∧ _))

theorem ofRat_of_toDouble (hq : IsDouble q) (h : toDouble x = q) : ofRat x = .finite q := by
  unfold ofRat
  rw [h, if_neg (not_le.mpr hq.2)]

theorem readMagnitude_positiveText (hx : toDouble x = x) (hpos : 0 < x) :
    ∃ y, readMagnitude (positiveText x) = some y ∧ toDouble y = x := by
  obtain ⟨j, hge, hlt, hround⟩ := shortestDigits_spec hx hpos 16 (k := 1) (by decide) rfl
  have hs : (shortestDigits x 1 16).1 ≠ 0 := by
    have := Nat.pow_pos (n := j - 1) (by decide : 0 < 10)
    omega
  refine ⟨_, readMagnitude_layout (fun c => isDigit_of_mem_digitsOf) (digitsOf_ne_nil _)
    (head_digitsOf hs) _, ?_⟩
  rwa [natOf_digitsOf, length_digitsOf hs hge hlt]

theorem readNumber_of_readMagnitude (h : readMagnitude cs = some x) :
    readNumber cs = some (ofRat x) := by
  have hhead : ∀ rest, cs ≠ '-' :: rest := by
    rintro rest rfl
    have hnone : readMagnitude ('-' :: rest) = none := by
      unfold readMagnitude
      exact if_pos (.inl rfl)
    rw [hnone] at h
    cases h
  unfold readNumber
  split
  · exact absurd rfl (hhead _)
  · rw [h, Option.map_some]

/-- A double is read back from its text. -/
theorem readNumber_toText (hq : IsDouble q) :
    readNumber (toText (.finite q)) = some (.finite q) := by
  unfold toText
  dsimp only
  split
  · next hzero =>
    subst hzero
    rw [readNumber_of_readMagnitude (x := 0) (by decide +kernel)]
    exact congrArg some (ofRat_of_toDouble hq (by simp))
  split
  · next hneg =>
    have hdouble : toDouble (-q) = -q := by rw [toDouble_neg, hq.1]
    obtain ⟨y, hread, hround⟩ := readMagnitude_positiveText hdouble (by linarith)
    show (readMagnitude _).map _ = _
    rw [hread, Option.map_some]
    refine congrArg some (ofRat_of_toDouble hq ?_)
    rw [toDouble_neg, hround, neg_neg]
  · next hzero hneg =>
    obtain ⟨y, hread, hround⟩ := readMagnitude_positiveText hq.1
      (lt_of_le_of_ne (not_lt.mp hneg) (Ne.symm hzero))
    rw [readNumber_of_readMagnitude hread]
    exact congrArg some (ofRat_of_toDouble hq hround)

end Numbers

end AgriFi.JsValue.Number
