import AgriFi.Accreditation.AnnualCap
import Mathlib.Tactic.Linarith

/-
  Whether the annual cap holds. The check, the insertion and the addition to the total are three
  steps without a lock: calls that are checked together pass together (`cap_exceeded`). A call that
  fails after its insertion is not added, a cancellation is not taken off, and the reset of the new
  year also takes what was invested since midnight. `cap_kept`: in every run in which the calls of
  the investor come one after the other, with whole units, within one year and to their end, no
  cancellation takes effect and no reset finds an amount, the cap holds and the totals are right.
-/

namespace AgriFi.Accreditation

open AgriFi.Binary64 AgriFi.Investments AgriFi.Runs AgriFi.Threads
open AgriFi.Soroban (failIf)
open AgriFi.DealDelivered (Outcome)

/-! ## What is claimed -/

def Config.counts (cfg : Config) (year : Int) (i : Investment) : Nat :=
  if cfg.fullYear i.createdAt = year ∧ i.status ≠ .cancelled then i.amountUsd else 0

/-- What was invested in a year and not cancelled. -/
def Config.created (cfg : Config) (s : State) (year : Int) : Nat :=
  (s.investments.map (cfg.counts year)).sum

def State.total (s : State) (year : Int) : Nat := (s.annualTotal year).getD 0

/-- The thread has inserted an investment and not recorded it yet. -/
def Pc.recording : Pc → Bool
  | .buildXdr _ | .findRecord _ | .saveRecord _ _ _ => true
  | _ => false

/-- The cap holds in every year, and the totals are right whenever no call is on its way from its
    insertion to its record. -/
structure Capped (cfg : Config) (annualCap : Nat) (s : System) : Prop where
  cap : ∀ year, cfg.created s.state year ≤ annualCap * usd
  recorded : (∀ pc ∈ s.threads, pc.recording = false) →
    ∀ year, s.state.total year = cfg.created s.state year

/-! ## When it holds -/

/-- The thread has passed `enforceCaps` and not recorded its investment yet. -/
def Pc.inside : Pc → Bool
  | .transaction _ _ => true
  | pc => pc.recording

/-- The thread inserts the row of the year next. -/
def Pc.insertsRow (year : Int) : Pc → Bool
  | .saveRecord _ year' none => year' = year
  | _ => false

/-- The amount is a whole number of units. -/
def Whole (amountUsd : Rat) : Prop := number (column amountUsd) = amountUsd

instance (amountUsd : Rat) : Decidable (Whole amountUsd) := inferInstanceAs (Decidable (_ = _))

/-- No other call is between its check and its record when one is checked; every call goes on to
    its record; no cancellation finds a pending investment. -/
def Pc.Careful (s : System) (o : Outcome) : Pc → Prop
  | .enforceCaps dto _ => Whole dto.amountUsd ∧ ∀ pc ∈ s.threads, pc.inside = false
  | .transaction _ _ => o ≠ .lost
  | .buildXdr _ | .findRecord _ => o = .ok
  | .saveRecord _ _ _ => o ≠ .fail
  | .cancel id => o = .fail ∨ s.state.isPending id = false
  | .readToCancel _ | .finished => True

/-- The year does not change on a call between its check and its record, and a reset finds nothing
    to take away and nobody about to insert the row. -/
def Config.Careful (cfg : Config) (s : System) : Action → Prop
  | .run w o => ∀ pc ∈ s.threads[w]?, pc.Careful s o
  | .quit w => ∀ pc ∈ s.threads[w]?, pc.recording = false
  | .resetAnnualTotals newYear o => o = .fail ∨ s.state.annualTotal (newYear - 1) = none ∨
      s.state.total newYear = 0 ∧ ∀ pc ∈ s.threads, pc.insertsRow newYear = false
  | .wait ms => (∀ pc ∈ s.threads, pc.inside = false) ∨
      cfg.fullYear (s.state.now + ms) = cfg.fullYear s.state.now
  | .createInvestment _ _ _ | .requestCoolingOffCancel _ | .confirm _ => True

instance (s : System) (o : Outcome) : (pc : Pc) → Decidable (pc.Careful s o)
  | .enforceCaps _ _ => inferInstanceAs (Decidable (_ ∧ _))
  | .transaction _ _ => inferInstanceAs (Decidable (_ ≠ _))
  | .buildXdr _ | .findRecord _ => inferInstanceAs (Decidable (_ = _))
  | .saveRecord _ _ _ => inferInstanceAs (Decidable (_ ≠ _))
  | .cancel _ => inferInstanceAs (Decidable (_ ∨ _))
  | .readToCancel _ | .finished => isTrue trivial

instance (cfg : Config) (s : System) : (a : Action) → Decidable (cfg.Careful s a)
  | .run _ _ | .quit _ => inferInstanceAs (Decidable (∀ pc ∈ s.threads[_]?, _))
  | .resetAnnualTotals _ _ => inferInstanceAs (Decidable (_ ∨ _ ∨ _ ∧ _))
  | .wait _ => inferInstanceAs (Decidable (_ ∨ _))
  | .createInvestment _ _ _ | .requestCoolingOffCancel _ | .confirm _ => isTrue trivial

/-! ## Numbers below the cap -/

section Numbers

variable {x : Rat} {m n : Nat}

theorem number_near (n : Nat) : |number n - (n : Rat) / 10 ^ 7| ≤ (n : Rat) / 10 ^ 7 / 2 ^ 53 := by
  have hnear := toDouble_near ((n : Rat) / 10 ^ 7)
  have hnonneg : (0 : Rat) ≤ n / 10 ^ 7 := by positivity
  rw [abs_of_nonneg hnonneg] at hnear
  have husd : ((usd : Nat) : Rat) = 10 ^ 7 := by norm_num [usd]
  unfold number
  rwa [husd]

/-- A column keeps the units that a number is nearest to. -/
theorem column_eq (h : |x * 10 ^ 7 - n| < 1 / 2) : column x = n := by
  obtain ⟨hlow, hhigh⟩ := abs_lt.mp h
  have husd : ((usd : Nat) : Rat) = 10 ^ 7 := by norm_num [usd]
  have hfixed : Stellar.toFixed7 (x * usd) = n := by
    unfold Stellar.toFixed7
    rw [husd]
    split
    case isTrue =>
      rw [Int.floor_eq_iff]
      push_cast
      constructor <;> linarith
    case isFalse hneg =>
      have hn : n = 0 := by
        have hlt : (n : Rat) < 1 := by linarith
        exact_mod_cast Nat.lt_one_iff.mp (by exact_mod_cast hlt)
      subst hn
      have hfloor : ⌊-(x * 10 ^ 7) + 1 / 2⌋ = 0 := by
        rw [Int.floor_eq_iff]
        push_cast at *
        constructor <;> linarith
      rw [hfloor]
      rfl
  unfold column
  rw [hfixed]
  rfl

theorem add_near (m n : Nat) : |add (number m) (number n) - ((m : Rat) + n) / 10 ^ 7| ≤
    ((m : Rat) + n) / 10 ^ 7 / 2 ^ 51 := by
  obtain ⟨hm, hm'⟩ := abs_le.mp (number_near m)
  obtain ⟨hn, hn'⟩ := abs_le.mp (number_near n)
  have hm0 : (0 : Rat) ≤ m := Nat.cast_nonneg m
  have hn0 : (0 : Rat) ≤ n := Nat.cast_nonneg n
  have hsum : |number m + number n - ((m : Rat) + n) / 10 ^ 7| ≤
      ((m : Rat) + n) / 10 ^ 7 / 2 ^ 53 :=
    abs_le.mpr ⟨by linarith, by linarith⟩
  refine (toDouble_dist hsum).trans ?_
  rw [abs_of_nonneg (by positivity)]
  linarith

theorem column_add (h : m + n ≤ 10 ^ 11) : column (add (number m) (number n)) = m + n := by
  have h' : (m : Rat) + n ≤ 10 ^ 11 := by exact_mod_cast h
  obtain ⟨hlow, hhigh⟩ := abs_le.mp (add_near m n)
  refine column_eq (abs_lt.mpr ⟨?_, ?_⟩) <;> push_cast <;> linarith

/-- The comparison of `enforceCaps` is exact at the cap of 10,000 dollars. -/
theorem le_of_add_le (h : add (number m) (number n) ≤ 10000) : m + n ≤ 10000 * usd := by
  by_contra hlt
  have hmore : 10 ^ 11 + 1 ≤ m + n := by
    unfold usd at hlt
    omega
  have hmore' : (10 : Rat) ^ 11 + 1 ≤ m + n := by exact_mod_cast hmore
  obtain ⟨hlow, -⟩ := abs_le.mp (add_near m n)
  linarith

theorem currentTotal_eq (record : Option Nat) : currentTotal record = number (record.getD 0) := by
  cases record with
  | none =>
    show (0 : Rat) = number 0
    unfold number
    rw [Nat.cast_zero, zero_div, toDouble_zero]
  | some n => rfl

end Numbers

/-! ## The invariant -/

/-- What a thread has not recorded yet. -/
def Pc.unrecorded : Pc → Nat
  | .buildXdr amountUsd | .findRecord amountUsd | .saveRecord amountUsd _ _ => column amountUsd
  | _ => 0

def System.unrecorded (s : System) : Nat := (s.threads.map Pc.unrecorded).sum

def Config.thisYear (cfg : Config) (s : State) : Int := cfg.fullYear s.now

/-- What a thread between its check and its record knows. -/
def Pc.Fits (cfg : Config) (s : State) : Pc → Prop
  | .transaction dto _ => Whole dto.amountUsd ∧
      s.total (cfg.thisYear s) + column dto.amountUsd ≤ 10000 * usd
  | .buildXdr amountUsd | .findRecord amountUsd => Whole amountUsd
  | .saveRecord amountUsd year record => Whole amountUsd ∧ year = cfg.thisYear s ∧
      s.annualTotal year = record
  | _ => True

structure Inv (cfg : Config) (s : System) : Prop where
  alone : AtMostOneInside (fun pc => pc.inside = true) s.threads
  fits : ∀ pc ∈ s.threads, pc.Fits cfg s.state
  books : ∀ year, s.state.total year + (if year = cfg.thisYear s.state then s.unrecorded else 0) =
    cfg.created s.state year
  cap : ∀ year, cfg.created s.state year ≤ 10000 * usd

section Invariant

variable {cfg : Config} {s : System} {s' : State} {pc pc' : Pc} {w : Nat} {o : Outcome}

theorem fits_of_outside (h : pc.inside = false) : pc.Fits cfg s' := by
  cases pc with
  | transaction | buildXdr | findRecord | saveRecord => cases h
  | enforceCaps | readToCancel | cancel | finished => trivial

theorem unrecorded_of_not_recording (h : pc.recording = false) : pc.unrecorded = 0 := by
  cases pc with
  | buildXdr | findRecord | saveRecord => cases h
  | transaction | enforceCaps | readToCancel | cancel | finished => rfl

theorem not_recording_of_outside (h : pc.inside = false) : pc.recording = false := by
  cases pc with
  | transaction | buildXdr | findRecord | saveRecord => cases h
  | enforceCaps | readToCancel | cancel | finished => rfl

theorem unrecorded_eq_zero (h : ∀ pc ∈ s.threads, pc.recording = false) : s.unrecorded = 0 := by
  refine List.sum_eq_zero fun n hn => ?_
  obtain ⟨pc, hpc, rfl⟩ := List.mem_map.mp hn
  exact unrecorded_of_not_recording (h pc hpc)

/-- A step that leaves the threads as they are. -/
theorem Inv.env (h : Inv cfg s) (hcreated : ∀ year, cfg.created s' year = cfg.created s.state year)
    (htotal : ∀ year, s'.total year = s.state.total year)
    (hfits : ∀ pc ∈ s.threads, pc.Fits cfg s.state → pc.Fits cfg s')
    (hyear : s.unrecorded = 0 ∨ cfg.thisYear s' = cfg.thisYear s.state) :
    Inv cfg ⟨s', s.threads⟩ := by
  refine ⟨h.alone, fun pc hpc => hfits pc hpc (h.fits pc hpc), fun year => ?_, fun year => ?_⟩
  · rw [hcreated, htotal, ← h.books year]
    show _ + (if _ then s.unrecorded else 0) = _
    rcases hyear with hnone | hyear
    · rw [hnone, ite_self, ite_self]
    · rw [hyear]
  · rw [hcreated]
    exact h.cap year

/-- A step of a thread. -/
theorem Inv.thread (h : Inv cfg s) (hw : s.threads[w]? = some pc)
    (hinside : pc'.inside = true → pc.inside = true ∨ ∀ pc ∈ s.threads, pc.inside = false)
    (hfits : pc'.Fits cfg s')
    (hothers : ∀ ⦃v x⦄, s.threads[v]? = some x → v ≠ w → x.Fits cfg s.state → x.Fits cfg s')
    (hyear : cfg.thisYear s' = cfg.thisYear s.state)
    (hbooks : ∀ year, s'.total year + (if year = cfg.thisYear s.state then pc'.unrecorded else 0) +
        cfg.created s.state year =
      s.state.total year + (if year = cfg.thisYear s.state then pc.unrecorded else 0) +
        cfg.created s' year)
    (hcap : ∀ year, cfg.created s' year ≤ 10000 * usd) :
    Inv cfg ⟨s', s.threads.set w pc'⟩ := by
  constructor
  case alone =>
    refine h.alone.set hw fun hin => (hinside hin).imp id fun hnone v z hz _ => ?_
    rw [hnone z (List.mem_of_getElem? hz)]
    exact Bool.false_ne_true
  case fits =>
    exact forall_mem_set (fun v x hx hne => hothers hx hne (h.fits x (List.mem_of_getElem? hx))) hfits
  case books =>
    intro year
    have hsum : System.unrecorded ⟨s', s.threads.set w pc'⟩ + pc.unrecorded =
        s.unrecorded + pc'.unrecorded := sum_map_set hw
    have hold := h.books year
    have hnew := hbooks year
    show s'.total year + (if year = cfg.thisYear s' then _ else 0) = _
    rw [hyear]
    split at hold <;> simp_all <;> omega
  case cap => exact hcap

/-- A step of a thread that leaves the tables as they are. -/
theorem Inv.moves (h : Inv cfg s) (hw : s.threads[w]? = some pc)
    (hinside : pc'.inside = true → pc.inside = true ∨ ∀ pc ∈ s.threads, pc.inside = false)
    (hfits : pc'.Fits cfg s.state) (hunrecorded : pc'.unrecorded = pc.unrecorded) :
    Inv cfg ⟨s.state, s.threads.set w pc'⟩ := by
  refine h.thread hw hinside hfits (fun _ _ _ _ hx => hx) rfl (fun year => ?_) h.cap
  rw [hunrecorded]

/-! ## Steps of a thread -/

theorem Inv.enforceCaps {dto : CreateInvestmentDto} {deal : Deal} (h : Inv cfg s)
    (hw : s.threads[w]? = some (.enforceCaps dto deal)) (htier : cfg.tier = .retail)
    (hcareful : Pc.Careful s o (.enforceCaps dto deal)) :
    Inv cfg ⟨s.state, s.threads.set w (stepEnforceCaps cfg s.state dto deal o)⟩ := by
  obtain ⟨hwhole, hnone⟩ := hcareful
  have hidle : Inv cfg ⟨s.state, s.threads.set w .finished⟩ := h.moves hw nofun trivial rfl
  unfold stepEnforceCaps
  rw [htier]
  show Inv cfg ⟨s.state, s.threads.set w (onOk (if (checkAnnualCap .retail 10000
    (s.state.annualTotal (cfg.thisYear s.state)) dto.amountUsd).isOk = true then _ else _) o)⟩
  cases o with
  | fail | lost => exact hidle
  | ok =>
    show Inv cfg ⟨s.state, s.threads.set w (if _ then _ else _)⟩
    split
    case isFalse => exact hidle
    case isTrue hchecked =>
      refine h.moves hw (fun _ => .inr hnone) ⟨hwhole, le_of_add_le ?_⟩ rfl
      unfold checkAnnualCap failIf at hchecked
      split at hchecked
      · cases hchecked
      · next hle =>
        rw [currentTotal_eq, ← hwhole, not_lt] at hle
        exact_mod_cast hle

theorem created_insert (dto : CreateInvestmentDto) (year : Int) :
    cfg.created (s'.insert dto) year = cfg.created s' year +
      if year = cfg.thisYear s' then column dto.amountUsd else 0 := by
  unfold Config.created State.insert
  rw [List.map_append, List.sum_append, List.map_singleton, List.sum_singleton]
  by_cases hyear : year = cfg.thisYear s'
  · rw [if_pos hyear]
    exact congrArg _ (if_pos ⟨hyear.symm, nofun⟩)
  · rw [if_neg hyear]
    exact congrArg _ (if_neg fun hcounts => hyear hcounts.1.symm)

theorem Inv.insert {dto : CreateInvestmentDto} {deal : Deal} (h : Inv cfg s)
    (hw : s.threads[w]? = some (.transaction dto deal)) :
    Inv cfg ⟨s.state.insert dto, s.threads.set w (.buildXdr dto.amountUsd)⟩ := by
  have hothers : ∀ ⦃v x⦄, s.threads[v]? = some x → v ≠ w → x.inside = false := by
    intro v x hx hne
    exact Bool.eq_false_of_not_eq_true (h.alone.others hw rfl hx hne)
  obtain ⟨hwhole, hfits⟩ := h.fits _ (List.mem_of_getElem? hw)
  refine h.thread hw (fun _ => .inl rfl) hwhole
    (fun v x hx hne _ => fits_of_outside (hothers hx hne)) rfl (fun year => ?_) fun year => ?_
  · rw [created_insert]
    show s.state.total year + (if _ then column dto.amountUsd else 0) + _ =
      s.state.total year + (if _ then 0 else 0) + _
    rw [ite_self]
    omega
  · rw [created_insert]
    split
    case isTrue hyear =>
      have hnone : s.unrecorded = 0 := by
        refine unrecorded_eq_zero fun pc hpc => ?_
        obtain ⟨v, hv⟩ := List.mem_iff_getElem?.mp hpc
        by_cases hvw : v = w
        · subst hvw
          obtain rfl := Option.some.inj (hw.symm.trans hv)
          rfl
        · exact not_recording_of_outside (hothers hv hvw)
      have hbooks := h.books year
      rw [hnone, ite_self] at hbooks
      rw [← hbooks, hyear]
      exact hfits
    case isFalse => exact h.cap year

theorem Inv.record {amountUsd : Rat} {year : Int} {record : Option Nat} (h : Inv cfg s)
    (hw : s.threads[w]? = some (.saveRecord amountUsd year record)) (ho : o ≠ .fail) :
    Inv cfg ⟨stepSaveRecord s.state amountUsd year record o, s.threads.set w .finished⟩ := by
  obtain ⟨hwhole, rfl, hrecord⟩ := h.fits _ (List.mem_of_getElem? hw)
  have hothers : ∀ ⦃v x⦄, s.threads[v]? = some x → v ≠ w → x.inside = false := by
    intro v x hx hne
    exact Bool.eq_false_of_not_eq_true (h.alone.others hw rfl hx hne)
  have hle : s.state.total (cfg.thisYear s.state) + column amountUsd ≤ 10 ^ 11 := by
    have hbooks := h.books (cfg.thisYear s.state)
    have hcap := h.cap (cfg.thisYear s.state)
    have hmem : column amountUsd ≤ s.unrecorded :=
      List.single_le_sum (fun _ _ => Nat.zero_le _) _
        (List.mem_map_of_mem (f := Pc.unrecorded) (List.mem_of_getElem? hw))
    rw [if_pos rfl] at hbooks
    unfold usd at hcap
    omega
  have hnew : newTotal record amountUsd = s.state.total (cfg.thisYear s.state) + column amountUsd := by
    unfold newTotal
    rw [currentTotal_eq, ← hwhole, ← hrecord]
    show column (add (number (s.state.total _)) (number (column amountUsd))) = _
    rw [column_add hle, hwhole]
  have hsaved : stepSaveRecord s.state amountUsd (cfg.thisYear s.state) record o =
      s.state.setTotal (cfg.thisYear s.state) (newTotal record amountUsd) := by
    unfold stepSaveRecord
    rw [hrecord, if_neg (by rintro ⟨rfl, hsome⟩; cases hsome)]
    cases o with
    | fail => exact absurd rfl ho
    | ok | lost => rfl
  rw [hsaved, hnew]
  refine h.thread hw nofun trivial (fun v x hx hne _ => fits_of_outside (hothers hx hne)) rfl
    (fun year => ?_) h.cap
  show State.total (s.state.setTotal _ _) year + (if _ then 0 else 0) + cfg.created s.state year =
    s.state.total year + (if _ then column amountUsd else 0) + cfg.created s.state year
  unfold State.total State.setTotal
  by_cases hyear : year = cfg.thisYear s.state
  · subst hyear
    simp
  · simp [hyear]

theorem Inv.run (h : Inv cfg s) (htier : cfg.tier = .retail) (hw : s.threads[w]? = some pc)
    (hcareful : pc.Careful s o) (hstep : step cfg s.state o pc = some (s', pc')) :
    Inv cfg ⟨s', s.threads.set w pc'⟩ := by
  cases pc with
  | enforceCaps dto deal =>
    obtain ⟨rfl, rfl⟩ := Prod.mk.inj (Option.some.inj hstep)
    exact h.enforceCaps hw htier hcareful
  | transaction dto deal =>
    simp only [step] at hstep
    split at hstep
    · obtain ⟨rfl, rfl⟩ := Prod.mk.inj (Option.some.inj hstep)
      cases o with
      | ok => exact h.insert hw
      | fail => exact h.moves hw nofun trivial rfl
      | lost => exact absurd rfl hcareful
    · obtain ⟨rfl, rfl⟩ := Prod.mk.inj (Option.some.inj hstep)
      exact h.moves hw nofun trivial rfl
  | buildXdr amountUsd =>
    obtain ⟨rfl, rfl⟩ := Prod.mk.inj (Option.some.inj hstep)
    obtain rfl : o = .ok := hcareful
    have hwhole : Whole amountUsd := h.fits _ (List.mem_of_getElem? hw)
    exact h.moves hw (fun _ => .inl rfl) hwhole rfl
  | findRecord amountUsd =>
    obtain ⟨rfl, rfl⟩ := Prod.mk.inj (Option.some.inj hstep)
    obtain rfl : o = .ok := hcareful
    have hwhole : Whole amountUsd := h.fits _ (List.mem_of_getElem? hw)
    exact h.moves hw (fun _ => .inl rfl) ⟨hwhole, rfl, rfl⟩ rfl
  | saveRecord amountUsd year record =>
    obtain ⟨rfl, rfl⟩ := Prod.mk.inj (Option.some.inj hstep)
    exact h.record hw hcareful
  | readToCancel id =>
    obtain ⟨rfl, rfl⟩ := Prod.mk.inj (Option.some.inj hstep)
    cases o with
    | fail | lost => exact h.moves hw nofun trivial rfl
    | ok =>
      show Inv cfg ⟨s.state, s.threads.set w (if _ then _ else _)⟩
      split <;> exact h.moves hw nofun trivial rfl
  | cancel id =>
    obtain ⟨rfl, rfl⟩ := Prod.mk.inj (Option.some.inj hstep)
    have hsame : written s.state (s.state.cancel id) o = s.state := by
      rcases hcareful with rfl | hpending
      · rfl
      · have hcancel : s.state.cancel id = s.state := by
          unfold State.cancel
          rw [hpending]
          rfl
        rw [hcancel]
        cases o <;> rfl
    rw [hsame]
    exact h.moves hw nofun trivial rfl
  | finished => cases hstep

/-! ## Other steps -/

theorem Inv.join (h : Inv cfg s) (hout : pc.inside = false) : Inv cfg (s.join pc) := by
  have hunrecorded : (s.join pc).unrecorded = s.unrecorded := by
    unfold System.unrecorded System.join
    rw [List.map_append, List.sum_append, List.map_singleton, List.sum_singleton,
      unrecorded_of_not_recording (not_recording_of_outside hout), Nat.add_zero]
  refine ⟨h.alone.append (by rw [hout]; exact Bool.false_ne_true), ?_, fun year => ?_, h.cap⟩
  · exact forall_mem_append h.fits (fits_of_outside hout)
  · rw [hunrecorded]
    exact h.books year

theorem creating_outside (tier dealMinimumTier : AccreditationTier) (dto : CreateInvestmentDto)
    (deal : Deal) : (creating tier dealMinimumTier dto deal).inside = false := by
  unfold creating
  split <;> rfl

theorem Inv.reset {newYear : Int} (h : Inv cfg s) (hzero : s.state.total newYear = 0)
    (hnone : ∀ pc ∈ s.threads, pc.insertsRow newYear = false) :
    Inv cfg ⟨s.state.setTotal newYear 0, s.threads⟩ := by
  have htotal : ∀ year, (s.state.setTotal newYear 0).total year = s.state.total year := by
    intro year
    by_cases hyear : year = newYear
    · subst hyear
      rw [hzero]
      unfold State.total State.setTotal
      simp
    · unfold State.total State.setTotal
      simp [hyear]
  refine h.env (fun _ => rfl) htotal (fun pc hpc hfits => ?_) (.inr rfl)
  cases pc with
  | transaction dto deal =>
    show _ ∧ (s.state.setTotal newYear 0).total (cfg.thisYear s.state) + _ ≤ _
    rw [htotal]
    exact hfits
  | saveRecord amountUsd year record =>
    obtain ⟨hwhole, hyear, hrecord⟩ := hfits
    refine ⟨hwhole, hyear, ?_⟩
    by_cases heq : year = newYear
    · -- the row is there with an amount of zero
      subst heq
      have hinserts := hnone _ hpc
      cases record with
      | none => exact absurd hinserts (by simp [Pc.insertsRow])
      | some total =>
        have htotal0 : total = 0 := by
          unfold State.total at hzero
          rwa [hrecord] at hzero
        subst htotal0
        exact Function.update_self ..
    · exact (Function.update_of_ne heq _ _).trans hrecord
  | _ => exact hfits

theorem map_modify {ρ β : Type} {l : List ρ} {f : ρ → ρ} {g : ρ → β} {n : Nat}
    (h : ∀ x, l[n]? = some x → g (f x) = g x) : (l.modify n f).map g = l.map g := by
  refine List.ext_getElem? fun m => ?_
  rw [List.getElem?_map, List.getElem?_map, List.getElem?_modify]
  by_cases hm : n = m
  · subst hm
    cases hx : l[n]? with
    | none => rfl
    | some x => simp [h x hx]
  · simp [hm]

theorem created_confirm (id : Nat) (year : Int) :
    cfg.created (s'.confirm id) year = cfg.created s' year := by
  unfold State.confirm
  split
  case isFalse => rfl
  case isTrue hpending =>
    unfold Config.created
    refine congrArg List.sum (map_modify fun i hi => ?_)
    have hstatus : i.status = .pending := by
      unfold State.isPending at hpending
      rw [hi] at hpending
      exact of_decide_eq_true hpending
    unfold Config.counts
    simp [hstatus]

theorem next_keeps (h : Inv cfg s) (htier : cfg.tier = .retail) {a : Action} {t : System}
    (hcareful : cfg.Careful s a) (hnext : next cfg s a = some t) : Inv cfg t := by
  cases a with
  | createInvestment dto dealMinimumTier deal =>
    obtain rfl := Option.some.inj hnext
    exact h.join (creating_outside _ _ _ _)
  | requestCoolingOffCancel id =>
    obtain rfl := Option.some.inj hnext
    exact h.join rfl
  | resetAnnualTotals newYear o =>
    obtain rfl := Option.some.inj hnext
    unfold State.resetAnnualTotals
    cases o with
    | fail => exact h
    | ok | lost =>
      show Inv cfg ⟨if _ then _ else _, s.threads⟩
      split
      case isFalse => exact h
      case isTrue hsome =>
        rcases hcareful with ho | hnone | ⟨hzero, hinserts⟩
        · cases ho
        · rw [hnone] at hsome
          cases hsome
        · exact h.reset hzero hinserts
  | confirm id =>
    obtain rfl := Option.some.inj hnext
    have hsame : (s.state.confirm id).annualTotal = s.state.annualTotal ∧
        (s.state.confirm id).now = s.state.now := by
      unfold State.confirm
      split <;> exact ⟨rfl, rfl⟩
    have htotal : (s.state.confirm id).total = s.state.total := by
      unfold State.total
      rw [hsame.1]
    have hyear : cfg.thisYear (s.state.confirm id) = cfg.thisYear s.state :=
      congrArg cfg.fullYear hsame.2
    refine h.env (created_confirm id) (fun year => by rw [htotal]) (fun pc hpc hfits => ?_)
      (.inr hyear)
    cases pc with
    | transaction dto deal =>
      unfold Pc.Fits
      rw [htotal, hyear]
      exact hfits
    | saveRecord amountUsd year record =>
      unfold Pc.Fits
      rw [hsame.1, hyear]
      exact hfits
    | _ => exact hfits
  | run w o =>
    obtain ⟨pc, hw, hrest⟩ := Option.bind_eq_some_iff.mp hnext
    obtain ⟨⟨state, pc'⟩, hstep, ht⟩ := Option.bind_eq_some_iff.mp hrest
    obtain rfl := Option.some.inj ht
    exact h.run htier hw (hcareful pc hw) hstep
  | quit w =>
    obtain ⟨pc, hw, ht⟩ := Option.bind_eq_some_iff.mp hnext
    obtain rfl := Option.some.inj ht
    exact h.moves hw nofun trivial (unrecorded_of_not_recording (hcareful pc hw)).symm
  | wait ms =>
    obtain rfl := Option.some.inj hnext
    rcases hcareful with hnone | hyear
    · refine h.env (fun _ => rfl) (fun _ => rfl) (fun pc hpc _ => fits_of_outside (hnone pc hpc)) ?_
      exact .inl (unrecorded_eq_zero fun pc hpc => not_recording_of_outside (hnone pc hpc))
    · refine h.env (fun _ => rfl) (fun _ => rfl) (fun pc _ hfits => ?_) (.inr hyear)
      cases pc with
      | transaction dto deal =>
        show _ ∧ s.state.total (cfg.fullYear (s.state.now + ms)) + _ ≤ _
        rw [hyear]
        exact hfits
      | saveRecord amountUsd year record =>
        exact ⟨hfits.1, hfits.2.1.trans hyear.symm, hfits.2.2⟩
      | _ => exact hfits

end Invariant

/-! ## Runs -/

theorem start_inv (cfg : Config) (now : Int) : Inv cfg (start now) := by
  refine ⟨atMostOneInside_nil, ?_, fun year => ?_, fun year => Nat.zero_le _⟩
  · exact fun pc hpc => absurd hpc List.not_mem_nil
  · show 0 + (if _ then 0 else 0) = 0
    rw [ite_self]

/-- In a careful run the cap holds and the totals are those of the investments. -/
theorem cap_kept {cfg : Config} {annualCap : Nat} (hcap : annualCapUsd cfg.tier = some annualCap)
    {now : Int} {xs : List (Step System Action)} {s : System} (hrun : CapRun cfg now xs s)
    (hcareful : ∀ x ∈ xs, cfg.Careful x.pre x.act) : Capped cfg annualCap s := by
  obtain ⟨htier, rfl⟩ : cfg.tier = .retail ∧ annualCap = 10000 := by
    cases htier : cfg.tier with
    | retail =>
      rw [htier] at hcap
      exact ⟨rfl, (Option.some.inj hcap).symm⟩
    | accredited | institutional =>
      rw [htier] at hcap
      cases hcap
  have hinv : Inv cfg s := hrun.invariant (Inv cfg) (start_inv cfg now) fun x hx hnext hpre =>
    next_keeps hpre htier (hcareful x hx) hnext
  refine ⟨hinv.cap, fun hidle year => ?_⟩
  have hbooks := hinv.books year
  rwa [unrecorded_eq_zero hidle, ite_self, Nat.add_zero] at hbooks

/-! ## Calls one after the other, and all at once -/

/-- A calendar of 365 days a year. -/
def retailInvestor : Config := ⟨.retail, 48, fun now => 1970 + now / 31536000000⟩

def cocoaDeal : Deal where
  tradeDeal := ⟨.opened, 100000 * usd, 1000, 0, some "GESCROW", some "GISSUER", none, none⟩
  currentInvestments := []

def halfCap : CreateInvestmentDto := ⟨50, 5000, by norm_num⟩

def invest : Action := .createInvestment halfCap .retail cocoaDeal

/-- Every command of a call, from its check to its record. -/
def toItsEnd (w : Nat) : List Action := List.replicate 5 (.run w .ok)

def oneByOne : List Action := invest :: toItsEnd 0 ++ invest :: toItsEnd 1

theorem cap_kept_one_by_one :
    retailInvestor.created (replay (next retailInvestor) (start 0) oneByOne).2.state 1970 =
        10000 * usd ∧
      Capped retailInvestor 10000 (replay (next retailInvestor) (start 0) oneByOne).2 := by
  have hrun := run_replay (next retailInvestor) (start 0) oneByOne
  exact ⟨by decide +kernel, cap_kept rfl hrun (by decide +kernel)⟩

/-- Three calls, each checked before any of them goes on. -/
def allAtOnce : List Action :=
  [invest, invest, invest, .run 0 .ok, .run 1 .ok, .run 2 .ok] ++
    List.replicate 4 (.run 0 .ok) ++ List.replicate 4 (.run 1 .ok) ++ List.replicate 4 (.run 2 .ok)

theorem cap_exceeded :
    ¬ ∀ (cfg : Config) (annualCap : Nat), annualCapUsd cfg.tier = some annualCap →
      ∀ (now : Int) (xs : List (Step System Action)) (s : System), CapRun cfg now xs s →
        Capped cfg annualCap s := by
  intro h
  have hrun := run_replay (next retailInvestor) (start 0) allAtOnce
  have hcap := (h retailInvestor 10000 rfl 0 _ _ hrun).cap 1970
  revert hcap
  decide +kernel

end AgriFi.Accreditation
