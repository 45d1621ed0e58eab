import AgriFi.Binary64
import AgriFi.Investments.Service
import AgriFi.Threads
import Mathlib.Logic.Function.Basic

/-
  The annual investment cap of one investor: `src/accreditation/annual-cap.service.ts`, and those of
  `src/investments/investments.service.ts` that go with it, `createInvestment` and
  `requestCoolingOffCancel`. A call is a thread that sends one command at a time; between two of
  them any other may run. The columns hold US dollars in units of 1e-7. What the transaction of
  `createInvestment` finds of the deal and of others' investments is given with the call.
-/

namespace AgriFi.Accreditation

open AgriFi.Binary64 AgriFi.Investments AgriFi.Runs AgriFi.Threads
open AgriFi.Soroban (failIf)
open AgriFi.DealDelivered (Outcome)

/-! ## Tiers -/

inductive AccreditationTier where
  | retail
  | accredited
  | institutional
  deriving DecidableEq

/-- `TIER_ORDER.indexOf(tier)`. -/
def AccreditationTier.order : AccreditationTier → Nat
  | .retail => 0
  | .accredited => 1
  | .institutional => 2

def tierSatisfies (userTier requiredTier : AccreditationTier) : Bool :=
  requiredTier.order ≤ userTier.order

/-- `ANNUAL_CAP_USD`; no number is `Infinity`. -/
def annualCapUsd : AccreditationTier → Option Nat
  | .retail => some 10000
  | .accredited | .institutional => none

/-- `PER_DEAL_CAP_USD`. -/
def perDealCapUsd : AccreditationTier → Option Nat
  | .retail => some 5000
  | .accredited => some 50000
  | .institutional => none

/-! ## Numbers and columns -/

/-- What a column keeps of a number that is not negative. -/
def column (x : Rat) : Nat := (Stellar.toFixed7 (x * usd)).toNat

/-- `Number(...)` of a column. -/
def number (units : Nat) : Rat := toDouble (units / usd)

/-! ## The caps -/

inductive CapRefusal where
  | tierInsufficient (tier dealMinimumTier : AccreditationTier)
  | perDealCapExceeded (tier : AccreditationTier) (perDealCap : Nat) (amountUsd : Rat)
  | annualCapExceeded (tier : AccreditationTier) (annualCap : Nat) (currentTotal remaining : Rat)

def CapRefusal.code : CapRefusal → String
  | .tierInsufficient _ _ => "TIER_INSUFFICIENT"
  | .perDealCapExceeded _ _ _ => "PER_DEAL_CAP_EXCEEDED"
  | .annualCapExceeded _ _ _ _ => "ANNUAL_CAP_EXCEEDED"

def checkTier (tier dealMinimumTier : AccreditationTier) : Except CapRefusal Unit :=
  failIf (tierSatisfies tier dealMinimumTier = false) (.tierInsufficient tier dealMinimumTier)

def checkPerDealCap (tier : AccreditationTier) (amountUsd : Rat) : Except CapRefusal Unit :=
  match perDealCapUsd tier with
  | none => .ok ()
  | some perDealCap => failIf (amountUsd > perDealCap) (.perDealCapExceeded tier perDealCap amountUsd)

/-- The total that a row, if there is one, holds. -/
def currentTotal (record : Option Nat) : Rat := (record.map number).getD 0

def checkAnnualCap (tier : AccreditationTier) (annualCap : Nat) (record : Option Nat)
    (amountUsd : Rat) : Except CapRefusal Unit :=
  failIf (add (currentTotal record) amountUsd > annualCap)
    (.annualCapExceeded tier annualCap (currentTotal record)
      (max 0 (sub annualCap (currentTotal record))))

/-- The total that `recordInvestment` saves. -/
def newTotal (record : Option Nat) (amountUsd : Rat) : Nat :=
  column (add (currentTotal record) amountUsd)

/-! ## Tables -/

/-- A request that has passed the validation of its fields. -/
structure CreateInvestmentDto where
  tokenAmount : Nat
  amountUsd : Rat
  positive : 0 < amountUsd

structure Investment where
  tokenAmount : Nat
  amountUsd : Nat
  status : InvestmentStatus
  createdAt : Int
  deriving DecidableEq

/-- The investor's investments, and the total of each year that has a row. -/
structure State where
  investments : List Investment
  annualTotal : Int → Option Nat
  now : Int

/-- The investor's tier, `INVESTMENT_COOLING_OFF_HOURS`, and the calendar of `getFullYear`. -/
structure Config where
  tier : AccreditationTier
  coolingOffHours : Int
  fullYear : Int → Int

namespace State

def insert (s : State) (dto : CreateInvestmentDto) : State :=
  { s with
    investments := s.investments ++ [⟨dto.tokenAmount, column dto.amountUsd, .pending, s.now⟩] }

def setTotal (s : State) (year : Int) (total : Nat) : State :=
  { s with annualTotal := Function.update s.annualTotal year (some total) }

def isPending (s : State) (id : Nat) : Bool := s.investments[id]?.any (·.status = .pending)

def setStatus (s : State) (id : Nat) (status : InvestmentStatus) : State :=
  { s with investments := s.investments.modify id fun i => { i with status } }

/-- The update `WHERE id = … AND status = 'pending'`. -/
def cancel (s : State) (id : Nat) : State :=
  if s.isPending id then s.setStatus id .cancelled else s

def confirm (s : State) (id : Nat) : State :=
  if s.isPending id then s.setStatus id .confirmed else s

def coolingOffExpired (s : State) (coolingOffHours : Int) (id : Nat) : Bool :=
  s.investments[id]?.any fun i => i.createdAt + coolingOffHours * 3600000 < s.now

/-- The insertion from the rows of the year before, `ON CONFLICT … DO UPDATE SET total_usd = 0`. -/
def resetAnnualTotals (s : State) (newYear : Int) : State :=
  if (s.annualTotal (newYear - 1)).isSome then s.setTotal newYear 0 else s

end State

/-! ## Threads -/

/-- What the transaction of `createInvestment` finds. -/
structure Deal where
  tradeDeal : TradeDeal
  currentInvestments : List Investments.Investment

def Deal.accepts (deal : Deal) (dto : CreateInvestmentDto) : Bool :=
  (checkDeal deal.tradeDeal).isOk &&
    (checkInvestment deal.tradeDeal deal.currentInvestments
      ⟨dto.tokenAmount, dto.amountUsd * usd⟩).isOk

/-- The command that a thread sends next. -/
inductive Pc where
  /-- The read of `enforceCaps`. -/
  | enforceCaps (dto : CreateInvestmentDto) (deal : Deal)
  | transaction (dto : CreateInvestmentDto) (deal : Deal)
  /-- What `createInvestment` does after its transaction and before `recordInvestment`. -/
  | buildXdr (amountUsd : Rat)
  | findRecord (amountUsd : Rat)
  | saveRecord (amountUsd : Rat) (year : Int) (record : Option Nat)
  | readToCancel (id : Nat)
  | cancel (id : Nat)
  | finished

/-- A command went through; an error ends the call. -/
def onOk (pc : Pc) : Outcome → Pc
  | .ok => pc
  | .fail | .lost => .finished

/-- A write that commits at once, or a commit. -/
def written (s s' : State) : Outcome → State
  | .ok | .lost => s'
  | .fail => s

/-- `createInvestment` up to the read of the total, with the checks of `enforceCaps` before it. -/
def creating (tier dealMinimumTier : AccreditationTier) (dto : CreateInvestmentDto) (deal : Deal) :
    Pc :=
  if (checkTier tier dealMinimumTier).isOk && (checkPerDealCap tier dto.amountUsd).isOk then
    .enforceCaps dto deal
  else .finished

def stepEnforceCaps (cfg : Config) (s : State) (dto : CreateInvestmentDto) (deal : Deal)
    (o : Outcome) : Pc :=
  match annualCapUsd cfg.tier with
  | none => .transaction dto deal
  | some annualCap =>
    let checked := checkAnnualCap cfg.tier annualCap (s.annualTotal (cfg.fullYear s.now))
      dto.amountUsd
    onOk (if checked.isOk then .transaction dto deal else .finished) o

/-- The save of a row that was found, or the insertion of a new one, which is refused when the year
    has one by now. -/
def stepSaveRecord (s : State) (amountUsd : Rat) (year : Int) (record : Option Nat) (o : Outcome) :
    State :=
  if record = none ∧ (s.annualTotal year).isSome then s
  else written s (s.setTotal year (newTotal record amountUsd)) o

def step (cfg : Config) (s : State) (o : Outcome) : Pc → Option (State × Pc)
  | .enforceCaps dto deal => some (s, stepEnforceCaps cfg s dto deal o)
  | .transaction dto deal =>
    if deal.accepts dto then some (written s (s.insert dto) o, onOk (.buildXdr dto.amountUsd) o)
    else some (s, .finished)
  | .buildXdr amountUsd => some (s, onOk (.findRecord amountUsd) o)
  | .findRecord amountUsd =>
    let year := cfg.fullYear s.now
    some (s, onOk (.saveRecord amountUsd year (s.annualTotal year)) o)
  | .saveRecord amountUsd year record => some (stepSaveRecord s amountUsd year record o, .finished)
  | .readToCancel id =>
    let cancellable := s.isPending id && !s.coolingOffExpired cfg.coolingOffHours id
    some (s, onOk (if cancellable then .cancel id else .finished) o)
  | .cancel id => some (written s (s.cancel id) o, .finished)
  | .finished => none

/-! ## The system -/

structure System where
  state : State
  threads : List Pc

inductive Action where
  | createInvestment (dto : CreateInvestmentDto) (dealMinimumTier : AccreditationTier) (deal : Deal)
  | requestCoolingOffCancel (id : Nat)
  | resetAnnualTotals (newYear : Int) (o : Outcome)
  /-- An investment is paid and confirmed. -/
  | confirm (id : Nat)
  | run (w : Nat) (o : Outcome)
  /-- The thread's process dies; its transaction is rolled back. -/
  | quit (w : Nat)
  | wait (ms : Nat)

def System.join (s : System) (pc : Pc) : System := { s with threads := s.threads ++ [pc] }

def next (cfg : Config) (s : System) : Action → Option System
  | .createInvestment dto dealMinimumTier deal =>
    some (s.join (creating cfg.tier dealMinimumTier dto deal))
  | .requestCoolingOffCancel id => some (s.join (.readToCancel id))
  | .resetAnnualTotals newYear o =>
    some { s with state := written s.state (s.state.resetAnnualTotals newYear) o }
  | .confirm id => some { s with state := s.state.confirm id }
  | .run w o => do
    let pc ← s.threads[w]?
    let (state, pc') ← step cfg s.state o pc
    some ⟨state, s.threads.set w pc'⟩
  | .quit w => do
    let _ ← s.threads[w]?
    some { s with threads := s.threads.set w .finished }
  | .wait ms => some { s with state := { s.state with now := s.state.now + ms } }

/-- An investor without investments. -/
def start (now : Int) : System := ⟨⟨[], fun _ => none, now⟩, []⟩

abbrev CapRun (cfg : Config) (now : Int) (xs : List (Step System Action)) (s : System) : Prop :=
  Run (next cfg) (start now) xs s

end AgriFi.Accreditation
