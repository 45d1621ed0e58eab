import AgriFi.Investments.Service

/-
  The three operations that end a deal early, `cancelDeal`, `expireDeal` and `closeUnderfundedDeal`
  (`src/trade-deals/trade-deals.service.ts`), beside `createInvestment` and `confirmInvestment` on
  the same deal. A closer reads the deal with its investments once, asks Stellar or the campaign's
  contract to take back what was sold, marks the investments of its snapshot REFUNDED, and saves the
  deal as it has read it, with the new status. Only `cancelDeal` has a transaction around the two
  writes, and none of them locks what it reads.
-/

namespace AgriFi.TradeDeals

open AgriFi.Runs
open AgriFi.DealDelivered (Outcome)
open AgriFi.Investments

/-- The deal's columns that only the closers read, and whether there is a Soroban service. -/
structure Terms where
  traderId : Nat
  issuerSecretKey : Option String
  stellarAssetTxId : Option String
  minimumFundingTarget : Option Nat
  sorobanCampaignContractId : Option String
  sorobanService : Bool

inductive Closer where
  | cancelDeal (traderId : Nat)
  | expireDeal
  | closeUnderfundedDeal
  deriving DecidableEq, Repr

/-! ## What a closer reads -/

/-- A confirmed investment, with its investor's wallet. -/
structure Holding where
  id : Nat
  walletAddress : Option String
  tokenAmount : Nat
  deriving DecidableEq, Repr

/-- The deal and its `confirmedInvestments`. -/
structure Snapshot where
  deal : TradeDeal
  confirmedInvestments : List Holding
  deriving DecidableEq, Repr

def Snapshot.ids (snapshot : Snapshot) : List Nat := snapshot.confirmedInvestments.map Holding.id

/-- One of the `investorShares`. The investment that it is for is a history variable; the unsold
    tokens are for none. -/
structure Share where
  investment : Option Nat
  walletAddress : String
  tokenAmount : Nat
  deriving DecidableEq, Repr

def Holding.share (h : Holding) : Option Share :=
  if isSet h.walletAddress then some ⟨some h.id, h.walletAddress.getD "", h.tokenAmount⟩ else none

def Snapshot.shares (snapshot : Snapshot) : List Share :=
  snapshot.confirmedInvestments.filterMap Holding.share

def Snapshot.unsoldTokens (snapshot : Snapshot) : Int :=
  snapshot.deal.tokenCount - (snapshot.shares.map Share.tokenAmount).sum

/-- The unsold tokens, which the deal's escrow account holds. -/
def Snapshot.unsold (snapshot : Snapshot) : List Share :=
  if 0 < snapshot.unsoldTokens ∧ isSet snapshot.deal.escrowPublicKey then
    [⟨none, snapshot.deal.escrowPublicKey.getD "", snapshot.unsoldTokens.toNat⟩]
  else []

/-- The shares that the closer claws back. -/
def Closer.investorShares (snapshot : Snapshot) : Closer → List Share
  | .cancelDeal _ | .expireDeal => snapshot.shares ++ snapshot.unsold
  | .closeUnderfundedDeal => snapshot.shares

/-- The status that the closer ends with. -/
def Closer.status : Closer → TradeDealStatus
  | .cancelDeal _ => .canceled
  | .expireDeal | .closeUnderfundedDeal => .expired

/-! ## Commands -/

/-- The command that a closer sends next. In `cancelDeal` the update and the save are inside a
    transaction. -/
inductive Command where
  | read
  | decryptSecret (snapshot : Snapshot)
  | clawbackTokens (snapshot : Snapshot)
  | markCampaignFailed (snapshot : Snapshot)
  /-- `refundCampaignInvestor` for one investment, with those that are left after it. -/
  | refundInvestor (snapshot : Snapshot) (investment : Holding) (left : List Holding)
  | updateRefunded (snapshot : Snapshot)
  | saveDeal (snapshot : Snapshot)
  | commit (snapshot : Snapshot)
  | finished
  deriving DecidableEq, Repr

/-- The deal's asset was issued, and its issuer's key is known. -/
def hasAsset (terms : Terms) (deal : TradeDeal) : Bool :=
  isSet deal.issuerPublicKey ∧ isSet terms.issuerSecretKey ∧ isSet terms.stellarAssetTxId

/-- The closer's writes. -/
def writing (snapshot : Snapshot) : Command :=
  if snapshot.confirmedInvestments = [] then .saveDeal snapshot else .updateRefunded snapshot

def clawingBack (terms : Terms) (closer : Closer) (snapshot : Snapshot) : Command :=
  if hasAsset terms snapshot.deal ∧ closer.investorShares snapshot ≠ [] then
    .decryptSecret snapshot
  else writing snapshot

/-- The loop of the campaign's refunds. -/
def refunding (snapshot : Snapshot) : List Holding → Command
  | [] => writing snapshot
  | investment :: left =>
    if isSet investment.walletAddress then .refundInvestor snapshot investment left else .finished

def usesCampaign (terms : Terms) : Bool :=
  isSet terms.sorobanCampaignContractId ∧ terms.sorobanService

/-- What follows the read: the checks, and the first command after them. -/
def Closer.checked (terms : Terms) (snapshot : Snapshot) (closer : Closer) : Command :=
  let deal := snapshot.deal
  match closer with
  | .cancelDeal traderId =>
    if terms.traderId ≠ traderId ∨ (deal.status ≠ .draft ∧ deal.status ≠ .opened) then .finished
    else if deal.status = .opened then clawingBack terms closer snapshot
    else writing snapshot
  | .expireDeal =>
    if deal.status ≠ .opened ∨ deal.totalInvested ≥ deal.totalValue then .finished
    else clawingBack terms closer snapshot
  | .closeUnderfundedDeal =>
    if deal.status ≠ .opened ∨
        deal.totalInvested ≥ terms.minimumFundingTarget.getD deal.totalValue then .finished
    else if usesCampaign terms then .markCampaignFailed snapshot
    else clawingBack terms closer snapshot

/-! ## State -/

/-- The deal's tables, the investors' wallets, and what has been taken back: the lines of the
    clawbacks, and the investments that a campaign's refund was made for. -/
structure State where
  db : Database
  wallets : Nat → Option String
  clawedBack : List Share
  campaignRefunds : List Nat

namespace State

/-- Investment `k`, when it is confirmed. -/
def holding (s : State) (k : Nat) : Option Holding := do
  let i ← s.db.investments[k]?
  if i.status = .confirmed then some ⟨k, s.wallets i.investorId, i.tokenAmount⟩ else none

def snapshot (s : State) : Snapshot :=
  ⟨s.db.deal, (List.range s.db.investments.length).filterMap s.holding⟩

/-- A clawback has a line for each share of some tokens. -/
def clawback (s : State) (shares : List Share) : State :=
  { s with clawedBack := s.clawedBack ++ shares.filter fun share => 0 < share.tokenAmount }

def campaignRefund (s : State) (id : Nat) : State :=
  { s with campaignRefunds := s.campaignRefunds ++ [id] }

def refund (s : State) (ids : List Nat) : State :=
  { s with
    db :=
      { s.db with
        investments := s.db.investments.mapIdx fun k i =>
          if k ∈ ids then { i with status := .refunded } else i } }

/-- `save` writes each column of the deal as it was read, but for the status. -/
def save (s : State) (deal : TradeDeal) (status : TradeDealStatus) : State :=
  { s with db := { s.db with deal := { deal with status } } }

end State

/-- The command goes through; an error ends the operation. -/
def goesOn (command : Command) : Outcome → Command
  | .ok => command
  | .fail | .lost => .finished

/-- What a command that takes effect at once leaves. -/
def took (s s' : State) : Outcome → State
  | .ok | .lost => s'
  | .fail => s

/-- The next command of a closer. -/
def stepCloser (terms : Terms) (closer : Closer) (s : State) (o : Outcome) :
    Command → Option (State × Command)
  | .read => some (s, goesOn (closer.checked terms s.snapshot) o)
  | .decryptSecret snapshot => some (s, goesOn (.clawbackTokens snapshot) o)
  | .clawbackTokens snapshot =>
    some (took s (s.clawback (closer.investorShares snapshot)) o, goesOn (writing snapshot) o)
  | .markCampaignFailed snapshot =>
    some (s, goesOn (refunding snapshot snapshot.confirmedInvestments) o)
  | .refundInvestor snapshot investment left =>
    some (took s (s.campaignRefund investment.id) o, goesOn (refunding snapshot left) o)
  | .updateRefunded snapshot =>
    match closer with
    | .cancelDeal _ => some (s, goesOn (.saveDeal snapshot) o)
    | .expireDeal | .closeUnderfundedDeal =>
      some (took s (s.refund snapshot.ids) o, goesOn (.saveDeal snapshot) o)
  | .saveDeal snapshot =>
    match closer with
    | .cancelDeal _ => some (s, goesOn (.commit snapshot) o)
    | .expireDeal | .closeUnderfundedDeal =>
      some (took s (s.save snapshot.deal closer.status) o, .finished)
  | .commit snapshot =>
    some (took s ((s.refund snapshot.ids).save snapshot.deal closer.status) o, .finished)
  | .finished => none

/-! ## The system -/

inductive Thread where
  | call (pc : Pc)
  | closer (closer : Closer) (command : Command)

def stepThread (terms : Terms) (s : State) (o : Outcome) : Thread → Option (State × Thread)
  | .call pc => do
    let (db, pc') ← stepDb 0 s.db o pc
    some ({ s with db }, .call pc')
  | .closer closer command => do
    let (s', command') ← stepCloser terms closer s o command
    some (s', .closer closer command')

namespace Thread

def quit : Thread → Thread
  | .call _ => .call .finished
  | .closer op _ => .closer op .finished

/-- The thread's transaction has locked or written the deal's row. -/
def holdsDeal : Thread → Bool
  | .call pc => pc.holdsDeal
  | .closer (.cancelDeal _) (.commit _) => true
  | _ => false

/-- The thread's transaction has written the row of investment `id`. -/
def holdsInvestment (id : Nat) : Thread → Bool
  | .call pc => pc.holdsInvestment id
  | .closer (.cancelDeal _) (.saveDeal snapshot) | .closer (.cancelDeal _) (.commit snapshot) =>
    id ∈ snapshot.ids
  | _ => false

/-- The thread's next command waits for a row that `holder` holds. -/
def waitsFor : Thread → Thread → Bool
  | .call (.lockDeal _ _), holder | .call (.updateTotal _ _), holder
  | .closer _ (.saveDeal _), holder => holder.holdsDeal
  | .call (.updateStatus id), holder => holder.holdsInvestment id
  | .closer _ (.updateRefunded snapshot), holder =>
    snapshot.ids.any fun id => holder.holdsInvestment id
  | _, _ => false

end Thread

structure System where
  terms : Terms
  state : State
  threads : List Thread

inductive Action where
  /-- A call that has passed the checks before the transaction. -/
  | createInvestment (investorId : Nat) (dto : CreateInvestmentDto)
  | confirmInvestment (investorId id : Nat) (stellarTxId : List Char)
  /-- One of the closers is called, the first time or once more. -/
  | close (closer : Closer)
  /-- An investor's wallet is linked, or removed with the account. -/
  | linkWallet (investorId : Nat) (walletAddress : Option String)
  | run (w : Nat) (o : Outcome)
  /-- The thread's process dies; its transaction is rolled back. -/
  | quit (w : Nat)

def System.join (s : System) (t : Thread) : System := { s with threads := s.threads ++ [t] }

def next (s : System) : Action → Option System
  | .createInvestment investorId dto =>
    -- the DTO has `@Min(1)` on `tokenAmount`
    if dto.tokenAmount = 0 then none else some (s.join (.call (.lockDeal investorId dto)))
  | .confirmInvestment investorId id stellarTxId =>
    some (s.join (.call (confirming investorId id stellarTxId)))
  | .close closer => some (s.join (.closer closer .read))
  | .linkWallet investorId walletAddress =>
    let wallets := Function.update s.state.wallets investorId walletAddress
    some { s with state := { s.state with wallets } }
  | .run w o => do
    let t ← s.threads[w]?
    if s.threads.any fun holder => t.waitsFor holder then none
    else
      let (state, t') ← stepThread s.terms s.state o t
      some { s with state, threads := s.threads.set w t' }
  | .quit w => do
    let t ← s.threads[w]?
    some { s with threads := s.threads.set w t.quit }

/-- A deal without investments. -/
def start (deal : TradeDeal) (terms : Terms) (wallets : Nat → Option String) : System :=
  ⟨terms, ⟨⟨deal, [], [], 0⟩, wallets, [], []⟩, []⟩

abbrev ClosingRun (deal : TradeDeal) (terms : Terms) (wallets : Nat → Option String)
    (xs : List (Step System Action)) (s : System) : Prop :=
  Run next (start deal terms wallets) xs s

end AgriFi.TradeDeals
