import AgriFi.Runs
import AgriFi.Prorata
import AgriFi.Soroban.Checked
import AgriFi.Soroban.HostMap
import AgriFi.Soroban.Vault
import AgriFi.FarmCampaign.Types
import AgriFi.FarmCampaign.Refund
import AgriFi.FarmCampaign.Contract
import AgriFi.FarmCampaign.ProportionalRefund
import AgriFi.FarmCampaign.Payouts
import AgriFi.FarmCampaign.Moves
import AgriFi.FarmCampaign.Escrow
import AgriFi.FarmCampaign.RevenueSplit
import AgriFi.FarmCampaign.Solvency
import AgriFi.FarmCampaign.PayoutCap
import AgriFi.FarmCampaign.Lifecycle
import AgriFi.FarmCampaign.DisputeRecords
import AgriFi.FarmCampaign.Quorum
import AgriFi.FarmCampaign.Entitlements
import AgriFi.FarmCampaign.StakeRefund
import AgriFi.FarmCampaign.Tranches
import AgriFi.EscrowContract.Types
import AgriFi.EscrowContract.Contract
import AgriFi.EscrowContract.Moves
import AgriFi.EscrowContract.Conservation
import AgriFi.EscrowContract.BatchRefund
import AgriFi.EscrowContract.Settlement
import AgriFi.EscrowContract.Reentrancy
import AgriFi.MarketplaceSettlement.Custody
import AgriFi.Reputation.Solvency
import AgriFi.PriceFeed.Contract
import AgriFi.PriceFeed.Deviation
import AgriFi.RevenueDistributor.Contract
import AgriFi.RevenueDistributor.PaysExactly
import AgriFi.AlertRegistry.Index
import AgriFi.Stellar.RetryIndependence
import AgriFi.Stellar.TransactionLogs
import AgriFi.Base64
import AgriFi.NumberText
import AgriFi.DealDelivered.AtMostOnce
import AgriFi.Idempotency.LeaseExclusion
import AgriFi.EscrowService.RecordedShares
import AgriFi.MilestoneRelease.Partition
import AgriFi.OrderBook.FillOrKill
import AgriFi.OrderBook.Completeness
import AgriFi.OrderBook.DealIsolation
import AgriFi.OrderBook.CallsAlone
import AgriFi.OrderBook.Interleaving
import AgriFi.Investments.Confirmable
import AgriFi.Investments.FundJob
import AgriFi.Investments.CoolingOff
import AgriFi.Investments.EventSourcing
import AgriFi.Investments.FundingTotal
import AgriFi.TradeDeals.Closing
import AgriFi.EventIndexer.Polling
import AgriFi.EventIndexer.Replay
import AgriFi.Amm.Shares
import AgriFi.Netting.Settles
import AgriFi.Netting.CycleRuns
import AgriFi.Outbox.Delivery
import AgriFi.LetterOfCreditService.Verified
import AgriFi.Aml.ScreeningGap
import AgriFi.RegulatoryReporting.FiledOnce
import AgriFi.Aml.CaseBooks
import AgriFi.Aml.SweepCoverage
import AgriFi.Insurance.PaidOnce
import AgriFi.Oracles.CostAccounting
import AgriFi.Compliance.RuleVersions
import AgriFi.Accreditation.CapKept
import AgriFi.SocialTrading.CopyLimits
import AgriFi.StellarMonitor.CreditedOnce
import AgriFi.ReencryptPii.NothingLost
import AgriFi.DealCoFarmers.Portions
import AgriFi.SelfHealing.RailsHold
import AgriFi.Sep24.Callbacks
import AgriFi.FarmCampaign.RefundTotality
import AgriFi.Zkp.Revoked
import AgriFi.SecondaryOrders.Preserved
import AgriFi.SignatureRequests.Links
import AgriFi.Auth.GuessesBounded
import AgriFi.Ethereum.PaysOnce
import AgriFi.Shipments.MilestonePrefix
import AgriFi.OfflineQueue.SentOnce
import AgriFi.Auth.SingleUse
import AgriFi.AuditRetention.NeverLost
import AgriFi.Investments.FeeTransaction
import AgriFi.Stellar.TransactionXdr
import AgriFi.Chunked
import AgriFi.Stellar.TravelRule
import AgriFi.EventIndexer.Attribution
import AgriFi.EscrowService.FairSplit
import AgriFi.Amm.Slippage
import AgriFi.Oracles.Majority
import AgriFi.StellarMonitor.Memo
import AgriFi.Quantiles
import AgriFi.Investments.PortfolioVar
import AgriFi.Migrations.Schema
import AgriFi.Queue.OrderedKeys
import AgriFi.Stellar.HorizonFailover
import AgriFi.Tax.TaxCalculator
import AgriFi.Documents.VerifyContent
import AgriFi.SocialTrading.StrategySharing
import AgriFi.SocialTrading.ReplyTree
import AgriFi.Insurance.Canonical
import AgriFi.Queue.Crypto
import AgriFi.Zkp.Circuit
