import NeutronX.Evm.Reentrant
import NeutronX.Evm.Swap
import NeutronX.AuctionSettlement
import NeutronX.AuctionConfig
import NeutronX.AntiSalami
import NeutronX.TimeGuard
import NeutronX.RatioGuard
import NeutronX.RefundLaw
import NeutronX.KappaFloor
import NeutronX.CrossChain.Atomicity
import NeutronX.CrossChain.DstBacking
import NeutronX.CrossChain.EscrowCustody
import NeutronX.CrossChain.EscrowDst
import NeutronX.CrossChain.FillProgress
import NeutronX.CrossChain.RevealRelay
import NeutronX.CrossChain.SecretReveal
import NeutronX.SystemGuards
import NeutronX.SlashDeadline
import NeutronX.StakeExit
import NeutronX.SwapperFloor
import NeutronX.OutputCredit
import NeutronX.Abandonment
import NeutronX.SignatureReplay
import NeutronX.ChunkProgress
import NeutronX.DecayPrice
import NeutronX.Checkpoints
import NeutronX.SettledStatus
import NeutronX.FillsLedger
import NeutronX.StakeCurve
import NeutronX.ExecutorAmounts
import NeutronX.OrderMatching
import NeutronX.FallbackRoute
import NeutronX.StakeConfigRoute
import NeutronX.Settleability
import NeutronX.RegistrationLedger
import NeutronX.ExecutorStakes
import NeutronX.CrossChain.FillIdempotence
import NeutronX.QuoteAccuracy
import NeutronX.CrossChain.DrainCoverage
import NeutronX.OrderWithdrawal
import NeutronX.Authority
import NeutronX.FillerConfinement
import NeutronX.ConfigPage
import NeutronX.OrderParameters
import NeutronX.WhaleExecutor
import NeutronX.CrossChain.RelayerRuns
