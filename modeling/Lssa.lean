import Lssa.PublicSafety
import Lssa.Circuit.CallIntegrity
import Lssa.Agreement.Transaction
import Lssa.VaultConsent
import Lssa.Replay
import Lssa.Membership
import Lssa.Circuit.Recovery
import Lssa.Circuit.Journal
import Lssa.HostProver
import Lssa.Stake.Release
import Lssa.Stake.Accreditation
import Lssa.Sequencer.Production
import Lssa.SystemAccounts
import Lssa.Unclaimed
import Lssa.Clocks
import Lssa.Funds
import Lssa.Sequencer.Lookup
import Lssa.Sequencer.Withdrawals
import Lssa.CrossZone.TwoZones
import Lssa.Token.Supply
import Lssa.Token.Consent
import Lssa.Circuit.Ownership
import Lssa.Indexer.Ingest
import Lssa.Programs.Amm
import Lssa.Wallet.ChainIndex
import Lssa.Programs.AssociatedTokenAccount
