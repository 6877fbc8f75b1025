import SentinelVisor.Chain
import SentinelVisor.Except
import SentinelVisor.TipSetKeyParse
import SentinelVisor.EpochGaps
import SentinelVisor.GapIndexer
import SentinelVisor.GapFiller
import SentinelVisor.MessageModels
import SentinelVisor.MessageProcessor
import SentinelVisor.MessageStore
import SentinelVisor.VerifiedRegistry
import SentinelVisor.AdtDiff
import SentinelVisor.MinerDiff
import SentinelVisor.RegistryLog
