import Postkeys.Resp.Commitment
import Postkeys.TtlAgreement
import Postkeys.CleanupProgress
import Postkeys.ExpiredAbsent
import Postkeys.CachingTx
import Postkeys.StaleFill
import Postkeys.Presence
import Postkeys.Multi
import Postkeys.UpFrontLocks
import Postkeys.ProtocolVersion
import Postkeys.Leader.Timing
import Postkeys.Leader.Label
import Postkeys.Counters
import Postkeys.ExpireFlags
import Postkeys.WholeKeys
import Postkeys.FieldAccess
import Postkeys.CachePatterns
import Postkeys.KeyPatterns
import Postkeys.ScoreBounds
import Postkeys.LexQueries
import Postkeys.WeightedStore
import Postkeys.SetStore
import Postkeys.ListPositions
import Postkeys.LuaValues
import Postkeys.ScriptProtocol
import Postkeys.Sketches
