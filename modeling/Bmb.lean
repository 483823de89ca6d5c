import Bmb.PercentDecoding
import Bmb.Persist.Numerals
import Bmb.Persist.Descriptors
import Bmb.Queue.Clearing
import Bmb.QueuePool.Recovery
import Bmb.Broker.Buffers
import Bmb.Broker.Peeking
import Bmb.Broker.Conservation
import Bmb.Broker.Interruption
import Bmb.Broker.Failures
import Bmb.Broker.Guards
import Bmb.Broker.Isolation
import Bmb.Broker.Confinement
import Bmb.Broker.Documented
import Bmb.Broker.Numbering
import Bmb.Broker.Registry
import Bmb.Http.Method
import Bmb.Http.Assembly
import Bmb.Server.Segments
import Bmb.Broker.Separation
import Bmb.Broker.Reads
import Bmb.Broker.Lists
import Bmb.Server.Accounts
import Bmb.Server.Kills
import Bmb.Http.Encoding
import Bmb.Base.Lookup
import Bmb.Persist.Cabinet
import Bmb.Server.Mail
