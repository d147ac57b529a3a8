import Seedstone.Node.Batch
import Seedstone.Service.Gate
import Seedstone.Glob.Language
import Seedstone.Resp.RoundTrip
import Seedstone.Node.Removals
import Seedstone.Recovery.Picking
import Seedstone.Dict.QuietCycle
import Seedstone.Dict.Growth
import Seedstone.Node.Gauge
import Seedstone.Service.KeysWalk
import Seedstone.Log.ShortSource
import Seedstone.Log.HeaderDamage
import Seedstone.Node.Replies
import Seedstone.Node.Pressure
import Seedstone.Node.Routing
import Seedstone.Log.Checksum
import Seedstone.Log.NameIndex
import Seedstone.Service.Buffer
import Seedstone.Service.Numbers
import Seedstone.Service.OptionOrder
