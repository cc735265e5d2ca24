import Hercules.Comms
import Hercules.IntervalSlots
import Hercules.Client.ResolvePath
import Hercules.Server.Snapshot
import Hercules.Server.ConcurrentWrites
import Hercules.Server.ConcurrentSizes
import Hercules.Server.Accounting
import Hercules.Server.PerformanceReport
import Hercules.Server.ScalingSymmetry
import Hercules.Server.StsQueue
import Hercules.Server.Locking
import Hercules.Server.Survival
import Hercules.Cluster.Rename
import Hercules.Cluster.Membership
import Hercules.Cluster.Location
import Hercules.Cluster.Prefetch
import Hercules.Cluster.Colocation
import Hercules.Client.DirStreams
import Hercules.Cluster.NamespaceClosure
import Hercules.Cluster.OpenCount
import Hercules.Client.RenameVerdict
import Hercules.Client.RenameCaches
import Hercules.Server.MissingKeys
