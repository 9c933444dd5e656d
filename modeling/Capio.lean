import Capio.Common.SharedQueue
import Capio.Storage.WakeUps
import Capio.Storage.BufferReaders
import Capio.Server.LocationRecords
import Capio.Server.Exit
import Capio.Server.Commit
import Capio.Server.Removal
import Capio.Server.ExclusiveCreate
import Capio.Server.DirectoryCommit
import Capio.Server.OpenCounts
import Capio.Server.CloneRelease
import Capio.Server.Producers
import Capio.Server.RuntimeConfiguration
import Capio.Server.StorageAllocator
import Capio.Posix.Rename
import Capio.Posix.Descriptions
import Capio.Posix.Replace
import Capio.Posix.Overflow
import Capio.Posix.Exec
import Capio.Posix.Readv
import Capio.Posix.Getdents
import Capio.Posix.BufferedCopy
import Capio.Posix.PrefetchedLine
import Capio.Posix.Unlink
import Capio.Remote.Streaming
import Capio.Remote.Stat
import Capio.Remote.MpiBackend
import Capio.Remote.LargeReplies
import Capio.Server.Replies
