import BicDb.Replication.Safety
import BicDb.Metadata.Reopen
import BicDb.Paged.Isolation
import BicDb.Paged.WatermarkRepair
import BicDb.Events.AppendHandle
import BicDb.Events.Durability
import BicDb.Broker.Delivery
import BicDb.Broker.Polling
import BicDb.RangeWrites.OneWay
import BicDb.Distribution.Consensus
import BicDb.Distribution.TokenMap
import BicDb.Mesh.Signing
import BicDb.Cache.Equivalence
import BicDb.Sql.BitKeys
import BicDb.Sql.Like
import BicDb.Sql.NumericWire
import BicDb.Pages.Node
import BicDb.Pages.FreeList
import BicDb.Pages.Space
import BicDb.Index.Entries
import BicDb.FullText.Phrase
import BicDb.FullText.Publish
