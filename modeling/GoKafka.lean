import GoKafka.Protocol.ReadCommitted
import GoKafka.Producer.Dedup
import GoKafka.Producer.Coverage
import GoKafka.Protocol.LastOffset
import GoKafka.Producer.Registered
import GoKafka.Protocol.OffsetCommit
import GoKafka.Broker.Connections
import GoKafka.Kfake.EndToEnd
import GoKafka.Zstd.RoundTrip
import GoKafka.Kfake.Collect
import GoKafka.Consumer.Heartbeat
import GoKafka.Kfake.Topics
import GoKafka.Kfake.Join
import GoKafka.Producer.Numbering
import GoKafka.Auth.Verifier
import GoKafka.Consumer.Aggregate
import GoKafka.Consumer.CommitOrder
import GoKafka.Consumer.JoinRequests
import GoKafka.Consumer.Incremental
import GoKafka.Consumer.LoadOffsets
import GoKafka.Producer.AsyncSend
import GoKafka.Broker.Reauthenticate
import GoKafka.Consumer.AckCover
import GoKafka.Zstd.Lossless
import GoKafka.Producer.Batch
import GoKafka.Producer.Leaders
import GoKafka.Consumer.Seek
import GoKafka.Admin.Lag
import GoKafka.Protocol.Sections
import GoKafka.Schema.Encryption
import GoKafka.Wire.Access
import GoKafka.Compress.Blocks
