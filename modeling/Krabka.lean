import Krabka.Metadata.Records
import Krabka.Lib.Transition
import Krabka.Metadata.AclIndex
import Krabka.Metadata.AclLookup
import Krabka.Metadata.Image
import Krabka.Metadata.Integrity
import Krabka.Metadata.BreakGlass
import Krabka.Metadata.Snapshot
import Krabka.Metadata.SnapshotAdmission
import Krabka.Metadata.EmptyConfigs
import Krabka.Metadata.DirAssignment
import Krabka.Lib.LongestPrefix
import Krabka.Metadata.TopicFreeze
import Krabka.Lib.Tiling
import Krabka.Metadata.Sequencer
import Krabka.Lib.Results
import Krabka.Metadata.Kraft.Wire
import Krabka.Metadata.Kraft.FromKraft
import Krabka.Metadata.Kraft.PrivateCarrier
import Krabka.Metadata.Kraft.RoundTrip
import Krabka.Metadata.Kraft.Replay
import Krabka.Metadata.Kraft.PartitionChange
import Krabka.Metadata.Kraft.PartitionRead
import Krabka.Metadata.Kraft.ErrorClass
import Krabka.Metadata.Kraft.PartitionLog
import Krabka.Metadata.Kraft.AspectLog
import Krabka.Metadata.Kraft.LogPath
import Krabka.Metadata.Kraft.SnapshotLog
import Krabka.Metadata.Downgrade
import Krabka.Metadata.DowngradeProjection
import Krabka.Lib.ByteStream
import Krabka.Lib.WireInt
import Krabka.Lib.Checksum
import Krabka.Lib.ChunkedInput
import Krabka.Compression
import Krabka.Protocol.Primitives
import Krabka.Lib.ExactCodec
import Krabka.Lib.GuardedCodec
import Krabka.Lib.ApartOutputs
import Krabka.Protocol.ExactPrimitives
import Krabka.Protocol.TaggedFields
import Krabka.Protocol.TaggedTrailer
import Krabka.Protocol.PrivateMessages
import Krabka.Protocol.Records.Format
import Krabka.Protocol.Records.Encode
import Krabka.Protocol.Records.Decode
import Krabka.Protocol.Records.Fragmentation
import Krabka.Protocol.Records.Agreement
import Krabka.Protocol.Records.RoundTrip
import Krabka.Protocol.Produce
import Krabka.Protocol.PartitionRecord
import Krabka.Metadata.Kraft.GeneratedCodec
import Krabka.Metadata.Kraft.DowngradeRecords
import Krabka.Metadata.Kraft.DowngradeLog
import Krabka.Lib.Causality
import Krabka.HybridClock.Clock
import Krabka.HybridClock.Causality
import Krabka.HybridClock.Fence
import Krabka.Lib.Base64
import Krabka.Lib.Sha256
import Krabka.Security.Principal
import Krabka.Security.Scram.Messages
import Krabka.Security.Scram.Exchange
import Krabka.Security.Scram.Completeness
import Krabka.Lib.Json
import Krabka.Security.OAuthBearer.Claims
import Krabka.Security.OAuthBearer.Validators
import Krabka.Security.OAuthBearer.Expiry
import Krabka.TraceContext.Soundness
import Krabka.Security.OAuthBearer.Saslname
import Krabka.Protocol.SizedPrimitives
import Krabka.Protocol.Records.Payload
import Krabka.Protocol.Records.Carriers
import Krabka.Protocol.Records.PayloadReader
import Krabka.Codegen.Schema
import Krabka.Codegen.Defaults
import Krabka.Codegen.Owned
import Krabka.Codegen.TaggedSection
import Krabka.Codegen.RoundTrip
import Krabka.Codegen.Canonical
import Krabka.Lib.AlikeReaders
import Krabka.Protocol.AlikePrimitives
import Krabka.Lib.PairedLists
import Krabka.Codegen.PlainDefaults
import Krabka.Codegen.Borrowed
import Krabka.Codegen.Flavours
import Krabka.Codegen.FlavourDifferences
import Krabka.Codegen.SameValue
import Krabka.Codegen.OnWire
import Krabka.Protocol.Records.FetchFlavours
import Krabka.Protocol.Records.FetchLeniency
import Krabka.Lib.ShortestVarint
import Krabka.Protocol.Records.OwnedRecord
import Krabka.Protocol.Records.WireForm
import Krabka.Protocol.Records.OffsetStamp
import Krabka.Protocol.ProduceSlices
import Krabka.Security.OAuthBearer.PrincipalName
import Krabka.Codegen.SchemaDefaults
import Krabka.Lib.DoWhile
import Krabka.Codegen.Hoist
import Krabka.Codegen.HoistMeaning
import Krabka.Codegen.HoistRounds
import Krabka.Codegen.HoistCapture
import Krabka.Security.OAuthBearer.NotBefore
import Krabka.Security.OAuthBearer.DateRange
import Krabka.Security.OAuthBearer.Userinfo
import Krabka.Lib.Cutting
import Krabka.Security.OAuthBearer.ClientResponse
import Krabka.Lib.LastEntry
import Krabka.Security.Jwks
import Krabka.Security.JwkProvenance
import Krabka.Lib.LossyText
import Krabka.Security.Gssapi.Keytab
import Krabka.Security.Gssapi.KeytabFormat
import Krabka.Lib.LocalReader
import Krabka.Security.Gssapi.KeytabIsolation
import Krabka.Lib.Greatest
import Krabka.Security.Gssapi.KeytabLookup
import Krabka.Security.JavaPattern
import Krabka.Security.Gssapi.Rules
import Krabka.Security.Gssapi.RuleGrammar
import Krabka.HybridClock.CounterBound
import Krabka.Metadata.AclRepresentation
import Krabka.Security.Scram.Saslname
import Krabka.Security.Scram.Rebuilt
import Krabka.Codegen.PrimitiveCodecs
import Krabka.Lib.Base64Url
import Krabka.Ids.KafkaUuid
import Krabka.Lib.Scratch
import Krabka.Lib.WhileLoop
import Krabka.Compression.Snappy
import Krabka.Compression.Lz4
import Krabka.Lib.TextRange
import Krabka.Security.JavaReplacement
import Krabka.Security.JavaReference
import Krabka.Security.JavaReplaceLoop
import Krabka.Lib.Occurrence
import Krabka.TraceContext.ScanLoops
import Krabka.TraceContext.Completeness
import Krabka.Lib.Framing
import Krabka.Lib.BigEndian
import Krabka.KafkaTap.Frame
import Krabka.KafkaTap.Relay
import Krabka.KafkaTap.Recording
import Krabka.KafkaTap.Spool
import Krabka.Security.Gssapi.SecurityLayer
import Krabka.Security.Gssapi.Exchange
import Krabka.Security.Scram.PgVerifier
import Krabka.Protocol.Records.Reencoding
import Krabka.Protocol.Records.FetchReencoding
import Krabka.Protocol.MetadataValue
import Krabka.Protocol.GuardedPrimitives
import Krabka.Protocol.MetadataBodies
import Krabka.Protocol.OwnTags
import Krabka.Protocol.RegisterBrokerRecord
import Krabka.Protocol.MetadataReencoding
import Krabka.Protocol.KraftMessages
import Krabka.Protocol.ControlRecords
import Krabka.Protocol.BootstrapCheckpoint
import Krabka.Metadata.MetadataVersion
import Krabka.Metadata.Kraft.FormatChange
import Krabka.Metadata.Feature
import Krabka.Metadata.Kraft.Bootstrap
import Krabka.HybridClock.Stamp
import Krabka.Lib.Saturation
import Krabka.Codegen.Lifetimes
import Krabka.Codegen.FallibleStructs
import Krabka.Lib.FileTree
import Krabka.Codegen.OutputSweep
import Krabka.Codegen.NameConv
import Krabka.Codegen.LoadDir
import Krabka.TraceContext.Carrier
