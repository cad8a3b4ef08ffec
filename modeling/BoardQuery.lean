import BoardQuery.Range.Parser
import BoardQuery.Range.Json
import BoardQuery.Session
import BoardQuery.Channel.Mailbox
import BoardQuery.Channel.Files
import BoardQuery.Proofs.Consultation
import BoardQuery.Proofs.Expansion
import BoardQuery.Proofs.Materialized
import BoardQuery.Proofs.Meaning
import BoardQuery.Proofs.Framing
import BoardQuery.Proofs.Arrival
import BoardQuery.Proofs.Conversation
import BoardQuery.Proofs.Conservation
import BoardQuery.Proofs.Correspondence
import BoardQuery.Proofs.Lifecycle
import BoardQuery.Proofs.Pruning
import BoardQuery.Proofs.Exhaustion
import BoardQuery.Proofs.Freshness
import BoardQuery.Proofs.StandIn
import BoardQuery.Proofs.Shapes
import BoardQuery.Proofs.Atomicity
import BoardQuery.Proofs.Draining
import BoardQuery.Proofs.QuotedText
import BoardQuery.Proofs.WrittenNumber
import BoardQuery.Proofs.WrittenRecord
import BoardQuery.Proofs.WrittenConfig
import BoardQuery.Proofs.Cloning
import BoardQuery.Proofs.Counting
import BoardQuery.Proofs.RangeGrammar
import BoardQuery.Proofs.Reordering
import BoardQuery.Proofs.ReportedLength
import BoardQuery.Proofs.RangeTexts
import BoardQuery.Proofs.Course
import BoardQuery.Proofs.Indentation
import BoardQuery.Proofs.Layout
import BoardQuery.Proofs.SignOfLife
import BoardQuery.Proofs.Recognition
import BoardQuery.Proofs.JsonForms
import BoardQuery.Proofs.JsonTexts
import BoardQuery.Proofs.JsonRecords
import BoardQuery.Proofs.Overlay
