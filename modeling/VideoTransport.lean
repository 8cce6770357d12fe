import VideoTransport.BigEndian
import VideoTransport.Document
import VideoTransport.Duration
import VideoTransport.Feedback.ArrivalLog
import VideoTransport.Feedback.Batch
import VideoTransport.Feedback.Capacity
import VideoTransport.Feedback.Chunk
import VideoTransport.Feedback.ChunkBuilder
import VideoTransport.Feedback.Delta
import VideoTransport.Feedback.Endpoint
import VideoTransport.Feedback.Error
import VideoTransport.Feedback.Framing
import VideoTransport.Feedback.Message
import VideoTransport.Feedback.MessageReader
import VideoTransport.Feedback.Report
import VideoTransport.Feedback.SendHistory
import VideoTransport.Feedback.Settings
import VideoTransport.Feedback.Status
import VideoTransport.Feedback.VectorWriter
import VideoTransport.Proofs.Circle
import VideoTransport.Proofs.Feedback.ArrivalOrder
import VideoTransport.Proofs.Feedback.BatchOrder
import VideoTransport.Proofs.Feedback.BatchReports
import VideoTransport.Proofs.Feedback.ChunkCodec
import VideoTransport.Proofs.Feedback.ChunkEncoding
import VideoTransport.Proofs.Feedback.ChunkStream
import VideoTransport.Proofs.Feedback.CutInfo
import VideoTransport.Proofs.Feedback.DeliveryOrder
import VideoTransport.Proofs.Feedback.FeedbackRanges
import VideoTransport.Proofs.Feedback.GaplessReports
import VideoTransport.Proofs.Feedback.HalfCircle
import VideoTransport.Proofs.Feedback.HistoryLookup
import VideoTransport.Proofs.Feedback.HistoryUpdates
import VideoTransport.Proofs.Feedback.InOrderArrivals
import VideoTransport.Proofs.Feedback.LostPackets
import VideoTransport.Proofs.Feedback.MessageCodec
import VideoTransport.Proofs.Feedback.MissingArrivals
import VideoTransport.Proofs.Feedback.PacketFraming
import VideoTransport.Proofs.Feedback.PacketSize
import VideoTransport.Proofs.Feedback.PlainVectors
import VideoTransport.Proofs.Feedback.ReadEffects
import VideoTransport.Proofs.Feedback.ReaderAgreement
import VideoTransport.Proofs.Feedback.RecordedArrivals
import VideoTransport.Proofs.Feedback.ReportCursor
import VideoTransport.Proofs.Feedback.ReportedBatches
import VideoTransport.Proofs.Feedback.ResetLogs
import VideoTransport.Proofs.Feedback.RestartedArrivals
import VideoTransport.Proofs.Feedback.RoundTrip
import VideoTransport.Proofs.Feedback.VectorWriting
import VideoTransport.Proofs.Feedback.WholeInfo
import VideoTransport.Proofs.Feedback.WindowArrivals
import VideoTransport.Proofs.Feedback.WindowPieces
import VideoTransport.Proofs.Feedback.WrittenReport
import VideoTransport.Proofs.Vp8.AbandonedFrames
import VideoTransport.Proofs.Vp8.DescriptorLayout
import VideoTransport.Proofs.Vp8.FormatSignals
import VideoTransport.Proofs.Vp8.FoundFrames
import VideoTransport.Proofs.Vp8.FrameGroups
import VideoTransport.Proofs.Vp8.History
import VideoTransport.Proofs.Vp8.KeyframeGate
import VideoTransport.Proofs.Vp8.KnownLosses
import VideoTransport.Proofs.Vp8.LossIndependence
import VideoTransport.Proofs.Vp8.LosslessStream
import VideoTransport.Proofs.Vp8.Media
import VideoTransport.Proofs.Vp8.OrderedFields
import VideoTransport.Proofs.Vp8.PictureDistance
import VideoTransport.Proofs.Vp8.PictureSequence
import VideoTransport.Proofs.Vp8.ReceiverRuns
import VideoTransport.Proofs.Vp8.ResetReceivers
import VideoTransport.Proofs.Vp8.StepParts
import VideoTransport.Proofs.Vp8.UntoldLosses
import VideoTransport.Proofs.Vp8.WithheldLosses
import VideoTransport.Rtcp.Header
import VideoTransport.Runs
import VideoTransport.SeqNum
import VideoTransport.SlidingBuffer
import VideoTransport.Ssrc
import VideoTransport.Vp8.Assembly
import VideoTransport.Vp8.Descriptor
import VideoTransport.Vp8.Frame
import VideoTransport.Vp8.FrameHeader
import VideoTransport.Vp8.PictureId
import VideoTransport.Vp8.Receiver
import VideoTransport.Vp8.Settings
import VideoTransport.Vp8.Stream
