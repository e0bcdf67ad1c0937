import SigV4.Event.Feed
import SigV4.Proofs.AlikeDraft
import SigV4.Proofs.AsciiText
import SigV4.Proofs.CanonicalDraft
import SigV4.Proofs.CanonicalText
import SigV4.Proofs.EscapedText
import SigV4.Proofs.FilledHeaders
import SigV4.Proofs.FrameBinding
import SigV4.Proofs.HeaderText
import SigV4.Proofs.NormalValue
import SigV4.Proofs.Pieces
import SigV4.Proofs.PreparedDraft
import SigV4.Proofs.SignedFrame
import SigV4.Proofs.SignedRequest
import SigV4.Proofs.Stamp
import SigV4.Proofs.Success
import SigV4.Proofs.Verification
import SigV4.Proofs.WrittenDraft
import SigV4.Signer
import SigV4.Proofs.FeedCourse
import SigV4.Proofs.FeedPolling
import SigV4.Proofs.WrittenQuery
import SigV4.Proofs.WrittenTarget
import SigV4.Proofs.PresignedRequest
import SigV4.Proofs.FrameStream
import SigV4.Proofs.InPlace
import SigV4.Proofs.RepeatedSigning
import SigV4.Proofs.IgnoredSpelling
import SigV4.Proofs.SharedClock
import SigV4.Proofs.SigningCourse
import SigV4.Proofs.CarriedRequest
import SigV4.Proofs.SignedNames
import SigV4.Proofs.AnnouncedHash
import SigV4.Proofs.DateText
import SigV4.Proofs.FrameDate
import SigV4.Proofs.PlainTransport
import SigV4.Proofs.StreamOpening
import SigV4.Proofs.NormalHeaders
import SigV4.Proofs.LoggedSecrets
import SigV4.Proofs.PresignedParameters
import SigV4.Proofs.CarriedQuery
import SigV4.Proofs.MendableFaults
import SigV4.Proofs.SigningCondition
import SigV4.Proofs.SignedText
import SigV4.Proofs.DayKey
import SigV4.Proofs.WrappedEvent
import SigV4.Proofs.PlainFallback
import SigV4.Proofs.CollapsedRuns
import SigV4.Proofs.FrameOrder
import SigV4.Proofs.UriEncoding
import SigV4.Proofs.HostHeader
import SigV4.Proofs.PrintedCredential
