import Transceiver.FrameHeader
import Transceiver.History
import Transceiver.Medium
import Transceiver.Network
import Transceiver.Radio
import Transceiver.Proofs.Activity
import Transceiver.Proofs.ActivitySteps
import Transceiver.Proofs.SessionRecord
import Transceiver.Proofs.TransmitFraming
import Transceiver.Proofs.OperatingStates
import Transceiver.Proofs.OwedAcknowledgement
import Transceiver.Proofs.ReceivedLength
import Transceiver.Proofs.BusAccess
import Transceiver.Proofs.BusAgreement
import Transceiver.Proofs.Listening
import Transceiver.Proofs.RaisedEvents
import Transceiver.Proofs.StreamedFilter
import Transceiver.Proofs.FrameReception
import Transceiver.Proofs.ReceivedFrame
import Transceiver.Proofs.FrameTransmission
import Transceiver.Proofs.RoundTrip
import Transceiver.Proofs.AddressRecognition
import Transceiver.Proofs.AutomaticAcknowledgement
import Transceiver.Proofs.AcknowledgedFrame
import Transceiver.Proofs.AcknowledgementOnAir
import Transceiver.Proofs.InterruptStatus
import Transceiver.Proofs.OctetCount
import Transceiver.Proofs.OctetStream
import Transceiver.Proofs.AcknowledgedDestination
import Transceiver.Proofs.ErrorDetection
import Transceiver.Proofs.WrittenSettings
import Transceiver.Proofs.Reset
import Transceiver.Proofs.Overflow
import Transceiver.Proofs.TransmissionEnd
import Transceiver.Proofs.EffectOrder
import Transceiver.Proofs.QueuedTransmission
import Transceiver.Proofs.LinkNoise
import Transceiver.Proofs.NoiseIndependence
import Transceiver.Proofs.Resynchronisation
import Transceiver.Proofs.LinkQuality
import Transceiver.Proofs.FrameBitErrors
import Transceiver.Proofs.SettlingTime
import Transceiver.Proofs.BusIsolation
import Transceiver.Proofs.BufferMemory
import Transceiver.Proofs.MemoryBurst
import Transceiver.Proofs.FrameWindow
import Transceiver.Proofs.HeldReset
import Transceiver.Proofs.RefusedAccess
import Transceiver.Proofs.ReflectedRegister
import Transceiver.Proofs.WholeFrameVerdict
import Transceiver.Proofs.FrameNotices
import Transceiver.Proofs.FrameReading
import Transceiver.Proofs.RepeatedCommand
import Transceiver.Proofs.StoredSettings
