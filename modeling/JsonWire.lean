import JsonWire.Sample.Blueprint
import JsonWire.Sample.Labelled
import JsonWire.Proofs.RoundTrip
import JsonWire.Proofs.SampleBlame
import JsonWire.Proofs.SampleSettling
import JsonWire.Proofs.Tagging
import JsonWire.Proofs.Faithful
import JsonWire.Proofs.SampleTrial
import JsonWire.Proofs.Strict
import JsonWire.Proofs.SheetPlaces
import JsonWire.Proofs.Made
import JsonWire.Proofs.SampleMade
import JsonWire.Proofs.Refusals
import JsonWire.Proofs.SampleStrict
import JsonWire.Proofs.Inheriting
import JsonWire.Proofs.Tags
import JsonWire.Proofs.Floats
import JsonWire.Proofs.SampleFloats
import JsonWire.Proofs.Rejecting
import JsonWire.Proofs.Evolving
import JsonWire.Proofs.Nesting
import JsonWire.Proofs.Announcing
import JsonWire.Proofs.SampleReporting
import JsonWire.Proofs.SampleAnnouncing
import JsonWire.Proofs.DurationForms
import JsonWire.Proofs.FirstMatch
import JsonWire.Proofs.Overlays
import JsonWire.Proofs.SampleRereading
import JsonWire.Proofs.Paths
import JsonWire.Proofs.DurationLoss
import JsonWire.Proofs.Membership
import JsonWire.Proofs.UnionDefinitions
import JsonWire.Proofs.WholeNumbers
import JsonWire.Proofs.DurationArithmetic
