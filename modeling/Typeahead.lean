import Typeahead.Main
import Typeahead.Proofs.Chunking
import Typeahead.Proofs.Confirmation
import Typeahead.Proofs.ByteAccuracy
import Typeahead.Proofs.PauseExclusion
import Typeahead.Proofs.Provenance
import Typeahead.Proofs.DirectOutput
import Typeahead.Proofs.TypedBackspace
import Typeahead.Proofs.DisplayControls
import Typeahead.Proofs.Loopback
import Typeahead.Proofs.LazyExpiry
import Typeahead.Proofs.Forwarding
import Typeahead.Proofs.LogDelivery
import Typeahead.Proofs.LogContents
import Typeahead.Proofs.SettingsRoundTrip
import Typeahead.Proofs.SettingsLoading
import Typeahead.Proofs.Disposal
import Typeahead.Proofs.RawReport
import Typeahead.Proofs.LastWrite
import Typeahead.Proofs.LineComposition
import Typeahead.Proofs.SpanSearch
import Typeahead.Proofs.ScriptGrammar
import Typeahead.Proofs.SettingsFields
import Typeahead.Proofs.SpanCoverage
import Typeahead.Proofs.WholeCharacters
import Typeahead.Proofs.ReadableForms
import Typeahead.Proofs.Subscriptions
