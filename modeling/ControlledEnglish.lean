import ControlledEnglish.Main
import ControlledEnglish.Service.Handle
import ControlledEnglish.Session
import ControlledEnglish.Proofs.Grammar.Sharing
import ControlledEnglish.Proofs.Grammar.Derives
import ControlledEnglish.Proofs.Reading
import ControlledEnglish.Proofs.Canonical.Clean
import ControlledEnglish.Proofs.Canonical.Phrases
import ControlledEnglish.Proofs.Canonical.Closed
import ControlledEnglish.Proofs.Canonical.Groups
import ControlledEnglish.Proofs.Canonical.Governed
import ControlledEnglish.Proofs.Canonical.Sentences
import ControlledEnglish.Proofs.Canonical.Predicates
import ControlledEnglish.Proofs.Canonical.Settled
import ControlledEnglish.Proofs.Canonical.First
import ControlledEnglish.Proofs.Canonical.Glossed
import ControlledEnglish.Proofs.Canonical.Unique
import ControlledEnglish.Proofs.Canonical.Ambiguous
import ControlledEnglish.Proofs.Canonical.Fragment
import ControlledEnglish.Proofs.Grammar.Content
import ControlledEnglish.Proofs.Canonical.Aligned
import ControlledEnglish.Proofs.Canonical.Worded
import ControlledEnglish.Proofs.Canonical.Faithful
import ControlledEnglish.Proofs.Canonical.Restated
import ControlledEnglish.Proofs.Canonical.Injective
import ControlledEnglish.Proofs.Canonical.Resettled
import ControlledEnglish.Proofs.Grammar.Order
import ControlledEnglish.Proofs.Grammar.Shapes
import ControlledEnglish.Proofs.Canonical.Speakable
import ControlledEnglish.Proofs.Grammar.Conditions
import ControlledEnglish.Proofs.Canonical.Preserved
import ControlledEnglish.Proofs.Grammar.Recognized
import ControlledEnglish.Proofs.Grammar.Taught
import ControlledEnglish.Proofs.Canonical.Several
import ControlledEnglish.Proofs.Canonical.Adjacent
import ControlledEnglish.Proofs.Canonical.Built
import ControlledEnglish.Proofs.Canonical.Clear
import ControlledEnglish.Proofs.Canonical.Readable
import ControlledEnglish.Proofs.Grammar.Termination
import ControlledEnglish.Proofs.Session.Interchange
import ControlledEnglish.Proofs.Session.Labels
import ControlledEnglish.Proofs.Session.Isolation
import ControlledEnglish.Proofs.Grammar.Locality
import ControlledEnglish.Proofs.Grammar.Subjects
import ControlledEnglish.Proofs.Declared
import ControlledEnglish.Proofs.Grammar.Unambiguous
import ControlledEnglish.Proofs.Grammar.Placement
import ControlledEnglish.Proofs.Literals
import ControlledEnglish.Proofs.Grammar.Determiners
import ControlledEnglish.Proofs.Grammar.Interchangeable
import ControlledEnglish.Proofs.Grammar.Synonyms
import ControlledEnglish.Proofs.Tokens.Exact
import ControlledEnglish.Proofs.Values.Glossable
import ControlledEnglish.Proofs.Values.Mentioned
import ControlledEnglish.Proofs.Tokens.Continued
import ControlledEnglish.Proofs.Declarations
import ControlledEnglish.Proofs.Values.Lossless
import ControlledEnglish.Proofs.Values.Delimited
import ControlledEnglish.Proofs.Opened
import ControlledEnglish.Proofs.Command.Parsed
import ControlledEnglish.Proofs.Command.Added
import ControlledEnglish.Proofs.Command.Seeded
import ControlledEnglish.Proofs.Grammar.Audience
import ControlledEnglish.Proofs.Adverbs
