import SmallScheme.Main
import SmallScheme.Heap.Inspect
import SmallScheme.Proofs.RoundTrip
import SmallScheme.Proofs.Associations
import SmallScheme.Proofs.Encapsulation
import SmallScheme.Proofs.Acceptance
import SmallScheme.Proofs.Decomposition
import SmallScheme.Proofs.Continuation
import SmallScheme.Proofs.Programs
import SmallScheme.Proofs.Ownership
import SmallScheme.Proofs.LexicalScoping
import SmallScheme.Proofs.StrictEquality
import SmallScheme.Proofs.Interchange
import SmallScheme.Proofs.LooseEquality
import SmallScheme.Proofs.PortRegistry
import SmallScheme.Proofs.Conversation
import SmallScheme.Proofs.PortRoundTrip
import SmallScheme.Proofs.Searching
import SmallScheme.Proofs.Division
import SmallScheme.Proofs.Pairs
import SmallScheme.Proofs.ParameterBinding
import SmallScheme.Proofs.NumeralTexts
import SmallScheme.Proofs.Landmarks
import SmallScheme.Proofs.StringDecoding
import SmallScheme.Proofs.Composition
