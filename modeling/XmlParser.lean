import XmlParser.Elements
import XmlParser.CursorProperties
import XmlParser.Progress
import XmlParser.Naming
import XmlParser.ReferencesProperties
import XmlParser.Meaning
import XmlParser.Reading
import XmlParser.Accepting
import XmlParser.DecoderProperties
import XmlParser.Dialects
import XmlParser.Conformance
import XmlParser.Library.Unambiguity
import XmlParser.LexicalScoping
import XmlParser.EventOrder
import XmlParser.Library.Triple
import XmlParser.WellNested
import XmlParser.Dom
import XmlParser.Library.Forest
import XmlParser.DomForest
import XmlParser.Library.Coupling
import XmlParser.Lockstep
import XmlParser.LockstepMembers
import XmlParser.Encodings
import XmlParser.Locations
import XmlParser.EncodingIndependence
import XmlParser.SuppressedValidation
import XmlParser.Limits
import XmlParser.ReferenceCounts
import XmlParser.DocumentAccounts
import XmlParser.DomBuilder
import XmlParser.DomTree
import XmlParser.DomBuilding
import XmlParser.EarlyStop
import XmlParser.SameDocument
import XmlParser.LooserLimits
import XmlParser.SaxSessions
import XmlParser.ElementDeclarations
import XmlParser.Library.ContentModels
import XmlParser.ContentModels
import XmlParser.Subsets
import XmlParser.Verdicts
import XmlParser.DocumentOrder
import XmlParser.SerializedNodes
import XmlParser.WrittenEvents
import XmlParser.Redeclaring
import XmlParser.Respelling
import XmlParser.RespelledContent
import XmlParser.RoundTrip
import XmlParser.EntityExpansion
import XmlParser.ReplacementLimit
import XmlParser.NestedReferences
import XmlParser.NamespaceConstraints
import XmlParser.LeafContents
import XmlParser.AttributeAccess
import XmlParser.StartTagBindings
import XmlParser.AtomicMutation
import XmlParser.Traversals
import XmlParser.XmlDeclaration
import XmlParser.Library.Cutting
import XmlParser.TruncatedInput
import XmlParser.TruncatedParsing
import XmlParser.TruncatedElements
import XmlParser.Endings
import XmlParser.Truncation
import XmlParser.CharacterReferences
import XmlParser.DeclarationOffsets
import XmlParser.MarkupInValues
import XmlParser.DeclaredTables
import XmlParser.Library.Indexing
import XmlParser.Library.Simulation
import XmlParser.IndexedCursor
import XmlParser.IndexedReferences
import XmlParser.IndexedDtd
import XmlParser.IndexedElements
import XmlParser.DocumentIsolation
import XmlParser.StreamSerializer
import XmlParser.NormalForm
import XmlParser.WrittenBack
import XmlParser.Reserializing
import XmlParser.Watching
import XmlParser.Callbacks
import XmlParser.Amplification
import XmlParser.BoundedDocuments
import XmlParser.ExternalOptions
import XmlParser.NamespaceFiltering
import XmlParser.WholeDocuments
