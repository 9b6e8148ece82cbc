import SoapClient.CommandLine.Basic
import SoapClient.CommandLine.Level
import SoapClient.CommandLine.Parse
import SoapClient.CommandLine.Value
import SoapClient.Decimal.Binary64
import SoapClient.Decimal.Canonical
import SoapClient.Decimal.Digits
import SoapClient.Decimal.Layout
import SoapClient.Decimal.Literal
import SoapClient.Decimal.Shortest
import SoapClient.Decimal.Stepwise
import SoapClient.DescriptionError
import SoapClient.Envelope.Decode
import SoapClient.Envelope.Encode
import SoapClient.HostName.Composition
import SoapClient.HostName.Direction
import SoapClient.HostName.Joining
import SoapClient.HostName.Label
import SoapClient.HostName.MarkOrder
import SoapClient.HostName.Spelling
import SoapClient.HostName.Standing
import SoapClient.Invocation
import SoapClient.Json.Basic
import SoapClient.Json.Reader
import SoapClient.Json.Writer
import SoapClient.Main
import SoapClient.Model.Basic
import SoapClient.Model.Json
import SoapClient.Model.Lookup
import SoapClient.Model.TypeRef
import SoapClient.Program
import SoapClient.Proofs.Agreement
import SoapClient.Proofs.Decimal.Canonical
import SoapClient.Proofs.Decimal.Layout
import SoapClient.Proofs.Decimal.Nearest
import SoapClient.Proofs.Decimal.Reading
import SoapClient.Proofs.Decimal.Rounding
import SoapClient.Proofs.Decimal.Shortest
import SoapClient.Proofs.Decimal.Uniqueness
import SoapClient.Proofs.Envelope.Body
import SoapClient.Proofs.Envelope.Enclosure
import SoapClient.Proofs.Envelope.Erasure
import SoapClient.Proofs.Envelope.Repetition
import SoapClient.Proofs.Envelope.Request
import SoapClient.Proofs.Envelope.Response
import SoapClient.Proofs.Envelope.RoundTrip
import SoapClient.Proofs.Envelope.Values
import SoapClient.Proofs.Invocation
import SoapClient.Proofs.Json.Everywhere
import SoapClient.Proofs.Model.Closed
import SoapClient.Proofs.Model.Lookup
import SoapClient.Proofs.Outcome
import SoapClient.Proofs.Schema.AgreeingResolutions
import SoapClient.Proofs.Schema.Agreement
import SoapClient.Proofs.Schema.Checking
import SoapClient.Proofs.Schema.Collecting
import SoapClient.Proofs.Schema.Derivation
import SoapClient.Proofs.Schema.EntryOrder
import SoapClient.Proofs.Schema.Faults
import SoapClient.Proofs.Schema.FieldNames
import SoapClient.Proofs.Schema.FieldSources
import SoapClient.Proofs.Schema.Gathering
import SoapClient.Proofs.Schema.Meaning
import SoapClient.Proofs.Schema.Naming
import SoapClient.Proofs.Schema.Nodes
import SoapClient.Proofs.Schema.Places
import SoapClient.Proofs.Schema.Register
import SoapClient.Proofs.Schema.Rereading
import SoapClient.Proofs.Schema.Soundness
import SoapClient.Proofs.Schema.Termination
import SoapClient.Proofs.Schema.Walks
import SoapClient.Proofs.Spreads
import SoapClient.Proofs.Text.Utf8
import SoapClient.Proofs.Value.Closed
import SoapClient.Proofs.Value.Coercion
import SoapClient.Proofs.Value.Culprit
import SoapClient.Proofs.Value.Decimals
import SoapClient.Proofs.Value.ExactDecimals
import SoapClient.Proofs.Value.Fitting
import SoapClient.Proofs.Value.Legible
import SoapClient.Proofs.Value.ReadBack
import SoapClient.Proofs.Value.Rearranging
import SoapClient.Proofs.Value.Reordering
import SoapClient.Proofs.Value.Settled
import SoapClient.Proofs.Value.Shape
import SoapClient.Proofs.Value.Texts
import SoapClient.Proofs.Wsdl.AgreeingModels
import SoapClient.Proofs.Wsdl.Agreement
import SoapClient.Proofs.Wsdl.BodyElements
import SoapClient.Proofs.Wsdl.Closed
import SoapClient.Proofs.Wsdl.Collecting
import SoapClient.Proofs.Wsdl.Definitions
import SoapClient.Proofs.Wsdl.Derivation
import SoapClient.Proofs.Wsdl.DistinctFields
import SoapClient.Proofs.Wsdl.Flattening
import SoapClient.Proofs.Wsdl.ForeignElements
import SoapClient.Proofs.Wsdl.Inheritance
import SoapClient.Proofs.Wsdl.Interpretation
import SoapClient.Proofs.Wsdl.Introspection
import SoapClient.Proofs.Wsdl.Layout
import SoapClient.Proofs.Wsdl.Messages
import SoapClient.Proofs.Wsdl.Multiplicity
import SoapClient.Proofs.Wsdl.Naming
import SoapClient.Proofs.Wsdl.Operation
import SoapClient.Proofs.Wsdl.Padding
import SoapClient.Proofs.Wsdl.Qualification
import SoapClient.Proofs.Wsdl.References
import SoapClient.Proofs.Wsdl.Respelling
import SoapClient.Proofs.Wsdl.TypeNames
import SoapClient.Proofs.Wsdl.TypeOrder
import SoapClient.Proofs.Xml.Grouping
import SoapClient.Proofs.Xml.LeafText
import SoapClient.Proofs.Xml.Name
import SoapClient.Proofs.Xml.Nesting
import SoapClient.Proofs.Xml.Padding
import SoapClient.Proofs.Xml.Pieces
import SoapClient.Proofs.Xml.Preorder
import SoapClient.Proofs.Xml.Resemblance
import SoapClient.Proofs.Xml.Scan
import SoapClient.Proofs.Xml.Scoping
import SoapClient.Proofs.Xml.Tree
import SoapClient.Report.Basic
import SoapClient.Report.Palette
import SoapClient.Schema.Components
import SoapClient.Schema.Declaration
import SoapClient.Schema.Reader
import SoapClient.Schema.Resolution
import SoapClient.Schema.Resolver
import SoapClient.Table
import SoapClient.Text.Blank
import SoapClient.Text.ClassTable
import SoapClient.Text.Cut
import SoapClient.Text.Hexadecimal
import SoapClient.Text.Punycode
import SoapClient.Text.Utf8
import SoapClient.Transport.Address
import SoapClient.Transport.Basic
import SoapClient.Transport.Host
import SoapClient.Transport.Http
import SoapClient.Transport.Stub
import SoapClient.Value.Arrange
import SoapClient.Value.Check
import SoapClient.Value.Coerce
import SoapClient.Value.Mismatch
import SoapClient.Wsdl.Definitions
import SoapClient.Wsdl.Description
import SoapClient.Wsdl.Model
import SoapClient.Wsdl.Operation
import SoapClient.Wsdl.Reader
import SoapClient.Xml.Document
import SoapClient.Xml.Element
import SoapClient.Xml.Event
import SoapClient.Xml.Markup
import SoapClient.Xml.Reference
import SoapClient.Xml.Scanner
import SoapClient.Xml.Scope
import SoapClient.Xml.Value
