import ComponentTags.Text.Case
import ComponentTags.Text.Numeric
import ComponentTags.Text.Quoted
import ComponentTags.Text.Piece
import ComponentTags.Table
import ComponentTags.Name
import ComponentTags.Attribute.Shorthand
import ComponentTags.Attribute.Token
import ComponentTags.Echo
import ComponentTags.CodeBlock
import ComponentTags.Attribute.Parse
import ComponentTags.Tag.Scan
import ComponentTags.Tag.Kinds
import ComponentTags.Digest
import ComponentTags.Compile.Template
import ComponentTags.Config.Load
import ComponentTags.File.Views
import ComponentTags.Main
import ComponentTags.Proofs.Backtracking
import ComponentTags.Proofs.Group
import ComponentTags.Proofs.Reading
import ComponentTags.Proofs.Shorthand
import ComponentTags.Proofs.AttributeSyntax
import ComponentTags.Proofs.Recognition
import ComponentTags.Proofs.Replacing
import ComponentTags.Proofs.Written
import ComponentTags.Proofs.Expansion
import ComponentTags.Proofs.RoundTrip
import ComponentTags.Proofs.Quiet
import ComponentTags.Proofs.Directives
import ComponentTags.Proofs.TagAttribute
import ComponentTags.Proofs.Node
import ComponentTags.Proofs.Homomorphism
import ComponentTags.Proofs.Strictness
import ComponentTags.Proofs.ClassNames
import ComponentTags.Proofs.Resolution
import ComponentTags.Proofs.Emission
import ComponentTags.Proofs.Marks
import ComponentTags.Proofs.Nesting
import ComponentTags.Proofs.Unpaired
import ComponentTags.Proofs.Framing
import ComponentTags.Proofs.FramedTag
import ComponentTags.Proofs.Frame
import ComponentTags.Proofs.PlainText
import ComponentTags.Proofs.BoundNames
import ComponentTags.Proofs.ViewFiles
import ComponentTags.Proofs.StringLiteral
import ComponentTags.Proofs.AnonymousPaths
import ComponentTags.Proofs.Occurrences
import ComponentTags.Proofs.ShortForms
import ComponentTags.Proofs.Settling
import ComponentTags.Proofs.Verbatim
import ComponentTags.Proofs.TagSpans
import ComponentTags.Proofs.EchoParts
import ComponentTags.Proofs.Parted
import ComponentTags.Proofs.Separators
import ComponentTags.Proofs.CodeSegments
import ComponentTags.Proofs.Concatenation
import ComponentTags.Proofs.CamelKeys
import ComponentTags.Proofs.LiveKeys
import ComponentTags.Proofs.ClassParameters
import ComponentTags.Proofs.ConfigChecks
import ComponentTags.Proofs.ViewDump
import ComponentTags.Proofs.AddedPlaces
import ComponentTags.Proofs.Calls
import ComponentTags.Proofs.GroupPlaces
import ComponentTags.Proofs.SearchOrder
import ComponentTags.Proofs.ClosingTags
import ComponentTags.Proofs.CompileCommand
