import BundleCheck.Bundle.Basic
import BundleCheck.Bundle.Decode
import BundleCheck.Bundle.Encode
import BundleCheck.Charm
import BundleCheck.Check
import BundleCheck.Command
import BundleCheck.CommandLine
import BundleCheck.CommandLine.Grammar
import BundleCheck.Completion
import BundleCheck.Config
import BundleCheck.Constraints
import BundleCheck.Details
import BundleCheck.Double.Numeral
import BundleCheck.Double.Rounding
import BundleCheck.Double.Shortest
import BundleCheck.Failure
import BundleCheck.FilePath
import BundleCheck.FileTree
import BundleCheck.Glob
import BundleCheck.Glob.Token
import BundleCheck.Glob.WellFormed
import BundleCheck.Include
import BundleCheck.Issue
import BundleCheck.Listing
import BundleCheck.Load
import BundleCheck.MachineId
import BundleCheck.Main
import BundleCheck.Overlay
import BundleCheck.Placement
import BundleCheck.Proofs.Bundle.Machines
import BundleCheck.Proofs.Bundle.Readable
import BundleCheck.Proofs.Bundle.RoundTrip
import BundleCheck.Proofs.Bundle.Shapes
import BundleCheck.Proofs.Bundle.Units
import BundleCheck.Proofs.BundleFiles
import BundleCheck.Proofs.Charm
import BundleCheck.Proofs.Charm.Grammar
import BundleCheck.Proofs.Charm.Names
import BundleCheck.Proofs.Check.Errors
import BundleCheck.Proofs.Check.Issues
import BundleCheck.Proofs.Check.Relations
import BundleCheck.Proofs.Check.Repetition
import BundleCheck.Proofs.Check.Rules
import BundleCheck.Proofs.Check.Settings
import BundleCheck.Proofs.Check.Unused
import BundleCheck.Proofs.Constraints.Canonical
import BundleCheck.Proofs.Constraints.Order
import BundleCheck.Proofs.Constraints.Settings
import BundleCheck.Proofs.Constraints.Values
import BundleCheck.Proofs.Double
import BundleCheck.Proofs.Except
import BundleCheck.Proofs.FilePath
import BundleCheck.Proofs.FileTree
import BundleCheck.Proofs.Include
import BundleCheck.Proofs.Include.Exact
import BundleCheck.Proofs.Include.Options
import BundleCheck.Proofs.Load
import BundleCheck.Proofs.Load.Alias
import BundleCheck.Proofs.Load.Included
import BundleCheck.Proofs.Load.Layouts
import BundleCheck.Proofs.Load.Reads
import BundleCheck.Proofs.MachineId
import BundleCheck.Proofs.Overlay.Acceptance
import BundleCheck.Proofs.Overlay.Agreement
import BundleCheck.Proofs.Overlay.Alias
import BundleCheck.Proofs.Overlay.Applications
import BundleCheck.Proofs.Overlay.Contents
import BundleCheck.Proofs.Overlay.Documents
import BundleCheck.Proofs.Overlay.Entries
import BundleCheck.Proofs.Overlay.Fields
import BundleCheck.Proofs.Overlay.Frame
import BundleCheck.Proofs.Overlay.Idempotence
import BundleCheck.Proofs.Overlay.Independence
import BundleCheck.Proofs.Overlay.Keywise
import BundleCheck.Proofs.Overlay.MachineIds
import BundleCheck.Proofs.Overlay.Machines
import BundleCheck.Proofs.Overlay.Naming
import BundleCheck.Proofs.Overlay.Options
import BundleCheck.Proofs.Overlay.Origin
import BundleCheck.Proofs.Overlay.Outlines
import BundleCheck.Proofs.Overlay.Places
import BundleCheck.Proofs.Overlay.Refusals
import BundleCheck.Proofs.Overlay.Relations
import BundleCheck.Proofs.Overlay.Removal
import BundleCheck.Proofs.Overlay.Repetition
import BundleCheck.Proofs.Overlay.Sections
import BundleCheck.Proofs.Placement
import BundleCheck.Proofs.ProviderMapping.Bridges
import BundleCheck.Proofs.ProviderMapping.Entries
import BundleCheck.Proofs.ProviderMapping.Ports
import BundleCheck.Proofs.ProviderMapping.Ranges
import BundleCheck.Proofs.Relation
import BundleCheck.Proofs.Relation.Endpoints
import BundleCheck.Proofs.Render
import BundleCheck.Proofs.SortedMap
import BundleCheck.Proofs.SortedMap.Search
import BundleCheck.Proofs.Text
import BundleCheck.Proofs.Text.Base64
import BundleCheck.Proofs.Text.Utf8
import BundleCheck.Proofs.Text.Words
import BundleCheck.Proofs.Validation
import BundleCheck.Proofs.Yaml.Equality
import BundleCheck.Proofs.Yaml.Json
import BundleCheck.Proofs.Yaml.Mapping
import BundleCheck.Proofs.Yaml.Reader
import BundleCheck.Proofs.Yaml.Reading
import BundleCheck.Proofs.Yaml.Records
import BundleCheck.Proofs.Yaml.Sameness
import BundleCheck.Proofs.Yaml.Unique
import BundleCheck.ProviderMapping
import BundleCheck.Relation
import BundleCheck.Rule
import BundleCheck.SortedMap
import BundleCheck.Text.Base64
import BundleCheck.Text.Blank
import BundleCheck.Text.LetterCase
import BundleCheck.Text.Lines
import BundleCheck.Text.Numeral
import BundleCheck.Text.Printable
import BundleCheck.Text.Quoted
import BundleCheck.Text.Split
import BundleCheck.Text.Utf8
import BundleCheck.Validation
import BundleCheck.Yaml.Cursor
import BundleCheck.Yaml.Event
import BundleCheck.Yaml.Json
import BundleCheck.Yaml.Node
import BundleCheck.Yaml.Problem
import BundleCheck.Yaml.Reader
import BundleCheck.Yaml.Scalar
import BundleCheck.Yaml.Source
import BundleCheck.Yaml.Token
import BundleCheck.Yaml.Token.Property
import BundleCheck.Yaml.Token.Scalar
import BundleCheck.Yaml.Token.Scan
import BundleCheck.Yaml.Value
import BundleCheck.Yaml.Writer
