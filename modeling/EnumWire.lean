import EnumWire.Codec.OneByOne
import EnumWire.Codec.Reading
import EnumWire.Codec.Slot
import EnumWire.Codec.Writing
import EnumWire.Command.Analyze
import EnumWire.Command.Arguments
import EnumWire.Command.Codegen
import EnumWire.Command.Failure
import EnumWire.Command.Help
import EnumWire.Command.Load
import EnumWire.Command.Plan
import EnumWire.Data
import EnumWire.Descriptor.Arm
import EnumWire.Descriptor.Basic
import EnumWire.Descriptor.Building
import EnumWire.Descriptor.Partition
import EnumWire.Descriptor.Pool
import EnumWire.Files.Path
import EnumWire.Files.Tree
import EnumWire.Generated.ConstantValues
import EnumWire.Generated.Constants
import EnumWire.Generated.Field
import EnumWire.Generated.Message
import EnumWire.Generated.MessageSource
import EnumWire.Generated.Module
import EnumWire.Generated.ModuleTree
import EnumWire.Generated.Names
import EnumWire.Generated.Scopes
import EnumWire.Main
import EnumWire.Params
import EnumWire.Printer.Basic
import EnumWire.Printer.Printing
import EnumWire.Printer.Template
import EnumWire.Proofs.Codec.Concatenation
import EnumWire.Proofs.Codec.Dispatch
import EnumWire.Proofs.Codec.Elements
import EnumWire.Proofs.Codec.OtherEncoding
import EnumWire.Proofs.Codec.PackedRun
import EnumWire.Proofs.Codec.RecordEffect
import EnumWire.Proofs.Codec.RecordOrder
import EnumWire.Proofs.Codec.Reservations
import EnumWire.Proofs.Codec.RoundTrip
import EnumWire.Proofs.Codec.Sizes
import EnumWire.Proofs.Codec.Skipping
import EnumWire.Proofs.Command.Codegen
import EnumWire.Proofs.Command.Homes
import EnumWire.Proofs.Command.KeptModules
import EnumWire.Proofs.Command.Keywords
import EnumWire.Proofs.Command.Load
import EnumWire.Proofs.Command.ModuleFiles
import EnumWire.Proofs.Command.ModuleSources
import EnumWire.Proofs.Command.Steps
import EnumWire.Proofs.Descriptor.Building
import EnumWire.Proofs.Descriptor.Canonical
import EnumWire.Proofs.Descriptor.Resolution
import EnumWire.Proofs.Files.Making
import EnumWire.Proofs.Files.Path
import EnumWire.Proofs.Files.Tree
import EnumWire.Proofs.Generated.CaseStyle
import EnumWire.Proofs.Generated.ClosedNames
import EnumWire.Proofs.Generated.ConstantNames
import EnumWire.Proofs.Generated.ConstantValues
import EnumWire.Proofs.Generated.DispatchArms
import EnumWire.Proofs.Generated.FieldSource
import EnumWire.Proofs.Generated.Independence
import EnumWire.Proofs.Generated.Keywords
import EnumWire.Proofs.Generated.MessageSource
import EnumWire.Proofs.Generated.Module
import EnumWire.Proofs.Generated.ModuleTree
import EnumWire.Proofs.Generated.OtherEncoding
import EnumWire.Proofs.Generated.References
import EnumWire.Proofs.Generated.Scopes
import EnumWire.Proofs.Generated.Templates
import EnumWire.Proofs.Params
import EnumWire.Proofs.Printer.Blocks
import EnumWire.Proofs.Printer.Depths
import EnumWire.Proofs.Printer.Expansion
import EnumWire.Proofs.Printer.Failures
import EnumWire.Proofs.Printer.Filling
import EnumWire.Proofs.Printer.Lines
import EnumWire.Proofs.Report.Agreement
import EnumWire.Proofs.Schema.Package
import EnumWire.Proofs.Text.Blank
import EnumWire.Proofs.Text.Decimal
import EnumWire.Proofs.Traversal
import EnumWire.Proofs.Wire.Candidates
import EnumWire.Proofs.Wire.Guarded
import EnumWire.Proofs.Wire.Pending
import EnumWire.Proofs.Wire.Records
import EnumWire.Proofs.Wire.Rounds
import EnumWire.Proofs.Wire.SessionBounds
import EnumWire.Proofs.Wire.TagStream
import EnumWire.Proofs.Wire.TagWord
import EnumWire.Proofs.Wire.VarintBytes
import EnumWire.Proofs.Wire.VarintReading
import EnumWire.Proofs.Wire.VarintWriting
import EnumWire.Proofs.Wire.Written
import EnumWire.Report.Basic
import EnumWire.Report.Plain
import EnumWire.Report.Structured
import EnumWire.Schema.Package
import EnumWire.Schema.Yaml
import EnumWire.Text.Basic
import EnumWire.Text.Decimal
import EnumWire.Text.Quoted
import EnumWire.Wire.Input
import EnumWire.Wire.Lookahead
import EnumWire.Wire.Output
import EnumWire.Wire.Record
import EnumWire.Wire.Session
import EnumWire.Wire.Tag
import EnumWire.Wire.Varint
import EnumWire.Yaml.Decode
import EnumWire.Yaml.Node
import EnumWire.Yaml.Node.Stream
import EnumWire.Yaml.Quoting
import EnumWire.Yaml.Room
import EnumWire.Yaml.Scalar
import EnumWire.Yaml.Source
import EnumWire.Yaml.Token
import EnumWire.Yaml.Token.Block
import EnumWire.Yaml.Token.Flow
import EnumWire.Yaml.Token.Stream
import EnumWire.Yaml.Token.Tag
