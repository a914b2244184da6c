import Attestation.Bytes32
import Attestation.Command
import Attestation.Command.Run
import Attestation.CommandLine.Grammar
import Attestation.CommandLine.Parser
import Attestation.Compiler.Abi
import Attestation.Compiler.BuildInfo
import Attestation.Compiler.LoadError
import Attestation.Compiler.SourceUnit
import Attestation.Compiler.TypeName
import Attestation.Compiler.TypeUnit
import Attestation.Contract.Source
import Attestation.Contract.Write
import Attestation.Declaration.Source
import Attestation.Declaration.Write
import Attestation.Dto.Field
import Attestation.Dto.Fixed
import Attestation.Dto.Source
import Attestation.Dto.Write
import Attestation.Environment
import Attestation.Failure
import Attestation.Interface.Doc
import Attestation.Interface.Extraction
import Attestation.Interface.Issue
import Attestation.Json.Basic
import Attestation.Json.Decoder
import Attestation.Json.Number
import Attestation.Json.Parser
import Attestation.Json.Printer
import Attestation.Log.Config
import Attestation.Log.Event
import Attestation.Log.Filter
import Attestation.Log.Line
import Attestation.Main
import Attestation.MemberType.Basic
import Attestation.MemberType.Parser
import Attestation.NameMap
import Attestation.NameSet
import Attestation.Notice
import Attestation.Path.Basic
import Attestation.Path.Relative
import Attestation.Program
import Attestation.Proofs.Bytes32
import Attestation.Proofs.Command.LoadFaults
import Attestation.Proofs.Compiler.Loading
import Attestation.Proofs.Compiler.Spelling
import Attestation.Proofs.Contract.Imports
import Attestation.Proofs.Contract.Resolution
import Attestation.Proofs.Dto.DependencyOrder
import Attestation.Proofs.Dto.Description
import Attestation.Proofs.Dto.Documentation
import Attestation.Proofs.Dto.Example
import Attestation.Proofs.Dto.Field
import Attestation.Proofs.Dto.SameSchema
import Attestation.Proofs.Dto.Written
import Attestation.Proofs.Interface.Acceptance
import Attestation.Proofs.Interface.Classification
import Attestation.Proofs.Interface.ParamDocs
import Attestation.Proofs.Interface.Placing
import Attestation.Proofs.Interface.Tags
import Attestation.Proofs.Json.Merged
import Attestation.Proofs.Json.Number
import Attestation.Proofs.Json.Reading
import Attestation.Proofs.MemberType.Grammar
import Attestation.Proofs.MemberType.RoundTrip
import Attestation.Proofs.MemberType.SimpleName
import Attestation.Proofs.NameMap
import Attestation.Proofs.Path.Arrival
import Attestation.Proofs.Path.Entry
import Attestation.Proofs.Path.Explicit
import Attestation.Proofs.Path.Joining
import Attestation.Proofs.Path.Parent
import Attestation.Proofs.Path.Plain
import Attestation.Proofs.Path.Specifier
import Attestation.Proofs.Record.Codec
import Attestation.Proofs.Record.Kept
import Attestation.Proofs.Record.Sparing
import Attestation.Proofs.Script.ArrayAnchor
import Attestation.Proofs.Script.ArrayFault
import Attestation.Proofs.Script.ArrayFrame
import Attestation.Proofs.Script.ArrayGrammar
import Attestation.Proofs.Script.ArrayNesting
import Attestation.Proofs.Script.ArrayReading
import Attestation.Proofs.Script.ArrayRoundTrip
import Attestation.Proofs.Script.Entries
import Attestation.Proofs.Script.ImportGaps
import Attestation.Proofs.Script.ImportLegible
import Attestation.Proofs.Script.ImportLines
import Attestation.Proofs.Script.ImportLive
import Attestation.Proofs.Script.ImportMerge
import Attestation.Proofs.Script.ImportParts
import Attestation.Proofs.Script.ImportReading
import Attestation.Proofs.Script.ImportRoundTrip
import Attestation.Proofs.Script.ImportScan
import Attestation.Proofs.Script.ImportSeam
import Attestation.Proofs.Script.MergeOrder
import Attestation.Proofs.Script.SectionReading
import Attestation.Proofs.Script.StillEntries
import Attestation.Proofs.Script.TemplateLiteral
import Attestation.Proofs.Server.Scaffolding
import Attestation.Proofs.Text.DocBlock
import Attestation.Proofs.Text.Filling
import Attestation.Proofs.Text.Pieces
import Attestation.Proofs.Text.Quotes
import Attestation.Proofs.Text.Search
import Attestation.Proofs.Text.Trim
import Attestation.Proofs.Verifier.Anchors
import Attestation.Proofs.Verifier.ArrayEdits
import Attestation.Proofs.Verifier.Between
import Attestation.Proofs.Verifier.Bystanders
import Attestation.Proofs.Verifier.Collisions
import Attestation.Proofs.Verifier.GivenName
import Attestation.Proofs.Verifier.Installation
import Attestation.Proofs.Verifier.Layout
import Attestation.Proofs.Verifier.LiveEntries
import Attestation.Proofs.Verifier.LiveImports
import Attestation.Proofs.Verifier.LocalImports
import Attestation.Proofs.Verifier.PlainNames
import Attestation.Proofs.Verifier.Regular
import Attestation.Proofs.Verifier.SameDto
import Attestation.Proofs.Verifier.Scripts
import Attestation.Proofs.Verifier.ServiceImports
import Attestation.Proofs.Verifier.ServiceSections
import Attestation.Proofs.Verifier.ServiceText
import Attestation.Proofs.Verifier.Unwiring
import Attestation.Proofs.Verifier.Wiring
import Attestation.Proofs.Verifier.WiringRun
import Attestation.Proofs.Verifier.WiringTwice
import Attestation.Proofs.Workspace.Direct
import Attestation.Proofs.Workspace.Faults
import Attestation.Proofs.Workspace.FileTree
import Attestation.Proofs.Workspace.Growth
import Attestation.Proofs.Workspace.Refilling
import Attestation.Proofs.Workspace.Requests
import Attestation.Proofs.Workspace.Run
import Attestation.Proofs.Workspace.Sound
import Attestation.Proofs.Workspace.Sparing
import Attestation.Proofs.Workspace.WorkingDirectory
import Attestation.Record.Basic
import Attestation.Record.Codec
import Attestation.Record.Load
import Attestation.Record.Write
import Attestation.Script.ArrayLiteral
import Attestation.Script.CustomSection
import Attestation.Script.EditError
import Attestation.Script.Import
import Attestation.Script.ImportBlock
import Attestation.Script.ImportMerge
import Attestation.Server.Source
import Attestation.Server.Write
import Attestation.Settings.Basic
import Attestation.Settings.Load
import Attestation.Settings.Locations
import Attestation.Text.Blank
import Attestation.Text.Comment
import Attestation.Text.Extent
import Attestation.Text.Kebab
import Attestation.Text.Quoted
import Attestation.Text.Search
import Attestation.Text.Split
import Attestation.Text.Unicode.LetterCase
import Attestation.Text.Unicode.Printable
import Attestation.Text.Unicode.Range
import Attestation.Text.Unicode.Word
import Attestation.Toml.Basic
import Attestation.Toml.Parser
import Attestation.Toml.Quoted
import Attestation.Verifier.AppModule
import Attestation.Verifier.ControllerSource
import Attestation.Verifier.Install
import Attestation.Verifier.Names
import Attestation.Verifier.Options
import Attestation.Verifier.ServiceSource
import Attestation.Workspace.FileTree
import Attestation.Workspace.Format
import Attestation.Workspace.Generated
import Attestation.Workspace.IoError
import Attestation.Workspace.Listing
import Attestation.Workspace.Plan
import Attestation.Workspace.Run
import Attestation.Workspace.Tool
import Attestation.Proofs.Path.RightInverse
import Attestation.Proofs.Script.ArrayBytes
import Attestation.Proofs.Text.Kebab
