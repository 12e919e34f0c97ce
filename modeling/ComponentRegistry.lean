import ComponentRegistry.Main
import ComponentRegistry.Proofs.Disk.Places
import ComponentRegistry.Proofs.Disk.Growth
import ComponentRegistry.Proofs.Disk.Saving
import ComponentRegistry.Proofs.Path.Joining
import ComponentRegistry.Proofs.Disk.Ways
import ComponentRegistry.Proofs.UniqueList
import ComponentRegistry.Proofs.Walk.Survey
import ComponentRegistry.Proofs.Walk.Levels
import ComponentRegistry.Proofs.Walk.Traversal
import ComponentRegistry.Proofs.Walk.Progress
import ComponentRegistry.Proofs.Walk.Faults
import ComponentRegistry.Proofs.Walk.Success
import ComponentRegistry.Proofs.Walk.Contents
import ComponentRegistry.Proofs.Walk.Cycles
import ComponentRegistry.Proofs.Generate.Keeping
import ComponentRegistry.Proofs.Generate.Schedule
import ComponentRegistry.Proofs.Generate.Runs
import ComponentRegistry.Proofs.Generate.Rerun
import ComponentRegistry.Proofs.Generate.Outputs
import ComponentRegistry.Proofs.Generate.Sources
import ComponentRegistry.Proofs.Resolver.Relative
import ComponentRegistry.Proofs.Generate.Independence
import ComponentRegistry.Proofs.Generate.Listing
import ComponentRegistry.Proofs.Generate.Telling
import ComponentRegistry.Proofs.Generate.Footprint
import ComponentRegistry.Proofs.Generate.OutputDirectory
import ComponentRegistry.Proofs.Disk.Spelling
import ComponentRegistry.Proofs.Disk.Canonical
import ComponentRegistry.Proofs.Resolver.Memory
import ComponentRegistry.Proofs.Walk.RecordPaths
import ComponentRegistry.Proofs.Resolver.Finding
import ComponentRegistry.Proofs.Walk.Resolutions
import ComponentRegistry.Proofs.Walk.Accounting
import ComponentRegistry.Proofs.Walk.Parts
import ComponentRegistry.Proofs.Walk.Mappings
import ComponentRegistry.Proofs.Json.Grammar
import ComponentRegistry.Proofs.Json.Scalars
import ComponentRegistry.Proofs.Json.Reading
import ComponentRegistry.Proofs.Json.Extras
import ComponentRegistry.Proofs.Json.Printing
import ComponentRegistry.Proofs.Manifest.WireFormat
import ComponentRegistry.Proofs.CommandLine.ExitCodes
import ComponentRegistry.Proofs.CommandLine.Output
import ComponentRegistry.Proofs.Walk.Location
import ComponentRegistry.Proofs.Walk.Presentation
import ComponentRegistry.Proofs.KeyMap
import ComponentRegistry.Proofs.Config.Precedence
import ComponentRegistry.Proofs.Config.Layers
import ComponentRegistry.Proofs.Generate.Components
import ComponentRegistry.Proofs.Path.Below
import ComponentRegistry.Proofs.Disk.Below
import ComponentRegistry.Proofs.Disk.Placement
import ComponentRegistry.Proofs.Package.Patterns
import ComponentRegistry.Proofs.Package.Matching
import ComponentRegistry.Proofs.Package.Relocation
import ComponentRegistry.Proofs.Walk.FirstFailure
import ComponentRegistry.Proofs.Generate.Acceptance
import ComponentRegistry.Proofs.Resolver.Answers
import ComponentRegistry.Proofs.Assurance
import ComponentRegistry.Proofs.Json.Ordering
import ComponentRegistry.Proofs.Resolver.MappingKeys
import ComponentRegistry.Proofs.Resolver.MappingOrder
import ComponentRegistry.Proofs.Path.Lexical
import ComponentRegistry.Proofs.Generate.ReportedPaths
import ComponentRegistry.Proofs.Resolver.Inheritance
import ComponentRegistry.Proofs.Resolver.Exports
import ComponentRegistry.Proofs.Walk.Unresolved
import ComponentRegistry.Proofs.Script.Exports
import ComponentRegistry.Proofs.Classification.BelowRoot
import ComponentRegistry.Proofs.Classification.Markup
import ComponentRegistry.Proofs.Package.Specifiers
import ComponentRegistry.Proofs.Config.Priorities
import ComponentRegistry.Proofs.Json.Pieces
import ComponentRegistry.Proofs.Json.Stripping
import ComponentRegistry.Proofs.Json.TypedReading
import ComponentRegistry.Proofs.Config.RoundTrip
import ComponentRegistry.Proofs.Walk.Calls
import ComponentRegistry.Proofs.Disk.Files
import ComponentRegistry.Proofs.Walk.Termination
import ComponentRegistry.Proofs.Walk.Consistency
