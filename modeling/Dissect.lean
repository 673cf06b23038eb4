import Dissect.Analysis.Event
import Dissect.Analysis.File
import Dissect.Analysis.Report
import Dissect.Analysis.Schedule
import Dissect.Analysis.Summary
import Dissect.Bytes
import Dissect.Code.Call
import Dissect.Code.Decoder
import Dissect.Code.Function
import Dissect.Code.Graph
import Dissect.Code.Instruction
import Dissect.Code.Signature
import Dissect.Code.Sweep
import Dissect.CommandLine.Options
import Dissect.CommandLine.Run
import Dissect.CommandLine.Stamp
import Dissect.Decimal.Binary
import Dissect.Decimal.Fixed
import Dissect.Decimal.Shortest
import Dissect.Dependency.Basic
import Dissect.Dependency.Walk
import Dissect.Disk.Basic
import Dissect.Disk.Fault
import Dissect.Disk.Path
import Dissect.Disk.Tree
import Dissect.Document.Call
import Dissect.Document.Code
import Dissect.Document.Image
import Dissect.Document.Obfuscation
import Dissect.Document.Report
import Dissect.Document.Strings
import Dissect.Failure
import Dissect.Image.Basic
import Dissect.Image.Cursor
import Dissect.Image.Elf
import Dissect.Image.Format
import Dissect.Image.MachO
import Dissect.Image.Name
import Dissect.Image.Parse
import Dissect.Image.ParseError
import Dissect.Image.Pe
import Dissect.Image.Section
import Dissect.Json.Basic
import Dissect.Json.Number
import Dissect.Json.Print
import Dissect.Json.Read
import Dissect.Json.Record
import Dissect.Json.Source
import Dissect.Listing
import Dissect.Main
import Dissect.Numeral
import Dissect.Obfuscation.Deobfuscation
import Dissect.Obfuscation.Entropy
import Dissect.Obfuscation.Junk
import Dissect.Obfuscation.Probe
import Dissect.Obfuscation.Technique
import Dissect.Obfuscation.Xor
import Dissect.Proofs.Analysis.Interleaving
import Dissect.Proofs.Analysis.Libraries
import Dissect.Proofs.Analysis.Listing
import Dissect.Proofs.Analysis.Log
import Dissect.Proofs.Analysis.Stages
import Dissect.Proofs.Code.Arguments
import Dissect.Proofs.Code.Blocks
import Dissect.Proofs.Code.CallEncoding
import Dissect.Proofs.Code.Calls
import Dissect.Proofs.Code.Decoding
import Dissect.Proofs.Code.Flow
import Dissect.Proofs.Code.LinearSweep
import Dissect.Proofs.Code.Literals
import Dissect.Proofs.Code.Loops
import Dissect.Proofs.Code.Modes
import Dissect.Proofs.Code.Provenance
import Dissect.Proofs.Code.RelativeBranch
import Dissect.Proofs.Code.Relocation.Graph
import Dissect.Proofs.Code.Relocation.Instruction
import Dissect.Proofs.Code.Relocation.Sweep
import Dissect.Proofs.Code.SectionStart
import Dissect.Proofs.Code.SelfDelimiting
import Dissect.Proofs.Code.Span
import Dissect.Proofs.Decimal.Finite
import Dissect.Proofs.Decimal.Ratio
import Dissect.Proofs.Dependency.BreadthFirst
import Dissect.Proofs.Dependency.Cache
import Dissect.Proofs.Dependency.Confinement
import Dissect.Proofs.Dependency.Walk
import Dissect.Proofs.Disk.Place
import Dissect.Proofs.Disk.Tree
import Dissect.Proofs.Disk.Write
import Dissect.Proofs.Image.Acceptance
import Dissect.Proofs.Image.Elf.RoundTrip
import Dissect.Proofs.Image.MachO.Placement
import Dissect.Proofs.Image.MachO.RoundTrip
import Dissect.Proofs.Image.MachO.SectionCount
import Dissect.Proofs.Image.MachO.Universal
import Dissect.Proofs.Image.Overlay
import Dissect.Proofs.Image.Pe.EntryPoint
import Dissect.Proofs.Image.Pe.Header
import Dissect.Proofs.Image.Pe.Imports
import Dissect.Proofs.Image.Pe.RoundTrip
import Dissect.Proofs.Image.Reading
import Dissect.Proofs.Image.Records
import Dissect.Proofs.Image.Steps
import Dissect.Proofs.Image.Writing
import Dissect.Proofs.Json.Number
import Dissect.Proofs.Json.RoundTrip
import Dissect.Proofs.Obfuscation.Decryption
import Dissect.Proofs.Obfuscation.Detection
import Dissect.Proofs.Obfuscation.Junk
import Dissect.Proofs.Obfuscation.KeySearch
import Dissect.Proofs.Obfuscation.Landing
import Dissect.Proofs.Obfuscation.Techniques
import Dissect.Proofs.Settings.Reload
import Dissect.Proofs.Strings.Extraction
import Dissect.Proofs.Strings.MaximalRuns
import Dissect.Proofs.Strings.Runs
import Dissect.Proofs.Text.Sorted
import Dissect.Proofs.Text.Utf8
import Dissect.Settings.Basic
import Dissect.Settings.Check
import Dissect.Settings.Document
import Dissect.Settings.File
import Dissect.Stage
import Dissect.Strings.Extract
import Dissect.Strings.Kind
import Dissect.Strings.Run
import Dissect.Text.Blank
import Dissect.Text.CaseRanges
import Dissect.Text.Caseless
import Dissect.Text.Digit
import Dissect.Text.Lower
import Dissect.Text.Named
import Dissect.Text.Part
import Dissect.Text.Ranges
import Dissect.Text.Sorted
import Dissect.Text.Utf8
import Dissect.Word
