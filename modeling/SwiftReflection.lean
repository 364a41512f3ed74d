import SwiftReflection.Word
import SwiftReflection.Layout.Basic
import SwiftReflection.Scan.Table
import SwiftReflection.Catalog.Layouts
import SwiftReflection.Cli.Args
import SwiftReflection.Text.Utf8
import SwiftReflection.Extended.Basic
import SwiftReflection.Extended.Read
import SwiftReflection.Extended.Write
import SwiftReflection.Text.ShellQuote
import SwiftReflection.Cli.Program.Basic
import SwiftReflection.Cli.Program.Echo
import SwiftReflection.Cli.Program.Printf
import SwiftReflection.Cli.Program.Path
import SwiftReflection.Cli.Program
import SwiftReflection.Text.Hex
import SwiftReflection.Layout.Problem
import SwiftReflection.Error
import SwiftReflection.Decode.Window
import SwiftReflection.Pointer.Offset
import SwiftReflection.Names.Run
import SwiftReflection.Cli.Demangler
import SwiftReflection.Cli.Files
import SwiftReflection.Decode.Value
import SwiftReflection.Decode.Engine
import SwiftReflection.Image.Basic
import SwiftReflection.Pointer.Resolve
import SwiftReflection.Views.Basic
import SwiftReflection.Views.Fields
import SwiftReflection.Views.Context
import SwiftReflection.Views.Protocols
import SwiftReflection.Scan.Scanner
import SwiftReflection.Views.Typed
import SwiftReflection.Cli.Render
import SwiftReflection.Format.Bytes
import SwiftReflection.Format.Kind
import SwiftReflection.Format.Coff
import SwiftReflection.Format.Elf
import SwiftReflection.Format.MachO
import SwiftReflection.Format.Pe
import SwiftReflection.Format.Xcoff
import SwiftReflection.Format.Read
import SwiftReflection.Cli.Run
import SwiftReflection.Decode.Reader
import SwiftReflection.Layout.Check
import SwiftReflection.Main
import SwiftReflection.Proofs.Classification
import SwiftReflection.Proofs.Decode.Consumption
import SwiftReflection.Proofs.Decode.Encoding
import SwiftReflection.Proofs.Decode.RoundTrip
import SwiftReflection.Proofs.Decode.Locality
import SwiftReflection.Proofs.Scan.Coherence
import SwiftReflection.Proofs.Layout.Acceptance
import SwiftReflection.Proofs.Decode.Selectors
import SwiftReflection.Proofs.Decode.Bounds
import SwiftReflection.Proofs.Scan.Sections
import SwiftReflection.Proofs.Scan.Policy
import SwiftReflection.Proofs.Decode.Unmatched
import SwiftReflection.Proofs.Decode.Upfront
import SwiftReflection.Proofs.Decode.Forms
import SwiftReflection.Proofs.Views.Failures
import SwiftReflection.Proofs.Decode.Trailing
import SwiftReflection.Proofs.Decode.Placement
import SwiftReflection.Proofs.Pointer.Bits
import SwiftReflection.Proofs.Pointer.Confinement
import SwiftReflection.Proofs.Names.Pieces
import SwiftReflection.Proofs.Image.Symbols
import SwiftReflection.Proofs.Decode.FlagSets
