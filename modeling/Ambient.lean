import Ambient.Text.Blank
import Ambient.Text.Word
import Ambient.Text.Digit
import Ambient.Text.Quoted
import Ambient.Text.Lines
import Ambient.Number.Written
import Ambient.Json.Printer
import Ambient.Json.Reader
import Ambient.TypeExpr.Resolve
import Ambient.Yaml.Document
import Ambient.Doclet.Build
import Ambient.Doclet.Table
import Ambient.Page
import Ambient.Notice
import Ambient.Keyed
import Ambient.Document
import Ambient.CommandLine.Basic
import Ambient.Disk
import Ambient.FileSystem
import Ambient.Host
import Ambient.Doclet.Dump
import Ambient.CommandLine.Converter
import Ambient.Conversion
import Ambient.Pipeline
import Ambient.Main
import Ambient.Proofs.TypeExpr.RoundTrip
import Ambient.Proofs.TypeExpr.Completeness
import Ambient.Proofs.TypeExpr.Lossless
import Ambient.Proofs.TypeExpr.Markers
import Ambient.Proofs.TypeExpr.Cursor
import Ambient.Proofs.TypeExpr.Grouping
import Ambient.Proofs.Traversal
import Ambient.Proofs.Nesting.Document
import Ambient.Proofs.Script.Placement
import Ambient.Proofs.Script.Wrapping
import Ambient.Proofs.Script.Frame
import Ambient.Proofs.Script.WriteOnce
import Ambient.Proofs.Script.ObjectShape
import Ambient.Proofs.Twin.Comments
import Ambient.Proofs.Completion
import Ambient.Proofs.Script.CommentLines
import Ambient.Proofs.Script.Alternatives
import Ambient.Proofs.Signature.Parameters
import Ambient.Proofs.Signature.Rest
import Ambient.Proofs.Script.LinePrinter
import Ambient.Proofs.Options.Precedence
import Ambient.Proofs.Pipeline
import Ambient.Proofs.Conversion
