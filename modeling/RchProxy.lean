import RchProxy.Py.Text
import RchProxy.Py.Str
import RchProxy.Py.Infix
import RchProxy.Py.Json
import RchProxy.Py.JsonRoundTrip
import RchProxy.Py.JsonSize
import RchProxy.Py.Hashlib
import RchProxy.Lib.Tiles
import RchProxy.Lib.Regex
import RchProxy.Lib.Meter
import RchProxy.Lib.Prog
import RchProxy.Lib.Fs
import RchProxy.Framing.Basic
import RchProxy.Framing.Framer
import RchProxy.Framing.Scan
import RchProxy.Framing.Refine
import RchProxy.Framing.Log
import RchProxy.Framing.Tiling
import RchProxy.Framing.Grammar
import RchProxy.Framing.Segmentation
import RchProxy.Receipt.Model
import RchProxy.Receipt.Commands
import RchProxy.Receipt.Assembler
import RchProxy.Receipt.Dispatch
import RchProxy.Receipt.Shape
import RchProxy.Receipt.Order
import RchProxy.Receipt.Fill
import RchProxy.Receipt.Isolation
import RchProxy.Receipt.Copies
import RchProxy.Receipt.Result
import RchProxy.Receipt.Records
import RchProxy.Receipt.Analysis
import RchProxy.Receipt.Tidy
import RchProxy.Receipt.Limits
import RchProxy.Parser.Subtype
import RchProxy.Parser.Timeline
import RchProxy.Config
import RchProxy.Capture.Job
import RchProxy.Storage.Timeline
import RchProxy.Storage.Live
import RchProxy.Storage.Manifest
import RchProxy.Storage.Flush
import RchProxy.Capture.Recorder
import RchProxy.Capture.Control
import RchProxy.Capture.Complete
import RchProxy.Capture.Stranded
import RchProxy.Capture.Bare
import RchProxy.Capture.Stream
import RchProxy.Capture.Arrivals
import RchProxy.Parser.Dating
import RchProxy.Storage.Atomic
import RchProxy.Storage.Load
import RchProxy.Framing.Carry
import RchProxy.Framing.Resync
import RchProxy.Receipt.Ownership
import RchProxy.Receipt.Chunks
import RchProxy.Storage.Tamper
import RchProxy.Settings.Contract
import RchProxy.Parser.Evidence
import RchProxy.Capture.Kept
import RchProxy.Lib.RegexRuns
import RchProxy.Py.Decimal
import RchProxy.Receipt.Amounts
import RchProxy.Receipt.Entries
import RchProxy.Receipt.Moves
import RchProxy.Receipt.Lifecycle
import RchProxy.Parser.CopyOf
import RchProxy.Receipt.Totals
import RchProxy.Receipt.Budget
import RchProxy.Receipt.Cut
import RchProxy.Receipt.Silence
import RchProxy.Receipt.Numbers
import RchProxy.Receipt.Printed
import RchProxy.Receipt.Bounded
import RchProxy.Parser.Stems
import RchProxy.Capture.Consistent
import RchProxy.Parser.Accounting
import RchProxy.Parser.Accepted
import RchProxy.Storage.Together
import RchProxy.Storage.Reload
import RchProxy.Parser.Once
import RchProxy.Parser.Handover
import RchProxy.Parser.Markers
