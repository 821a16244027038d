import Barscript.Text.Letter
import Barscript.Text.Blank
import Barscript.Text.Line
import Barscript.Text.Utf8
import Barscript.Decimal.Text
import Barscript.Decimal.Reader
import Barscript.Script.Lexeme
import Barscript.Script.Grammar
import Barscript.Script.Strategy
import Barscript.Indicator.Trend
import Barscript.Indicator.Volume
import Barscript.Indicator.Crossing
import Barscript.Indicator.Level
import Barscript.Series.Value
import Barscript.Market.Bar
import Barscript.Builtin.Indicators
import Barscript.Builtin.Functions
import Barscript.Trading.Report
import Barscript.Trading.Signal
import Barscript.Session.Evaluation
import Barscript.Session.Backtest
import Barscript.Report.Summary
import Barscript.Failure
import Barscript.Main
import Barscript.Proofs.Indicator.Prefix
import Barscript.Proofs.Series.Value
import Barscript.Proofs.Builtin.Arguments
import Barscript.Proofs.Builtin.Functions
import Barscript.Proofs.Builtin.Indicators
import Barscript.Proofs.Series.Span
import Barscript.Proofs.Series.Count
import Barscript.Proofs.Builtin.Causality
import Barscript.Proofs.Session.Together
import Barscript.Proofs.Session.View
import Barscript.Proofs.Session.Evaluation
import Barscript.Proofs.Session.Lockstep
import Barscript.Proofs.Session.Keeps
import Barscript.Proofs.Session.Sound
import Barscript.Proofs.Session.ViewDependence
import Barscript.Proofs.Session.Literals
import Barscript.Proofs.Session.Backtest
import Barscript.Proofs.Session.LookAhead
import Barscript.Proofs.Script.Phrase
import Barscript.Proofs.Script.Slots
import Barscript.Proofs.Script.Guard
import Barscript.Proofs.Script.Identities
import Barscript.Proofs.Session.Fresh
import Barscript.Proofs.Session.Modes
import Barscript.Proofs.Session.Transparency
import Barscript.Proofs.Bounds.Access
import Barscript.Proofs.Bounds.Columns
import Barscript.Proofs.Bounds.Calls
import Barscript.Proofs.Bounds.Evaluation
import Barscript.Proofs.Script.Spelling
import Barscript.Proofs.Script.Renumber
import Barscript.Proofs.Script.Rules
import Barscript.Proofs.Script.Extension
import Barscript.Proofs.Script.Mirror
import Barscript.Proofs.Script.Passage
import Barscript.Proofs.Script.WellFormed
import Barscript.Proofs.Script.Inert
import Barscript.Proofs.Script.Insertion
import Barscript.Proofs.Session.Ledger
import Barscript.Proofs.Session.Protocol
import Barscript.Proofs.Script.Precedence
import Barscript.Proofs.Script.Sequence
import Barscript.Proofs.Decimal.Sign
import Barscript.Proofs.Script.Origin
import Barscript.Proofs.Script.Words
import Barscript.Proofs.Script.RoundTrip
import Barscript.Proofs.Session.History
import Barscript.Proofs.Session.Registration
import Barscript.Proofs.Script.Relocation
import Barscript.Proofs.Script.Joining
import Barscript.Proofs.Session.Overriding
import Barscript.Proofs.Script.Partition
import Barscript.Proofs.Script.Places
import Barscript.Proofs.Script.Faults
import Barscript.Proofs.Script.Respacing
import Barscript.Proofs.Script.Additions
import Barscript.Proofs.Settings.Plan
import Barscript.Proofs.Market.Table
import Barscript.Proofs.Builtin.CallStyle
import Barscript.Proofs.Builtin.Sources
import Barscript.Proofs.Series.Broadcast
import Barscript.Proofs.Session.Search
import Barscript.Proofs.Session.Reentry
import Barscript.Proofs.Session.Rules
import Barscript.Proofs.Session.Recall
import Barscript.Proofs.Session.Guards
import Barscript.Proofs.Session.Expansion
import Barscript.Proofs.Session.Macros
import Barscript.Proofs.Session.Inputs
import Barscript.Proofs.Session.Warmup
import Barscript.Proofs.Session.Reordering
import Barscript.Proofs.Indicator.Crossing
import Barscript.Proofs.Series.Smoothing
import Barscript.Proofs.Trading.Drawdown
import Barscript.Proofs.Market.Loading
import Barscript.Proofs.Script.Inputs
