import Conformance.Dialect.Family
import Conformance.Harness.Scripted
import Conformance.Harness.Suite
import Conformance.Manifest
import Conformance.Proofs.Outline
import Conformance.Proofs.Balance
import Conformance.Dialect.Session
import Conformance.Proofs.Idle
import Conformance.Proofs.Placing
import Conformance.Proofs.Spelling
import Conformance.Proofs.Reading
import Conformance.Proofs.Derivations
import Conformance.Proofs.Verdict
import Conformance.Proofs.Reread
import Conformance.Proofs.RoundTrip
import Conformance.Proofs.Assertions
import Conformance.Proofs.Yielding
import Conformance.Proofs.Rules
import Conformance.Proofs.Adequacy
import Conformance.Proofs.Consumption
import Conformance.Proofs.Completeness
import Conformance.Proofs.Acceptance
import Conformance.Proofs.Revisions
import Conformance.Proofs.Nodes
import Conformance.Proofs.Attachment
import Conformance.Proofs.Scoping
import Conformance.Proofs.Resolution
import Conformance.Proofs.Locations
import Conformance.Proofs.Mentions
import Conformance.Proofs.Probes
import Conformance.Proofs.History
import Conformance.Proofs.Ambiguities
import Conformance.Proofs.Layout
import Conformance.Proofs.Composition
import Conformance.Proofs.StaticRules
import Conformance.Proofs.Visits
import Conformance.Proofs.Suites
import Conformance.Proofs.Reports
import Conformance.Proofs.Markings
import Conformance.Proofs.Decoding
import Conformance.Proofs.Drawing
import Conformance.Proofs.Gaps
import Conformance.Proofs.Precedence
import Conformance.Proofs.Words
import Conformance.Proofs.Spaces
import Conformance.Proofs.Receivers
import Conformance.Proofs.Renesting
import Conformance.Proofs.Commands
import Conformance.Proofs.Numbered
import Conformance.Proofs.Ordinary
import Conformance.Proofs.Numerals
import Conformance.Proofs.Highlights
import Conformance.Proofs.Writing
import Conformance.Proofs.Answers
import Conformance.Proofs.Searches
import Conformance.Proofs.Paths
import Conformance.Proofs.Malformed
import Conformance.Proofs.Strings
import Conformance.Proofs.Abandoned
import Conformance.Proofs.Progress
import Conformance.Proofs.Brackets
