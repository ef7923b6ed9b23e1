import TestTree.CommandLine.Directory
import TestTree.Event.Outline
import TestTree.Event.Queue
import TestTree.Event.ServiceMessage.Reader
import TestTree.Main
import TestTree.Text.Utf8.Lemmas
import TestTree.Proofs.Nesting
import TestTree.Proofs.Places
import TestTree.Proofs.Transition
import TestTree.Proofs.Location.Identifiers
import TestTree.Proofs.Banner
import TestTree.Proofs.Console.Counts
import TestTree.Proofs.Console.EventLines
import TestTree.Proofs.Console.Faults
import TestTree.Proofs.Console.Parts
import TestTree.Proofs.Console.Passthrough
import TestTree.Proofs.Console.Deletion
import TestTree.Proofs.Console.Transcript
import TestTree.Proofs.Json.Arrangement
import TestTree.Proofs.Report.Compile
import TestTree.Proofs.Report.Failure
import TestTree.Proofs.Report.ReadBack
import TestTree.Proofs.Text.Utf8
import TestTree.Proofs.Label.Decode
import TestTree.Proofs.Label.Spelling
import TestTree.Proofs.RunnerRecords
import TestTree.Proofs.Json.Agreement
import TestTree.Proofs.Report.Members
import TestTree.Proofs.Json.Forms
import TestTree.Proofs.Report.Problems
import TestTree.Proofs.Report.Records
import TestTree.Proofs.Report.Site
import TestTree.Proofs.Json.Place
import TestTree.Proofs.Report.Rewording
import TestTree.Proofs.CompilerReports
import TestTree.Proofs.Json.Parsed
import TestTree.Proofs.Report.Comparison
import TestTree.Proofs.FailedTests
import TestTree.Proofs.Path.Built
import TestTree.Proofs.Titles
import TestTree.Proofs.Path.Ancestry
