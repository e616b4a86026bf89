import SnippetTutor.Lesson.Reader
import SnippetTutor.Main
import SnippetTutor.Proofs.Machine.Independence
import SnippetTutor.Proofs.Machine.Inlining
import SnippetTutor.Proofs.Machine.Scope
import SnippetTutor.Proofs.Machine.Work
import SnippetTutor.Proofs.Session.Console
import SnippetTutor.Proofs.Trace.Emission
import SnippetTutor.Proofs.Trace.Fault
import SnippetTutor.ScopeComparison
import SnippetTutor.Session.Subscription
import SnippetTutor.Proofs.Statement.Normal
import SnippetTutor.Proofs.Machine.Bodies
import SnippetTutor.Proofs.Machine.Collection
import SnippetTutor.Proofs.Trace.Coverage
import SnippetTutor.Proofs.Trace.Definition
import SnippetTutor.Proofs.Trace.Padding
import SnippetTutor.Proofs.Machine.Targets
import SnippetTutor.Proofs.Trace.Continuation
import SnippetTutor.Proofs.Trace.Rows
import SnippetTutor.Proofs.Trace.Export
import SnippetTutor.Proofs.Session.Completion
import SnippetTutor.Proofs.Session.Restart
import SnippetTutor.Proofs.Session.Replay
import SnippetTutor.Proofs.Session.Subscriptions
import SnippetTutor.Proofs.Narration.Truth
import SnippetTutor.Proofs.Statement.Grammar
import SnippetTutor.Proofs.Machine.ListCall
import SnippetTutor.Proofs.Machine.Convention
import SnippetTutor.Proofs.Literal.ReadBack
import SnippetTutor.Proofs.Machine.Quoted
import SnippetTutor.Proofs.Machine.Naming
import SnippetTutor.Proofs.Machine.Removal
import SnippetTutor.Proofs.Value.RoundTrip
import SnippetTutor.Proofs.Machine.Indentation
import SnippetTutor.Proofs.Trace.FirstSteps
import SnippetTutor.Proofs.Narration.Tutor
import SnippetTutor.Proofs.Machine.Sorting
import SnippetTutor.Proofs.Statement.Comment
