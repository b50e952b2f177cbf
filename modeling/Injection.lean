import Injection.Server
import Injection.Settings.Reader
import Injection.Proofs.Rerun
import Injection.Proofs.WriteBack
import Injection.Proofs.Isolation
import Injection.Proofs.DirectiveLines
import Injection.Proofs.Emission
import Injection.Proofs.Policies
import Injection.Proofs.Sharing
import Injection.Proofs.Teardown
import Injection.Proofs.FailedRequests
import Injection.Proofs.DirectoryFrame
import Injection.Proofs.DryRun
import Injection.Proofs.FailedStarts
import Injection.Proofs.OwnComments
import Injection.Proofs.Annotated
import Injection.Proofs.Comments
import Injection.Proofs.OneByOne
import Injection.Proofs.DirectiveSplit
import Injection.Proofs.EmittedDefaults
import Injection.Proofs.FreshNames
import Injection.Proofs.JoinedDirectives
import Injection.Proofs.OwnConstructor
import Injection.Proofs.ParameterComments
import Injection.Proofs.Traversal
