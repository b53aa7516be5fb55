import Cilk.Scheduler.Holders
import Cilk.Scheduler.Names
import Cilk.Scheduler.Locks
import Cilk.Scheduler.Linked
import Cilk.Invocation.Safety
import Cilk.Allocator.Safety
import Cilk.Labels.Resolution
import Cilk.DataFlow.Soundness
import Cilk.Barrier.Safety
import Cilk.ConstFold.Safety
import Cilk.ConstFold.Exactness
import Cilk.Symbols.Safety
import Cilk.Literals.Exactness
import Cilk.CaseLabels.Exactness
import Cilk.TypeEquality.Harmless
import Cilk.Declarators.RoundTrip
import Cilk.Layout.Exactness
import Cilk.DeclarationLists.Exactness
import Cilk.SideEffects.Exactness
import Cilk.Simplification.Preservation
import Cilk.Containers.Exactness
import Cilk.SyncFlow.Exactness
import Cilk.ResultSizes.Exactness
import Cilk.Scheduler.Aborts
import Cilk.Scheduler.Progress
import Cilk.Scheduler.Signals
import Cilk.Scheduler.Discipline
import Cilk.Scheduler.Ownership
