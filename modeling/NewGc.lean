import NewGc.Pass
import NewGc.Cycle
import NewGc.Client
import NewGc.Snapshots
import NewGc.Waking
import NewGc.RememberedSet
import NewGc.Buffers
import NewGc.Refusals
import NewGc.FreeList
import NewGc.Cohorts
import NewGc.Poison
import NewGc.Gates
import NewGc.LargeRuns
import NewGc.Encoding
import NewGc.PinScan
import NewGc.Entries
import NewGc.Trigger
import NewGc.SafeRuns
import NewGc.Promotion
import NewGc.Transparency
import NewGc.PinRuns
import NewGc.Survivors
import NewGc.Accounts
import NewGc.Lisp.Direct
import NewGc.Lisp.TypeSafety
import NewGc.Lisp.Render
import NewGc.Lisp.Strings
