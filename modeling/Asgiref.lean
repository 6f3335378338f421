import Asgiref.Lib.Machine
import Asgiref.Lib.Inevitable
import Asgiref.Lib.Simulation
import Asgiref.Lib.CopyLoop
import Asgiref.Lib.Queue
import Asgiref.Lib.Dict
import Asgiref.Lib.Heap
import Asgiref.Lib.Joined
import Asgiref.Lib.Recency
import Asgiref.Lib.Fifo
import Asgiref.Lib.Diverges
import Asgiref.Python.Basic
import Asgiref.Python.Future
import Asgiref.Python.Task
import Asgiref.Python.Str
import Asgiref.Python.Codec
import Asgiref.Python.Utf8
import Asgiref.Python.File
import Asgiref.CurrentThreadExecutor.Model
import Asgiref.CurrentThreadExecutor.Invariant
import Asgiref.CurrentThreadExecutor.Conservation
import Asgiref.CurrentThreadExecutor.Wakeup
import Asgiref.CurrentThreadExecutor.Submit
import Asgiref.CurrentThreadExecutor.Linearizable
import Asgiref.CurrentThreadExecutor.Locks
import Asgiref.CurrentThreadExecutor.Refinement
import Asgiref.CurrentThreadExecutor.Asleep
import Asgiref.CurrentThreadExecutor.Rest
import Asgiref.Local
import Asgiref.Sync.RestoreContext
import Asgiref.Sync.ExactRestore
import Asgiref.Sync.ChooseExecutor
import Asgiref.Local.Heap
import Asgiref.Local.Isolation
import Asgiref.AsyncToSync.Model
import Asgiref.AsyncToSync.HandBack
import Asgiref.AsyncToSync.Resolved
import Asgiref.SyncToAsync.Cancellation
import Asgiref.SyncToAsync.CancelledSteps
import Asgiref.SyncToAsync.CancelledEnd
import Asgiref.SyncToAsync.CancelledOutcome
import Asgiref.SyncToAsync.ThreadHandler
import Asgiref.SyncToAsync.Enclosing
import Asgiref.SyncToAsync.OwnLoop
import Asgiref.SyncToAsync.Forks
import Asgiref.Sync.Visibility
import Asgiref.Local.Recycled
import Asgiref.Local.Objects
import Asgiref.Local.Critical
import Asgiref.Local.Namespace
import Asgiref.Sync.CustomContext
import Asgiref.Sync.Transparency
import Asgiref.Sync.Transparent
import Asgiref.Sync.ExcInfo
import Asgiref.Sync.Calls
import Asgiref.Sync.DeadlockDetector
import Asgiref.Sync.Affinity
import Asgiref.Sync.SensitiveContext
import Asgiref.Sync.ContextManagers
import Asgiref.AsyncSingleThread.Model
import Asgiref.AsyncSingleThread.Steps
import Asgiref.AsyncSingleThread.Deadlock
import Asgiref.AsyncSingleThread.Waiting
import Asgiref.AsyncSingleThread.Places
import Asgiref.AsyncSingleThread.Finish
import Asgiref.Wsgi.StartResponse
import Asgiref.Wsgi.ContentLength
import Asgiref.Wsgi.RunWsgiApp
import Asgiref.Wsgi.ResponseStream
import Asgiref.Wsgi.Environ
import Asgiref.Wsgi.PathInfo
import Asgiref.Wsgi.HeaderEntries
import Asgiref.Wsgi.HeaderCase
import Asgiref.Wsgi.HeaderFolding
import Asgiref.Wsgi.DuplicateLimit
import Asgiref.Wsgi.Conversation
import Asgiref.Wsgi.Exchange
import Asgiref.Wsgi.Agreement
import Asgiref.Wsgi.HeaderRoundTrip
import Asgiref.Server.StatelessServer
import Asgiref.Server.Tasks
import Asgiref.Server.Capacity
import Asgiref.Server.Arun
import Asgiref.Server.LeastRecentlyUsed
import Asgiref.Server.Routing
import Asgiref.Timeouts.Model
import Asgiref.Timeouts.Invariant
import Asgiref.Timeouts.Blocks
import Asgiref.Testing.ApplicationCommunicator
import Asgiref.Testing.Channels
import Asgiref.Testing.Calls
