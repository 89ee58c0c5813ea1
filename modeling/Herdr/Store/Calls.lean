import Herdr.Lib.Run
import Herdr.Store.Scheduler
import Herdr.Store.WorkerTermination

/-!
# Calls of the lifecycle

One constructor for each store method, with its arguments and what it reads outside the store.
`exec` answers a call: a method that fails is rolled back. Interleavings of any number of
clients are lists of calls.
-/

namespace Herdr

/-- The store methods of the launch lifecycle. -/
inductive Method where
  | claimOperation (id : OperationId) (expected : Nat) (owner : String) (now leaseMs : Int)
      (creation : Option LaunchPreparation)
  | validateClaim (claim : Claim) (now : Int)
  | finishOperation (claim : Claim) (outcome : Outcome) (now : Int)
  | expireClaims (now : Int)
  | observeOperation (id : OperationId) (expected : Nat) (actor : String) (outcome : Outcome)
      (now : Int)
  | retireOperation (id : OperationId) (expectedRevision expectedHead : Nat) (reason : String)
      (now : Int)
  | continueWorktreeLaunchCreation (claim : Claim) (intent : LaunchCreationIntent) (now : Int)
  | recordLaunchWorkspace (claim : Claim) (target : LaunchTarget) (now : Int)
  | recordLaunchLayout (claim : Claim) (workspace : LaunchTarget) (now : Int)
  | observeLaunchWorkspace (target : LaunchTarget) (expectedRevision expectedHead : Nat)
      (now : Int)
  | recordLaunchTarget (claim : Claim) (target : LaunchTarget) (now : Int)
  | observeLaunchTarget (target : LaunchTarget) (expectedRevision expectedHead : Nat) (now : Int)
  | recordLaunchRelease (claim : Claim) (intent : LaunchReleaseIntent) (now : Int)
  | recordLaunchName (claim : Claim) (intent : LaunchReleaseIntent) (now : Int)
  | recordLaunchStarted (claim : Claim) (receipt : LaunchStartedReceipt) (now : Int)
  | observeLaunchStarted (receipt : LaunchStartedReceipt) (expectedRevision expectedHead : Nat)
      (now : Int)
  | recordLaunchStopped (receipt : LaunchStoppedReceipt) (expectedRevision expectedHead : Nat)
      (now : Int)
  | recordWorkerTermination (receipt : WorkerTerminationReceipt)
      (expectedRevision expectedHead : Nat) (now : Int)
  | requestCompletion (id : TaskId) (expectedRevision : Nat) (now : Int)
  | admitPrepared (prepared : List LaunchInputs) (expectedHead : Nat) (now : Int) (draft : Bool)
      (delegated : Option PreparedDelegatedReservation)
  | cancelAttempt (id : AttemptId) (expectedRevision expectedHead : Nat) (reason : String)
      (now : Int)
  | queueTask (id : TaskId) (revision expectedHead : Nat) (request : QueueRequest) (now : Int)
  | setSchedulerPolicy (expectedHead revision maxActiveWorkers maxAttemptsPerTask : Nat)
deriving DecidableEq, Repr

/-- What a method answers. -/
inductive Response where
  | unit
  | claim (claim : Claim)
  | delivery (delivery : Delivery)
  | count (n : Nat)
  | head (head : Nat)
  | attempt (attempt : Attempt)
  | reservation (result : Option Reservation)
  | cancellation (change : CancellationChange)
  | completion (change : CompletionChange)
deriving DecidableEq, Repr

structure Call where
  method : Method
  outside : Outside

variable [Digests]

/-- The transaction body of a method. -/
def Method.body (env : Outside) : Method → Body Response
  | .claimOperation id expected owner now leaseMs creation =>
    .claim <$> claimWithCreation env id expected owner now leaseMs creation
  | .validateClaim claim now => (fun _ => .unit) <$> Herdr.validateClaim env claim now
  | .finishOperation claim outcome now =>
    .delivery <$> Herdr.finishOperation env claim outcome now
  | .expireClaims now => .count <$> Herdr.expireClaims env now
  | .observeOperation id expected actor outcome now =>
    .delivery <$> Herdr.observeOperation env id expected actor outcome now
  | .retireOperation id revision head reason now =>
    .delivery <$> Herdr.retireOperation env id revision head reason now
  | .continueWorktreeLaunchCreation claim intent now =>
    (fun _ => .unit) <$> Herdr.continueWorktreeLaunchCreation env claim intent now
  | .recordLaunchWorkspace claim target now =>
    .head <$> Herdr.recordLaunchWorkspace env claim target now
  | .recordLaunchLayout claim workspace now =>
    .head <$> Herdr.recordLaunchLayout env claim workspace now
  | .observeLaunchWorkspace target revision head now =>
    .head <$> Herdr.observeLaunchWorkspace env target revision head now
  | .recordLaunchTarget claim target now =>
    .head <$> Herdr.recordLaunchTarget env claim target now
  | .observeLaunchTarget target revision head now =>
    .head <$> Herdr.observeLaunchTarget env target revision head now
  | .recordLaunchRelease claim intent now =>
    .head <$> Herdr.recordLaunchRelease env claim intent now
  | .recordLaunchName claim intent now =>
    .head <$> Herdr.recordLaunchName env claim intent now
  | .recordLaunchStarted claim receipt now =>
    .delivery <$> Herdr.recordLaunchStarted env claim receipt now
  | .observeLaunchStarted receipt revision head now =>
    .delivery <$> Herdr.observeLaunchStarted env receipt revision head now
  | .recordLaunchStopped receipt revision head now =>
    .attempt <$> Herdr.recordLaunchStopped env receipt revision head now
  | .recordWorkerTermination receipt revision head now =>
    .attempt <$> Herdr.recordWorkerTermination env receipt revision head now
  | .requestCompletion id revision now =>
    .completion <$> Herdr.requestCompletion env id revision now
  | .admitPrepared prepared head now draft delegated =>
    .reservation <$> Herdr.admitPrepared env prepared head now draft delegated
  | .cancelAttempt id revision head reason now =>
    .cancellation <$> Herdr.cancelAttempt env id revision head reason now
  | .queueTask id revision head request now =>
    .head <$> Herdr.queueTask env id revision head request now
  | .setSchedulerPolicy head revision workers attempts =>
    .head <$> Herdr.setSchedulerPolicy env head revision workers attempts

/-- Answer one call. -/
def exec (c : Call) (s : Store) : Except StoreError Response × Store :=
  (c.method.body c.outside).commit s

/-- A run of the store under calls from any number of clients. -/
abbrev StoreRun := Run Store Call (Except StoreError Response)

/-- The run that answers `cs` from `s`. -/
def runFrom (s : Store) (cs : List Call) : StoreRun := (Run.start s).calls exec cs

end Herdr
