import CodeConductor.Runtime.Reconciler

/-!
# The systems the runtime is part of

Every call is one thread of the pool; what it returns is dropped. Two systems differ only in the
calls made from outside: `conductorSystem` has any number of `Conductor` instances over one data root
whose operations anybody may call, `runtimeSystem` has dispatchers, owners and surroundings. A dead
process makes no calls, and its identity is not used again.
-/

namespace CodeConductor

open Async Async.Prog

/-- The computation of a call. -/
def runCall (process thread : ℕ) (call : RuntimeCall) : Runtime Unit :=
  let self : Self := ⟨process, thread⟩
  match call with
  | .changeOutside outside => .modify .outside fun w ↦ { w with outside := outside }
  | .failStorage failure => .modify .outside fun w ↦ { w with failure := failure }
  | .reservePreparedAttempt jobId parents operation => do
    let _ ← Conductor.reservePreparedAttempt jobId parents operation
    return ()
  | .claimReservedAttempt attemptId operation => do
    let _ ← Conductor.claimReservedAttempt self attemptId operation
    return ()
  | .launchClaimedAttempt attemptId operation => do
    let _ ← Conductor.launchClaimedAttempt self attemptId operation
    return ()
  | .startReservedAttempt attemptId operation => do
    let _ ← Conductor.startReservedAttempt self attemptId operation
    return ()
  | .cancelAttempt attemptId => do
    let _ ← Conductor.cancelAttempt self attemptId
    return ()
  | .cancelReservedAttempt attemptId => do
    let _ ← Conductor.cancelReservedAttempt self attemptId
    return ()
  | .recoverInterruptedAttempt attemptId => do
    let _ ← Conductor.recoverInterruptedAttempt self attemptId
    return ()
  | .enqueue contract options => do
    let _ ← Dispatcher.enqueue contract options
    return ()
  | .submit contract options fuel => do
    let _ ← Dispatcher.submit self contract options fuel
    return ()
  | .start fuel => Dispatcher.start self fuel
  | .stop cancelActive => Dispatcher.stop self cancelActive
  | .runUntilIdle fuel => Dispatcher.runUntilIdle self fuel
  | .cancel jobId => do
    let _ ← Dispatcher.cancel self jobId
    return ()
  | .retry jobId => do
    let _ ← Dispatcher.retry self jobId
    return ()
  | .reconcile choice => Reconciler.reconcile self choice
  | .executeAttempt contract manifest operation =>
    Conductor.runExecution self contract manifest operation
  | .executeItem item => Dispatcher.runExecution self item
  | .runLoop fuel => Dispatcher.runLoopPromise self fuel

/-- What the death of a process destroys. -/
def World.crash (process : ℕ) (w : World) : World :=
  { w with
    dead := process :: w.dead
    conductor := Function.update w.conductor process {}
    dispatcher := Function.update w.dispatcher process {}
    leaseThread := if w.lease.any (·.process = process) then none else w.leaseThread }

/-- A configuration of the runtime. -/
abbrev RuntimeConfig := Config RuntimeStep World RuntimeCall RuntimeError Unit ℕ

/-- The runtime with the calls `offered` made from outside. -/
def systemOf (offered : RuntimeCall → Bool) :
    System RuntimeStep World RuntimeCall RuntimeError Unit ℕ where
  body := runCall
  entry process call w := process ∉ w.dead && offered call
  crash := World.crash

/-- The operations of a conductor on attempts. -/
def isConductorCall : RuntimeCall → Bool
  | .changeOutside _ | .failStorage _ | .reservePreparedAttempt .. | .claimReservedAttempt ..
  | .launchClaimedAttempt .. | .startReservedAttempt .. | .cancelAttempt _
  | .cancelReservedAttempt _ | .recoverInterruptedAttempt _ => true
  | _ => false

/-- What dispatchers, owners and the surroundings do. -/
def isDispatcherCall : RuntimeCall → Bool
  | .changeOutside _ | .failStorage _ | .enqueue .. | .submit .. | .start _ | .stop _
  | .runUntilIdle _ | .cancel _ | .retry _ | .reconcile _ => true
  | _ => false

/-- Conductors over one data root. -/
def conductorSystem : System RuntimeStep World RuntimeCall RuntimeError Unit ℕ :=
  systemOf isConductorCall

/-- Dispatchers and owners over one data root. -/
def dispatcherSystem : System RuntimeStep World RuntimeCall RuntimeError Unit ℕ :=
  systemOf isDispatcherCall

/-- A world with nothing in its stores but the contracts of the jobs. -/
def World.empty (contracts : List JobContract) (outside : Outside) : World where
  contracts := contracts
  outside := outside

end CodeConductor
