import BenchmarkLibs.Base.Barrier
import Mathlib.Algebra.Order.Field.Basic
import Mathlib.Data.BitVec
import Mathlib.Tactic.Linarith

/-!
# Google Benchmark's threads and their timer

`TimerManager` is shared by the threads of one try of a benchmark. `StartTimer`, `StopTimer` and
`SetIterationTime` go through its barrier, and the last thread to come takes the time; `Finalize` counts
the threads that are through and notifies `RunBenchmark`. A thread is `RunInThread`: the benchmark's
function, whatever it calls and wherever it returns, and then the statistics. What a thread calls depends
on its own `State` alone, so it is a list of calls (`runInThread`), and a try is a run of these lists over
the barrier of `Base/Barrier.lean`.
-/

namespace BenchmarkLibs.GoogleBenchmark

open Barrier

variable {K : Type}

/-- The `CHECK`s of the code that a run can come to, with what they print. -/
inductive CheckFailed
  | startTimer
  | stopTimer
  | finalize
  | keepRunning
  | maxIterations
  | threadIndex
  deriving DecidableEq

def CheckFailed.message : CheckFailed → String
  | .startTimer => "Called StartTimer when timer is already running"
  | .stopTimer => "Called StopTimer when timer is already stopped"
  | .finalize => "The timer should be stopped before the timer is finalized"
  | .keepRunning => "Benchmark returned before State::KeepRunning() returned false!"
  | .maxIterations => "At least one iteration must be run"
  | .threadIndex => "thread_index must be less than threads"

/-! ### The timer -/

/-- The fields of `TimerManager` beside those of its barrier. -/
structure TimerManager (K : Type) where
  running_ : Bool
  start_real_time_ : K
  start_cpu_time_ : K
  real_time_used_ : K
  cpu_time_used_ : K
  manual_time_used_ : K
  num_finalized_ : Nat

/-- Two numbers of type `int64_t`. -/
structure ThreadStats where
  bytes_processed : BitVec 64
  items_processed : BitVec 64
  deriving DecidableEq

/-- What the threads of a try share: the timer, `RunBenchmark`'s `total`, and the `Notification` it waits
for. -/
structure Shared (K : Type) where
  timer : TimerManager K
  total : ThreadStats
  notified_yet_ : Bool

def Shared.initial [Zero K] : Shared K where
  timer := ⟨false, 0, 0, 0, 0, 0, 0⟩
  total := ⟨0, 0⟩
  notified_yet_ := false

/-- The clocks, by the number of the step at which they are read. -/
structure Clocks (K : Type) where
  Now : Nat → K
  MyCPUUsage : Nat → K
  ChildrenCPUUsage : Nat → K

def Clocks.cpu [Add K] (clocks : Clocks K) (n : Nat) : K := clocks.MyCPUUsage n + clocks.ChildrenCPUUsage n

/-- What a thread calls; the timer is started and stopped by `KeepRunning` or by the benchmark's function itself. -/
inductive Call (K : Type)
  | startTimer (byKeepRunning : Bool)
  | stopTimer (byKeepRunning : Bool)
  | setIterationTime (seconds : K)
  | work
  | check (passed : Bool) (failed : CheckFailed)
  | addStats (bytes_processed items_processed : BitVec 64)
  | finalize

/-- `phase_number_` is an `int`. -/
def maxPhaseNumber : Nat := 2 ^ 31 - 1

section Effects

variable [AddCommGroup K] (num_threads_ : Nat) (clocks : Clocks K)

def TimerManager.internalStop (timer : TimerManager K) (n : Nat) : TimerManager K :=
  { timer with
    running_ := false
    real_time_used_ := timer.real_time_used_ + (clocks.Now n - timer.start_real_time_)
    cpu_time_used_ := timer.cpu_time_used_ + (clocks.cpu n - timer.start_cpu_time_) }

/-- What a call does to the shared data, the barrier apart. -/
def effect (call : Call K) (n : Nat) (s : Shared K) : Except CheckFailed (Shared K) :=
  match call with
  | .startTimer _ =>
    if s.timer.running_ then .error .startTimer
    else .ok { s with timer := { s.timer with
      running_ := true
      start_real_time_ := clocks.Now n
      start_cpu_time_ := clocks.cpu n } }
  | .stopTimer _ =>
    if s.timer.running_ then .ok { s with timer := s.timer.internalStop clocks n }
    else .error .stopTimer
  | .setIterationTime seconds =>
    .ok { s with timer := { s.timer with manual_time_used_ := s.timer.manual_time_used_ + seconds } }
  | .work => .ok s
  | .check passed failed => if passed then .ok s else .error failed
  | .addStats bytes items =>
    .ok { s with total := ⟨s.total.bytes_processed + bytes, s.total.items_processed + items⟩ }
  | .finalize =>
    let timer := { s.timer with num_finalized_ := s.timer.num_finalized_ + 1 }
    if timer.num_finalized_ = num_threads_ then
      if timer.running_ then .error .finalize
      else .ok { s with timer := timer, notified_yet_ := true }
    else .ok { s with timer := timer }

variable {num_threads_ clocks} {n : Nat} {s : Shared K}

theorem effect_startTimer (byKeepRunning : Bool) (h : s.timer.running_ = false) :
    effect num_threads_ clocks (.startTimer byKeepRunning) n s = .ok { s with timer := { s.timer with
      running_ := true
      start_real_time_ := clocks.Now n
      start_cpu_time_ := clocks.cpu n } } := by
  simp [effect, h]

theorem effect_stopTimer (byKeepRunning : Bool) (h : s.timer.running_ = true) :
    effect num_threads_ clocks (.stopTimer byKeepRunning) n s =
      .ok { s with timer := s.timer.internalStop clocks n } := by
  simp [effect, h]

theorem effect_finalize_last (hall : s.timer.num_finalized_ + 1 = num_threads_)
    (h : s.timer.running_ = false) :
    effect num_threads_ clocks .finalize n s = .ok { s with
      timer := { s.timer with num_finalized_ := s.timer.num_finalized_ + 1 }
      notified_yet_ := true } := by
  simp [effect, hall, h]

theorem effect_finalize (hall : s.timer.num_finalized_ + 1 ≠ num_threads_) :
    effect num_threads_ clocks .finalize n s = .ok { s with
      timer := { s.timer with num_finalized_ := s.timer.num_finalized_ + 1 } } := by
  simp [effect, hall]

end Effects

/-- The calls that go through the barrier. -/
inductive Kind
  | start (byKeepRunning : Bool)
  | stop (byKeepRunning : Bool)
  | set
  deriving DecidableEq

def Call.kind : Call K → Option Kind
  | .startTimer byKeepRunning => some (.start byKeepRunning)
  | .stopTimer byKeepRunning => some (.stop byKeepRunning)
  | .setIterationTime _ => some .set
  | _ => none

def Call.throughBarrier (call : Call K) : Bool := call.kind.isSome

/-! ### One thread -/

/-- `State`, without the fields that only `SetLabel` and the reporters use. -/
structure State where
  started_ : Bool
  total_iterations_ : Nat
  has_range_x_ : Bool
  range_x_ : Int
  has_range_y_ : Bool
  range_y_ : Int
  bytes_processed_ : BitVec 64
  items_processed_ : BitVec 64
  thread_index : Nat
  threads : Nat
  max_iterations : Nat

/-- The constructor of `State`. -/
def State.create (max_iters : Nat) (has_x : Bool) (x : Int) (has_y : Bool) (y : Int)
    (thread_i n_threads : Nat) : Except CheckFailed State :=
  if max_iters = 0 then .error .maxIterations
  else if thread_i < n_threads then .ok ⟨false, 0, has_x, x, has_y, y, 0, 0, thread_i, n_threads, max_iters⟩
  else .error .threadIndex

/-- The calls `KeepRunning` makes, what it returns, and the state after it. -/
def State.keepRunning (st : State) : List (Call K) × Bool × State :=
  let calls : List (Call K) := if st.started_ then [] else [.startTimer true]
  if st.total_iterations_ < st.max_iterations then
    (calls, true, { st with started_ := true, total_iterations_ := st.total_iterations_ + 1 })
  else (calls ++ [.stopTimer true], false, { st with started_ := true, total_iterations_ := st.max_iterations })

/-- What else a benchmark's function does with its `State`, and the work it measures. -/
inductive UserCall (K : Type)
  | work
  | pauseTiming
  | resumeTiming
  | setIterationTime (seconds : K)
  | setBytesProcessed (bytes : BitVec 64)
  | setItemsProcessed (items : BitVec 64)

def UserCall.run (st : State) : UserCall K → List (Call K) × State
  | .work => ([.work], st)
  | .pauseTiming => ([.stopTimer false], st)
  | .resumeTiming => ([.startTimer false], st)
  | .setIterationTime seconds => ([.setIterationTime seconds], st)
  | .setBytesProcessed bytes => ([], { st with bytes_processed_ := bytes })
  | .setItemsProcessed items => ([], { st with items_processed_ := items })

/-- What a function does until it returns. It may call `KeepRunning` anywhere and go on as it likes. -/
inductive Program (K : Type)
  | done
  | call (userCall : UserCall K) (next : Program K)
  | keepRunning (next : Bool → Program K)

/-- A benchmark's function: what it does with the `State` it is given. -/
def Function (K : Type) : Type := State → Program K

/-- The calls of a program, and the state after it. -/
def Program.run : Program K → State → List (Call K) × State
  | .done, st => ([], st)
  | .call userCall next, st =>
    let (calls, st) := userCall.run st
    let (more, st) := next.run st
    (calls ++ more, st)
  | .keepRunning next, st =>
    let (calls, running, st) := st.keepRunning
    let (more, st) := (next running).run st
    (calls ++ more, st)

inductive TimeUnit
  | kNanosecond
  | kMicrosecond
  | kMillisecond
  deriving DecidableEq

/-- The fields of `Benchmark::Instance` that a run reads. -/
structure Instance (K : Type) where
  benchmark : Function K
  has_arg1 : Bool
  arg1 : Int
  has_arg2 : Bool
  arg2 : Int
  time_unit : TimeUnit
  use_real_time : Bool
  use_manual_time : Bool
  min_time : K
  threads : Nat

/-- The calls of the thread `thread_id`, the constructor's checks aside. -/
def runInThread (b : Instance K) (iters thread_id : Nat) : Except CheckFailed (List (Call K)) := do
  let st ← State.create iters b.has_arg1 b.arg1 b.has_arg2 b.arg2 thread_id b.threads
  let (calls, st) := (b.benchmark st).run st
  return calls ++ [.check (st.total_iterations_ == st.max_iterations) .keepRunning,
    .addStats st.bytes_processed_ st.items_processed_, .finalize]

theorem keepRunning_of_lt {st : State} (h : st.total_iterations_ < st.max_iterations) :
    (st.keepRunning : List (Call K) × Bool × State) = (if st.started_ then [] else [.startTimer true], true,
      { st with started_ := true, total_iterations_ := st.total_iterations_ + 1 }) := by
  simp [State.keepRunning, h]

theorem keepRunning_of_le {st : State} (h : st.max_iterations ≤ st.total_iterations_) :
    (st.keepRunning : List (Call K) × Bool × State)
      = ((if st.started_ then [] else [.startTimer true]) ++ [.stopTimer true], false,
        { st with started_ := true, total_iterations_ := st.max_iterations }) := by
  simp [State.keepRunning, Nat.not_lt.mpr h]

/-- Whether a call is one that a benchmark's function can make. -/
def Call.ofFunction : Call K → Bool
  | .check _ _ => false
  | .addStats _ _ => false
  | .finalize => false
  | _ => true

theorem ofFunction_run (p : Program K) (st : State) : ∀ call ∈ (p.run st).1, call.ofFunction = true := by
  induction p generalizing st with
  | done => simp [Program.run]
  | call userCall next ih =>
    rw [Program.run, List.forall_mem_append]
    refine ⟨?_, ih _⟩
    cases userCall <;> simp [UserCall.run, Call.ofFunction]
  | keepRunning next ih =>
    rw [Program.run, List.forall_mem_append]
    refine ⟨?_, ih _ _⟩
    unfold State.keepRunning
    split_ifs <;> simp [Call.ofFunction]

end BenchmarkLibs.GoogleBenchmark
