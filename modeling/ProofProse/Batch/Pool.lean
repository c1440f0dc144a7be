import ProofProse.Batch.Work

/-! # Workers

The inputs of a batch are handed to a pool of workers. A worker that has nothing to do takes an input
that nobody has begun, and works on it to the end. Whose operation is the next one is decided by none
of them: a schedule, a list of inputs by their numbers, says it (`Pool.play`), and any list is a
schedule. An input that cannot be gone on with, since its work is done or no worker is free, is
passed over in it. -/

namespace ProofProse.Batch

/-- An input in a pool. -/
structure Task where
  /-- Whether a worker has taken it. -/
  begun : Bool
  /-- What is left to do. -/
  work : Work FileReport

/-- A worker is busy with an input: it is begun, and there is something left to do. -/
def Task.isUnderWay (task : Task) : Bool := task.begun && task.work.result?.isNone

/-- The inputs of a batch while they are worked on, and the disk that the workers share. -/
structure Pool where
  /-- The disk. -/
  disk : Disk
  /-- The inputs, in the order in which they are listed. -/
  tasks : List Task

namespace Pool

/-- The inputs of a batch before anything is done. Each has a chance of its own, also when it is
listed twice. -/
def start (batch : BatchOptions) (chance : Nat → Path → Chance) (disk : Disk)
    (inputs : List Path) : Pool where
  disk := disk
  tasks := inputs.mapIdx fun i input => ⟨false, work batch (chance i input) input⟩

/-- How many workers are busy. -/
def busy (pool : Pool) : Nat := pool.tasks.countP Task.isUnderWay

/-- Whether an operation for the input with a number can be done: there is something left to do, and
the input has been taken, or there is a worker to take it. -/
def canMove (jobs : Nat) (pool : Pool) (i : Nat) : Bool :=
  match pool.tasks[i]? with
  | some task => task.work.result?.isNone && (task.begun || pool.busy < max jobs 1)
  | none => false

/-- The next operation for the input with a number, if it can be done. -/
def advance (jobs : Nat) (pool : Pool) (i : Nat) : Pool :=
  match pool.tasks[i]? with
  | some ⟨_, .step change next⟩ =>
    if pool.canMove jobs i then ⟨change pool.disk, pool.tasks.set i ⟨true, next pool.disk⟩⟩
    else pool
  | _ => pool

/-- Operations in the order that a schedule says. -/
def play (jobs : Nat) (pool : Pool) (schedule : List Nat) : Pool :=
  schedule.foldl (advance jobs) pool

/-- All that is left to do for the input with a number, if it can be done, while nobody else changes
the disk. -/
def finish (jobs : Nat) (pool : Pool) (i : Nat) : Pool :=
  match pool.tasks[i]? with
  | some task =>
    if pool.canMove jobs i then
      let (report, disk) := task.work.run pool.disk
      ⟨disk, pool.tasks.set i ⟨true, .done report⟩⟩
    else pool
  | none => pool

/-- The report of the input with a number, if its work is done. -/
def report? (pool : Pool) (i : Nat) : Option FileReport :=
  pool.tasks[i]?.bind fun task => task.work.result?

/-- The reports of all inputs whose work is done. -/
def reports (pool : Pool) : List FileReport := pool.tasks.filterMap fun task => task.work.result?

/-- The work on all inputs is done. -/
def IsOver (pool : Pool) : Prop := ∀ task ∈ pool.tasks, task.work.result?.isSome

end Pool

end ProofProse.Batch
