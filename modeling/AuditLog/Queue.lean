import AuditLog.Field
import AuditLog.Record

/-! Records waiting to be written. Taking a batch and writing it are separate steps, so
records may be submitted between them; a batch whose write fails is not put back. -/
namespace AuditLog

structure Queue where
  pending : List Record
deriving Inhabited

namespace Queue

def empty : Queue := ⟨[]⟩

/-- A record of an event, which keeps a time of creation that it has already. -/
def stamped (now : Instant) (event : String) (data : Record) : Record :=
  let named := Record.set data Field.event (.text event)
  if (Record.get? named Field.created).isSome then named
  else Record.set named Field.created (.instant now)

def submit (queue : Queue) (now : Instant) (event : String) (data : Record) : Queue :=
  ⟨queue.pending ++ [stamped now event data]⟩

def size (queue : Queue) : Nat := queue.pending.length

def take (queue : Queue) : List Record × Queue := (queue.pending, empty)

/-- Takes a batch and hands it to `write`, which sees no empty batch. The result is the
number of records taken, or the failure of the write. -/
def flush {σ ε : Type} (queue : Queue) (write : σ → List Record → σ × Option ε) (s : σ) :
    Queue × σ × Except ε Nat :=
  match queue.take with
  | ([], queue) => (queue, s, .ok 0)
  | (batch, queue) =>
    match write s batch with
    | (s, none) => (queue, s, .ok batch.length)
    | (s, some e) => (queue, s, .error e)

end Queue

/-- A task that flushes at every tick. It reads the stop signal before it flushes, and a
tick that saw the signal is its last. -/
structure FlushTask where
  stopping : Bool
  ended : Bool
deriving DecidableEq

namespace FlushTask

def started : FlushTask := ⟨false, false⟩

def stop (task : FlushTask) : FlushTask := { task with stopping := true }

def tick {σ ε : Type} (task : FlushTask) (queue : Queue)
    (write : σ → List Record → σ × Option ε) (s : σ) : FlushTask × Queue × σ :=
  if task.ended then (task, queue, s)
  else
    let (queue, s, _) := queue.flush write s
    ({ task with ended := task.stopping }, queue, s)

end FlushTask
end AuditLog
