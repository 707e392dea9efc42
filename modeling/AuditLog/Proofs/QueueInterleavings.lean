import AuditLog.Queue
import Mathlib.Data.List.Induction
import Mathlib.Data.List.Perm.Basic

/-! Submissions, flushes and a flush task on one queue, step by step and in any order. A flush lets
go of the queue before it calls the handler with what it took, so taking, handing over and the end of
the write, with whatever outcome, are three steps, and other threads may come between them. So is the
task's reading of the stop signal a step, which comes before it takes. -/
namespace AuditLog.Intake

/-- A call of the handler: its records and the number of their batch among those taken. -/
structure Write where
  number : Nat
  records : List Record

/-- The handler is called for no empty batch. -/
def Write.of? (number : Nat) (batch : List Record) : Option Write :=
  if batch.isEmpty then none else some ⟨number, batch⟩

theorem Write.of?_eq_some {number : Nat} {batch : List Record} {write : Write} :
    of? number batch = some write ↔ write = ⟨number, batch⟩ ∧ batch ≠ [] := by
  cases batch with
  | nil => simp [of?]
  | cons r rest => simp [of?, eq_comm]

theorem Write.of?_eq_none {number : Nat} {batch : List Record} :
    of? number batch = none ↔ batch = [] := by
  cases batch <;> simp [of?]

/-- Where the task stands. `last` is what it read of the stop signal. -/
inductive Phase where
  | waiting
  | flushing (last : Bool)
  | holding (last : Bool) (write : Write)
  | writing (last : Bool) (write : Write)

def Phase.held? : Phase → Option Write
  | .holding _ write => some write
  | _ => none

def Phase.write? : Phase → Option Write
  | .writing _ write => some write
  | _ => none

/-- The task has seen the stop signal and is in its last flush. -/
def Phase.isLast : Phase → Bool
  | .waiting => false
  | .flushing last => last
  | .holding last _ => last
  | .writing last _ => last

/-- The task has taken what its last flush writes. -/
def Phase.tookLast : Phase → Bool
  | .holding last _ => last
  | .writing last _ => last
  | _ => false

theorem Phase.isLast_of_tookLast : ∀ phase : Phase, phase.tookLast = true → phase.isLast = true
  | .holding _ _, took => took
  | .writing _ _, took => took

structure State (ε : Type) where
  queue : Queue
  task : FlushTask
  phase : Phase
  /-- What manual flushes have taken and not yet handed over. -/
  held : List Write
  /-- The writes that manual flushes wait for. -/
  manual : List Write
  taken : List (List Record)
  handed : List Write
  ended : List (Write × Option ε)
  /-- What manual flushes returned, by the number of their batch. -/
  answers : List (Nat × Except ε Nat)

inductive Event (ε : Type) where
  | submit (now : Instant) (event : String) (data : Record)
  /-- A manual flush takes what is queued. -/
  | flush
  /-- One of the manual flushes calls the handler with what it took. -/
  | hand (i : Nat)
  /-- The write of one of the manual flushes that wait ends. -/
  | flushed (i : Nat) (outcome : Option ε)
  /-- The task wakes and reads the stop signal. -/
  | tick
  /-- The task takes what is queued. -/
  | take
  /-- The task calls the handler with what it took. -/
  | write
  /-- The write of the task ends. -/
  | written (outcome : Option ε)
  | stop

variable {ε : Type}

def Event.record? : Event ε → Option Record
  | .submit now event data => some (Queue.stamped now event data)
  | _ => none

def Event.isStop : Event ε → Bool
  | .stop => true
  | _ => false

/-- The event with its write accepted. -/
def Event.accepted : Event ε → Event ε
  | .flushed i _ => .flushed i none
  | .written _ => .written none
  | e => e

namespace State

def start : State ε := ⟨.empty, .started, .waiting, [], [], [], [], [], []⟩

/-- The write of what is queued, if anything is. -/
def next? (s : State ε) : Option Write := Write.of? s.taken.length s.queue.take.1

def taking (s : State ε) : State ε :=
  { s with
    queue := s.queue.take.2
    taken := s.taken ++ [s.queue.take.1] }

def call (s : State ε) (write : Write) : State ε := { s with handed := s.handed ++ [write] }

def endWrite (s : State ε) (write : Write) (outcome : Option ε) : State ε :=
  { s with ended := s.ended ++ [(write, outcome)] }

def answer (s : State ε) (number : Nat) (result : Except ε Nat) : State ε :=
  { s with answers := s.answers ++ [(number, result)] }

/-- The task goes back to its loop, or leaves it if this was its last flush. -/
def loop (s : State ε) (last : Bool) : State ε :=
  { s with phase := .waiting, task := { s.task with ended := last } }

def resultOf (write : Write) : Option ε → Except ε Nat
  | none => .ok write.records.length
  | some e => .error e

/-- One step. What cannot happen in a state leaves it as it is. -/
def step (s : State ε) : Event ε → State ε
  | .submit now event data => { s with queue := s.queue.submit now event data }
  | .stop => { s with task := s.task.stop }
  | .flush =>
    match s.next? with
    | none => s.taking.answer s.taken.length (.ok 0)
    | some write => { s.taking with held := s.held ++ [write] }
  | .hand i =>
    match s.held[i]? with
    | none => s
    | some write => { s.call write with held := s.held.eraseIdx i, manual := s.manual ++ [write] }
  | .flushed i outcome =>
    match s.manual[i]? with
    | none => s
    | some write =>
      ({ s with manual := s.manual.eraseIdx i }.endWrite write outcome).answer write.number
        (resultOf write outcome)
  | .tick =>
    match s.phase, s.task.ended with
    | .waiting, false => { s with phase := .flushing s.task.stopping }
    | _, _ => s
  | .take =>
    match s.phase with
    | .flushing last =>
      match s.next? with
      | none => s.taking.loop last
      | some write => { s.taking with phase := .holding last write }
    | _ => s
  | .write =>
    match s.phase with
    | .holding last write => { s.call write with phase := .writing last write }
    | _ => s
  | .written outcome =>
    match s.phase with
    | .writing last write => (s.endWrite write outcome).loop last
    | _ => s

def run (events : List (Event ε)) : State ε := events.foldl step start

/-- What a step can do, by its event. -/
inductive Step (s : State ε) : Event ε → State ε → Prop where
  | idle {e : Event ε} (noRecord : e.record? = none) (noStop : e.isStop = false) : Step s e s
  | submit (now : Instant) (event : String) (data : Record) :
    Step s (.submit now event data) { s with queue := s.queue.submit now event data }
  | stop : Step s .stop { s with task := s.task.stop }
  | flushNone (empty : s.next? = none) : Step s .flush (s.taking.answer s.taken.length (.ok 0))
  | flush {write : Write} (next : s.next? = some write) :
    Step s .flush { s.taking with held := s.held ++ [write] }
  | hand {i : Nat} {write : Write} (found : s.held[i]? = some write) :
    Step s (.hand i)
      { s.call write with held := s.held.eraseIdx i, manual := s.manual ++ [write] }
  | flushed {i : Nat} {write : Write} (outcome : Option ε) (found : s.manual[i]? = some write) :
    Step s (.flushed i outcome)
      (({ s with manual := s.manual.eraseIdx i }.endWrite write outcome).answer write.number
        (resultOf write outcome))
  | tick (waiting : s.phase = .waiting) (running : s.task.ended = false) :
    Step s .tick { s with phase := .flushing s.task.stopping }
  | takeNone {last : Bool} (phase : s.phase = .flushing last) (empty : s.next? = none) :
    Step s .take (s.taking.loop last)
  | take {last : Bool} {write : Write} (phase : s.phase = .flushing last)
    (next : s.next? = some write) : Step s .take { s.taking with phase := .holding last write }
  | write {last : Bool} {write : Write} (phase : s.phase = .holding last write) :
    Step s .write { s.call write with phase := .writing last write }
  | written {last : Bool} {write : Write} (outcome : Option ε)
    (phase : s.phase = .writing last write) :
    Step s (.written outcome) ((s.endWrite write outcome).loop last)

theorem step_spec (s : State ε) (e : Event ε) : Step s e (s.step e) := by
  cases e with
  | submit now event data => exact .submit now event data
  | stop => exact .stop
  | flush =>
    simp only [step]
    split
    next empty => exact .flushNone empty
    next write next => exact .flush next
  | hand i =>
    simp only [step]
    split
    next => exact .idle rfl rfl
    next write found => exact .hand found
  | flushed i outcome =>
    simp only [step]
    split
    next => exact .idle rfl rfl
    next write found => exact .flushed outcome found
  | tick =>
    simp only [step]
    split
    next waiting running => exact .tick waiting running
    next => exact .idle rfl rfl
  | take =>
    simp only [step]
    split
    next last phase =>
      split
      next empty => exact .takeNone phase empty
      next write next => exact .take phase next
    next => exact .idle rfl rfl
  | write =>
    simp only [step]
    split
    next last write phase => exact .write phase
    next => exact .idle rfl rfl
  | written outcome =>
    simp only [step]
    split
    next last write phase => exact .written outcome phase
    next => exact .idle rfl rfl

end State

section Inputs

/-- What was submitted, in order and as it is queued. -/
def submissions (events : List (Event ε)) : List Record := events.filterMap Event.record?

/-- What was submitted before the stop was first signalled. -/
def beforeStop (events : List (Event ε)) : List Record :=
  submissions (events.takeWhile fun e => !e.isStop)

theorem submissions_concat (events : List (Event ε)) (e : Event ε) :
    submissions (events ++ [e]) = submissions events ++ e.record?.toList := by
  rw [submissions, List.filterMap_append]
  cases known : e.record? with
  | none => rw [List.filterMap_cons_none known]; rfl
  | some r => rw [List.filterMap_cons_some known]; rfl

theorem beforeStop_le (events : List (Event ε)) : beforeStop events <+: submissions events :=
  (List.takeWhile_prefix _).filterMap _

theorem beforeStop_concat {events : List (Event ε)} (stopped : events.any Event.isStop = true)
    (e : Event ε) : beforeStop (events ++ [e]) = beforeStop events := by
  rw [beforeStop, List.takeWhile_append, if_neg]
  · rfl
  · intro whole
    have unsignalled := (List.takeWhile_prefix fun e : Event ε => !e.isStop).eq_of_length whole
    have all := List.all_takeWhile (l := events) (p := fun e => !e.isStop)
    rw [unsignalled, ← List.not_any_eq_all_not, stopped] at all
    cases all

end Inputs

section Numbering

/-- The writes of the batches that have records, by their places. -/
def numbered (taken : List (List Record)) : List Write :=
  taken.zipIdx.filterMap fun place => Write.of? place.2 place.1

theorem mem_numbered {taken : List (List Record)} {write : Write} :
    write ∈ numbered taken ↔ taken[write.number]? = some write.records ∧ write.records ≠ [] := by
  rw [numbered, List.mem_filterMap]
  constructor
  · rintro ⟨place, member, made⟩
    obtain ⟨rfl, full⟩ := Write.of?_eq_some.mp made
    exact ⟨List.mem_zipIdx_iff_getElem?.mp member, full⟩
  · rintro ⟨place, full⟩
    have member : (write.records, write.number) ∈ taken.zipIdx :=
      List.mem_zipIdx_iff_getElem?.mpr place
    exact ⟨_, member, Write.of?_eq_some.mpr ⟨rfl, full⟩⟩

theorem numbered_concat (taken : List (List Record)) (batch : List Record) :
    numbered (taken ++ [batch]) = numbered taken ++ (Write.of? taken.length batch).toList := by
  rw [numbered, List.zipIdx_append, List.filterMap_append, List.zipIdx_singleton, Nat.zero_add]
  cases batch <;> rfl

theorem flatMap_numbered (taken : List (List Record)) :
    (numbered taken).flatMap Write.records = taken.flatten := by
  induction taken using List.reverseRecOn with
  | nil => rfl
  | append_singleton taken batch ih =>
    rw [numbered_concat, List.flatMap_append, ih, List.flatten_concat]
    cases batch <;> simp [Write.of?]

end Numbering

namespace State

variable {s t : State ε}

theorem next?_eq_none : s.next? = none ↔ s.queue.pending = [] := Write.of?_eq_none

section Conservation

/-- Everything that was submitted: what is taken, batch by batch, and what is queued. -/
def submitted (s : State ε) : List Record := s.taken.flatten ++ s.queue.pending

theorem submitted_taking (s : State ε) : s.taking.taken.flatten = s.submitted :=
  List.flatten_concat

theorem Step.submitted {s' : State ε} {e : Event ε} (step : Step s e s') :
    s'.submitted = s.submitted ++ e.record?.toList := by
  have unchanged : s.submitted = s.submitted ++ [] := (List.append_nil _).symm
  have taking : s.taking.submitted = s.submitted ++ [] := by
    rw [State.submitted, submitted_taking]
    rfl
  cases step with
  | submit now event data => exact (List.append_assoc _ _ _).symm
  | idle noRecord =>
    rw [noRecord]
    exact unchanged
  | flushNone | flush | takeNone | take => exact taking
  | stop | hand | flushed | tick | write | written => exact unchanged

theorem run_concat (events : List (Event ε)) (e : Event ε) :
    run (events ++ [e]) = (run events).step e := List.foldl_append

/-- Nothing is lost, doubled or moved. -/
theorem run_submitted (events : List (Event ε)) : (run events).submitted = submissions events := by
  induction events using List.reverseRecOn with
  | nil => rfl
  | append_singleton events e ih =>
    rw [submissions_concat, run_concat, ← ih]
    exact (step_spec _ e).submitted

end Conservation

section Writes

/-- The batches that a flush has taken and not yet handed over. -/
def holding (s : State ε) : List Write := s.held ++ s.phase.held?.toList

/-- The calls of the handler that have not ended. -/
def underWay (s : State ε) : List Write := s.manual ++ s.phase.write?.toList

/-- A flush that took no records returns zero; any other returns what its own write came to. -/
def Explains (s : State ε) (number : Nat) (result : Except ε Nat) : Prop :=
  ∃ batch, s.taken[number]? = some batch ∧
    (batch = [] ∧ result = .ok 0 ∨
      ∃ outcome, (⟨number, batch⟩, outcome) ∈ s.ended ∧ result = resultOf ⟨number, batch⟩ outcome)

theorem Explains.mono {number : Nat} {result : Except ε Nat} (explains : s.Explains number result)
    (taken : s.taken <+: t.taken) (ended : s.ended ⊆ t.ended) : t.Explains number result := by
  obtain ⟨batch, place, reason⟩ := explains
  have place' : t.taken[number]? = some batch := by
    obtain ⟨bound, found⟩ := List.getElem?_eq_some_iff.mp place
    rw [List.getElem?_eq_getElem (Nat.lt_of_lt_of_le bound taken.length_le), ← taken.getElem bound, found]
  refine ⟨batch, place', reason.imp_right ?_⟩
  rintro ⟨outcome, member, same⟩
  exact ⟨outcome, ended member, same⟩

theorem Explains.taking {number : Nat} {result : Except ε Nat}
    (explains : s.Explains number result) : s.taking.Explains number result :=
  explains.mono (List.prefix_append _ _) (List.Subset.refl _)

theorem Explains.endWrite {number : Nat} {result : Except ε Nat}
    (explains : s.Explains number result) (write : Write) (outcome : Option ε) :
    (s.endWrite write outcome).Explains number result :=
  explains.mono (List.prefix_refl _) (List.subset_append_left _ _)

theorem numbered_taking (s : State ε) :
    numbered s.taking.taken = numbered s.taken ++ s.next?.toList := numbered_concat _ _

theorem numbered_taking_none (empty : s.next? = none) :
    numbered s.taking.taken = numbered s.taken := by
  rw [numbered_taking, empty]
  exact List.append_nil _

theorem numbered_taking_some {write : Write} (next : s.next? = some write) :
    numbered s.taking.taken = numbered s.taken ++ [write] := by
  rw [numbered_taking, next]
  rfl

theorem ended_endWrite (s : State ε) (write : Write) (outcome : Option ε) :
    (s.endWrite write outcome).ended.map Prod.fst = s.ended.map Prod.fst ++ [write] :=
  List.map_append

/-- Every batch of records is held by its flush or handed over, every call of the handler is under way
or has ended, and every answer has its reason. -/
structure Accounts (s : State ε) : Prop where
  batches : (numbered s.taken).Perm (s.holding ++ s.handed)
  calls : s.handed.Perm (s.underWay ++ s.ended.map Prod.fst)
  answers : ∀ a ∈ s.answers, s.Explains a.1 a.2

theorem Accounts.start : (start : State ε).Accounts where
  batches := .refl _
  calls := .refl _
  answers := by
    intro a member
    cases member

theorem Accounts.mem_numbered (accounts : s.Accounts) {write : Write} (member : write ∈ s.handed) :
    write ∈ numbered s.taken :=
  accounts.batches.mem_iff.mpr (List.mem_append_right _ member)

theorem Accounts.mem_taken (accounts : s.Accounts) {write : Write} (member : write ∈ s.underWay) :
    s.taken[write.number]? = some write.records := by
  have handed := accounts.calls.mem_iff.mpr (List.mem_append_left _ member)
  exact (Intake.mem_numbered.mp (accounts.mem_numbered handed)).1

theorem perm_last (front back : List Write) (write : Write) :
    (front ++ back ++ [write]).Perm (front ++ [write] ++ back) := by
  rw [List.append_assoc, List.append_assoc]
  exact List.perm_append_comm.append_left front

theorem perm_appended (front middle back : List Write) (write : Write) :
    (front ++ middle ++ back ++ [write]).Perm (front ++ [write] ++ middle ++ back) := by
  rw [List.append_assoc front, List.append_assoc (front ++ [write])]
  exact perm_last front (middle ++ back) write

theorem perm_filled (front back : List Write) (write : Write) :
    (front ++ (none : Option Write).toList ++ back ++ [write]).Perm
      (front ++ (some write).toList ++ back) := by
  rw [Option.toList_none, List.append_nil]
  exact perm_last front back write

theorem perm_erased {writes : List Write} {i : Nat} (bound : i < writes.length)
    (rest rest' : List Write) :
    (writes ++ rest ++ rest').Perm (writes.eraseIdx i ++ rest ++ (rest' ++ [writes[i]])) := by
  rw [← List.append_assoc (writes.eraseIdx i ++ rest)]
  have parted := (List.getElem_cons_eraseIdx_perm bound).symm
  exact ((parted.append_right rest).append_right rest').trans (List.perm_append_singleton _ _).symm

theorem Accounts.step {s' : State ε} {e : Event ε} (accounts : s.Accounts) (step : Step s e s') :
    s'.Accounts := by
  obtain ⟨batches, calls, answers⟩ := accounts
  have kept : ∀ a ∈ s.answers, s.taking.Explains a.1 a.2 := fun a member =>
    (answers a member).taking
  cases step with
  | idle | submit | stop => exact ⟨batches, calls, answers⟩
  | tick waiting =>
    rw [holding, waiting] at batches
    rw [underWay, waiting] at calls
    exact ⟨batches, calls, answers⟩
  | flushNone empty =>
    refine ⟨numbered_taking_none empty ▸ batches, calls, ?_⟩
    intro a member
    rcases List.mem_append.mp member with old | only
    · exact kept a old
    · cases List.mem_singleton.mp only
      have place : (s.taken ++ [s.queue.pending])[s.taken.length]? = some s.queue.pending :=
        List.getElem?_concat_length
      exact ⟨s.queue.pending, place, .inl ⟨next?_eq_none.mp empty, rfl⟩⟩
  | @flush write next =>
    refine ⟨?_, calls, kept⟩
    change (numbered s.taking.taken).Perm _
    rw [numbered_taking_some next]
    exact (batches.append_right [write]).trans (perm_appended _ _ _ write)
  | @hand i write found =>
    obtain ⟨bound, rfl⟩ := List.getElem?_eq_some_iff.mp found
    exact ⟨batches.trans (perm_erased bound _ _),
      (calls.append_right [s.held[i]]).trans (perm_appended _ _ _ _), answers⟩
  | @flushed i write outcome found =>
    obtain ⟨bound, rfl⟩ := List.getElem?_eq_some_iff.mp found
    refine ⟨batches, ?_, ?_⟩
    · change s.handed.Perm (s.manual.eraseIdx i ++ s.phase.write?.toList ++
        (s.endWrite s.manual[i] outcome).ended.map Prod.fst)
      rw [ended_endWrite]
      exact calls.trans (perm_erased bound _ _)
    · intro a member
      rcases List.mem_append.mp member with old | only
      · exact (answers a old).endWrite _ outcome
      · cases List.mem_singleton.mp only
        have waiting : s.manual[i] ∈ s.underWay := List.mem_append_left _ (List.getElem_mem bound)
        exact ⟨_, mem_taken ⟨batches, calls, answers⟩ waiting,
          .inr ⟨outcome, List.mem_append_right _ List.mem_cons_self, rfl⟩⟩
  | takeNone phase empty =>
    rw [holding, phase] at batches
    rw [underWay, phase] at calls
    exact ⟨numbered_taking_none empty ▸ batches, calls, kept⟩
  | @take last write phase next =>
    rw [holding, phase] at batches
    rw [underWay, phase] at calls
    refine ⟨?_, calls, kept⟩
    change (numbered s.taking.taken).Perm _
    rw [numbered_taking_some next]
    exact (batches.append_right [write]).trans (perm_filled _ _ write)
  | @write last write phase =>
    rw [holding, phase] at batches
    rw [underWay, phase] at calls
    refine ⟨?_, (calls.append_right [write]).trans (perm_filled _ _ write), answers⟩
    change (numbered s.taken).Perm (s.held ++ (none : Option Write).toList ++ (s.handed ++ [write]))
    rw [← List.append_assoc]
    exact batches.trans (perm_filled _ _ write).symm
  | @written last write outcome phase =>
    rw [holding, phase] at batches
    rw [underWay, phase] at calls
    refine ⟨batches, ?_, fun a member => (answers a member).endWrite write outcome⟩
    change s.handed.Perm (s.manual ++ (none : Option Write).toList ++
      (s.endWrite write outcome).ended.map Prod.fst)
    rw [ended_endWrite, ← List.append_assoc]
    exact calls.trans (perm_filled _ _ write).symm

theorem run_accounts (events : List (Event ε)) : (run events).Accounts := by
  induction events using List.reverseRecOn with
  | nil => exact .start
  | append_singleton events e ih =>
    rw [run_concat]
    exact ih.step (step_spec _ e)

end Writes

section Stopping

/-- The task ends only when it has been stopped, and by then what was submitted before is taken. -/
structure Drains (s : State ε) (stopped : Bool) (before : List Record) : Prop where
  signal : s.task.stopping = stopped
  last : s.phase.isLast = true → s.task.stopping = true
  finished : s.task.ended = true → s.task.stopping = true ∧ s.phase = .waiting
  drained : s.task.ended = true ∨ s.phase.tookLast = true → before <+: s.taken.flatten

theorem Drains.start : (start : State ε).Drains false [] :=
  ⟨rfl, nofun, nofun, fun _ => List.nil_prefix⟩

theorem Drains.step {events : List (Event ε)} {s' : State ε} {e : Event ε}
    (submitted : s.submitted = submissions events)
    (drains : s.Drains (events.any Event.isStop) (beforeStop events)) (step : Step s e s') :
    s'.Drains ((events ++ [e]).any Event.isStop) (beforeStop (events ++ [e])) := by
  obtain ⟨signal, last, finished, drained⟩ := drains
  have signal' (noStop : e.isStop = false) :
      s.task.stopping = (events ++ [e]).any Event.isStop := by
    simp [signal, noStop]
  have fixed (stopping : s.task.stopping = true) :
      beforeStop (events ++ [e]) = beforeStop events := beforeStop_concat (signal ▸ stopping) e
  have kept (final : s.task.ended = true ∨ s.phase.tookLast = true) :
      beforeStop (events ++ [e]) <+: s.taken.flatten := by
    have stopping : s.task.stopping = true := by
      rcases final with ended | took
      · exact (finished ended).1
      · exact last (s.phase.isLast_of_tookLast took)
    rw [fixed stopping]
    exact drained final
  have grown (final : s.task.ended = true ∨ s.phase.tookLast = true) :
      beforeStop (events ++ [e]) <+: s.taking.taken.flatten := by
    rw [submitted_taking]
    exact (kept final).trans (List.prefix_append _ _)
  -- the last flush takes all that was submitted before it
  have whole (seen : s.phase.isLast = true) :
      beforeStop (events ++ [e]) <+: s.taking.taken.flatten := by
    rw [submitted_taking, submitted, fixed (last seen)]
    exact beforeStop_le events
  cases step with
  | idle _ noStop => exact ⟨signal' noStop, last, finished, kept⟩
  | submit | hand | flushed => exact ⟨signal' rfl, last, finished, kept⟩
  | flushNone | flush => exact ⟨signal' rfl, last, finished, grown⟩
  | stop =>
    refine ⟨?_, fun _ => rfl, fun ended => ⟨rfl, (finished ended).2⟩, kept⟩
    rw [List.any_append, Bool.or_comm]
    rfl
  | tick waiting running =>
    refine ⟨signal' rfl, id, ?_, ?_⟩
    · intro ended
      cases running.symm.trans ended
    · rintro (ended | took)
      · cases running.symm.trans ended
      · cases took
  | @takeNone final phase empty =>
    refine ⟨signal' rfl, ?_, ?_, ?_⟩
    · intro seen
      cases seen
    · intro ended
      exact ⟨last (by rw [phase]; exact ended), rfl⟩
    · rintro (ended | took)
      · exact whole (by rw [phase]; exact ended)
      · cases took
  | @take final write phase next =>
    refine ⟨signal' rfl, ?_, ?_, ?_⟩
    · intro seen
      exact last (by rw [phase]; exact seen)
    · intro ended
      cases phase.symm.trans (finished ended).2
    · rintro (ended | took)
      · cases phase.symm.trans (finished ended).2
      · exact whole (by rw [phase]; exact took)
  | @write final write phase =>
    refine ⟨signal' rfl, ?_, ?_, ?_⟩
    · intro seen
      exact last (by rw [phase]; exact seen)
    · intro ended
      cases phase.symm.trans (finished ended).2
    · rintro (ended | took)
      · cases phase.symm.trans (finished ended).2
      · exact kept (.inr (by rw [phase]; exact took))
  | @written final write outcome phase =>
    refine ⟨signal' rfl, ?_, ?_, ?_⟩
    · intro seen
      cases seen
    · intro ended
      exact ⟨last (by rw [phase]; exact ended), rfl⟩
    · rintro (ended | took)
      · exact kept (.inr (by rw [phase]; exact ended))
      · cases took

theorem run_drains (events : List (Event ε)) :
    (run events).Drains (events.any Event.isStop) (beforeStop events) := by
  induction events using List.reverseRecOn with
  | nil => exact .start
  | append_singleton events e ih =>
    rw [run_concat]
    exact ih.step (run_submitted events) (step_spec _ e)

end Stopping

section Failures

/-- Two states that differ in the outcomes of writes at most. -/
structure Alike (s t : State ε) : Prop where
  queue : s.queue = t.queue
  task : s.task = t.task
  phase : s.phase = t.phase
  held : s.held = t.held
  manual : s.manual = t.manual
  taken : s.taken = t.taken
  handed : s.handed = t.handed
  ended : s.ended.map Prod.fst = t.ended.map Prod.fst

theorem Alike.next? (alike : s.Alike t) : s.next? = t.next? := by
  rw [State.next?, State.next?, alike.queue, alike.taken]

theorem Alike.taking (alike : s.Alike t) : s.taking.Alike t.taking where
  queue := rfl
  task := alike.task
  phase := alike.phase
  held := alike.held
  manual := alike.manual
  taken := by rw [State.taking, State.taking, alike.queue, alike.taken]
  handed := alike.handed
  ended := alike.ended

theorem Alike.loop (alike : s.Alike t) (last : Bool) : (s.loop last).Alike (t.loop last) :=
  { alike with
    phase := rfl
    task := by rw [State.loop, State.loop, alike.task] }

theorem Alike.call (alike : s.Alike t) (write : Write) : (s.call write).Alike (t.call write) :=
  { alike with handed := by rw [State.call, State.call, alike.handed] }

theorem Alike.endWrite (alike : s.Alike t) (write : Write) (outcome outcome' : Option ε) :
    (s.endWrite write outcome).Alike (t.endWrite write outcome') :=
  { alike with
    ended := by rw [State.endWrite, State.endWrite, List.map_append, alike.ended, List.map_append]; rfl }

theorem Alike.step (alike : s.Alike t) (e : Event ε) : (s.step e).Alike (t.step e.accepted) := by
  have taking := alike.taking
  cases e with
  | submit now event data => exact { alike with queue := by rw [State.step, alike.queue]; rfl }
  | stop => exact { alike with task := by rw [State.step, alike.task]; rfl }
  | flush =>
    simp only [State.step, Event.accepted, alike.next?, alike.taken, alike.held]
    split
    next => exact { taking with }
    next => exact { taking with held := rfl }
  | hand i =>
    simp only [State.step, Event.accepted, alike.held, alike.manual]
    split
    next => exact alike
    next write _ => exact { alike.call write with held := rfl, manual := rfl }
  | flushed i outcome =>
    simp only [State.step, Event.accepted, alike.manual]
    split
    next => exact alike
    next write _ =>
      have removed : { s with manual := t.manual.eraseIdx i }.Alike
          { t with manual := t.manual.eraseIdx i } := { alike with manual := rfl }
      exact { removed.endWrite write outcome none with }
  | tick =>
    simp only [State.step, Event.accepted, alike.phase, alike.task]
    split
    next => exact { alike with task := rfl, phase := rfl }
    next => exact alike
  | take =>
    simp only [State.step, Event.accepted, alike.phase, alike.next?]
    split
    next last _ =>
      split
      next => exact taking.loop last
      next => exact { taking with phase := rfl }
    next => exact alike
  | write =>
    simp only [State.step, Event.accepted, alike.phase]
    split
    next last write _ => exact { alike.call write with phase := rfl }
    next => exact alike
  | written outcome =>
    simp only [State.step, Event.accepted, alike.phase]
    split
    next last write _ => exact (alike.endWrite write outcome none).loop last
    next => exact alike

theorem run_accepted (events : List (Event ε)) :
    (run events).Alike (run (events.map Event.accepted)) := by
  induction events using List.reverseRecOn with
  | nil => exact ⟨rfl, rfl, rfl, rfl, rfl, rfl, rfl, rfl⟩
  | append_singleton events e ih =>
    rw [List.map_append, List.map_singleton, run_concat, run_concat]
    exact ih.step e

end Failures

section Undisturbed

variable {σ : Type} (write : σ → List Record → σ × Option ε) (h : σ)

/-- A flush whose steps nothing comes between is a flush of the queue. -/
theorem flush_undisturbed (s : State ε) :
    let handed := (s.step .flush).step (.hand s.held.length)
    let ended := handed.step (.flushed s.manual.length (write h s.queue.pending).2)
    ended.queue = (s.queue.flush write h).1 ∧
      ended.answers = s.answers ++ [(s.taken.length, (s.queue.flush write h).2.2)] := by
  obtain ⟨⟨pending⟩, task, phase, held, manual, taken, handed, ended, answers⟩ := s
  cases pending with
  | nil => simp [step, next?, Write.of?, taking, answer, Queue.take, Queue.flush]
  | cons r rest =>
    cases outcome : write h (r :: rest) with
    | mk h' failure =>
      cases failure <;>
        simp [step, next?, Write.of?, taking, call, answer, endWrite, resultOf, Queue.take,
          Queue.flush, outcome]

/-- A tick whose steps nothing comes between is a tick of the task. -/
theorem tick_undisturbed (s : State ε) (waiting : s.phase = .waiting) :
    let handed := ((s.step .tick).step .take).step .write
    let ended := handed.step (.written (write h s.queue.pending).2)
    ended.task = (s.task.tick s.queue write h).1 ∧
      ended.queue = (s.task.tick s.queue write h).2.1 ∧ ended.phase = .waiting := by
  obtain ⟨⟨pending⟩, ⟨stopping, finished⟩, phase, held, manual, taken, handed, ended, answers⟩ := s
  obtain rfl : phase = .waiting := waiting
  cases finished with
  | true => simp [step, FlushTask.tick]
  | false =>
    cases pending with
    | nil =>
      simp [step, next?, Write.of?, taking, loop, Queue.take, Queue.flush, FlushTask.tick]
    | cons r rest =>
      cases outcome : write h (r :: rest) with
      | mk h' failure =>
        cases failure <;>
          simp [step, next?, Write.of?, taking, call, loop, endWrite, Queue.take, Queue.flush,
            FlushTask.tick, outcome]

end Undisturbed

theorem Explains.ok {number n : Nat} (explains : s.Explains number (.ok n)) :
    ∃ batch, s.taken[number]? = some batch ∧ batch.length = n ∧
      (batch = [] ∨ (⟨number, batch⟩, none) ∈ s.ended) := by
  obtain ⟨batch, place, ⟨rfl, result⟩ | ⟨outcome, member, result⟩⟩ := explains
  · cases result
    exact ⟨[], place, rfl, .inl rfl⟩
  · cases outcome with
    | none =>
      cases result
      exact ⟨batch, place, rfl, .inr member⟩
    | some e => cases result

/-- A queue under any steps of its users, of manual flushes and of the flush task, with any
outcomes of the writes. -/
theorem run_sound (events : List (Event ε)) :
    -- the batches taken and what is queued are what was submitted, in order
    (run events).taken.flatten ++ (run events).queue.pending = submissions events ∧
    -- of the batches taken, each with records is held by its flush or handed over, and once
    (numbered (run events).taken).Perm ((run events).holding ++ (run events).handed) ∧
    (∀ write ∈ (run events).handed, write.records ≠ []) ∧
    (run events).handed.Perm ((run events).underWay ++ (run events).ended.map Prod.fst) ∧
    -- failed writes leave everything as it were if they had been accepted
    (run events).Alike (run (events.map Event.accepted)) ∧
    -- a flush returns the number of its records only if the handler accepted them
    (∀ number n, (number, .ok n) ∈ (run events).answers →
      ∃ batch, (run events).taken[number]? = some batch ∧ batch.length = n ∧
        (batch = [] ∨ (⟨number, batch⟩, none) ∈ (run events).ended)) ∧
    -- the task ends only after the stop, when it holds and writes nothing itself; what was submitted
    -- before is then taken, and handed over but for what manual flushes hold
    ((run events).task.ended = true → events.any Event.isStop = true ∧
      (run events).holding = (run events).held ∧ (run events).underWay = (run events).manual ∧
      beforeStop events <+: (run events).taken.flatten ∧
      (beforeStop events).Subperm
        (((run events).held ++ (run events).handed).flatMap Write.records)) := by
  have accounts := run_accounts events
  have drains := run_drains events
  refine ⟨run_submitted events, accounts.batches, ?_, accounts.calls, run_accepted events, ?_, ?_⟩
  · intro write member
    exact (mem_numbered.mp (accounts.mem_numbered member)).2
  · intro number n member
    exact (accounts.answers _ member).ok
  · intro ended
    obtain ⟨stopping, phase⟩ := drains.finished ended
    have holding : (run events).holding = (run events).held := by
      rw [State.holding, phase]
      exact List.append_nil _
    have underWay : (run events).underWay = (run events).manual := by
      rw [State.underWay, phase]
      exact List.append_nil _
    have drained := drains.drained (.inl ended)
    refine ⟨drains.signal ▸ stopping, holding, underWay, drained, ?_⟩
    have batches := accounts.batches.flatMap_right Write.records
    rw [flatMap_numbered, holding] at batches
    exact drained.sublist.subperm.trans batches.subperm

section Sample

/-- A flush waits for its write of the first record when the task is stopped; the task then fails
to write the next two, and the last record comes too late. -/
def sample : List (Event String) :=
  [.submit default "join" [], .flush, .submit default "break" [], .hand 0, .stop, .tick,
    .submit default "place" [], .take, .flushed 0 none, .write, .written (some "disk full"), .tick,
    .submit default "quit" []]

theorem sample_drained :
    (run sample).answers = [(0, .ok 1)] ∧ (run sample).ended.length = 2 ∧
    (run sample).queue.size = 1 ∧ (beforeStop sample).length = 2 ∧ (run sample).held = [] ∧
    (beforeStop sample).Subperm
      (((run sample).held ++ (run sample).handed).flatMap Write.records) ∧
    ∃ batch, (run sample).taken[0]? = some batch ∧ batch.length = 1 ∧
      (batch = [] ∨ (⟨0, batch⟩, none) ∈ (run sample).ended) := by
  obtain ⟨-, -, -, -, -, accepted, finished⟩ := run_sound sample
  obtain ⟨-, -, -, -, found⟩ := finished rfl
  have answers : (run sample).answers = [(0, .ok 1)] := rfl
  have first : (0, .ok 1) ∈ (run sample).answers := answers ▸ List.mem_cons_self
  exact ⟨answers, rfl, rfl, rfl, rfl, found, accepted 0 1 first⟩

/-- A flush has taken the record and not handed it over yet when the task is stopped and ends. -/
def overtaken : List (Event String) := [.submit default "join" [], .flush, .stop, .tick, .take]

theorem overtaken_not_handed :
    (run overtaken).task.ended = true ∧
      ∃ r ∈ beforeStop overtaken, r ∉ (run overtaken).handed.flatMap Write.records :=
  ⟨rfl, _, List.mem_cons_self, List.not_mem_nil⟩

end Sample

end State
end AuditLog.Intake
