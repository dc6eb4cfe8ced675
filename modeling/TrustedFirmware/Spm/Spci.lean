import TrustedFirmware.Spm.Responses

/-!
# The SPCI calls (`spci.c`)

Opening and closing a handle of a secure service, blocking requests, requests that are
started and resumed, and asking for a response. Any number of CPUs make calls, and the
secure partitions run on the CPUs that enter them.

A step is what a CPU does under one lock, or what a partition does to the queues that it
shares with the SPM: an effect on the shared state, and where the CPU goes from there. A
critical section that takes the lock of a request count inside of the lock of the handles
is one step, as it makes one access to the count. `none` is a `panic()`, a failed
assertion, or a CPU that waits.

The state has, next to what the code keeps, the requests that have been accepted and whose
response has not been handed out, the number of handles opened so far, and what each call
has done to the counters.
-/

namespace TrustedFirmware.Spm.Spci

open Lib Spm.Responses
open Function (update)

/-! ### Handles and partitions -/

/-- `spci_handle_status_t`. -/
inductive SpciHandleStatus
  | closed
  | opened
  deriving DecidableEq, Repr

/-- `spci_handle_t`; `spCtx` is `none` for a null pointer. -/
structure SpciHandle (Sp : Type) where
  handle : UInt16
  clientId : UInt16
  status : SpciHandleStatus
  spCtx : Option Sp
  numActiveRequests : UInt32

/-- The entry after `memset`. -/
def SpciHandle.zero {Sp : Type} : SpciHandle Sp := ⟨0, 0, .closed, none, 0⟩

/-- `sp_state_t`. -/
inductive SpState
  | reset
  | idle
  | busy
  deriving DecidableEq, Repr

/-- The two queues to a partition. -/
inductive QueueNum
  | blocking
  | nonBlocking
  deriving DecidableEq, Repr

/-- A `sp_context_t`, with the messages in its queues, and those that the partition has
taken out of them and not answered. -/
structure SpContext where
  state : SpState
  requestCount : UInt32
  queue : QueueNum → List Key
  received : List (QueueNum × Key)

/-- How a partition leaves: it answers a message, it yields, or it is preempted. -/
inductive SpExit
  | putResponse (queue : QueueNum) (key : Key) (values : Values)
  | yield
  | preempted
  deriving DecidableEq, Repr

/-! ### Calls -/

/-- The errors that calls return. -/
inductive SpciError
  | invalidParameter
  | noMemory
  | busy
  | queued
  | notPresent
  deriving DecidableEq, Repr

/-- What a call returns. -/
inductive SmcRet
  | error (e : SpciError)
  | opened (handle : UInt16)
  | closed
  | started (token : UInt32)
  | response (values : Values)
  deriving DecidableEq, Repr

/-- The calls, with the arguments that are taken out of the registers. -/
inductive Op (Uuid : Type)
  | openPoll (uuid : Uuid) (clientId : UInt16)
  | close (clientId handle : UInt16)
  | requestBlocking (clientId handle : UInt16)
  | requestStart (clientId handle : UInt16)
  | requestResume (clientId handle : UInt16) (token : UInt32)
  | getResponse (clientId handle : UInt16) (token : UInt32)

/-- Which `spm_response_get` a CPU is at: the first or the second of
`spci_service_request_resume`, or the one of `spci_service_get_response`. -/
inductive GetFrom
  | resume
  | resumeAgain
  | getResponse
  deriving DecidableEq, Repr

/-- The call that goes on once the partition is idle. -/
inductive After (n : Nat)
  | blocking (k : Fin n) (values : Values)
  | start (token : UInt32)
  | resume (k : Fin n) (openedAt : Nat) (key : Key)
  deriving DecidableEq

/-- Where a CPU is. `k` is the entry that `handle_info` points to, and `openedAt` says
which of the handles that have ever been opened it was for at that time. -/
inductive Pc (n : Nat) (Sp : Type)
  /-- in no call -/
  | idle
  /-- before `sp_state_wait_switch` -/
  | blockingWait (k : Fin n) (sp : Sp) (key : Key)
  /-- before `sprt_push_message` of a blocking request -/
  | blockingPush (k : Fin n) (sp : Sp) (key : Key)
  /-- in the partition, for a blocking request -/
  | blockingEntry (k : Fin n) (sp : Sp)
  /-- before `sprt_push_message` of a request that is started -/
  | startPush (k : Fin n) (sp : Sp) (key : Key)
  /-- before `sp_state_try_switch` of a request that is started -/
  | startSwitch (sp : Sp) (token : UInt32)
  /-- before `sp_state_try_switch` of a request that is resumed -/
  | resumeSwitch (k : Fin n) (openedAt : Nat) (sp : Sp) (key : Key)
  /-- in the partition, which may be preempted -/
  | entry (sp : Sp) (after : After n)
  /-- before `spci_handle_returned_values` -/
  | returned (sp : Sp) (exit : SpExit) (after : After n)
  /-- before `sp_state_set` -/
  | setIdle (sp : Sp) (after : After n)
  /-- before `spm_response_get`; `spci_service_get_response` has not read `sp` yet -/
  | get (from_ : GetFrom) (k : Fin n) (openedAt : Nat) (sp : Sp) (key : Key)
  /-- before the handle's count is decreased -/
  | release (readSp : Bool) (k : Fin n) (sp : Sp) (values : Values)
  /-- before `spm_sp_request_decrease` -/
  | decrease (sp : Sp) (values : Values)
  deriving DecidableEq

/-! ### The state -/

/-- A request that has been accepted. -/
structure Request (n : Nat) (Sp : Type) where
  slot : Fin n
  sp : Sp
  key : Key
  deriving DecidableEq

/-- What a call has added to the counts of active requests of handles, and to the request
counts of partitions. -/
structure Net where
  handles : Int
  partitions : Int
  deriving DecidableEq, Repr

def Net.add (a b : Net) : Net := ⟨a.handles + b.handles, a.partitions + b.partitions⟩

/-- A call that has returned. -/
structure Return where
  ret : SmcRet
  net : Net

structure State (n : Nat) (Sp Cpu : Type) where
  handles : Fin n → SpciHandle Sp
  handleCount : UInt16
  tokenCount : UInt32
  partitions : Sp → SpContext
  responses : List (Key × Values)
  pc : Cpu → Pc n Sp
  /-- The requests whose response has not been handed out. -/
  undelivered : List (Request n Sp)
  /-- The number of handles opened so far. -/
  opens : Nat
  /-- Which of them an entry has last been used for. -/
  openedAt : Fin n → Nat
  net : Cpu → Net
  returns : List Return

/-- The platform: which partition has a service, and how much room there is. -/
structure Config (Uuid Sp : Type) where
  spmSpGetByUuid : Uuid → Option Sp
  queueCapacity : QueueNum → Nat
  responsesMax : Nat

variable {n : Nat} {Sp Cpu Uuid : Type} [DecidableEq Sp] [DecidableEq Cpu]

/-- The state after `spm_init`. -/
def State.init : State n Sp Cpu where
  handles _ := .zero
  handleCount := 0
  tokenCount := 0
  partitions _ := ⟨.idle, 0, fun _ => [], []⟩
  responses := []
  pc _ := .idle
  undelivered := []
  opens := 0
  openedAt _ := 0
  net _ := ⟨0, 0⟩
  returns := []

/-- `spci_handle_info_get`. -/
def State.spciHandleInfoGet (s : State n Sp Cpu) (handle clientId : UInt16) : Option (Fin n) :=
  (List.finRange n).find? fun k => (s.handles k).status ≠ .closed ∧
    (s.handles k).handle = handle ∧ (s.handles k).clientId = clientId

/-- The first free entry. -/
def State.freeHandle (s : State n Sp Cpu) : Option (Fin n) :=
  (List.finRange n).find? fun k => (s.handles k).status = .closed

/-- `spm_response_get`, for the values. -/
def spmResponseGet (responses : List (Key × Values)) (key : Key) : Option Values :=
  (responses.find? fun r => r.1 = key).map Prod.snd

/-! ### Effects -/

/-- What a step does to the shared state. -/
inductive Effect (n : Nat) (Sp : Type)
  | skip
  | openHandle (k : Fin n) (sp : Sp) (clientId : UInt16)
  | closeHandle (k : Fin n)
  /-- Both counts are increased. -/
  | accept (k : Fin n) (sp : Sp)
  /-- Both counts are increased, and a token is taken. -/
  | acceptToken (k : Fin n) (sp : Sp)
  | releaseHandle (k : Fin n)
  | releasePartition (sp : Sp)
  | setState (sp : Sp) (state : SpState)
  | pushBlocking (sp : Sp) (key : Key)
  | pushNonBlocking (k : Fin n) (sp : Sp) (key : Key)
  | pop (sp : Sp) (queue : QueueNum)
  | answer (sp : Sp) (queue : QueueNum) (key : Key)
  | responseAdd (key : Key) (values : Values)
  | responseGet (key : Key)
  deriving DecidableEq

/-- Where a CPU goes. -/
inductive Next (n : Nat) (Sp : Type)
  | goto (pc : Pc n Sp)
  | ret (r : SmcRet)

def State.setHandle (s : State n Sp Cpu) (k : Fin n) (h : SpciHandle Sp) : State n Sp Cpu :=
  { s with handles := update s.handles k h }

def State.setPartition (s : State n Sp Cpu) (sp : Sp) (c : SpContext) : State n Sp Cpu :=
  { s with partitions := update s.partitions sp c }

/-- Add to the count of a handle. -/
def State.addActive (s : State n Sp Cpu) (k : Fin n) : State n Sp Cpu :=
  s.setHandle k { s.handles k with numActiveRequests := (s.handles k).numActiveRequests + 1 }

/-- Add to the count of a partition. -/
def State.addCount (s : State n Sp Cpu) (sp : Sp) : State n Sp Cpu :=
  s.setPartition sp { s.partitions sp with requestCount := (s.partitions sp).requestCount + 1 }

/-- Add a message to a queue. -/
def SpContext.push (c : SpContext) (q : QueueNum) (key : Key) : SpContext :=
  { c with queue := update c.queue q (c.queue q ++ [key]) }

/-- The partition takes a message out of a queue. -/
def SpContext.pop (c : SpContext) (q : QueueNum) : SpContext :=
  { c with
    queue := update c.queue q (c.queue q).tail
    received := ((c.queue q).head?.map (q, ·)).toList ++ c.received }

def State.apply (s : State n Sp Cpu) : Effect n Sp → State n Sp Cpu
  | .skip => s
  | .openHandle k sp clientId =>
    { s with
      handles := update s.handles k ⟨s.handleCount, clientId, .opened, some sp, 0⟩
      handleCount := s.handleCount + 1
      opens := s.opens + 1
      openedAt := update s.openedAt k s.opens }
  | .closeHandle k => s.setHandle k .zero
  | .accept k sp => (s.addActive k).addCount sp
  | .acceptToken k sp => { (s.addActive k).addCount sp with tokenCount := s.tokenCount + 1 }
  | .releaseHandle k =>
    s.setHandle k { s.handles k with numActiveRequests := (s.handles k).numActiveRequests - 1 }
  | .releasePartition sp =>
    s.setPartition sp { s.partitions sp with requestCount := (s.partitions sp).requestCount - 1 }
  | .setState sp state => s.setPartition sp { s.partitions sp with state := state }
  | .pushBlocking sp key => s.setPartition sp ((s.partitions sp).push .blocking key)
  | .pushNonBlocking k sp key =>
    { s.setPartition sp ((s.partitions sp).push .nonBlocking key) with
      undelivered := ⟨k, sp, key⟩ :: s.undelivered }
  | .pop sp q => s.setPartition sp ((s.partitions sp).pop q)
  | .answer sp q key =>
    s.setPartition sp { s.partitions sp with
      received := (s.partitions sp).received.erase (q, key) }
  | .responseAdd key values => { s with responses := (key, values) :: s.responses }
  | .responseGet key =>
    { s with
      responses := s.responses.eraseP fun r => r.1 = key
      undelivered := s.undelivered.eraseP fun r => r.key = key }

/-- What an effect adds to the counts. -/
def Effect.net : Effect n Sp → Net
  | .accept _ _ | .acceptToken _ _ => ⟨1, 1⟩
  | .releaseHandle _ => ⟨-1, 0⟩
  | .releasePartition _ => ⟨0, -1⟩
  | .skip | .openHandle _ _ _ | .closeHandle _ | .setState _ _ | .pushBlocking _ _
  | .pushNonBlocking _ _ _ | .pop _ _ | .answer _ _ _ | .responseAdd _ _ | .responseGet _ => ⟨0, 0⟩

/-- A CPU has an effect and goes on; `net` is what its call has added to the counts
before. -/
def State.exec (s : State n Sp Cpu) (cpu : Cpu) (net : Net) (e : Effect n Sp) :
    Next n Sp → State n Sp Cpu
  | .goto pc =>
    { s.apply e with
      pc := update s.pc cpu pc
      net := update s.net cpu (net.add e.net) }
  | .ret r =>
    { s.apply e with
      pc := update s.pc cpu .idle
      net := update s.net cpu (net.add e.net)
      returns := ⟨r, net.add e.net⟩ :: s.returns }

/-! ### The code -/

/-- The error is returned at once. -/
def fail (e : SpciError) : Option (Effect n Sp × Next n Sp) := some (.skip, .ret (.error e))

/-- The first critical section of a call, which is the last one of opening and closing. -/
def call (cfg : Config Uuid Sp) (s : State n Sp Cpu) : Op Uuid → Option (Effect n Sp × Next n Sp)
  | .openPoll uuid clientId =>
    match cfg.spmSpGetByUuid uuid with
    | none => fail .notPresent
    | some spPtr =>
      match s.freeHandle with
      | none => fail .noMemory
      | some k => some (.openHandle k spPtr clientId, .ret (.opened s.handleCount))
  | .close clientId handle =>
    match s.spciHandleInfoGet handle clientId with
    | none => fail .invalidParameter
    | some k =>
      -- A handle can't be closed if there are requests left.
      if (s.handles k).numActiveRequests ≠ 0 then fail .busy
      else some (.closeHandle k, .ret .closed)
  | .requestBlocking clientId handle =>
    match s.spciHandleInfoGet handle clientId with
    | none => fail .busy
    | some k =>
      match (s.handles k).spCtx with
      | none => none
      | some sp =>
        -- Blocking requests are only allowed if the queue is empty.
        if (s.handles k).numActiveRequests > 0 then fail .busy
        else if (s.partitions sp).requestCount ≠ 0 then fail .busy
        else some (.accept k sp, .goto (.blockingWait k sp ⟨clientId, handle, 0⟩))
  | .requestStart clientId handle =>
    match s.spciHandleInfoGet handle clientId with
    | none => fail .invalidParameter
    | some k =>
      match (s.handles k).spCtx with
      | none => none
      | some sp =>
        some (.acceptToken k sp, .goto (.startPush k sp ⟨clientId, handle, s.tokenCount⟩))
  | .requestResume clientId handle token =>
    match s.spciHandleInfoGet handle clientId with
    | none => fail .invalidParameter
    | some k =>
      match (s.handles k).spCtx with
      | none => none
      | some sp =>
        some (.skip, .goto (.get .resume k (s.openedAt k) sp ⟨clientId, handle, token⟩))
  | .getResponse clientId handle token =>
    match s.spciHandleInfoGet handle clientId with
    | none => fail .invalidParameter
    | some k =>
      match (s.handles k).spCtx with
      | none => none
      | some sp =>
        some (.skip, .goto (.get .getResponse k (s.openedAt k) sp ⟨clientId, handle, token⟩))

/-- The next critical section of a call. -/
def advance (cfg : Config Uuid Sp) (s : State n Sp Cpu) :
    Pc n Sp → Option (Effect n Sp × Next n Sp)
  | .idle | .blockingEntry _ _ | .entry _ _ => none
  | .blockingWait k sp key =>
    -- `sp_state_wait_switch` tries again until the partition is idle.
    if (s.partitions sp).state = .idle then
      some (.setState sp .busy, .goto (.blockingPush k sp key))
    else none
  | .blockingPush k sp key =>
    if ((s.partitions sp).queue .blocking).length < cfg.queueCapacity .blocking then
      some (.pushBlocking sp key, .goto (.blockingEntry k sp))
    else none
  | .startPush k sp key =>
    if ((s.partitions sp).queue .nonBlocking).length < cfg.queueCapacity .nonBlocking then
      some (.pushNonBlocking k sp key, .goto (.startSwitch sp key.token))
    else fail .noMemory
  | .startSwitch sp token =>
    if (s.partitions sp).state = .idle then
      some (.setState sp .busy, .goto (.entry sp (.start token)))
    else some (.skip, .ret (.started token))
  | .resumeSwitch k openedAt sp key =>
    if (s.partitions sp).state = .idle then
      some (.setState sp .busy, .goto (.entry sp (.resume k openedAt key)))
    else fail .queued
  | .returned sp (.putResponse _ key values) after =>
    if s.responses.any (fun r => r.1.token = key.token) = true ∨
        cfg.responsesMax ≤ s.responses.length then none
    else some (.responseAdd key values, .goto (.setIdle sp after))
  | .returned sp .yield after => some (.skip, .goto (.setIdle sp after))
  | .returned sp .preempted after => some (.skip, .goto (.setIdle sp after))
  | .setIdle sp after =>
    if (s.partitions sp).state = .busy then
      some (.setState sp .idle,
        match after with
        | .blocking k values => .goto (.release false k sp values)
        | .start token => .ret (.started token)
        | .resume k openedAt key => .goto (.get .resumeAgain k openedAt sp key))
    else none
  | .get from_ k openedAt sp key =>
    match spmResponseGet s.responses key with
    | some values =>
      some (.responseGet key, .goto (.release (from_ = .getResponse) k sp values))
    | none =>
      if from_ = .resume then some (.skip, .goto (.resumeSwitch k openedAt sp key))
      else fail .queued
  | .release readSp k sp values =>
    if readSp then
      -- `spci_service_get_response` reads the partition here.
      (s.handles k).spCtx.map fun sp => (.releaseHandle k, .goto (.decrease sp values))
    else some (.releaseHandle k, .goto (.decrease sp values))
  | .decrease sp values => some (.releasePartition sp, .ret (.response values))

/-- The partition that runs on a CPU. -/
def Pc.inside : Pc n Sp → Option Sp
  | .blockingEntry _ sp | .entry sp _ => some sp
  | _ => none

/-- A partition leaves. It answers a message that it has received. -/
def exit (s : State n Sp Cpu) (e : SpExit) : Pc n Sp → Option (Effect n Sp × Next n Sp)
  | .blockingEntry k sp =>
    match e with
    | .putResponse q key values =>
      if (q, key) ∈ (s.partitions sp).received then
        some (.answer sp q key, .goto (.setIdle sp (.blocking k values)))
      else none
    | .yield | .preempted => none
  | .entry sp after =>
    match e with
    | .putResponse q key values =>
      if (q, key) ∈ (s.partitions sp).received then
        some (.answer sp q key, .goto (.returned sp (.putResponse q key values) after))
      else none
    | .yield => some (.skip, .goto (.returned sp .yield after))
    | .preempted => some (.skip, .goto (.returned sp .preempted after))
  | _ => none

/-- A CPU makes a call or goes on with it; the partition on a CPU takes a message out of a
queue, or leaves. -/
inductive Label (Cpu Uuid : Type)
  | call (cpu : Cpu) (op : Op Uuid)
  | advance (cpu : Cpu)
  | pop (cpu : Cpu) (queue : QueueNum)
  | exit (cpu : Cpu) (e : SpExit)

def step (cfg : Config Uuid Sp) (s : State n Sp Cpu) : Label Cpu Uuid → Option (State n Sp Cpu)
  | .call cpu op =>
    if s.pc cpu = .idle then
      (call cfg s op).map fun r => s.exec cpu ⟨0, 0⟩ r.1 r.2
    else none
  | .advance cpu => (advance cfg s (s.pc cpu)).map fun r => s.exec cpu (s.net cpu) r.1 r.2
  | .pop cpu q =>
    match (s.pc cpu).inside with
    | none => none
    | some sp =>
      if (s.partitions sp).queue q = [] then none
      else some (s.exec cpu (s.net cpu) (.pop sp q) (.goto (s.pc cpu)))
  | .exit cpu e => (exit s e (s.pc cpu)).map fun r => s.exec cpu (s.net cpu) r.1 r.2

end TrustedFirmware.Spm.Spci
