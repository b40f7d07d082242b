/-
  File:      Mh1903/Model/Shell.lean
  Subject:   `rt_fota.c`, fourth part: the prompt in front of the boot and the shell command
             `fota clone`, as a build with `RT_USING_FINSH` has them.
-/
import Mh1903.Model.Drivers
import Mh1903.Model.Fal

namespace Mh1903

/-! ## 1. The console under the prompt -/

def rtEtimeout : Int := 2
def rtSemValueMax : Nat := 65535
def rtFotaGetCharWaittign : Word := 1000

/-- What the prompt sees of the system: the characters received and not read, the value of
    `shell_sem` and the tick. -/
structure Console where
  rxFifo : List Byte
  sem : Nat
  tick : Word

/-- What happens beside the thread: the interrupt puts a character into the buffer, it calls
    `rt_fota_rx_ind`, the tick advances. -/
inductive Event where
  | received (c : Byte)
  | released
  | ticked
  deriving DecidableEq

/-- A full buffer gives up its oldest character; one place of the ring stays free. -/
def Console.receive (con : Console) (c : Byte) : Console :=
  let fifo := con.rxFifo ++ [c]
  { con with rxFifo := if fifo.length < rtSerialRbBufsz then fifo else fifo.tail }

/-- `rt_sem_release` with nobody waiting -/
def Console.release (con : Console) : Console :=
  { con with sem := if con.sem < rtSemValueMax then con.sem + 1 else con.sem }

def Console.happen (con : Console) : Event → Console
  | .received c => con.receive c
  | .released => con.release
  | .ticked => { con with tick := con.tick + 1 }

def Console.after (con : Console) (events : List Event) : Console := events.foldl Console.happen con

/-- `rt_device_read(shell_dev, -1, &ch, 1)`, `none` where it returns zero. -/
def Console.read (con : Console) : Option Byte × Console :=
  match con.rxFifo with
  | [] => (none, con)
  | c :: cs => (some c, { con with rxFifo := cs })

/-- The thread sleeps in `rt_sem_take` until it is released or, with a positive `time`, that many
    ticks have gone by. `none` while it still sleeps behind the last event. -/
def Console.sleep (time : Int) : List Event → Console → Option (Int × Console)
  | [], _ => none
  | .received c :: events, con => Console.sleep time events (con.receive c)
  | .released :: events, con => some (rtEok, con.after events)
  | .ticked :: events, con =>
      if time = 1 then
        some (-rtEtimeout, (con.happen .ticked).after events)
      else
        Console.sleep (time - 1) events (con.happen .ticked)

/-- `rt_sem_take(shell_sem, time)` while `events` happen -/
def rtSemTake (time : Int) (events : List Event) (con : Console) : Option (Int × Console) :=
  if con.sem > 0 then
    some (rtEok, ({ con with sem := con.sem - 1 } : Console).after events)
  else if time = 0 then
    some (-rtEtimeout, con.after events)
  else
    con.sleep time events

/-! ## 2. The prompt -/

/-- The local variables of `rt_fota_get_shell_key`, and beside them the characters it has read and
    the timeouts it has passed, latest last. -/
structure ShellKey where
  ch : Byte
  timeout : Word
  tickStart : Word
  con : Console
  chars : List Byte
  timeouts : List Word

/-- How a call ends: it returns, or it is still at it behind the last event. -/
inductive KeyEnd where
  | returned (res : Int)
  | waiting
  deriving DecidableEq

/-- What happens during one pass of the loop: before the read, while the semaphore is taken and
    before the tick is read. -/
structure Pass where
  beforeRead : List Event
  inTake : List Event
  beforeTick : List Event

/-- The second half of the loop body, behind the read. -/
def ShellKey.check (p : Pass) (s : ShellKey) : Option KeyEnd × ShellKey :=
  if s.ch = 0x0D then
    (some (.returned rtEok), s)
  else
    let con := s.con.after p.beforeTick
    let tickStop := con.tick
    if tickStop - s.tickStart > rtFotaGetCharWaittign then
      (some (.returned rtError), { s with con := con })
    else
      (none,
        { s with con := con, timeout := rtFotaGetCharWaittign - tickStop + s.tickStart })

/-- The loop body: the end of the call, or nothing for one more pass. -/
def ShellKey.pass (p : Pass) (s : ShellKey) : Option KeyEnd × ShellKey :=
  match (s.con.after p.beforeRead).read with
  | (some c, con) => { s with ch := c, con := con, chars := s.chars ++ [c] }.check p
  | (none, con) =>
      let s := { s with con := con, timeouts := s.timeouts ++ [s.timeout] }
      match rtSemTake s.timeout.toInt p.inTake con with
      | none => (some .waiting, s)
      | some (err, con) =>
          if err ≠ rtEok then
            (some (.returned rtError), { s with con := con })
          else
            { s with con := con }.check p

/-- The loop, for as long as `passes` says what happens. -/
def ShellKey.loop : List Pass → ShellKey → KeyEnd × ShellKey
  | [], s => (.waiting, s)
  | p :: ps, s =>
      match s.pass p with
      | (some e, s') => (e, s')
      | (none, s') => ShellKey.loop ps s'

/-- The variables in front of the loop: `ch` is not initialised, `rt_tick_set(0)` and then
    `rt_tick_get()` with `events` between them. -/
def ShellKey.start (ch : Byte) (con : Console) (events : List Event) : ShellKey :=
  let con := ({ con with tick := 0 } : Console).after events
  { ch, timeout := rtFotaGetCharWaittign, tickStart := con.tick, con, chars := [], timeouts := [] }

def rtFotaGetShellKey (ch : Byte) (con : Console) (events : List Event) (passes : List Pass) :
    KeyEnd × ShellKey := (ShellKey.start ch con events).loop passes

/-! ## 3. `fota clone` -/

/-- What the command reports. -/
inductive CloneEnd where
  | notExist
  | eraseFailed
  | success (total : Nat)
  | failed
  deriving DecidableEq

/-- The loop of the command; the result is `clone_pos` behind it. -/
def cloneLoop (env : Env) (dstPart srcPart : FalPartition) (cloneTolLen : Nat) : Nat → Nat → M Nat
  | 0, _ => throw .outOfFuel
  | fuel + 1, clonePos =>
      if clonePos < cloneTolLen then do
        let w ← get
        match falPartitionRead w.flash srcPart clonePos 4096 with
        | none => pure clonePos
        | some buf => do
            let ret ← falPartitionWrite env dstPart clonePos buf buf.length
            if ret < 0 then
              pure clonePos
            else
              cloneLoop env dstPart srcPart cloneTolLen fuel (clonePos + buf.length)
      else
        pure clonePos

/-- `clone_tol_len` -/
def cloneTolLen (dstPart srcPart : FalPartition) : Nat :=
  if dstPart.len < srcPart.len then dstPart.len else srcPart.len

/-- The loop is left at once without a buffer. -/
def cloneCopy (env : Env) (dstPart srcPart : FalPartition) (buf : Option (List Byte)) : M Nat :=
  if buf.isSome then
    cloneLoop env dstPart srcPart (cloneTolLen dstPart srcPart)
      (cloneTolLen dstPart srcPart + 1) 0
  else
    pure 0

/-- What is printed behind the loop. -/
def cloneReport (cloneTolLen clonePos : Nat) : CloneEnd :=
  if clonePos ≥ cloneTolLen then .success cloneTolLen else .failed

/-- What the command does with two partitions that exist. -/
def cloneParts (env : Env) (dstPart srcPart : FalPartition) : M CloneEnd := do
  let erased ← falPartitionErase env dstPart 0 dstPart.len
  if erased ≥ 0 then do
    let buf ← rtMalloc env 4096
    let clonePos ← cloneCopy env dstPart srcPart buf
    pure (cloneReport (cloneTolLen dstPart srcPart) clonePos)
  else
    pure .eraseFailed

/-- `fota clone dst_part_name src_part_name` -/
def rtFotaClone (env : Env) (dstPartName srcPartName : List Byte) : M CloneEnd :=
  match falPartitionFind env dstPartName, falPartitionFind env srcPartName with
  | some dstPart, some srcPart => cloneParts env dstPart srcPart
  | _, _ => pure .notExist

end Mh1903
