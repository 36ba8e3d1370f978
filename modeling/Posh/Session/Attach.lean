import Posh.Session.Ipc

/-!
The attach client (`client.rs`): the loop between the tty and the session daemon.

What the operating system answers in one turn of the loop is a `Wakeup`, and what has
been written to the tty and to the socket is kept beside the loop's own buffers.
-/

namespace Posh.Session

open Posh.Lib

/-! ### The detach key -/

/-- Ctrl-\ as a kitty keyboard sequence, without and with the press event. -/
def KITTY_DETACH_SEQS : List Bytes :=
  [[0x1B, 0x5B, 0x39, 0x32, 0x3B, 0x35, 0x75],
    [0x1B, 0x5B, 0x39, 0x32, 0x3B, 0x35, 0x3A, 0x31, 0x75]]

inductive KittyMatch where
  /-- Begins with a full detach sequence. -/
  | full
  /-- A proper prefix of a detach sequence. -/
  | part
  | no
deriving DecidableEq, Repr

def matchKittyDetach (s : Bytes) : KittyMatch :=
  if KITTY_DETACH_SEQS.any fun seq => seq.isPrefixOf s then .full
  else if KITTY_DETACH_SEQS.any fun seq => s.length < seq.length && s.isPrefixOf seq then .part
  else .no

structure DetachMatcher where
  carry : Bytes := []
deriving DecidableEq, Repr

namespace DetachMatcher

/-- The bytes to forward, whether the detach key was seen, and what is held back. -/
structure Scan where
  forward : Bytes
  detached : Bool
  carry : Bytes

def scan : Bytes → Scan
  | [] => ⟨[], false, []⟩
  | b :: rest =>
      let pass : Scan := { scan rest with forward := b :: (scan rest).forward }
      if b = 0x1C then ⟨[], true, []⟩
      else if b = 0x1B then
        match matchKittyDetach (b :: rest) with
        | .full => ⟨[], true, []⟩
        | .part => ⟨[], false, b :: rest⟩
        | .no => pass
      else pass

def feed (input : Bytes) (m : DetachMatcher) : Scan :=
  scan (m.carry ++ input)

end DetachMatcher

/-! ### Input and output -/

/-- Why a system call failed. -/
inductive IoError where
  | wouldBlock | interrupted | connectionReset | brokenPipe | timedOut | other
deriving DecidableEq, Repr

/-- What `poll` reports of one descriptor. -/
structure Revents where
  pollIn : Bool := false
  pollOut : Bool := false
  /-- `POLLHUP | POLLERR | POLLNVAL` -/
  err : Bool := false
deriving DecidableEq, Repr

/-- Writes all of `data`. Each answer is that of one `write`, with whether the waiting
time is over by then; what has been written when it gives up is returned. -/
def writeAllRetry : List (Except IoError Nat × Bool) → Bytes → Bytes × Except IoError Unit
  | _, [] => ([], .ok ())
  | [], _ => ([], .error .timedOut)
  | (.ok n, _) :: more, data =>
      let (sent, result) := writeAllRetry more (data.drop n)
      (data.take n ++ sent, result)
  | (.error .interrupted, _) :: more, data => writeAllRetry more data
  | (.error .wouldBlock, late) :: more, data =>
      if late then ([], .error .timedOut) else writeAllRetry more data
  | (.error e, _) :: _, _ => ([], .error e)

/-- What is written without an error is everything. -/
theorem writeAllRetry_ok {answers : List (Except IoError Nat × Bool)} {data : Bytes}
    (done : (writeAllRetry answers data).2 = .ok ()) : (writeAllRetry answers data).1 = data := by
  fun_induction writeAllRetry answers data with
  | case1 => rfl
  | case2 => cases done
  | case3 n late more data empty sent result rest ih =>
    rw [rest] at ih
    have remaining : sent = data.drop n := ih done
    rw [remaining]
    exact List.take_append_drop n data
  | case4 _ _ _ _ ih => exact ih done
  | case5 => cases done
  | case6 _ _ _ _ _ ih => exact ih done
  | case7 => cases done

/-- The answers of the operating system in one turn of the loop. -/
structure Wakeup where
  sigwinch : Bool := false
  sigterm : Bool := false
  sigcont : Bool := false
  termSize : Nat × Nat
  /-- Of stdin and of the socket. -/
  poll : Except IoError (Revents × Revents)
  stdinRead : Except IoError Bytes := .error .wouldBlock
  sockRead : Except IoError Bytes := .error .wouldBlock
  sockWrite : Except IoError Nat := .error .wouldBlock
  stdoutWrite : Except IoError Nat := .error .wouldBlock
  enterWrite : Except IoError Nat := .error .wouldBlock
  /-- For the one `write_all_retry` before the loop is left. -/
  retries : List (Except IoError Nat × Bool) := []

/-- Why the loop ended with an error. -/
inductive Failure where
  | io (e : IoError)
  | framing (message : String)
deriving DecidableEq, Repr

/-! ### The loop -/

structure ClientLoop where
  sockWriteBuf : Bytes := []
  stdoutBuf : Bytes := []
  readBuf : FrameBuffer := .new
  detach : DetachMatcher := {}
  /-- Written to the tty so far. -/
  stdout : Bytes := []
  /-- Written to the socket so far. -/
  sent : Bytes := []

/-- How the loop was left. -/
structure Exited where
  client : ClientLoop
  result : Except Failure Int32

namespace ClientLoop

def queue (tag : Tag) (payload : Bytes) (c : ClientLoop) : ClientLoop :=
  { c with sockWriteBuf := appendFrame c.sockWriteBuf tag payload }

/-- Before the loop: the terminal size is announced. -/
def start (termSize : Nat × Nat) : ClientLoop :=
  queue .init (encodeResize termSize.1 termSize.2) {}

def takeSigwinch (w : Wakeup) (c : ClientLoop) : ClientLoop :=
  if w.sigwinch then c.queue .resize (encodeResize w.termSize.1 w.termSize.2) else c

def takeSigterm (w : Wakeup) (c : ClientLoop) : Except Exited ClientLoop :=
  if w.sigterm then
    let c := c.queue .detach []
    .error ⟨{ c with sent := c.sent ++ (writeAllRetry w.retries c.sockWriteBuf).1 }, .ok 0⟩
  else .ok c

def takeSigcont (enter : Bytes) (w : Wakeup) (c : ClientLoop) : ClientLoop :=
  if w.sigcont then
    let entered := match w.enterWrite with
      | .ok n => { c with stdout := c.stdout ++ enter.take n }
      | .error _ => c
    entered.queue .init (encodeResize w.termSize.1 w.termSize.2)
  else c

def stdinToDaemon (w : Wakeup) (stdin : Revents) (c : ClientLoop) : Except Exited ClientLoop :=
  if stdin.pollIn || stdin.err then
    match w.stdinRead with
    | .ok [] => .error ⟨c, .ok 0⟩
    | .ok input =>
        let scan := c.detach.feed input
        let c := { c with detach.carry := scan.carry }
        let c := if scan.forward.isEmpty then c else c.queue .input scan.forward
        .ok (if scan.detached then c.queue .detach [] else c)
    | .error .wouldBlock => .ok c
    | .error e => .error ⟨c, .error (.io e)⟩
  else .ok c

/-- The frames that have arrived. -/
def takeFrames (w : Wakeup) (c : ClientLoop) : Except Exited ClientLoop :=
  match taken : c.readBuf.next with
  | (.ok (some frame), readBuf) =>
      let c := { c with readBuf }
      match frame.tag with
      | .output =>
          if frame.payload.isEmpty then c.takeFrames w
          else { c with stdoutBuf := c.stdoutBuf ++ frame.payload }.takeFrames w
      | .exit =>
          let final := if c.stdoutBuf.isEmpty then [] else (writeAllRetry w.retries c.stdoutBuf).1
          .error ⟨{ c with stdout := c.stdout ++ final }, .ok ((decodeExit frame.payload).getD 0)⟩
      | _ => c.takeFrames w
  | (.ok none, readBuf) => .ok { c with readBuf }
  | (.error message, readBuf) => .error ⟨{ c with readBuf }, .error (.framing message)⟩
termination_by c.readBuf.unread.length
decreasing_by all_goals exact FrameBuffer.next_shrinks taken

section takeFrames

variable {w : Wakeup} {c : ClientLoop} {b : FrameBuffer} {payload : Bytes}

theorem takeFrames_none (taken : c.readBuf.next = (.ok none, b)) :
    c.takeFrames w = .ok { c with readBuf := b } := by
  rw [takeFrames]
  split
  all_goals
    rename_i taken'
    rw [taken] at taken'
    cases taken'
  rfl

end takeFrames

def daemonToStdout (w : Wakeup) (sock : Revents) (c : ClientLoop) : Except Exited ClientLoop :=
  if sock.pollIn then
    match w.sockRead with
    | .ok [] => .error ⟨c, .ok 0⟩
    | .ok data => { c with readBuf := c.readBuf.feed data }.takeFrames w
    | .error .wouldBlock => .ok c
    | .error .connectionReset => .error ⟨c, .ok 0⟩
    | .error .brokenPipe => .error ⟨c, .ok 0⟩
    | .error e => .error ⟨c, .error (.io e)⟩
  else .ok c

def flushToDaemon (w : Wakeup) (sock : Revents) (c : ClientLoop) : Except Exited ClientLoop :=
  if sock.pollOut && !c.sockWriteBuf.isEmpty then
    match w.sockWrite with
    | .ok n =>
        .ok { c with sockWriteBuf := c.sockWriteBuf.drop n, sent := c.sent ++ c.sockWriteBuf.take n }
    | .error .wouldBlock => .ok c
    | .error .connectionReset => .error ⟨c, .ok 0⟩
    | .error .brokenPipe => .error ⟨c, .ok 0⟩
    | .error e => .error ⟨c, .error (.io e)⟩
  else .ok c

def flushToStdout (w : Wakeup) (c : ClientLoop) : Except Exited ClientLoop :=
  if !c.stdoutBuf.isEmpty then
    match w.stdoutWrite with
    | .ok n =>
        .ok { c with stdoutBuf := c.stdoutBuf.drop n, stdout := c.stdout ++ c.stdoutBuf.take n }
    | .error .wouldBlock => .ok c
    | .error e => .error ⟨c, .error (.io e)⟩
  else .ok c

def hangUp (sock : Revents) (c : ClientLoop) : Except Exited ClientLoop :=
  if sock.err then .error ⟨c, .ok 0⟩ else .ok c

/-- What `poll` reported is served. -/
def serve (w : Wakeup) (stdin sock : Revents) (c : ClientLoop) : Except Exited ClientLoop := do
  let c ← c.stdinToDaemon w stdin
  let c ← c.daemonToStdout w sock
  let c ← c.flushToDaemon w sock
  let c ← c.flushToStdout w
  c.hangUp sock

/-- One turn of the loop. -/
def turn (enter : Bytes) (w : Wakeup) (c : ClientLoop) : Except Exited ClientLoop := do
  let c ← (c.takeSigwinch w).takeSigterm w
  let c := c.takeSigcont enter w
  match w.poll with
  | .error .interrupted => return c
  | .error e => throw ⟨c, .error (.io e)⟩
  | .ok (stdin, sock) => c.serve w stdin sock

end ClientLoop

end Posh.Session
