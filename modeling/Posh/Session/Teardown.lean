import Posh.Lib.Transition
import Posh.Session.Attach

/-!
The end of a session as an attached client sees it.

The daemon writes what is queued for the client, then the exit status, and closes the
socket. The client's loop leaves at a hang-up after at most one more read, so what that
read does not take is lost, and the status with it.
-/

namespace Posh.Session

open Posh.Lib

/-- What the daemon sends before it closes. -/
def sessionFrames (outputs : List Bytes) (code : Int32) : List Frame :=
  outputs.map (Frame.mk .output) ++ [⟨.exit, encodeExit code⟩]

theorem fits_sessionFrames {outputs : List Bytes}
    (bounded : ∀ p ∈ outputs, p.length ≤ MAX_FRAME_LEN) (code : Int32) : ∀ f ∈ sessionFrames outputs code, f.Fits := by
  intro f mem
  rcases List.mem_append.mp mem with output | last
  · obtain ⟨p, queued, rfl⟩ := List.mem_map.mp output
    exact bounded p queued
  · rw [List.mem_singleton.mp last]
    unfold Frame.Fits
    rw [length_encodeExit]
    decide

/-- A client and the socket to its daemon. -/
structure Attached where
  client : ClientLoop
  /-- Written by the daemon and not read yet. -/
  sock : Bytes := []
  /-- What the daemon has still to write. -/
  coming : Bytes
  closed : Bool := false
  returned : Option (Except Failure Int32) := none

/-- What a turn takes from the socket. -/
def Wakeup.taken (w : Wakeup) : Bytes :=
  match w.poll, w.sockRead with
  | .ok (_, sock), .ok data => if sock.pollIn then data else []
  | _, _ => []

namespace Attached

variable {m m' : Attached} {outputs : List Bytes} {code : Int32} {enter : Bytes} {w : Wakeup}

/-- What the kernel answers: a hang-up is reported once the daemon has closed, together
with unread data, and a read gives the next bytes there are, at most as many as fit its
buffer and none only at the end. -/
structure Kernel (w : Wakeup) (m : Attached) : Prop where
  poll : ∀ e, w.poll = .error e → e = .interrupted
  hangUp : ∀ stdin sock, w.poll = .ok (stdin, sock) → sock.err = true →
    m.closed = true ∧ (m.sock ≠ [] → sock.pollIn = true)
  read : ∀ data, w.sockRead = .ok data →
    data <+: m.sock ∧ data.length ≤ 4096 ∧ (data = [] → m.sock = [] ∧ m.closed = true)

/-- The user neither detaches nor signals, and does not close the terminal. -/
structure Undisturbed (w : Wakeup) (m : Attached) : Prop where
  sigterm : w.sigterm = false
  sigcont : w.sigcont = false
  stays : ∀ input, w.stdinRead = .ok input →
    input ≠ [] ∧ (m.client.detach.feed input).detached = false

def wake (enter : Bytes) (w : Wakeup) (m : Attached) : Attached :=
  let m := { m with sock := m.sock.drop w.taken.length }
  match m.client.turn enter w with
  | .ok client => { m with client }
  | .error exited => { m with client := exited.client, returned := some exited.result }

/-- The daemon writes and closes; the client's turns are each as `Meets` demands. -/
inductive Step (enter : Bytes) (Meets : Wakeup → Attached → Prop) :
    Attached → Attached → Prop
  | write (m : Attached) (n : Nat) :
      Step enter Meets m { m with sock := m.sock ++ m.coming.take n, coming := m.coming.drop n }
  | close (m : Attached) (written : m.coming = []) : Step enter Meets m { m with closed := true }
  | wake (m : Attached) (w : Wakeup) (running : m.returned = none) (kernel : Kernel w m)
      (undisturbed : Undisturbed w m) (meets : Meets w m) : Step enter Meets m (m.wake enter w)

def attaching (outputs : List Bytes) (code : Int32) (enter : Bytes)
    (Meets : Wakeup → Attached → Prop) : Transition Attached where
  init m := ∃ termSize, m = {
    client := .start termSize, coming := FrameBuffer.encodeAll (sessionFrames outputs code) }
  step := Step enter Meets

/-- Where a hang-up is reported the turn's read takes all that is left; nothing else
fails; and what is written last finds room in time. -/
structure Delivers (w : Wakeup) (m : Attached) : Prop where
  whole : ∀ stdin sock, w.poll = .ok (stdin, sock) → sock.err = true → w.sockRead = .ok m.sock
  stdinRead : ∀ e, w.stdinRead = .error e → e = .wouldBlock
  sockRead : ∀ e, w.sockRead = .error e → e = .wouldBlock
  sockWrite : ∀ e, w.sockWrite = .error e → e = .wouldBlock
  stdoutWrite : ∀ e, w.stdoutWrite = .error e → e = .wouldBlock
  room : ∀ data, data.length ≤ m.client.stdoutBuf.length + m.client.readBuf.unread.length +
    m.sock.length → (writeAllRetry w.retries data).2 = .ok ()

/-! ### One turn -/

/-- `left` are the outputs whose frames have not been taken, with `coming` the bytes not
read yet. -/
structure Delivering (outputs : List Bytes) (code : Int32) (coming : Bytes) (c : ClientLoop)
    (left_ : List Bytes) : Prop where
  taken : ∃ before, outputs = before ++ left_ ∧ c.stdout ++ c.stdoutBuf = before.flatten
  holds : c.readBuf.Holds coming (sessionFrames left_ code)

/-- No whole frame is left unread. -/
def Waits (c : ClientLoop) (code : Int32) (left_ : List Bytes) : Prop :=
  ∀ f rest, sessionFrames left_ code = f :: rest → c.readBuf.unread.length < f.encode.length

theorem Delivering.next {c : ClientLoop} {coming : Bytes} {left_ : List Bytes}
    (h : Delivering outputs code coming c left_)
    (bounded : ∀ p ∈ outputs, p.length ≤ MAX_FRAME_LEN) :
    c.readBuf.next = (.ok none, c.readBuf) ∧ Waits c code left_ ∨
      ∃ f rest b, sessionFrames left_ code = f :: rest ∧ c.readBuf.next = (.ok (some f), b) ∧
        b.Holds coming rest := by
  obtain ⟨⟨before, all, -⟩, holds⟩ := h
  have fits : ∀ f ∈ sessionFrames left_ code, f.Fits := fits_sessionFrames (fun p mem =>
    bounded p (all ▸ List.mem_append_right before mem)) code
  exact FrameBuffer.next_spec fits holds

/-- A frame that is given is the next output, or the exit status after the last one. -/
theorem Delivering.given {c : ClientLoop} {coming : Bytes} {left_ : List Bytes} {f : Frame}
    {b : FrameBuffer} (h : Delivering outputs code coming c left_)
    (bounded : ∀ p ∈ outputs, p.length ≤ MAX_FRAME_LEN)
    (taken : c.readBuf.next = (.ok (some f), b)) :
    (∃ rest, f.tag = .output ∧ left_ = f.payload :: rest ∧
        b.Holds coming (sessionFrames rest code)) ∨
      left_ = [] ∧ f = ⟨.exit, encodeExit code⟩ := by
  rcases h.next bounded with ⟨none, -⟩ | ⟨f, rest, b, frames, given, after⟩
  · rw [none] at taken
    cases taken
  · rw [given] at taken
    cases taken
    cases left_ with
    | nil =>
      cases frames
      exact .inr ⟨rfl, rfl⟩
    | cons p more =>
      cases frames
      exact .inl ⟨more, rfl, rfl, after⟩

/-- An output that was next has been taken. -/
theorem Delivering.output {c c' : ClientLoop} {coming p : Bytes} {rest : List Bytes}
    (h : Delivering outputs code coming c (p :: rest))
    (holds : c'.readBuf.Holds coming (sessionFrames rest code)) (stdout : c'.stdout = c.stdout)
    (stdoutBuf : c'.stdoutBuf = c.stdoutBuf ++ p) : Delivering outputs code coming c' rest := by
  obtain ⟨⟨before, all, written⟩, -⟩ := h
  refine ⟨⟨before ++ [p], ?_, ?_⟩, holds⟩
  · rw [all, List.append_assoc]
    rfl
  · rw [stdout, stdoutBuf, ← List.append_assoc, written, List.flatten_append]
    simp

/-- The loop goes on delivering, or has delivered everything. -/
def Fine (outputs : List Bytes) (code : Int32) (coming : Bytes) : Except Exited ClientLoop → Prop
  | .ok c => ∃ left_, Delivering outputs code coming c left_ ∧ Waits c code left_
  | .error exited => exited.result = .ok code ∧ exited.client.stdout = outputs.flatten

theorem takeFrames_fine {c : ClientLoop} {coming : Bytes} {left_ : List Bytes}
    (bounded : ∀ p ∈ outputs, p.length ≤ MAX_FRAME_LEN)
    (h : Delivering outputs code coming c left_)
    (room : ∀ data, data.length ≤ c.stdoutBuf.length + c.readBuf.unread.length →
      (writeAllRetry w.retries data).2 = .ok ()) :
    Fine outputs code coming (c.takeFrames w) := by
  fun_induction ClientLoop.takeFrames w c generalizing left_ with
  | case1 c frame readBuf taken client tag empty =>
    rename_i ih
    have bytes := FrameBuffer.length_next taken
    obtain ⟨rest, -, rfl, holds⟩ | ⟨-, rfl⟩ := h.given bounded taken
    · have nothing : frame.payload = [] := List.isEmpty_iff.mp empty
      refine ih (h.output holds rfl ?_) fun data small => room data ?_
      · rw [nothing, List.append_nil]
      · change data.length ≤ c.stdoutBuf.length + readBuf.unread.length at small
        omega
    · cases tag
  | case2 c frame readBuf taken client tag some_ =>
    rename_i ih
    have bytes := FrameBuffer.length_next taken
    obtain ⟨rest, -, rfl, holds⟩ | ⟨-, rfl⟩ := h.given bounded taken
    · refine ih (h.output holds rfl rfl) fun data small => room data ?_
      change data.length ≤ (c.stdoutBuf ++ frame.payload).length + readBuf.unread.length at small
      rw [List.length_append] at small
      omega
    · cases tag
  | case3 c frame readBuf taken client tag =>
    obtain ⟨rest, output, -, -⟩ | ⟨rfl, rfl⟩ := h.given bounded taken
    · rw [tag] at output
      cases output
    · obtain ⟨⟨before, all, written⟩, -⟩ := h
      have final : (if client.stdoutBuf.isEmpty then []
          else (writeAllRetry w.retries client.stdoutBuf).1) = c.stdoutBuf := by
        split
        · exact (List.isEmpty_iff.mp ‹_›).symm
        · exact writeAllRetry_ok (room c.stdoutBuf (Nat.le_add_right _ _))
      refine ⟨?_, ?_⟩
      · exact congrArg (fun decoded : Option Int32 => Except.ok (decoded.getD 0))
          (decodeExit_encodeExit code)
      · rw [List.append_nil] at all
        rw [all, ← written]
        exact congrArg (c.stdout ++ ·) final
  | case4 c frame readBuf taken client output exit =>
    obtain ⟨rest, tag, -, -⟩ | ⟨-, rfl⟩ := h.given bounded taken
    · exact absurd tag output
    · exact absurd rfl exit
  | case5 c readBuf taken =>
    rcases h.next bounded with ⟨none, waits⟩ | ⟨f, rest, b, -, given, -⟩
    · rw [none] at taken
      cases taken
      exact ⟨left_, h, waits⟩
    · rw [given] at taken
      cases taken
  | case6 c message readBuf taken =>
    rcases h.next bounded with ⟨none, -⟩ | ⟨f, rest, b, -, given, -⟩
    · rw [none] at taken
      cases taken
    · rw [given] at taken
      cases taken

/-- The tty and the reader are as before. -/
structure Keeps (c c' : ClientLoop) : Prop where
  written : c'.stdout ++ c'.stdoutBuf = c.stdout ++ c.stdoutBuf
  readBuf : c'.readBuf = c.readBuf

theorem Keeps.delivering {c c' : ClientLoop} {coming : Bytes} {left_ : List Bytes} (h : Keeps c c')
    (delivering : Delivering outputs code coming c left_) :
    Delivering outputs code coming c' left_ := by
  obtain ⟨⟨before, all, written⟩, holds⟩ := delivering
  refine ⟨⟨before, all, h.written.trans written⟩, ?_⟩
  rw [h.readBuf]
  exact holds

theorem Keeps.waits {c c' : ClientLoop} {left_ : List Bytes} (h : Keeps c c')
    (waits : Waits c code left_) : Waits c' code left_ := by
  unfold Waits
  rw [h.readBuf]
  exact waits

/-- Once everything has been read a whole frame is left unread. -/
theorem not_waits {c : ClientLoop} {left_ : List Bytes} (h : Delivering outputs code [] c left_) :
    ¬ Waits c code left_ := by
  intro waits
  have none : sessionFrames left_ code = [] := h.holds.exhausted waits
  exact absurd none (by simp [sessionFrames])

theorem keeps_takeSigwinch (w : Wakeup) (c : ClientLoop) : Keeps c (c.takeSigwinch w) := by
  unfold ClientLoop.takeSigwinch
  split
  · exact ⟨rfl, rfl⟩
  · exact ⟨rfl, rfl⟩

theorem stdinToDaemon_keeps {c : ClientLoop} (stdin : Revents)
    (stays : ∀ input, w.stdinRead = .ok input →
      input ≠ [] ∧ (c.detach.feed input).detached = false)
    (fails : ∀ e, w.stdinRead = .error e → e = .wouldBlock) :
    ∃ c', c.stdinToDaemon w stdin = .ok c' ∧ c'.stdoutBuf = c.stdoutBuf ∧ Keeps c c' := by
  unfold ClientLoop.stdinToDaemon
  split
  · cases read : w.stdinRead with
    | error e =>
      cases fails e read
      exact ⟨c, rfl, rfl, rfl, rfl⟩
    | ok input =>
      obtain ⟨some_, stays⟩ := stays input read
      cases input with
      | nil => exact absurd rfl some_
      | cons b rest =>
        dsimp only
        rw [stays, if_neg Bool.false_ne_true]
        by_cases silent : (c.detach.feed (b :: rest)).forward.isEmpty = true
        · rw [if_pos silent]
          exact ⟨_, rfl, rfl, rfl, rfl⟩
        · rw [if_neg silent]
          exact ⟨_, rfl, rfl, rfl, rfl⟩
  · exact ⟨c, rfl, rfl, rfl, rfl⟩

theorem flushToDaemon_keeps {c : ClientLoop} (sock : Revents)
    (fails : ∀ e, w.sockWrite = .error e → e = .wouldBlock) :
    ∃ c', c.flushToDaemon w sock = .ok c' ∧ Keeps c c' := by
  unfold ClientLoop.flushToDaemon
  split
  · cases wrote : w.sockWrite with
    | error e =>
      cases fails e wrote
      exact ⟨c, rfl, rfl, rfl⟩
    | ok n => exact ⟨_, rfl, rfl, rfl⟩
  · exact ⟨c, rfl, rfl, rfl⟩

theorem flushToStdout_keeps {c : ClientLoop}
    (fails : ∀ e, w.stdoutWrite = .error e → e = .wouldBlock) :
    ∃ c', c.flushToStdout w = .ok c' ∧ Keeps c c' := by
  unfold ClientLoop.flushToStdout
  split
  · cases wrote : w.stdoutWrite with
    | error e =>
      cases fails e wrote
      exact ⟨c, rfl, rfl, rfl⟩
    | ok n =>
      refine ⟨_, rfl, ?_, rfl⟩
      dsimp only
      rw [List.append_assoc, List.take_append_drop]
  · exact ⟨c, rfl, rfl, rfl⟩

/-- What is read goes through the reader to the tty. -/
theorem daemonToStdout_fine {c : ClientLoop} {stdin sock : Revents} {left_ : List Bytes}
    (bounded : ∀ p ∈ outputs, p.length ≤ MAX_FRAME_LEN) (polled : w.poll = .ok (stdin, sock))
    (kernel : Kernel w m) (delivers : Delivers w m) (closing : m.closed = true → m.coming = [])
    (h : Delivering outputs code (m.sock ++ m.coming) c left_) (waits : Waits c code left_)
    (readBuf : c.readBuf = m.client.readBuf) (stdoutBuf : c.stdoutBuf = m.client.stdoutBuf) :
    Fine outputs code (m.sock.drop w.taken.length ++ m.coming) (c.daemonToStdout w sock) := by
  have taken : w.taken = match w.sockRead with
      | .ok data => if sock.pollIn then data else []
      | .error _ => [] := by
    unfold Wakeup.taken
    rw [polled]
    cases w.sockRead <;> rfl
  unfold ClientLoop.daemonToStdout
  by_cases pollIn : sock.pollIn = true
  · rw [if_pos pollIn]
    cases read : w.sockRead with
    | error e =>
      cases delivers.sockRead e read
      rw [taken, read]
      exact ⟨left_, h, waits⟩
    | ok data =>
      obtain ⟨⟨later, arrived⟩, -, ended⟩ := kernel.read data read
      rw [taken, read]
      dsimp only
      rw [if_pos pollIn]
      cases data with
      | nil =>
        obtain ⟨empty, closed⟩ := ended rfl
        rw [empty, closing closed] at h
        exact absurd waits (not_waits h)
      | cons b rest =>
        have still : m.sock.drop (b :: rest).length = later := by
          rw [← arrived, List.drop_left]
        have holds := h.holds
        rw [← arrived, List.append_assoc] at holds
        rw [still]
        refine takeFrames_fine bounded ⟨h.taken, holds.feed⟩ ?_
        intro data small
        refine delivers.room data (Nat.le_trans small ?_)
        have bytes := congrArg List.length arrived
        rw [List.length_append] at bytes
        rw [← stdoutBuf, ← readBuf]
        change c.stdoutBuf.length + (c.readBuf.feed (b :: rest)).unread.length ≤ _
        rw [FrameBuffer.unread_feed, List.length_append]
        omega
  · rw [if_neg pollIn, taken]
    have nothing : (match w.sockRead with
        | .ok data => if sock.pollIn then data else []
        | .error _ => []) = ([] : Bytes) := by
      cases w.sockRead with
      | ok data => exact if_neg pollIn
      | error e => rfl
    rw [nothing]
    exact ⟨left_, h, waits⟩

/-- A turn without a signal. -/
theorem turn_of_undisturbed (undisturbed : Undisturbed w m) (c : ClientLoop) :
    c.turn enter w = match w.poll with
      | .error .interrupted => .ok (c.takeSigwinch w)
      | .error e => .error ⟨c.takeSigwinch w, .error (.io e)⟩
      | .ok (stdin, sock) => (c.takeSigwinch w).serve w stdin sock := by
  unfold ClientLoop.turn ClientLoop.takeSigterm ClientLoop.takeSigcont
  rw [undisturbed.sigterm, undisturbed.sigcont]
  rfl

theorem serve_fine {c : ClientLoop} {stdin sock : Revents} {left_ : List Bytes}
    (bounded : ∀ p ∈ outputs, p.length ≤ MAX_FRAME_LEN) (polled : w.poll = .ok (stdin, sock))
    (kernel : Kernel w m) (delivers : Delivers w m) (closing : m.closed = true → m.coming = [])
    (h : Delivering outputs code (m.sock ++ m.coming) c left_) (waits : Waits c code left_)
    (readBuf : c.readBuf = m.client.readBuf) (stdoutBuf : c.stdoutBuf = m.client.stdoutBuf)
    (stays : ∀ input, w.stdinRead = .ok input →
      input ≠ [] ∧ (c.detach.feed input).detached = false) :
    Fine outputs code (m.sock.drop w.taken.length ++ m.coming) (c.serve w stdin sock) := by
  obtain ⟨c₁, typed, same, keeps₁⟩ := stdinToDaemon_keeps stdin stays delivers.stdinRead
  have fine := daemonToStdout_fine bounded polled kernel delivers closing (keeps₁.delivering h)
    (keeps₁.waits waits) (keeps₁.readBuf.trans readBuf) (same.trans stdoutBuf)
  unfold ClientLoop.serve
  rw [typed]
  change Fine _ _ _ (c₁.daemonToStdout w sock >>= _)
  cases out : c₁.daemonToStdout w sock with
  | error exited =>
    rw [out] at fine
    exact fine
  | ok c₂ =>
    rw [out] at fine
    obtain ⟨left_, delivering, waits⟩ := fine
    obtain ⟨c₃, sent, keeps₃⟩ := flushToDaemon_keeps (c := c₂) sock delivers.sockWrite
    obtain ⟨c₄, flushed, keeps₄⟩ := flushToStdout_keeps (c := c₃) delivers.stdoutWrite
    change Fine _ _ _ (c₂.flushToDaemon w sock >>= _)
    rw [sent]
    change Fine _ _ _ (c₃.flushToStdout w >>= _)
    rw [flushed]
    change Fine _ _ _ (c₄.hangUp sock)
    have delivering₄ := keeps₄.delivering (keeps₃.delivering delivering)
    have waits₄ := keeps₄.waits (keeps₃.waits waits)
    unfold ClientLoop.hangUp
    by_cases err : sock.err = true
    · -- the hang-up was reported with the last bytes, so the exit status has been taken
      obtain ⟨closed, pollIn⟩ := kernel.hangUp stdin sock polled err
      have everything : m.sock.drop w.taken.length = [] := by
        by_cases empty : m.sock = []
        · rw [empty, List.drop_nil]
        · have taken : w.taken = m.sock := by
            unfold Wakeup.taken
            rw [polled, delivers.whole stdin sock polled err]
            exact if_pos (pollIn empty)
          rw [taken, List.drop_length]
      rw [everything, closing closed] at delivering₄
      exact absurd waits₄ (not_waits delivering₄)
    · rw [if_neg err]
      exact ⟨left_, delivering₄, waits₄⟩

/-- A turn that does not lose the end of the stream goes on delivering, or has delivered
everything. -/
theorem turn_fine {left_ : List Bytes} (bounded : ∀ p ∈ outputs, p.length ≤ MAX_FRAME_LEN)
    (kernel : Kernel w m) (undisturbed : Undisturbed w m) (delivers : Delivers w m)
    (closing : m.closed = true → m.coming = [])
    (h : Delivering outputs code (m.sock ++ m.coming) m.client left_)
    (waits : Waits m.client code left_) :
    Fine outputs code (m.sock.drop w.taken.length ++ m.coming) (m.client.turn enter w) := by
  have resized := keeps_takeSigwinch w m.client
  have same : (m.client.takeSigwinch w).stdoutBuf = m.client.stdoutBuf ∧
      (m.client.takeSigwinch w).detach = m.client.detach := by
    unfold ClientLoop.takeSigwinch
    split
    · exact ⟨rfl, rfl⟩
    · exact ⟨rfl, rfl⟩
  obtain ⟨stdoutBuf, detach⟩ := same
  rw [turn_of_undisturbed undisturbed]
  cases polled : w.poll with
  | error e =>
    cases kernel.poll e polled
    have nothing : w.taken = [] := by
      unfold Wakeup.taken
      rw [polled]
    rw [nothing]
    exact ⟨left_, resized.delivering h, resized.waits waits⟩
  | ok revents =>
    refine serve_fine bounded polled kernel delivers closing (resized.delivering h)
      (resized.waits waits) resized.readBuf stdoutBuf ?_
    rw [detach]
    exact undisturbed.stays

/-! ### Runs -/

/-- Until the loop returns it goes on delivering, and when it has returned everything is
written and the exit status is its result. -/
structure Delivered (outputs : List Bytes) (code : Int32) (m : Attached) : Prop where
  closing : m.closed = true → m.coming = []
  running : m.returned = none → ∃ left_,
    Delivering outputs code (m.sock ++ m.coming) m.client left_ ∧ Waits m.client code left_
  result : ∀ r, m.returned = some r → r = .ok code ∧ m.client.stdout = outputs.flatten

theorem wake_delivered (bounded : ∀ p ∈ outputs, p.length ≤ MAX_FRAME_LEN)
    (h : Delivered outputs code m) (running : m.returned = none) (kernel : Kernel w m)
    (undisturbed : Undisturbed w m) (delivers : Delivers w m) :
    Delivered outputs code (m.wake enter w) := by
  obtain ⟨left_, delivering, waits⟩ := h.running running
  have fine : Fine outputs code (m.sock.drop w.taken.length ++ m.coming) (m.client.turn enter w) :=
    turn_fine bounded kernel undisturbed delivers h.closing delivering waits
  unfold wake
  dsimp only
  cases turn : m.client.turn enter w with
  | ok c =>
    rw [turn] at fine
    refine ⟨h.closing, fun _ => fine, ?_⟩
    intro r returned
    rw [running] at returned
    cases returned
  | error exited =>
    rw [turn] at fine
    refine ⟨h.closing, nofun, ?_⟩
    rintro r ⟨⟩
    exact fine

theorem step_delivered (bounded : ∀ p ∈ outputs, p.length ≤ MAX_FRAME_LEN)
    (h : Delivered outputs code m) (step : Step enter Delivers m m') :
    Delivered outputs code m' := by
  cases step with
  | write n =>
    refine ⟨?_, ?_, h.result⟩
    · intro closed
      change m.coming.drop n = []
      rw [h.closing closed, List.drop_nil]
    · intro running
      obtain ⟨left_, delivering, waits⟩ := h.running running
      refine ⟨left_, ?_, waits⟩
      dsimp only
      rw [List.append_assoc, List.take_append_drop]
      exact delivering
  | close written => exact ⟨fun _ => written, h.running, h.result⟩
  | wake w running kernel undisturbed delivers =>
    exact wake_delivered bounded h running kernel undisturbed delivers

theorem start_delivered (termSize : Nat × Nat) : Delivered outputs code
    { client := .start termSize, coming := FrameBuffer.encodeAll (sessionFrames outputs code) } := by
  refine ⟨nofun, fun _ => ⟨outputs, ⟨⟨[], rfl, rfl⟩, rfl⟩, ?_⟩, nofun⟩
  intro f rest _
  rw [Frame.length_encode]
  exact Nat.lt_of_lt_of_le (Nat.zero_lt_succ 4) (Nat.le_add_right _ _)

/-- Where no turn loses the end of the stream, the loop returns the session's exit status
after writing everything. -/
theorem teardown_delivers (bounded : ∀ p ∈ outputs, p.length ≤ MAX_FRAME_LEN)
    (h : (attaching outputs code enter Delivers).Reachable m) {r : Except Failure Int32}
    (returned : m.returned = some r) : r = .ok code ∧ m.client.stdout = outputs.flatten := by
  refine (h.induct (I := Delivered outputs code) ?_ ?_).result r returned
  · rintro m ⟨termSize, rfl⟩
    exact start_delivered termSize
  · rintro m m' - delivered step
    exact step_delivered bounded delivered step

/-- The daemon has written everything and closed. -/
def closing (outputs : List Bytes) (code : Int32) (termSize : Nat × Nat) : Attached where
  client := .start termSize
  sock := FrameBuffer.encodeAll (sessionFrames outputs code)
  coming := []
  closed := true

theorem closing_reachable (outputs : List Bytes) (code : Int32) (enter : Bytes)
    (termSize : Nat × Nat) (Meets : Wakeup → Attached → Prop) :
    (attaching outputs code enter Meets).Reachable (closing outputs code termSize) := by
  have start : (attaching outputs code enter Meets).init
      { client := .start termSize, coming := FrameBuffer.encodeAll (sessionFrames outputs code) } :=
    ⟨termSize, rfl⟩
  have written := Transition.Reachable.tail (.of_init start) (.write _
    (FrameBuffer.encodeAll (sessionFrames outputs code)).length)
  dsimp only at written
  rw [List.take_length, List.drop_length, List.nil_append] at written
  exact written.tail (.close _ rfl)

/-- The hang-up is reported with `data`. -/
def hangUpWith (data : Bytes) : Wakeup where
  termSize := (24, 80)
  poll := .ok ({}, { pollIn := true, err := true })
  sockRead := .ok data
  retries := [(.ok 64, false)]

theorem kernel_hangUpWith {data : Bytes} (closed : m.closed = true) (read : data <+: m.sock)
    (small : data.length ≤ 4096) (some_ : data ≠ []) : Kernel (hangUpWith data) m := by
  refine ⟨nofun, ?_, ?_⟩
  · rintro _ _ ⟨⟩ _
    exact ⟨closed, fun _ => rfl⟩
  · rintro _ ⟨⟩
    exact ⟨read, small, fun empty => absurd empty some_⟩

theorem undisturbed_hangUpWith (data : Bytes) : Undisturbed (hangUpWith data) m :=
  ⟨rfl, rfl, nofun⟩

/-- The loop is left after that read, however much there is still to read. -/
theorem turn_hangUpWith {data : Bytes} (some_ : data ≠ []) (c : ClientLoop) :
    c.turn enter (hangUpWith data) =
      ({ c with readBuf := c.readBuf.feed data }.takeFrames (hangUpWith data) >>= fun c =>
        c.flushToStdout (hangUpWith data) >>= fun c => .error ⟨c, .ok 0⟩) := by
  cases data with
  | nil => exact absurd rfl some_
  | cons b rest => rfl

theorem leaves_hangUpWith {data : Bytes} (some_ : data ≠ []) (m : Attached) :
    ∃ r, (m.wake enter (hangUpWith data)).returned = some r := by
  have left_ (c : ClientLoop) : ∃ exited, c.turn enter (hangUpWith data) = .error exited := by
    rw [turn_hangUpWith some_]
    generalize ClientLoop.takeFrames _ _ = taken
    cases taken with
    | error exited => exact ⟨exited, rfl⟩
    | ok c =>
      have blocked : c.flushToStdout (hangUpWith data) = .ok c := by
        unfold ClientLoop.flushToStdout
        split <;> rfl
      refine ⟨⟨c, .ok 0⟩, ?_⟩
      change (c.flushToStdout (hangUpWith data) >>= fun c => .error ⟨c, .ok 0⟩) = _
      rw [blocked]
      rfl
  obtain ⟨exited, eq⟩ := left_ m.client
  unfold wake
  dsimp only
  rw [eq]
  exact ⟨_, rfl⟩

/-- A short output and the exit status, read together with the hang-up. -/
theorem teardown_delivers_status : ∃ m : Attached, m.returned = some (.ok 3) ∧
    m.client.stdout = [0x61] := by
  have bounded : ∀ p ∈ [([0x61] : Bytes)], p.length ≤ MAX_FRAME_LEN := by decide
  have answers (e : IoError) (h : (.error .wouldBlock : Except IoError Nat) = .error e) :
      e = .wouldBlock := by
    cases h
    rfl
  have delivers : Delivers (hangUpWith (closing [[0x61]] 3 (24, 80)).sock)
      (closing [[0x61]] 3 (24, 80)) := by
    refine ⟨fun _ _ _ _ => rfl, ?_, nofun, answers, answers, ?_⟩
    · rintro _ ⟨⟩
      rfl
    · intro data small
      cases data with
      | nil => rfl
      | cons b rest =>
        have short : (b :: rest).drop 64 = [] :=
          List.drop_eq_nil_of_le (Nat.le_trans small (by decide))
        change (writeAllRetry [] ((b :: rest).drop 64)).2 = .ok ()
        rw [short]
        rfl
  have reachable := (closing_reachable [[0x61]] 3 [] (24, 80) Delivers).tail
    (.wake _ _ rfl (kernel_hangUpWith rfl (List.prefix_refl _) (by decide) (by decide))
      (undisturbed_hangUpWith _) delivers)
  obtain ⟨r, returned⟩ := leaves_hangUpWith 
    (show (closing [[0x61]] 3 (24, 80)).sock ≠ [] by decide) (closing [[0x61]] 3 (24, 80))
  obtain ⟨rfl, stdout⟩ := teardown_delivers bounded reachable returned
  exact ⟨_, returned, stdout⟩

/-- An output that takes two reads, and the part of the stream that the first one takes. -/
def longOutput : Bytes := List.replicate 4091 0x61 ++ List.replicate 909 0x62

def firstRead : Bytes := Tag.output.toU8 :: (leBytes 4 5000 ++ List.replicate 4091 0x61)

theorem length_longOutput : longOutput.length = 5000 := by
  unfold longOutput
  rw [List.length_append, List.length_replicate, List.length_replicate]

theorem length_firstRead : firstRead.length = 4096 := by
  unfold firstRead
  rw [List.length_cons, List.length_append, length_leBytes, List.length_replicate]

theorem encodeAll_longOutput : FrameBuffer.encodeAll (sessionFrames [longOutput] 3) =
    firstRead ++ (List.replicate 909 0x62 ++ FrameBuffer.encodeAll [⟨.exit, encodeExit 3⟩]) := by
  have frames : sessionFrames [longOutput] 3 = [⟨.output, longOutput⟩, ⟨.exit, encodeExit 3⟩] := rfl
  rw [frames, FrameBuffer.encodeAll_cons, Frame.encode_eq, length_longOutput]
  unfold longOutput firstRead
  rw [List.cons_append, List.cons_append, List.append_assoc, List.append_assoc, List.append_assoc]

/-- A hang-up with more pending than one read takes loses the rest and the exit status. -/
theorem teardown_cut_short : ¬ ∀ (outputs : List Bytes) (code : Int32) (enter : Bytes)
    (m : Attached) (r : Except Failure Int32), (∀ p ∈ outputs, p.length ≤ MAX_FRAME_LEN) →
    (attaching outputs code enter fun _ _ => True).Reachable m → m.returned = some r →
    r = .ok code ∧ m.client.stdout = outputs.flatten := by
  intro all
  have bounded : ∀ p ∈ [longOutput], p.length ≤ MAX_FRAME_LEN := by
    intro p mem
    rw [List.mem_singleton.mp mem, length_longOutput]
    decide
  have sock : (closing [longOutput] 3 (24, 80)).sock = _ := encodeAll_longOutput
  have some_ : firstRead ≠ [] := List.cons_ne_nil _ _
  have reachable := (closing_reachable [longOutput] 3 [] (24, 80) fun _ _ => True).tail
    (.wake _ _ rfl (kernel_hangUpWith rfl (sock ▸ List.prefix_append firstRead _)
      (Nat.le_of_eq length_firstRead) some_) (undisturbed_hangUpWith _) trivial)
  have none : (FrameBuffer.feed firstRead {}).next = (.ok none, FrameBuffer.feed firstRead {}) := by
    refine @FrameBuffer.next_of_part _ 5000 rfl (by decide) ?_
    change firstRead.length < _
    rw [length_firstRead]
    decide
  have left_ : (ClientLoop.start (24, 80)).turn [] (hangUpWith firstRead) =
      .error ⟨{ ClientLoop.start (24, 80) with readBuf := FrameBuffer.feed firstRead {} }, .ok 0⟩ := by
    rw [turn_hangUpWith some_, ClientLoop.takeFrames_none none]
    rfl
  have returned : (wake [] (hangUpWith firstRead) (closing [longOutput] 3 (24, 80))).returned =
      some (.ok 0) := by
    unfold wake
    dsimp only
    rw [show (closing [longOutput] 3 (24, 80)).client = ClientLoop.start (24, 80) from rfl, left_]
  obtain ⟨result, -⟩ := all _ _ _ _ _ bounded reachable returned
  exact absurd result (by decide)

end Attached

end Posh.Session
