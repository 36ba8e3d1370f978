import Posh.Session.Daemon
import Mathlib.Order.Bounds.Basic

/-!
The size of the PTY and the sizes of the attached clients.

Wherever the loop sets a client's size or removes a client in its walk it sets the PTY's
size anew. It does not where it drops a client for its backlog, so that the PTY keeps the
minimum of the sizes as long as no such drop changes that minimum.
-/

namespace Posh.Session

open Posh.Lib Posh.Term

/-! ### The minimum -/

namespace ClientConn

/-- The client has reported a size. -/
def Reported (c : ClientConn) : Prop :=
  c.rows ≠ 0 ∧ c.cols ≠ 0

def size (c : ClientConn) : Nat × Nat :=
  (c.rows, c.cols)

end ClientConn

/-- Elementwise minimum of the sizes that clients have reported. -/
structure Smallest (clients : List ClientConn) (size : Nat × Nat) : Prop where
  rows : IsLeast {r | ∃ c ∈ clients, c.Reported ∧ c.rows = r} size.1
  cols : IsLeast {w | ∃ c ∈ clients, c.Reported ∧ c.cols = w} size.2

/-- The pass over one client. -/
def smaller (acc : Option (Nat × Nat)) (size : Nat × Nat) : Option (Nat × Nat) :=
  if size.1 = 0 ∨ size.2 = 0 then acc
  else
    match acc with
    | none => some size
    | some (r, w) => some (min r size.1, min w size.2)

theorem minClientSize_eq (clients : List ClientConn) :
    minClientSize clients = (clients.map (·.size)).foldl smaller none := by
  rw [List.foldl_map]
  rfl

theorem minClientSize_congr {clients clients' : List ClientConn}
    (same : clients.map (·.size) = clients'.map (·.size)) :
    minClientSize clients = minClientSize clients' := by
  rw [minClientSize_eq, minClientSize_eq, same]

theorem minClientSize_snoc (clients : List ClientConn) (c : ClientConn) :
    minClientSize (clients ++ [c]) = smaller (minClientSize clients) c.size := by
  rw [minClientSize_eq, minClientSize_eq, List.map_append, List.foldl_append]
  rfl

/-- A value of the reported sizes, with one more client. -/
theorem reported_snoc (clients : List ClientConn) {c : ClientConn} (reported : c.Reported)
    (value : ClientConn → Nat) :
    {n | ∃ x ∈ clients ++ [c], x.Reported ∧ value x = n} =
      insert (value c) {n | ∃ x ∈ clients, x.Reported ∧ value x = n} := by
  ext n
  simp only [List.mem_append, List.mem_singleton, Set.mem_ofPred_eq, Set.mem_insert_iff]
  constructor
  · rintro ⟨x, old | rfl, known, rfl⟩
    · exact .inr ⟨x, old, known, rfl⟩
    · exact .inl rfl
  · rintro (rfl | ⟨x, old, known, rfl⟩)
    · exact ⟨c, .inr rfl, reported, rfl⟩
    · exact ⟨x, .inl old, known, rfl⟩

theorem unreported_snoc (clients : List ClientConn) {c : ClientConn} (silent : ¬ c.Reported)
    (value : ClientConn → Nat) :
    {n | ∃ x ∈ clients ++ [c], x.Reported ∧ value x = n} =
      {n | ∃ x ∈ clients, x.Reported ∧ value x = n} := by
  ext n
  simp only [List.mem_append, List.mem_singleton, Set.mem_ofPred_eq]
  constructor
  · rintro ⟨x, old | rfl, known, rfl⟩
    · exact ⟨x, old, known, rfl⟩
    · exact absurd known silent
  · rintro ⟨x, old, known, rfl⟩
    exact ⟨x, .inl old, known, rfl⟩

/-- What is queued for a client leaves the sizes as they are. -/
theorem sizes_modify (clients : List ClientConn) (i : Nat) (tag : Tag) (payload : Bytes) :
    (clients.modify i (·.queue tag payload)).map (·.size) = clients.map (·.size) := by
  refine List.ext_getElem? fun j => ?_
  simp only [List.getElem?_map, List.getElem?_modify]
  cases clients[j]? with
  | none => rfl
  | some c =>
    simp only [Option.map_some]
    split <;> rfl

/-- A client whose size is as it was. -/
theorem sizes_set {clients : List ClientConn} {i : Nat} {c c' : ClientConn}
    (found : clients[i]? = some c) (same : c'.size = c.size) :
    (clients.set i c').map (·.size) = clients.map (·.size) := by
  refine List.ext_getElem? fun j => ?_
  simp only [List.getElem?_map]
  by_cases here : i = j
  · subst here
    have inside := (List.getElem?_eq_some_iff.mp found).1
    rw [List.getElem?_set_self inside, found, Option.map_some, Option.map_some, same]
  · rw [List.getElem?_set_ne here]

/-- `minClientSize` is the minimum, where a size was reported. -/
theorem minClientSize_spec (clients : List ClientConn) :
    (minClientSize clients = none ∧ ∀ c ∈ clients, ¬ c.Reported) ∨
      ∃ size, minClientSize clients = some size ∧ Smallest clients size := by
  induction clients using List.reverseRecOn with
  | nil => exact .inl ⟨rfl, nofun⟩
  | append_singleton clients c ih =>
    rw [minClientSize_snoc]
    by_cases reported : c.Reported
    · have counts : ¬ (c.size.1 = 0 ∨ c.size.2 = 0) := not_or.mpr reported
      right
      rcases ih with ⟨none, silent⟩ | ⟨size, eq, least⟩
      · refine ⟨c.size, ?_, ?_, ?_⟩
        · rw [none, smaller, if_neg counts]
        · rw [reported_snoc clients reported]
          have empty : {n | ∃ x ∈ clients, x.Reported ∧ x.rows = n} = ∅ :=
            Set.eq_empty_of_forall_notMem fun n ⟨x, mem, known, _⟩ => silent x mem known
          rw [empty]
          exact ⟨Set.mem_insert _ _, by simp [lowerBounds, ClientConn.size]⟩
        · rw [reported_snoc clients reported]
          have empty : {n | ∃ x ∈ clients, x.Reported ∧ x.cols = n} = ∅ :=
            Set.eq_empty_of_forall_notMem fun n ⟨x, mem, known, _⟩ => silent x mem known
          rw [empty]
          exact ⟨Set.mem_insert _ _, by simp [lowerBounds, ClientConn.size]⟩
      · refine ⟨(min size.1 c.rows, min size.2 c.cols), ?_, ?_, ?_⟩
        · rw [eq, smaller, if_neg counts]
          rfl
        · have rows := least.rows.insert c.rows
          rw [Nat.min_comm] at rows
          rwa [reported_snoc clients reported]
        · have cols := least.cols.insert c.cols
          rw [Nat.min_comm] at cols
          rwa [reported_snoc clients reported]
    · have skipped : c.size.1 = 0 ∨ c.size.2 = 0 := by
        rwa [ClientConn.Reported, ← not_or, not_not] at reported
      have same : smaller (minClientSize clients) c.size = minClientSize clients := if_pos skipped
      rw [same]
      rcases ih with ⟨none, silent⟩ | ⟨size, eq, rows, cols⟩
      · refine .inl ⟨none, fun x mem => ?_⟩
        rcases List.mem_append.mp mem with old | new
        · exact silent x old
        · rw [List.mem_singleton.mp new]
          exact reported
      · refine .inr ⟨size, eq, ?_, ?_⟩
        · rwa [unreported_snoc clients reported]
        · rwa [unreported_snoc clients reported]

/-- If some attached client has reported a size, the PTY has the minimum of the sizes. -/
def Daemon.Sized (d : Daemon) : Prop :=
  (∃ c ∈ d.clients, c.Reported) → Smallest d.clients d.ptySize

theorem sized_iff (d : Daemon) :
    d.Sized ↔ ∀ size, minClientSize d.clients = some size → d.ptySize = size := by
  rcases minClientSize_spec d.clients with ⟨none, silent⟩ | ⟨size, eq, least⟩
  · rw [none]
    exact ⟨fun _ => nofun, fun _ ⟨c, mem, known⟩ => absurd known (silent c mem)⟩
  · rw [eq]
    constructor
    · intro sized other same
      injection same with same
      subst same
      obtain ⟨c, mem, known, -⟩ := least.rows.1
      have now := sized ⟨c, mem, known⟩
      exact Prod.ext (now.rows.unique least.rows) (now.cols.unique least.cols)
    · intro same _
      rw [same size rfl]
      exact least

/-- Sizes that stay as they are leave the PTY with their minimum. -/
theorem sized_congr {d d' : Daemon} (sized : d.Sized) (pty : d'.ptySize = d.ptySize)
    (same : d'.clients.map (·.size) = d.clients.map (·.size)) : d'.Sized := by
  rw [sized_iff] at sized ⊢
  rw [minClientSize_congr same, pty]
  exact sized

/-! ### A client's turn -/

namespace Visit

/-- A size that was not reported anew is the one the client had. -/
def Keeps (size : Nat × Nat) (v : Visit) : Prop :=
  v.resized = false → v.conn.size = size

variable {size : Nat × Nat} {v : Visit}

theorem keeps_report (payload : Bytes) (keeps : v.Keeps size) : (v.report payload).Keeps size := by
  unfold report
  split
  · exact nofun
  · exact keeps

theorem guarded_handle (info : Bytes) (d : Daemon) (frame : Frame) (keeps : v.Keeps size) :
    Guarded False (v.handle info d frame) fun v => v.Keeps size := by
  unfold handle
  cases frame.tag with
  | init => exact .pure (keeps_report frame.payload keeps)
  | resize => exact .pure (keeps_report frame.payload keeps)
  | history => exact (Guarded.trivial _).bind fun out _ => .pure keeps
  | input | output | detach | detachAll | kill | info | run | ack | exit => exact .pure keeps

theorem guarded_frames (info : Bytes) (d : Daemon) (fuel : Nat) (keeps : v.Keeps size) :
    Guarded False (v.frames info d fuel) fun v => v.Keeps size := by
  induction fuel generalizing v with
  | zero => exact .pure keeps
  | succ fuel ih =>
    unfold frames
    split
    · exact .pure keeps
    · exact .pure keeps
    · rename_i frame readBuf _
      refine (guarded_handle info d frame (v := { v with conn := { v.conn with readBuf } }) keeps).bind
        fun v' keeps' => ?_
      split
      · exact .pure keeps'
      · exact ih keeps'

theorem guarded_readable (info : Bytes) (d : Daemon) (read : SocketRead) (keeps : v.Keeps size) :
    Guarded False (v.readable info d read) fun v => v.Keeps size := by
  unfold readable
  cases read with
  | eof => exact .pure keeps
  | failed => exact .pure keeps
  | wouldBlock => exact guarded_frames info d _ keeps
  | data bytes =>
    exact guarded_frames info d _ (v := { v with conn := { v.conn with readBuf := _ } }) keeps

theorem keeps_writable (write : SocketWrite) (keeps : v.Keeps size) :
    (v.writable write).Keeps size := by
  unfold writable
  split
  · exact keeps
  · cases write with
    | wrote n => exact keeps
    | wouldBlock => exact keeps
    | failed => exact keeps

end Visit

theorem guarded_visit (info : Bytes) (d : Daemon) (revents : ConnEvents) (conn : ClientConn) :
    Guarded False (visit info d revents conn) fun v => v.Keeps conn.size := by
  have start : ({ conn } : Visit).Keeps conn.size := fun _ => rfl
  unfold visit
  refine Guarded.bind (p := fun v => v.Keeps conn.size) ?_ fun v keeps => ?_
  · split
    · exact Visit.guarded_readable info d _ start
    · exact .pure start
  · split
    · exact .pure keeps
    · have written (write : SocketWrite) : (v.writable write).Keeps conn.size :=
        Visit.keeps_writable _ keeps
      refine .pure ?_
      cases revents.write with
      | some write =>
        dsimp only
        split
        · exact written write
        · exact written write
      | none =>
        dsimp only
        split
        · exact keeps
        · exact keeps

/-! ### The iteration -/

namespace Daemon

variable {d : Daemon}

theorem guarded_applyClientSize (d : Daemon) :
    Guarded False (applyClientSize d) fun d' => d'.Sized ∧ d'.clients = d.clients := by
  unfold applyClientSize
  split
  · rename_i rows cols eq
    refine (Guarded.trivial _).bind fun term _ => .pure ⟨?_, rfl⟩
    rw [sized_iff]
    intro size same
    exact Option.some.inj (eq.symm.trans same)
  · rename_i eq
    refine .pure ⟨?_, rfl⟩
    rw [sized_iff, eq]
    exact nofun

theorem guarded_settle (i : Nat) (v : Visit)
    (sized : v.resized = false → v.remove = false → d.Sized) :
    Guarded False (d.settle i v) Sized := by
  unfold settle
  refine Guarded.bind (p := fun d' => v.resized = false → v.remove = false → d'.Sized) ?_
    fun d₁ sized₁ => ?_
  · by_cases removed : v.remove = true
    · rw [if_pos removed]
      refine (Guarded.trivial _).bind fun r _ => .pure fun _ kept => ?_
      rw [removed] at kept
      cases kept
    · rw [if_neg removed]
      exact .pure sized
  · refine Guarded.bind (p := Sized) ?_ fun d₂ sized₂ => ?_
    · by_cases changed : (v.remove || v.resized) = true
      · rw [if_pos changed]
        exact (guarded_applyClientSize d₁).mono fun _ h => h.1
      · rw [if_neg changed]
        rw [Bool.not_eq_true, Bool.or_eq_false_iff] at changed
        exact .pure (sized₁ changed.2 changed.1)
    · split
      · refine (Guarded.trivial _).bind fun dump _ => .pure (sized_congr sized₂ rfl ?_)
        exact sizes_modify d₂.clients i .output dump
      · exact .pure sized₂

theorem guarded_walk (info : Nat → Bytes) (revents : Nat → ConnEvents) (i : Nat) (sized : d.Sized) :
    Guarded False (walk info revents i d) fun out => ∀ d', out = some d' → d'.Sized := by
  induction i generalizing d with
  | zero => exact .pure fun d' same => Option.some.inj same ▸ sized
  | succ i ih =>
    rw [walk]
    refine (Guarded.getAt.weaken False.elim).bind fun conn found => ?_
    refine (guarded_visit _ d (revents i) conn).bind fun v keeps => ?_
    by_cases killed : v.kill = true
    · rw [if_pos killed]
      refine .pure fun d' none => ?_
      cases none
    · rw [if_neg killed]
      by_cases all : v.detachAll = true
      · rw [if_pos all]
        refine .pure fun d' same => ?_
        rw [← Option.some.inj same]
        rintro ⟨c, mem, -⟩
        cases mem
      · rw [if_neg all]
        refine (Guarded.setAt.weaken False.elim).bind fun clients set => ?_
        have kept : v.resized = false → v.remove = false → ({ d with clients } : Daemon).Sized := by
          intro unchanged _
          refine sized_congr sized rfl ?_
          rw [set]
          exact sizes_set found (keeps unchanged)
        exact (guarded_settle i v kept).bind fun d' sized' => ih sized'

/-- Clients dropped for their backlog leave the minimum as it was, or leave nobody who has
reported a size. -/
def Harmless (d : Daemon) : Prop :=
  minClientSize d.dropSlow.clients = minClientSize d.clients ∨
    minClientSize d.dropSlow.clients = none

theorem sized_dropSlow (sized : d.Sized) (harmless : d.Harmless) : d.dropSlow.Sized := by
  rw [sized_iff] at sized ⊢
  intro size eq
  rcases harmless with same | none
  · exact sized size (same.symm.trans eq)
  · rw [none] at eq
    cases eq

theorem sized_accept (sized : d.Sized) : d.accept.Sized := by
  rw [sized_iff] at sized ⊢
  intro size eq
  refine sized size ?_
  rw [accept, minClientSize_snoc] at eq
  exact eq

theorem guarded_readPty (read : PtyRead) (sized : d.Sized) :
    Guarded False (d.readPty read) Sized := by
  unfold readPty
  refine (Guarded.trivial _).bind fun s _ => .pure (sized_congr sized rfl ?_)
  split
  · rfl
  · rw [List.map_map]
    rfl

/-- One iteration keeps the size, unless the drop at its top changes the minimum. -/
theorem guarded_iterate (info : Nat → Bytes) (turn : Turn) (sized : d.Sized)
    (harmless : d.Harmless) :
    Guarded False (d.iterate info turn) fun out => ∀ d', out = some d' → d'.Sized := by
  have dropped := sized_dropSlow sized harmless
  have left : ∀ d' : Daemon, none = some d' → d'.Sized := by
    intro d' none
    cases none
  unfold iterate
  split
  · exact .pure left
  · dsimp only
    split
    · exact .pure fun d' same => Option.some.inj same ▸ dropped
    · exact .pure left
    · split
      · exact .pure left
      · have accepted : (if turn.accepted = true then d.dropSlow.accept else d.dropSlow).Sized := by
          split
          · exact sized_accept dropped
          · exact dropped
        split
        · exact .pure left
        · exact guarded_walk info turn.revents _ accepted
        · exact (guarded_readPty _ accepted).bind fun d' sized' => guarded_walk info turn.revents _ sized'

theorem sized_start : start.Sized := by
  rintro ⟨c, mem, -⟩
  cases mem

/-- The runs in which no client dropped for its backlog was alone in being the smallest. -/
def harmless (info : Nat → Bytes) : Transition Daemon where
  init d := d = start
  step d d' := d.Harmless ∧ ∃ turn, d.iterate info turn = .ok (some d')

/-- At the end of every iteration the PTY has the minimum of the sizes that the attached
clients have reported. -/
theorem window_size_shared (info : Nat → Bytes) {d : Daemon} (reach : (harmless info).Reachable d) :
    d.Sized := by
  refine reach.induct (I := Sized) ?_ ?_
  · rintro d rfl
    exact sized_start
  · rintro d d' - sized ⟨safe, turn, iterated⟩
    exact (guarded_iterate info turn sized safe).of_eq_ok iterated d' rfl

/-! ### Two clients -/

theorem next_empty {b : FrameBuffer} (empty : b.unread = []) : b.next = (.ok none, b) :=
  FrameBuffer.next_of_short (by rw [empty]; exact Nat.zero_lt_succ _)

/-- A client reports its size. -/
def reporting (rows cols : Nat) : ConnEvents :=
  { read := some (.data (encodeFrame .resize (encodeResize rows cols))) }

theorem decodeResize_encodeResize {rows cols : Nat} (rows_lt : rows < 2 ^ 16) (cols_lt : cols < 2 ^ 16) :
    decodeResize (encodeResize rows cols) = some (rows, cols) := by
  have first : (encodeResize rows cols).take 2 = leBytes 2 rows := List.take_left' (length_leBytes 2 _)
  have second : (encodeResize rows cols).drop 2 = leBytes 2 cols := List.drop_left' (length_leBytes 2 _)
  have length : (encodeResize rows cols).length = 4 := by
    rw [encodeResize, List.length_append, length_leBytes, length_leBytes]
  rw [decodeResize, if_neg (by omega), first, second, ofLeBytes_leBytes_of_lt (by omega),
    ofLeBytes_leBytes_of_lt (by omega)]

theorem visit_reporting (info : Bytes) (d : Daemon) (conn : ClientConn) (empty : conn.readBuf.unread = [])
    {rows cols : Nat} (rows_lt : rows < 2 ^ 16) (cols_lt : cols < 2 ^ 16) :
    ∃ readBuf, visit info d (reporting rows cols) conn =
      .ok { conn := { conn with readBuf, rows, cols }, resized := true } := by
  have frame_fits : (⟨.resize, encodeResize rows cols⟩ : Frame).Fits := by
    unfold Frame.Fits MAX_FRAME_LEN
    simp [encodeResize]
  have arrived : (conn.readBuf.feed (encodeFrame .resize (encodeResize rows cols))).unread =
      (⟨.resize, encodeResize rows cols⟩ : Frame).encode ++ [] := by
    rw [FrameBuffer.unread_feed, empty, List.nil_append, List.append_nil]
    rfl
  obtain ⟨b, next, rest⟩ := FrameBuffer.next_of_frame frame_fits arrived
  have length : (conn.readBuf.feed (encodeFrame .resize (encodeResize rows cols))).unread.length + 1 =
      8 + 2 := by
    rw [FrameBuffer.unread_feed, empty, List.nil_append]
    rfl
  refine ⟨b, ?_⟩
  have frames : ({ conn := { conn with
      readBuf := conn.readBuf.feed (encodeFrame .resize (encodeResize rows cols)) } } : Visit).frames
      info d (8 + 2) = .ok { conn := { conn with readBuf := b, rows, cols }, resized := true } := by
    rw [Visit.frames]
    simp only [next, Visit.handle, Visit.report, decodeResize_encodeResize rows_lt cols_lt]
    change Visit.frames info d 9 _ = _
    rw [Visit.frames]
    simp only [next_empty rest]
    rfl
  rw [visit]
  simp only [reporting, Visit.readable, length, frames]
  rfl

/-- A screenful of output that changes nothing. -/
def padding : PtyRead :=
  ⟨fun _ => none, List.replicate 4096 0⟩

theorem processByte_nul (files : Files) :
    (Terminal.withScrollback 24 80 SCROLLBACK).processByte files 0 =
      .ok (Terminal.withScrollback 24 80 SCROLLBACK) :=
  rfl

theorem process_nuls (files : Files) (n : Nat) :
    (Terminal.withScrollback 24 80 SCROLLBACK).process files (List.replicate n 0) =
      .ok (Terminal.withScrollback 24 80 SCROLLBACK) := by
  induction n with
  | zero => rfl
  | succ n ih =>
    rw [List.replicate_succ, Terminal.process, forEach, processByte_nul]
    exact ih

theorem feed_padding :
    ({ term := Terminal.withScrollback 24 80 SCROLLBACK } : Broadcast).feed padding.files padding.chunk =
      .ok { term := Terminal.withScrollback 24 80 SCROLLBACK, out := padding.chunk } := by
  have plain : padding.chunk.any (fun b => b == 0x1B || b == 0x9B) = false := by
    change (List.replicate 4096 (0 : UInt8)).any _ = false
    rw [List.any_replicate]
    rfl
  rw [Broadcast.feed, if_pos (by simp [plain]; rfl)]
  change (Terminal.process _ _ _ >>= _) = _
  rw [padding, process_nuls]
  rfl

/-- The daemon with the clients given; their smallest size is the terminal's. -/
def attended (flag : Bool) (clients : List ClientConn) : Daemon :=
  { start with clients, hasPtyOutput := flag }

/-- A client of the terminal's size. -/
def slow (readBuf : FrameBuffer) (writeBuf : Bytes) : ClientConn :=
  { readBuf, writeBuf, rows := 24, cols := 80 }

/-- A client of a larger window. -/
def quick (readBuf : FrameBuffer) (writeBuf : Bytes) : ClientConn :=
  { readBuf, writeBuf, rows := 30, cols := 100 }

variable (info : Nat → Bytes)

/-- A client's visit in the walk. -/
theorem walk_succ (revents : Nat → ConnEvents) (i : Nat) (d : Daemon) {d' : Daemon}
    {conn : ClientConn} (v : Visit) (found : d.clients[i]? = some conn)
    (visited : visit (info (d.clients.length - 1)) d (revents i) conn = .ok v)
    (kill : v.kill = false) (detachAll : v.detachAll = false)
    (settled : settle i v { d with clients := d.clients.set i v.conn } = .ok d') :
    walk info revents (i + 1) d = walk info revents i d' := by
  have inside := (List.getElem?_eq_some_iff.mp found).1
  have got : getAt d.clients i = .ok conn := by rw [getAt, found]
  have set : setAt d.clients i v.conn = .ok (d.clients.set i v.conn) := if_pos inside
  rw [walk, got]
  change (visit _ d (revents i) conn >>= _) = _
  rw [visited]
  change (if v.kill = true then _ else _) = _
  rw [kill, if_neg (by decide), detachAll, if_neg (by decide), set]
  change (settle i v _ >>= _) = _
  rw [settled]
  rfl

theorem settle_reported {i : Nat} {conn : ClientConn} (clients : List ClientConn) (flag : Bool)
    (least : minClientSize clients = some (24, 80)) :
    settle i { conn, resized := true } (attended flag clients) = .ok (attended flag clients) := by
  have applied : applyClientSize (attended flag clients) = .ok (attended flag clients) := by
    have same : minClientSize (attended flag clients).clients = some (24, 80) := least
    rw [applyClientSize, same]
    rfl
  rw [settle]
  change (applyClientSize (attended flag clients) >>= _) = _
  rw [applied]
  rfl

/-- An iteration that finds no output. -/
theorem iterate_idle (revents : Nat → ConnEvents) (d : Daemon) :
    d.iterate info { revents } = walk info revents d.dropSlow.clients.length d.dropSlow := by
  simp [iterate]

/-- An iteration that reads output. -/
theorem iterate_output {read : PtyRead} {d d' : Daemon} (revents : Nat → ConnEvents)
    (fed : d.dropSlow.readPty read = .ok d')
    (same : d'.clients.length = d.dropSlow.clients.length) :
    d.iterate info { pty := .data read, revents } = walk info revents d'.clients.length d' := by
  have step : d.iterate info { pty := .data read, revents } = d.dropSlow.readPty read >>= fun d' =>
      walk info revents (min d'.clients.length d.dropSlow.clients.length) d' := by
    simp [iterate]
  rw [step, fed]
  change walk info revents (min d'.clients.length d.dropSlow.clients.length) d' = _
  rw [same, Nat.min_self]

/-- Both clients are attached, and the PTY has the smaller size. -/
theorem reachable_attended :
    ∃ b b', (harmless info).Reachable (attended false [slow b [], quick b' []]) := by
  obtain ⟨b, first⟩ := visit_reporting (info 1) (attended false [{}, {}]) {} rfl
    (show 24 < 2 ^ 16 by decide) (show 80 < 2 ^ 16 by decide)
  obtain ⟨b', second⟩ := visit_reporting (info 1) (attended false [slow b [], {}]) {} rfl
    (show 30 < 2 ^ 16 by decide) (show 100 < 2 ^ 16 by decide)
  have one : (harmless info).Reachable (attended false [{}]) :=
    (Transition.Reachable.of_init rfl).tail ⟨.inl rfl, { accepted := true }, rfl⟩
  have two : (harmless info).Reachable (attended false [slow b [], {}]) := by
    refine one.tail ⟨.inl rfl, { accepted := true, revents := fun _ => reporting 24 80 }, ?_⟩
    change walk info _ 1 (attended false [{}, {}]) = _
    rw [walk_succ info (fun _ => reporting 24 80) 0 (attended false [{}, {}]) _ rfl first rfl rfl
      (settle_reported [slow b [], {}] false rfl)]
    rfl
  refine ⟨b, b', two.tail ⟨.inl rfl, { revents := fun i => if i = 1 then reporting 30 100 else {} }, ?_⟩⟩
  change walk info _ 2 (attended false [slow b [], {}]) = _
  rw [walk_succ info (fun i => if i = 1 then reporting 30 100 else {}) 1
      (attended false [slow b [], {}]) _ rfl second rfl rfl
      (settle_reported [slow b [], quick b' []] false rfl),
    walk_succ info _ 0 (attended false [slow b [], quick b' []]) { conn := slow b [] }
      rfl rfl rfl rfl rfl]
  rfl

theorem window_size_shared_attended :
    ∃ b b', (attended false [slow b [], quick b' []]).Sized := by
  obtain ⟨b, b', reach⟩ := reachable_attended fun _ => []
  exact ⟨b, b', window_size_shared _ reach⟩

theorem reachable_of_harmless {info : Nat → Bytes} {d : Daemon} (reach : (harmless info).Reachable d) :
    (system info).Reachable d := by
  refine reach.induct (I := (system info).Reachable) ?_ ?_
  · exact fun d start => .of_init start
  · exact fun d d' _ before step => before.tail step.2

/-- The quick client takes what was queued for it. -/
def draining (i : Nat) : ConnEvents :=
  if i = 1 then { write := some (.wrote 4101) } else {}

theorem length_queued (w : Bytes) : (appendFrame w .output padding.chunk).length = w.length + 4101 := by
  have chunk : padding.chunk.length = 4096 := List.length_replicate
  simp only [appendFrame, List.length_append, length_leBytes, List.length_singleton]
  omega

/-- Output is queued for both. -/
theorem readPty_padding (flag : Bool) (b b' : FrameBuffer) (w : Bytes) :
    (attended flag [slow b w, quick b' []]).readPty padding =
      .ok (attended true [slow b (appendFrame w .output padding.chunk),
        quick b' (appendFrame [] .output padding.chunk)]) := by
  rw [readPty]
  change (Broadcast.feed padding.files padding.chunk
    { term := Terminal.withScrollback 24 80 SCROLLBACK } >>= _) = _
  rw [feed_padding]
  rfl

theorem visit_draining (info : Bytes) (d : Daemon) (b' : FrameBuffer) :
    visit info d (draining 1) (quick b' (appendFrame [] .output padding.chunk)) =
      .ok { conn := quick b' [] } := by
  have taken : (quick b' (appendFrame [] .output padding.chunk)).write 4101 = quick b' [] := by
    have length : (appendFrame [] .output padding.chunk).length = 4101 := length_queued []
    rw [ClientConn.write, quick]
    dsimp only
    rw [List.drop_of_length_le (Nat.le_of_eq length)]
    rfl
  have wrote : visit info d (draining 1) (quick b' (appendFrame [] .output padding.chunk)) =
      .ok { conn := (quick b' (appendFrame [] .output padding.chunk)).write 4101 } := rfl
  rwa [taken] at wrote

/-- One more screenful of output: what is queued for the slow client grows, and the quick
one takes it. -/
theorem iterate_padding {flag : Bool} {b b' : FrameBuffer} {w : Bytes}
    (small : w.length ≤ MAX_CLIENT_BACKLOG) :
    (attended flag [slow b w, quick b' []]).iterate info
        { pty := .data padding, revents := draining } =
      .ok (some (attended true [slow b (appendFrame w .output padding.chunk), quick b' []])) := by
  have kept : (attended flag [slow b w, quick b' []]).dropSlow =
      attended flag [slow b w, quick b' []] := by
    have retained : (slow b w).retained = true := by
      simp [ClientConn.retained, slow, Nat.not_lt.mpr small]
    have empty : (quick b' []).retained = true := rfl
    rw [dropSlow]
    simp only [attended, List.filter_cons, retained, empty, if_true, List.filter_nil]
  have read := readPty_padding flag b b' w
  have wrote := visit_draining (info 1) (attended true [slow b (appendFrame w .output padding.chunk),
    quick b' (appendFrame [] .output padding.chunk)]) b'
  rw [iterate_output info _ (by rw [kept]; exact read) (by rw [kept]; rfl)]
  change walk info _ 2 _ = _
  have drained : settle 1 { conn := quick b' [] } (attended true
      [slow b (appendFrame w .output padding.chunk), quick b' []]) =
        .ok (attended true [slow b (appendFrame w .output padding.chunk), quick b' []]) := rfl
  rw [walk_succ info draining 1 (attended true [slow b (appendFrame w .output padding.chunk),
      quick b' (appendFrame [] .output padding.chunk)]) _ rfl wrote rfl rfl drained,
    walk_succ info draining 0
      (attended true [slow b (appendFrame w .output padding.chunk), quick b' []])
      { conn := slow b (appendFrame w .output padding.chunk) } rfl rfl rfl rfl rfl]
  rfl

/-- The slow client's backlog grows with every iteration until it is past the limit. -/
theorem reachable_backlog {b b' : FrameBuffer} {flag : Bool}
    (start : (system info).Reachable (attended flag [slow b [], quick b' []])) :
    ∀ n ≤ 4092, ∃ flag w, w.length = n * 4101 ∧
      (system info).Reachable (attended flag [slow b w, quick b' []]) := by
  intro n
  induction n with
  | zero => exact fun _ => ⟨flag, [], rfl, start⟩
  | succ n ih =>
    intro few
    obtain ⟨flag, w, length, before⟩ := ih (by omega)
    have small : w.length ≤ MAX_CLIENT_BACKLOG := by
      unfold MAX_CLIENT_BACKLOG
      omega
    refine ⟨true, _, ?_, before.tail ⟨_, iterate_padding info small⟩⟩
    rw [length_queued]
    omega

/-- The smaller of two clients is dropped for its backlog, and the PTY keeps its size. -/
theorem backlog_unsized :
    ¬ ∀ (info : Nat → Bytes) (d : Daemon), (system info).Reachable d → d.Sized := by
  intro all
  obtain ⟨b, b', both⟩ := reachable_attended fun _ => []
  obtain ⟨flag, w, length, queued⟩ :=
    reachable_backlog (fun _ => []) (reachable_of_harmless both) 4092 (Nat.le_refl _)
  have dropped : (system fun _ => []).Reachable (attended flag [quick b' []]) := by
    have large : (slow b w).retained = false := by
      have bound : w.length > MAX_CLIENT_BACKLOG := by
        unfold MAX_CLIENT_BACKLOG
        omega
      simp [ClientConn.retained, slow, bound]
    have empty : (quick b' []).retained = true := rfl
    have left : (attended flag [slow b w, quick b' []]).dropSlow = attended flag [quick b' []] := by
      rw [dropSlow]
      simp only [attended, List.filter_cons, large, empty, if_true, List.filter_nil,
        Bool.false_eq_true, if_false]
    refine queued.tail ⟨{}, ?_⟩
    rw [iterate_idle, left]
    change walk (fun _ => []) (fun _ => {}) 1 (attended flag [quick b' []]) = _
    rw [walk_succ _ _ 0 (attended flag [quick b' []]) { conn := quick b' [] } rfl rfl rfl rfl rfl]
    rfl
  have sized := (sized_iff _).mp (all _ _ dropped) (30, 100) rfl
  cases sized

end Daemon

end Posh.Session
