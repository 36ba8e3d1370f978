import Posh.Lib.Transition
import Posh.Lib.Utf8Codec
import Posh.Session.Ipc
import Posh.Term.Dump
import Posh.Term.Runs
import Posh.Term.Streams
import Posh.Term.Writes

/-!
What the daemon queues for a client (`daemon.rs`), and whether it arrives.

A client with more than `MAX_CLIENT_BACKLOG` bytes queued is dropped at the top of the
loop, before anything of a new frame is written. So a frame arrives exactly when it fits
the backlog by itself, which is less than a frame may hold.
-/

namespace Posh.Session

open Posh.Lib Posh.Term

def SCROLLBACK : Nat := 10000

/-- A client whose unsent backlog grows past this is dropped. -/
def MAX_CLIENT_BACKLOG : Nat := 16 * 1024 * 1024

structure ClientConn where
  readBuf : FrameBuffer := .new
  writeBuf : Bytes := []
  /-- Zero while not reported. -/
  rows : Nat := 0
  cols : Nat := 0
deriving DecidableEq, Repr

namespace ClientConn

def queue (tag : Tag) (payload : Bytes) (c : ClientConn) : ClientConn :=
  { c with writeBuf := appendFrame c.writeBuf tag payload }

/-- Not dropped at the top of the loop. -/
def retained (c : ClientConn) : Bool :=
  !(c.writeBuf.length > MAX_CLIENT_BACKLOG)

/-- One write to the socket, which takes `n` bytes. -/
def write (n : Nat) (c : ClientConn) : ClientConn :=
  { c with writeBuf := c.writeBuf.drop n }

end ClientConn

/-- What the daemon queues. -/
inductive Queued where
  /-- For an `Init`. -/
  | replay
  /-- For a `History` request with its payload. -/
  | history (format : Bytes)
  | broadcast (out : Bytes)
  | info (record : Bytes)
  | ack

namespace Queued

def tag : Queued → Tag
  | replay => .output
  | history _ => .history
  | broadcast _ => .output
  | info _ => .info
  | ack => .ack

def payload (q : Queued) (t : Terminal) : Checked Bytes :=
  match q with
  | replay => t.dumpVtFlat
  | history format =>
      if decodeHistoryFormat format then t.dumpVt else toUtf8 <$> t.dumpText
  | broadcast out => .ok out
  | info record => .ok record
  | ack => .ok []

end Queued

/-- A frame on its way to a client. -/
structure Delivery where
  /-- None once the client is dropped. -/
  conn : Option ClientConn
  /-- Written by the daemon and not read yet. -/
  wire : Bytes := []
  client : FrameBuffer := .new
  received : List Frame := []
  failed : Option String := none

namespace Delivery

variable {s s' : Delivery} {f : Frame}

/-- The top of the daemon's loop and, where the client is kept, one write. -/
def turn (n : Nat) (s : Delivery) : Delivery :=
  match s.conn with
  | some c =>
      if c.retained then
        { s with conn := some (c.write n), wire := s.wire ++ c.writeBuf.take n }
      else { s with conn := none }
  | none => s

/-- The client reads up to `n` bytes. -/
def read (n : Nat) (s : Delivery) : Delivery :=
  { s with client := s.client.feed (s.wire.take n), wire := s.wire.drop n }

/-- The client takes the next frame. -/
def take (s : Delivery) : Delivery :=
  match s.client.next with
  | (.ok (some frame), client) => { s with client, received := s.received ++ [frame] }
  | (.ok none, client) => { s with client }
  | (.error message, client) => { s with client, failed := some message }

inductive Step : Delivery → Delivery → Prop
  | turn (n : Nat) (s : Delivery) : Step s (s.turn n)
  | read (n : Nat) (s : Delivery) : Step s (s.read n)
  | take (s : Delivery) : Step s s.take

/-- One frame, queued where nothing else is. -/
def delivery (f : Frame) : Transition Delivery where
  init s := s = { conn := some (ClientConn.queue f.tag f.payload {}) }
  step := Step

/-- The client is kept, accepts what comes, and has the frame when nothing is left. -/
structure Served (f : Frame) (s : Delivery) : Prop where
  kept : s.conn ≠ none
  accepted : s.failed = none
  whole : ∀ c, s.conn = some c → c.writeBuf = [] → s.wire = [] → s.client.next.1 = .ok none →
    s.received = [f]

/-- The frames received and those on their way are the one that was queued. -/
structure Underway (f : Frame) (s : Delivery) : Prop where
  accepted : s.failed = none
  pending : ∃ c later, s.conn = some c ∧ c.writeBuf.length ≤ MAX_CLIENT_BACKLOG ∧
    s.received ++ later = [f] ∧ s.client.Holds (s.wire ++ c.writeBuf) later

theorem fits_later {later : List Frame} (fits : f.Fits) (one : s.received ++ later = [f]) :
    ∀ g ∈ later, g.Fits := by
  intro g mem
  have all : g ∈ s.received ++ later := List.mem_append_right _ mem
  rw [one, List.mem_singleton] at all
  rw [all]
  exact fits

theorem step_underway (fits : f.Fits) (h : s.Underway f) (step : Step s s') : s'.Underway f := by
  obtain ⟨accepted, c, later, conn, small, one, holds⟩ := h
  cases step with
  | turn n =>
    unfold turn
    rw [conn]
    have retained : c.retained = true := by
      unfold ClientConn.retained
      simpa using small
    dsimp only
    rw [if_pos retained]
    refine ⟨accepted, c.write n, later, rfl, ?_, one, ?_⟩
    · exact Nat.le_trans (Nat.le_of_eq List.length_drop) (Nat.le_trans (Nat.sub_le _ _) small)
    · dsimp only
      rw [List.append_assoc]
      change s.client.Holds (s.wire ++ (c.writeBuf.take n ++ c.writeBuf.drop n)) later
      rw [List.take_append_drop]
      exact holds
  | read n =>
    refine ⟨accepted, c, later, conn, small, one, ?_⟩
    apply FrameBuffer.Holds.feed
    change s.client.Holds (s.wire.take n ++ (s.wire.drop n ++ c.writeBuf)) later
    rw [← List.append_assoc, List.take_append_drop]
    exact holds
  | take =>
    unfold take
    rcases FrameBuffer.next_spec (fits_later fits one) holds with
      ⟨none, -⟩ | ⟨g, rest, b, rfl, given, after⟩
    · rw [none]
      exact ⟨accepted, c, later, conn, small, one, holds⟩
    · rw [given]
      exact ⟨accepted, c, rest, conn, small, by rw [← one]; simp, after⟩

theorem Underway.served (fits : f.Fits) (h : s.Underway f) : Served f s := by
  obtain ⟨accepted, c, later, conn, -, one, holds⟩ := h
  refine ⟨?_, accepted, ?_⟩
  · rw [conn]
    exact Option.some_ne_none c
  · intro c' conn' written empty none
    rw [conn] at conn'
    cases conn'
    rw [written, empty, List.nil_append] at holds
    have nothing : later = [] := by
      rcases FrameBuffer.next_spec (fits_later fits one) holds with
        ⟨-, waits⟩ | ⟨g, rest, b, -, given, -⟩
      · exact holds.exhausted waits
      · rw [given] at none
        cases none
    rw [nothing, List.append_nil] at one
    exact one

/-- A frame is served in every run exactly when it fits the backlog by itself. -/
theorem served_iff (f : Frame) : (∀ s, (delivery f).Reachable s → Served f s) ↔
    HEADER_LEN + f.payload.length ≤ MAX_CLIENT_BACKLOG := by
  have queued : (ClientConn.queue f.tag f.payload {}).writeBuf.length =
      HEADER_LEN + f.payload.length := f.length_encode
  constructor
  · intro all
    by_contra large
    have start : (delivery f).init { conn := some (ClientConn.queue f.tag f.payload {}) } := rfl
    have dropped := all _ (Transition.Reachable.tail (.of_init start) (.turn 0 _))
    have gone : (ClientConn.queue f.tag f.payload {}).retained = false := by
      unfold ClientConn.retained
      rw [queued]
      simpa using large
    apply dropped.kept
    unfold turn
    dsimp only
    rw [gone]
    rfl
  · intro small s reachable
    have fits : f.Fits := by
      unfold Frame.Fits
      unfold MAX_CLIENT_BACKLOG at small
      unfold MAX_FRAME_LEN
      omega
    have underway : s.Underway f := by
      refine reachable.induct (I := Underway f) ?_ ?_
      · rintro s rfl
        refine ⟨rfl, _, [f], rfl, ?_, rfl, ?_⟩
        · rw [queued]
          exact small
        · unfold FrameBuffer.Holds FrameBuffer.encodeAll
          rw [List.flatMap_singleton]
          rfl
      · rintro s s' - underway step
        exact step_underway fits underway step
    exact underway.served fits

end Delivery

/-- What is queued for a client arrives. -/
def Queued.Arrives (q : Queued) (t : Terminal) : Prop :=
  ∀ payload, q.payload t = .ok payload →
    ∀ s, (Delivery.delivery ⟨q.tag, payload⟩).Reachable s → s.Served ⟨q.tag, payload⟩

/-- It is small enough for the backlog. -/
def Queued.Small (q : Queued) (t : Terminal) : Prop :=
  ∀ payload, q.payload t = .ok payload → HEADER_LEN + payload.length ≤ MAX_CLIENT_BACKLOG

/-- What is queued arrives exactly when it is small enough for the backlog. -/
theorem Queued.arrives_iff (q : Queued) (t : Terminal) : q.Arrives t ↔ q.Small t :=
  forall_congr' fun payload => imp_congr_right fun _ => Delivery.served_iff ⟨q.tag, payload⟩

/-! ### A replay that is too large -/

/-- An OSC string of one command. -/
def oscString (code rest : List Char) : Bytes :=
  0x1B :: 0x5D :: (toUtf8 (code ++ ';' :: rest) ++ [0x07])

theorem process_oscString (files : Files) (code rest : List Char) {n : Nat} {t : Terminal}
    (absent : ';' ∉ code) (command : parseU16 code = some n)
    (graphic : ∀ c ∈ code ++ ';' :: rest, Term.Graphic c)
    (fits : utf8Length (code ++ ';' :: rest) ≤ MAX_OSC) (ready : t.parser.Ready) :
    ∃ q, q.Ready ∧
      t.process files (oscString code rest) = { t with parser := q }.oscCommand n rest true := by
  have escape : t.parser.advance 0x1B = .ok ({ t.parser with state := .escape }, []) := by
    rw [ready.advance]
    rfl
  obtain ⟨q, opened, state, holds⟩ := Parser.feed_osc (graphic_toUtf8 graphic)
    (p := { t.parser with state := .escape }) ⟨rfl, ready.whole⟩
  have last : q.advance 0x07 =
      .ok ({ q with stringBuf := [], stringOverflow := false, state := .ground },
        [.osc (toUtf8 (code ++ ';' :: rest)) true]) := by
    have ended := holds.finishOsc true
    unfold Parser.stringAction at ended
    rw [length_toUtf8, if_pos fits] at ended
    unfold Parser.advance
    rw [state, ← ended]
    rfl
  refine ⟨{ q with stringBuf := [], stringOverflow := false, state := .ground },
    ⟨rfl, holds.whole⟩, ?_⟩
  have spelled : oscString code rest =
      (0x1B :: 0x5D :: toUtf8 (code ++ ';' :: rest)) ++ [0x07] := rfl
  rw [spelled, Terminal.process_last (Parser.feed_step escape opened) last]
  change Terminal.oscDispatch _ true _ = _
  unfold Terminal.oscDispatch
  dsimp only
  rw [fromUtf8Lossy_toUtf8, splitOnce_append absent]
  dsimp only [Option.getD_some]
  rw [command]

/-- A text of one letter. -/
def longText (n : Nat) (c : Char) : List Char :=
  c :: List.replicate n c

@[simp] theorem length_longText (n : Nat) (c : Char) : (longText n c).length = n + 1 := by
  unfold longText
  rw [List.length_cons, List.length_replicate]

theorem mem_longText {n : Nat} {c x : Char} (mem : x ∈ longText n c) : x = c := by
  unfold longText at mem
  rcases List.mem_cons.mp mem with same | later
  · exact same
  · exact List.eq_of_mem_replicate later

theorem graphic_longText {head : List Char} (graphic : ∀ x ∈ head, Term.Graphic x) (n : Nat)
    {c : Char} (letter : Term.Graphic c) : ∀ x ∈ head ++ longText n c, Term.Graphic x := by
  intro x mem
  rcases List.mem_append.mp mem with first | later
  · exact graphic x first
  · rw [mem_longText later]
    exact letter

theorem utf8Length_longText (n : Nat) {c : Char} (ascii : c.utf8Size = 1) :
    utf8Length (longText n c) = n + 1 := by
  have letters : ∀ n, utf8Length (List.replicate n c) = n := by
    intro n
    induction n with
    | zero => rfl
    | succ n ih => rw [List.replicate_succ, utf8Length_cons, ih, ascii, Nat.add_comm]
  unfold longText
  rw [utf8Length_cons, letters, ascii, Nat.add_comm]

/-- Both titles, the working directory and an open link, each as long as the parser takes. -/
def longTexts : Bytes :=
  oscString ['2'] (longText 4194301 't') ++ oscString ['1'] (longText 4194301 'i') ++
    oscString ['7'] (longText 4194301 'p') ++ oscString ['8'] (';' :: longText 4194300 'u')

/-- A session's terminal after them. -/
def crowded (parser : Parser) : Terminal :=
  { Terminal.withScrollback 24 80 SCROLLBACK with
    parser, title := longText 4194301 't', iconTitle := longText 4194301 'i'
    pwd := longText 4194301 'p', hyperlinks := [(1, ⟨[], longText 4194300 'u'⟩)]
    nextHyperlink := 1, cursor.hyperlink := 1, generation := 3 }

theorem process_longTexts : ∃ q,
    (Terminal.withScrollback 24 80 SCROLLBACK).process (fun _ => none) longTexts =
      .ok (crowded q) := by
  have graphic (head : List Char) (plain : head.all (fun c => decide (Term.Graphic c)) = true)
      (n : Nat) {c : Char} (letter : Term.Graphic c) : ∀ x ∈ head ++ longText n c, Term.Graphic x :=
    graphic_longText (forall_of_all plain) n letter
  have fits (head : List Char) (n : Nat) {c : Char} (ascii : c.utf8Size = 1)
      (room : utf8Length head + (n + 1) ≤ MAX_OSC) :
      utf8Length (head ++ longText n c) ≤ MAX_OSC := by
    rw [utf8Length_append, utf8Length_longText n ascii]
    exact room
  let titled (q : Parser) : Terminal := { Terminal.withScrollback 24 80 SCROLLBACK with
    parser := q, title := longText 4194301 't', generation := 1 }
  let named (q : Parser) : Terminal := { titled q with
    iconTitle := longText 4194301 'i', generation := 2 }
  let placed (q : Parser) : Terminal := { named q with
    pwd := longText 4194301 'p', generation := 3 }
  obtain ⟨q₁, ready₁, first⟩ := process_oscString (fun _ => none) ['2']
    (longText 4194301 't') (t := Terminal.withScrollback 24 80 SCROLLBACK) (by decide) rfl
    (graphic ['2', ';'] rfl 4194301 (show Term.Graphic 't' by decide))
    (fits ['2', ';'] 4194301 rfl (by decide)) Parser.ready_new
  obtain ⟨q₂, ready₂, second⟩ := process_oscString (fun _ => none) ['1']
    (longText 4194301 'i') (t := titled q₁) (by decide) rfl
    (graphic ['1', ';'] rfl 4194301 (show Term.Graphic 'i' by decide))
    (fits ['1', ';'] 4194301 rfl (by decide)) ready₁
  obtain ⟨q₃, ready₃, third⟩ := process_oscString (fun _ => none) ['7']
    (longText 4194301 'p') (t := named q₂) (by decide) rfl
    (graphic ['7', ';'] rfl 4194301 (show Term.Graphic 'p' by decide))
    (fits ['7', ';'] 4194301 rfl (by decide)) ready₂
  obtain ⟨q₄, -, fourth⟩ := process_oscString (fun _ => none) ['8']
    (';' :: longText 4194300 'u') (t := placed q₃) (by decide) rfl
    (graphic ['8', ';', ';'] rfl 4194300 (show Term.Graphic 'u' by decide))
    (fits ['8', ';', ';'] 4194300 rfl (by decide)) ready₃
  have titled_ : _ = Except.ok (titled q₁) := first
  have named_ : _ = Except.ok (named q₂) := second
  have placed_ : _ = Except.ok (placed q₃) := third
  refine ⟨q₄, ?_⟩
  unfold longTexts
  rw [List.append_assoc, List.append_assoc, Terminal.process_append titled_, Terminal.process_append named_,
    Terminal.process_append placed_, fourth]
  rfl

section crowded

variable (q : Parser)

theorem drawGrid_crowded : ∃ grid, (crowded q).drawGrid (crowded q).scr {} = .ok (grid, {}) :=
  ⟨_, rfl⟩

theorem dumpModes_crowded : ∃ modes, (crowded q).dumpModes = .ok modes :=
  ⟨_, rfl⟩

theorem dumpGraphics_crowded : ∃ graphics, (crowded q).dumpGraphics = .ok graphics :=
  ⟨_, rfl⟩

theorem dumpTitles_crowded : (crowded q).dumpTitles =
    "\x1b]2;".toList ++ longText 4194301 't' ++ "\x07".toList ++
      ("\x1b]1;".toList ++ longText 4194301 'i' ++ "\x07".toList) :=
  rfl

theorem dumpPwd_crowded : (crowded q).dumpPwd =
    "\x1b]7;file://".toList ++ longText 4194301 'p' ++ "\x1b\\".toList :=
  rfl

theorem emitHyperlink_crowded : (crowded q).emitHyperlink 1 =
    "\x1b]8;;".toList ++ longText 4194300 'u' ++ "\x1b\\".toList :=
  rfl

theorem dumpCursor_crowded : ∃ position again hidden, (crowded q).dumpCursor {} =
    .ok ((crowded q).emitHyperlink 1 ++ position ++ again ++ hidden) :=
  ⟨emitPosition 1 1, [], [], rfl⟩

end crowded

/-- The texts are all in the replay. -/
theorem length_dump_crowded (q : Parser) : ∃ out, (crowded q).dumpVtFlat = .ok out ∧
    MAX_CLIENT_BACKLOG < out.length := by
  obtain ⟨grid, drawn⟩ := drawGrid_crowded q
  obtain ⟨graphics, placed⟩ := dumpGraphics_crowded q
  obtain ⟨modes, moded⟩ := dumpModes_crowded q
  obtain ⟨position, again, hidden, cursor⟩ := dumpCursor_crowded q
  have titles := dumpTitles_crowded q
  have place := dumpPwd_crowded q
  have link := emitHyperlink_crowded q
  generalize crowded q = t at *
  refine ⟨toUtf8 (t.dumpColors ++ t.dumpTitles ++ t.dumpPwd ++ ("\x1b[H".toList ++ grid) ++
    graphics ++ modes ++ (t.emitHyperlink 1 ++ position ++ again ++ hidden)), ?_, ?_⟩
  · unfold Terminal.dumpVtFlat Terminal.dumpVtImpl
    rw [if_pos rfl, drawn, placed, moded]
    change (toUtf8 <$> (t.dumpCursor {} >>= fun cursor => Except.ok (t.dumpColors ++ t.dumpTitles ++
      t.dumpPwd ++ ("\x1b[H".toList ++ grid) ++ graphics ++ modes ++ cursor))) = _
    rw [cursor]
    rfl
  · rw [length_toUtf8]
    refine Nat.lt_of_lt_of_le ?_ (length_le_utf8Length _)
    rw [titles, place, link]
    unfold MAX_CLIENT_BACKLOG
    simp only [List.length_append, length_longText, String.length_toList]
    have framing : "\x1b]7;file://".length = 11 := rfl
    omega

/-- The replay of a session with four long texts is too large. -/
theorem replay_dropped :
    ¬ ∀ (t : Terminal) (q : Queued), Term.session.Reachable t → q.Arrives t := by
  intro all
  obtain ⟨q, processed⟩ := process_longTexts
  obtain ⟨out, dumped, large⟩ := length_dump_crowded q
  have start : Term.session.Reachable (Terminal.withScrollback 24 80 SCROLLBACK) :=
    .of_init ⟨24, 80, SCROLLBACK, by decide, by decide, by decide, by decide, rfl⟩
  have reachable := start.tail ⟨.process (fun _ => none) _, trivial, processed⟩
  have small := (Queued.replay.arrives_iff _).mp (all _ .replay reachable) out dumped
  omega

end Posh.Session
