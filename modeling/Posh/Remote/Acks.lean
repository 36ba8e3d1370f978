import Posh.Remote.InputStream
import Posh.Remote.Roaming
import Mathlib.Order.Bounds.Basic

/-!
The acks a frame carries.

Input counts as echoed a while after it was written. `Tracks` compares the queue of what is
to mature with the log of everything recorded: what the queue drops is covered by an older
entry that goes at least as far.
-/

namespace Posh.Remote

open Posh.Lib

namespace EchoAck

/-- The offsets recorded long enough before `now`, and zero. -/
def Matured (log : List (Nat × Nat)) (now : Nat) : Set Nat :=
  insert 0 {offset | ∃ written, (offset, written) ∈ log ∧ written + ECHO_TIMEOUT ≤ now}

/-- The queue and the ack against the log of all records, at a time when all are past. -/
structure Tracks (log : List (Nat × Nat)) (clock : Nat) (e : EchoAck) : Prop where
  ordered : e.pending.Pairwise fun x y => x.1 < y.1 ∧ x.2 ≤ y.2
  ahead : ∀ x ∈ e.pending, e.acked < x.1
  logged : ∀ x ∈ e.pending, x ∈ log
  past : ∀ x ∈ log, x.2 ≤ clock
  matured : e.acked ∈ Matured log clock
  covered : ∀ x ∈ log, x.1 ≤ e.acked ∨ ∃ y ∈ e.pending, x.1 ≤ y.1 ∧ y.2 ≤ x.2

variable {log : List (Nat × Nat)} {clock : Nat} {e : EchoAck}

theorem Matured.mono {now now' : Nat} (later : now ≤ now') : Matured log now ⊆ Matured log now' := by
  rintro offset (rfl | ⟨written, mem, old⟩)
  · exact .inl rfl
  · exact .inr ⟨written, mem, old.trans later⟩

theorem Matured.append {offset now : Nat} (mem : offset ∈ Matured log now) (x : Nat × Nat) :
    offset ∈ Matured (log ++ [x]) now := by
  rcases mem with rfl | ⟨written, mem, old⟩
  · exact .inl rfl
  · exact .inr ⟨written, List.mem_append_left _ mem, old⟩

theorem tracks_new (clock : Nat) : Tracks [] clock {} where
  ordered := .nil
  ahead _ mem := absurd mem List.not_mem_nil
  logged _ mem := absurd mem List.not_mem_nil
  past _ mem := absurd mem List.not_mem_nil
  matured := .inl rfl
  covered _ mem := absurd mem List.not_mem_nil

namespace Tracks

/-- Time passes. -/
theorem later (h : Tracks log clock e) {now : Nat} (later : clock ≤ now) : Tracks log now e where
  ordered := h.ordered
  ahead := h.ahead
  logged := h.logged
  past x mem := (h.past x mem).trans later
  matured := Matured.mono later h.matured
  covered := h.covered

/-- The newest offset, which a record has to advance. -/
theorem newest (h : Tracks log clock e) {last : Nat}
    (eq : (e.pending.getLast?.map (·.1)).getD e.acked = last) :
    e.acked ≤ last ∧ (∀ x ∈ e.pending, x.1 ≤ last) ∧
      (last = e.acked ∨ ∃ x ∈ e.pending, x.1 = last) := by
  rcases List.eq_nil_or_concat e.pending with none | ⟨before, x, parts⟩
  · rw [none] at eq
    have same : e.acked = last := eq
    refine ⟨Nat.le_of_eq same, ?_, .inl same.symm⟩
    rw [none]
    exact fun x mem => absurd mem List.not_mem_nil
  · rw [List.concat_eq_append] at parts
    have mem : x ∈ e.pending := by
      rw [parts]
      exact List.mem_append_right _ (List.mem_singleton_self _)
    rw [parts, List.getLast?_concat] at eq
    have same : x.1 = last := eq
    refine ⟨same ▸ Nat.le_of_lt (h.ahead x mem), ?_, .inr ⟨x, mem, same⟩⟩
    have ordered := h.ordered
    rw [parts] at ordered ⊢
    intro y mem
    rcases List.mem_append.mp mem with old | new
    · have below := (List.pairwise_append.mp ordered).2.2 y old x (List.mem_singleton_self _)
      exact same ▸ Nat.le_of_lt below.1
    · rw [List.mem_singleton.mp new]
      exact Nat.le_of_eq same

/-- An offset is recorded now. A record that does not advance is covered by the newest. -/
theorem record (h : Tracks log clock e) (offset : Nat) :
    Tracks (log ++ [(offset, clock)]) clock (e.record offset clock) := by
  have past : ∀ x ∈ log ++ [(offset, clock)], x.2 ≤ clock := by
    intro x mem
    rcases List.mem_append.mp mem with old | new
    · exact h.past x old
    · rw [List.mem_singleton.mp new]
  obtain ⟨above_acked, above, origin⟩ := h.newest rfl
  unfold EchoAck.record
  dsimp only
  split
  · rename_i advances
    exact
      { ordered := by
          refine List.pairwise_append.mpr ⟨h.ordered, List.pairwise_singleton .., ?_⟩
          intro x mem y new
          rw [List.mem_singleton.mp new]
          exact ⟨Nat.lt_of_le_of_lt (above x mem) advances, h.past x (h.logged x mem)⟩
        ahead := by
          intro x mem
          rcases List.mem_append.mp mem with old | new
          · exact h.ahead x old
          · rw [List.mem_singleton.mp new]
            exact Nat.lt_of_le_of_lt above_acked advances
        logged := by
          intro x mem
          rcases List.mem_append.mp mem with old | new
          · exact List.mem_append_left _ (h.logged x old)
          · exact List.mem_append_right _ new
        past
        matured := Matured.append h.matured _
        covered := by
          intro x mem
          rcases List.mem_append.mp mem with old | new
          · refine (h.covered x old).imp id ?_
            rintro ⟨y, mem, le⟩
            exact ⟨y, List.mem_append_left _ mem, le⟩
          · rw [List.mem_singleton.mp new]
            exact .inr ⟨_, List.mem_append_right _ (List.mem_singleton_self _), Nat.le_refl _,
              Nat.le_refl _⟩ }
  · rename_i dominated
    have dominated := Nat.not_lt.mp dominated
    exact
      { ordered := h.ordered
        ahead := h.ahead
        logged := fun x mem => List.mem_append_left _ (h.logged x mem)
        past
        matured := Matured.append h.matured _
        covered := by
          intro x mem
          rcases List.mem_append.mp mem with old | new
          · exact h.covered x old
          · rw [List.mem_singleton.mp new]
            rcases origin with same | ⟨y, mem, same⟩
            · exact .inl (same ▸ dominated)
            · exact .inr ⟨y, mem, same ▸ dominated, h.past y (h.logged y mem)⟩ }

variable {offset written acked : Nat} {rest : List (Nat × Nat)}

/-- The oldest entry advances the ack. -/
theorem advance (h : Tracks log clock ⟨(offset, written) :: rest, acked⟩)
    (old : written + ECHO_TIMEOUT ≤ clock) : Tracks log clock ⟨rest, offset⟩ where
  ordered := (List.pairwise_cons.mp h.ordered).2
  ahead x mem := ((List.pairwise_cons.mp h.ordered).1 x mem).1
  logged x mem := h.logged x (List.mem_cons_of_mem _ mem)
  past := h.past
  matured := .inr ⟨written, h.logged _ List.mem_cons_self, old⟩
  covered := by
    have forward : acked < offset := h.ahead _ List.mem_cons_self
    intro x mem
    rcases h.covered x mem with before | ⟨y, mem, le⟩
    · exact .inl (before.trans (Nat.le_of_lt forward))
    · rcases List.mem_cons.mp mem with rfl | mem
      · exact .inl le.1
      · exact .inr ⟨y, mem, le⟩

/-- The loop of an update stops where nothing pending has matured. -/
theorem drain {pending : List (Nat × Nat)} (h : Tracks log clock ⟨pending, acked⟩)
    (changed : Bool) :
    Tracks log clock (EchoAck.drain clock acked changed pending).1 ∧
      (∀ x ∈ (EchoAck.drain clock acked changed pending).1.pending, clock < x.2 + ECHO_TIMEOUT) ∧
      acked ≤ (EchoAck.drain clock acked changed pending).1.acked := by
  induction pending generalizing acked changed with
  | nil => exact ⟨h, fun x mem => absurd mem List.not_mem_nil, Nat.le_refl _⟩
  | cons x rest ih =>
    obtain ⟨offset, written⟩ := x
    unfold EchoAck.drain
    split
    · rename_i young
      refine ⟨h, ?_, Nat.le_refl _⟩
      intro x mem
      rcases List.mem_cons.mp mem with rfl | mem
      · simp only
        omega
      · have later := ((List.pairwise_cons.mp h.ordered).1 x mem).2
        simp only at later
        omega
    · rename_i old
      have matured : written + ECHO_TIMEOUT ≤ clock := by
        unfold ECHO_TIMEOUT at old ⊢
        omega
      obtain ⟨tracks, young, forward⟩ := ih (h.advance matured) true
      have first : acked < offset := h.ahead _ List.mem_cons_self
      exact ⟨tracks, young, (Nat.le_of_lt first).trans forward⟩

theorem update (h : Tracks log clock e) :
    Tracks log clock (e.update clock).1 ∧
      (∀ x ∈ (e.update clock).1.pending, clock < x.2 + ECHO_TIMEOUT) ∧
      e.acked ≤ (e.update clock).1.acked :=
  Tracks.drain h false

/-- After an update the ack is the greatest offset that has matured. -/
theorem greatest (h : Tracks log clock e) :
    IsGreatest (Matured log clock) (e.update clock).1.acked := by
  obtain ⟨tracks, young, -⟩ := h.update
  refine ⟨tracks.matured, ?_⟩
  rintro offset (rfl | ⟨written, mem, old⟩)
  · exact Nat.zero_le _
  · rcases tracks.covered _ mem with le | ⟨y, pending, -, earlier⟩
    · exact le
    · have := young y pending
      simp only at earlier
      omega

end Tracks

/-! ### When the ack moves -/

theorem drain_changed (now acked : Nat) (pending : List (Nat × Nat)) :
    (drain now acked true pending).2 = true := by
  induction pending generalizing acked with
  | nil => rfl
  | cons x rest ih =>
    unfold drain
    split
    · rfl
    · exact ih _

/-- An update moves the ack exactly if the oldest entry has matured. -/
theorem update_moves (e : EchoAck) (now : Nat) :
    (e.update now).2 = true ↔ ∃ x, e.pending.head? = some x ∧ x.2 + ECHO_TIMEOUT ≤ now := by
  unfold update
  cases e.pending with
  | nil => simp [drain]
  | cons x rest =>
    obtain ⟨offset, written⟩ := x
    unfold drain
    split
    · rename_i young
      simp only [Bool.false_eq_true, List.head?_cons, Option.some.injEq, exists_eq_left', false_iff]
      omega
    · rename_i old
      simp only [drain_changed, List.head?_cons, Option.some.injEq, exists_eq_left', true_iff]
      unfold ECHO_TIMEOUT at old ⊢
      omega

/-- When an update says that the ack moved, it has grown. -/
theorem Tracks.update_advances (h : Tracks log clock e) :
    (e.update clock).2 = true ↔ e.acked < (e.update clock).1.acked := by
  obtain ⟨pending, acked⟩ := e
  cases pending with
  | nil => simp [EchoAck.update, EchoAck.drain]
  | cons x rest =>
    obtain ⟨offset, written⟩ := x
    by_cases young : clock - written < ECHO_TIMEOUT
    · have still : EchoAck.update ⟨(offset, written) :: rest, acked⟩ clock =
          (⟨(offset, written) :: rest, acked⟩, false) := if_pos young
      simp [still]
    · have moved : EchoAck.update ⟨(offset, written) :: rest, acked⟩ clock =
          EchoAck.drain clock offset true rest := if_neg young
      have matured : written + ECHO_TIMEOUT ≤ clock := by
        unfold ECHO_TIMEOUT at young ⊢
        omega
      have first : acked < offset := h.ahead _ List.mem_cons_self
      obtain ⟨-, -, forward⟩ := (h.advance matured).drain true
      rw [moved]
      exact iff_of_true (drain_changed _ _ _) (Nat.lt_of_lt_of_le first forward)

/-- The wait is over exactly when an update moves the ack. -/
theorem update_moves_iff_waited (e : EchoAck) {now t : Nat} (later : now ≤ t) :
    (e.update t).2 = true ↔ ∃ wait, e.waitTime now = some wait ∧ now + wait ≤ t := by
  rw [update_moves]
  unfold waitTime
  cases e.pending.head? with
  | none => simp
  | some x =>
    simp only [Option.some.injEq, exists_eq_left', Option.map_some]
    omega

/-- What is recorded meanwhile does not bring the next move forward. -/
theorem head_records (more : List (Nat × Nat)) {e : EchoAck} {x : Nat × Nat}
    (first : e.pending.head? = some x) :
    (more.foldl (fun e r => e.record r.1 r.2) e).pending.head? = some x := by
  induction more generalizing e with
  | nil => exact first
  | cons r more ih =>
    refine ih ?_
    unfold record
    dsimp only
    split
    · rw [List.head?_append, first]
      rfl
    · exact first

/-- The wait is over exactly when an update moves the ack, whatever is recorded meanwhile. -/
theorem moves_iff_waited_records {e : EchoAck} {now t wait : Nat} (more : List (Nat × Nat))
    (waits : e.waitTime now = some wait) (later : now ≤ t) :
    ((more.foldl (fun e r => e.record r.1 r.2) e).update t).2 = true ↔ now + wait ≤ t := by
  obtain ⟨x, first, rfl⟩ := Option.map_eq_some_iff.mp waits
  rw [update_moves, head_records more first]
  simp only [Option.some.injEq, exists_eq_left']
  omega

end EchoAck

/-- New input moves the inbox forward. -/
theorem InputInbox.accept_cases (i : InputInbox) (base : Nat) (data : Bytes) :
    i.accept base data = (i, none) ∨
      ∃ next new, i.accept base data = (next, some new) ∧ i.next < next.next := by
  unfold accept
  split
  · exact .inl rfl
  · dsimp only
    split
    · exact .inl rfl
    · refine .inr ⟨_, _, rfl, ?_⟩
      dsimp only
      omega

/-! ### The server -/

namespace Server

variable {T : Type} [Emulator T]

/-- The offset that is recorded for a delivery. -/
def recorded (s : Server T) (d : Delivery) : List (Nat × Nat) :=
  match s.inbox.accept d.msg.inputBase d.msg.input with
  | (inbox, some _) => [(inbox.next, d.at_)]
  | (_, none) => []

/-- What is recorded for several deliveries. -/
def records : Server T → List Delivery → List (Nat × Nat)
  | _, [] => []
  | s, d :: ds => s.recorded d ++ records (s.receive d) ds

/-- A message with new input moves the inbox and is recorded; another one is not. -/
theorem echo_receive (s : Server T) (d : Delivery) :
    (s.recorded d = [] ∧ (s.receive d).inbox = s.inbox ∧ (s.receive d).echo = s.echo) ∨
      (s.recorded d = [((s.receive d).inbox.next, d.at_)] ∧
        s.inbox.next < (s.receive d).inbox.next ∧
        (s.receive d).echo = s.echo.record (s.receive d).inbox.next d.at_) := by
  have handled (s : Server T) {inbox : InputInbox} {new : Option Bytes}
      (accepted : s.inbox.accept d.msg.inputBase d.msg.input = (inbox, new)) :
      (s.handleClientMessage d).echo =
        if new.isSome then s.echo.record inbox.next d.at_ else s.echo := by
    have sized : (s.adoptSize d.msg).inbox = s.inbox ∧ (s.adoptSize d.msg).echo = s.echo := by
      unfold adoptSize
      split <;> exact ⟨rfl, rfl⟩
    unfold handleClientMessage
    dsimp only
    rw [sized.1, accepted]
    cases new with
    | none => exact sized.2
    | some newInput => exact congrArg (·.record inbox.next d.at_) sized.2
  have acked (s : Server T) : (s.updateAcks d.msg).echo = s.echo := by
    unfold updateAcks
    split <;> rfl
  have received {inbox : InputInbox} {new : Option Bytes}
      (accepted : s.inbox.accept d.msg.inputBase d.msg.input = (inbox, new)) :
      (s.receive d).echo = if new.isSome then s.echo.record inbox.next d.at_ else s.echo := by
    unfold receive
    dsimp only
    rw [acked]
    split <;> exact handled _ accepted
  have inbox := (s.input_receive d).1
  rcases s.inbox.accept_cases d.msg.inputBase d.msg.input with same | ⟨next, new, moved, forward⟩
  · rw [same] at inbox
    refine .inl ⟨?_, inbox, received same⟩
    rw [recorded, same]
  · rw [moved] at inbox
    rw [inbox]
    refine .inr ⟨?_, forward, received moved⟩
    rw [recorded, moved]

theorem echo_readPty (tick : Tick) (s : Server T) : (s.readPty tick).echo = s.echo := by
  unfold readPty
  split
  · rfl
  · cases tick.pty with
    | idle => rfl
    | data bytes => rfl
    | closed =>
      simp only
      split <;> rfl

/-- A frame carries the input ack, and the echo ack as just updated. -/
theorem acks_transmit (tick : Tick) (s : Server T) :
    (s.transmit tick).1.echo = (s.echo.update tick.sendAt).1 ∧
      ∀ frame, (s.transmit tick).2 = some frame →
        frame.inputAck = s.inbox.next ∧ frame.echoAck = (s.echo.update tick.sendAt).1.acked := by
  have scheduled (s : Server T) : (s.schedule tick).1.inbox = s.inbox ∧
      (s.schedule tick).1.echo = s.echo := by
    unfold schedule
    split
    · exact ⟨rfl, rfl⟩
    · split
      · exact ⟨rfl, rfl⟩
      · split
        · exact ⟨rfl, rfl⟩
        · split <;> exact ⟨rfl, rfl⟩
  obtain ⟨inbox, echo⟩ := scheduled (s.updateEcho tick)
  unfold transmit
  dsimp only
  split
  · exact ⟨rfl, fun _ sent => by cases sent⟩
  · split
    · exact ⟨echo, fun _ sent => by cases sent⟩
    · refine ⟨echo, ?_⟩
      intro frame sent
      cases sent
      exact ⟨congrArg InputInbox.next inbox, congrArg EchoAck.acked echo⟩

end Server

/-- A server with the log of what was recorded, the time of the last record or update, and the
frames sent. The server looks at none of them. -/
structure Acking (T : Type) where
  server : Server T
  log : List (Nat × Nat) := []
  clock : Nat := 0
  sent : List ServerFrame := []
  exit : Option Exit := none

namespace Acking

variable {T : Type} [Emulator T]

/-- The readings of the clock that the acks of a pass depend on, in order. -/
def readings (tick : Tick) : List Nat :=
  tick.deliveries.map (·.at_) ++ [tick.sendAt]

/-- One pass of the server's loop. -/
def pass (cfg : ServerConfig) (tick : Tick) (w : Acking T) : Acking T :=
  let out := w.server.pass cfg tick
  match w.server.stops cfg tick with
  | some _ => { w with server := out.server, exit := out.exit }
  | none =>
      { server := out.server
        log := w.log ++ (w.server.readPty tick).records tick.deliveries
        clock := tick.sendAt
        sent := w.sent ++ out.sent.toList
        exit := out.exit }

/-- The passes of a server until it leaves its loop, by a clock that does not go back. -/
inductive Step (cfg : ServerConfig) : Acking T → Acking T → Prop
  | pass {w : Acking T} (tick : Tick) (running : w.exit = none)
      (clocked : (w.clock :: readings tick).Pairwise (· ≤ ·)) : Step cfg w (w.pass cfg tick)

def system (cfg : ServerConfig) : Transition (Acking T) where
  init w := ∃ rows cols now, w = { server := .start rows cols now }
  step := Step cfg

/-- What the acks of a server and of its frames have to do with each other and with the log. -/
structure Sound (w : Acking T) : Prop where
  tracks : w.server.echo.Tracks w.log w.clock
  inside : ∀ x ∈ w.log, x.1 ≤ w.server.inbox.next
  current : IsGreatest (EchoAck.Matured w.log w.clock) w.server.echo.acked
  frames : ∀ f ∈ w.sent, f.inputAck ≤ w.server.inbox.next ∧ f.echoAck ≤ w.server.echo.acked
  ordered : w.sent.Pairwise fun f g => f.inputAck ≤ g.inputAck ∧ f.echoAck ≤ g.echoAck
  behind : ∀ f ∈ w.sent, f.echoAck ≤ f.inputAck

theorem sound_init {cfg : ServerConfig} {w : Acking T} (init : (system cfg).init w) : Sound w := by
  obtain ⟨rows, cols, now, rfl⟩ := init
  exact
    { tracks := EchoAck.tracks_new 0
      current := (EchoAck.tracks_new 0).greatest
      inside := fun _ mem => absurd mem List.not_mem_nil
      frames := fun _ mem => absurd mem List.not_mem_nil
      ordered := .nil
      behind := fun _ mem => absurd mem List.not_mem_nil }

/-- The deliveries of a pass: what is accepted is recorded when it comes in. -/
theorem tracks_receives {log : List (Nat × Nat)} {clock : Nat} {s : Server T} {ds : List Delivery}
    (tracks : s.echo.Tracks log clock) (inside : ∀ x ∈ log, x.1 ≤ s.inbox.next)
    (clocked : (clock :: ds.map (·.at_)).Pairwise (· ≤ ·)) {now : Nat}
    (later : ∀ t ∈ clock :: ds.map (·.at_), t ≤ now) :
    (ds.foldl Server.receive s).echo.Tracks (log ++ s.records ds) now ∧
      (∀ x ∈ log ++ s.records ds, x.1 ≤ (ds.foldl Server.receive s).inbox.next) ∧
      s.inbox.next ≤ (ds.foldl Server.receive s).inbox.next ∧
      (ds.foldl Server.receive s).echo.acked = s.echo.acked := by
  induction ds generalizing s log clock with
  | nil =>
    have unrecorded : log ++ s.records [] = log := List.append_nil log
    rw [unrecorded]
    exact ⟨tracks.later (later clock List.mem_cons_self), inside, Nat.le_refl _, rfl⟩
  | cons d ds ih =>
    have forward : clock ≤ d.at_ := (List.pairwise_cons.mp clocked).1 _ List.mem_cons_self
    have clocked : (d.at_ :: ds.map (·.at_)).Pairwise (· ≤ ·) := (List.pairwise_cons.mp clocked).2
    have later : ∀ t ∈ d.at_ :: ds.map (·.at_), t ≤ now :=
      fun t mem => later t (List.mem_cons_of_mem _ mem)
    have parts : log ++ s.records (d :: ds) = (log ++ s.recorded d) ++ (s.receive d).records ds :=
      (List.append_assoc ..).symm
    rw [parts, List.foldl_cons]
    rcases s.echo_receive d with ⟨none, inbox, echo⟩ | ⟨one, moved, echo⟩
    · rw [none, List.append_nil, ← inbox, ← echo]
      refine ih ?_ ?_ clocked later
      · rw [echo]
        exact tracks.later forward
      · rw [inbox]
        exact inside
    · have recorded : (s.receive d).echo.Tracks (log ++ s.recorded d) d.at_ := by
        rw [one, echo]
        exact (tracks.later forward).record _
      have within : ∀ x ∈ log ++ s.recorded d, x.1 ≤ (s.receive d).inbox.next := by
        rw [one]
        intro x mem
        rcases List.mem_append.mp mem with old | new
        · exact (inside x old).trans (Nat.le_of_lt moved)
        · rw [List.mem_singleton.mp new]
      obtain ⟨tracks, inside, grown, still⟩ := ih recorded within clocked later
      refine ⟨tracks, inside, (Nat.le_of_lt moved).trans grown, still.trans ?_⟩
      rw [echo]
      unfold EchoAck.record
      dsimp only
      split <;> rfl

/-- The acks of the state in which a pass sends, and of the frame that it sends. -/
theorem pass_sends {w : Acking T} (h : Sound w) {tick : Tick}
    (clocked : (w.clock :: readings tick).Pairwise (· ≤ ·)) {s : Server T}
    (eq : s = tick.deliveries.foldl Server.receive (w.server.readPty tick)) :
    (s.transmit tick).1.echo.Tracks (w.log ++ (w.server.readPty tick).records tick.deliveries)
        tick.sendAt ∧
      IsGreatest
        (EchoAck.Matured (w.log ++ (w.server.readPty tick).records tick.deliveries) tick.sendAt)
        (s.transmit tick).1.echo.acked ∧
      (∀ x ∈ w.log ++ (w.server.readPty tick).records tick.deliveries,
        x.1 ≤ (s.transmit tick).1.inbox.next) ∧
      w.server.inbox.next ≤ (s.transmit tick).1.inbox.next ∧
      w.server.echo.acked ≤ (s.transmit tick).1.echo.acked ∧
      ∀ f, (s.transmit tick).2 = some f →
        f.inputAck = (s.transmit tick).1.inbox.next ∧
          f.echoAck = (s.transmit tick).1.echo.acked := by
  have before := List.pairwise_append.mp
    (show ((w.clock :: tick.deliveries.map (·.at_)) ++ [tick.sendAt]).Pairwise (· ≤ ·) from clocked)
  have read : (w.server.readPty tick).inbox = w.server.inbox := (w.server.input_readPty tick).1
  have unread : (w.server.readPty tick).echo = w.server.echo := w.server.echo_readPty tick
  obtain ⟨tracks, inside, grown, still⟩ := tracks_receives (s := w.server.readPty tick)
    (unread ▸ h.tracks) (read ▸ h.inside) before.1
    (fun t mem => before.2.2 t mem tick.sendAt (List.mem_singleton_self _))
  rw [← eq] at tracks inside grown still
  have sent : (s.transmit tick).1.inbox = s.inbox := (s.input_transmit tick).1
  obtain ⟨echo, frame⟩ := s.acks_transmit tick
  obtain ⟨updated, -, forward⟩ := tracks.update
  rw [sent, echo, ← read, ← unread, ← still]
  exact ⟨updated, tracks.greatest, inside, grown, forward, frame⟩

/-- An ack that has matured was recorded, so it is inside the inbox. -/
theorem matured_inside {log : List (Nat × Nat)} {now offset next : Nat}
    (inside : ∀ x ∈ log, x.1 ≤ next) (mem : offset ∈ EchoAck.Matured log now) : offset ≤ next := by
  rcases mem with rfl | ⟨written, mem, -⟩
  · exact Nat.zero_le _
  · exact inside _ mem

theorem sound_pass {cfg : ServerConfig} {w : Acking T} (h : Sound w) {tick : Tick}
    (clocked : (w.clock :: readings tick).Pairwise (· ≤ ·)) : Sound (w.pass cfg tick) := by
  obtain ⟨tracks, current, inside, grown, forward, frame⟩ := pass_sends h clocked rfl
  have single (o : Option ServerFrame) :
      o.toList.Pairwise fun f g => f.inputAck ≤ g.inputAck ∧ f.echoAck ≤ g.echoAck := by
    cases o with
    | none => exact .nil
    | some f => exact List.pairwise_singleton ..
  unfold pass Server.pass
  cases w.server.stops cfg tick with
  | some exit => exact ⟨h.tracks, h.inside, h.current, h.frames, h.ordered, h.behind⟩
  | none =>
    have sent : ∀ f ∈ w.sent, f.inputAck ≤ _ ∧ f.echoAck ≤ _ :=
      fun f mem => ⟨(h.frames f mem).1.trans grown, (h.frames f mem).2.trans forward⟩
    refine ⟨tracks, inside, current, ?_, ?_, ?_⟩
    · intro f mem
      rcases List.mem_append.mp mem with old | new
      · exact sent f old
      · obtain ⟨input, echo⟩ := frame f (Option.mem_toList.mp new)
        exact ⟨Nat.le_of_eq input, Nat.le_of_eq echo⟩
    · refine List.pairwise_append.mpr ⟨h.ordered, single _, ?_⟩
      intro f old g new
      obtain ⟨input, echo⟩ := frame g (Option.mem_toList.mp new)
      rw [input, echo]
      exact sent f old
    · intro f mem
      rcases List.mem_append.mp mem with old | new
      · exact h.behind f old
      · obtain ⟨input, echo⟩ := frame f (Option.mem_toList.mp new)
        rw [input, echo]
        exact matured_inside inside current.1

/-- The invariant over every run. -/
theorem sound_reachable {cfg : ServerConfig} {w : Acking T} (reach : (system cfg).Reachable w) :
    Sound w := by
  refine Transition.Invariant.reachable (I := Sound) ⟨fun _ init => sound_init init, ?_⟩ reach
  rintro w _ sound ⟨tick, -, clocked⟩
  exact sound_pass sound clocked

/-- The acks of successive frames never go back, the echo ack stays behind the input ack, and an
update leaves it at the greatest offset that has matured. The wait says when it moves next,
whatever is recorded meanwhile. -/
theorem acks_carried {cfg : ServerConfig} {w : Acking T} (reach : (system cfg).Reachable w) :
    w.sent.Pairwise (fun f g => f.inputAck ≤ g.inputAck ∧ f.echoAck ≤ g.echoAck) ∧
      (∀ f ∈ w.sent, f.echoAck ≤ f.inputAck) ∧
      IsGreatest (EchoAck.Matured w.log w.clock) w.server.echo.acked ∧
      (∀ now, w.clock ≤ now →
        IsGreatest (EchoAck.Matured w.log now) (w.server.echo.update now).1.acked) ∧
      (∀ tick f, (w.server.pass cfg tick).sent = some f →
        f.inputAck = (w.server.pass cfg tick).server.inbox.next ∧
          f.echoAck = (w.server.pass cfg tick).server.echo.acked) ∧
      ∀ now t, w.clock ≤ now → now ≤ t →
        (w.server.echo.acked < (w.server.echo.update t).1.acked ↔
          ∃ wait, w.server.echo.waitTime now = some wait ∧ now + wait ≤ t) ∧
        ∀ wait (more : List (Nat × Nat)), w.server.echo.waitTime now = some wait →
          (((more.foldl (fun e r => e.record r.1 r.2) w.server.echo).update t).2 = true ↔
            now + wait ≤ t) := by
  have sound := sound_reachable reach
  refine ⟨sound.ordered, sound.behind, sound.current, ?_, ?_, ?_⟩
  · intro now later
    exact (sound.tracks.later later).greatest
  · intro tick f sent
    unfold Server.pass at sent ⊢
    cases stopped : w.server.stops cfg tick with
    | some exit =>
      rw [stopped] at sent
      cases sent
    | none =>
      rw [stopped] at sent
      have inbox := (Server.input_transmit tick
        (tick.deliveries.foldl Server.receive (w.server.readPty tick))).1
      obtain ⟨echo, frame⟩ := Server.acks_transmit tick
        (tick.deliveries.foldl Server.receive (w.server.readPty tick))
      obtain ⟨input, moved⟩ := frame f sent
      exact ⟨input.trans (congrArg InputInbox.next inbox).symm,
        moved.trans (congrArg EchoAck.acked echo).symm⟩
  · intro now t started later
    refine ⟨?_, fun wait more waits => EchoAck.moves_iff_waited_records more waits later⟩
    rw [← (sound.tracks.later (started.trans later)).update_advances]
    exact EchoAck.update_moves_iff_waited _ later

/-- Two keystrokes: the second is accepted while the first waits for its echo. -/
theorem acks_carried_typing : ∃ w : Acking (Slides fun _ => []),
    (system {}).Reachable w ∧ w.sent.map (fun f => (f.inputAck, f.echoAck)) = [(1, 0), (2, 1)] ∧
      w.sent.Pairwise (fun f g => f.inputAck ≤ g.inputAck ∧ f.echoAck ≤ g.echoAck) ∧
      w.server.echo.waitTime 60 = some 50 := by
  let message (base : Nat) (input : Bytes) : ClientMessage :=
    { flags := 0, caps := [], rows := 24, cols := 80, ackedFrame := 0, inputBase := base, input }
  let w₀ : Acking (Slides fun _ => []) := { server := .start 24 80 0 }
  let w₁ := w₀.pass {} (plainTick 5 .idle [message 0 [0x61]])
  let w₂ := w₁.pass {} (plainTick 60 .idle [message 0 [0x61, 0x62]])
  have reach : (system {}).Reachable w₂ := by
    refine Transition.Reachable.tail (s := w₁) (Transition.Reachable.tail (s := w₀)
      (.of_init ⟨24, 80, 0, rfl⟩) ?_) ?_
    · exact .pass _ (by decide) (by decide)
    · exact .pass _ (by decide) (by decide)
  exact ⟨w₂, reach, by decide, (acks_carried reach).1, by decide⟩

end Acking

end Posh.Remote
