import Posh.Remote.Shutdown

/-!
What the client takes with it when the server shuts down: the shell's exit
status and its last screen.

`client_loop` leaves at the end of the first pass in which any frame announced
the shutdown, whether or not that frame carried the status or could be applied.
So what it leaves with depends on which frames it happened to handle: a frame
with the status, and a frame of the finished shell that it could rebuild.
-/

namespace Posh.Remote

open Posh.Lib

/-- The frame tells the shell's exit status to a client that reads its flags. -/
def ServerFrame.TellsStatus (frame : ServerFrame) : Prop :=
  frame.Announces ∧ (findCap frame.caps CAP_EXIT_STATUS).isSome = true

/-- The frame was newer than what the client held, and stood for a state by itself
or as a diff against exactly that. -/
def Handled.Rebuildable (p : Handled) : Prop :=
  p.held < p.frame.frameNum ∧
    ((∃ bytes, p.frame.body = .full bytes) ∨ ∃ diff, p.frame.body = .diff p.held diff)

/-- A recorded session whose client may have left its loop, and with what. -/
structure Departure (T : Type) where
  recorded : Recorded T
  left : Option Int := none

namespace Departure

variable {T : Type} [Emulator T]

/-- Steps of a session whose shell exits with code `c`: whenever `try_reap` finds
the child, it finds that. A client that has seen the shutdown handles the rest of
the frames it has received, answers, and leaves. -/
inductive Step (cfg : ServerConfig) (c : Int) : Departure T → Departure T → Prop where
  | serverPass {d : Departure T} (tick : Tick) :
      d.recorded.run.serverExit = none →
      (∀ m ∈ tick.deliveries, m.msg ∈ d.recorded.run.toServer) →
      (∀ code ∈ tick.reapAtClose, code = c) → (∀ code ∈ tick.reapAtSend, code = c) →
      Step cfg c d { d with recorded :=
        ⟨d.recorded.run.afterPass cfg tick,
          d.recorded.past.afterPass cfg tick d.recorded.run.server⟩ }
  | clientFrame {d : Departure T} (frame : ServerFrame) :
      d.left = none → frame ∈ d.recorded.run.toClient →
      Step cfg c d { d with recorded :=
        ⟨{ d.recorded.run with client := (d.recorded.run.client.processFrame frame).1 },
          d.recorded.past.receive frame d.recorded.run.client⟩ }
  | clientSend {d : Departure T} :
      d.left = none →
      Step cfg c d { d with recorded :=
        ⟨{ d.recorded.run with
          toServer := d.recorded.run.toServer ++ [d.recorded.run.client.message] },
          d.recorded.past⟩ }
  | clientPush {d : Departure T} (bytes : Bytes) :
      d.left = none → d.recorded.run.client.shutdownSeen = false →
      Step cfg c d { d with recorded :=
        ⟨{ d.recorded.run with client := d.recorded.run.client.push bytes }, d.recorded.past⟩ }
  | clientEnv {d : Departure T} (rows cols : Nat) (flags : UInt8) :
      d.left = none → d.recorded.run.client.shutdownSeen = false →
      Step cfg c d { d with recorded :=
        ⟨{ d.recorded.run with client := { d.recorded.run.client with rows, cols, flags } },
          d.recorded.past⟩ }
  /-- `shutdown_seen` at the end of a pass. -/
  | leave {d : Departure T} :
      d.left = none → d.recorded.run.client.shutdownSeen = true →
      Step cfg c d { d with left := some d.recorded.run.client.exitStatus }

/-- Sessions whose shell exits with code `c`. -/
def system (T : Type) [Emulator T] (cfg : ServerConfig) (c : Int) : Transition (Departure T) where
  init d := ∃ rows cols now clientRows clientCols,
    d = ⟨Recorded.start rows cols now clientRows clientCols, none⟩
  step := Step cfg c

variable {cfg : ServerConfig} {c : Int}

theorem Step.recorded {d d' : Departure T} (step : Step cfg c d d') :
    Recorded.Step cfg d.recorded d'.recorded ∨ d'.recorded = d.recorded := by
  cases step with
  | serverPass tick running sent => exact .inl (.serverPass tick running sent)
  | clientFrame frame _ sent => exact .inl (.clientFrame frame sent)
  | clientSend => exact .inl .clientSend
  | clientPush bytes => exact .inl (.clientPush bytes)
  | clientEnv rows cols flags => exact .inl (.clientEnv rows cols flags)
  | leave => exact .inr rfl

theorem reachable_recorded {d : Departure T} (reach : (system T cfg c).Reachable d) :
    (Recorded.system T cfg).Reachable d.recorded := by
  refine reach.induct (I := fun d => (Recorded.system T cfg).Reachable d.recorded) ?_ ?_
  · rintro d ⟨rows, cols, now, clientRows, clientCols, rfl⟩
    exact .of_init ⟨rows, cols, now, clientRows, clientCols, rfl⟩
  · intro d d' _ before step
    rcases step.recorded with moved | same
    · exact before.tail moved
    · exact same ▸ before

end Departure

/-! ### The frames of a finished shell -/

/-- What the record says about the frames that show a finished shell and about
those the client applied. -/
structure Finished {T : Type} [Emulator T] (w : Recorded T) : Prop where
  closed : w.past.finals ≠ [] → w.run.server.ptyOpen = false
  positive : ∀ p ∈ w.past.finals, 0 < p.1
  /-- Once the shell has finished, every frame shows that. -/
  later : ∀ p ∈ w.past.finals, ∀ n, p.1 ≤ n → n ≤ w.run.server.current.num →
    ∃ t, (n, t) ∈ w.past.finals
  produced : ∀ p ∈ w.past.finals,
    w.run.server.produced[p.1]? = some (Emulator.dumpVt p.2)
  resized : ∀ p ∈ w.past.finals, Resized p.2 w.run.server.term
  applied : w.run.client.appliedNum = 0 ∨ ∃ p ∈ w.past.received,
    p.Rebuildable ∧ p.frame.frameNum = w.run.client.appliedNum
  rebuilt : Small w.run.server.produced → ∀ p ∈ w.past.received, p.Rebuildable →
    p.frame.frameNum ≤ w.run.client.appliedNum

namespace Recorded

variable {T : Type} [Emulator T] {cfg : ServerConfig}

theorem finished_start (rows cols now clientRows clientCols : Nat) :
    Finished (start rows cols now clientRows clientCols : Recorded T) where
  closed := fun some => absurd rfl some
  positive := fun _ mem => absurd mem List.not_mem_nil
  later := fun _ mem => absurd mem List.not_mem_nil
  produced := fun _ mem => absurd mem List.not_mem_nil
  resized := fun _ mem => absurd mem List.not_mem_nil
  applied := .inl rfl
  rebuilt := fun _ _ mem => absurd mem List.not_mem_nil

/-- A frame that can be rebuilt is applied. -/
theorem applied_of_rebuildable {r : Roaming T} {frame : ServerFrame} (h : Agrees r)
    (sent : frame ∈ r.toClient) (small : Small r.server.produced)
    (rebuildable : (⟨frame, r.client.appliedNum⟩ : Handled).Rebuildable) :
    (r.client.processFrame frame).1.appliedNum = frame.frameNum := by
  obtain ⟨newer, body⟩ := rebuildable
  obtain ⟨num, data⟩ := Client.applied_noteFrame frame r.client
  rcases body with ⟨bytes, full⟩ | ⟨diff, body⟩
  · refine Client.applied_of_frameBytes bytes newer ?_
    unfold Client.frameBytes
    rw [full]
  · have truth := h.frames frame sent
    unfold FrameTrue at truth
    rw [body] at truth
    obtain ⟨old, target, hold, _, rfl⟩ := truth
    have base : old = r.client.appliedData :=
      Option.some.inj (hold.symm.trans (h.applied small))
    have shorter : old.length < 2 ^ 32 := small old (List.mem_of_getElem? hold)
    refine Client.applied_of_frameBytes target newer ?_
    unfold Client.frameBytes
    rw [body]
    simp only [num, data, ne_eq, not_true, if_false, ← base, applyDiff_makeDiff shorter]

theorem finished_frame {w : Recorded T} {frame : ServerFrame} (agrees : Agrees w.run)
    (h : Finished w) (sent : frame ∈ w.run.toClient) :
    Finished ⟨{ w.run with client := (w.run.client.processFrame frame).1 },
      w.past.receive frame w.run.client⟩ := by
  have now : (⟨frame, w.run.client.appliedNum⟩ : Handled) ∈
      (w.past.receive frame w.run.client).received :=
    List.mem_append_right _ (List.mem_singleton.mpr rfl)
  have outcome := w.run.client.applied_cases frame
  refine ⟨h.closed, h.positive, h.later, h.produced, h.resized, ?_, ?_⟩
  · rcases outcome with ⟨num, _⟩ | ⟨newer, num, body⟩
    · dsimp only
      rw [num]
      refine h.applied.imp id ?_
      rintro ⟨p, mem, same⟩
      exact ⟨p, List.mem_append_left _ mem, same⟩
    · refine .inr ⟨_, now, ⟨newer, ?_⟩, num.symm⟩
      rcases body with full | ⟨diff, body, _⟩
      · exact .inl ⟨_, full⟩
      · exact .inr ⟨diff, body⟩
  · intro small p mem rebuildable
    have forward : w.run.client.appliedNum ≤
        (w.run.client.processFrame frame).1.appliedNum := by
      rcases outcome with ⟨num, _⟩ | ⟨newer, num, _⟩
      · omega
      · omega
    rcases List.mem_append.mp mem with old | new
    · exact (h.rebuilt small p old rebuildable).trans forward
    · rw [List.mem_singleton.mp new] at rebuildable ⊢
      exact Nat.le_of_eq (applied_of_rebuildable agrees sent small rebuildable).symm

theorem finished_passed {w : Recorded T} {tick : Tick} {s' : Server T} {past' : History T}
    {sent : Option ServerFrame} {exit : Option Exit} {more : List Bytes}
    (sound : s'.window.Sound) (log : s'.produced = w.run.server.produced ++ more) (h : Finished w)
    (passed : Passed tick w.run.server w.past s' sent past')
    (received : past'.received = w.past.received) :
    Finished ⟨{ w.run with
      server := s', toClient := w.run.toClient ++ sent.toList, serverExit := exit }, past'⟩ := by
  have follows := Server.follows_afterReads tick w.run.server
  have shut (some : w.past.finals ≠ []) : (w.run.server.afterReads tick).ptyOpen = false :=
    Bool.eq_false_iff.mpr fun isOpen =>
      Bool.eq_false_iff.mp (h.closed some) (follows.ptyOpen isOpen)
  have resized : ∀ p ∈ w.past.finals, Resized p.2 (w.run.server.afterReads tick).term :=
    fun p mem => (h.resized p mem).trans (follows.resized (h.closed (List.ne_nil_of_mem mem)))
  have applied : w.run.client.appliedNum = 0 ∨ ∃ p ∈ past'.received,
      p.Rebuildable ∧ p.frame.frameNum = w.run.client.appliedNum := by
    rw [received]
    exact h.applied
  have rebuilt (small : Small s'.produced) : ∀ p ∈ past'.received, p.Rebuildable →
      p.frame.frameNum ≤ w.run.client.appliedNum := by
    rw [received]
    rw [log] at small
    exact h.rebuilt small.of_prefix
  have produced : ∀ p ∈ w.past.finals, s'.produced[p.1]? = some (Emulator.dumpVt p.2) := by
    intro p mem
    rw [log]
    exact getElem?_append_of_eq_some (h.produced p mem)
  cases passed with
  | stopped => exact ⟨h.closed, h.positive, h.later, h.produced, h.resized, applied, rebuilt⟩
  | repeats keeps same _ _ finals =>
    refine ⟨?_, ?_, ?_, ?_, ?_, applied, rebuilt⟩
    · dsimp only
      rw [finals, keeps.ptyOpen]
      exact shut
    · rw [finals]
      exact h.positive
    · dsimp only
      rw [finals, same.current, follows.current]
      exact h.later
    · rw [finals]
      exact produced
    · dsimp only
      rw [finals, keeps.term]
      exact resized
  | produces frame keeps fresh _ _ finals =>
    have num : s'.current.num = w.run.server.current.num + 1 := by
      rw [fresh.current, follows.current]
    have old : ∀ p ∈ w.past.finals, p ∈ past'.finals := by
      intro p mem
      rw [finals]
      split
      · exact mem
      · exact List.mem_append_left _ mem
    -- the frame just produced joins the finals unless the PTY is still open
    have entries : ∀ p ∈ past'.finals, p ∈ w.past.finals ∨
        s'.ptyOpen = false ∧ p = (s'.current.num, s'.term) := by
      intro p mem
      rw [finals] at mem
      split at mem
      · exact .inl mem
      · rename_i closed
        exact (List.mem_append.mp mem).imp id fun new =>
          ⟨by simpa using closed, List.mem_singleton.mp new⟩
    have joins (closed : s'.ptyOpen = false) : (s'.current.num, s'.term) ∈ past'.finals := by
      rw [finals, closed]
      exact List.mem_append_right _ (List.mem_singleton.mpr rfl)
    have shut' (p : Nat × T) (mem : p ∈ past'.finals) : s'.ptyOpen = false := by
      rcases entries p mem with before | ⟨closed, _⟩
      · rw [keeps.ptyOpen]
        exact shut (List.ne_nil_of_mem before)
      · exact closed
    refine ⟨?_, ?_, ?_, ?_, ?_, applied, rebuilt⟩
    · intro nonempty
      obtain ⟨p, mem⟩ := List.exists_mem_of_ne_nil _ nonempty
      exact shut' p mem
    · intro p mem
      rcases entries p mem with before | ⟨_, rfl⟩
      · exact h.positive p before
      · dsimp only
        omega
    · intro p mem n low high
      dsimp only at high
      rcases Nat.lt_or_ge w.run.server.current.num n with last | earlier
      · have newest : n = s'.current.num := by omega
        rw [newest]
        exact ⟨_, joins (shut' p mem)⟩
      · rcases entries p mem with before | ⟨_, rfl⟩
        · obtain ⟨t, found⟩ := h.later p before n low earlier
          exact ⟨t, old _ found⟩
        · dsimp only at low
          omega
    · intro p mem
      rcases entries p mem with before | ⟨_, rfl⟩
      · exact produced p before
      · have current : s'.produced[s'.current.num]? = some s'.current.data := sound.current
        dsimp only
        rw [current, fresh.current, keeps.term]
    · intro p mem
      rcases entries p mem with before | ⟨_, rfl⟩
      · dsimp only
        rw [keeps.term]
        exact resized p before
      · exact .refl

theorem finished_step {w w' : Recorded T} (agrees : Agrees w.run) (h : Finished w)
    (step : Step cfg w w') : Finished w' := by
  cases step with
  | serverPass tick running sent =>
      obtain ⟨passed, received⟩ := w.past.passed cfg tick w.run.server
      have effect := Roaming.passEffect cfg tick agrees.window agrees.acked_le agrees.applied_le
        fun d hd => agrees.acks d.msg (sent d hd)
      obtain ⟨more, log⟩ := effect.log
      exact finished_passed effect.window log h passed received
  | clientFrame frame sent => exact finished_frame agrees h sent
  | clientSend =>
      exact ⟨h.closed, h.positive, h.later, h.produced, h.resized, h.applied, h.rebuilt⟩
  | clientPush bytes =>
      exact ⟨h.closed, h.positive, h.later, h.produced, h.resized, h.applied, h.rebuilt⟩
  | clientEnv rows cols flags =>
      exact ⟨h.closed, h.positive, h.later, h.produced, h.resized, h.applied, h.rebuilt⟩

theorem finished_of_reachable {w : Recorded T} (reach : (system T cfg).Reachable w) :
    Finished w := by
  refine reach.induct ?_ ?_
  · rintro w ⟨rows, cols, now, clientRows, clientCols, rfl⟩
    exact finished_start rows cols now clientRows clientCols
  · intro w w' before h step
    exact finished_step (Roaming.agrees_invariant.reachable (reachable_run before)) h step

end Recorded

/-! ### The exit status on its way -/

namespace Server

variable {T : Type} [Emulator T] {c : Int}

/-- The exit status is `c` if it is known. -/
def Knows (c : Int) (s : Server T) : Prop :=
  ∀ code ∈ s.exitStatus, code = c

theorem Knows.readPty {tick : Tick} {s : Server T} (h : s.Knows c)
    (reaped : ∀ code ∈ tick.reapAtClose, code = c) : (s.readPty tick).Knows c := by
  unfold Server.readPty
  split
  · exact h
  · cases tick.pty with
    | idle => exact h
    | data bytes => exact h
    | closed =>
      simp only
      split
      · exact h
      · exact reaped

theorem exitStatus_receive (s : Server T) (d : Delivery) :
    (s.receive d).exitStatus = s.exitStatus := by
  have handled (s : Server T) : (s.handleClientMessage d).exitStatus = s.exitStatus := by
    have sized : (s.adoptSize d.msg).exitStatus = s.exitStatus := by
      unfold adoptSize
      split <;> rfl
    unfold handleClientMessage
    dsimp only
    split <;> exact sized
  have acked (s : Server T) : (s.updateAcks d.msg).exitStatus = s.exitStatus := by
    unfold updateAcks
    split <;> rfl
  unfold receive
  dsimp only
  rw [acked]
  split <;> exact handled _

theorem Knows.afterReads {tick : Tick} {s : Server T} (h : s.Knows c)
    (reaped : ∀ code ∈ tick.reapAtClose, code = c) : (s.afterReads tick).Knows c := by
  have receives (ds : List Delivery) (s : Server T) :
      (ds.foldl receive s).exitStatus = s.exitStatus := by
    induction ds generalizing s with
    | nil => rfl
    | cons d ds ih => exact (ih (s.receive d)).trans (exitStatus_receive s d)
  unfold Knows Server.afterReads
  rw [receives]
  exact h.readPty reaped

theorem Knows.transmit {tick : Tick} {s : Server T} (h : s.Knows c)
    (reaped : ∀ code ∈ tick.reapAtSend, code = c) : (s.transmit tick).1.Knows c := by
  have scheduled (s : Server T) : (s.schedule tick).1.exitStatus = s.exitStatus := by
    unfold schedule
    split
    · rfl
    · split
      · rfl
      · split
        · rfl
        · split <;> rfl
  have known : (Server.schedule tick (s.updateEcho tick)).1.Knows c := by
    unfold Knows
    rw [scheduled]
    exact h
  unfold Server.transmit
  dsimp only
  split
  · exact h
  · split
    · exact known
    · unfold Knows beforeSend
      dsimp only
      split
      · exact reaped
      · exact known

theorem Knows.pass {cfg : ServerConfig} {tick : Tick} {s : Server T} (h : s.Knows c)
    (close : ∀ code ∈ tick.reapAtClose, code = c) (send : ∀ code ∈ tick.reapAtSend, code = c) :
    (s.pass cfg tick).server.Knows c := by
  cases runs : (s.stops cfg tick).isSome with
  | true =>
    rw [(pass_of_stops runs).1]
    exact h
  | false =>
    rw [(pass_of_not_stops runs).1]
    exact (h.afterReads close).transmit send

/-- A frame carries the capabilities of the server that wrote it. -/
theorem caps_pass {cfg : ServerConfig} {tick : Tick} {s : Server T} {frame : ServerFrame}
    (sent : (s.pass cfg tick).sent = some frame) :
    frame.caps = (s.pass cfg tick).server.frameCaps := by
  cases runs : (s.stops cfg tick).isSome with
  | true =>
    rw [(pass_of_stops runs).2] at sent
    cases sent
  | false =>
    obtain ⟨server, out⟩ := pass_of_not_stops runs
    rw [server]
    rw [out] at sent
    unfold transmit at sent ⊢
    dsimp only at sent ⊢
    split at sent
    · cases sent
    · rename_i active
      rw [if_neg active]
      split at sent
      · cases sent
      · rename_i sending
        rw [if_neg sending]
        cases sent
        rfl

/-- The payload that stands for exit code `c`. -/
def statusPayload (c : Int) : Bytes := [UInt8.ofNat (max 0 (min c 255)).toNat]

omit [Emulator T] in
theorem Knows.findCap {s : Server T} (h : s.Knows c) :
    ∀ cap ∈ Remote.findCap s.frameCaps CAP_EXIT_STATUS, cap.payload = statusPayload c := by
  intro cap found
  unfold frameCaps at found
  split at found
  · rename_i code known
    split at found
    · rw [h code known] at found
      simp [ownTable, Remote.findCap, CAP_PROTOCOL_VERSION, CAP_EXIT_STATUS] at found
      rw [← found]
      rfl
    · simp [Remote.findCap] at found
  · simp [Remote.findCap] at found

end Server

theorem toNat_statusPayload {c : Int} (low : 0 ≤ c) (high : c ≤ 255) :
    ((UInt8.ofNat (max 0 (min c 255)).toNat).toNat : Int) = c := by
  rw [Int.min_eq_left high, Int.max_eq_right low, UInt8.toNat_ofNat']
  omega

namespace Client

variable {T : Type} [Emulator T]

/-- Only a frame that tells the status changes what the client would return. -/
theorem exitStatus_processFrame {c : Int} {frame : ServerFrame} (client : Client T)
    (low : 0 ≤ c) (high : c ≤ 255)
    (caps : ∀ cap ∈ findCap frame.caps CAP_EXIT_STATUS, cap.payload = Server.statusPayload c) :
    (frame.TellsStatus → (client.processFrame frame).1.exitStatus = c) ∧
      (¬ frame.TellsStatus → (client.processFrame frame).1.exitStatus = client.exitStatus) := by
  have applied (c : Client T) : (c.applyFrame frame).1.exitStatus = c.exitStatus := by
    unfold applyFrame
    split
    · rfl
    · split
      · rfl
      · split <;> rfl
  unfold processFrame ServerFrame.TellsStatus ServerFrame.Announces
  rw [applied]
  unfold noteFrame
  dsimp only
  by_cases flag : frame.flags &&& FLAG_SHUTDOWN ≠ 0
  · rw [if_pos flag]
    dsimp only
    cases found : findCap frame.caps CAP_EXIT_STATUS with
    | none => exact ⟨fun tells => (nomatch tells.2), fun _ => rfl⟩
    | some cap =>
      have payload := caps cap found
      refine ⟨fun _ => ?_, fun tells => absurd ⟨flag, rfl⟩ tells⟩
      simp only [Option.bind_some, payload, Server.statusPayload, List.head?_cons]
      exact toNat_statusPayload low high
  · rw [if_neg flag]
    exact ⟨fun tells => absurd tells.1 flag, fun _ => rfl⟩

end Client

/-- Where the exit status is known, it is `c`, and the client that was told it will
return it. -/
structure Told {T : Type} [Emulator T] (c : Int) (d : Departure T) : Prop where
  known : d.recorded.run.server.Knows c
  caps : ∀ frame ∈ d.recorded.run.toClient,
    ∀ cap ∈ findCap frame.caps CAP_EXIT_STATUS, cap.payload = Server.statusPayload c
  told : (∃ p ∈ d.recorded.past.received, p.frame.TellsStatus) →
    d.recorded.run.client.exitStatus = c
  untold : (¬ ∃ p ∈ d.recorded.past.received, p.frame.TellsStatus) →
    d.recorded.run.client.exitStatus = 0
  left : ∀ code ∈ d.left, code = d.recorded.run.client.exitStatus

namespace Departure

variable {T : Type} [Emulator T] {cfg : ServerConfig} {c : Int}

theorem told_step (low : 0 ≤ c) (high : c ≤ 255) {d d' : Departure T} (h : Told c d)
    (step : Step cfg c d d') : Told c d' := by
  cases step with
  | serverPass tick running sent close send =>
      have received :=
        (d.recorded.past.passed cfg tick d.recorded.run.server).2
      have known : (d.recorded.run.server.pass cfg tick).server.Knows c :=
        h.known.pass close send
      refine ⟨known, ?_, ?_, ?_, h.left⟩
      · intro frame mem
        rcases List.mem_append.mp mem with old | new
        · exact h.caps frame old
        · rw [Server.caps_pass (Option.mem_toList.mp new)]
          exact known.findCap
      · dsimp only
        rw [received]
        exact h.told
      · dsimp only
        rw [received]
        exact h.untold
  | clientFrame frame present sent =>
      obtain ⟨tells, silent⟩ := Client.exitStatus_processFrame d.recorded.run.client low high
        (h.caps frame sent)
      have handled : (∃ p ∈ (d.recorded.past.receive frame d.recorded.run.client).received,
          p.frame.TellsStatus) ↔
          (∃ p ∈ d.recorded.past.received, p.frame.TellsStatus) ∨ frame.TellsStatus := by
        simp only [History.receive, List.mem_append, List.mem_singleton, or_and_right, exists_or,
          exists_eq_left]
      refine ⟨h.known, h.caps, ?_, ?_, ?_⟩
      · dsimp only
        rw [handled]
        intro told
        by_cases telling : frame.TellsStatus
        · exact tells telling
        · exact (silent telling).trans (h.told (told.resolve_right telling))
      · dsimp only
        rw [handled]
        intro untold
        obtain ⟨before, silently⟩ := not_or.mp untold
        exact (silent silently).trans (h.untold before)
      · intro code left
        rw [present] at left
        cases left
  | clientSend => exact ⟨h.known, h.caps, h.told, h.untold, h.left⟩
  | clientPush bytes => exact ⟨h.known, h.caps, h.told, h.untold, h.left⟩
  | clientEnv rows cols flags => exact ⟨h.known, h.caps, h.told, h.untold, h.left⟩
  | leave =>
      refine ⟨h.known, h.caps, h.told, h.untold, ?_⟩
      intro code left
      cases left
      rfl

theorem told_of_reachable (low : 0 ≤ c) (high : c ≤ 255) {d : Departure T}
    (reach : (system T cfg c).Reachable d) : Told c d := by
  refine reach.induct (I := Told c) ?_ fun _ _ _ h step => told_step low high h step
  rintro d ⟨rows, cols, now, clientRows, clientCols, rfl⟩
  refine ⟨nofun, fun _ mem => absurd mem List.not_mem_nil, ?_, fun _ => rfl, nofun⟩
  rintro ⟨_, mem, _⟩
  exact absurd mem List.not_mem_nil

/-- A client that left with the server's shutdown returns the shell's code and has
applied a frame of the finished shell exactly if it handled a frame that tells the
code (or the code is what it returns untold) and a frame of the finished shell
that it could rebuild. -/
theorem left_with_status {d : Departure T} (low : 0 ≤ c) (high : c ≤ 255)
    (reach : (system T cfg c).Reachable d) (small : Small d.recorded.run.server.produced)
    {code : Int} (left : d.left = some code) :
    (code = c ∧ ∃ p ∈ d.recorded.past.finals, d.recorded.run.client.appliedNum = p.1 ∧
        d.recorded.run.client.appliedData = Emulator.dumpVt p.2 ∧
        Resized p.2 d.recorded.run.server.term) ↔
      (c = 0 ∨ ∃ p ∈ d.recorded.past.received, p.frame.TellsStatus) ∧
        ∃ p ∈ d.recorded.past.received, p.Rebuildable ∧
          ∃ t, (p.frame.frameNum, t) ∈ d.recorded.past.finals := by
  have told := told_of_reachable low high reach
  have reach' := reachable_recorded reach
  have finished := Recorded.finished_of_reachable reach'
  have agrees := Roaming.agrees_invariant.reachable (Recorded.reachable_run reach')
  have status : code = c ↔ c = 0 ∨ ∃ p ∈ d.recorded.past.received, p.frame.TellsStatus := by
    rw [told.left code left]
    by_cases heard : ∃ p ∈ d.recorded.past.received, p.frame.TellsStatus
    · exact ⟨fun _ => .inr heard, fun _ => told.told heard⟩
    · rw [told.untold heard]
      exact ⟨fun zero => .inl zero.symm, fun zero => (zero.resolve_right heard).symm⟩
  refine and_congr status ⟨?_, ?_⟩
  · rintro ⟨⟨n, t⟩, final, num, _⟩
    rcases finished.applied with first | ⟨p, mem, rebuildable, same⟩
    · have positive := finished.positive _ final
      dsimp only at num positive
      omega
    · exact ⟨p, mem, rebuildable, t, (same.trans num) ▸ final⟩
  · rintro ⟨p, mem, rebuildable, t, final⟩
    obtain ⟨shown, applied⟩ := finished.later _ final d.recorded.run.client.appliedNum
      (finished.rebuilt small p mem rebuildable) agrees.applied_le
    have data := (agrees.applied small).symm.trans (finished.produced _ applied)
    exact ⟨_, applied, rfl, Option.some.inj data, finished.resized _ applied⟩

section Runs

/-- The pass that reads a client's first message and the end of its shell, whose
exit status is to be had or not. -/
def closingTick (reaped : Option Int) : Tick :=
  { plainTick 100 .closed [(Client.start 24 80 : Client (Slides fun _ => [0x41])).message] with
    reapAtClose := reaped }

/-- The frame that pass sends. -/
def lastFrame (reaped : Option Int) : ServerFrame where
  flags := FLAG_SHUTDOWN
  caps := (reaped.map fun code => ownTable [⟨CAP_EXIT_STATUS, Server.statusPayload code⟩]).getD []
  frameNum := 1
  inputAck := 0
  echoAck := 0
  body := .full [0x41]

/-- After that pass, the frame's arrival and the client's departure. -/
def exited (reaped : Option Int) : Departure (Slides fun _ => [0x41]) :=
  let w₀ : Recorded (Slides fun _ => [0x41]) := Recorded.start 24 80 0 24 80
  let run := { w₀.run with toServer := [w₀.run.client.message] }
  let past := w₀.past.afterPass {} (closingTick reaped) run.server
  let run' := run.afterPass {} (closingTick reaped)
  let client := (run'.client.processFrame (lastFrame reaped)).1
  ⟨⟨{ run' with client }, past.receive (lastFrame reaped) run'.client⟩, some client.exitStatus⟩

theorem exited_reachable {reaped : Option Int} (three : ∀ code ∈ reaped, code = 3)
    (sent : ((Server.start 24 80 0 : Server (Slides fun _ => [0x41])).pass {}
      (closingTick reaped)).sent = some (lastFrame reaped))
    (seen : (exited reaped).recorded.run.client.shutdownSeen = true) :
    (system _ {} 3).Reachable (exited reaped) := by
  have reach₀ : (system (Slides fun _ => [0x41]) {} 3).Reachable
      ⟨Recorded.start 24 80 0 24 80, none⟩ := .of_init ⟨24, 80, 0, 24, 80, rfl⟩
  have asked := reach₀.tail (.clientSend rfl)
  have closed := asked.tail (.serverPass (closingTick reaped) rfl (by
    intro d mem
    rw [List.mem_singleton.mp mem]
    exact List.mem_singleton.mpr rfl) three nofun)
  have shown := closed.tail (.clientFrame (lastFrame reaped) rfl
    (List.mem_append_right _ (Option.mem_toList.mpr sent)))
  exact shown.tail (.leave rfl seen)

/-- A child that cannot be reaped yet when the PTY closes: its only announcing
frame arrives, and the client leaves with 0 instead of 3. -/
theorem left_without_status : ¬ ∀ (d : Departure (Slides fun _ => [0x41])) (code : Int),
    (system _ {} 3).Reachable d → d.left = some code →
      code = 3 ∧ ∃ p ∈ d.recorded.past.finals, d.recorded.run.client.appliedNum = p.1 := by
  intro always
  have reach : (system _ {} 3).Reachable (exited none) :=
    exited_reachable nofun (by decide) (by decide)
  have told := (always (exited none) 0 reach (by decide)).1
  exact absurd told (by decide)

/-- The same shell, reaped in time. -/
theorem left_with_status_reaped : (system _ {} 3).Reachable (exited (some 3)) ∧
    (exited (some 3)).left = some 3 ∧
      ∃ p ∈ (exited (some 3)).recorded.past.received, p.frame.TellsStatus := by
  have reach : (system _ {} 3).Reachable (exited (some 3)) :=
    exited_reachable (by simp) (by decide) (by decide)
  have left : (exited (some 3)).left = some 3 := by decide
  have small : Small (exited (some 3)).recorded.run.server.produced := by
    intro data mem
    rcases List.mem_pair.mp mem with rfl | rfl <;> decide
  have applied : ∃ p ∈ (exited (some 3)).recorded.past.finals,
      (exited (some 3)).recorded.run.client.appliedNum = p.1 ∧
        (exited (some 3)).recorded.run.client.appliedData = Emulator.dumpVt p.2 ∧
        Resized p.2 (exited (some 3)).recorded.run.server.term :=
    ⟨_, List.mem_singleton.mpr rfl, by decide, by decide, .refl⟩
  obtain ⟨told, _⟩ := (left_with_status (by decide) (by decide) reach small left).mp ⟨rfl, applied⟩
  exact ⟨reach, left, told.resolve_left (by decide)⟩

end Runs

end Departure

end Posh.Remote
