import Posh.Remote.Roaming

/-!
Server and client agree on the screen.

`Agrees` is the inductive invariant: the server's window is sound, every frame on
the network carries what the server produced under its number, every ack on the
network is at most the client's state, and the client's data is the data of the
frame it claims to show. The last part needs dumps below 4 GiB, because a diff's
header truncates its two lengths to 32 bits; the numeric parts do not.
-/

namespace Posh.Remote

open Posh.Lib

/-- The frame carries the state produced under its number, as a full dump or as
a diff against an older produced state. -/
def FrameTrue (log : List Bytes) (frame : ServerFrame) : Prop :=
  match frame.body with
  | .empty => True
  | .full bytes => log[frame.frameNum]? = some bytes
  | .diff base diff => ∃ old new,
      log[base]? = some old ∧ log[frame.frameNum]? = some new ∧ diff = makeDiff old new

/-- Dumps the 32-bit header of a diff can describe. -/
def Small (log : List Bytes) : Prop :=
  ∀ data ∈ log, data.length < 2 ^ 32

theorem Small.of_prefix {log more : List Bytes} (h : Small (log ++ more)) : Small log :=
  fun data mem => h data (List.mem_append_left more mem)

theorem getElem?_append_of_eq_some {α : Type} {log more : List α} {n : Nat} {a : α}
    (h : log[n]? = some a) : (log ++ more)[n]? = some a :=
  (List.getElem?_append_left (List.getElem?_eq_some_iff.mp h).1).trans h

/-- Producing more states does not falsify an old frame. -/
theorem FrameTrue.append {log : List Bytes} {frame : ServerFrame} (h : FrameTrue log frame)
    (more : List Bytes) : FrameTrue (log ++ more) frame := by
  unfold FrameTrue at h ⊢
  split
  · trivial
  · rename_i bytes body
    rw [body] at h
    exact getElem?_append_of_eq_some h
  · rename_i base diff body
    rw [body] at h
    obtain ⟨old, new, hold, hnew, hdiff⟩ := h
    exact ⟨old, new, getElem?_append_of_eq_some hold, getElem?_append_of_eq_some hnew, hdiff⟩

structure Agrees {T : Type} (r : Roaming T) : Prop where
  window : r.server.window.Sound
  acked_le : r.server.ackedNum ≤ r.client.appliedNum
  applied_le : r.client.appliedNum ≤ r.server.current.num
  acks : ∀ m ∈ r.toServer, m.ackedFrame ≤ r.client.appliedNum
  nums : ∀ frame ∈ r.toClient, frame.frameNum ≤ r.server.current.num
  frames : ∀ frame ∈ r.toClient, FrameTrue r.server.produced frame
  applied : Small r.server.produced →
    r.server.produced[r.client.appliedNum]? = some r.client.appliedData

namespace Roaming

variable {T : Type} [Emulator T] {cfg : ServerConfig}

theorem agrees_start (rows cols now clientRows clientCols : Nat) :
    Agrees (start rows cols now clientRows clientCols : Roaming T) where
  window :=
    { length_log := rfl
      current := rfl
      acked_le := Nat.le_refl 0
      held := fun _ h => h
      kept := fun _ h => absurd h List.not_mem_nil }
  acked_le := Nat.le_refl 0
  applied_le := Nat.le_refl 0
  acks := fun _ h => absurd h List.not_mem_nil
  nums := fun _ h => absurd h List.not_mem_nil
  frames := fun _ h => absurd h List.not_mem_nil
  applied := fun _ => rfl

/-- What one pass does to the numbers and the log, given that every ack it reads
is at most `top`. -/
structure PassEffect (before after : Server T) (read : List ClientMessage) (top : Nat) : Prop where
  window : after.window.Sound
  num_le : before.current.num ≤ after.current.num
  acked_le : after.ackedNum ≤ top
  acked_eq : (before.ackedNum = top ∨ ∃ m ∈ read, m.ackedFrame = top) → after.ackedNum = top
  log : ∃ more, after.produced = before.produced ++ more

theorem passEffect (cfg : ServerConfig) (tick : Tick) {s : Server T} {top : Nat} (sound : s.window.Sound)
    (base : s.ackedNum ≤ top) (produced : top ≤ s.current.num)
    (below : ∀ d ∈ tick.deliveries, d.msg.ackedFrame ≤ top) :
    PassEffect s (s.pass cfg tick).server (s.reads cfg tick) top := by
  have le : ∀ n ∈ (s.reads cfg tick).map (·.ackedFrame), n ≤ top := by
    intro n mem
    obtain ⟨m, hm, rfl⟩ := List.mem_map.mp mem
    obtain ⟨d, hd, rfl⟩ := Server.reads_subset hm
    exact below d hd
  have acked := Window.acked_acks_le (w := s.window) produced base le
  have reached (h : s.ackedNum = top ∨ ∃ m ∈ s.reads cfg tick, m.ackedFrame = top) :=
    Window.acked_acks_eq (w := s.window) produced base le
      (h.imp id fun ⟨m, hm, eq⟩ => eq ▸ List.mem_map_of_mem hm)
  have num := Window.num_acks s.window ((s.reads cfg tick).map (·.ackedFrame))
  have log := Window.log_acks s.window ((s.reads cfg tick).map (·.ackedFrame))
  rcases Server.window_pass cfg tick s with read | ⟨data, fresh⟩
  · refine ⟨read ▸ sound.acks _, Nat.le_of_eq (num.symm.trans (congrArg Window.num read).symm),
      (congrArg Window.acked read).trans_le acked,
      fun h => (congrArg Window.acked read).trans (reached h), [], ?_⟩
    rw [List.append_nil]
    exact (congrArg Window.log read).trans log
  · refine ⟨fresh ▸ (sound.acks _).produce 8 data, ?_,
      (congrArg Window.acked fresh).trans_le acked,
      fun h => (congrArg Window.acked fresh).trans (reached h), [data], ?_⟩
    · have next := (congrArg Window.num fresh).trans (congrArg Nat.succ num)
      exact (Nat.le_succ _).trans_eq next.symm
    · exact (congrArg Window.log fresh).trans (congrArg (· ++ [data]) log)

omit [Emulator T] in
/-- The frame a sound server writes is true. -/
theorem frameTrue_of_writes {s : Server T} {frame : ServerFrame} (sound : s.window.Sound)
    (writes : s.Writes frame) : FrameTrue s.produced frame := by
  have current : s.produced[s.current.num]? = some s.current.data := sound.current
  unfold FrameTrue
  rw [writes.frameNum]
  rcases writes.body with empty | state
  · rw [empty]
    trivial
  · rcases s.stateBody_cases with full | ⟨base, held, diff⟩
    · rw [state, full]
      exact current
    · rw [state, diff]
      exact ⟨base, s.current.data, sound.held base held, current, rfl⟩

theorem agrees_pass {r : Roaming T} (tick : Tick) (h : Agrees r)
    (sent : ∀ d ∈ tick.deliveries, d.msg ∈ r.toServer) : Agrees (r.afterPass cfg tick) := by
  have effect := passEffect cfg tick h.window h.acked_le h.applied_le
    fun d hd => h.acks d.msg (sent d hd)
  obtain ⟨more, log⟩ := effect.log
  have log' : (r.afterPass cfg tick).server.produced = r.server.produced ++ more := log
  -- the frames on the network afterwards: the old ones and what this pass wrote
  have frames : ∀ frame ∈ (r.afterPass cfg tick).toClient,
      frame ∈ r.toClient ∨ (r.afterPass cfg tick).server.Writes frame := by
    intro frame mem
    rcases List.mem_append.mp mem with old | new
    · exact .inl old
    · exact .inr (Server.writes_pass (Option.mem_toList.mp new))
  refine ⟨effect.window, effect.acked_le, h.applied_le.trans effect.num_le, h.acks, ?_, ?_, ?_⟩
  · intro frame mem
    rcases frames frame mem with old | new
    · exact (h.nums frame old).trans effect.num_le
    · exact Nat.le_of_eq new.frameNum
  · intro frame mem
    rcases frames frame mem with old | new
    · exact log' ▸ (h.frames frame old).append more
    · exact frameTrue_of_writes effect.window new
  · intro small
    rw [log'] at small ⊢
    exact getElem?_append_of_eq_some (h.applied small.of_prefix)

theorem agrees_frame {r : Roaming T} {frame : ServerFrame} (h : Agrees r)
    (sent : frame ∈ r.toClient) :
    Agrees { r with client := (r.client.processFrame frame).1 } := by
  rcases Client.applied_cases frame r.client with ⟨num, data⟩ | ⟨newer, num, body⟩
  · exact ⟨h.window, num ▸ h.acked_le, num ▸ h.applied_le, num ▸ h.acks, h.nums, h.frames,
      fun small => num ▸ data ▸ h.applied small⟩
  · refine ⟨h.window, ?_, num ▸ h.nums frame sent, ?_, h.nums, h.frames, ?_⟩
    · exact num ▸ (h.acked_le.trans newer.le)
    · exact fun m mem => num ▸ ((h.acks m mem).trans newer.le)
    · intro small
      have truth := h.frames frame sent
      rw [num]
      unfold FrameTrue at truth
      rcases body with full | ⟨diff, body, applied⟩
      · rw [full] at truth
        exact truth
      · rw [body] at truth
        obtain ⟨old, new, hold, hnew, rfl⟩ := truth
        -- the base the diff was made from is the data the client holds
        have base : old = r.client.appliedData :=
          Option.some.inj (hold.symm.trans (h.applied small))
        have shorter : old.length < 2 ^ 32 := small old (List.mem_of_getElem? hold)
        rw [← base, applyDiff_makeDiff shorter] at applied
        rw [hnew, applied]

theorem agrees_step {r r' : Roaming T} (h : Agrees r) (step : Step cfg r r') : Agrees r' := by
  cases step with
  | serverPass tick _ sent => exact agrees_pass tick h sent
  | clientFrame frame sent => exact agrees_frame h sent
  | clientSend =>
      refine ⟨h.window, h.acked_le, h.applied_le, ?_, h.nums, h.frames, h.applied⟩
      intro m mem
      rcases List.mem_append.mp mem with old | new
      · exact h.acks m old
      · rw [List.mem_singleton.mp new]
        exact Nat.le_refl _
  | clientPush bytes =>
      exact ⟨h.window, h.acked_le, h.applied_le, h.acks, h.nums, h.frames, h.applied⟩
  | clientEnv rows cols flags =>
      exact ⟨h.window, h.acked_le, h.applied_le, h.acks, h.nums, h.frames, h.applied⟩

theorem agrees_invariant : (system T cfg).Invariant Agrees where
  base := by
    rintro r ⟨rows, cols, now, clientRows, clientCols, rfl⟩
    exact agrees_start rows cols now clientRows clientCols
  step := fun _ _ h step => agrees_step h step

/-- Whatever the network does, the acked, the applied and the current frame keep
their order and acked data is the acked frame's. With dumps a diff's header can
describe, the client shows exactly the data of the frame it says it shows, and a
diff it may apply was made from what it holds and rebuilds its target. -/
theorem state_agreement {r : Roaming T} (reach : (system T cfg).Reachable r) :
    r.server.produced.length = r.server.current.num + 1 ∧
      r.server.produced[r.server.current.num]? = some r.server.current.data ∧
      r.server.ackedNum ≤ r.client.appliedNum ∧ r.client.appliedNum ≤ r.server.current.num ∧
      (∀ data, r.server.ackedData = some data →
        r.server.produced[r.server.ackedNum]? = some data) ∧
      (Small r.server.produced →
        r.server.produced[r.client.appliedNum]? = some r.client.appliedData ∧
          ∀ frame ∈ r.toClient, ∀ diff, frame.body = .diff r.client.appliedNum diff →
            ∃ target, r.server.produced[frame.frameNum]? = some target ∧
              diff = makeDiff r.client.appliedData target ∧
              applyDiff r.client.appliedData diff = some target) := by
  have h := agrees_invariant.reachable reach
  refine ⟨h.window.length_log, h.window.current, h.acked_le, h.applied_le, h.window.held, ?_⟩
  intro small
  refine ⟨h.applied small, ?_⟩
  intro frame sent diff body
  have truth := h.frames frame sent
  unfold FrameTrue at truth
  rw [body] at truth
  obtain ⟨old, target, hold, htarget, rfl⟩ := truth
  have base : old = r.client.appliedData := Option.some.inj (hold.symm.trans (h.applied small))
  have shorter : old.length < 2 ^ 32 := small old (List.mem_of_getElem? hold)
  exact ⟨target, htarget, base ▸ rfl, base ▸ applyDiff_makeDiff shorter⟩

/-- A first frame produced, delivered and applied. -/
theorem state_agreement_first_frame : ∃ r : Roaming (Slides fun _ => [0x41]),
    (system _ {}).Reachable r ∧ Small r.server.produced ∧ r.client.appliedNum = 1 ∧
      r.server.produced[1]? = some r.client.appliedData := by
  let r₀ : Roaming (Slides fun _ => [0x41]) := start 24 80 0 24 80
  let r₁ := r₀.afterPass {} (plainTick 100 (.data [0x41]) [])
  let frame : ServerFrame := ⟨0, [], 1, 0, 0, .full [0x41]⟩
  let r₂ : Roaming (Slides _) := { r₁ with client := (r₁.client.processFrame frame).1 }
  have reach₀ : (system _ {}).Reachable r₀ := .of_init ⟨24, 80, 0, 24, 80, rfl⟩
  have reach₁ : (system _ {}).Reachable r₁ :=
    reach₀.tail (.serverPass _ rfl fun _ mem => absurd mem List.not_mem_nil)
  have sent : frame ∈ r₁.toClient := List.mem_singleton.mpr rfl
  have reach₂ : (system _ {}).Reachable r₂ := reach₁.tail (.clientFrame frame sent)
  have small : Small r₂.server.produced := by
    intro data mem
    rcases List.mem_pair.mp mem with rfl | rfl <;> decide
  have applied : r₂.client.appliedNum = 1 := by decide
  obtain ⟨_, _, _, _, _, shown⟩ := state_agreement reach₂
  exact ⟨r₂, reach₂, small, applied, applied ▸ (shown small).1⟩

end Roaming

end Posh.Remote
