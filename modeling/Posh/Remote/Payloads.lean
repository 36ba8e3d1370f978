import Posh.Lib.Along
import Posh.Remote.Fragments
import Posh.Remote.Roaming
import Posh.Remote.Wire
import Posh.Session.Backlog
import Posh.Term.Draws
import Posh.Term.Silent

/-!
Which payloads get through `send_payload` (`remote/server.rs`) and the reassembly at the
other end.

The fragmenter splits a payload of any length. The assembly takes `MAX_FRAGMENTS`
fragments, so that a frame gets through exactly when it fits in so many; a terminal's dump
can be longer.
-/

namespace Posh.Remote

open Posh.Lib Posh.Term

/-! ### What arrives of a payload -/

/-- The datagrams of a payload. -/
def sendPayload (payload : Bytes) (f : Fragmenter) : List Bytes × Fragmenter :=
  let (frags, f) := f.makeFragments payload FRAGMENT_CONTENTS_MAX
  (frags.map Fragment.toBytes, f)

/-- The fragments among datagrams; others are passed over. -/
def parsed (datagrams : List Bytes) : List Fragment :=
  datagrams.filterMap fun data =>
    match Fragment.fromBytes data with
    | .ok frag => some frag
    | .error _ => none

/-- Received in order and without loss, the datagrams of a payload are all accepted, and
what comes out is the payload. -/
structure Conveys (f : Fragmenter) (a : FragmentAssembly) (payload : Bytes) : Prop where
  accepted : ∀ front frag back, parsed (sendPayload payload f).1 = front ++ frag :: back →
    ∃ outs mid, a.receive front = .ok (outs, mid) ∧ (mid.attend frag.id).bogus frag = false
  reconstructed : ∃ outs last, a.receive (parsed (sendPayload payload f).1) = .ok (outs, last) ∧
    outs.filterMap id = [payload]

theorem parsed_map (frags : List Fragment) :
    parsed (frags.map Fragment.toBytes) = frags.map fun f => { f with num := f.num &&& 0x7fff } := by
  induction frags with
  | nil => rfl
  | cons f frags ih =>
    rw [List.map_cons, parsed, List.filterMap_cons, Fragment.fromBytes_toBytes]
    exact congrArg _ ih

/-- Fragments with small numbers arrive as they were sent. -/
theorem parsed_sendPayload {f : Fragmenter} {payload : Bytes}
    (few : (f.makeFragments payload FRAGMENT_CONTENTS_MAX).1.length ≤ MAX_FRAGMENTS) :
    parsed (sendPayload payload f).1 = (f.makeFragments payload FRAGMENT_CONTENTS_MAX).1 := by
  have numbered := FragmentAssembly.numbered_makeFragments f payload
    (show 1 ≤ FRAGMENT_CONTENTS_MAX by decide)
  have same : ∀ frag ∈ (f.makeFragments payload FRAGMENT_CONTENTS_MAX).1,
      ({ frag with num := frag.num &&& 0x7fff } : Fragment) = frag := by
    intro frag mem
    obtain ⟨i, found⟩ := List.mem_iff_getElem?.mp mem
    have num := FragmentAssembly.toNat_num numbered few found
    have inside := (List.getElem?_eq_some_iff.mp found).1
    have masked : frag.num &&& 0x7fff = frag.num := by
      apply UInt16.toNat_inj.mp
      have low : frag.num.toNat &&& (2 ^ 15 - 1) = frag.num.toNat % 2 ^ 15 :=
        Nat.and_two_pow_sub_one_eq_mod _ _
      unfold MAX_FRAGMENTS at few
      rw [UInt16.toNat_and]
      exact low.trans (Nat.mod_eq_of_lt (by omega))
    rw [masked]
  change parsed ((f.makeFragments payload FRAGMENT_CONTENTS_MAX).1.map Fragment.toBytes) = _
  rw [parsed_map]
  exact (List.map_congr_left same).trans (List.map_id _)

/-- A payload takes at most `MAX_FRAGMENTS` fragments when it is no longer than they hold. -/
theorem length_makeFragments_le (f : Fragmenter) (payload : Bytes) :
    (f.makeFragments payload FRAGMENT_CONTENTS_MAX).1.length ≤ MAX_FRAGMENTS ↔
      payload.length ≤ MAX_FRAGMENTS * FRAGMENT_CONTENTS_MAX :=
  length_fragmentLoop_le _ (by decide) (Nat.lt_succ_self _) 0 (by decide)

namespace FragmentAssembly

/-! ### Small payloads -/

theorem conveys_of_few {f : Fragmenter} {a : FragmentAssembly} {payload : Bytes}
    (few : (f.makeFragments payload FRAGMENT_CONTENTS_MAX).1.length ≤ MAX_FRAGMENTS)
    (other : a.currentId ≠ some (f.nextId + 1)) : Conveys f a payload := by
  have room : 1 ≤ FRAGMENT_CONTENTS_MAX := by decide
  have numbered := numbered_makeFragments f payload room
  have same := parsed_sendPayload few
  -- a fragment is not among those before it
  have new {front back : List Fragment} {frag : Fragment}
      (split : (f.makeFragments payload FRAGMENT_CONTENTS_MAX).1 = front ++ frag :: back) :
      frag ∉ front := by
    intro mem
    obtain ⟨i, inside, eq⟩ := List.getElem_of_mem mem
    have first : (f.makeFragments payload FRAGMENT_CONTENTS_MAX).1[i]? = some frag := by
      rw [split, List.getElem?_append_left inside, List.getElem?_eq_getElem inside, eq]
    have second : (f.makeFragments payload FRAGMENT_CONTENTS_MAX).1[front.length]? = some frag := by
      simp [split]
    have := toNat_num numbered few first
    have := toNat_num numbered few second
    omega
  constructor
  · intro front frag back split
    rw [same] at split
    have subset : front ⊆ (f.makeFragments payload FRAGMENT_CONTENTS_MAX).1 := by
      rw [split]
      exact List.subset_append_left _ _
    have found : (f.makeFragments payload FRAGMENT_CONTENTS_MAX).1[front.length]? = some frag := by
      simp [split]
    have id := (numbered _ _ found).1
    have start := assembling_attend (f.makeFragments payload FRAGMENT_CONTENTS_MAX).1 other
    by_cases none : front = []
    · subst none
      refine ⟨[], a, rfl, ?_⟩
      rw [id]
      exact not_bogus start numbered few found
    · have missing : ¬ (f.makeFragments payload FRAGMENT_CONTENTS_MAX).1 ⊆ front :=
        fun all => new split (all (List.mem_of_getElem? found))
      obtain ⟨last, received, held⟩ := receive_waiting numbered few subset start
        (mt (forall_mem_places front).mp missing)
      refine ⟨_, last, (receive_attend (id_of_numbered numbered subset) none).trans
        received, ?_⟩
      rw [id, attend_of_assembling held]
      exact not_bogus held numbered few found
  · rw [same]
    have some_ : (f.makeFragments payload FRAGMENT_CONTENTS_MAX).1 ≠ [] :=
      (fragmentLoop_spec _ room (Nat.lt_succ_self _) 0).2.2
    obtain ⟨front, frag, split⟩ : ∃ front frag,
        (f.makeFragments payload FRAGMENT_CONTENTS_MAX).1 = front ++ [frag] :=
      ⟨_, _, (List.dropLast_append_getLast some_).symm⟩
    have mem : frag ∈ (f.makeFragments payload FRAGMENT_CONTENTS_MAX).1 := by simp [split]
    have missing : ¬ (f.makeFragments payload FRAGMENT_CONTENTS_MAX).1 ⊆ front :=
      fun all => new split (all mem)
    have received := (receive_makeFragments room few other
      (by rw [split]; exact List.subset_append_left _ _) missing).2 frag mem (by rw [← split]; simp)
    rw [← split] at received
    exact ⟨_, _, received, by simp⟩

/-! ### Large payloads -/

/-- No more is held than the assembly has slots, each of a fragment's size. -/
structure Bounded (a : FragmentAssembly) : Prop where
  slots : a.fragments.length ≤ MAX_FRAGMENTS
  contents : ∀ piece, some piece ∈ a.fragments → piece.length ≤ FRAGMENT_CONTENTS_MAX

variable {a : FragmentAssembly}

theorem bounded_fresh (id : Option UInt64) :
    Bounded { a with currentId := id, fragments := [], arrived := 0, total := none } :=
  ⟨Nat.zero_le _, fun _ mem => absurd mem List.not_mem_nil⟩

theorem bounded_attend (id : UInt64) (bounded : Bounded a) : Bounded (a.attend id) := by
  unfold attend
  split
  · exact bounded_fresh _
  · exact bounded

theorem bounded_resized {idx : Nat} (inside : idx < MAX_FRAGMENTS) (bounded : Bounded a) :
    (resized idx a.fragments).length ≤ MAX_FRAGMENTS ∧
      ∀ piece, some piece ∈ resized idx a.fragments → piece.length ≤ FRAGMENT_CONTENTS_MAX := by
  unfold resized
  split
  · constructor
    · simp only [List.length_append, List.length_replicate]
      omega
    · intro piece mem
      rcases List.mem_append.mp mem with old | new
      · exact bounded.contents piece old
      · cases List.eq_of_mem_replicate new
  · exact ⟨bounded.slots, bounded.contents⟩

theorem guarded_fill (idx : Nat) (contents : Bytes) (slots : List (Option Bytes)) (arrived : Nat) :
    Guarded False (fill idx contents slots arrived) fun r => r.1.length = slots.length ∧
      ∀ piece, some piece ∈ r.1 → some piece ∈ slots ∨ piece = contents := by
  unfold fill
  refine (Guarded.getAt.weaken False.elim).bind fun slot _ => ?_
  split
  · refine (Guarded.setAt.weaken False.elim).bind fun set eq => .pure ?_
    subst eq
    refine ⟨List.length_set, fun piece mem => ?_⟩
    rcases List.mem_or_eq_of_mem_set mem with old | new
    · exact .inl old
    · exact .inr (Option.some.inj new)
  · exact .pure ⟨rfl, fun piece mem => .inl mem⟩

theorem guarded_mapM_unwrap (slots : List (Option Bytes)) :
    Guarded False (slots.mapM unwrap) fun pieces => slots = pieces.map some := by
  induction slots with
  | nil => exact .ok rfl
  | cons slot slots ih =>
    rw [List.mapM_cons]
    refine (Guarded.unwrap.weaken False.elim).bind fun piece eq => ih.bind fun pieces eqs => .pure ?_
    rw [eq, eqs, List.map_cons]

theorem length_flatten_le {bound : Nat} {pieces : List Bytes}
    (small : ∀ piece ∈ pieces, piece.length ≤ bound) :
    pieces.flatten.length ≤ pieces.length * bound := by
  induction pieces with
  | nil => exact Nat.zero_le _
  | cons piece pieces ih =>
    obtain ⟨first, later⟩ := List.forall_mem_cons.mp small
    have := ih later
    rw [List.flatten_cons, List.length_append, List.length_cons, Nat.succ_mul]
    omega

/-- Whatever fragments of their size are added, what is held stays bounded, and so is what
comes out. -/
theorem guarded_add {frag : Fragment} (small : frag.contents.length ≤ FRAGMENT_CONTENTS_MAX)
    (bounded : Bounded a) :
    Guarded False (a.add frag) fun r => Bounded r.2 ∧
      ∀ payload, r.1 = some payload → payload.length ≤ MAX_FRAGMENTS * FRAGMENT_CONTENTS_MAX := by
  have attended := bounded_attend frag.id bounded
  unfold add
  dsimp only
  by_cases bogus : (a.attend frag.id).bogus frag = true
  · rw [if_pos bogus]
    refine .pure ⟨attended, ?_⟩
    intro payload out
    cases out
  · rw [if_neg bogus]
    have inside : frag.num.toNat < MAX_FRAGMENTS := by
      by_contra outside
      refine bogus ?_
      rw [FragmentAssembly.bogus, decide_eq_true (Nat.le_of_not_lt outside)]
      rfl
    obtain ⟨slots, contents⟩ := bounded_resized inside attended
    generalize (if frag.isFinal = true then some (frag.num.toNat + 1)
      else (a.attend frag.id).total) = total
    refine (guarded_fill _ _ _ _).bind fun r filled => ?_
    obtain ⟨length, origin⟩ := filled
    have held : ∀ piece, some piece ∈ r.1 → piece.length ≤ FRAGMENT_CONTENTS_MAX := by
      intro piece mem
      rcases origin piece mem with old | rfl
      · exact contents piece old
      · exact small
    split
    · refine (guarded_mapM_unwrap r.1).bind fun pieces eq => .pure ⟨bounded_fresh _, ?_⟩
      rintro payload same
      rw [← Option.some.inj same]
      have count : pieces.length ≤ MAX_FRAGMENTS := by
        rw [← length, eq, List.length_map] at slots
        exact slots
      refine (length_flatten_le fun piece mem => held piece ?_).trans (Nat.mul_le_mul_right _ count)
      rw [eq]
      exact List.mem_map_of_mem mem
    · refine .pure ⟨⟨length ▸ slots, held⟩, ?_⟩
      intro payload out
      cases out

theorem guarded_receive {arrivals : List Fragment}
    (small : ∀ frag ∈ arrivals, frag.contents.length ≤ FRAGMENT_CONTENTS_MAX)
    (bounded : Bounded a) :
    Guarded False (a.receive arrivals) fun r => ∀ payload, some payload ∈ r.1 →
      payload.length ≤ MAX_FRAGMENTS * FRAGMENT_CONTENTS_MAX := by
  induction arrivals generalizing a with
  | nil => exact .ok fun _ mem => absurd mem List.not_mem_nil
  | cons frag arrivals ih =>
    obtain ⟨first, later⟩ := List.forall_mem_cons.mp small
    rw [receive]
    refine (guarded_add first bounded).bind fun r added => ?_
    obtain ⟨bounded', out⟩ := added
    refine (ih later bounded').bind fun rest outs => .pure ?_
    intro payload mem
    rcases List.mem_cons.mp mem with same | mem
    · exact out payload same.symm
    · exact outs payload mem

/-- A payload that takes more fragments does not get through. -/
theorem le_of_conveys {f : Fragmenter} {payload : Bytes} (other : a.currentId ≠ some (f.nextId + 1))
    (conveys : Conveys f a payload) :
    payload.length ≤ MAX_FRAGMENTS * FRAGMENT_CONTENTS_MAX := by
  obtain ⟨outs, last, received, out⟩ := conveys.reconstructed
  have room : 1 ≤ FRAGMENT_CONTENTS_MAX := by decide
  have numbered := numbered_makeFragments f payload room
  have arrived : parsed (sendPayload payload f).1 =
      (f.makeFragments payload FRAGMENT_CONTENTS_MAX).1.map
        fun frag => { frag with num := frag.num &&& 0x7fff } :=
    parsed_map _
  have ids : ∀ frag ∈ parsed (sendPayload payload f).1, frag.id = f.nextId + 1 := by
    rw [arrived]
    intro frag mem
    obtain ⟨sent, sent_mem, rfl⟩ := List.mem_map.mp mem
    exact id_of_numbered numbered (List.Subset.refl _) sent sent_mem
  have small : ∀ frag ∈ parsed (sendPayload payload f).1,
      frag.contents.length ≤ FRAGMENT_CONTENTS_MAX := by
    rw [arrived]
    intro frag mem
    obtain ⟨sent, sent_mem, rfl⟩ := List.mem_map.mp mem
    exact length_contents_le _ _ _ _ _ sent sent_mem
  have some_ : parsed (sendPayload payload f).1 ≠ [] := by
    rw [arrived]
    exact fun none => (fragmentLoop_spec _ room (Nat.lt_succ_self _) 0).2.2 (List.map_eq_nil_iff.mp none)
  have cleared : Bounded (a.attend (f.nextId + 1)) := by
    rw [attend, if_pos other]
    exact bounded_fresh _
  rw [receive_attend ids some_] at received
  have bound := (guarded_receive small cleared).of_eq_ok received
  have mem : payload ∈ outs.filterMap id := by
    rw [out]
    exact List.mem_singleton_self payload
  obtain ⟨_, mem, rfl⟩ := List.mem_filterMap.mp mem
  exact bound payload mem

end FragmentAssembly

/-- The other end gets a frame exactly when it fits in the fragments an assembly takes. -/
theorem frame_conveys_iff (frame : ServerFrame) (f : Fragmenter) (a : FragmentAssembly)
    (other : a.currentId ≠ some (f.nextId + 1)) :
    Conveys f a frame.encode ↔
      frame.encode.length ≤ MAX_FRAGMENTS * FRAGMENT_CONTENTS_MAX := by
  constructor
  · exact FragmentAssembly.le_of_conveys other
  · intro fits
    exact FragmentAssembly.conveys_of_few ((length_makeFragments_le f _).mpr fits) other

theorem frame_conveys_iff_lastDiff : Conveys {} {} lastDiff.encode :=
  (frame_conveys_iff lastDiff {} {} (by decide)).mpr (by decide)

/-! ### A dump that is too large -/

/-- The terminal model as the server's emulator: after a panic there is no terminal. -/
instance : Emulator (Checked Terminal) where
  new rows cols := .ok (Terminal.new rows cols)
  withScrollback rows cols scrollback := .ok (Terminal.withScrollback rows cols scrollback)
  process t bytes := t >>= fun t => t.process (fun _ => none) bytes
  resize t rows cols := t >>= fun t => t.resize rows cols
  takeResponses
    | .ok t => (t.responses, .ok t.silent)
    | .error p => ([], .error p)
  generation
    | .ok t => t.generation
    | .error _ => 0
  dumpVt t :=
    match t >>= fun t => t.dumpVt with
    | .ok dump => dump
    | .error _ => []
  rows
    | .ok t => t.rows
    | .error _ => 0
  cols
    | .ok t => t.cols
    | .error _ => 0

/-- A pass that reads from the PTY before a client is there. -/
def readTick (bytes : Bytes) : Tick where
  now := 0
  hasRemote := false
  pty := .data bytes
  sendAt := 0
  sendInterval := 20
  rto := 50

/-- Reads of the PTY feed the terminal, however they cut the output. -/
theorem reads_run {r : Roaming (Checked Terminal)} {t t' : Terminal}
    (running : r.serverExit = none) (shell : r.server.ptyOpen = true)
    (live : r.server.shutdown = false) (quiet : r.server.echo.pending = [])
    (term : r.server.term = .ok t.silent) (reads : List Bytes)
    (fed : t.process (fun _ => none) reads.flatten = .ok t') :
    (Roaming.system (Checked Terminal) {}).Runs r
      { r with server := { r.server with term := .ok t'.silent } } := by
  induction reads generalizing r t with
  | nil =>
    injection fed with eq
    subst eq
    rw [← term]
  | cons bytes reads ih =>
    rw [List.flatten_cons, Terminal.process, forEach_append] at fed
    obtain ⟨t₁, first, later⟩ := eq_ok_of_bind fed
    obtain ⟨u, processed, same⟩ : ∃ u, t.silent.process (fun _ => none) bytes = .ok u ∧
        u.silent = t₁.silent := by
      have paired := Terminal.paired_of_alike (t := t.silent) (u := t)
        (fun _ t => Terminal.process_alike (fun _ => none) bytes t) rfl
      have first : t.process (fun _ => none) bytes = .ok t₁ := first
      rw [first] at paired
      cases processed : t.silent.process (fun _ => none) bytes with
      | error p =>
        rw [processed] at paired
        cases paired
      | ok u =>
        rw [processed] at paired
        cases paired with
        | ok related => exact ⟨u, rfl, related⟩
    have passed : r.afterPass {} (readTick bytes) =
        { r with server := { r.server with term := .ok t₁.silent } } := by
      rw [← same]
      obtain ⟨server, client, toClient, toServer, exit⟩ := r
      obtain ⟨term_, inbox, echo, current, ackedNum, ackedData, outstanding, lastGen, lastSend,
        lastHeard, clientSize, ptyOpen, shutdown, shutdownAt, exitStatus, peerWantsExit, forceAck,
        forceFrame, produced, accepted, ptyInput⟩ := server
      obtain ⟨pending, acked⟩ := echo
      simp only at running shell live quiet term
      subst running shell live quiet term
      have fed : Emulator.process (Except.ok t.silent : Checked Terminal) bytes = .ok u := processed
      simp [Roaming.afterPass, Server.pass, Server.stops, readTick, Server.readPty, Server.transmit,
        Server.updateEcho, EchoAck.update, EchoAck.drain, fed, Emulator.takeResponses]
    have run := ih (r := r.afterPass {} (readTick bytes)) (t := t₁)
      (by rw [passed]; exact running) (by rw [passed]; exact shell) (by rw [passed]; exact live)
      (by rw [passed]; exact quiet) (by rw [passed]) later
    rw [passed] at run
    exact .head (passed ▸ .serverPass (readTick bytes) running nofun) run

/-- A dump of the grid only, without scrollback and without the alternate screen. -/
theorem dumpVt_plain {t : Terminal} {grid graphics modes cursor : List Char}
    (scrollback : t.primary.scrollback = []) (active : t.altActive = false)
    (drawn : t.drawGrid t.scr {} = .ok (grid, {})) (placed : t.dumpGraphics = .ok graphics)
    (moded : t.dumpModes = .ok modes) (ended : t.dumpCursor {} = .ok cursor) :
    t.dumpVt = .ok (toUtf8 (t.dumpColors ++ t.dumpTitles ++ t.dumpPwd ++
      (t.seedAltKitty ++ ("\x1b[H".toList ++ grid) ++ []) ++ graphics ++ modes ++ cursor)) := by
  have shown : t.scr = t.primary := by
    rw [Terminal.scr, active]
    rfl
  have primary : t.dumpPrimary {} = .ok ("\x1b[H".toList ++ grid, {}) := by
    rw [shown] at drawn
    rw [Terminal.dumpPrimary, scrollback, if_neg (by simp), drawn]
    rfl
  have alt : t.dumpAlt {} = .ok ([], {}) := by
    rw [Terminal.dumpAlt, active]
    rfl
  unfold Terminal.dumpVt Terminal.dumpVtImpl
  rw [if_neg (by decide), primary, placed, moded]
  change (toUtf8 <$> ((t.dumpAlt {} >>= fun r => Except.ok (t.seedAltKitty ++
    ("\x1b[H".toList ++ grid) ++ r.1, r.2)) >>= fun screens => t.dumpCursor screens.2 >>= fun cursor =>
    Except.ok (t.dumpColors ++ t.dumpTitles ++ t.dumpPwd ++ screens.1 ++ graphics ++ modes ++
      cursor))) = _
  rw [alt]
  change (toUtf8 <$> (t.dumpCursor {} >>= fun cursor => Except.ok (t.dumpColors ++ t.dumpTitles ++
    t.dumpPwd ++ (t.seedAltKitty ++ ("\x1b[H".toList ++ grid) ++ []) ++ graphics ++ modes ++
    cursor))) = _
  rw [ended]
  rfl

/-- The dump of the terminal with the long texts. -/
theorem length_dumpVt_crowded (q : Parser) : ∃ out, (Session.crowded q).dumpVt = .ok out ∧
    Session.MAX_CLIENT_BACKLOG < out.length := by
  obtain ⟨grid, drawn⟩ := Session.drawGrid_crowded q
  obtain ⟨graphics, placed⟩ := Session.dumpGraphics_crowded q
  obtain ⟨modes, moded⟩ := Session.dumpModes_crowded q
  obtain ⟨position, again, hidden, cursor⟩ := Session.dumpCursor_crowded q
  refine ⟨_, dumpVt_plain rfl rfl drawn placed moded cursor, ?_⟩
  rw [length_toUtf8]
  refine Nat.lt_of_lt_of_le ?_ (length_le_utf8Length _)
  rw [Session.dumpTitles_crowded, Session.dumpPwd_crowded, Session.emitHyperlink_crowded]
  unfold Session.MAX_CLIENT_BACKLOG
  simp only [List.length_append, Session.length_longText, String.length_toList]
  have framing : "\x1b]7;file://".length = 11 := rfl
  omega

/-- A session of which the server has read the PTY only. -/
def unheard (t : Terminal) : Roaming (Checked Terminal) :=
  { Roaming.start 24 80 0 24 80 with
    server := { (Server.start 24 80 0 : Server (Checked Terminal)) with term := .ok t } }

/-- Against the empty state, a diff is no shorter than what it makes. -/
theorem length_makeDiff_nil (data : Bytes) : ¬ (makeDiff [] data).length + 8 < data.length := by
  have bound := diffPrefix_add_diffSuffix_le [] data
  simp only [List.length_nil, Nat.zero_min, Nat.le_zero, Nat.add_eq_zero_iff] at bound
  simp only [makeDiff, bound, List.length_append, length_leBytes, List.length_take, List.length_drop]
  omega

/-- The first frame the server sends holds the whole dump. -/
theorem first_frame {t : Terminal} {dump : Bytes} (dumped : t.dumpVt = .ok dump)
    (changed : t.generation ≠ 0) :
    ∃ frame ∈ ((unheard t).afterPass {} (plainTick 20 .idle [])).toClient,
      frame.body = .full dump := by
  have shown : Emulator.dumpVt (Except.ok t : Checked Terminal) = dump := by
    change (match t.dumpVt with | .ok dump => dump | .error _ => []) = dump
    rw [dumped]
  have dirty : Emulator.generation (Except.ok t : Checked Terminal) ≠
      Emulator.generation (Emulator.new 24 80 : Checked Terminal) := changed
  have diff := length_makeDiff_nil dump
  simp [unheard, Roaming.start, Roaming.afterPass, Server.start, Server.pass, Server.stops, plainTick,
    Server.readPty, Server.transmit, Server.updateEcho, EchoAck.update, EchoAck.drain,
    Server.schedule, Server.beforeSend, Server.frame, Server.stateBody, PEER_TIMEOUT, dirty, shown,
    diff]

/-- Long titles, a long working directory and a long link make a frame that the client
never gets. -/
theorem long_texts_not_conveyed :
    ¬ ∀ r : Roaming (Checked Terminal),
      (Roaming.system (Checked Terminal) {}).Reachable r →
      ∀ frame ∈ r.toClient, Conveys {} {} frame.encode := by
  intro all
  obtain ⟨q, processed⟩ := Session.process_longTexts
  obtain ⟨dump, dumped, large⟩ := length_dumpVt_crowded q
  have silent : (Session.crowded q).silent = Session.crowded q := rfl
  have reads : (chunks 4096 Session.longTexts).flatten = Session.longTexts :=
    flatten_chunks (by decide) _
  have run := reads_run (r := Roaming.start 24 80 0 24 80) (t := Terminal.new 24 80) rfl rfl rfl rfl
    rfl (chunks 4096 Session.longTexts) (by rw [reads]; exact processed)
  have start : (Roaming.system (Checked Terminal) {}).Reachable (Roaming.start 24 80 0 24 80) :=
    .of_init ⟨24, 80, 0, 24, 80, rfl⟩
  rw [silent] at run
  have fed : (Roaming.system (Checked Terminal) {}).Reachable (unheard (Session.crowded q)) :=
    start.runs run
  have sent := fed.tail (.serverPass (plainTick 20 .idle []) rfl nofun)
  obtain ⟨frame, mem, body⟩ := first_frame dumped (show 3 ≠ 0 by decide)
  have fits := FragmentAssembly.le_of_conveys (a := {}) (f := {}) (by decide) (all _ sent frame mem)
  have longer : dump.length ≤ frame.encode.length := by
    simp only [ServerFrame.encode, body, FrameBody.encode, List.length_append, List.length_cons]
    omega
  unfold Session.MAX_CLIENT_BACKLOG at large
  have cap : MAX_FRAGMENTS * FRAGMENT_CONTENTS_MAX = 11157504 := by decide
  omega

end Posh.Remote
