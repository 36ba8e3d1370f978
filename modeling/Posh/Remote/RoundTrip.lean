import Posh.Lib.Transition
import Posh.Remote.Datagram

/-!
The round trips that two connections measure (`remote/datagram.rs`).

Both ends read clocks that advance together, each from an offset of its own. The network
keeps every datagram that was sent: a delivery reads one and removes none, so that a
datagram arrives any number of times, in any order, or never. Beside a datagram stands when
it was sent and which datagram of the peer it answers; the connections never look there.

A timestamp is the clock modulo 65536, with the one value that is reserved moved up by one.
So a difference of timestamps is off by one at most, and below the cut-off it is no other
number modulo 65536.
-/

namespace Posh.Remote

open Posh.Lib

/-! ### Differences of timestamps -/

theorem toNat_timestamp16 (now : Nat) :
    (timestamp16 now).toNat = if now % 65536 = 65535 then 0 else now % 65536 := by
  have small : (UInt16.ofNat (now % 65536)).toNat = now % 65536 :=
    UInt16.toNat_ofNat_of_lt' (Nat.mod_lt now (by decide))
  have reserved : UInt16.ofNat (now % 65536) = TS_NONE ↔ now % 65536 = 65535 := by
    rw [← UInt16.toNat_inj, small]
    rfl
  unfold timestamp16
  simp only [reserved]
  split
  · rfl
  · exact small

theorem timestamp16_ne_none (now : Nat) : timestamp16 now ≠ TS_NONE := by
  intro none_
  have value := congrArg UInt16.toNat none_
  rw [toNat_timestamp16] at value
  change _ = 65535 at value
  split at value
  · cases value
  · contradiction

/-- Below the cut-off a measured time is off by one at most, wherever the clock wraps. -/
theorem timestampDiff_close {now sent held : Nat} (later : sent + held ≤ now)
    (short : now - sent - held < 60000)
    (below : (timestampDiff (timestamp16 now) (timestamp16 sent + UInt16.ofNat held)).toNat < 5000) :
    let r := (timestampDiff (timestamp16 now) (timestamp16 sent + UInt16.ofNat held)).toNat
    r ≤ now - sent - held + 1 ∧ now - sent - held ≤ r + 1 := by
  unfold timestampDiff at below ⊢
  rw [UInt16.toNat_sub, UInt16.toNat_add, UInt16.toNat_ofNat', toNat_timestamp16,
    toNat_timestamp16] at below ⊢
  dsimp only
  split at below
  · split at below <;> simp only [*, if_true, if_false] <;> omega
  · split at below <;> simp only [*, if_true, if_false] <;> omega

/-! ### Stamped packets -/

namespace Connection

/-- The four bytes before a payload. -/
def stamps (ts reply : UInt16) : Bytes :=
  beBytes 2 ts.toNat ++ beBytes 2 reply.toNat

theorem length_stamps (ts reply : UInt16) : (stamps ts reply).length = 4 := by
  rw [stamps, List.length_append, length_beBytes, length_beBytes]

theorem read_stamp (ts : UInt16) : UInt16.ofNat (ofBeBytes (beBytes 2 ts.toNat)) = ts := by
  rw [ofBeBytes_beBytes_of_lt (show ts.toNat < 256 ^ 2 from ts.toNat_lt), UInt16.ofNat_toNat]

theorem take_stamps (ts reply : UInt16) (payload : Bytes) :
    (stamps ts reply ++ payload).take 2 = beBytes 2 ts.toNat := by
  rw [stamps, List.append_assoc]
  exact List.take_left' (length_beBytes 2 _)

theorem drop_stamps (ts reply : UInt16) (payload : Bytes) :
    ((stamps ts reply ++ payload).drop 2).take 2 = beBytes 2 reply.toNat := by
  rw [stamps, List.append_assoc, List.drop_left' (length_beBytes 2 _)]
  exact List.take_left' (length_beBytes 2 _)

/-- A datagram that one of two ends has sealed. -/
def Sealed (aead : Aead) (datagram plaintext : Bytes) : Prop :=
  ∃ val : UInt64, ∃ ciphertext, datagram = beBytes NONCE_PREFIX_LEN val.toNat ++ ciphertext ∧
    aead.encrypt (nonceBytes val) plaintext = some ciphertext

variable {Addr R : Type} {aead : Aead} {est : RttEstimator R} {c : Connection Addr R}
  {a : Arrival Addr}

theorem send_sealed {now : Nat} {datagram payload : Bytes} {remote : Addr}
    (sent : (c.send aead now payload).1 = .ok (some (datagram, remote))) :
    c.remote = some remote ∧
      Sealed aead datagram (stamps (timestamp16 now) (c.takeReply now).1 ++ payload) := by
  obtain ⟨known, sealing⟩ := send_seals sent
  obtain ⟨val, -, ciphertext, datagram, encrypts⟩ := Session.seal_spec sealing
  exact ⟨known, val, ciphertext, datagram, encrypts⟩

/-- What opens is what was sealed. -/
theorem Sealed.opened (lawful : aead.Lawful) {datagram plaintext read : Bytes} {s session : Session}
    {seq : UInt64} (sealed : Sealed aead datagram plaintext)
    (opens : s.open_ aead datagram = (.ok (seq, read), session)) : read = plaintext := by
  obtain ⟨val, ciphertext, rfl, encrypts⟩ := sealed
  rcases Session.open_cases aead (beBytes NONCE_PREFIX_LEN val.toNat ++ ciphertext) s with
    ⟨_, eq, -⟩ | ⟨_, eq⟩ | ⟨plain, eq, -, -, decrypts⟩
  · rw [eq] at opens
    cases opens
  · rw [eq] at opens
    cases opens
  · rw [eq] at opens
    cases opens
    rw [Session.nonceValue_beBytes, List.drop_left' (length_beBytes _ _),
      lawful.opens _ _ _ encrypts] at decrypts
    exact (Option.some.inj decrypts).symm

/-- The sample that `recv` hands to the estimator. -/
def handed (aead : Aead) (a : Arrival Addr) (c : Connection Addr R) : Option UInt16 :=
  match c.session.open_ aead a.read with
  | (.error _, _) => none
  | (.ok (seq, plaintext), _) =>
      let reply := UInt16.ofNat (ofBeBytes ((plaintext.drop 2).take 2))
      if 4 ≤ plaintext.length ∧ c.expectedReceiverSeq ≤ seq.toNat ∧ reply ≠ TS_NONE then
        some (timestampDiff (timestamp16 a.at_) reply)
      else none

/-- The round-trip time changes by the sample that was handed over, and not without one. -/
theorem recv_rtt (est : RttEstimator R) (a : Arrival Addr) (c : Connection Addr R) :
    (c.recv aead est a).2.rtt = (c.handed aead a).elim c.rtt fun r => est.sample r c.rtt := by
  unfold handed
  rcases opens : c.session.open_ aead a.read with ⟨_ | ⟨seq, plaintext⟩, session⟩
  · rw [recv_of_error opens]
    rfl
  · rw [recv_of_ok opens]
    dsimp only
    split
    · rw [if_neg (by omega)]
      rfl
    · rename_i long
      split
      · rename_i newest
        unfold adopt
        dsimp only
        split
        · rename_i replied
          rw [if_pos ⟨Nat.le_of_not_lt long, newest, replied⟩]
          rfl
        · rename_i mute
          rw [if_neg fun all => mute all.2.2]
          rfl
      · rename_i late
        rw [if_neg fun all => late all.2.1]
        rfl

/-- The sample is read off the second stamp. -/
theorem handed_sealed (lawful : aead.Lawful) {ts reply : UInt16} {payload : Bytes}
    (sealed : Sealed aead a.read (stamps ts reply ++ payload)) {r : UInt16}
    (mem : r ∈ c.handed aead a) :
    reply ≠ TS_NONE ∧ r = timestampDiff (timestamp16 a.at_) reply := by
  unfold handed at mem
  rcases opens : c.session.open_ aead a.read with ⟨_ | ⟨seq, plaintext⟩, session⟩
  · rw [opens] at mem
    cases mem
  · rw [opens] at mem
    dsimp only at mem
    rw [sealed.opened lawful opens, drop_stamps, read_stamp] at mem
    split at mem
    · rename_i all
      exact ⟨all.2.2, (Option.some.inj mem).symm⟩
    · cases mem

/-- A datagram of the peer changes the saved timestamp if it is the newest, to its own. -/
theorem recv_sealed (lawful : aead.Lawful) {sent : Nat} {reply : UInt16} {payload : Bytes}
    (sealed : Sealed aead a.read (stamps (timestamp16 sent) reply ++ payload)) :
    (c.recv aead est a).2.savedTimestamp =
      if (c.recv aead est a).2.expectedReceiverSeq = c.expectedReceiverSeq then c.savedTimestamp
      else some (timestamp16 sent, a.at_) := by
  rcases opens : c.session.open_ aead a.read with ⟨_ | ⟨seq, plaintext⟩, session⟩
  · rw [recv_of_error opens, if_pos rfl]
  · have whole := sealed.opened lawful opens
    rw [recv_of_ok opens, if_neg (by rw [whole, List.length_append, length_stamps]; omega)]
    dsimp only
    split
    · rename_i newest
      unfold adopt
      dsimp only
      have moved : seq.toNat + 1 ≠ c.expectedReceiverSeq := by omega
      rw [if_neg moved, whole, take_stamps, read_stamp, if_pos (timestamp16_ne_none sent)]
    · exact (if_pos rfl).symm

/-- A saved timestamp is taken, or left where it is. -/
theorem takeReply_cases (now : Nat) (c : Connection Addr R) :
    c.takeReply now = (TS_NONE, c) ∨ ∃ ts at_, c.savedTimestamp = some (ts, at_) ∧
      c.takeReply now = (ts + UInt16.ofNat (now - at_), { c with savedTimestamp := none }) := by
  unfold takeReply
  split
  · rename_i ts at_ saved
    split
    · exact .inr ⟨ts, at_, saved, rfl⟩
    · exact .inl rfl
  · exact .inl rfl

theorem send_taken {remote : Addr} (known : c.remote = some remote) (now : Nat) (payload : Bytes) :
    (c.send aead now payload).2.savedTimestamp = (c.takeReply now).2.savedTimestamp := by
  unfold send
  rw [known]
  dsimp only
  split <;> rfl

theorem send_saved (now : Nat) (payload : Bytes) (c : Connection Addr R) :
    (c.send aead now payload).2.savedTimestamp = none ∨
      (c.send aead now payload).2.savedTimestamp = c.savedTimestamp := by
  cases known : c.remote with
  | none =>
    unfold send
    rw [known]
    exact .inr rfl
  | some remote =>
    rw [send_taken known]
    rcases takeReply_cases now c with eq | ⟨_, _, -, eq⟩
    · rw [eq]
      exact .inr rfl
    · rw [eq]
      exact .inl rfl

end Connection

/-! ### Two ends and a network -/

/-- A datagram the other end has taken the timestamp of: when it was sent, and when it arrived. -/
structure Echo where
  sent : Nat
  arrived : Nat
deriving DecidableEq, Repr

/-- A datagram in the network: when it was sent, and what it answers. -/
structure Packet where
  datagram : Bytes
  sent : Nat
  echo : Option Echo
deriving DecidableEq, Repr

/-- The time elapsed since what `p` answers was sent, less the time the sender of `p` held it. -/
def Packet.roundTrip (p : Packet) (e : Echo) (arrived : Nat) : Int :=
  ((arrived : Int) - e.sent) - ((p.sent : Int) - e.arrived)

/-- One end: its connection, the newest datagram it has not answered, and what it has sent. -/
structure Side (Addr R : Type) where
  conn : Connection Addr R
  heard : Option Echo := none
  sent : List Packet := []

namespace Side

variable {Addr R : Type}

/-- Sends a payload at `tick`, on a clock that is `offset` ahead. A saved timestamp that is
gone afterwards is in the datagram. -/
def send (aead : Aead) (offset tick : Nat) (payload : Bytes) (s : Side Addr R) : Side Addr R :=
  let (datagram, conn) := s.conn.send aead (tick + offset) payload
  let taken := conn.savedTimestamp.isNone
  { conn
    heard := if taken then none else s.heard
    sent := match datagram with
      | .ok (some (datagram, _)) => ⟨datagram, tick, if taken then s.heard else none⟩ :: s.sent
      | _ => s.sent }

/-- The packet `p` arrives as `a`. -/
def recv (aead : Aead) (est : RttEstimator R) (tick : Nat) (p : Packet) (a : Arrival Addr)
    (s : Side Addr R) : Side Addr R :=
  let conn := (s.conn.recv aead est a).2
  { s with
    conn
    heard := if conn.expectedReceiverSeq = s.conn.expectedReceiverSeq then s.heard
      else some ⟨p.sent, tick⟩ }

/-- A datagram that does not open arrives. -/
def refuse (aead : Aead) (est : RttEstimator R) (a : Arrival Addr) (s : Side Addr R) :
    Side Addr R :=
  { s with conn := (s.conn.recv aead est a).2 }

variable {aead : Aead} {offset tick : Nat} {payload : Bytes} {s : Side Addr R}

theorem heard_send : (s.send aead offset tick payload).heard =
    if (s.conn.send aead (tick + offset) payload).2.savedTimestamp.isNone then none else s.heard :=
  rfl

/-- A send adds at most one packet, which has the echo that was taken. -/
theorem mem_sent_send {p : Packet} (mem : p ∈ (s.send aead offset tick payload).sent) :
    p ∈ s.sent ∨ ∃ datagram remote,
      (s.conn.send aead (tick + offset) payload).1 = .ok (some (datagram, remote)) ∧
      p = ⟨datagram, tick,
        if (s.conn.send aead (tick + offset) payload).2.savedTimestamp.isNone then s.heard
        else none⟩ := by
  unfold send at mem
  dsimp only at mem
  split at mem
  · rename_i datagram remote out
    rcases List.mem_cons.mp mem with rfl | old
    · exact .inr ⟨datagram, remote, out, rfl⟩
    · exact .inl old
  · exact .inl mem

end Side

inductive Party where
  | client
  | server
deriving DecidableEq, Repr

def Party.peer : Party → Party
  | client => server
  | server => client

@[simp] theorem Party.peer_peer (x : Party) : x.peer.peer = x := by
  cases x <;> rfl

/-- Both ends, and the time. -/
structure Link (Addr R : Type) where
  tick : Nat
  sides : Party → Side Addr R

namespace Link

variable {Addr R : Type}

def set (x : Party) (s : Side Addr R) (w : Link Addr R) : Link Addr R :=
  { w with sides := fun y => if y = x then s else w.sides y }

/-- What may happen next, where the clock of each end is its `offset` ahead. -/
inductive Step (aead : Aead) (est : RttEstimator R) (offset : Party → Nat) :
    Link Addr R → Link Addr R → Prop where
  | wait {w : Link Addr R} (n : Nat) : Step aead est offset w { w with tick := w.tick + n }
  | send {w : Link Addr R} (x : Party) (payload : Bytes) :
      Step aead est offset w (w.set x ((w.sides x).send aead (offset x) w.tick payload))
  /-- A datagram that the peer has sent arrives whole. -/
  | recv {w : Link Addr R} (x : Party) (p : Packet) (a : Arrival Addr) :
      p ∈ (w.sides x.peer).sent → a.read = p.datagram → a.at_ = w.tick + offset x →
      Step aead est offset w (w.set x ((w.sides x).recv aead est w.tick p a))
  /-- Anything else arrives, and does not open. -/
  | refuse {w : Link Addr R} (x : Party) (a : Arrival Addr) :
      ((w.sides x).conn.session.open_ aead a.read).1.isOk = false →
      Step aead est offset w (w.set x ((w.sides x).refuse aead est a))

/-- A client that knows where to send, and a server. -/
def start (est : RttEstimator R) (remote : Addr) (tick : Nat) : Link Addr R where
  tick := tick
  sides
    | .client => { conn := Connection.client est remote }
    | .server => { conn := Connection.server est }

def system (Addr : Type) (aead : Aead) (est : RttEstimator R) (offset : Party → Nat) :
    Transition (Link Addr R) where
  init w := ∃ remote tick, w = start est remote tick
  step := Step aead est offset

end Link

/-! ### What the stamps say -/

/-- The second stamp of a packet to an end whose clock is `yours` ahead. -/
def Packet.reply (yours : Nat) (p : Packet) : UInt16 :=
  match p.echo with
  | some e => timestamp16 (e.sent + yours) + UInt16.ofNat (p.sent - e.arrived)
  | none => TS_NONE

/-- A packet from an end whose clock is `mine` ahead to one whose clock is `yours` ahead. -/
structure Packet.Stamped (aead : Aead) (mine yours : Nat) (p : Packet) : Prop where
  sealed : ∃ payload, Connection.Sealed aead p.datagram
    (Connection.stamps (timestamp16 (p.sent + mine)) (p.reply yours) ++ payload)
  echo : ∀ e ∈ p.echo, e.sent ≤ e.arrived ∧ e.arrived ≤ p.sent

/-- The saved timestamp is that of the datagram heard, and so are those that were sent. -/
structure Side.Tracks {Addr R : Type} (aead : Aead) (mine yours tick : Nat) (s : Side Addr R) :
    Prop where
  saved : s.conn.savedTimestamp =
    s.heard.map fun e => (timestamp16 (e.sent + yours), e.arrived + mine)
  heard : ∀ e ∈ s.heard, e.sent ≤ e.arrived ∧ e.arrived ≤ tick
  sent : ∀ p ∈ s.sent, p.sent ≤ tick ∧ p.Stamped aead mine yours

namespace Side.Tracks

variable {Addr R : Type} {aead : Aead} {est : RttEstimator R} {mine yours tick : Nat}
  {s : Side Addr R}

theorem wait (h : s.Tracks aead mine yours tick) (n : Nat) :
    s.Tracks aead mine yours (tick + n) where
  saved := h.saved
  heard e mem := ⟨(h.heard e mem).1, Nat.le_add_right_of_le (h.heard e mem).2⟩
  sent p mem := ⟨Nat.le_add_right_of_le (h.sent p mem).1, (h.sent p mem).2⟩

/-- The reply in a packet is the timestamp that was saved, advanced by the time it was held. -/
theorem takeReply (h : s.Tracks aead mine yours tick) (datagram : Bytes) :
    (s.conn.takeReply (tick + mine)).1 = Packet.reply yours ⟨datagram, tick,
      if (s.conn.takeReply (tick + mine)).2.savedTimestamp.isNone then s.heard else none⟩ := by
  have saved := h.saved
  rcases Connection.takeReply_cases (tick + mine) s.conn with eq | ⟨ts, at_, held, eq⟩
  · rw [eq]
    dsimp only
    cases none_ : s.heard with
    | none =>
      rw [ite_self]
      rfl
    | some e =>
      rw [saved, none_]
      rfl
  · rw [eq]
    rw [held] at saved
    obtain ⟨e, heard, pair⟩ := Option.map_eq_some_iff.mp saved.symm
    cases pair
    dsimp only
    rw [heard, show tick + mine - (e.arrived + mine) = tick - e.arrived by omega]
    rfl

theorem send (h : s.Tracks aead mine yours tick) (payload : Bytes) :
    (s.send aead mine tick payload).Tracks aead mine yours tick where
  saved := by
    rw [heard_send]
    change (s.conn.send aead (tick + mine) payload).2.savedTimestamp = _
    rcases @Connection.send_saved _ _ aead (tick + mine) payload s.conn with none_ | same
    · rw [none_]
      rfl
    · rw [same, h.saved]
      cases s.heard <;> rfl
  heard := by
    intro e mem
    rw [heard_send] at mem
    split at mem
    · cases mem
    · exact h.heard e mem
  sent := by
    intro p mem
    rcases mem_sent_send mem with old | ⟨datagram, remote, out, rfl⟩
    · exact h.sent p old
    · obtain ⟨known, sealed⟩ := Connection.send_sealed out
      rw [h.takeReply datagram, ← Connection.send_taken known] at sealed
      refine ⟨Nat.le_refl _, ⟨payload, sealed⟩, ?_⟩
      intro e mem
      dsimp only at mem
      split at mem
      · exact h.heard e mem
      · cases mem

/-- A packet of the peer arrives whole. -/
theorem recv (h : s.Tracks aead mine yours tick) (lawful : aead.Lawful) {p : Packet}
    (stamped : p.Stamped aead yours mine) (past : p.sent ≤ tick) {a : Arrival Addr}
    (whole : a.read = p.datagram) (now : a.at_ = tick + mine) :
    (s.recv aead est tick p a).Tracks aead mine yours tick where
  saved := by
    obtain ⟨payload, sealed⟩ := stamped.sealed
    rw [← whole] at sealed
    unfold Side.recv
    dsimp only
    rw [Connection.recv_sealed lawful sealed, h.saved, now]
    split <;> rfl
  heard := by
    intro e mem
    unfold Side.recv at mem
    dsimp only at mem
    split at mem
    · exact h.heard e mem
    · cases mem
      exact ⟨past, Nat.le_refl _⟩
  sent := h.sent

theorem refuse (h : s.Tracks aead mine yours tick) {a : Arrival Addr}
    (refused : (s.conn.session.open_ aead a.read).1.isOk = false) :
    (s.refuse aead est a).Tracks aead mine yours tick where
  saved := by
    rcases opens : s.conn.session.open_ aead a.read with ⟨_ | _, session⟩
    · unfold Side.refuse
      rw [Connection.recv_of_error opens]
      exact h.saved
    · rw [opens] at refused
      cases refused
  heard := h.heard
  sent := h.sent

end Side.Tracks

namespace Link

variable {Addr R : Type} {aead : Aead} {est : RttEstimator R} {offset : Party → Nat}
  {w w' : Link Addr R}

/-- Both ends track what they have heard and sent. -/
def Tracks (aead : Aead) (offset : Party → Nat) (w : Link Addr R) : Prop :=
  ∀ x, (w.sides x).Tracks aead (offset x) (offset x.peer) w.tick

theorem Tracks.set (h : w.Tracks aead offset) {x : Party} {s : Side Addr R}
    (side : s.Tracks aead (offset x) (offset x.peer) w.tick) : (w.set x s).Tracks aead offset := by
  intro y
  unfold Link.set
  dsimp only
  split
  · rename_i same
    rw [same]
    exact side
  · exact h y

theorem tracks_invariant (lawful : aead.Lawful) :
    (system Addr aead est offset).Invariant (Tracks aead offset) where
  base := by
    rintro w ⟨remote, tick, rfl⟩ x
    cases x <;> exact ⟨rfl, nofun, nofun⟩
  step := by
    rintro w w' h step
    cases step with
    | wait n => exact fun x => (h x).wait n
    | send x payload => exact h.set ((h x).send payload)
    | recv x p a mem whole now =>
      have sent := (h x.peer).sent p mem
      rw [Party.peer_peer] at sent
      exact h.set ((h x).recv lawful sent.2 sent.1 whole now)
    | refuse x a refused => exact h.set ((h x).refuse refused)

/-- A sample below the cut-off is the true round trip, off by a millisecond at most. Two ends
whose clocks advance together, from any offsets, send and wait as they like, over a network
that loses, duplicates and reorders: whenever a datagram of the peer arrives, the estimator
gets the sample handed over and no other, and if that is below 5000 and the round trip is
below 60000, the two are within one of another. -/
theorem samples_true (lawful : aead.Lawful)
    (h : (system Addr aead est offset).Reachable w) {x : Party} {p : Packet}
    (sent : p ∈ (w.sides x.peer).sent) {a : Arrival Addr} (whole : a.read = p.datagram)
    (now : a.at_ = w.tick + offset x) :
    let c := (w.sides x).conn
    (c.recv aead est a).2.rtt = (c.handed aead a).elim c.rtt (fun r => est.sample r c.rtt) ∧
      ∀ r ∈ c.handed aead a, r.toNat < 5000 →
        ∃ e ∈ p.echo, 0 ≤ p.roundTrip e w.tick ∧ (p.roundTrip e w.tick < 60000 →
          (r.toNat : Int) ≤ p.roundTrip e w.tick + 1 ∧
            p.roundTrip e w.tick ≤ (r.toNat : Int) + 1) := by
  intro c
  refine ⟨Connection.recv_rtt est a c, ?_⟩
  intro r mem below
  obtain ⟨past, stamped⟩ := ((tracks_invariant lawful).reachable h x.peer).sent p sent
  rw [Party.peer_peer] at stamped
  obtain ⟨payload, sealed⟩ := stamped.sealed
  rw [← whole] at sealed
  obtain ⟨replied, sample⟩ := Connection.handed_sealed lawful sealed mem
  cases answers : p.echo with
  | none =>
    unfold Packet.reply at replied
    rw [answers] at replied
    exact absurd rfl replied
  | some e =>
    obtain ⟨there, back⟩ := stamped.echo e answers
    have reply : p.reply (offset x) =
        timestamp16 (e.sent + offset x) + UInt16.ofNat (p.sent - e.arrived) := by
      unfold Packet.reply
      rw [answers]
    rw [reply, now] at sample
    refine ⟨e, rfl, ?_, ?_⟩
    · unfold Packet.roundTrip
      omega
    · intro short
      unfold Packet.roundTrip at short ⊢
      rw [sample] at below ⊢
      have close := timestampDiff_close (show e.sent + offset x + (p.sent - e.arrived) ≤
        w.tick + offset x by omega) (by omega) below
      dsimp only at close
      omega

open Connection (zeroTag noEstimate lawful_zeroTag)

/-- A client whose clock wraps in six milliseconds, and a server. -/
def wrapping : Party → Nat
  | .client => 65530
  | .server => 17

/-- What the end `x` has sent last. -/
def last (x : Party) (w : Link Addr R) : Packet :=
  (w.sides x).sent.headD ⟨[], 0, none⟩

/-- What `x` has sent last arrives at the other end. -/
def arrives (x : Party) (w : Link Nat Unit) : Arrival Nat :=
  ⟨(w.last x).datagram, 7, w.tick + wrapping x.peer⟩

/-- The client sends, and 20 ms pass. -/
def asking : Link Nat Unit :=
  let w : Link Nat Unit := start noEstimate 9 0
  let w := w.set .client ((w.sides .client).send zeroTag (wrapping .client) w.tick [])
  { w with tick := w.tick + 20 }

/-- The datagram arrives, and 30 ms pass. -/
def asked : Link Nat Unit :=
  let w := asking.set .server ((asking.sides .server).recv zeroTag noEstimate asking.tick
    (asking.last .client) (asking.arrives .client))
  { w with tick := w.tick + 30 }

/-- The server sends, and 25 ms pass. -/
def answered : Link Nat Unit :=
  let w := asked.set .server ((asked.sides .server).send zeroTag (wrapping .server) asked.tick [])
  { w with tick := w.tick + 25 }

theorem reachable_answered :
    (system Nat zeroTag noEstimate wrapping).Reachable answered := by
  have start : (system Nat zeroTag noEstimate wrapping).Reachable (start noEstimate 9 0) :=
    .of_init ⟨9, 0, rfl⟩
  have asking : (system Nat zeroTag noEstimate wrapping).Reachable asking :=
    (start.tail (.send .client [])).tail (.wait 20)
  have asked : (system Nat zeroTag noEstimate wrapping).Reachable asked :=
    (asking.tail (.recv .server _ _ (by decide +kernel) (by decide +kernel) rfl)).tail (.wait 30)
  exact (asked.tail (.send .server [])).tail (.wait 25)

/-- 75 ms after the first datagram the client is told of 45, which is the time without the
30 ms that the server held it. -/
theorem samples_true_wrapped :
    (answered.sides .client).conn.handed zeroTag (answered.arrives .server) = some 45 ∧
      ∃ e ∈ (answered.last .server).echo,
        (45 : Int) ≤ (answered.last .server).roundTrip e 75 + 1 ∧
          (answered.last .server).roundTrip e 75 ≤ 45 + 1 := by
  have handed : (answered.sides .client).conn.handed zeroTag (answered.arrives .server) =
      some 45 := by decide +kernel
  refine ⟨handed, ?_⟩
  obtain ⟨e, mem, -, close⟩ := (samples_true lawful_zeroTag reachable_answered
    (x := .client) (p := answered.last .server) (by decide +kernel)
    (a := answered.arrives .server) (by decide +kernel) rfl).2 45 handed (by decide)
  have echo : (answered.last .server).echo = some ⟨0, 20⟩ := by decide +kernel
  rw [echo] at mem
  cases mem
  exact ⟨⟨0, 20⟩, echo, close (by decide +kernel)⟩

end Link

end Posh.Remote
