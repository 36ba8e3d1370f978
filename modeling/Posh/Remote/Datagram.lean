import Posh.Remote.Fragments
import Posh.Remote.Replay

/-!
The encrypted UDP transport (`remote/datagram.rs`): timestamped packets, and the address the
server sends to.

The server adopts the source of the newest datagram. `Follows` says what it remembers of
the datagrams that have arrived; the wire's byte counts are left out, and the round-trip
estimator, which computes with `f64`, is a parameter.
-/

namespace Posh.Remote

open Posh.Lib

def TS_NONE : UInt16 := 0xffff

/-- 16-bit wallclock used in packet timestamps; 0xffff is reserved for "none". -/
def timestamp16 (now : Nat) : UInt16 :=
  let ts := UInt16.ofNat (now % 65536)
  if ts = TS_NONE then 0 else ts

def timestampDiff (tsnew tsold : UInt16) : UInt16 :=
  tsnew - tsold

/-- The smoothed round-trip time. -/
structure RttEstimator (R : Type) where
  new : R
  sample : UInt16 → R → R

/-- The buffer a datagram is received in; the rest of a longer one is lost. -/
def RECV_BUFFER : Nat := 2048

/-- A datagram at the socket. -/
structure Arrival (Addr : Type) where
  datagram : Bytes
  source : Addr
  at_ : Nat

namespace Arrival

variable {Addr : Type}

/-- What `recv_from` hands over. -/
def read (a : Arrival Addr) : Bytes :=
  a.datagram.take RECV_BUFFER

def number (a : Arrival Addr) : UInt64 :=
  Session.sequence a.read

end Arrival

/-- The cipher opens what it has sealed, and adds a tag. -/
structure Aead.Lawful (aead : Aead) : Prop where
  opens : ∀ nonce plaintext ciphertext, aead.encrypt nonce plaintext = some ciphertext →
    aead.decrypt nonce ciphertext = some plaintext
  tagged : ∀ nonce plaintext ciphertext, aead.encrypt nonce plaintext = some ciphertext →
    ciphertext.length = plaintext.length + TAG_LEN

structure Connection (Addr R : Type) where
  session : Session
  isServer : Bool
  remote : Option Addr := none
  /-- The peer's timestamp, and when it was received. -/
  savedTimestamp : Option (UInt16 × Nat) := none
  rtt : R
  /-- A `u64`; sequence numbers have 63 bits. -/
  expectedReceiverSeq : Nat := 0

namespace Connection

variable {Addr R : Type} (aead : Aead) (est : RttEstimator R)

def server : Connection Addr R where
  session := .new .toClient
  isServer := true
  rtt := est.new

def client (remote : Addr) : Connection Addr R where
  session := .new .toServer
  isServer := false
  remote := some remote
  rtt := est.new

/-- The peer's timestamp, advanced by how long it was held, unless that was a second. -/
def takeReply (now : Nat) (c : Connection Addr R) : UInt16 × Connection Addr R :=
  match c.savedTimestamp with
  | some (ts, at_) =>
      if now - at_ < 1000 then (ts + UInt16.ofNat (now - at_), { c with savedTimestamp := none })
      else (TS_NONE, c)
  | none => (TS_NONE, c)

/-- Seals one payload; the datagram goes to the remembered address, if there is one. -/
def send (now : Nat) (payload : Bytes) (c : Connection Addr R) :
    Except String (Option (Bytes × Addr)) × Connection Addr R :=
  match c.remote with
  | none => (.ok none, c)
  | some remote =>
      let (reply, c) := c.takeReply now
      let packet :=
        beBytes 2 (timestamp16 now).toNat ++ beBytes 2 reply.toNat ++ payload
      match c.session.seal_ aead packet with
      | (.error e, session) => (.error e, { c with session })
      | (.ok datagram, session) => (.ok (some (datagram, remote)), { c with session })

/-- The newest datagram updates the timestamp echo, the round-trip time, and on the server
the remote address. -/
def adopt (seq : UInt64) (plaintext : Bytes) (a : Arrival Addr) (c : Connection Addr R) :
    Connection Addr R :=
  let ts := UInt16.ofNat (ofBeBytes (plaintext.take 2))
  let reply := UInt16.ofNat (ofBeBytes ((plaintext.drop 2).take 2))
  { c with
    expectedReceiverSeq := seq.toNat + 1
    savedTimestamp := if ts ≠ TS_NONE then some (ts, a.at_) else c.savedTimestamp
    rtt := if reply ≠ TS_NONE then est.sample (timestampDiff (timestamp16 a.at_) reply) c.rtt
      else c.rtt
    remote := if c.isServer then some a.source else c.remote }

/-- Receives one datagram; `none` where it is dropped. -/
def recv (a : Arrival Addr) (c : Connection Addr R) : Option Bytes × Connection Addr R :=
  match c.session.open_ aead a.read with
  | (.error _, session) => (none, { c with session })
  | (.ok (seq, plaintext), session) =>
      let c := { c with session }
      if plaintext.length < 4 then (none, c)
      else
        (some (plaintext.drop 4),
          if c.expectedReceiverSeq ≤ seq.toNat then c.adopt est seq plaintext a else c)

/-- What one end does with its connection. -/
inductive Event (Addr : Type) where
  | recv (a : Arrival Addr)
  | send (now : Nat) (payload : Bytes)

/-- A connection, the numbers its session has opened, and the number and source of each
datagram it has returned a payload for. The connection never looks at the two lists. -/
structure Heard (Addr R : Type) where
  conn : Connection Addr R
  opened : List UInt64 := []
  delivered : List (UInt64 × Addr) := []

namespace Heard

def step (h : Heard Addr R) : Event Addr → Heard Addr R
  | .send now payload => { h with conn := (h.conn.send aead now payload).2 }
  | .recv a =>
      { conn := (h.conn.recv aead est a).2
        opened :=
          if (h.conn.session.open_ aead a.read).1.isOk then a.number :: h.opened else h.opened
        delivered :=
          if (h.conn.recv aead est a).1.isSome then (a.number, a.source) :: h.delivered
          else h.delivered }

/-- A server after what has arrived at it and what it has sent. -/
def run (events : List (Event Addr)) : Heard Addr R :=
  events.foldl (step aead est) { conn := server est }

end Heard

/-! ### One datagram -/

variable {aead est} {c : Connection Addr R} {a : Arrival Addr}

theorem recv_of_error {e : String} {session : Session}
    (refused : c.session.open_ aead a.read = (.error e, session)) :
    c.recv aead est a = (none, { c with session }) := by
  rw [recv, refused]

theorem recv_of_ok {seq : UInt64} {plaintext : Bytes} {session : Session}
    (opens : c.session.open_ aead a.read = (.ok (seq, plaintext), session)) :
    c.recv aead est a =
      if plaintext.length < 4 then (none, { c with session })
      else
        (some (plaintext.drop 4),
          if c.expectedReceiverSeq ≤ seq.toNat then
            { c with session }.adopt est seq plaintext a
          else { c with session }) := by
  rw [recv, opens]

/-- A datagram that is not the newest moves neither the address, nor the timestamp echo, nor
the round-trip time. -/
theorem recv_late (late : a.number.toNat < c.expectedReceiverSeq) :
    (c.recv aead est a).2.remote = c.remote ∧
      (c.recv aead est a).2.savedTimestamp = c.savedTimestamp ∧
      (c.recv aead est a).2.rtt = c.rtt := by
  rcases Session.open_cases aead a.read c.session with ⟨_, eq, -⟩ | ⟨_, eq⟩ | ⟨plaintext, eq, -⟩
  · rw [recv_of_error eq]
    exact ⟨rfl, rfl, rfl⟩
  · rw [recv_of_error eq]
    exact ⟨rfl, rfl, rfl⟩
  · rw [recv_of_ok eq]
    split
    · exact ⟨rfl, rfl, rfl⟩
    · rw [if_neg (show ¬ c.expectedReceiverSeq ≤ (Session.sequence a.read).toNat from Nat.not_le.mpr late)]
      exact ⟨rfl, rfl, rfl⟩

theorem send_keeps (now : Nat) (payload : Bytes) (c : Connection Addr R) :
    (c.send aead now payload).2.session.sendDir = c.session.sendDir ∧
      (c.send aead now payload).2.session.replay = c.session.replay ∧
      (c.send aead now payload).2.isServer = c.isServer ∧
      (c.send aead now payload).2.remote = c.remote ∧
      (c.send aead now payload).2.expectedReceiverSeq = c.expectedReceiverSeq := by
  have same : (c.takeReply now).2 = { c with
      savedTimestamp := (c.takeReply now).2.savedTimestamp } := by
    unfold takeReply
    split
    · split
      · rfl
      · rfl
    · rfl
  unfold send
  cases known : c.remote with
  | none => exact ⟨rfl, rfl, rfl, known, rfl⟩
  | some remote =>
    dsimp only
    rw [same]
    dsimp only
    obtain ⟨dir, replay⟩ := Session.seal_keeps aead
      (beBytes 2 (timestamp16 now).toNat ++ beBytes 2 (c.takeReply now).1.toNat ++ payload) c.session
    split
    · rename_i sealing
      rw [sealing] at dir replay
      exact ⟨dir, replay, rfl, known, rfl⟩
    · rename_i sealing
      rw [sealing] at dir replay
      exact ⟨dir, replay, rfl, known, rfl⟩

/-! ### Runs -/

/-- The window remembers the numbers that were opened, each was delivered at most once, and
the address is the source of the newest delivered. -/
structure Follows (h : Heard Addr R) : Prop where
  server : h.conn.isServer = true
  dir : h.conn.session.sendDir = .toClient
  remembers : h.conn.session.replay.Remembers h.opened
  distinct : (h.delivered.map Prod.fst).Nodup
  opened : ∀ entry ∈ h.delivered, entry.1 ∈ h.opened
  below : ∀ entry ∈ h.delivered, entry.1.toNat < h.conn.expectedReceiverSeq
  newest : (h.delivered = [] ∧ h.conn.expectedReceiverSeq = 0 ∧ h.conn.remote = none) ∨
    ∃ entry ∈ h.delivered, entry.1.toNat + 1 = h.conn.expectedReceiverSeq ∧
      h.conn.remote = some entry.2

namespace Follows

variable {h : Heard Addr R}

theorem send (follows : Follows h) (now : Nat) (payload : Bytes) :
    Follows (h.step aead est (.send now payload)) := by
  obtain ⟨dir, replay, isServer, remote, expected⟩ := @send_keeps _ _ aead now payload h.conn
  unfold Heard.step
  exact
    { server := isServer.trans follows.server
      dir := dir.trans follows.dir
      remembers := by
        dsimp only
        rw [replay]
        exact follows.remembers
      distinct := follows.distinct
      opened := follows.opened
      below := by
        dsimp only
        rw [expected]
        exact follows.below
      newest := by
        dsimp only
        rw [expected, remote]
        exact follows.newest }

/-- A datagram is opened that nothing is delivered of. -/
theorem open_ (follows : Follows h) {seq : UInt64} {replay : ReplayWindow}
    (remembers : replay.Remembers (seq :: h.opened)) :
    Follows { h with
      conn := { h.conn with session := { h.conn.session with replay } }
      opened := seq :: h.opened } where
  server := follows.server
  dir := follows.dir
  remembers := remembers
  distinct := follows.distinct
  opened entry mem := List.mem_cons_of_mem _ (follows.opened entry mem)
  below := follows.below
  newest := follows.newest

theorem distinct_cons (follows : Follows h) {seq : UInt64} {source : Addr} (new : seq ∉ h.opened) :
    (((seq, source) :: h.delivered).map Prod.fst).Nodup := by
  refine List.nodup_cons.mpr ⟨fun mem => new ?_, follows.distinct⟩
  obtain ⟨entry, mem, same⟩ := List.mem_map.mp mem
  rw [← show entry.1 = seq from same]
  exact follows.opened entry mem

theorem opened_cons (follows : Follows h) {seq : UInt64} {source : Addr} :
    ∀ entry ∈ (seq, source) :: h.delivered, entry.1 ∈ seq :: h.opened := by
  intro entry mem
  rcases List.mem_cons.mp mem with rfl | mem
  · exact List.mem_cons_self
  · exact List.mem_cons_of_mem _ (follows.opened entry mem)

/-- The newest datagram is delivered. -/
theorem adopt (follows : Follows h) {plaintext : Bytes} (new : a.number ∉ h.opened)
    (newest : h.conn.expectedReceiverSeq ≤ a.number.toNat) {replay : ReplayWindow}
    (remembers : replay.Remembers (a.number :: h.opened)) :
    Follows
      { conn := { h.conn with session := { h.conn.session with replay } }.adopt est a.number
          plaintext a
        opened := a.number :: h.opened
        delivered := (a.number, a.source) :: h.delivered } where
  server := follows.server
  dir := follows.dir
  remembers := remembers
  distinct := follows.distinct_cons new
  opened := follows.opened_cons
  below := by
    intro entry mem
    change entry.1.toNat < a.number.toNat + 1
    rcases List.mem_cons.mp mem with rfl | mem
    · exact Nat.lt_succ_self _
    · have := follows.below entry mem
      omega
  newest := by
    refine .inr ⟨_, List.mem_cons_self, rfl, ?_⟩
    change (if h.conn.isServer then some a.source else h.conn.remote) = _
    rw [follows.server]
    rfl

/-- A late datagram is delivered. -/
theorem deliver (follows : Follows h) (new : a.number ∉ h.opened)
    (late : a.number.toNat < h.conn.expectedReceiverSeq) {replay : ReplayWindow}
    (remembers : replay.Remembers (a.number :: h.opened)) :
    Follows
      { conn := { h.conn with session := { h.conn.session with replay } }
        opened := a.number :: h.opened
        delivered := (a.number, a.source) :: h.delivered } where
  server := follows.server
  dir := follows.dir
  remembers := remembers
  distinct := follows.distinct_cons new
  opened := follows.opened_cons
  below := by
    intro entry mem
    rcases List.mem_cons.mp mem with rfl | mem
    · exact late
    · exact follows.below entry mem
  newest := by
    rcases follows.newest with ⟨-, zero, -⟩ | ⟨entry, mem, last, remote⟩
    · omega
    · exact .inr ⟨entry, List.mem_cons_of_mem _ mem, last, remote⟩

theorem recv (follows : Follows h) (a : Arrival Addr) : Follows (h.step aead est (.recv a)) := by
  obtain ⟨admits, accepts, rejects⟩ := ReplayWindow.check_spec follows.remembers a.number
  unfold Heard.step
  dsimp only
  rcases Session.open_cases aead a.read h.conn.session with
    ⟨e, eq, no⟩ | ⟨e, eq⟩ | ⟨plaintext, eq, yes, -⟩
  · have still : (h.conn.session.replay.check (Session.sequence a.read)).2 = h.conn.session.replay :=
      rejects no
    rw [still] at eq
    rw [recv_of_error eq, eq]
    exact follows
  · rw [recv_of_error eq, eq]
    exact follows
  · rw [recv_of_ok eq, eq]
    have new : a.number ∉ h.opened := (admits.mp yes).1
    have remembers := accepts yes
    change Follows (Heard.mk _ (a.number :: h.opened) _)
    split
    · exact follows.open_ remembers
    · split
      · rename_i newest
        exact follows.adopt new newest remembers
      · rename_i late
        exact follows.deliver new (Nat.not_le.mp late) remembers

end Follows

theorem follows_start (est : RttEstimator R) : Follows { conn := (server est : Connection Addr R) } where
  server := rfl
  dir := rfl
  remembers := ReplayWindow.remembers_new
  distinct := .nil
  opened _ mem := absurd mem List.not_mem_nil
  below _ mem := absurd mem List.not_mem_nil
  newest := .inl ⟨rfl, rfl, rfl⟩

theorem follows_run (aead : Aead) (est : RttEstimator R) (events : List (Event Addr)) :
    Follows (Heard.run aead est events) := by
  have run (events : List (Event Addr)) {h : Heard Addr R} (follows : Follows h) :
      Follows (events.foldl (Heard.step aead est) h) := by
    induction events generalizing h with
    | nil => exact follows
    | cons event events ih =>
      cases event with
      | recv a => exact ih (follows.recv a)
      | send now payload => exact ih (follows.send now payload)
  exact run events (follows_start est)

/-! ### What the peer sends -/

variable {datagram payload : Bytes} {remote : Addr} {now : Nat}

theorem takeReply_session (now : Nat) (c : Connection Addr R) :
    (c.takeReply now).2.session = c.session := by
  unfold takeReply
  split
  · split
    · rfl
    · rfl
  · rfl

/-- A packet is sealed with the two timestamps before its payload. -/
theorem send_seals (sent : (c.send aead now payload).1 = .ok (some (datagram, remote))) :
    c.remote = some remote ∧ (c.session.seal_ aead (beBytes 2 (timestamp16 now).toNat ++
      beBytes 2 (c.takeReply now).1.toNat ++ payload)).1 = .ok datagram := by
  unfold send at sent
  split at sent
  · cases sent
  · rename_i known
    dsimp only at sent
    rw [takeReply_session] at sent
    split at sent
    · cases sent
    · rename_i sealing
      rw [sealing]
      cases sent
      exact ⟨known, rfl⟩

/-- A payload the window still admits is returned. -/
theorem recv_delivers (foreign : c.session.sendDir = .toClient) {plaintext : Bytes}
    (long : SEAL_OVERHEAD ≤ a.read.length)
    (peer : Direction.ofValue (Session.nonceValue a.read) = .toServer)
    (genuine : aead.decrypt (nonceBytes (Session.nonceValue a.read))
      (a.read.drop NONCE_PREFIX_LEN) = some plaintext) (stamped : 4 ≤ plaintext.length)
    (admitted : (c.session.replay.check a.number).1 = .ok ()) :
    (c.recv aead est a).1 = some (plaintext.drop 4) := by
  have other : Direction.ofValue (Session.nonceValue a.read) ≠ c.session.sendDir := by
    rw [peer, foreign]
    decide
  rw [recv_of_ok (Session.open_genuine long other genuine admitted),
    if_neg (Nat.not_lt.mpr stamped)]

/-- The server follows the newest datagram. Whatever has arrived, in whatever order, and
whatever was sent, its address is the source of the delivered datagram with the greatest
number; a datagram whose number is not above all delivered ones moves nothing; and a
fragment the peer has sent is delivered if its number is new and in the window. -/
theorem newest_followed (aead : Aead) (est : RttEstimator R) (events : List (Event Addr)) :
    let h := Heard.run aead est events
    (h.delivered = [] → h.conn.remote = none) ∧
    (h.delivered.map Prod.fst).Nodup ∧
    (∀ entry ∈ h.delivered, (∀ other ∈ h.delivered, other.1 ≤ entry.1) →
      h.conn.remote = some entry.2) ∧
    (∀ a : Arrival Addr, (∃ entry ∈ h.delivered, a.number ≤ entry.1) →
      (h.conn.recv aead est a).2.remote = h.conn.remote ∧
        (h.conn.recv aead est a).2.savedTimestamp = h.conn.savedTimestamp ∧
        (h.conn.recv aead est a).2.rtt = h.conn.rtt) ∧
    (aead.Lawful → ∀ (a : Arrival Addr) (peer : Connection Addr R) (f : Fragmenter)
        (message : Bytes) (frag : Fragment) (now : Nat) (server : Addr),
      peer.session.sendDir = .toServer →
      frag ∈ (f.makeFragments message FRAGMENT_CONTENTS_MAX).1 →
      (peer.send aead now frag.toBytes).1 = .ok (some (a.datagram, server)) →
      ReplayWindow.Admits h.opened a.number →
      (h.conn.recv aead est a).1 = some frag.toBytes) := by
  intro h
  have follows : Follows h := follows_run aead est events
  refine ⟨?none, follows.distinct, ?newest, ?late, ?delivers⟩
  case none =>
    intro nothing
    rcases follows.newest with ⟨-, -, remote⟩ | ⟨entry, mem, -⟩
    · exact remote
    · rw [nothing] at mem
      cases mem
  case newest =>
    intro entry mem greatest
    rcases follows.newest with ⟨nothing, -⟩ | ⟨last, mem_last, number, remote⟩
    · rw [nothing] at mem
      cases mem
    · have below := follows.below entry mem
      have above : last.1.toNat ≤ entry.1.toNat := greatest last mem_last
      have same : last.1 = entry.1 := UInt64.toNat_inj.mp (by omega)
      have one := List.inj_on_of_nodup_map follows.distinct mem_last mem same
      rw [remote, one]
  case late =>
    rintro a ⟨entry, mem, le⟩
    exact recv_late (Nat.lt_of_le_of_lt le (follows.below entry mem))
  case delivers =>
    intro lawful a peer f message frag now server dir mem sent admits
    obtain ⟨-, sealing⟩ := send_seals sent
    set stamps := beBytes 2 (timestamp16 now).toNat ++ beBytes 2 (peer.takeReply now).1.toNat
    have four : stamps.length = 4 := by rw [List.length_append, length_beBytes, length_beBytes]
    obtain ⟨value, direction, ciphertext, datagram, encrypts⟩ := Session.seal_spec sealing
    have small : frag.contents.length ≤ FRAGMENT_CONTENTS_MAX :=
      length_contents_le _ _ _ _ _ frag mem
    have tagged := lawful.tagged _ _ _ encrypts
    have length : a.datagram.length = frag.toBytes.length + 4 + SEAL_OVERHEAD := by
      rw [datagram, List.length_append, length_beBytes, tagged, List.length_append, four]
      simp only [SEAL_OVERHEAD]
      omega
    have whole : a.read = a.datagram := by
      refine List.take_of_length_le ?_
      rw [length, Fragment.toBytes]
      simp only [List.length_append, length_beBytes]
      simp only [FRAGMENT_CONTENTS_MAX, FRAG_HEADER_LEN] at small
      simp only [SEAL_OVERHEAD, NONCE_PREFIX_LEN, TAG_LEN, RECV_BUFFER]
      omega
    have nonce : Session.nonceValue a.read = value := by
      rw [whole, datagram, Session.nonceValue_beBytes]
    have decrypts : aead.decrypt (nonceBytes (Session.nonceValue a.read))
        (a.read.drop NONCE_PREFIX_LEN) = some (stamps ++ frag.toBytes) := by
      rw [nonce, whole, datagram, List.drop_left' (length_beBytes _ _)]
      exact lawful.opens _ _ _ encrypts
    have admitted : (h.conn.session.replay.check a.number).1 = .ok () :=
      (ReplayWindow.check_spec follows.remembers a.number).admits.mpr admits
    rw [recv_delivers follows.dir (by rw [whole, length]; omega)
      (by rw [nonce, direction, dir]) decrypts (by rw [List.length_append]; omega) admitted,
      List.drop_left' four]

/-- A cipher whose tag is all zeros. -/
def zeroTag : Aead where
  encrypt _ plaintext := some (plaintext ++ List.replicate TAG_LEN 0)
  decrypt _ ciphertext := some (ciphertext.take (ciphertext.length - TAG_LEN))

theorem lawful_zeroTag : zeroTag.Lawful where
  opens := by
    intro nonce plaintext ciphertext encrypts
    cases encrypts
    have length : (plaintext ++ List.replicate TAG_LEN 0).length - TAG_LEN = plaintext.length := by
      simp
    change some ((plaintext ++ List.replicate TAG_LEN 0).take _) = _
    rw [length, List.take_left]
  tagged := by
    intro nonce plaintext ciphertext encrypts
    cases encrypts
    simp

def noEstimate : RttEstimator Unit where
  new := ()
  sample _ r := r

/-- The only fragment of an empty message. -/
def emptyFragment : Fragment where
  id := 1
  num := 0
  isFinal := true
  contents := []

/-- A client's first datagram, and its second. -/
def sentTwice : List Bytes :=
  let c : Connection Nat Unit := client noEstimate 0
  let first := c.send zeroTag 5 emptyFragment.toBytes
  let second := first.2.send zeroTag 5 emptyFragment.toBytes
  [first.1, second.1].map fun out => ((out.toOption.bind id).map Prod.fst).getD []

/-- The second datagram comes first; the first is delivered and moves nothing. -/
theorem newest_followed_reordered :
    let late : Arrival Nat := ⟨sentTwice.headD [], 8, 6⟩
    let h := Heard.run zeroTag noEstimate [.recv ⟨sentTwice.getLastD [], 7, 5⟩]
    (h.conn.recv zeroTag noEstimate late).1 = some emptyFragment.toBytes ∧
      (h.conn.recv zeroTag noEstimate late).2.remote = h.conn.remote ∧
      h.conn.remote = some 7 := by
  intro late h
  have delivered : h.delivered = [(1, 7)] := by decide +kernel
  have opened : h.opened = [1] := by decide +kernel
  have number : late.number = 0 := by decide +kernel
  obtain ⟨-, -, newest, stays, delivers⟩ := newest_followed zeroTag noEstimate
    [.recv (⟨sentTwice.getLastD [], 7, 5⟩ : Arrival Nat)]
  have admits : ReplayWindow.Admits h.opened late.number := by
    rw [opened, number]
    refine ⟨by decide, .inr ⟨1, List.mem_singleton_self 1, ?_, by decide⟩⟩
    intro n mem
    rw [List.mem_singleton.mp mem]
    exact UInt64.le_refl 1
  refine ⟨?_, (stays late ⟨(1, 7), ?_, ?_⟩).1, newest (1, 7) ?_ ?_⟩
  · exact delivers lawful_zeroTag late (client noEstimate 0) {} [] emptyFragment 5 0 rfl
      (by decide +kernel) (by decide +kernel) admits
  · exact delivered ▸ List.mem_singleton_self _
  · rw [number]
    decide
  · exact delivered ▸ List.mem_singleton_self _
  · intro other mem
    rw [List.mem_singleton.mp (delivered ▸ mem : other ∈ [((1 : UInt64), 7)])]
    exact Nat.le_refl 1

end Connection

end Posh.Remote
