import Posh.Remote.Crypto
import Mathlib.Data.List.Nodup

/-!
What the replay window accepts, and what a session opens.

The window remembers sixty-four numbers; `check_spec` says that it decides as one that
remembers all of them, and the rest follows for runs of any length.
-/

namespace Posh.Remote

open Posh.Lib

namespace ReplayWindow

/-- Of a session that has accepted these numbers, and remembers them all: a new number no
more than 63 below the highest. -/
def Admits (accepted : List UInt64) (seq : UInt64) : Prop :=
  seq ∉ accepted ∧
    (accepted = [] ∨
      ∃ highest ∈ accepted, (∀ n ∈ accepted, n ≤ highest) ∧
        (highest.toNat : Int) - 64 < seq.toNat)

/-- The window knows as much of the accepted numbers as it has room for. -/
structure Remembers (accepted : List UInt64) (w : ReplayWindow) : Prop where
  started : w.initialized = true ↔ accepted ≠ []
  highest : accepted ≠ [] → w.highest ∈ accepted
  above : ∀ n ∈ accepted, n ≤ w.highest
  bits : accepted ≠ [] → Trails w.highest.toNat w.bitmap {n | ∃ seq ∈ accepted, seq.toNat = n}

variable {accepted : List UInt64} {w : ReplayWindow} {seq : UInt64}

theorem remembers_new : Remembers [] {} where
  started := by simp
  highest := nofun
  above := nofun
  bits := nofun

/-- What the window does with a number, against all that were accepted. -/
structure Decides (accepted : List UInt64) (seq : UInt64) (w : ReplayWindow)
    (out : Except String Unit × ReplayWindow) : Prop where
  admits : out.1 = .ok () ↔ Admits accepted seq
  accepts : out.1 = .ok () → Remembers (seq :: accepted) out.2
  rejects : out.1 ≠ .ok () → out.2 = w

theorem decides_first (seq : UInt64) (w : ReplayWindow) :
    Decides [] seq w (.ok (), { highest := seq, bitmap := 1#64, initialized := true }) where
  admits := by simp [Admits]
  accepts _ :=
    { started := by simp
      highest := fun _ => List.mem_cons_self
      above := by simp
      bits := fun _ => by
        have one : {n | ∃ s ∈ [seq], s.toNat = n} = {seq.toNat} := by
          ext n
          simp [eq_comm]
        rw [one]
        exact Trails.singleton _ }
  rejects no := absurd rfl no

/-- The numbers accepted, one more among them. -/
theorem values_cons (seq : UInt64) (accepted : List UInt64) :
    {n | ∃ s ∈ seq :: accepted, s.toNat = n} =
      insert seq.toNat {n | ∃ s ∈ accepted, s.toNat = n} := by
  ext n
  simp [eq_comm]

theorem values_le (h : Remembers accepted w) :
    ∀ n ∈ {n | ∃ s ∈ accepted, s.toNat = n}, n ≤ w.highest.toNat := by
  rintro n ⟨s, mem, rfl⟩
  exact UInt64.le_iff_toNat_le.mp (h.above s mem)

/-- The window moved up to a number above the highest. -/
theorem moved (h : Remembers accepted w) (some_ : accepted ≠ []) (above : w.highest < seq) :
    Trails seq.toNat
      (if seq - w.highest ≥ 64 then 0#64 else w.bitmap <<< (seq - w.highest).toNat)
      {n | ∃ s ∈ accepted, s.toNat = n} := by
  have above' := UInt64.lt_iff_toNat_lt.mp above
  have shift : (seq - w.highest).toNat = seq.toNat - w.highest.toNat :=
    UInt64.toNat_sub_of_le _ _ (UInt64.le_of_lt above)
  have top : seq.toNat = w.highest.toNat + (seq - w.highest).toNat := by omega
  by_cases far : seq - w.highest ≥ 64
  · rw [if_pos far, top]
    exact Trails.shift_out (values_le h) (UInt64.le_iff_toNat_le.mp far)
  · rw [if_neg far, top]
    exact (h.bits some_).shift (values_le h) _

/-- A number above the highest is new, and moves the window. -/
theorem decides_above (h : Remembers accepted w) (some_ : accepted ≠ []) (above : w.highest < seq) :
    Decides accepted seq w
      (.ok (), { w with
        bitmap := (if seq - w.highest ≥ 64 then 0#64 else w.bitmap <<< (seq - w.highest).toNat)
          ||| 1#64,
        highest := seq }) := by
  have above' := UInt64.lt_iff_toNat_lt.mp above
  have new : seq ∉ accepted := fun mem =>
    absurd (UInt64.le_iff_toNat_le.mp (h.above seq mem)) (by omega)
  constructor
  · simp only [true_iff]
    exact ⟨new, .inr ⟨w.highest, h.highest some_, h.above, by omega⟩⟩
  · intro _
    constructor
    · simpa using h.started.mpr some_
    · exact fun _ => List.mem_cons_self
    · intro n mem
      rcases List.mem_cons.mp mem with rfl | old
      · exact UInt64.le_refl _
      · exact UInt64.le_trans (h.above n old) (UInt64.le_of_lt above)
    · intro _
      have marked := (moved h some_ above).mark (Nat.add_zero seq.toNat)
      rw [BitVec.shiftLeft_zero] at marked
      rw [values_cons]
      exact marked
  · exact fun no => absurd rfl no

/-- A number at or below the highest is looked up in the bitmap. -/
theorem decides_below (h : Remembers accepted w) (some_ : accepted ≠ [])
    (below : seq ≤ w.highest) :
    Decides accepted seq w
      (if w.highest - seq ≥ 64 then (.error "sequence number too old", w)
      else if w.bitmap &&& (1#64 <<< (w.highest - seq).toNat) ≠ 0 then
        (.error "replayed sequence number", w)
      else (.ok (), { w with bitmap := w.bitmap ||| (1#64 <<< (w.highest - seq).toNat) })) := by
  have below' := UInt64.le_iff_toNat_le.mp below
  have diff : (w.highest - seq).toNat = w.highest.toNat - seq.toNat :=
    UInt64.toNat_sub_of_le _ _ below
  have here : seq.toNat + (w.highest - seq).toNat = w.highest.toNat := by omega
  have top (highest : UInt64) (mem : highest ∈ accepted) (most : ∀ n ∈ accepted, n ≤ highest) :
      highest = w.highest :=
    UInt64.le_antisymm (h.above highest mem) (most _ (h.highest some_))
  by_cases old : w.highest - seq ≥ 64
  · rw [if_pos old]
    have far : 64 ≤ (w.highest - seq).toNat := UInt64.le_iff_toNat_le.mp old
    constructor
    · constructor
      · exact nofun
      · rintro ⟨_, none | ⟨highest, mem, most, near⟩⟩
        · exact absurd none some_
        · rw [top highest mem most] at near
          omega
    · exact nofun
    · exact fun _ => rfl
  · rw [if_neg old]
    have inside : (w.highest - seq).toNat < 64 :=
      Nat.lt_of_not_le fun far => old (UInt64.le_iff_toNat_le.mpr far)
    have seen : w.bitmap &&& (1#64 <<< (w.highest - seq).toNat) ≠ 0 ↔ seq ∈ accepted := by
      rw [Trails.mask_ne_zero inside, (h.bits some_).mem_iff here inside]
      simp only [Set.mem_ofPred_eq]
      constructor
      · rintro ⟨s, mem, eq⟩
        exact UInt64.toNat_inj.mp eq ▸ mem
      · exact fun mem => ⟨seq, mem, rfl⟩
    by_cases known : seq ∈ accepted
    · rw [if_pos (seen.mpr known)]
      exact ⟨⟨nofun, fun admits => absurd known admits.1⟩, nofun, fun _ => rfl⟩
    · rw [if_neg fun set => known (seen.mp set)]
      constructor
      · simp only [true_iff]
        exact ⟨known, .inr ⟨w.highest, h.highest some_, h.above, by omega⟩⟩
      · intro _
        constructor
        · simpa using h.started.mpr some_
        · exact fun _ => List.mem_cons_of_mem _ (h.highest some_)
        · intro n mem
          rcases List.mem_cons.mp mem with rfl | mem
          · exact below
          · exact h.above n mem
        · intro _
          rw [values_cons]
          exact (h.bits some_).mark here
      · exact fun no => absurd rfl no

theorem check_spec (h : Remembers accepted w) (seq : UInt64) :
    Decides accepted seq w (w.check seq) := by
  unfold check
  by_cases none : accepted = []
  · subst none
    have fresh : w.initialized = false := by
      simpa using mt h.started.mp (by simp)
    simpa [fresh] using decides_first seq w
  · have started := h.started.mpr none
    simp only [started, Bool.not_true, Bool.false_eq_true, if_false]
    by_cases above : seq > w.highest
    · rw [if_pos above]
      have decides := decides_above h none above
      rwa [started] at decides
    · rw [if_neg above]
      have decides := decides_below h none (UInt64.not_lt.mp above)
      rwa [started] at decides

/-- The accepted numbers, newest first, and the window after a number is offered. -/
def offer (state : List UInt64 × ReplayWindow) (seq : UInt64) : List UInt64 × ReplayWindow :=
  match state.2.check seq with
  | (.ok (), w) => (seq :: state.1, w)
  | (.error _, w) => (state.1, w)

/-- A fresh window after a sequence of numbers. -/
def offered (seqs : List UInt64) : List UInt64 × ReplayWindow :=
  seqs.foldl offer ([], {})

theorem offer_remembers {state : List UInt64 × ReplayWindow} (h : Remembers state.1 state.2)
    (seq : UInt64) : Remembers (offer state seq).1 (offer state seq).2 := by
  obtain ⟨-, accepts, rejects⟩ := check_spec h seq
  unfold offer
  generalize state.2.check seq = out at accepts rejects
  rcases out with ⟨_ | _, w⟩
  · have same : w = state.2 := rejects nofun
    exact same ▸ h
  · exact accepts rfl

theorem offered_remembers (seqs : List UInt64) : Remembers (offered seqs).1 (offered seqs).2 := by
  have run (seqs : List UInt64) {state : List UInt64 × ReplayWindow}
      (h : Remembers state.1 state.2) :
      Remembers (seqs.foldl offer state).1 (seqs.foldl offer state).2 := by
    induction seqs generalizing state with
    | nil => exact h
    | cons seq seqs ih => exact ih (offer_remembers h seq)
  exact run seqs remembers_new

end ReplayWindow

namespace Session

variable {aead : Aead}

/-! ### Opening -/

/-- A session before any datagram. -/
def new (sendDir : Direction) : Session :=
  { sendDir }

/-- A datagram that is rejected before the window is asked. -/
def Refuses (aead : Aead) (s : Session) (datagram : Bytes) : Prop :=
  datagram.length < SEAL_OVERHEAD ∨
    Direction.ofValue (nonceValue datagram) = s.sendDir ∨
    aead.decrypt (nonceBytes (nonceValue datagram)) (datagram.drop NONCE_PREFIX_LEN) = none

theorem open_refused {s : Session} {datagram : Bytes} (refuses : s.Refuses aead datagram) :
    ∃ e, s.open_ aead datagram = (.error e, s) := by
  unfold open_
  by_cases short : datagram.length < SEAL_OVERHEAD
  · exact ⟨_, if_pos short⟩
  · rw [if_neg short]
    by_cases own : Direction.ofValue (nonceValue datagram) = s.sendDir
    · exact ⟨_, if_pos own⟩
    · dsimp only
      rw [if_neg own]
      have forged := (refuses.resolve_left short).resolve_left own
      rw [forged]
      exact ⟨_, rfl⟩

/-- A datagram's sequence number. -/
def sequence (datagram : Bytes) : UInt64 :=
  nonceValue datagram &&& SEQUENCE_MASK

/-- An opened datagram is one of the other direction that authenticates, with a number the
window takes; a datagram that is not opened leaves the session as it is. -/
theorem open_cases (aead : Aead) (datagram : Bytes) (s : Session) :
    (∃ e, s.open_ aead datagram = (.error e, { s with
        replay := (s.replay.check (sequence datagram)).2 }) ∧
      (s.replay.check (sequence datagram)).1 ≠ .ok ()) ∨
    (∃ e, s.open_ aead datagram = (.error e, s)) ∨
    ∃ plaintext, s.open_ aead datagram =
        (.ok (sequence datagram, plaintext), { s with
          replay := (s.replay.check (sequence datagram)).2 }) ∧
      (s.replay.check (sequence datagram)).1 = .ok () ∧
      Direction.ofValue (nonceValue datagram) ≠ s.sendDir ∧
      aead.decrypt (nonceBytes (nonceValue datagram)) (datagram.drop NONCE_PREFIX_LEN) =
        some plaintext := by
  by_cases refuses : s.Refuses aead datagram
  · exact .inr (.inl (open_refused refuses))
  · simp only [Refuses, not_or] at refuses
    obtain ⟨long, foreign, genuine⟩ := refuses
    obtain ⟨plaintext, decrypts⟩ := Option.ne_none_iff_exists'.mp genuine
    unfold open_
    rw [if_neg long]
    dsimp only
    rw [if_neg foreign, decrypts, ← sequence]
    cases asked : s.replay.check (sequence datagram) with
    | mk answer replay =>
      cases answer with
      | error e => exact .inl ⟨e, rfl, nofun⟩
      | ok done => exact .inr (.inr ⟨plaintext, rfl, rfl, foreign, rfl⟩)

/-- A datagram of the other direction that authenticates is opened if the window takes its
number. -/
theorem open_genuine {s : Session} {datagram plaintext : Bytes}
    (long : SEAL_OVERHEAD ≤ datagram.length)
    (foreign : Direction.ofValue (nonceValue datagram) ≠ s.sendDir)
    (genuine : aead.decrypt (nonceBytes (nonceValue datagram))
      (datagram.drop NONCE_PREFIX_LEN) = some plaintext)
    (admitted : (s.replay.check (sequence datagram)).1 = .ok ()) :
    s.open_ aead datagram = (.ok (sequence datagram, plaintext), { s with
      replay := (s.replay.check (sequence datagram)).2 }) := by
  unfold open_
  rw [if_neg (Nat.not_lt.mpr long)]
  dsimp only
  rw [if_neg foreign, genuine, ← sequence]
  cases asked : s.replay.check (sequence datagram) with
  | mk answer replay =>
    rw [asked] at admitted
    cases admitted
    rfl

/-! ### Runs -/

/-- What one end does with its session. -/
inductive Use where
  | seal_ (plaintext : Bytes)
  | open_ (datagram : Bytes)
deriving DecidableEq, Repr

def perform (aead : Aead) (s : Session) : Use → Session
  | .seal_ plaintext => (s.seal_ aead plaintext).2
  | .open_ datagram => (s.open_ aead datagram).2

/-- The datagrams sealed in a run. -/
def sealed (aead : Aead) : Session → List Use → List Bytes
  | _, [] => []
  | s, .seal_ plaintext :: uses =>
      match s.seal_ aead plaintext with
      | (.ok datagram, s) => datagram :: sealed aead s uses
      | (.error _, s) => sealed aead s uses
  | s, .open_ datagram :: uses => sealed aead (s.open_ aead datagram).2 uses

/-- The datagrams opened in a run. -/
def opened (aead : Aead) : Session → List Use → List Bytes
  | _, [] => []
  | s, .seal_ plaintext :: uses => opened aead (s.seal_ aead plaintext).2 uses
  | s, .open_ datagram :: uses =>
      match s.open_ aead datagram with
      | (.ok _, s) => datagram :: opened aead s uses
      | (.error _, s) => opened aead s uses

theorem seal_keeps (aead : Aead) (plaintext : Bytes) (s : Session) :
    (s.seal_ aead plaintext).2.sendDir = s.sendDir ∧
      (s.seal_ aead plaintext).2.replay = s.replay := by
  unfold seal_
  dsimp only
  split
  · exact ⟨rfl, rfl⟩
  · exact ⟨rfl, rfl⟩

theorem open_sendDir (aead : Aead) (datagram : Bytes) (s : Session) :
    (s.open_ aead datagram).2.sendDir = s.sendDir := by
  rcases open_cases aead datagram s with ⟨_, eq, -⟩ | ⟨_, eq⟩ | ⟨_, eq, -⟩ <;> rw [eq]

/-- The window after a run still knows what it accepted, and no number is opened twice. -/
theorem opened_fresh {accepted : List UInt64} {s : Session} {uses : List Use}
    (remembers : s.replay.Remembers accepted) :
    ((opened aead s uses).map sequence).Nodup ∧
      ∀ n ∈ (opened aead s uses).map sequence, n ∉ accepted := by
  induction uses generalizing accepted s with
  | nil => simp [opened]
  | cons use uses ih =>
    cases use with
    | seal_ plaintext =>
      have later : (s.seal_ aead plaintext).2.replay.Remembers accepted := by
        rwa [(seal_keeps aead plaintext s).2]
      exact ih later
    | open_ datagram =>
      obtain ⟨admits, accepts, rejects⟩ := ReplayWindow.check_spec remembers (sequence datagram)
      rcases open_cases aead datagram s with
        ⟨e, eq, no⟩ | ⟨e, eq⟩ | ⟨plaintext, eq, yes, -⟩
      · simp only [opened, eq]
        rw [rejects no]
        exact ih remembers
      · simp only [opened, eq]
        exact ih remembers
      · obtain ⟨distinct, new⟩ := ih (s := { s with
          replay := (s.replay.check (sequence datagram)).2 }) (accepts yes)
        simp only [opened, eq, List.map_cons, List.nodup_cons, List.mem_cons, forall_eq_or_imp]
        refine ⟨⟨fun again => new _ again List.mem_cons_self, distinct⟩, (admits.mp yes).1, ?_⟩
        exact fun n mem old => new n mem (List.mem_cons_of_mem _ old)

/-- An opened datagram is of the other direction, and decrypts. -/
theorem opened_foreign {s : Session} {uses : List Use} {datagram : Bytes}
    (mem : datagram ∈ opened aead s uses) :
    Direction.ofValue (nonceValue datagram) ≠ s.sendDir ∧
      ∃ plaintext, aead.decrypt (nonceBytes (nonceValue datagram))
        (datagram.drop NONCE_PREFIX_LEN) = some plaintext := by
  induction uses generalizing s with
  | nil => cases mem
  | cons use uses ih =>
    cases use with
    | seal_ plaintext =>
      have later := ih mem
      rwa [(seal_keeps aead plaintext s).1] at later
    | open_ other =>
      have dir := open_sendDir aead other s
      rcases open_cases aead other s with
        ⟨e, eq, -⟩ | ⟨e, eq⟩ | ⟨plaintext, eq, -, foreign, genuine⟩
      · rw [eq] at dir
        simp only [opened, eq] at mem
        simpa only [dir] using ih mem
      · simp only [opened, eq] at mem
        exact ih mem
      · rw [eq] at dir
        simp only [opened, eq] at mem
        rcases List.mem_cons.mp mem with rfl | mem
        · exact ⟨foreign, plaintext, genuine⟩
        · simpa only [dir] using ih mem

/-! ### Sealing -/

/-- A nonce value carries the direction it was made with. -/
theorem ofValue_bit (dir : Direction) (n : UInt64) :
    Direction.ofValue (dir.bit ||| (n &&& SEQUENCE_MASK)) = dir := by
  have masked : n &&& SEQUENCE_MASK &&& DIRECTION_MASK = 0 := by
    rw [SEQUENCE_MASK, UInt64.and_assoc, UInt64.not_and_self, UInt64.and_zero]
  cases dir with
  | toServer => simp [Direction.ofValue, Direction.bit, masked]
  | toClient =>
    have kept : (DIRECTION_MASK ||| n &&& SEQUENCE_MASK) &&& DIRECTION_MASK = DIRECTION_MASK := by
      have distrib := congrArg UInt64.ofBitVec (BitVec.and_or_distrib_right
        (x := DIRECTION_MASK.toBitVec) (y := (n &&& SEQUENCE_MASK).toBitVec)
        (z := DIRECTION_MASK.toBitVec))
      have joined : (DIRECTION_MASK ||| n &&& SEQUENCE_MASK) &&& DIRECTION_MASK =
          DIRECTION_MASK &&& DIRECTION_MASK ||| n &&& SEQUENCE_MASK &&& DIRECTION_MASK := distrib
      rw [joined, masked, UInt64.and_self, UInt64.or_zero]
    rw [Direction.ofValue, Direction.bit, kept]
    exact if_pos (by decide)

theorem nonceValue_beBytes (val : UInt64) (rest : Bytes) :
    nonceValue (beBytes NONCE_PREFIX_LEN val.toNat ++ rest) = val := by
  have fits : val.toNat < 256 ^ NONCE_PREFIX_LEN := val.toNat_lt
  simp [nonceValue, ofBeBytes_beBytes_of_lt fits]

/-- A sealed datagram: its nonce value, and what the cipher made under it. -/
theorem seal_spec {s : Session} {plaintext datagram : Bytes}
    (sealing : (s.seal_ aead plaintext).1 = .ok datagram) :
    ∃ val, Direction.ofValue val = s.sendDir ∧ ∃ ciphertext,
      datagram = beBytes NONCE_PREFIX_LEN val.toNat ++ ciphertext ∧
        aead.encrypt (nonceBytes val) plaintext = some ciphertext := by
  unfold seal_ at sealing
  dsimp only at sealing
  split at sealing
  · rename_i ciphertext encrypts
    cases sealing
    exact ⟨_, ofValue_bit _ _, ciphertext, rfl, encrypts⟩
  · cases sealing

/-- A sealed datagram carries the direction of its session. -/
theorem direction_sealed {s : Session} {uses : List Use} {datagram : Bytes}
    (mem : datagram ∈ sealed aead s uses) :
    Direction.ofValue (nonceValue datagram) = s.sendDir := by
  induction uses generalizing s with
  | nil => cases mem
  | cons use uses ih =>
    cases use with
    | open_ other =>
      have later := ih mem
      rwa [open_sendDir] at later
    | seal_ plaintext =>
      have dir := (seal_keeps aead plaintext s).1
      simp only [sealed] at mem
      cases eq : s.seal_ aead plaintext with
      | mk result next =>
        rw [eq] at dir mem
        cases result with
        | error e => exact (ih mem).trans dir
        | ok head =>
          rcases List.mem_cons.mp mem with rfl | mem
          · obtain ⟨val, carried, ciphertext, rfl, -⟩ := seal_spec (congrArg Prod.fst eq)
            rw [nonceValue_beBytes, carried]
          · exact (ih mem).trans dir

/-- The cipher accepts nothing but these datagrams. -/
def Accepts (aead : Aead) (datagrams : List Bytes) : Prop :=
  ∀ datagram plaintext,
    aead.decrypt (nonceBytes (nonceValue datagram)) (datagram.drop NONCE_PREFIX_LEN) =
      some plaintext → datagram ∈ datagrams

/-- The window takes exactly the new numbers no more than 63 below the highest taken, a
datagram it is not asked about leaves it alone, no datagram is opened twice, and what is
opened was sealed by the other end. -/
theorem replay_window_exact (aead : Aead) :
    (∀ seqs seq, ((ReplayWindow.offered seqs).2.check seq).1 = .ok () ↔
      ReplayWindow.Admits (ReplayWindow.offered seqs).1 seq) ∧
    (∀ (s : Session) datagram, s.Refuses aead datagram →
      ∃ e, s.open_ aead datagram = (.error e, s)) ∧
    (∀ dir uses, (opened aead (new dir) uses).Nodup) ∧
    ∀ dir uses peerUses,
      Accepts aead (sealed aead (new dir) uses ++ sealed aead (new dir.opposite) peerUses) →
      opened aead (new dir) uses ⊆ sealed aead (new dir.opposite) peerUses := by
  refine ⟨?window, fun s datagram => open_refused, ?once, ?genuine⟩
  case window =>
    intro seqs seq
    exact (ReplayWindow.check_spec (ReplayWindow.offered_remembers seqs) seq).admits
  case once =>
    intro dir uses
    exact List.Nodup.of_map sequence (opened_fresh (s := new dir) ReplayWindow.remembers_new).1
  case genuine =>
    intro dir uses peerUses accepts datagram mem
    obtain ⟨foreign, plaintext, decrypts⟩ := opened_foreign mem
    rcases List.mem_append.mp (accepts datagram plaintext decrypts) with own | peer
    · exact absurd (direction_sealed own) foreign
    · exact peer

/-- The datagram of an empty message, sent first. -/
def firstDatagram : Bytes :=
  List.replicate SEAL_OVERHEAD 0

/-- A cipher whose tag is all zeros, and that has sealed `firstDatagram` only. -/
def sealedOnce : Aead where
  encrypt _ plaintext := some (plaintext ++ List.replicate TAG_LEN 0)
  decrypt nonce ciphertext :=
    if nonce.drop 4 ++ ciphertext = firstDatagram then some [] else none

theorem beBytes_nonceValue {datagram : Bytes} (long : NONCE_PREFIX_LEN ≤ datagram.length) :
    beBytes NONCE_PREFIX_LEN (nonceValue datagram).toNat = datagram.take NONCE_PREFIX_LEN := by
  have length : (datagram.take NONCE_PREFIX_LEN).length = NONCE_PREFIX_LEN := by simpa using long
  have fits := ofBeBytes_lt (datagram.take NONCE_PREFIX_LEN)
  have written := beBytes_ofBeBytes (datagram.take NONCE_PREFIX_LEN)
  rw [length] at fits written
  rwa [nonceValue, UInt64.toNat_ofNat_of_lt' fits]

theorem accepts_sealedOnce : Accepts sealedOnce [firstDatagram] := by
  intro datagram plaintext decrypts
  simp only [sealedOnce, nonceBytes] at decrypts
  split at decrypts
  · rename_i same
    rw [List.drop_left' (List.length_replicate ..)] at same
    have length := congrArg List.length same
    simp only [List.length_append, length_beBytes, List.length_drop, firstDatagram,
      List.length_replicate, SEAL_OVERHEAD, NONCE_PREFIX_LEN, TAG_LEN] at length
    have long : NONCE_PREFIX_LEN ≤ datagram.length := by
      simp only [NONCE_PREFIX_LEN]
      omega
    rw [beBytes_nonceValue long, List.take_append_drop] at same
    exact List.mem_singleton.mpr same
  · cases decrypts

theorem replay_window_exact_repeated :
    opened sealedOnce (new .toClient) [.open_ firstDatagram, .open_ firstDatagram] ⊆
      sealed sealedOnce (new .toServer) [.seal_ []] ∧
    opened sealedOnce (new .toClient) [.open_ firstDatagram, .open_ firstDatagram] =
      [firstDatagram] :=
  ⟨(replay_window_exact sealedOnce).2.2.2 .toClient _ [.seal_ []] accepts_sealedOnce, by decide⟩

end Session

end Posh.Remote
