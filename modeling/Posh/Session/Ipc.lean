import Posh.Lib.Bytes

/-!
The frames between the session daemon and its clients (`ipc.rs`): a tag, the length of
the payload, the payload.

A reader takes whatever part of a stream of frames has arrived; `next_spec` says that it
gives the next frame as soon as the whole of it has, and never anything else.
-/

namespace Posh.Session

open Posh.Lib

inductive Tag where
  | input | output | resize | detach | detachAll | kill | info | init | history | run | ack
  | exit
deriving DecidableEq, Repr

namespace Tag

def toU8 : Tag → UInt8
  | input => 0
  | output => 1
  | resize => 2
  | detach => 3
  | detachAll => 4
  | kill => 5
  | info => 6
  | init => 7
  | history => 8
  | run => 9
  | ack => 10
  | exit => 11

def fromU8 (b : UInt8) : Option Tag :=
  match b.toNat with
  | 0 => some input
  | 1 => some output
  | 2 => some resize
  | 3 => some detach
  | 4 => some detachAll
  | 5 => some kill
  | 6 => some info
  | 7 => some init
  | 8 => some history
  | 9 => some run
  | 10 => some ack
  | 11 => some exit
  | _ => none

@[simp] theorem fromU8_toU8 (tag : Tag) : fromU8 tag.toU8 = some tag := by
  cases tag <;> rfl

end Tag

def HEADER_LEN : Nat := 5

/-- Upper bound on a single frame's payload. -/
def MAX_FRAME_LEN : Nat := 64 * 1024 * 1024

def appendFrame (buf : Bytes) (tag : Tag) (payload : Bytes) : Bytes :=
  buf ++ [tag.toU8] ++ leBytes 4 payload.length ++ payload

def encodeFrame (tag : Tag) (payload : Bytes) : Bytes :=
  appendFrame [] tag payload

def encodeHistoryFormat (vt : Bool) : Bytes :=
  [if vt then 1 else 0]

def decodeHistoryFormat (payload : Bytes) : Bool :=
  payload.head? == some 1

def encodeResize (rows cols : Nat) : Bytes :=
  leBytes 2 rows ++ leBytes 2 cols

def decodeResize (payload : Bytes) : Option (Nat × Nat) :=
  if payload.length ≠ 4 then none
  else some (ofLeBytes (payload.take 2), ofLeBytes (payload.drop 2))

def encodeExit (code : Int32) : Bytes :=
  leBytes 4 code.toUInt32.toNat

def decodeExit (payload : Bytes) : Option Int32 :=
  if payload.length = 4 then some (UInt32.ofNat (ofLeBytes payload)).toInt32 else none

@[simp] theorem length_encodeExit (code : Int32) : (encodeExit code).length = 4 :=
  length_leBytes 4 _

@[simp] theorem decodeExit_encodeExit (code : Int32) :
    decodeExit (encodeExit code) = some code := by
  have fits : code.toUInt32.toNat < 256 ^ 4 := code.toUInt32.toNat_lt
  unfold decodeExit
  rw [if_pos (length_encodeExit code)]
  unfold encodeExit
  rw [ofLeBytes_leBytes_of_lt fits, UInt32.ofNat_toNat]
  rfl

/-- What a stream is made of: a tag byte, whether it is known or not, and a payload. -/
structure Record where
  tag : UInt8
  payload : Bytes
deriving DecidableEq, Repr

namespace Record

def encode (r : Record) : Bytes :=
  r.tag :: (leBytes 4 r.payload.length ++ r.payload)

/-- A reader takes it. -/
def Fits (r : Record) : Prop :=
  r.payload.length ≤ MAX_FRAME_LEN

@[simp] theorem length_encode (r : Record) : r.encode.length = HEADER_LEN + r.payload.length := by
  rw [encode, List.length_cons, List.length_append, length_leBytes]
  unfold HEADER_LEN
  omega

/-- The length in a record's header. -/
theorem announced {r : Record} (fits : r.Fits) (rest : Bytes) :
    ofLeBytes (((r.encode ++ rest).drop 1).take 4) = r.payload.length := by
  have small : r.payload.length < 256 ^ 4 := Nat.lt_of_le_of_lt fits (by decide)
  rw [encode, List.cons_append, List.drop_succ_cons, List.drop_zero, List.append_assoc,
    List.take_left' (length_leBytes 4 _), ofLeBytes_leBytes_of_lt small]

/-- The payload of a record that stands first. -/
theorem drop_header (r : Record) (rest : Bytes) :
    ((r.encode ++ rest).drop HEADER_LEN).take r.payload.length = r.payload := by
  have header : (r.tag :: leBytes 4 r.payload.length).length = HEADER_LEN := by
    rw [List.length_cons, length_leBytes]
    rfl
  have split : r.encode ++ rest = (r.tag :: leBytes 4 r.payload.length) ++ (r.payload ++ rest) := by
    simp [encode]
  rw [split, List.drop_left' header, List.take_left' rfl]

end Record

structure Frame where
  tag : Tag
  payload : Bytes
deriving DecidableEq, Repr

/-- The frame of a record with a known tag. -/
def Record.frame? (r : Record) : Option Frame :=
  (Tag.fromU8 r.tag).map (Frame.mk · r.payload)

namespace Frame

def encode (f : Frame) : Bytes :=
  encodeFrame f.tag f.payload

/-- A reader takes it. -/
def Fits (f : Frame) : Prop :=
  f.payload.length ≤ MAX_FRAME_LEN

def record (f : Frame) : Record :=
  ⟨f.tag.toU8, f.payload⟩

/-- The bytes of a frame, one after the other. -/
theorem encode_eq (f : Frame) :
    f.encode = f.tag.toU8 :: (leBytes 4 f.payload.length ++ f.payload) :=
  rfl

@[simp] theorem frame_record (f : Frame) : f.record.frame? = some f := by
  unfold Record.frame? record
  rw [Tag.fromU8_toU8]
  rfl

@[simp] theorem length_encode (f : Frame) : f.encode.length = HEADER_LEN + f.payload.length :=
  f.record.length_encode

/-- The length in a frame's header. -/
theorem announced {f : Frame} (fits : f.Fits) (rest : Bytes) :
    ofLeBytes (((f.encode ++ rest).drop 1).take 4) = f.payload.length :=
  Record.announced (r := f.record) fits rest

end Frame

/-- Reassembles frames from a stream socket. -/
structure FrameBuffer where
  buf : Bytes := []
  head : Nat := 0
  inBounds : head ≤ buf.length := by simp
deriving DecidableEq, Repr

namespace FrameBuffer

def new : FrameBuffer where
  buf := []
  head := 0
  inBounds := Nat.le_refl 0

/-- What has been fed and not been taken yet. -/
def unread (b : FrameBuffer) : Bytes :=
  b.buf.drop b.head

def compact (b : FrameBuffer) : FrameBuffer where
  buf := b.buf.drop b.head
  head := 0
  inBounds := Nat.zero_le _

def feed (data : Bytes) (b : FrameBuffer) : FrameBuffer where
  buf := b.compact.buf ++ data
  head := b.compact.head
  inBounds := Nat.zero_le _

/-- Past a frame whose payload is `len` bytes long. -/
def skip (len : Nat) (b : FrameBuffer) (whole : HEADER_LEN + len ≤ b.unread.length) :
    FrameBuffer where
  buf := b.buf
  head := b.head + (HEADER_LEN + len)
  inBounds := by
    have bound := b.inBounds
    unfold unread at whole
    rw [List.length_drop] at whole
    omega

/-- The next complete frame; frames with unknown tags are skipped, and a header that
announces more than `MAX_FRAME_LEN` bytes is an error. -/
def next (b : FrameBuffer) : Except String (Option Frame) × FrameBuffer :=
  if b.unread.length < HEADER_LEN then (.ok none, b)
  else
    let len := ofLeBytes ((b.unread.drop 1).take 4)
    if len > MAX_FRAME_LEN then
      (.error s!"frame length {len} exceeds maximum {MAX_FRAME_LEN}", b)
    else if whole : HEADER_LEN + len ≤ b.unread.length then
      match b.unread.head?.bind Tag.fromU8 with
      | some tag => (.ok (some ⟨tag, (b.unread.drop HEADER_LEN).take len⟩), b.skip len whole)
      | none => (b.skip len whole).next
    else (.ok none, b)
termination_by b.buf.length - b.head
decreasing_by
  unfold skip unread at *
  rw [List.length_drop] at whole
  unfold HEADER_LEN at *
  dsimp only
  omega

@[simp] theorem unread_feed (data : Bytes) (b : FrameBuffer) :
    (b.feed data).unread = b.unread ++ data :=
  rfl

@[simp] theorem unread_skip (len : Nat) (b : FrameBuffer)
    (whole : HEADER_LEN + len ≤ b.unread.length) :
    (b.skip len whole).unread = b.unread.drop (HEADER_LEN + len) := by
  unfold unread skip
  rw [List.drop_drop]

variable {b : FrameBuffer}

/-- Less than a header is no frame. -/
theorem next_of_short (short : b.unread.length < HEADER_LEN) : b.next = (.ok none, b) := by
  rw [next, if_pos short]

/-- A frame of which a part is missing is not given. -/
theorem next_of_part {len : Nat} (announced : ofLeBytes ((b.unread.drop 1).take 4) = len)
    (bounded : len ≤ MAX_FRAME_LEN) (part : b.unread.length < HEADER_LEN + len) :
    b.next = (.ok none, b) := by
  by_cases short : b.unread.length < HEADER_LEN
  · exact next_of_short short
  · rw [next, if_neg short]
    dsimp only
    rw [announced, if_neg (Nat.not_lt.mpr bounded), dif_neg (Nat.not_le.mpr part)]

/-- A header that announces too much is an error. -/
theorem next_of_oversize (header : HEADER_LEN ≤ b.unread.length)
    (large : MAX_FRAME_LEN < ofLeBytes ((b.unread.drop 1).take 4)) :
    ∃ message, b.next = (.error message, b) := by
  rw [next, if_neg (Nat.not_lt.mpr header)]
  dsimp only
  rw [if_pos large]
  exact ⟨_, rfl⟩

/-- A whole record is taken, and what follows it is left: a frame with a known tag is given, and
behind any other the reader goes on. -/
theorem next_of_record {r : Record} {rest : Bytes} (fits : r.Fits)
    (arrived : b.unread = r.encode ++ rest) :
    ∃ b', b'.unread = rest ∧ b'.buf = b.buf ∧
      (∀ f, r.frame? = some f → b.next = (.ok (some f), b')) ∧
      (r.frame? = none → b.next = b'.next) := by
  have whole : HEADER_LEN + r.payload.length ≤ b.unread.length := by
    rw [arrived, List.length_append, Record.length_encode]
    exact Nat.le_add_right _ _
  have len := Record.announced fits rest
  rw [← arrived] at len
  have tag : b.unread.head? = some r.tag := by
    rw [arrived]
    rfl
  have payload : (b.unread.drop HEADER_LEN).take r.payload.length = r.payload := by
    rw [arrived, r.drop_header]
  have turn : b.next = (Tag.fromU8 r.tag).elim (b.skip r.payload.length whole).next
      fun tag => (.ok (some ⟨tag, r.payload⟩), b.skip r.payload.length whole) := by
    rw [next, if_neg (by omega)]
    simp only [len]
    rw [if_neg (Nat.not_lt.mpr fits), dif_pos whole, tag, Option.bind_some]
    simp only [payload]
    cases Tag.fromU8 r.tag <;> rfl
  refine ⟨b.skip r.payload.length whole, ?_, rfl, ?_, ?_⟩
  · rw [unread_skip, arrived, List.drop_left' r.length_encode]
  · rintro f known
    obtain ⟨tag, found, rfl⟩ := Option.map_eq_some_iff.mp known
    rw [turn, found]
    rfl
  · intro unknown
    rw [turn, Option.map_eq_none_iff.mp unknown]
    rfl

/-- A whole frame is given, and what follows it is left. -/
theorem next_of_frame {f : Frame} {rest : Bytes} (fits : f.Fits)
    (arrived : b.unread = f.encode ++ rest) :
    ∃ b', b.next = (.ok (some f), b') ∧ b'.unread = rest := by
  obtain ⟨b', unread, -, given, -⟩ := next_of_record (r := f.record) fits arrived
  exact ⟨b', given f f.frame_record, unread⟩

/-- A frame that is given was unread before. -/
theorem length_next {f : Frame} {b' : FrameBuffer} (taken : b.next = (.ok (some f), b')) :
    b'.unread.length + (HEADER_LEN + f.payload.length) ≤ b.unread.length := by
  fun_induction next b with
  | case1 => cases taken
  | case2 => cases taken
  | case3 b header len bounded whole tag known =>
    cases taken
    rw [unread_skip, List.length_drop]
    have payload := List.length_take_le len (b.unread.drop HEADER_LEN)
    dsimp only
    omega
  | case4 b header len bounded whole unknown ih =>
    have later := ih taken
    rw [unread_skip, List.length_drop] at later
    omega
  | case5 => cases taken

theorem next_shrinks {f : Frame} {b' : FrameBuffer} (taken : b.next = (.ok (some f), b')) :
    b'.unread.length < b.unread.length := by
  have bytes := length_next taken
  unfold HEADER_LEN at bytes
  omega

/-! ### Streams of frames -/

/-- The bytes of frames sent one after the other. -/
def encodeAll (frames : List Frame) : Bytes :=
  frames.flatMap Frame.encode

@[simp] theorem encodeAll_cons (f : Frame) (frames : List Frame) :
    encodeAll (f :: frames) = f.encode ++ encodeAll frames :=
  rfl

/-- What the reader has and what is on its way are the frames not taken yet. -/
def Holds (b : FrameBuffer) (coming : Bytes) (frames : List Frame) : Prop :=
  b.unread ++ coming = encodeAll frames

theorem Holds.feed {data coming : Bytes} {frames : List Frame}
    (h : b.Holds (data ++ coming) frames) : (b.feed data).Holds coming frames := by
  unfold Holds
  rw [unread_feed, List.append_assoc]
  exact h

/-- When everything has arrived and no whole frame is unread, none is left. -/
theorem Holds.exhausted {frames : List Frame} (h : b.Holds [] frames)
    (waits : ∀ f rest, frames = f :: rest → b.unread.length < f.encode.length) : frames = [] := by
  cases frames with
  | nil => rfl
  | cons f rest =>
    have arrived : b.unread = f.encode ++ encodeAll rest := by
      unfold Holds at h
      rwa [List.append_nil] at h
    have short := waits f rest rfl
    rw [arrived, List.length_append] at short
    omega

/-- `next` gives the first frame once the whole of it has arrived, and nothing before. -/
theorem next_spec {coming : Bytes} {frames : List Frame} (fits : ∀ f ∈ frames, f.Fits)
    (h : b.Holds coming frames) :
    (b.next = (.ok none, b) ∧
        ∀ f rest, frames = f :: rest → b.unread.length < f.encode.length) ∨
      ∃ f rest b', frames = f :: rest ∧ b.next = (.ok (some f), b') ∧ b'.Holds coming rest := by
  cases frames with
  | nil =>
    left
    have empty : b.unread = [] := (List.append_eq_nil_iff.mp h).1
    constructor
    · apply next_of_short
      rw [empty]
      exact Nat.zero_lt_succ _
    · intro f rest eq
      cases eq
  | cons f rest =>
    by_cases part : b.unread.length < f.encode.length
    · left
      refine ⟨?_, ?_⟩
      · by_cases short : b.unread.length < HEADER_LEN
        · exact next_of_short short
        · have header : (b.unread.drop 1).take 4 = ((b.unread ++ coming).drop 1).take 4 := by
            have known : 4 ≤ (b.unread.drop 1).length := by
              unfold HEADER_LEN at short
              rw [List.length_drop]
              omega
            rw [List.drop_append_of_le_length (by unfold HEADER_LEN at short; omega),
              List.take_append_of_le_length known]
          have fits' := fits f List.mem_cons_self
          refine @next_of_part _ f.payload.length ?_ fits' ?_
          · rw [header, h, encodeAll_cons]
            exact f.announced fits' _
          · rw [← Frame.length_encode]
            exact part
      · rintro _ _ ⟨⟩
        exact part
    · right
      obtain ⟨later, arrived, left_⟩ : ∃ later, b.unread = f.encode ++ later ∧
          later ++ coming = encodeAll rest := by
        unfold Holds at h
        rw [encodeAll_cons] at h
        rcases List.append_eq_append_iff.mp h with
          ⟨more, first, second⟩ | ⟨more, first, second⟩
        · have none : more = [] := by
            have lengths := congrArg List.length first
            rw [List.length_append] at lengths
            exact List.eq_nil_of_length_eq_zero (by omega)
          subst none
          exact ⟨[], by simpa using first.symm, by simpa using second⟩
        · exact ⟨more, first, second.symm⟩
      obtain ⟨b', given, unread⟩ := next_of_frame (fits f List.mem_cons_self) arrived
      refine ⟨f, rest, b', rfl, given, ?_⟩
      unfold Holds
      rw [unread]
      exact left_

end FrameBuffer

end Posh.Session
