import Posh.Lib.Reader
import Posh.Remote.Sync

/-!
The wire format of frames and messages: the flags byte, the capability table behind it
(`remote/caps.rs`), and the fields (`remote/sync.rs`).

The decoders index the bytes they were given with checked accesses, so a read past the end
is a panic.
-/

namespace Posh.Remote

open Posh.Lib

/-! ### The capability table -/

/-- A capability table follows the flags byte. -/
def FLAG_EXTENSION : UInt8 := 2

def encodeEntries (caps : List Cap) : Bytes :=
  caps.flatMap fun c => c.id :: UInt8.ofNat c.payload.length :: c.payload

/-- `caps::encode_table`: the count, then each entry's id, length and payload. -/
def encodeTable (caps : List Cap) : Bytes :=
  UInt8.ofNat caps.length :: encodeEntries caps

/-- The loop of `decode_table`. -/
def decodeEntries (data : Bytes) : (count : Nat) → (caps : List Cap) → (pos : Nat) →
    Fallible String (List Cap × Nat)
  | 0, caps, pos => .ok (caps, pos)
  | count + 1, caps, pos =>
      match data[pos]?, data[pos + 1]? with
      | some id, some len =>
          let pos := pos + 2
          let stop := pos + len.toNat
          match getRange data pos stop with
          | some payload => decodeEntries data count (caps ++ [{ id, payload }]) stop
          | none => .fail "capability payload truncated"
      | _, _ => .fail "capability entry truncated"

/-- `caps::decode_table`: the entries, and the number of bytes they take. -/
def decodeTable (data : Bytes) : Fallible String (List Cap × Nat) :=
  match data[0]? with
  | none => .fail "capability table truncated"
  | some count => decodeEntries data count.toNat [] 1

def flagsWithExtension (flags : UInt8) (caps : List Cap) : UInt8 :=
  if caps.isEmpty then flags else flags ||| FLAG_EXTENSION

/-- The flags byte, and the table if there is one. -/
def encodeHead (flags : UInt8) (caps : List Cap) : Bytes :=
  flagsWithExtension flags caps :: if caps.isEmpty then [] else encodeTable caps

/-- The flags without the extension bit, the table, and where the fixed fields start. -/
def decodeFlagsAndCaps (data : Bytes) : Fallible String ((UInt8 × List Cap) × Nat) :=
  match data[0]? with
  | none => .fail "message too short"
  | some first =>
      if first &&& FLAG_EXTENSION = 0 then .ok ((first, []), 1)
      else do
        let (table, used) ← decodeTable (← slice data 1 data.length)
        return ((first &&& ~~~FLAG_EXTENSION, table), 1 + used)

/-! ### Frames and messages -/

def BODY_FULL : UInt8 := 0
def BODY_DIFF : UInt8 := 1
def BODY_EMPTY : UInt8 := 2

/-- `u64::from_le_bytes(data[pos..pos + 8])` -/
def readU64 (data : Bytes) (pos : Nat) : Checked Nat := do
  return ofLeBytes (← slice data pos (pos + 8))

/-- `u16::from_le_bytes([data[pos], data[pos + 1]])` -/
def readU16 (data : Bytes) (pos : Nat) : Checked Nat := do
  return ofLeBytes [← getAt data pos, ← getAt data (pos + 1)]

def FrameBody.encode : FrameBody → Bytes
  | .full bytes => BODY_FULL :: bytes
  | .diff base bytes => BODY_DIFF :: (leBytes 8 base ++ bytes)
  | .empty => [BODY_EMPTY]

def ServerFrame.encode (f : ServerFrame) : Bytes :=
  encodeHead f.flags f.caps ++ leBytes 8 f.frameNum ++ leBytes 8 f.inputAck ++
    leBytes 8 f.echoAck ++ f.body.encode

/-- The body, from its kind byte on. -/
def FrameBody.decode (data : Bytes) (pos : Nat) : Fallible String FrameBody := do
  let kind ← getAt data pos
  if kind = BODY_FULL then
    return .full (← slice data (pos + 1) data.length)
  else if kind = BODY_DIFF then
    if data.length < pos + 9 then .fail "diff frame too short"
    else
      let base ← readU64 data (pos + 1)
      return .diff base (← slice data (pos + 9) data.length)
  else if kind = BODY_EMPTY then
    return .empty
  else .fail "unknown frame body kind"

def ServerFrame.decode (data : Bytes) : Fallible String ServerFrame := do
  let ((flags, caps), pos) ← decodeFlagsAndCaps data
  if data.length < pos + 25 then .fail "server frame too short"
  else
    let frameNum ← readU64 data pos
    let inputAck ← readU64 data (pos + 8)
    let echoAck ← readU64 data (pos + 16)
    let body ← FrameBody.decode data (pos + 24)
    return { flags, caps, frameNum, inputAck, echoAck, body }

def ClientMessage.encode (m : ClientMessage) : Bytes :=
  encodeHead m.flags m.caps ++ leBytes 8 m.ackedFrame ++ leBytes 2 m.rows ++ leBytes 2 m.cols ++
    leBytes 8 m.inputBase ++ m.input

def ClientMessage.decode (data : Bytes) : Fallible String ClientMessage := do
  let ((flags, caps), pos) ← decodeFlagsAndCaps data
  if data.length < pos + 20 then .fail "client message too short"
  else
    let ackedFrame ← readU64 data pos
    let rows ← readU16 data (pos + 8)
    let cols ← readU16 data (pos + 10)
    let inputBase ← readU64 data (pos + 12)
    let input ← slice data (pos + 20) data.length
    return { flags, caps, ackedFrame, rows, cols, inputBase, input }

/-! ### What fits in the format -/

/-- Flags and a table that the head can carry. -/
structure Carried (flags : UInt8) (caps : List Cap) : Prop where
  reserved : flags &&& FLAG_EXTENSION = 0
  count : caps.length ≤ 255
  payloads : ∀ c ∈ caps, c.payload.length ≤ 255

/-- The base of a diff is a `u64`. -/
def FrameBody.Fits : FrameBody → Prop
  | .diff base _ => base < 2 ^ 64
  | _ => True

/-- The head carries the flags and the table, and the integers are of their types. -/
structure ServerFrame.Fits (f : ServerFrame) : Prop where
  head : Carried f.flags f.caps
  frameNum : f.frameNum < 2 ^ 64
  inputAck : f.inputAck < 2 ^ 64
  echoAck : f.echoAck < 2 ^ 64
  body : f.body.Fits

structure ClientMessage.Fits (m : ClientMessage) : Prop where
  head : Carried m.flags m.caps
  ackedFrame : m.ackedFrame < 2 ^ 64
  rows : m.rows < 2 ^ 16
  cols : m.cols < 2 ^ 16
  inputBase : m.inputBase < 2 ^ 64

/-- The length of the fields behind the kind byte that every body of the kind has. -/
def FrameBody.fixedLength : FrameBody → Nat
  | .diff _ _ => 8
  | _ => 0

def ServerFrame.fixedLength (f : ServerFrame) : Nat :=
  (encodeHead f.flags f.caps).length + 25 + f.body.fixedLength

def ClientMessage.fixedLength (m : ClientMessage) : Nat :=
  (encodeHead m.flags m.caps).length + 20

/-! ### The table -/

theorem decodeEntries_entries {data : Bytes} {caps : List Cap}
    (payloads : ∀ c ∈ caps, c.payload.length ≤ 255) (before rest : Bytes)
    (split : data = before ++ encodeEntries caps ++ rest) (done : List Cap) :
    decodeEntries data caps.length done before.length =
      .ok (done ++ caps, before.length + (encodeEntries caps).length) := by
  induction caps generalizing before done with
  | nil => simp [decodeEntries, encodeEntries]
  | cons c caps ih =>
    obtain ⟨small, smalls⟩ := List.forall_mem_cons.mp payloads
    have len : (UInt8.ofNat c.payload.length).toNat = c.payload.length :=
      UInt8.toNat_ofNat_of_lt (Nat.lt_succ_of_le small)
    have split' : data = before ++ [c.id, UInt8.ofNat c.payload.length] ++
        (c.payload ++ encodeEntries caps ++ rest) := by
      simpa [encodeEntries] using split
    have id : data[before.length]? = some c.id := by simp [split']
    have length : data[before.length + 1]? = some (UInt8.ofNat c.payload.length) := by
      simp [split']
    have payload : getRange data (before.length + 2) (before.length + 2 + c.payload.length) =
        some c.payload := by
      refine getRange_middle (before ++ [c.id, UInt8.ofNat c.payload.length])
        (encodeEntries caps ++ rest) ?_ ?_ rfl
      · simpa using split'
      · simp
    have later := ih smalls (before ++ c.id :: UInt8.ofNat c.payload.length :: c.payload)
      (by simpa using split') (done ++ [c])
    simp only [List.length_cons, decodeEntries, id, length, len, payload]
    simp only [List.length_append, List.length_cons] at later
    rw [show before.length + 2 + c.payload.length = before.length + (c.payload.length + 1 + 1) by
      omega, later]
    simp only [List.append_assoc, List.singleton_append, encodeEntries, List.flatMap_cons,
      List.length_append, List.length_cons, Fallible.ok.injEq, Prod.mk.injEq, true_and]
    omega

theorem decodeTable_encodeTable {caps : List Cap} (count : caps.length ≤ 255)
    (payloads : ∀ c ∈ caps, c.payload.length ≤ 255) (rest : Bytes) :
    decodeTable (encodeTable caps ++ rest) = .ok (caps, (encodeTable caps).length) := by
  have len : (UInt8.ofNat caps.length).toNat = caps.length :=
    UInt8.toNat_ofNat_of_lt (Nat.lt_succ_of_le count)
  have split : encodeTable caps ++ rest =
      [UInt8.ofNat caps.length] ++ encodeEntries caps ++ rest := rfl
  have entries := decodeEntries_entries payloads _ _ split []
  simp only [decodeTable, encodeTable, List.cons_append, List.getElem?_cons_zero, len]
  simp only [encodeTable, List.cons_append, List.length_singleton] at entries
  rw [entries]
  simp [Nat.add_comm]

theorem decodeEntries_total (count : Nat) (data : Bytes) (caps : List Cap) (pos : Nat) (p : Panic) :
    decodeEntries data count caps pos ≠ .panic p := by
  induction count generalizing caps pos with
  | zero => exact nofun
  | succ count ih =>
    unfold decodeEntries
    split
    · dsimp only
      split
      · exact ih _ _
      · exact nofun
    · exact nofun

theorem decodeEntries_inside {count : Nat} {data : Bytes} {caps : List Cap} {pos : Nat}
    {table : List Cap} {stop : Nat} (start : pos ≤ data.length)
    (decodes : decodeEntries data count caps pos = .ok (table, stop)) : stop ≤ data.length := by
  induction count generalizing caps pos with
  | zero =>
    injection decodes with same
    injection same with _ same
    exact same ▸ start
  | succ count ih =>
    unfold decodeEntries at decodes
    split at decodes
    · dsimp only at decodes
      split at decodes
      · rename_i found
        exact ih (le_of_getRange found) decodes
      · cases decodes
    · cases decodes

theorem decodeEntries_extend {count : Nat} {data : Bytes} {caps : List Cap} {pos : Nat}
    {r : List Cap × Nat} (more : Bytes) (decodes : decodeEntries data count caps pos = .ok r) :
    decodeEntries (data ++ more) count caps pos = .ok r := by
  induction count generalizing caps pos with
  | zero => exact decodes
  | succ count ih =>
    unfold decodeEntries at decodes ⊢
    split at decodes
    · rename_i id len first second
      rw [List.getElem?_append_left (List.getElem?_eq_some_iff.mp first).1,
        List.getElem?_append_left (List.getElem?_eq_some_iff.mp second).1, first, second]
      dsimp only at decodes ⊢
      split at decodes
      · rename_i found
        rw [getRange_append more found]
        exact ih decodes
      · cases decodes
    · cases decodes

theorem local_decodeTable : Local decodeTable where
  total data p := by
    unfold decodeTable
    split
    · exact nofun
    · exact decodeEntries_total _ _ _ _ p
  inside {data a stop} decodes := by
    unfold decodeTable at decodes
    split at decodes
    · cases decodes
    · rename_i first
      exact decodeEntries_inside (List.getElem?_eq_some_iff.mp first).1 decodes
  extend {data a stop} more decodes := by
    unfold decodeTable at decodes ⊢
    split at decodes
    · cases decodes
    · rename_i first
      rw [List.getElem?_append_left (List.getElem?_eq_some_iff.mp first).1, first]
      exact decodeEntries_extend more decodes

/-! ### The head -/

/-- What `decodeFlagsAndCaps` does, by the bytes that are there. -/
theorem decodeFlagsAndCaps_cons (first : UInt8) (rest : Bytes) :
    decodeFlagsAndCaps (first :: rest) =
      if first &&& FLAG_EXTENSION = 0 then .ok ((first, []), 1)
      else match decodeTable rest with
        | .ok (table, used) => .ok ((first &&& ~~~FLAG_EXTENSION, table), 1 + used)
        | .fail e => .fail e
        | .panic p => .panic p := by
  have tail : slice (first :: rest) 1 (first :: rest).length = .ok rest :=
    slice_middle [first] [] (by simp) rfl (by simp [Nat.add_comm])
  simp only [decodeFlagsAndCaps, List.getElem?_cons_zero, tail]
  by_cases plain : first &&& FLAG_EXTENSION = 0
  · rw [if_pos plain, if_pos plain]
  · rw [if_neg plain, if_neg plain]
    change (decodeTable rest >>= fun r =>
      pure ((first &&& ~~~FLAG_EXTENSION, r.1), 1 + r.2)) = _
    cases decodeTable rest with
    | ok r => rfl
    | fail e => rfl
    | panic p => rfl

theorem local_decodeFlagsAndCaps : Local decodeFlagsAndCaps where
  total data p := by
    cases data with
    | nil => exact nofun
    | cons first rest =>
      rw [decodeFlagsAndCaps_cons]
      split
      · exact nofun
      · have total := local_decodeTable.total rest p
        split
        · exact nofun
        · exact nofun
        · rename_i eq
          intro same
          injection same with same
          exact total (same ▸ eq)
  inside {data a stop} decodes := by
    cases data with
    | nil => cases decodes
    | cons first rest =>
      rw [decodeFlagsAndCaps_cons] at decodes
      split at decodes
      · injection decodes with same
        injection same with _ same
        simp [← same]
      · split at decodes
        · rename_i table used eq
          have inside := local_decodeTable.inside eq
          injection decodes with same
          injection same with _ same
          simp only [List.length_cons]
          omega
        · cases decodes
        · cases decodes
  extend {data a stop} more decodes := by
    cases data with
    | nil => cases decodes
    | cons first rest =>
      rw [List.cons_append, decodeFlagsAndCaps_cons]
      rw [decodeFlagsAndCaps_cons] at decodes
      split at decodes
      · rename_i plain
        rw [if_pos plain]
        exact decodes
      · rename_i extended
        rw [if_neg extended]
        split at decodes
        · rename_i eq
          rw [local_decodeTable.extend more eq]
          exact decodes
        · cases decodes
        · cases decodes

theorem extended_ne_zero (flags : UInt8) : (flags ||| FLAG_EXTENSION) &&& FLAG_EXTENSION ≠ 0 := by
  intro zero
  have bit := congrArg (·.toBitVec.getLsbD 1) zero
  simp [FLAG_EXTENSION] at bit

theorem extended_and_not {flags : UInt8} (reserved : flags &&& FLAG_EXTENSION = 0) :
    (flags ||| FLAG_EXTENSION) &&& ~~~FLAG_EXTENSION = flags := by
  apply UInt8.toBitVec_inj.mp
  refine BitVec.eq_of_getLsbD_eq fun i inside => ?_
  have unset := congrArg (·.toBitVec.getLsbD i) reserved
  simp only [UInt8.toBitVec_and, UInt8.toBitVec_or, UInt8.toBitVec_not, BitVec.getLsbD_and,
    BitVec.getLsbD_or, BitVec.getLsbD_not, inside] at unset ⊢
  simp at unset ⊢
  grind

theorem stripped (flags : UInt8) : flags &&& ~~~FLAG_EXTENSION &&& FLAG_EXTENSION = 0 := by
  rw [UInt8.and_assoc, UInt8.not_and_self, UInt8.and_zero]

theorem decodeFlagsAndCaps_encodeHead {flags : UInt8} {caps : List Cap}
    (carried : Carried flags caps) (rest : Bytes) :
    decodeFlagsAndCaps (encodeHead flags caps ++ rest) =
      .ok ((flags, caps), (encodeHead flags caps).length) := by
  unfold encodeHead flagsWithExtension
  rw [List.cons_append, decodeFlagsAndCaps_cons]
  cases caps with
  | nil => simp [carried.reserved]
  | cons c caps =>
    have table := decodeTable_encodeTable carried.count carried.payloads rest
    simp only [List.isEmpty_cons, Bool.false_eq_true, if_false, extended_ne_zero,
      extended_and_not carried.reserved, table, List.length_cons, Nat.add_comm]

/-- Flags that were decoded are without the extension bit. -/
theorem reserved_of_decodeFlagsAndCaps {data : Bytes} {flags : UInt8} {caps : List Cap} {pos : Nat}
    (decodes : decodeFlagsAndCaps data = .ok ((flags, caps), pos)) :
    flags &&& FLAG_EXTENSION = 0 := by
  cases data with
  | nil => cases decodes
  | cons first rest =>
    rw [decodeFlagsAndCaps_cons] at decodes
    split at decodes
    · rename_i plain
      injection decodes with same
      injection same with same
      injection same with same
      exact same ▸ plain
    · split at decodes
      · injection decodes with same
        injection same with same
        injection same with same
        exact same ▸ stripped first
      · cases decodes
      · cases decodes

/-! ### The fields -/

theorem readU64_middle {data : Bytes} (before rest : Bytes) {pos value : Nat}
    (split : data = before ++ leBytes 8 value ++ rest) (start : before.length = pos)
    (fits : value < 2 ^ 64) : readU64 data pos = .ok value := by
  have field := slice_middle before rest split start (show pos + (leBytes 8 value).length = pos + 8 by
    rw [length_leBytes])
  have value_eq : ofLeBytes (leBytes 8 value) = value := ofLeBytes_leBytes_of_lt (by omega)
  rw [readU64, field]
  exact congrArg Except.ok value_eq

theorem readU16_middle {data : Bytes} (before rest : Bytes) {pos value : Nat}
    (split : data = before ++ leBytes 2 value ++ rest) (start : before.length = pos)
    (fits : value < 2 ^ 16) : readU16 data pos = .ok value := by
  have value_eq : ofLeBytes (leBytes 2 value) = value := ofLeBytes_leBytes_of_lt (by omega)
  have low : data[pos]? = some (UInt8.ofNat value) := by
    simp [split, ← start, leBytes]
  have high : data[pos + 1]? = some (UInt8.ofNat (value / 256)) := by
    simp [split, ← start, leBytes]
  simp only [readU16, getAt, low, high]
  exact congrArg Except.ok value_eq

theorem FrameBody.decode_encode {body : FrameBody} (fits : body.Fits) {data : Bytes} (before : Bytes)
    {pos : Nat} (split : data = before ++ body.encode) (start : before.length = pos) :
    FrameBody.decode data pos = .ok body := by
  unfold FrameBody.decode
  cases body with
  | full bytes =>
    have kind : getAt data pos = .ok BODY_FULL := by
      simp [getAt, split, ← start, FrameBody.encode]
    have tail : slice data (pos + 1) data.length = .ok bytes :=
      slice_middle (before ++ [BODY_FULL]) []
        (by simpa [FrameBody.encode] using split) (by simp [start])
        (by simp only [split, FrameBody.encode, List.length_append, List.length_cons]; omega)
    rw [kind, Fallible.lift_ok_bind, if_pos rfl, tail]
    rfl
  | diff base bytes =>
    have kind : getAt data pos = .ok BODY_DIFF := by
      simp [getAt, split, ← start, FrameBody.encode]
    have length : data.length = pos + 9 + bytes.length := by
      simp only [split, FrameBody.encode, List.length_append, List.length_cons, length_leBytes]
      omega
    have base_eq : readU64 data (pos + 1) = .ok base :=
      readU64_middle (before ++ [BODY_DIFF]) bytes
        (by simpa [FrameBody.encode] using split) (by simp [start]) fits
    have tail : slice data (pos + 9) data.length = .ok bytes :=
      slice_middle (before ++ [BODY_DIFF] ++ leBytes 8 base) []
        (by simpa [FrameBody.encode] using split) (by simp [start]) (by omega)
    rw [kind, Fallible.lift_ok_bind, if_neg (by decide), if_pos rfl, if_neg (by omega), base_eq,
      Fallible.lift_ok_bind, tail]
    rfl
  | empty =>
    have kind : getAt data pos = .ok BODY_EMPTY := by
      simp [getAt, split, ← start, FrameBody.encode]
    rw [kind, Fallible.lift_ok_bind, if_neg (by decide), if_neg (by decide), if_pos rfl]
    rfl

theorem FrameBody.length_encode (body : FrameBody) :
    1 + body.fixedLength ≤ body.encode.length := by
  cases body with
  | full bytes => simp [FrameBody.encode, FrameBody.fixedLength]
  | diff base bytes =>
    simp [FrameBody.encode, FrameBody.fixedLength]
  | empty => simp [FrameBody.encode, FrameBody.fixedLength]

theorem ServerFrame.decode_encode {f : ServerFrame} (fits : f.Fits) :
    ServerFrame.decode f.encode = .ok f := by
  obtain ⟨carried, frameNum, inputAck, echoAck, body⟩ := fits
  have head := decodeFlagsAndCaps_encodeHead carried
    (leBytes 8 f.frameNum ++ leBytes 8 f.inputAck ++ leBytes 8 f.echoAck ++ f.body.encode)
  have shape : f.encode = encodeHead f.flags f.caps ++
      (leBytes 8 f.frameNum ++ leBytes 8 f.inputAck ++ leBytes 8 f.echoAck ++ f.body.encode) := by
    simp [ServerFrame.encode]
  have long : ¬ f.encode.length < (encodeHead f.flags f.caps).length + 25 := by
    have := f.body.length_encode
    simp only [ServerFrame.encode, List.length_append, length_leBytes]
    omega
  have first : readU64 f.encode (encodeHead f.flags f.caps).length = .ok f.frameNum :=
    readU64_middle (encodeHead f.flags f.caps)
      (leBytes 8 f.inputAck ++ leBytes 8 f.echoAck ++ f.body.encode)
      (by simp [ServerFrame.encode]) rfl frameNum
  have second : readU64 f.encode ((encodeHead f.flags f.caps).length + 8) = .ok f.inputAck :=
    readU64_middle (encodeHead f.flags f.caps ++ leBytes 8 f.frameNum)
      (leBytes 8 f.echoAck ++ f.body.encode) (by simp [ServerFrame.encode])
      (by simp) inputAck
  have third : readU64 f.encode ((encodeHead f.flags f.caps).length + 16) = .ok f.echoAck :=
    readU64_middle
      (encodeHead f.flags f.caps ++ leBytes 8 f.frameNum ++ leBytes 8 f.inputAck)
      f.body.encode (by simp [ServerFrame.encode]) (by simp) echoAck
  have last : FrameBody.decode f.encode ((encodeHead f.flags f.caps).length + 24) = .ok f.body :=
    FrameBody.decode_encode body (encodeHead f.flags f.caps ++ leBytes 8 f.frameNum ++
      leBytes 8 f.inputAck ++ leBytes 8 f.echoAck) (by simp [ServerFrame.encode]) (by simp)
  rw [← shape] at head
  rw [ServerFrame.decode, head, Fallible.ok_bind]
  dsimp only
  rw [if_neg long, first, Fallible.lift_ok_bind, second, Fallible.lift_ok_bind, third,
    Fallible.lift_ok_bind, last, Fallible.ok_bind]
  rfl

theorem ClientMessage.decode_encode {m : ClientMessage} (fits : m.Fits) :
    ClientMessage.decode m.encode = .ok m := by
  obtain ⟨carried, ackedFrame, rows, cols, inputBase⟩ := fits
  have head := decodeFlagsAndCaps_encodeHead carried
    (leBytes 8 m.ackedFrame ++ leBytes 2 m.rows ++ leBytes 2 m.cols ++ leBytes 8 m.inputBase ++
      m.input)
  have shape : m.encode = encodeHead m.flags m.caps ++
      (leBytes 8 m.ackedFrame ++ leBytes 2 m.rows ++ leBytes 2 m.cols ++ leBytes 8 m.inputBase ++
        m.input) := by
    simp [ClientMessage.encode]
  have length : m.encode.length = (encodeHead m.flags m.caps).length + 20 + m.input.length := by
    simp only [ClientMessage.encode, List.length_append, length_leBytes]
  have first : readU64 m.encode (encodeHead m.flags m.caps).length = .ok m.ackedFrame :=
    readU64_middle (encodeHead m.flags m.caps)
      (leBytes 2 m.rows ++ leBytes 2 m.cols ++ leBytes 8 m.inputBase ++ m.input)
      (by simp [ClientMessage.encode]) rfl ackedFrame
  have second : readU16 m.encode ((encodeHead m.flags m.caps).length + 8) = .ok m.rows :=
    readU16_middle (encodeHead m.flags m.caps ++ leBytes 8 m.ackedFrame)
      (leBytes 2 m.cols ++ leBytes 8 m.inputBase ++ m.input)
      (by simp [ClientMessage.encode]) (by simp) rows
  have third : readU16 m.encode ((encodeHead m.flags m.caps).length + 10) = .ok m.cols :=
    readU16_middle
      (encodeHead m.flags m.caps ++ leBytes 8 m.ackedFrame ++ leBytes 2 m.rows)
      (leBytes 8 m.inputBase ++ m.input)
      (by simp [ClientMessage.encode]) (by simp) cols
  have fourth : readU64 m.encode ((encodeHead m.flags m.caps).length + 12) = .ok m.inputBase :=
    readU64_middle (encodeHead m.flags m.caps ++ leBytes 8 m.ackedFrame ++
      leBytes 2 m.rows ++ leBytes 2 m.cols) m.input
      (by simp [ClientMessage.encode]) (by simp) inputBase
  have tail : slice m.encode ((encodeHead m.flags m.caps).length + 20) m.encode.length =
      .ok m.input :=
    slice_middle (encodeHead m.flags m.caps ++ leBytes 8 m.ackedFrame ++
      leBytes 2 m.rows ++ leBytes 2 m.cols ++ leBytes 8 m.inputBase) []
      (by simp [ClientMessage.encode]) (by simp) (by omega)
  rw [← shape] at head
  rw [ClientMessage.decode, head, Fallible.ok_bind]
  dsimp only
  rw [if_neg (by omega), first, Fallible.lift_ok_bind, second, Fallible.lift_ok_bind, third,
    Fallible.lift_ok_bind, fourth, Fallible.lift_ok_bind, tail, Fallible.lift_ok_bind]
  rfl

/-! ### Malformed input -/

theorem readU64_yields (data : Bytes) (pos : Nat) (inside : pos + 8 ≤ data.length) :
    ∃ value, readU64 data pos = .ok value := by
  obtain ⟨field, eq, -⟩ := Yields.slice (Nat.le_add_right pos 8) inside
  exact ⟨ofLeBytes field, by rw [readU64, eq]; rfl⟩

theorem readU16_yields (data : Bytes) (pos : Nat) (inside : pos + 2 ≤ data.length) :
    ∃ value, readU16 data pos = .ok value := by
  refine ⟨ofLeBytes [data[pos], data[pos + 1]], ?_⟩
  rw [readU16, getAt_eq_ok (by omega), getAt_eq_ok (by omega)]
  rfl

theorem slice_tail_yields (data : Bytes) (pos : Nat) (inside : pos ≤ data.length) :
    ∃ tail, slice data pos data.length = .ok tail :=
  ⟨_, if_pos ⟨inside, Nat.le_refl _⟩⟩

theorem FrameBody.decode_returns {data : Bytes} {pos : Nat} (inside : pos < data.length) :
    Returns True (FrameBody.decode data pos) fun _ => True := by
  unfold FrameBody.decode
  rw [getAt_eq_ok inside, Fallible.lift_ok_bind]
  by_cases full : data[pos] = BODY_FULL
  · obtain ⟨tail, eq⟩ := slice_tail_yields data _ inside
    rw [if_pos full, eq]
    trivial
  · rw [if_neg full]
    by_cases diff : data[pos] = BODY_DIFF
    · rw [if_pos diff]
      by_cases short : data.length < pos + 9
      · rw [if_pos short]
        trivial
      · obtain ⟨base, base_eq⟩ := readU64_yields data (pos + 1) (by omega)
        obtain ⟨tail, eq⟩ := slice_tail_yields data (pos + 9) (by omega)
        rw [if_neg short, base_eq, Fallible.lift_ok_bind, eq]
        trivial
    · rw [if_neg diff]
      by_cases empty : data[pos] = BODY_EMPTY
      · rw [if_pos empty]
        trivial
      · rw [if_neg empty]
        trivial

/-- Whatever bytes it is given, the decoder stays inside them, and the flags it returns are
without the extension bit. -/
theorem ServerFrame.decode_returns (data : Bytes) :
    Returns True (ServerFrame.decode data) fun f => f.flags &&& FLAG_EXTENSION = 0 := by
  unfold ServerFrame.decode
  cases head : decodeFlagsAndCaps data with
  | fail e => trivial
  | panic p => exact absurd head (local_decodeFlagsAndCaps.total data p)
  | ok r =>
    obtain ⟨⟨flags, caps⟩, pos⟩ := r
    rw [Fallible.ok_bind]
    dsimp only
    by_cases short : data.length < pos + 25
    · rw [if_pos short]
      trivial
    · obtain ⟨frameNum, first⟩ := readU64_yields data pos (by omega)
      obtain ⟨inputAck, second⟩ := readU64_yields data (pos + 8) (by omega)
      obtain ⟨echoAck, third⟩ := readU64_yields data (pos + 16) (by omega)
      rw [if_neg short, first, Fallible.lift_ok_bind, second, Fallible.lift_ok_bind, third,
        Fallible.lift_ok_bind]
      exact (FrameBody.decode_returns (by omega)).bind fun body _ =>
        .pure (reserved_of_decodeFlagsAndCaps head)

theorem ClientMessage.decode_returns (data : Bytes) :
    Returns True (ClientMessage.decode data) fun m => m.flags &&& FLAG_EXTENSION = 0 := by
  unfold ClientMessage.decode
  cases head : decodeFlagsAndCaps data with
  | fail e => trivial
  | panic p => exact absurd head (local_decodeFlagsAndCaps.total data p)
  | ok r =>
    obtain ⟨⟨flags, caps⟩, pos⟩ := r
    rw [Fallible.ok_bind]
    dsimp only
    by_cases short : data.length < pos + 20
    · rw [if_pos short]
      trivial
    · obtain ⟨ackedFrame, first⟩ := readU64_yields data pos (by omega)
      obtain ⟨rows, second⟩ := readU16_yields data (pos + 8) (by omega)
      obtain ⟨cols, third⟩ := readU16_yields data (pos + 10) (by omega)
      obtain ⟨inputBase, fourth⟩ := readU64_yields data (pos + 12) (by omega)
      obtain ⟨input, tail⟩ := slice_tail_yields data (pos + 20) (by omega)
      rw [if_neg short, first, Fallible.lift_ok_bind, second, Fallible.lift_ok_bind, third,
        Fallible.lift_ok_bind, fourth, Fallible.lift_ok_bind, tail, Fallible.lift_ok_bind]
      exact .pure (reserved_of_decodeFlagsAndCaps head)

/-! ### Messages that were cut off -/

/-- Cut off in the head, a message is rejected, and cut off behind it, its head is read. -/
theorem head_of_prefix {flags : UInt8} {caps : List Cap} (carried : Carried flags caps)
    {front back fields : Bytes} (split : front ++ back = encodeHead flags caps ++ fields) :
    (∃ e, decodeFlagsAndCaps front = .fail e) ∨
      decodeFlagsAndCaps front = .ok ((flags, caps), (encodeHead flags caps).length) := by
  have whole := decodeFlagsAndCaps_encodeHead carried fields
  rw [← split] at whole
  exact local_decodeFlagsAndCaps.prefix_cases whole

theorem ServerFrame.decode_cut {f : ServerFrame} (fits : f.Fits) {front : Bytes}
    (front_le : front <+: f.encode) (short : front.length < f.fixedLength) :
    ∃ e, ServerFrame.decode front = .fail e := by
  obtain ⟨back, split⟩ := front_le
  have shape : f.encode = encodeHead f.flags f.caps ++
      (leBytes 8 f.frameNum ++ leBytes 8 f.inputAck ++ leBytes 8 f.echoAck ++ f.body.encode) := by
    simp [ServerFrame.encode]
  unfold ServerFrame.decode
  rcases head_of_prefix fits.head (split.trans shape) with ⟨e, rejected⟩ | head
  · exact ⟨e, by rw [rejected, Fallible.fail_bind]⟩
  · rw [head, Fallible.ok_bind]
    dsimp only
    set pos := (encodeHead f.flags f.caps).length with pos_eq
    by_cases fixed : front.length < pos + 25
    · exact ⟨_, if_pos fixed⟩
    · obtain ⟨frameNum, first⟩ := readU64_yields front pos (by omega)
      obtain ⟨inputAck, second⟩ := readU64_yields front (pos + 8) (by omega)
      obtain ⟨echoAck, third⟩ := readU64_yields front (pos + 16) (by omega)
      rw [if_neg fixed, first, Fallible.lift_ok_bind, second, Fallible.lift_ok_bind, third,
        Fallible.lift_ok_bind]
      -- only a diff has more fixed fields, and its kind byte is there
      have kind : front[pos + 24]? = f.body.encode[0]? := by
        have inside : (front ++ back)[pos + 24]? = front[pos + 24]? :=
          List.getElem?_append_left (by omega)
        rw [← inside, split, shape, List.getElem?_append_right (by omega),
          List.getElem?_append_right (by simp; omega)]
        simp [pos_eq]
      unfold ServerFrame.fixedLength at short
      cases body : f.body with
      | full bytes =>
        simp only [body, FrameBody.fixedLength] at short
        omega
      | empty =>
        simp only [body, FrameBody.fixedLength] at short
        omega
      | diff base bytes =>
        simp only [body, FrameBody.fixedLength] at short
        have kind_eq : getAt front (pos + 24) = .ok BODY_DIFF := by
          rw [getAt, kind, body]
          rfl
        refine ⟨"diff frame too short", ?_⟩
        rw [FrameBody.decode, kind_eq, Fallible.lift_ok_bind, if_neg (by decide), if_pos rfl,
          if_pos (by omega)]
        rfl

theorem ClientMessage.decode_cut {m : ClientMessage} (fits : m.Fits) {front : Bytes}
    (front_le : front <+: m.encode) (short : front.length < m.fixedLength) :
    ∃ e, ClientMessage.decode front = .fail e := by
  obtain ⟨back, split⟩ := front_le
  have shape : m.encode = encodeHead m.flags m.caps ++
      (leBytes 8 m.ackedFrame ++ leBytes 2 m.rows ++ leBytes 2 m.cols ++ leBytes 8 m.inputBase ++
        m.input) := by
    simp [ClientMessage.encode]
  unfold ClientMessage.decode
  rcases head_of_prefix fits.head (split.trans shape) with ⟨e, rejected⟩ | head
  · exact ⟨e, by rw [rejected, Fallible.fail_bind]⟩
  · rw [head, Fallible.ok_bind]
    exact ⟨_, if_pos short⟩

/-- What is encoded is decoded, no byte string makes the decoders read past its end or
return the extension bit, and a message cut off in its head or its fixed fields is
rejected. -/
theorem wire_codec_exact :
    (∀ f : ServerFrame, f.Fits → ServerFrame.decode f.encode = .ok f) ∧
    (∀ m : ClientMessage, m.Fits → ClientMessage.decode m.encode = .ok m) ∧
    (∀ data, Returns True (ServerFrame.decode data) fun f => f.flags &&& FLAG_EXTENSION = 0) ∧
    (∀ data, Returns True (ClientMessage.decode data) fun m => m.flags &&& FLAG_EXTENSION = 0) ∧
    (∀ f : ServerFrame, f.Fits → ∀ front, front <+: f.encode → front.length < f.fixedLength →
      ∃ e, ServerFrame.decode front = .fail e) ∧
    ∀ m : ClientMessage, m.Fits → ∀ front, front <+: m.encode → front.length < m.fixedLength →
      ∃ e, ClientMessage.decode front = .fail e :=
  ⟨fun _ => ServerFrame.decode_encode, fun _ => ClientMessage.decode_encode,
    ServerFrame.decode_returns, ClientMessage.decode_returns,
    fun _ fits _ => ServerFrame.decode_cut fits, fun _ fits _ => ClientMessage.decode_cut fits⟩

/-- A diff frame of a server that shuts down with exit status 3. -/
def lastDiff : ServerFrame :=
  { flags := FLAG_SHUTDOWN
    caps := ownTable [⟨CAP_EXIT_STATUS, [3]⟩]
    frameNum := 9
    inputAck := 4
    echoAck := 4
    body := .diff 8 (makeDiff [104] [104, 105]) }

/-- The first message of a client. -/
def firstMessage : ClientMessage :=
  { flags := 0
    caps := ownTable []
    ackedFrame := 0
    rows := 24
    cols := 80
    inputBase := 0
    input := [104] }

theorem fits_lastDiff : lastDiff.Fits :=
  ⟨⟨by decide, by decide, by decide⟩, by decide, by decide, by decide,
    show 8 < 2 ^ 64 by decide⟩

theorem fits_firstMessage : firstMessage.Fits :=
  ⟨⟨by decide, by decide, by decide⟩, by decide, by decide, by decide, by decide⟩

theorem wire_codec_exact_samples :
    ServerFrame.decode lastDiff.encode = .ok lastDiff ∧
    ClientMessage.decode firstMessage.encode = .ok firstMessage ∧
    (∃ e, ServerFrame.decode (lastDiff.encode.take 39) = .fail e) ∧
    ∃ e, ClientMessage.decode (firstMessage.encode.take 3) = .fail e :=
  ⟨wire_codec_exact.1 _ fits_lastDiff, wire_codec_exact.2.1 _ fits_firstMessage,
    wire_codec_exact.2.2.2.2.1 _ fits_lastDiff _ (List.take_prefix ..) (by decide),
    wire_codec_exact.2.2.2.2.2 _ fits_firstMessage _ (List.take_prefix ..) (by decide)⟩

end Posh.Remote
