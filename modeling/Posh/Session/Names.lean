import Posh.Lib.Utf8Prefix

/-!
Session names as file names (`util.rs`, `Config::socket_path`).

A name is encoded byte by byte, but each byte that stays as it is becomes a character of
its own. Decoding comes to the bytes of these characters: the name again where every
character of it is ASCII, its bytes read as Latin-1 elsewhere. Two names still never have
one encoding.
-/

namespace Posh.Session

open Posh.Lib

def HEX : List Char := "0123456789ABCDEF".toList

/-- `HEX[n]` -/
def hexChar (n : Nat) : Char :=
  HEX.getD n '0'

/-- `b as char` -/
def asChar (b : UInt8) : Char :=
  Char.ofNat b.toNat

def filenameSafe (ch : UInt8) : Bool :=
  ch != 0x2F && ch != 0x5C && ch != 0x25 && ch != 0

/-- What one byte of a name becomes. -/
def encodeByte (b : UInt8) : List Char :=
  if filenameSafe b then [asChar b] else ['%', hexChar (b.toNat / 16), hexChar (b.toNat % 16)]

def encodeSessionName (name : List Char) : List Char :=
  (toUtf8 name).flatMap encodeByte

/-- The loop of `decode_session_name`. -/
def decodeBytes : Bytes → Bytes
  | b :: hi :: lo :: rest =>
      if b = 0x25 then
        match digitOf 16 (asChar hi), digitOf 16 (asChar lo) with
        | some hi, some lo => UInt8.ofNat (hi * 16 + lo) :: decodeBytes rest
        | _, _ => b :: decodeBytes (hi :: lo :: rest)
      else b :: decodeBytes (hi :: lo :: rest)
  | short => short

def decodeSessionName (encoded : List Char) : List Char :=
  fromUtf8Lossy (decodeBytes (toUtf8 encoded))

/-- `sockaddr_un` holds 108 bytes, the NUL among them. -/
def MAX_SOCKET_PATH : Nat := 107

/-- `Path::join` of a path without a separator at its start. -/
def joinPath (dir file : List Char) : List Char :=
  if dir = [] ∨ dir.getLast? = some '/' then dir ++ file else dir ++ '/' :: file

structure Config where
  socketDir : List Char
deriving DecidableEq, Repr

namespace Config

def socketPath (cfg : Config) (name : List Char) : Except String (List Char) :=
  let path := joinPath cfg.socketDir (encodeSessionName name)
  let length := utf8Length path
  let shown := String.ofList path
  if length > MAX_SOCKET_PATH then
    .error s!"socket path too long ({length} bytes, max {MAX_SOCKET_PATH}): {shown}"
  else .ok path

end Config

/-- The name that `cmd_list` shows for a file of the directory. -/
def listedName (fileName : Bytes) : List Char :=
  decodeSessionName (fromUtf8Lossy fileName)

/-! ### Encoding -/

theorem asChar_toNat (b : UInt8) : (asChar b).toNat = b.toNat := by
  have small := b.toNat_lt
  exact toNat_ofNat_of_valid (by omega)

theorem asChar_inj {b b' : UInt8} (same : asChar b = asChar b') : b = b' := by
  have values := congrArg Char.toNat same
  rw [asChar_toNat, asChar_toNat] at values
  exact UInt8.toNat_inj.mp values

/-- The characters of an escape. -/
theorem escape_spec : ∀ n < 16, (hexChar n).toNat < 0x80 ∧ hexChar n ∉ ['/', '\\', '\x00'] ∧
    digitOf 16 (asChar (UInt8.ofNat (hexChar n).toNat)) = some n := by
  decide +kernel

theorem not_mem_encodeByte (b : UInt8) : ∀ c ∈ encodeByte b, c ∉ ['/', '\\', '\x00'] := by
  intro c mem
  unfold encodeByte at mem
  split at mem
  · rename_i safe
    simp only [List.mem_singleton] at mem
    subst mem
    simp only [filenameSafe, Bool.and_eq_true, bne_iff_ne] at safe
    obtain ⟨⟨⟨slash, backslash⟩, -⟩, nul⟩ := safe
    simp only [List.mem_cons, List.not_mem_nil, or_false, not_or]
    exact ⟨fun same => slash (asChar_inj same), fun same => backslash (asChar_inj same),
      fun same => nul (asChar_inj same)⟩
  · have small := b.toNat_lt
    simp only [List.mem_cons, List.not_mem_nil, or_false] at mem
    rcases mem with rfl | rfl | rfl
    · decide
    · exact (escape_spec (b.toNat / 16) (by omega)).2.1
    · exact (escape_spec (b.toNat % 16) (by omega)).2.1

/-- No byte of an encoding ends or climbs a path. -/
theorem not_mem_encode (name : List Char) : ∀ c ∈ encodeSessionName name, c ∉ ['/', '\\', '\x00'] := by
  intro c mem
  obtain ⟨b, -, inside⟩ := List.mem_flatMap.mp mem
  exact not_mem_encodeByte b c inside

/-! ### Decoding -/

theorem decodeBytes_cons {b : UInt8} (plain : b ≠ 0x25) (rest : Bytes) :
    decodeBytes (b :: rest) = b :: decodeBytes rest := by
  match rest with
  | [] => rfl
  | [lo] => rfl
  | hi :: lo :: rest => rw [decodeBytes, if_neg plain]

theorem decodeBytes_append {pre : Bytes} (plain : ∀ b ∈ pre, b ≠ 0x25) (rest : Bytes) :
    decodeBytes (pre ++ rest) = pre ++ decodeBytes rest := by
  induction pre with
  | nil => rfl
  | cons b pre ih =>
    rw [List.cons_append, decodeBytes_cons (plain b List.mem_cons_self),
      ih fun b mem => plain b (List.mem_cons_of_mem _ mem)]
    rfl

/-- What a byte was encoded as comes back as one character. -/
theorem decodeBytes_encodeByte (b : UInt8) (rest : Bytes) :
    decodeBytes (toUtf8 (encodeByte b) ++ rest) = toUtf8 [asChar b] ++ decodeBytes rest := by
  unfold encodeByte
  split
  · rename_i safe
    refine decodeBytes_append ?_ rest
    rintro x mem rfl
    simp only [filenameSafe, Bool.and_eq_true, bne_iff_ne] at safe
    simp only [toUtf8, List.flatMap_cons, List.flatMap_nil, List.append_nil] at mem
    rcases mem_utf8EncodeChar mem with same | high
    · rw [asChar_toNat] at same
      exact safe.1.2 (UInt8.toNat_inj.mp same.symm)
    · exact absurd high (by decide)
  · rename_i escaped
    have small := b.toNat_lt
    obtain ⟨hi_ascii, -, hi⟩ := escape_spec (b.toNat / 16) (by omega)
    obtain ⟨lo_ascii, -, lo⟩ := escape_spec (b.toNat % 16) (by omega)
    have ascii : b.toNat < 0x80 := by
      simp only [filenameSafe, Bool.and_eq_true, bne_iff_ne, ne_eq] at escaped
      by_contra high
      refine escaped ⟨⟨⟨?_, ?_⟩, ?_⟩, ?_⟩ <;> (rintro rfl; exact high (by decide))
    have escape : toUtf8 ['%', hexChar (b.toNat / 16), hexChar (b.toNat % 16)] =
        [0x25, UInt8.ofNat (hexChar (b.toNat / 16)).toNat,
          UInt8.ofNat (hexChar (b.toNat % 16)).toNat] :=
      toUtf8_ascii (by simp [hi_ascii, lo_ascii])
    have single : toUtf8 [asChar b] = [b] := by
      rw [toUtf8_ascii (by simpa [asChar_toNat] using ascii), List.map_singleton, asChar_toNat,
        UInt8.ofNat_toNat]
    have value : b.toNat / 16 * 16 + b.toNat % 16 = b.toNat := by omega
    rw [escape, single]
    simp only [List.cons_append, List.nil_append]
    rw [decodeBytes, if_pos rfl, hi, lo]
    change UInt8.ofNat (b.toNat / 16 * 16 + b.toNat % 16) :: _ = _
    rw [value, UInt8.ofNat_toNat]

theorem decodeBytes_flatMap (bytes : Bytes) :
    decodeBytes (toUtf8 (bytes.flatMap encodeByte)) = toUtf8 (bytes.map asChar) := by
  induction bytes with
  | nil => rfl
  | cons b bytes ih =>
    rw [List.flatMap_cons, toUtf8_append, decodeBytes_encodeByte, ih, ← toUtf8_append]
    rfl

/-- A name comes back as its bytes, each a character. -/
theorem decode_encode (name : List Char) :
    decodeSessionName (encodeSessionName name) = (toUtf8 name).map asChar := by
  unfold decodeSessionName encodeSessionName
  rw [decodeBytes_flatMap, fromUtf8Lossy_toUtf8]

theorem utf8Size_eq_one_iff {c : Char} : c.utf8Size = 1 ↔ c.toNat < 0x80 := by
  rw [Char.utf8Size_eq_one_iff]
  exact ⟨fun le => Nat.lt_succ_of_le (UInt32.le_iff_toNat_le.mp le),
    fun lt => UInt32.le_iff_toNat_le.mpr (Nat.le_of_lt_succ lt)⟩

theorem map_asChar_iff {name : List Char} :
    (toUtf8 name).map asChar = name ↔ ∀ c ∈ name, c.toNat < 0x80 := by
  constructor
  · intro same c mem
    -- A character of several bytes would make the result longer.
    have length := congrArg List.length same
    rw [List.length_map, length_toUtf8] at length
    obtain ⟨before, after, rfl⟩ := List.append_of_mem mem
    have first := length_le_utf8Length before
    have last := length_le_utf8Length after
    have pos := Char.utf8Size_pos c
    simp only [utf8Length_append, utf8Length_cons, List.length_append, List.length_cons] at length
    exact utf8Size_eq_one_iff.mp (by omega)
  · intro ascii
    rw [toUtf8_ascii ascii, List.map_map]
    conv_rhs => rw [← List.map_id name]
    refine List.map_congr_left fun c mem => Char.toNat_inj.mp ?_
    have here := ascii c mem
    change (asChar (UInt8.ofNat c.toNat)).toNat = c.toNat
    rw [asChar_toNat, UInt8.toNat_ofNat']
    omega

/-- Two names never have one file name. -/
theorem encode_inj {name name' : List Char}
    (same : encodeSessionName name = encodeSessionName name') : name = name' := by
  have decoded := congrArg decodeSessionName same
  rw [decode_encode, decode_encode] at decoded
  have bytes : toUtf8 name = toUtf8 name' := List.map_injective_iff.mpr (fun _ _ => asChar_inj) decoded
  have texts := congrArg fromUtf8 bytes
  rw [fromUtf8_toUtf8, fromUtf8_toUtf8] at texts
  exact Option.some.inj texts

theorem joinPath_inj {dir file file' : List Char} (same : joinPath dir file = joinPath dir file') :
    file = file' := by
  unfold joinPath at same
  split at same
  · exact List.append_cancel_left same
  · exact (List.cons.inj (List.append_cancel_left same)).2

theorem Config.socketPath_eq {cfg : Config} {name path : List Char}
    (found : cfg.socketPath name = .ok path) : path = joinPath cfg.socketDir (encodeSessionName name) := by
  unfold Config.socketPath at found
  dsimp only at found
  split at found
  · cases found
  · cases found
    rfl

/-- A name comes back from its file exactly where it is ASCII; whatever it is, its file
name is a single one, and no other name's. -/
theorem names_survive_iff (name : List Char) :
    (decodeSessionName (encodeSessionName name) = name ↔ ∀ c ∈ name, c.toNat < 0x80) ∧
    (listedName (toUtf8 (encodeSessionName name)) = name ↔ ∀ c ∈ name, c.toNat < 0x80) ∧
    (∀ c ∈ encodeSessionName name, c ∉ ['/', '\\', '\x00']) ∧
    ∀ (cfg : Config) (name' path : List Char), cfg.socketPath name = .ok path →
      cfg.socketPath name' = .ok path → name = name' := by
  refine ⟨?_, ?_, not_mem_encode name, ?_⟩
  · rw [decode_encode, map_asChar_iff]
  · unfold listedName
    rw [fromUtf8Lossy_toUtf8, decode_encode, map_asChar_iff]
  · intro cfg name' path found found'
    have same := (cfg.socketPath_eq found).symm.trans (cfg.socketPath_eq found')
    exact encode_inj (joinPath_inj same)

theorem names_survive_iff_nested : "a/b".toList = "a/b".toList :=
  (names_survive_iff _).2.2.2 ⟨"/run/posh".toList⟩ _ "/run/posh/a%2Fb".toList (by decide +kernel)
    (by decide +kernel)

/-- An accented letter is shown as two. -/
theorem name_garbled : decodeSessionName (encodeSessionName "é".toList) = "Ã©".toList ∧
    encodeSessionName "Ã©".toList ≠ encodeSessionName "é".toList := by
  decide +kernel

end Posh.Session
