import Posh.Lib.Reader
import Posh.Lib.Utf8Prefix

/-!
The record a session daemon answers with (`SessionInfo` of `ipc.rs`), and the command that
a fork takes from it.

The arguments are joined with NULs, cut at 256 bytes and decoded as text; the pieces
between NULs that are not empty are the arguments again.
-/

namespace Posh.Session

open Posh.Lib

def MAX_CMD_LEN : Nat := 256
def MAX_CWD_LEN : Nat := 256
def INFO_LEN : Nat := 8 + 4 + 2 + 2 + MAX_CMD_LEN + MAX_CWD_LEN

structure SessionInfo where
  clients : UInt64
  pid : Int32
  cmd : List Char
  cwd : List Char
deriving DecidableEq

/-- `Vec::resize` with zeros. -/
def resize (n : Nat) (out : Bytes) : Bytes :=
  out.take n ++ List.replicate (n - out.length) 0

/-- `argv.join("\0")` -/
def joinArgs (argv : List (List Char)) : List Char :=
  ['\x00'].intercalate argv

namespace SessionInfo

/-- The session command as an argv vector. -/
def cmdArgv (info : SessionInfo) : List (List Char) :=
  (info.cmd.splitOn '\x00').filter (· ≠ [])

def encode (info : SessionInfo) : Bytes :=
  let cmd := toUtf8 info.cmd
  let cwd := toUtf8 info.cwd
  let cmdLen := min cmd.length MAX_CMD_LEN
  let cwdLen := min cwd.length MAX_CWD_LEN
  let out := leBytes 8 info.clients.toNat ++ leBytes 4 info.pid.toUInt32.toNat ++
    leBytes 2 cmdLen ++ leBytes 2 cwdLen ++ cmd.take cmdLen
  resize INFO_LEN (resize (16 + MAX_CMD_LEN) out ++ cwd.take cwdLen)

def decode (payload : Bytes) : Checked (Option SessionInfo) :=
  if payload.length ≠ INFO_LEN then .ok none
  else do
    let clients ← slice payload 0 8
    let pid ← slice payload 8 12
    let cmdLen ← slice payload 12 14
    let cwdLen ← slice payload 14 16
    let cmd ← slice payload 16 (16 + min (ofLeBytes cmdLen) MAX_CMD_LEN)
    let cwdStart := 16 + MAX_CMD_LEN
    let cwd ← slice payload cwdStart (cwdStart + min (ofLeBytes cwdLen) MAX_CWD_LEN)
    return some {
      clients := UInt64.ofNat (ofLeBytes clients)
      pid := (UInt32.ofNat (ofLeBytes pid)).toInt32
      cmd := fromUtf8Lossy cmd
      cwd := fromUtf8Lossy cwd }

/-! ### Any payload -/

/-- A payload is rejected for its length only, and never read out of range. -/
theorem decode_returns (payload : Bytes) :
    ∃ result, decode payload = .ok result ∧ (result = none ↔ payload.length ≠ INFO_LEN) := by
  unfold decode
  by_cases length : payload.length = INFO_LEN
  · have size : payload.length = 16 + MAX_CMD_LEN + MAX_CWD_LEN := length
    have all : ∀ lo hi, lo ≤ hi → hi ≤ 16 + MAX_CMD_LEN + MAX_CWD_LEN →
        slice payload lo hi = .ok ((payload.take hi).drop lo) := by
      intro lo hi le inside
      exact if_pos ⟨le, by omega⟩
    rw [if_neg (not_not_intro length), all 0 8 (by omega) (by omega), all 8 12 (by omega) (by omega),
      all 12 14 (by omega) (by omega), all 14 16 (by omega) (by omega)]
    simp only [bind, Except.bind]
    rw [all 16 _ (by omega) (by omega)]
    simp only
    rw [all (16 + MAX_CMD_LEN) _ (by omega) (by omega)]
    exact ⟨_, rfl, by simp [length]⟩
  · rw [if_pos length]
    exact ⟨none, rfl, by simp [length]⟩

/-! ### An encoded record -/

theorem resize_short {n : Nat} {out : Bytes} (short : out.length ≤ n) :
    resize n out = out ++ List.replicate (n - out.length) 0 := by
  rw [resize, List.take_of_length_le short]

/-- The record, field by field. -/
theorem encode_eq (clients : UInt64) (pid : Int32) (cmd cwd : List Char) :
    encode ⟨clients, pid, cmd, cwd⟩ = leBytes 8 clients.toNat ++ (leBytes 4 pid.toUInt32.toNat ++
      (leBytes 2 ((toUtf8 cmd).take MAX_CMD_LEN).length ++
        (leBytes 2 ((toUtf8 cwd).take MAX_CWD_LEN).length ++ ((toUtf8 cmd).take MAX_CMD_LEN ++
          (List.replicate (MAX_CMD_LEN - ((toUtf8 cmd).take MAX_CMD_LEN).length) 0 ++
            ((toUtf8 cwd).take MAX_CWD_LEN ++
              List.replicate (MAX_CWD_LEN - ((toUtf8 cwd).take MAX_CWD_LEN).length) 0)))))) := by
  have taken (bytes : Bytes) (n : Nat) : bytes.take (min bytes.length n) = bytes.take n ∧
      min bytes.length n = (bytes.take n).length ∧ (bytes.take n).length ≤ n := by
    refine ⟨List.take_eq_take_iff.mpr (by omega), by rw [List.length_take, Nat.min_comm],
      List.length_take_le _ _⟩
  obtain ⟨cmd_eq, cmd_len, cmd_short⟩ := taken (toUtf8 cmd) MAX_CMD_LEN
  obtain ⟨cwd_eq, cwd_len, cwd_short⟩ := taken (toUtf8 cwd) MAX_CWD_LEN
  unfold encode
  dsimp only
  rw [cmd_eq, cwd_eq, cmd_len, cwd_len]
  generalize (toUtf8 cmd).take MAX_CMD_LEN = cmdBytes at *
  generalize (toUtf8 cwd).take MAX_CWD_LEN = cwdBytes at *
  have sizes : INFO_LEN = 16 + MAX_CMD_LEN + MAX_CWD_LEN := rfl
  rw [@resize_short (16 + MAX_CMD_LEN) _ (by simp; omega), resize_short (by simp; omega)]
  simp only [List.append_assoc, List.length_append, length_leBytes, List.length_replicate]
  have pad : 16 + MAX_CMD_LEN - (8 + (4 + (2 + (2 + cmdBytes.length)))) = MAX_CMD_LEN - cmdBytes.length := by
    omega
  have pad' : INFO_LEN - (8 + (4 + (2 + (2 + (cmdBytes.length +
      (MAX_CMD_LEN - cmdBytes.length + cwdBytes.length)))))) = MAX_CWD_LEN - cwdBytes.length := by
    omega
  rw [pad, pad']

/-- Fields of the right lengths are read one by one. -/
theorem decode_fields {a b c d cmd pad cwd pad' : Bytes} (ha : a.length = 8) (hb : b.length = 4)
    (hc : c.length = 2) (hd : d.length = 2) (cmd_len : min (ofLeBytes c) MAX_CMD_LEN = cmd.length)
    (cwd_len : min (ofLeBytes d) MAX_CWD_LEN = cwd.length)
    (padded : cmd.length + pad.length = MAX_CMD_LEN)
    (padded' : cwd.length + pad'.length = MAX_CWD_LEN) :
    decode (a ++ (b ++ (c ++ (d ++ (cmd ++ (pad ++ (cwd ++ pad'))))))) = .ok (some {
      clients := UInt64.ofNat (ofLeBytes a)
      pid := (UInt32.ofNat (ofLeBytes b)).toInt32
      cmd := fromUtf8Lossy cmd
      cwd := fromUtf8Lossy cwd }) := by
  have sizes : INFO_LEN = 16 + MAX_CMD_LEN + MAX_CWD_LEN := rfl
  generalize whole : a ++ (b ++ (c ++ (d ++ (cmd ++ (pad ++ (cwd ++ pad')))))) = payload
  have length : payload.length = INFO_LEN := by
    rw [← whole]
    simp only [List.length_append]
    omega
  have first : slice payload 0 8 = .ok a :=
    slice_middle [] (b ++ (c ++ (d ++ (cmd ++ (pad ++ (cwd ++ pad')))))) whole.symm rfl (by omega)
  have second : slice payload 8 12 = .ok b :=
    slice_middle a (c ++ (d ++ (cmd ++ (pad ++ (cwd ++ pad'))))) (by simp [← whole]) ha (by omega)
  have third : slice payload 12 14 = .ok c :=
    slice_middle (a ++ b) (d ++ (cmd ++ (pad ++ (cwd ++ pad')))) (by simp [← whole])
      (by simp [ha, hb]) (by omega)
  have fourth : slice payload 14 16 = .ok d :=
    slice_middle (a ++ b ++ c) (cmd ++ (pad ++ (cwd ++ pad'))) (by simp [← whole])
      (by simp [ha, hb, hc]) (by omega)
  have fifth : slice payload 16 (16 + cmd.length) = .ok cmd :=
    slice_middle (a ++ b ++ c ++ d) (pad ++ (cwd ++ pad')) (by simp [← whole])
      (by simp [ha, hb, hc, hd]) rfl
  have sixth : slice payload (16 + MAX_CMD_LEN) (16 + MAX_CMD_LEN + cwd.length) = .ok cwd :=
    slice_middle (a ++ b ++ c ++ d ++ cmd ++ pad) pad' (by simp [← whole])
      (by simp only [List.length_append]; omega) rfl
  unfold decode
  rw [if_neg (not_not_intro length), first, second, third, fourth]
  simp only [bind, Except.bind, cmd_len, cwd_len, fifth, sixth]
  rfl

theorem decode_encode (info : SessionInfo) : decode info.encode = .ok (some {
    info with
    cmd := fromUtf8Lossy ((toUtf8 info.cmd).take MAX_CMD_LEN)
    cwd := fromUtf8Lossy ((toUtf8 info.cwd).take MAX_CWD_LEN) }) := by
  obtain ⟨clients, pid, cmd, cwd⟩ := info
  have cmd_short : ((toUtf8 cmd).take MAX_CMD_LEN).length ≤ MAX_CMD_LEN := List.length_take_le _ _
  have cwd_short : ((toUtf8 cwd).take MAX_CWD_LEN).length ≤ MAX_CWD_LEN := List.length_take_le _ _
  have sizes : MAX_CMD_LEN = 256 ∧ MAX_CWD_LEN = 256 := ⟨rfl, rfl⟩
  rw [encode_eq]
  dsimp only
  generalize (toUtf8 cmd).take MAX_CMD_LEN = cmdBytes at *
  generalize (toUtf8 cwd).take MAX_CWD_LEN = cwdBytes at *
  rw [decode_fields (length_leBytes 8 _) (length_leBytes 4 _) (length_leBytes 2 _)
    (length_leBytes 2 _)]
  · have clients_back : ofLeBytes (leBytes 8 clients.toNat) = clients.toNat :=
      ofLeBytes_leBytes_of_lt clients.toNat_lt
    have pid_back : ofLeBytes (leBytes 4 pid.toUInt32.toNat) = pid.toUInt32.toNat :=
      ofLeBytes_leBytes_of_lt pid.toUInt32.toNat_lt
    rw [clients_back, pid_back, UInt64.ofNat_toNat, UInt32.ofNat_toNat]
    rfl
  · rw [ofLeBytes_leBytes_of_lt (by omega)]
    omega
  · rw [ofLeBytes_leBytes_of_lt (by omega)]
    omega
  · rw [List.length_replicate]
    omega
  · rw [List.length_replicate]
    omega

end SessionInfo

/-! ### The arguments -/

variable {argv : List (List Char)}

/-- Leaving out pieces leaves out characters. -/
theorem intercalate_filter_sublist (sep : Char) (p : List Char → Bool) (pieces : List (List Char)) :
    ([sep].intercalate (pieces.filter p)).Sublist ([sep].intercalate pieces) := by
  induction pieces with
  | nil => exact .slnil
  | cons piece pieces ih =>
    by_cases last : pieces = []
    · subst last
      by_cases kept : p piece = true
      · rw [List.filter_cons_of_pos kept]
        exact .refl _
      · rw [List.filter_cons_of_neg kept]
        exact List.nil_sublist _
    · rw [List.intercalate_cons_of_ne_nil last]
      by_cases kept : p piece = true
      · rw [List.filter_cons_of_pos kept]
        by_cases none_ : pieces.filter p = []
        · rw [none_, List.intercalate_singleton, List.append_assoc]
          exact List.sublist_append_left _ _
        · rw [List.intercalate_cons_of_ne_nil none_]
          exact (List.Sublist.refl _).append ih
      · rw [List.filter_cons_of_neg kept]
        exact ih.trans (List.sublist_append_right _ _)

theorem splitOn_joinArgs (separate : ∀ arg ∈ argv, '\x00' ∉ arg) (full : ∀ arg ∈ argv, arg ≠ []) :
    ((joinArgs argv).splitOn '\x00').filter (· ≠ []) = argv := by
  by_cases some_ : argv = []
  · subst some_
    rfl
  · unfold joinArgs
    rw [List.splitOn_intercalate _ separate some_]
    exact List.filter_eq_self.mpr fun arg mem => decide_eq_true (full arg mem)

/-- The joined arguments fit the record, or all that is cut off is the end of a
replacement character, which cutting off puts back. -/
def Fits (joined : List Char) : Prop :=
  utf8Length joined ≤ MAX_CMD_LEN ∨
    utf8Length joined ≤ MAX_CMD_LEN + 2 ∧ joined.getLast? = some (Char.ofNat 0xFFFD)

/-- What comes back of a joined text that does not fit is less of it. -/
theorem fits_of_sublist {joined : List Char}
    (whole : joined.Sublist (fromUtf8Lossy ((toUtf8 joined).take MAX_CMD_LEN))) : Fits joined := by
  by_cases short : utf8Length joined ≤ MAX_CMD_LEN
  · exact .inl short
  right
  have length : ((toUtf8 joined).take MAX_CMD_LEN).length = MAX_CMD_LEN := by
    rw [List.length_take, length_toUtf8]
    omega
  have excess : 0 < ((toUtf8 joined).drop MAX_CMD_LEN).length := by
    rw [List.length_drop, length_toUtf8]
    omega
  obtain ⟨pre, tail, rest, split, ⟨before, shape⟩, after⟩ :=
    exists_cut (List.take_append_drop MAX_CMD_LEN (toUtf8 joined))
  have some_rest : rest ≠ [] := by
    rintro rfl
    rw [(List.append_eq_nil_iff.mp after).2] at excess
    exact absurd excess (Nat.lt_irrefl 0)
  have pos := List.length_pos_iff.mpr some_rest
  rw [before] at whole length
  rw [List.length_append, length_toUtf8] at length
  rcases shape with rfl | begun
  · -- The cut is between characters: some are missing.
    rw [List.append_nil, fromUtf8Lossy_toUtf8, split] at whole
    have fewer := whole.length_le
    rw [List.length_append] at fewer
    omega
  · -- The cut is inside a character, which must be the last, and a replacement.
    rw [fromUtf8Lossy_begun pre begun] at whole
    have most := whole.length_le
    rw [split, List.length_append, List.length_append, List.length_singleton] at most
    have same := whole.eq_of_length (by
      rw [split, List.length_append, List.length_append, List.length_singleton]
      omega)
    obtain ⟨c, more, some_, -⟩ := begun
    have tail_pos := List.length_pos_iff.mpr some_
    rw [same]
    refine ⟨?_, List.getLast?_concat⟩
    rw [utf8Length_append]
    change utf8Length pre + 3 ≤ MAX_CMD_LEN + 2
    omega

theorem lossy_of_fits {joined : List Char} (fits : Fits joined) :
    fromUtf8Lossy ((toUtf8 joined).take MAX_CMD_LEN) = joined := by
  by_cases short : utf8Length joined ≤ MAX_CMD_LEN
  · rw [List.take_of_length_le (by rwa [length_toUtf8]), fromUtf8Lossy_toUtf8]
  · obtain ⟨near, last⟩ := fits.resolve_left short
    obtain ⟨pre, rfl⟩ := List.getLast?_eq_some_iff.mp last
    rw [utf8Length_append] at short near
    change ¬ utf8Length pre + 3 ≤ MAX_CMD_LEN at short
    change utf8Length pre + 3 ≤ MAX_CMD_LEN + 2 at near
    have inside : utf8Length pre ≤ MAX_CMD_LEN := by omega
    have bytes : toUtf8 [Char.ofNat 0xFFFD] = [0xEF, 0xBF, 0xBD] := by decide
    have begun : Begun ((toUtf8 [Char.ofNat 0xFFFD]).take (MAX_CMD_LEN - utf8Length pre)) := by
      refine ⟨Char.ofNat 0xFFFD, (toUtf8 [Char.ofNat 0xFFFD]).drop (MAX_CMD_LEN - utf8Length pre),
        ?_, ?_, ?_⟩
      · rw [bytes]
        intro empty
        have none_ := congrArg List.length empty
        simp only [List.length_take, List.length_cons, List.length_nil] at none_
        omega
      · rw [bytes]
        intro empty
        have none_ := congrArg List.length empty
        simp only [List.length_drop, List.length_cons, List.length_nil] at none_
        omega
      · rw [List.take_append_drop]
        decide
    rw [toUtf8_append, List.take_append, List.take_of_length_le (by rwa [length_toUtf8]),
      length_toUtf8, fromUtf8Lossy_begun pre begun]

/-- A fork runs the command of its session exactly where no argument is empty and the
joined arguments fit. -/
theorem fork_command_iff (argv : List (List Char)) (clients : UInt64) (pid : Int32)
    (cwd : List Char) (separate : ∀ arg ∈ argv, '\x00' ∉ arg) :
    (∃ info, SessionInfo.decode (SessionInfo.encode ⟨clients, pid, joinArgs argv, cwd⟩) = .ok (some info) ∧
      (info.cmdArgv = argv ↔ (∀ arg ∈ argv, arg ≠ []) ∧ Fits (joinArgs argv))) ∧
    ∀ payload, ∃ result, SessionInfo.decode payload = .ok result ∧
      (result = none ↔ payload.length ≠ INFO_LEN) := by
  refine ⟨⟨_, SessionInfo.decode_encode _, ?_⟩, SessionInfo.decode_returns⟩
  unfold SessionInfo.cmdArgv
  dsimp only
  constructor
  · intro same
    have full : ∀ arg ∈ argv, arg ≠ [] := by
      rw [← same]
      intro arg mem
      exact of_decide_eq_true (List.mem_filter.mp mem).2
    refine ⟨full, fits_of_sublist ?_⟩
    have less := intercalate_filter_sublist '\x00' (· ≠ [])
      ((fromUtf8Lossy ((toUtf8 (joinArgs argv)).take MAX_CMD_LEN)).splitOn '\x00')
    rwa [same, List.intercalate_splitOn] at less
  · rintro ⟨full, fits⟩
    rw [lossy_of_fits fits]
    exact splitOn_joinArgs separate full

theorem fork_command_iff_spaced : ∃ info, SessionInfo.decode (SessionInfo.encode
      ⟨0, 1, joinArgs ["vim".toList, "a b.txt".toList], []⟩) = .ok (some info) ∧
    (info.cmdArgv = ["vim".toList, "a b.txt".toList] ↔
      (∀ arg ∈ ["vim".toList, "a b.txt".toList], arg ≠ []) ∧
        Fits (joinArgs ["vim".toList, "a b.txt".toList])) :=
  (fork_command_iff _ 0 1 [] (by decide)).1

/-- An empty argument is gone. -/
theorem fork_loses_argument : ∃ info, SessionInfo.decode (SessionInfo.encode
      ⟨0, 1, joinArgs ["printf".toList, []], []⟩) = .ok (some info) ∧
    info.cmdArgv = ["printf".toList] := by
  refine ⟨_, SessionInfo.decode_encode _, ?_⟩
  decide +kernel

end Posh.Session
