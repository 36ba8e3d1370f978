import Posh.Term.Base64Codec
import Posh.Term.CommandAccounts
import Posh.Term.Writes

/-!
Image data in the escape stream.

The dump writes the base64 text of an image as graphics commands, in chunks when it is
long. The parser reads the commands back one by one; the payloads they carry, put
together, are that text, and decode to the data.
-/

namespace Posh.Term

open Posh.Lib Base64

theorem toUtf8_flatten (pieces : List (List Char)) :
    toUtf8 pieces.flatten = (pieces.map toUtf8).flatten := by
  induction pieces with
  | nil => rfl
  | cons piece pieces ih =>
    rw [List.flatten_cons, toUtf8_append, ih, List.map_cons, List.flatten_cons]

/-! ### Commands -/

namespace Action

/-- The text of a graphics command, without its leading `G`. -/
def graphics? : Action → Option Bytes
  | .apc (b :: rest) => if b.toNat = 'G'.toNat then some rest else none
  | _ => none

/-- The payload of a graphics command. -/
def payload? (action : Action) : Option Bytes :=
  action.graphics?.map fun data => (Graphics.splitControl data).2

end Action

/-- What stands before the payload of a command, and the payload. -/
abbrev Sent := List Char × List Char

/-- The text of a command, without its leading `G`. -/
def Sent.text (sent : Sent) : List Char :=
  sent.1 ++ ';' :: sent.2

/-- Read as these graphics commands. -/
def Sends (text : List Char) (commands : List Sent) : Prop :=
  ∃ actions, Parser.Reads (toUtf8 text) actions ∧
    actions.filterMap Action.graphics? = commands.map fun sent => toUtf8 sent.text

theorem Sends.nil : Sends [] [] :=
  ⟨[], .nil, rfl⟩

theorem Sends.append {a b : List Char} {before after : List Sent} (ha : Sends a before)
    (hb : Sends b after) : Sends (a ++ b) (before ++ after) := by
  obtain ⟨first, reads_a, sent_a⟩ := ha
  obtain ⟨later, reads_b, sent_b⟩ := hb
  refine ⟨first ++ later, ?_, ?_⟩
  · rw [toUtf8_append]
    exact reads_a.append reads_b
  · rw [List.filterMap_append, sent_a, sent_b, List.map_append]

theorem plain_bytes {s : List Char} (plain : ∀ c ∈ s, IsPlain c) :
    ∀ b ∈ toUtf8 s, 0x20 ≤ b.toNat ∧ b.toNat ≠ ';'.toNat := by
  have ascii : ∀ c ∈ s, c.toNat < 0x80 ∧ (0x20 ≤ c.toNat ∧ c.toNat ≠ ';'.toNat) := by
    intro c mem
    obtain ⟨low, high, other⟩ := plain c mem
    exact ⟨high, low, other⟩
  exact bytes_of_chars (P := fun n => 0x20 ≤ n ∧ n ≠ ';'.toNat) ascii

theorem length_plain {s : List Char} (plain : ∀ c ∈ s, IsPlain c) :
    (toUtf8 s).length = s.length := by
  rw [toUtf8_ascii fun c mem => (plain c mem).2.1, List.length_map]

/-- A command is split where its payload begins. -/
theorem splitControl_sent (sent : Sent) (control : ∀ c ∈ sent.1, IsPlain c) :
    Graphics.splitControl (toUtf8 sent.text) = (toUtf8 sent.1, toUtf8 sent.2) := by
  have passes : ∀ b ∈ toUtf8 sent.1, (!Graphics.isByte ';' b) = true := by
    intro b mem
    unfold Graphics.isByte
    simpa using (plain_bytes control b mem).2
  have text : toUtf8 sent.text = toUtf8 sent.1 ++ 0x3B :: toUtf8 sent.2 := by
    unfold Sent.text
    rw [toUtf8_append]
    rfl
  unfold Graphics.splitControl
  rw [text, List.takeWhile_append_of_pos passes, List.dropWhile_append_of_pos passes]
  have stops : (!Graphics.isByte ';' 0x3B) = false := by decide
  rw [List.takeWhile_cons_of_neg (by rw [stops]; exact Bool.false_ne_true),
    List.dropWhile_cons_of_neg (by rw [stops]; exact Bool.false_ne_true), List.append_nil]
  rfl

/-- A command that fits is read as it was written. -/
theorem sends_command {control payload : List Char} (controls : ∀ c ∈ control, IsPlain c)
    (plain : ∀ c ∈ payload, IsPlain c) (fits : control.length + payload.length + 2 ≤ MAX_APC) :
    Sends ("\x1b_G".toList ++ control ++ ";".toList ++ payload ++ "\x1b\\".toList)
      [(control, payload)] := by
  let text := Sent.text (control, payload)
  have written : "\x1b_G".toList ++ control ++ ";".toList ++ payload ++ "\x1b\\".toList =
      "\x1b_".toList ++ ('G' :: text) ++ "\x1b\\".toList := by
    simp [text, Sent.text]
  have bytes : toUtf8 ('G' :: text) = 0x47 :: toUtf8 text := toUtf8_append ['G'] text
  have printing : ∀ b ∈ toUtf8 ('G' :: text), 0x20 ≤ b.toNat := by
    apply graphic_toUtf8
    intro c mem
    rcases List.mem_cons.mp mem with rfl | mem
    · decide
    rcases List.mem_append.mp mem with inside | mem
    · exact (controls c inside).1
    rcases List.mem_cons.mp mem with rfl | inside
    · decide
    · exact (plain c inside).1
  have short : (toUtf8 ('G' :: text)).length ≤ MAX_APC := by
    have parts : toUtf8 text = toUtf8 control ++ (0x3B :: toUtf8 payload) := by
      change toUtf8 (control ++ ([';'] ++ payload)) = _
      rw [toUtf8_append, toUtf8_append]
      rfl
    rw [bytes, parts, List.length_cons, List.length_append, List.length_cons,
      length_plain controls, length_plain plain]
    omega
  refine ⟨Parser.stringAction (toUtf8 ('G' :: text)) MAX_APC .apc ++ [.esc [] 0x5C], ?_, ?_⟩
  · rw [written, toUtf8_append, toUtf8_append, List.append_assoc]
    exact (Parser.continues_apc printing).reads
  · unfold Parser.stringAction
    rw [if_pos short, bytes]
    rfl

/-! ### Keys -/

/-- The text of some keys, of at most `n` characters. -/
structure KeyText (n : Nat) (text : List Char) : Prop where
  plain : ∀ c ∈ text, IsPlain c
  short : text.length ≤ n

theorem KeyText.append {m n : Nat} {a b : List Char} (ha : KeyText m a) (hb : KeyText n b) :
    KeyText (m + n) (a ++ b) where
  plain c mem := (List.mem_append.mp mem).elim (ha.plain c) (hb.plain c)
  short := List.length_append.le.trans (Nat.add_le_add ha.short hb.short)

theorem KeyText.mono {m n : Nat} {text : List Char} (h : KeyText m text) (more : m ≤ n) :
    KeyText n text :=
  ⟨h.plain, h.short.trans more⟩

theorem keyText_decimal {n : Nat} (word : n < 2 ^ 32) : KeyText 10 (decimal n) where
  plain c mem := by
    have digit := isDigit_decimal n c mem
    simp only [Char.isDigit, Bool.and_eq_true, decide_eq_true_eq, UInt32.le_iff_toNat_le] at digit
    obtain ⟨low, high⟩ := digit
    have low : 0x30 ≤ c.toNat := low
    have high : c.toNat ≤ 0x39 := high
    have semicolon : ';'.toNat = 0x3B := rfl
    unfold IsPlain
    omega
  short := (Nat.length_toDigits_le_iff (by decide) (by decide)).mpr (word.trans (by decide))

theorem keyText_decimalInt {n : Int} (word : n.natAbs < 2 ^ 32) :
    KeyText 11 (Terminal.decimalInt n) := by
  unfold Terminal.decimalInt
  split
  · exact KeyText.append (m := 1) (a := ['-']) ⟨forall_of_all rfl, Nat.le_refl 1⟩ (keyText_decimal word)
  · exact (keyText_decimal word).mono (by decide)

theorem keyText_value (key : String) {value : List Char} {n : Nat} (named : KeyText 1 key.toList)
    (h : KeyText n value) : KeyText (n + 3) (Terminal.keyValue key value) := by
  have comma : KeyText 1 ",".toList := ⟨forall_of_all rfl, Nat.le_refl 1⟩
  have equals : KeyText 1 "=".toList := ⟨forall_of_all rfl, Nat.le_refl 1⟩
  exact (((comma.append named).append equals).append h).mono (by omega)

theorem keyText_number (key : String) {n : Nat} (named : KeyText 1 key.toList) (word : n < 2 ^ 32) :
    KeyText 13 (Terminal.keyValue key (decimal n)) :=
  keyText_value key named (keyText_decimal word)

theorem formatKey_lt (f : ImageFormat) : Terminal.formatKey f < 2 ^ 32 := by
  unfold Terminal.formatKey
  split <;> decide

/-- The keys of an image are short. -/
theorem keyText_image {img : Image} {id : Nat} (width : img.width < 2 ^ 32)
    (height : img.height < 2 ^ 32) (name : id < 2 ^ 32) (number : img.number < 2 ^ 32) :
    KeyText Terminal.CHUNK (Terminal.imageKeys img id) := by
  have begins : KeyText 7 "a=t,q=2".toList := ⟨forall_of_all rfl, Nat.le_refl 7⟩
  have format := keyText_number "f" ⟨forall_of_all rfl, Nat.le_refl 1⟩ (formatKey_lt img.format)
  have wide := keyText_number "s" ⟨forall_of_all rfl, Nat.le_refl 1⟩ width
  have high := keyText_number "v" ⟨forall_of_all rfl, Nat.le_refl 1⟩ height
  have named := keyText_number "i" ⟨forall_of_all rfl, Nat.le_refl 1⟩ name
  have numbered : KeyText 13
      (if img.number ≠ 0 then Terminal.keyValue "I" (decimal img.number) else []) := by
    split
    · exact keyText_number "I" ⟨forall_of_all rfl, Nat.le_refl 1⟩ number
    · exact ⟨nofun, Nat.zero_le _⟩
  exact (((((begins.append format).append wide).append high).append named).append numbered).mono
    (by decide)

theorem keyText_frame {fr : Frame} {id : Nat} (name : id < 2 ^ 32) (number : fr.number < 2 ^ 32)
    (width : fr.width < 2 ^ 32) (height : fr.height < 2 ^ 32) (x : fr.x < 2 ^ 32)
    (y : fr.y < 2 ^ 32) (gap : fr.gapMs.natAbs < 2 ^ 32) (base : fr.baseFrame < 2 ^ 32) :
    KeyText Terminal.CHUNK (Terminal.frameKeys fr id) := by
  have begins : KeyText 7 "a=f,q=2".toList := ⟨forall_of_all rfl, Nat.le_refl 7⟩
  have named := keyText_number "i" ⟨forall_of_all rfl, Nat.le_refl 1⟩ name
  have numbered := keyText_number "r" ⟨forall_of_all rfl, Nat.le_refl 1⟩ number
  have format := keyText_number "f" ⟨forall_of_all rfl, Nat.le_refl 1⟩ (formatKey_lt fr.format)
  have wide := keyText_number "s" ⟨forall_of_all rfl, Nat.le_refl 1⟩ width
  have high := keyText_number "v" ⟨forall_of_all rfl, Nat.le_refl 1⟩ height
  have left := keyText_number "x" ⟨forall_of_all rfl, Nat.le_refl 1⟩ x
  have top := keyText_number "y" ⟨forall_of_all rfl, Nat.le_refl 1⟩ y
  have shown := keyText_value "z" ⟨forall_of_all rfl, Nat.le_refl 1⟩ (keyText_decimalInt gap)
  have beneath := keyText_number "c" ⟨forall_of_all rfl, Nat.le_refl 1⟩ base
  have replaces : KeyText 4 (textIf fr.replace ",X=1") := by
    cases fr.replace with
    | false => exact ⟨nofun, Nat.zero_le _⟩
    | true => exact ⟨forall_of_all rfl, Nat.le_refl 4⟩
  exact ((((((((((begins.append named).append numbered).append format).append wide).append
    high).append left).append top).append shown).append beneath).append replaces).mono (by decide)

/-! ### Chunks -/

/-- The commands of the chunks after the first. -/
def continuations : List (List Char) → List Sent
  | [] => []
  | chunk :: rest =>
      ("m=".toList ++ (if rest.isEmpty then "0".toList else "1".toList), chunk) :: continuations rest

/-- The commands of a payload: more than one when it does not fit in a chunk. -/
def commandsOf (keys payload : List Char) : List Sent :=
  match payload.toChunks Terminal.CHUNK with
  | first :: second :: rest => (keys ++ ",m=1".toList, first) :: continuations (second :: rest)
  | _ => [(keys, payload)]

variable {keys payload : List Char} {chunks : List (List Char)}

theorem continuation_plain (last : Bool) :
    ∀ c ∈ "m=".toList ++ (if last then "0".toList else "1".toList), IsPlain c := by
  cases last with
  | false => exact forall_of_all (s := "m=1".toList) rfl
  | true => exact forall_of_all (s := "m=0".toList) rfl

theorem opening_plain (controls : ∀ c ∈ keys, IsPlain c) :
    ∀ c ∈ keys ++ ",m=1".toList, IsPlain c := by
  intro c mem
  rcases List.mem_append.mp mem with key | more
  · exact controls c key
  · exact forall_of_all (P := IsPlain) (s := ",m=1".toList) rfl c more

theorem sends_continuations (plain : ∀ chunk ∈ chunks, ∀ c ∈ chunk, IsPlain c)
    (short : ∀ chunk ∈ chunks, chunk.length ≤ Terminal.CHUNK) :
    Sends (Terminal.emitContinuations chunks) (continuations chunks) := by
  induction chunks with
  | nil => exact .nil
  | cons chunk rest ih =>
    have fits : ("m=".toList ++ (if rest.isEmpty then "0".toList else "1".toList)).length +
        chunk.length + 2 ≤ MAX_APC := by
      have few : ("m=".toList ++ (if rest.isEmpty then "0".toList else "1".toList)).length = 3 := by
        split <;> rfl
      have full := short chunk List.mem_cons_self
      exact (Nat.add_le_add_right (Nat.add_le_add few.le full) 2).trans (by decide)
    have first := sends_command (continuation_plain rest.isEmpty) (plain chunk List.mem_cons_self) fits
    have later := ih (fun c mem => plain c (List.mem_cons_of_mem _ mem))
      (fun c mem => short c (List.mem_cons_of_mem _ mem))
    exact first.append later

/-- The dump's text of a payload is read as the commands of its chunks. -/
theorem sends_apcChunks (data : Bytes) (controls : ∀ c ∈ keys, IsPlain c)
    (few : keys.length ≤ Terminal.CHUNK) :
    Sends (Terminal.emitApcChunks keys data) (commandsOf keys (encode data)) := by
  have plain := encode_plain data
  obtain ⟨whole, short⟩ := toChunks_pieces (n := Terminal.CHUNK) (by decide) (encode data)
  have within : ∀ chunk ∈ (encode data).toChunks Terminal.CHUNK, ∀ c ∈ chunk, IsPlain c := by
    intro chunk mem c inside
    refine plain c ?_
    rw [← whole]
    exact List.mem_flatten.mpr ⟨chunk, mem, inside⟩
  have single (fits : (encode data).length ≤ Terminal.CHUNK) :
      Sends ("\x1b_G".toList ++ keys ++ ";".toList ++ encode data ++ "\x1b\\".toList)
        [(keys, encode data)] :=
    sends_command controls plain
      ((Nat.add_le_add_right (Nat.add_le_add few fits) 2).trans (by decide))
  unfold Terminal.emitApcChunks commandsOf
  dsimp only
  generalize (encode data).toChunks Terminal.CHUNK = cut at whole short within ⊢
  rcases cut with _ | ⟨first, _ | ⟨second, rest⟩⟩
  · refine single ?_
    rw [← whole]
    exact Nat.zero_le _
  · refine single ?_
    rw [← whole, List.flatten_singleton]
    exact short first List.mem_cons_self
  · have longer : (keys ++ ",m=1".toList).length ≤ Terminal.CHUNK + 4 :=
      List.length_append.le.trans (Nat.add_le_add_right few 4)
    have fits := Nat.add_le_add_right (Nat.add_le_add longer (short first List.mem_cons_self)) 2
    have head := sends_command (opening_plain controls) (within first List.mem_cons_self) (fits.trans (by decide))
    have tail := sends_continuations (fun c mem => within c (List.mem_cons_of_mem _ mem))
      (fun c mem => short c (List.mem_cons_of_mem _ mem))
    have both := head.append tail
    have text : ",m=1;".toList = ",m=1".toList ++ ";".toList := rfl
    rw [text]
    simpa only [List.append_assoc, List.singleton_append] using both

theorem continuations_payload : (continuations chunks).map (·.2) = chunks := by
  induction chunks with
  | nil => rfl
  | cons chunk rest ih => rw [continuations, List.map_cons, ih]

/-- Together the commands carry all of the payload. -/
theorem commandsOf_payload : ((commandsOf keys payload).map (·.2)).flatten = payload := by
  obtain ⟨whole, -⟩ := toChunks_pieces (n := Terminal.CHUNK) (by decide) payload
  unfold commandsOf
  split
  · rename_i first second rest cut
    rw [List.map_cons, continuations_payload, ← cut, whole]
  · exact List.flatten_singleton

theorem commandsOf_plain (controls : ∀ c ∈ keys, IsPlain c) :
    ∀ sent ∈ commandsOf keys payload, ∀ c ∈ sent.1, IsPlain c := by
  have later (chunks : List (List Char)) :
      ∀ sent ∈ continuations chunks, ∀ c ∈ sent.1, IsPlain c := by
    induction chunks with
    | nil => exact nofun
    | cons chunk rest ih =>
      intro sent mem
      rcases List.mem_cons.mp mem with rfl | mem
      · exact continuation_plain rest.isEmpty
      · exact ih sent mem
  unfold commandsOf
  split
  · intro sent mem c inside
    rcases List.mem_cons.mp mem with rfl | mem
    · exact opening_plain controls c inside
    · exact later _ sent mem c inside
  · intro sent mem
    rw [List.mem_singleton.mp mem]
    exact controls

theorem Sends.payloads {text : List Char} {commands : List Sent} (h : Sends text commands)
    (controls : ∀ sent ∈ commands, ∀ c ∈ sent.1, IsPlain c) :
    ∃ actions, Parser.Reads (toUtf8 text) actions ∧
      actions.filterMap Action.payload? = commands.map fun sent => toUtf8 sent.2 := by
  obtain ⟨actions, reads, sent⟩ := h
  refine ⟨actions, reads, ?_⟩
  have split : Action.payload? = fun action =>
      action.graphics?.map fun data => (Graphics.splitControl data).2 := rfl
  rw [split, ← List.map_filterMap, sent, List.map_map]
  refine List.map_congr_left fun sent mem => ?_
  rw [Function.comp_apply, splitControl_sent sent (controls sent mem)]

/-! ### The receiver -/

namespace GraphicsState

open Graphics

variable {g : GraphicsState} {files : List Char → Option Bytes} {cmd : Command}
  {cursor : Nat × Nat}

/-- Commands one after the other, and what the last comes to. -/
def receive (files : List Char → Option Bytes) (cursor : Nat × Nat) :
    List Sent → GraphicsState → Checked Outcome
  | [], g => return (g, none, none)
  | [sent], g => g.dispatch files (toUtf8 sent.text) cursor
  | sent :: rest, g =>
      g.dispatch files (toUtf8 sent.text) cursor >>= fun out => receive files cursor rest out.1

theorem dispatch_pending (files : List Char → Option Bytes) (cursor : Nat × Nat)
    {pending : Pending} (sent : Sent) (held : g.pending = some pending) (controls : ∀ c ∈ sent.1, IsPlain c) (parsed : parseCommand (toUtf8 sent.1) = some cmd)
    (room : (pending.payload ++ toUtf8 sent.2).length ≤ MAX_PENDING_PAYLOAD) :
    g.dispatch files (toUtf8 sent.text) cursor =
      if cmd.more = 1 then
        .ok ({ g with pending := some { pending with payload := pending.payload ++ toUtf8 sent.2 } },
          none, none)
      else { g with pending := none }.finishTransmission files pending.cmd
        (pending.payload ++ toUtf8 sent.2) cursor := by
  rw [List.length_append] at room
  unfold dispatch
  simp only [splitControl_sent sent controls, parsed, held, if_pos room]
  rfl

theorem parseCommand_continuation (last : Bool) :
    parseCommand (toUtf8 ("m=".toList ++ (if last then "0".toList else "1".toList))) =
      some { more := if last then 0 else 1 } := by
  cases last <;> rfl

/-- Chunks wait for each other, up to the last. -/
theorem receive_continuations {got : Bytes} (some_ : chunks ≠ [])
    (held : g.pending = some ⟨cmd, got⟩)
    (room : (got ++ toUtf8 chunks.flatten).length ≤ MAX_PENDING_PAYLOAD) :
    receive files cursor (continuations chunks) g =
      { g with pending := none }.finishTransmission files cmd (got ++ toUtf8 chunks.flatten) cursor := by
  induction chunks generalizing g got with
  | nil => exact absurd rfl some_
  | cons chunk rest ih =>
    rw [List.flatten_cons, toUtf8_append, ← List.append_assoc] at room ⊢
    have here : (got ++ toUtf8 chunk).length ≤ MAX_PENDING_PAYLOAD := by
      rw [List.length_append] at room
      omega
    have step := dispatch_pending files cursor
      ("m=".toList ++ (if rest.isEmpty then "0".toList else "1".toList), chunk) held
      (continuation_plain rest.isEmpty) (parseCommand_continuation rest.isEmpty) here
    cases rest with
    | nil =>
      rw [List.flatten_nil, show toUtf8 [] = [] from rfl, List.append_nil]
      exact step
    | cons second rest =>
      have waits := ih (g := { g with pending := some ⟨cmd, got ++ toUtf8 chunk⟩ })
        (List.cons_ne_nil second rest) rfl room
      rw [← waits]
      change (g.dispatch files _ cursor >>= _) = _
      rw [step]
      rfl

theorem parsePairs_append (first later : List Bytes) (cmd : Command) :
    parsePairs (first ++ later) cmd = (parsePairs first cmd).bind (parsePairs later) := by
  induction first generalizing cmd with
  | nil => rfl
  | cons pair first ih =>
    rw [List.cons_append, parsePairs, parsePairs]
    split
    · exact ih cmd
    · split
      · rfl
      · exact ih _

/-- `m=1` after the keys says that more chunks follow. -/
theorem parseCommand_more (parsed : parseCommand (toUtf8 keys) = some cmd) :
    parseCommand (toUtf8 (keys ++ ",m=1".toList)) = some { cmd with more := 1 } := by
  have bytes : toUtf8 (keys ++ ",m=1".toList) = toUtf8 keys ++ 0x2C :: toUtf8 "m=1".toList := by
    rw [toUtf8_append]
    rfl
  have comma : UInt8.ofNat ','.toNat = 0x2C := rfl
  unfold parseCommand at parsed ⊢
  rw [comma] at parsed ⊢
  rw [bytes, List.splitOn_append_cons_self, parsePairs_append, parsed]
  rfl

theorem command_transmits (carries : transmits cmd = true) (payload : Bytes) :
    g.command files cmd payload cursor =
      if cmd.more = 1 then .ok ({ g with pending := some { cmd, payload } }, none, none)
      else g.finishTransmission files cmd payload cursor := by
  unfold command
  split
  · rfl
  · rfl
  · rfl
  · rfl
  · rfl
  all_goals simp [transmits, *] at carries

/-- What a transmission in chunks comes to is what it comes to in one. -/
theorem receive_commandsOf (controls : ∀ c ∈ keys, IsPlain c) (idle : g.pending = none)
    (parsed : parseCommand (toUtf8 keys) = some cmd) (carries : transmits cmd = true)
    (last : cmd.more ≠ 1) (room : (toUtf8 payload).length ≤ MAX_PENDING_PAYLOAD) :
    ∃ more, receive files cursor (commandsOf keys payload) g =
      g.finishTransmission files { cmd with more } (toUtf8 payload) cursor := by
  have single : receive files cursor [(keys, payload)] g =
      g.finishTransmission files cmd (toUtf8 payload) cursor := by
    change g.dispatch files (toUtf8 (Sent.text (keys, payload))) cursor = _
    unfold dispatch
    simp only [splitControl_sent (keys, payload) controls, parsed, idle]
    rw [command_transmits carries, if_neg last]
  obtain ⟨whole, -⟩ := toChunks_pieces (n := Terminal.CHUNK) (by decide) payload
  unfold commandsOf
  split
  · rename_i first second rest cut
    rw [cut, List.flatten_cons] at whole
    have begins : g.dispatch files (toUtf8 (Sent.text (keys ++ ",m=1".toList, first))) cursor =
        .ok ({ g with pending := some ⟨{ cmd with more := 1 }, toUtf8 first⟩ }, none, none) := by
      unfold dispatch
      simp only [splitControl_sent (keys ++ ",m=1".toList, first) (opening_plain controls),
        parseCommand_more parsed, idle]
      have carries : transmits { cmd with more := 1 } = true := carries
      exact command_transmits carries (toUtf8 first)
    refine ⟨1, ?_⟩
    change (g.dispatch files _ cursor >>= _) = _
    rw [begins]
    change receive files cursor (continuations (second :: rest))
      { g with pending := some ⟨{ cmd with more := 1 }, toUtf8 first⟩ } = _
    rw [receive_continuations (List.cons_ne_nil second rest) rfl, ← toUtf8_append, whole, ← idle]
    rwa [← toUtf8_append, whole]
  · exact ⟨cmd.more, single⟩

end GraphicsState

/-! ### Round trips -/

/-- The payloads of what the dump writes for some data decode to the data. -/
theorem apcChunks_decode (h : KeyText Terminal.CHUNK keys) (data : Bytes) :
    ∃ actions, Parser.Reads (toUtf8 (Terminal.emitApcChunks keys data)) actions ∧
      decode (actions.filterMap Action.payload?).flatten = some data := by
  obtain ⟨actions, reads, payloads⟩ :=
    (sends_apcChunks data h.plain h.short).payloads (commandsOf_plain h.plain)
  refine ⟨actions, reads, ?_⟩
  have joined : (commandsOf keys (encode data)).map (fun sent => toUtf8 sent.2) =
      ((commandsOf keys (encode data)).map (·.2)).map toUtf8 := by
    rw [List.map_map]
    rfl
  rw [payloads, joined, ← toUtf8_flatten, commandsOf_payload, decode_encode]

theorem image_decode {img : Image} {id : Nat} (width : img.width < 2 ^ 32)
    (height : img.height < 2 ^ 32) (name : id < 2 ^ 32) (number : img.number < 2 ^ 32) :
    ∃ actions,
      Parser.Reads (toUtf8 (Terminal.emitApcChunks (Terminal.imageKeys img id) img.data)) actions ∧
        decode (actions.filterMap Action.payload?).flatten = some img.data :=
  apcChunks_decode (keyText_image width height name number) img.data

theorem frame_decode {fr : Frame} {id : Nat} (name : id < 2 ^ 32) (number : fr.number < 2 ^ 32)
    (width : fr.width < 2 ^ 32) (height : fr.height < 2 ^ 32) (x : fr.x < 2 ^ 32)
    (y : fr.y < 2 ^ 32) (gap : fr.gapMs.natAbs < 2 ^ 32) (base : fr.baseFrame < 2 ^ 32) :
    ∃ actions,
      Parser.Reads (toUtf8 (Terminal.emitApcChunks (Terminal.frameKeys fr id) fr.data)) actions ∧
        decode (actions.filterMap Action.payload?).flatten = some fr.data :=
  apcChunks_decode (keyText_frame name number width height x y gap base) fr.data

/-- A byte string is what its encoding decodes to, in one piece, in chunks put together
again, or in the commands in which the dump writes it. -/
theorem base64_round_trip (b : Bytes) :
    decode (toUtf8 (encode b)) = some b ∧
      (∀ n, 0 < n → decode (((encode b).toChunks n).map toUtf8).flatten = some b) ∧
      ∀ keys, KeyText Terminal.CHUNK keys →
        ∃ actions, Parser.Reads (toUtf8 (Terminal.emitApcChunks keys b)) actions ∧
          decode (actions.filterMap Action.payload?).flatten = some b := by
  refine ⟨decode_encode b, ?_, fun keys h => apcChunks_decode h b⟩
  intro n some_
  rw [← toUtf8_flatten, (toChunks_pieces some_ (encode b)).1, decode_encode]

theorem base64_round_trip_chunks :
    decode (((encode [1, 2, 3, 4]).toChunks 4).map toUtf8).flatten = some [1, 2, 3, 4] ∧
      ∃ actions, Parser.Reads (toUtf8 (Terminal.emitApcChunks "a=t,q=2".toList [1, 2, 3, 4])) actions ∧
        decode (actions.filterMap Action.payload?).flatten = some [1, 2, 3, 4] := by
  obtain ⟨-, chunks, commands⟩ := base64_round_trip [1, 2, 3, 4]
  exact ⟨chunks 4 (by decide), commands _ ⟨forall_of_all rfl, by decide⟩⟩

end Posh.Term
