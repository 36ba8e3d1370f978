import Mathlib.Data.Bool.AllAny
import Posh.Lib.Utf8Prefix
import Posh.Term.Reads

/-!
Decoding a byte at a time.

In ground the parser owes at most three continuation bytes, and how many it owes is
settled by the bytes alone. A byte that pays no debt is in ground position: it is read
as if nothing had been begun, so whatever a broken sequence leaves owed, no ASCII byte
behind it is taken.
-/

namespace Posh.Term

open Posh.Lib

namespace Parser

/-- The bytes of a stream as they come in. -/
def feedChunks : List Bytes → Parser → Checked (Parser × List Action)
  | [], p => .ok (p, [])
  | chunk :: chunks, p => do
      let (p, actions) ← feed chunk p
      let (p, more) ← feedChunks chunks p
      return (p, actions ++ more)

/-- A stream that is read was read up to each of its places. -/
theorem feed_append_eq {a b : Bytes} {p r : Parser} {all : List Action}
    (fed : feed (a ++ b) p = .ok (r, all)) :
    ∃ q before later, feed a p = .ok (q, before) ∧ feed b q = .ok (r, later) ∧
      all = before ++ later := by
  induction a generalizing p all with
  | nil => exact ⟨p, [], all, rfl, fed, rfl⟩
  | cons x a ih =>
    obtain ⟨p', first, rest, step, remaining, rfl⟩ := feed_cons_eq fed
    obtain ⟨q, before, later, front, back, rfl⟩ := ih remaining
    exact ⟨q, first ++ before, later, feed_step step front, back, (List.append_assoc ..).symm⟩

/-- How the stream is cut does not matter. -/
theorem feedChunks_flatten {chunks : List Bytes} {p q : Parser} {actions : List Action}
    (fed : feed chunks.flatten p = .ok (q, actions)) : feedChunks chunks p = .ok (q, actions) := by
  induction chunks generalizing p actions with
  | nil => exact fed
  | cons chunk chunks ih =>
    obtain ⟨r, before, later, first, second, rfl⟩ := feed_append_eq fed
    rw [feedChunks, first]
    change (feedChunks chunks r >>= _) = _
    rw [ih second]
    rfl

theorem reads_text {text : List Char}
    (visible : ∀ c ∈ text, 0x20 ≤ c.toNat ∧ c.toNat ≠ 0x7F) :
    Reads (toUtf8 text) (text.map .print) := by
  induction text with
  | nil => exact .nil
  | cons c text ih =>
    have ⟨graphic, notDelete⟩ := visible c (by simp)
    exact (reads_char graphic notDelete).append (ih fun c mem => visible c (by simp [mem]))

/-! ### Continuation bytes owed -/

/-- The continuation bytes that a byte in ground position asks for. -/
def opened (b : UInt8) : Nat :=
  if 0xC2 ≤ b.toNat ∧ b.toNat ≤ 0xDF then 1
  else if 0xE0 ≤ b.toNat ∧ b.toNat ≤ 0xEF then 2
  else if 0xF0 ≤ b.toNat ∧ b.toNat ≤ 0xF4 then 3
  else 0

/-- The continuation bytes owed after one more byte. -/
def owed : (before : Nat) → UInt8 → Nat
  | 0, b => opened b
  | n + 1, b => if isContinuation b then n else opened b

/-- ESC, and the C1 controls that begin a sequence or a string. -/
def Introducer (b : UInt8) : Prop :=
  b.toNat ∈ [0x1B, 0x90, 0x98, 0x9B, 0x9D, 0x9E, 0x9F]

instance (b : UInt8) : Decidable (Introducer b) :=
  inferInstanceAs (Decidable (b.toNat ∈ _))

/-- With `n` continuation bytes owed, no introducer is in ground position. -/
def Undisturbed : (n : Nat) → Bytes → Prop
  | _, [] => True
  | n, b :: rest => (Introducer b → 0 < n ∧ isContinuation b = true) ∧ Undisturbed (owed n b) rest

/-- In ground, with `n` continuation bytes owed to the character whose bytes are held. -/
structure Owes (n : Nat) (p : Parser) : Prop where
  ground : p.state = .ground
  need : p.utf8Need = n
  begun : 0 < n → ∃ b held, p.utf8 = b :: held ∧ 0x80 ≤ b.toNat ∧ held.length + n ≤ 3

theorem Ready.owes {p : Parser} (ready : Ready p) : Owes 0 p where
  ground := ready.ground
  need := ready.whole
  begun owed := absurd owed (Nat.lt_irrefl 0)

def Printable (b : UInt8) : Prop :=
  0x20 ≤ b.toNat ∧ b.toNat ≤ 0x7E

instance (b : UInt8) : Decidable (Printable b) :=
  inferInstanceAs (Decidable (_ ∧ _))

/-- The printable ASCII byte that an action prints. -/
def asciiOf : Action → Option UInt8
  | .print c => if c.toNat ≤ 0x7E then some (UInt8.ofNat c.toNat) else none
  | _ => none

/-- The printable ASCII bytes among those that a byte is. -/
def ascii (bytes : Bytes) : Bytes :=
  bytes.filter (Printable ·)

/-! ### One byte -/

variable {p : Parser} {b : UInt8}

theorem c1_undisturbed (quiet : ¬ Introducer b) (state : p.state = .ground) :
    ∃ actions, p.c1 b = (p, actions) ∧ actions.filterMap asciiOf = [] := by
  have apart : b.toNat ≠ 0x90 ∧ b.toNat ≠ 0x98 ∧ b.toNat ≠ 0x9B ∧ b.toNat ≠ 0x9D ∧
      b.toNat ≠ 0x9E ∧ b.toNat ≠ 0x9F := by
    simp only [Introducer, List.mem_cons, List.not_mem_nil, or_false, not_or] at quiet
    exact quiet.2
  unfold c1
  split
  · exact absurd ‹_› apart.1
  · exact absurd ‹_› apart.2.1
  · exact absurd ‹_› apart.2.2.2.2.1
  · exact absurd ‹_› apart.2.2.1
  · exact ⟨[], by rw [← state], rfl⟩
  · exact absurd ‹_› apart.2.2.2.1
  · exact absurd ‹_› apart.2.2.2.2.2
  · exact ⟨[.execute b], rfl, rfl⟩

theorem ascii_printable (printable : Printable b) : ascii [b] = [b] := by
  simp [ascii, printable]

theorem ascii_other (other : ¬ Printable b) : ascii [b] = [] := by
  simp [ascii, other]

theorem opened_none (apart : b.toNat < 0xC2 ∨ 0xF4 < b.toNat) : opened b = 0 := by
  unfold opened
  rw [if_neg (by omega), if_neg (by omega), if_neg (by omega)]

/-- A byte in ground position that begins no character. -/
theorem Ready.owes_opened (ready : Ready p) (apart : b.toNat < 0xC2 ∨ 0xF4 < b.toNat) :
    Owes (opened b) p :=
  (opened_none apart).symm ▸ ready.owes

theorem owes_begun (ready : Ready p) {n : Nat} (few : n ≤ 3) (lead : 0x80 ≤ b.toNat)
    (asked : opened b = n) : Owes (opened b) { p with utf8 := [b], utf8Need := n } where
  ground := ready.ground
  need := asked.symm
  begun _ := ⟨b, [], rfl, lead, by simpa [asked] using few⟩

/-- A byte in ground position. -/
theorem groundByte_owes (ready : Ready p) (quiet : ¬ Introducer b) :
    Owes (opened b) (p.groundByte b).1 ∧
      (p.groundByte b).2.filterMap asciiOf = ascii [b] := by
  have unprintable (out : 0x7E < b.toNat) : [] = ascii [b] :=
    (ascii_other fun printable => absurd printable.2 (by omega)).symm
  unfold groundByte
  extract_lets n
  have n_eq : b.toNat = n := rfl
  clear_value n
  split
  · rename_i escape
    exact absurd (by simp [Introducer, n_eq, escape]) quiet
  split
  · exact ⟨ready.owes_opened (by omega),
      (ascii_other fun printable => absurd printable.1 (by omega)).symm⟩
  split
  · refine ⟨ready.owes_opened (by omega), ?_⟩
    have value : (Char.ofNat n).toNat = n := toNat_ofNat_of_valid (by omega)
    rw [ascii_printable ⟨by omega, by omega⟩]
    simp only [List.filterMap_cons, asciiOf, value, List.filterMap_nil]
    rw [if_pos (by omega), ← n_eq, UInt8.ofNat_toNat]
  split
  · exact ⟨ready.owes_opened (by omega), unprintable (by omega)⟩
  split
  · obtain ⟨actions, same, none⟩ := c1_undisturbed quiet ready.ground
    rw [same]
    exact ⟨ready.owes_opened (by omega), none.trans (unprintable (by omega))⟩
  split
  · exact ⟨ready.owes_opened (by omega), unprintable (by omega)⟩
  split
  · rename_i lead
    refine ⟨owes_begun ready (by omega) (by omega) ?_, unprintable (by omega)⟩
    rw [opened, if_pos (by omega)]
  split
  · rename_i lead
    refine ⟨owes_begun ready (by omega) (by omega) ?_, unprintable (by omega)⟩
    rw [opened, if_neg (by omega), if_pos (by omega)]
  split
  · rename_i lead
    refine ⟨owes_begun ready (by omega) (by omega) ?_, unprintable (by omega)⟩
    rw [opened, if_neg (by omega), if_neg (by omega), if_pos (by omega)]
  · exact ⟨ready.owes_opened (by omega), unprintable (by omega)⟩

/-- The last byte of a character makes no ASCII of it. -/
theorem decoded_wide {bytes : Bytes} {s : List Char} (wide : 0x80 ≤ b.toNat)
    (decoded : fromUtf8 (b :: bytes) = some s) : ∃ c, s.head? = some c ∧ 0x80 ≤ c.toNat := by
  have spelled := toUtf8_of_fromUtf8 decoded
  cases s with
  | nil => cases spelled
  | cons c s =>
    have shape := encodes c
    change String.utf8EncodeChar c ++ toUtf8 s = b :: bytes at spelled
    refine ⟨c, rfl, ?_⟩
    cases eq : String.utf8EncodeChar c with
    | nil =>
      rw [eq] at shape
      cases shape
    | cons b' rest =>
      rw [eq] at shape spelled
      obtain rfl : b' = b := (List.cons.inj spelled).1
      cases shape with
      | one value ascii => omega
      | two lead cont value wide => exact wide
      | three lead second cont₁ cont₂ value wide => exact wide
      | four lead second cont₁ cont₂ cont₃ value wide => exact wide

theorem not_printable_continuation (cont : isContinuation b = true) : ¬ Printable b := by
  simp only [isContinuation, Bool.and_eq_true, decide_eq_true_eq] at cont
  exact fun printable => absurd printable.2 (by omega)

/-- A continuation byte that is owed. -/
theorem ground_continuation {n : Nat} (owes : Owes (n + 1) p) (cont : isContinuation b = true) :
    ∃ q actions, p.ground b = .ok (q, actions) ∧ Owes n q ∧
      actions.filterMap asciiOf = [] := by
  obtain ⟨lead, held, utf8, wide, room⟩ := owes.begun (by omega)
  have fits : p.utf8.length < 4 := by simp [utf8]; omega
  have pushed : p.utf8Push b = .ok { p with utf8 := lead :: (held ++ [b]) } := by
    rw [utf8Push, if_pos fits, utf8]
    rfl
  have one_less : sub p.utf8Need 1 = .ok n := by
    rw [owes.need, sub_eq_ok (by omega)]
    rfl
  unfold ground
  rw [if_pos (by rw [owes.need]; omega), if_pos cont, pushed]
  simp only [Bind.bind, Except.bind, one_less]
  cases n with
  | succ n =>
    refine ⟨_, [], rfl, ⟨owes.ground, rfl, fun _ => ⟨lead, held ++ [b], rfl, wide, ?_⟩⟩, rfl⟩
    simp
    omega
  | zero =>
    have ready : Ready (utf8Reset { p with utf8 := lead :: (held ++ [b]), utf8Need := 0 }) :=
      ⟨owes.ground, rfl⟩
    simp only [if_true]
    cases decoded : fromUtf8 (lead :: (held ++ [b])) with
    | none => exact ⟨_, _, rfl, ready.owes, by decide⟩
    | some s =>
      obtain ⟨c, head, wide⟩ := decoded_wide wide decoded
      simp only [head, unwrap]
      refine ⟨_, _, rfl, ready.owes, ?_⟩
      simp only [List.filterMap_cons, asciiOf, List.filterMap_nil]
      rw [if_neg (by omega)]

/-- One byte, whatever is owed. -/
theorem advance_owes {n : Nat} (owes : Owes n p)
    (quiet : Introducer b → 0 < n ∧ isContinuation b = true) :
    ∃ q actions, p.advance b = .ok (q, actions) ∧ Owes (owed n b) q ∧
      actions.filterMap asciiOf = ascii [b] := by
  unfold advance
  rw [owes.ground]
  cases n with
  | zero =>
    have ready : Ready p := ⟨owes.ground, owes.need⟩
    have ⟨after, printed⟩ := groundByte_owes ready fun i => absurd (quiet i).1 (Nat.lt_irrefl 0)
    refine ⟨_, _, ?_, after, printed⟩
    simp only [ground]
    rw [if_neg (by rw [owes.need]; exact Nat.lt_irrefl 0)]
  | succ n =>
    by_cases cont : isContinuation b = true
    · obtain ⟨q, actions, step, after, silent⟩ := ground_continuation owes cont
      rw [owed, if_pos cont, ascii_other (not_printable_continuation cont)]
      exact ⟨q, actions, step, after, silent⟩
    · have ready : Ready p.utf8Reset := ⟨owes.ground, rfl⟩
      have ⟨after, printed⟩ := groundByte_owes ready fun i => cont (quiet i).2
      rw [owed, if_neg cont]
      refine ⟨_, .print REPLACEMENT :: (groundByte b p.utf8Reset).2, ?_, after, ?_⟩
      · simp only [ground]
        rw [if_pos (by rw [owes.need]; omega), if_neg cont]
      · rw [List.filterMap_cons_none (by decide), printed]

/-- All bytes. -/
theorem feed_owes {n : Nat} {bytes : Bytes} (owes : Owes n p) (undisturbed : Undisturbed n bytes) :
    ∃ q actions, feed bytes p = .ok (q, actions) ∧ q.state = .ground ∧
      actions.filterMap asciiOf = ascii bytes := by
  induction bytes generalizing n p with
  | nil => exact ⟨p, [], rfl, owes.ground, rfl⟩
  | cons b rest ih =>
    obtain ⟨q, first, step, after, here⟩ := advance_owes owes undisturbed.1
    obtain ⟨r, later, fed, ground, there⟩ := ih after undisturbed.2
    refine ⟨r, first ++ later, feed_step step fed, ground, ?_⟩
    rw [List.filterMap_append, here, there]
    exact (List.filter_append [b] rest).symm

/-- Text without controls is printed character by character, wherever it is cut; and in
any bytes that never leave ground every printable ASCII byte is printed, and no other
character is printed as one. -/
theorem decodes_incrementally (ready : Ready p) :
    (∀ (text : List Char) (chunks : List Bytes), (∀ c ∈ text, 0x20 ≤ c.toNat ∧ c.toNat ≠ 0x7F) →
        chunks.flatten = toUtf8 text →
        ∃ q, Ready q ∧ feedChunks chunks p = .ok (q, text.map .print)) ∧
      ∀ chunks : List Bytes, Undisturbed 0 chunks.flatten →
        ∃ q actions, feedChunks chunks p = .ok (q, actions) ∧ q.state = .ground ∧
          actions.filterMap asciiOf = ascii chunks.flatten := by
  constructor
  · intro text chunks visible cut
    obtain ⟨q, ready', fed⟩ := reads_text visible p ready
    exact ⟨q, ready', feedChunks_flatten (cut ▸ fed)⟩
  · intro chunks undisturbed
    obtain ⟨q, actions, fed, rest⟩ := feed_owes ready.owes undisturbed
    exact ⟨q, actions, feedChunks_flatten fed, rest⟩

/-- `éA` cut inside the first character, and two characters broken off by ASCII. -/
theorem decodes_incrementally_new :
    (∃ q, Ready q ∧ feedChunks [[0xC3], [0xA9, 0x41]] {} = .ok (q, [.print 'é', .print 'A'])) ∧
      ∃ q actions, feedChunks [[0xE2, 0x82], [0x41, 0xF0], [0x9B, 0x42]] {} = .ok (q, actions) ∧
        q.state = .ground ∧ actions.filterMap asciiOf = [0x41, 0x42] := by
  have ⟨texts, bytes⟩ := decodes_incrementally ready_new
  exact ⟨texts ['é', 'A'] _ (List.all_iff_forall_prop.mp rfl) (by decide),
    bytes _ ⟨by decide, by decide, by decide, by decide, by decide, by decide, trivial⟩⟩

end Parser

end Posh.Term
