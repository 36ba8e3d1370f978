import Posh.Lib.Checked
import Posh.Lib.Lines
import Posh.Lib.Reader

/-!
Compiled terminfo entries, for the pair of strings around the alternate screen
(`terminfo.rs`).

The file is not trusted: every index and slice is checked, and none goes out of range. An
entry as term(5) lays it out is a type of its own, with what makes it well formed; what is
read from its bytes is what it holds.
-/

namespace Posh.Cli

open Posh.Lib

/-- String-capability table indices. -/
def ENTER_CA_MODE : Nat := 28
def EXIT_CA_MODE : Nat := 40

/-- What the database said about alternate-screen support. -/
inductive Lookup where
  /-- The entry defines both strings. -/
  | found (smcup rmcup : Bytes)
  /-- The entry exists but defines no alternate screen. -/
  | noAltScreen
  /-- No entry found, or unparsable. -/
  | noEntry
deriving DecidableEq, Repr

namespace Terminfo

def u16le (b : Bytes) (i : Nat) : Option Nat :=
  match b[i]?, b[i + 1]? with
  | some lo, some hi => some (ofLeBytes [lo, hi])
  | _, _ => none

/-- `as i16` -/
def asI16 (raw : Nat) : Int :=
  if raw < 2 ^ 15 then raw else raw - 2 ^ 16

/-- Removes `$<..>` padding markers from `s[i..]`, behind what is `out` already. -/
def stripLoop (s : Bytes) (i : Nat) (out : Bytes) : Checked Bytes :=
  if _more : i < s.length then do
    let here ← getAt s i
    if here = 0x24 ∧ s[i + 1]? = some 0x3C then
      let tail ← slice s (i + 2) s.length
      match tail.findIdx? (· = 0x3E) with
      | some close => stripLoop s (i + 2 + close + 1) out
      | none => stripLoop s (i + 1) (out ++ [here])
    else stripLoop s (i + 1) (out ++ [here])
  else .ok out
termination_by s.length - i

def stripPadding (s : Bytes) : Checked Bytes :=
  stripLoop s 0 []

/-- The counts that lay out an entry. -/
structure Header where
  numWidth : Nat
  nameSize : Nat
  boolCount : Nat
  numCount : Nat
  strCount : Nat
  tableSize : Nat
deriving DecidableEq, Repr

/-- The width of a number, by the magic: legacy, or 32-bit. -/
def widthOf (magic : Nat) : Option Nat :=
  if magic = 0o432 then some 2
  else if magic = 0o1036 then some 4
  else none

def readHeader (b : Bytes) : Option Header := do
  let magic ← u16le b 0
  let numWidth ← widthOf magic
  let nameSize ← u16le b 2
  let boolCount ← u16le b 4
  let numCount ← u16le b 6
  let strCount ← u16le b 8
  let tableSize ← u16le b 10
  return { numWidth, nameSize, boolCount, numCount, strCount, tableSize }

namespace Header

/-- Where the string offsets begin; numbers are short-aligned. -/
def off (h : Header) : Nat :=
  12 + h.nameSize + h.boolCount + (if (h.nameSize + h.boolCount) % 2 = 1 then 1 else 0) +
    h.numCount * h.numWidth

def tableOff (h : Header) : Nat :=
  h.off + h.strCount * 2

/-- One string capability; `none` where it is absent, cancelled or out of table. -/
def fetch (h : Header) (b : Bytes) (idx : Nat) : Checked (Option Bytes) :=
  if idx ≥ h.strCount then .ok none
  else
    match u16le b (h.off + idx * 2) with
    | none => .ok none
    | some raw =>
        let strOff := asI16 raw
        if strOff < 0 ∨ strOff.toNat ≥ h.tableSize then .ok none
        else do
          let start := h.tableOff + strOff.toNat
          let tail ← slice b start (h.tableOff + h.tableSize)
          match tail.findIdx? (· = 0) with
          | none => .ok none
          | some p =>
              let value ← slice b start (start + p)
              return some (← stripPadding value)

end Header

/-- Extracts the pair from one compiled entry; `none` is malformed. -/
def parseCaMode (b : Bytes) : Checked (Option Lookup) :=
  match readHeader b with
  | none => .ok none
  | some h =>
      if h.tableOff + h.tableSize > b.length then .ok none
      else do
        let enter ← h.fetch b ENTER_CA_MODE
        let exit ← h.fetch b EXIT_CA_MODE
        match enter, exit with
        | some smcup, some rmcup => return some (.found smcup rmcup)
        | _, _ => return some .noAltScreen

/-! ### Padding -/

/-- The beginning of a text is a closed marker, up to the first `>`. -/
def Marker (s rest : Bytes) : Prop :=
  ∃ inside, s = 0x24 :: 0x3C :: (inside ++ 0x3E :: rest) ∧ 0x3E ∉ inside

/-- A text without its closed markers, read from the left. -/
inductive Stripped : Bytes → Bytes → Prop where
  | nil : Stripped [] []
  | marker {s rest out : Bytes} (closed : Marker s rest) (after : Stripped rest out) : Stripped s out
  | byte {b : UInt8} {rest out : Bytes} (open_ : ∀ tail, ¬ Marker (b :: rest) tail)
      (after : Stripped rest out) : Stripped (b :: rest) (b :: out)

theorem Marker.unique {s rest rest' : Bytes} (m : Marker s rest) (m' : Marker s rest') :
    rest = rest' := by
  obtain ⟨inside, rfl, absent⟩ := m
  obtain ⟨inside', same, absent'⟩ := m'
  exact (first_inj absent absent' (List.cons.inj (List.cons.inj same).2).2).2

/-- There is one text without the markers. -/
theorem Stripped.unique {s out out' : Bytes} (h : Stripped s out) (h' : Stripped s out') :
    out = out' := by
  induction h generalizing out' with
  | nil =>
    cases h' with
    | nil => rfl
    | marker closed _ =>
      obtain ⟨_, empty, -⟩ := closed
      cases empty
  | marker closed _ ih =>
    cases h' with
    | nil =>
      obtain ⟨_, empty, -⟩ := closed
      cases empty
    | marker closed' after' =>
      rw [closed.unique closed'] at ih
      exact ih after'
    | byte open_ _ => exact absurd closed (open_ _)
  | byte open_ _ ih =>
    cases h' with
    | marker closed _ => exact absurd closed (open_ _)
    | byte _ after' => rw [ih after']

/-- The first `>` closes. -/
theorem findIdx_split {tail : Bytes} {target : UInt8} {p : Nat}
    (found : tail.findIdx? (· = target) = some p) :
    tail = tail.take p ++ target :: tail.drop (p + 1) ∧ target ∉ tail.take p := by
  obtain ⟨inside, here, before⟩ := List.findIdx?_eq_some_iff_getElem.mp found
  have value : tail[p] = target := of_decide_eq_true here
  constructor
  · have split := List.take_append_drop p tail
    rw [List.drop_eq_getElem_cons inside, value] at split
    exact split.symm
  · intro mem
    obtain ⟨k, small, same⟩ := List.mem_take_iff_getElem.mp mem
    exact before k (by omega) (by simpa using same)

theorem marker_of_found {s : Bytes} {i close : Nat} (more : i < s.length)
    (opens : s[i] = 0x24 ∧ s[i + 1]? = some 0x3C)
    (found : (s.drop (i + 2)).findIdx? (· = 0x3E) = some close) :
    Marker (s.drop i) (s.drop (i + 2 + close + 1)) := by
  obtain ⟨split, absent⟩ := findIdx_split found
  obtain ⟨next, second⟩ := List.getElem?_eq_some_iff.mp opens.2
  refine ⟨(s.drop (i + 2)).take close, ?_, absent⟩
  rw [List.drop_drop, ← Nat.add_assoc] at split
  have opened : s.drop i = 0x24 :: 0x3C :: s.drop (i + 2) := by
    rw [List.drop_eq_getElem_cons more, List.drop_eq_getElem_cons next, opens.1, second]
  rw [opened, ← split]

theorem opens_of_marker {s rest : Bytes} {i : Nat} (more : i < s.length)
    (closed : Marker (s.drop i) rest) :
    (s[i] = 0x24 ∧ s[i + 1]? = some 0x3C) ∧ 0x3E ∈ s.drop (i + 2) := by
  obtain ⟨inside, whole, -⟩ := closed
  have first : (s.drop i)[0]? = some 0x24 := by rw [whole]; rfl
  have second : (s.drop i)[1]? = some 0x3C := by rw [whole]; rfl
  have later : s.drop (i + 2) = inside ++ 0x3E :: rest := by rw [← List.drop_drop, whole]; rfl
  rw [List.getElem?_drop] at first second
  refine ⟨⟨(List.getElem?_eq_some_iff.mp first).2, second⟩, ?_⟩
  rw [later]
  exact List.mem_append_right _ List.mem_cons_self

theorem stripLoop_spec (s : Bytes) (i : Nat) (out : Bytes) :
    ∃ rest, stripLoop s i out = .ok (out ++ rest) ∧ Stripped (s.drop i) rest := by
  induction left : s.length - i using Nat.strongRecOn generalizing i out with
  | ind left ih =>
    by_cases more : i < s.length
    · have drop := List.drop_eq_getElem_cons more
      -- A byte that opens no marker is kept.
      have kept (open_ : ∀ tail, ¬ Marker (s.drop i) tail) :
          ∃ rest, stripLoop s (i + 1) (out ++ [s[i]]) = .ok (out ++ rest) ∧
            Stripped (s.drop i) rest := by
        obtain ⟨rest, looped, stripped⟩ := ih _ (by omega) (i + 1) (out ++ [s[i]]) rfl
        refine ⟨s[i] :: rest, by rw [looped, List.append_assoc]; rfl, ?_⟩
        rw [drop] at open_ ⊢
        exact .byte open_ stripped
      rw [stripLoop, dif_pos more, getAt_eq_ok more]
      change ∃ rest, (if s[i] = 0x24 ∧ s[i + 1]? = some 0x3C then _ else _) = _ ∧ _
      by_cases opens : s[i] = 0x24 ∧ s[i + 1]? = some 0x3C
      · obtain ⟨next, -⟩ := List.getElem?_eq_some_iff.mp opens.2
        rw [if_pos opens, slice, if_pos ⟨by omega, Nat.le_refl _⟩, List.take_length]
        cases found : (s.drop (i + 2)).findIdx? (· = 0x3E) with
        | none =>
          simp only [bind, Except.bind, found]
          refine kept fun tail closed => ?_
          have absent := List.findIdx?_eq_none_iff.mp found _ (opens_of_marker more closed).2
          simp at absent
        | some close =>
          simp only [bind, Except.bind, found]
          obtain ⟨rest, looped, stripped⟩ := ih _ (by omega) (i + 2 + close + 1) out rfl
          exact ⟨rest, looped, .marker (marker_of_found more opens found) stripped⟩
      · rw [if_neg opens]
        exact kept fun tail closed => opens (opens_of_marker more closed).1
    · rw [stripLoop, dif_neg more, List.drop_eq_nil_of_le (by omega)]
      exact ⟨[], by rw [List.append_nil], .nil⟩

theorem stripPadding_spec (s : Bytes) : ∃ out, stripPadding s = .ok out ∧ Stripped s out := by
  obtain ⟨out, looped, stripped⟩ := stripLoop_spec s 0 []
  exact ⟨out, looped, stripped⟩

/-! ### Any bytes -/

theorem fetch_yields {h : Header} {b : Bytes} (fits : h.tableOff + h.tableSize ≤ b.length) (idx : Nat) :
    Yields (h.fetch b idx) fun _ => True := by
  unfold Header.fetch
  split
  · exact .ok trivial
  · split
    · exact .ok trivial
    · dsimp only
      split
      · exact .ok trivial
      · rename_i inside
        rw [not_or] at inside
        refine .bind (.slice (by omega) fits) ?_
        rintro tail rfl
        split
        · exact .ok trivial
        · rename_i p found
          obtain ⟨short, -⟩ := List.findIdx?_eq_some_iff_getElem.mp found
          rw [List.length_drop, List.length_take] at short
          refine .bind (.slice (Nat.le_add_right _ _) (by omega)) ?_
          rintro value rfl
          refine .bind (p := fun _ => True) ?_ fun _ _ => .pure trivial
          obtain ⟨out, stripped, -⟩ := stripPadding_spec ((b.take _).drop _)
          exact ⟨out, stripped, trivial⟩

theorem parseCaMode_yields (b : Bytes) : Yields (parseCaMode b) fun _ => True := by
  unfold parseCaMode
  split
  · exact .ok trivial
  · split
    · exact .ok trivial
    · rename_i fits
      refine .bind (fetch_yields (by omega) _) fun enter _ => ?_
      refine .bind (fetch_yields (by omega) _) fun exit _ => ?_
      split <;> exact .pure trivial

/-! ### Entries -/

/-- A string capability: absent, cancelled, or where its value is in the table. -/
inductive Capability where
  | absent
  | cancelled
  | at_ (offset : Nat)
deriving DecidableEq, Repr

/-- What stands for it among the offsets: -1, -2, or the offset. -/
def Capability.raw : Capability → Nat
  | absent => 2 ^ 16 - 1
  | cancelled => 2 ^ 16 - 2
  | at_ offset => offset

/-- A compiled entry. -/
structure Entry where
  /-- Whether the numbers are 32 bits wide. -/
  wide : Bool
  name : Bytes
  bools : Bytes
  numbers : List Nat
  caps : List Capability
  table : Bytes
  /-- What follows the table, such as extended capabilities. -/
  extension : Bytes
  name_short : name.length < 2 ^ 16
  bools_few : bools.length < 2 ^ 16
  numbers_few : numbers.length < 2 ^ 16
  caps_few : caps.length < 2 ^ 16
  table_short : table.length < 2 ^ 15
  /-- Every value ends inside the table. -/
  terminated : ∀ offset, Capability.at_ offset ∈ caps → 0 ∈ table.drop offset

namespace Entry

def numWidth (e : Entry) : Nat :=
  if e.wide then 4 else 2

def header (e : Entry) : Header where
  numWidth := e.numWidth
  nameSize := e.name.length
  boolCount := e.bools.length
  numCount := e.numbers.length
  strCount := e.caps.length
  tableSize := e.table.length

/-- The twelve bytes at the front. -/
def head (e : Entry) : Bytes :=
  leBytes 2 (if e.wide then 0o1036 else 0o432) ++ leBytes 2 e.name.length ++
    leBytes 2 e.bools.length ++ leBytes 2 e.numbers.length ++ leBytes 2 e.caps.length ++
    leBytes 2 e.table.length

/-- The byte that puts the numbers on an even offset. -/
def alignment (e : Entry) : Bytes :=
  if (e.name.length + e.bools.length) % 2 = 1 then [0] else []

/-- Everything before the offsets of the strings. -/
def front (e : Entry) : Bytes :=
  e.head ++ (e.name ++ e.bools ++ e.alignment ++ e.numbers.flatMap (leBytes e.numWidth))

def offsets (caps : List Capability) : Bytes :=
  caps.flatMap fun cap => leBytes 2 cap.raw

def render (e : Entry) : Bytes :=
  e.front ++ offsets e.caps ++ e.table ++ e.extension

/-- The value of a string capability, without the NUL that ends it. -/
def value (e : Entry) (idx : Nat) : Option Bytes :=
  match e.caps[idx]? with
  | some (.at_ offset) => some ((e.table.drop offset).takeWhile (· ≠ 0))
  | _ => none

/-! ### Reading an entry -/

theorem u16le_middle {b : Bytes} (before rest : Bytes) {i n : Nat}
    (split : b = before ++ leBytes 2 n ++ rest) (start : before.length = i) (fits : n < 2 ^ 16) :
    u16le b i = some n := by
  have low : b[i]? = some (UInt8.ofNat n) := by
    simp [split, ← start, leBytes]
  have high : b[i + 1]? = some (UInt8.ofNat (n / 256)) := by
    simp [split, ← start, leBytes]
  have value : ofLeBytes (leBytes 2 n) = n := ofLeBytes_leBytes_of_lt (by omega)
  unfold u16le
  rw [low, high]
  exact congrArg some value

@[simp] theorem length_offsets (caps : List Capability) : (offsets caps).length = caps.length * 2 := by
  simp [offsets, List.length_flatMap]

theorem length_head (e : Entry) : e.head.length = 12 := by
  simp [head]

theorem length_front (e : Entry) : e.front.length = e.header.off := by
  have numbers : (e.numbers.flatMap (leBytes e.numWidth)).length = e.numbers.length * e.numWidth := by
    simp [List.length_flatMap]
  have alignment : e.alignment.length =
      if (e.name.length + e.bools.length) % 2 = 1 then 1 else 0 := by
    unfold Entry.alignment
    split <;> rfl
  simp only [front, List.length_append, length_head, numbers, alignment]
  change _ = 12 + e.name.length + e.bools.length +
    (if (e.name.length + e.bools.length) % 2 = 1 then 1 else 0) + e.numbers.length * e.numWidth
  omega

theorem readHeader_render (e : Entry) : readHeader e.render = some e.header := by
  have name := e.name_short
  have bools := e.bools_few
  have numbers := e.numbers_few
  have caps := e.caps_few
  have table := e.table_short
  have magic : widthOf (if e.wide then 0o1036 else 0o432) = some e.numWidth := by
    unfold Entry.numWidth
    cases e.wide <;> rfl
  have first : u16le e.render 0 = some (if e.wide then 0o1036 else 0o432) :=
    u16le_middle [] (e.render.drop 2) rfl rfl (by split <;> decide)
  have second : u16le e.render 2 = some e.name.length :=
    u16le_middle (e.render.take 2) (e.render.drop 4) rfl rfl name
  have third : u16le e.render 4 = some e.bools.length :=
    u16le_middle (e.render.take 4) (e.render.drop 6) rfl rfl bools
  have fourth : u16le e.render 6 = some e.numbers.length :=
    u16le_middle (e.render.take 6) (e.render.drop 8) rfl rfl numbers
  have fifth : u16le e.render 8 = some e.caps.length :=
    u16le_middle (e.render.take 8) (e.render.drop 10) rfl rfl caps
  have sixth : u16le e.render 10 = some e.table.length :=
    u16le_middle (e.render.take 10) (e.render.drop 12) rfl rfl (by omega)
  unfold readHeader
  rw [first, second, third, fourth, fifth, sixth]
  change (widthOf _ >>= _) = _
  rw [magic]
  rfl

theorem length_render (e : Entry) : e.render.length =
    e.header.tableOff + e.header.tableSize + e.extension.length := by
  unfold render
  rw [List.length_append, List.length_append, List.length_append, length_front, length_offsets]
  rfl

theorem capability_split {caps : List Capability} {idx : Nat} {cap : Capability}
    (here : caps[idx]? = some cap) : offsets caps =
      offsets (caps.take idx) ++ leBytes 2 cap.raw ++ offsets (caps.drop (idx + 1)) ∧
      (offsets (caps.take idx)).length = idx * 2 := by
  obtain ⟨inside, value⟩ := List.getElem?_eq_some_iff.mp here
  have split := List.take_append_drop idx caps
  rw [List.drop_eq_getElem_cons inside, value] at split
  constructor
  · conv_lhs => rw [← split]
    simp [offsets]
  · rw [length_offsets, List.length_take, Nat.min_eq_left (Nat.le_of_lt inside)]

theorem findIdx_of_mem {tail : Bytes} (ends : 0 ∈ tail) :
    tail.findIdx? (· = 0) = some (tail.takeWhile (· ≠ 0)).length := by
  induction tail with
  | nil => cases ends
  | cons b tail ih =>
    rw [List.findIdx?_cons]
    by_cases last : b = 0
    · simp [last]
    · have later : 0 ∈ tail := (List.mem_cons.mp ends).resolve_left (Ne.symm last)
      simp [last, ih later]

theorem offset_lt (e : Entry) {offset : Nat} (mem : Capability.at_ offset ∈ e.caps) :
    offset < e.table.length := by
  by_contra outside
  have ends := e.terminated offset mem
  rw [List.drop_eq_nil_of_le (by omega)] at ends
  cases ends

theorem raw_lt (e : Entry) {cap : Capability} (mem : cap ∈ e.caps) : cap.raw < 2 ^ 16 := by
  cases cap with
  | absent => decide
  | cancelled => decide
  | at_ offset =>
    have inside := e.offset_lt mem
    have short := e.table_short
    change offset < 2 ^ 16
    omega

/-- The number that stands for a capability is read. -/
theorem u16le_render (e : Entry) {idx : Nat} {cap : Capability} (here : e.caps[idx]? = some cap) :
    u16le e.render (e.header.off + idx * 2) = some cap.raw := by
  obtain ⟨split, length⟩ := capability_split here
  refine u16le_middle (e.front ++ offsets (e.caps.take idx))
    (offsets (e.caps.drop (idx + 1)) ++ e.table ++ e.extension) ?_ ?_
    (e.raw_lt (List.mem_of_getElem? here))
  · simp only [render, split, List.append_assoc]
  · rw [List.length_append, length_front, length]

/-- A capability without a value is not found. -/
theorem fetch_of_none (e : Entry) {idx : Nat} (missing : e.value idx = none) :
    e.header.fetch e.render idx = .ok none := by
  unfold Header.fetch
  split
  · rfl
  · rename_i inside
    change ¬ idx ≥ e.caps.length at inside
    unfold value at missing
    cases here : e.caps[idx]? with
    | none => exact absurd (List.getElem?_eq_none_iff.mp here) inside
    | some cap =>
      rw [e.u16le_render here]
      cases cap with
      | absent => rfl
      | cancelled => rfl
      | at_ offset =>
        rw [here] at missing
        cases missing

/-- A value is found, without its padding. -/
theorem fetch_of_some (e : Entry) {idx : Nat} {v : Bytes} (present : e.value idx = some v) :
    ∃ out, e.header.fetch e.render idx = .ok (some out) ∧ Stripped v out := by
  unfold value at present
  split at present
  · rename_i offset here
    cases present
    have mem := List.mem_of_getElem? here
    have inside := e.offset_lt mem
    have short := e.table_short
    have ends := e.terminated offset mem
    obtain ⟨small, -⟩ := List.getElem?_eq_some_iff.mp here
    have read : u16le e.render (e.header.off + idx * 2) = some offset := e.u16le_render here
    have signed : asI16 offset = (offset : Int) := if_pos (by omega)
    have length : (e.front ++ offsets e.caps).length = e.header.tableOff := by
      rw [List.length_append, length_front, length_offsets]
      rfl
    -- The table from the value on, and the value in it.
    have rest : slice e.render (e.header.tableOff + offset) (e.header.tableOff + e.table.length) =
        .ok (e.table.drop offset) := by
      refine slice_middle (e.front ++ offsets e.caps ++ e.table.take offset) e.extension ?_ ?_ ?_
      · simp only [render, List.append_assoc, List.take_append_drop]
      · rw [List.length_append, length, List.length_take, Nat.min_eq_left (by omega)]
      · rw [List.length_drop]
        omega
    have stop : (e.table.drop offset).findIdx? (· = 0) =
        some ((e.table.drop offset).takeWhile (· ≠ 0)).length := findIdx_of_mem ends
    have whole : slice e.render (e.header.tableOff + offset) (e.header.tableOff + offset +
        ((e.table.drop offset).takeWhile (· ≠ 0)).length) =
          .ok ((e.table.drop offset).takeWhile (· ≠ 0)) := by
      refine slice_middle (e.front ++ offsets e.caps ++ e.table.take offset)
        ((e.table.drop offset).dropWhile (· ≠ 0) ++ e.extension) ?_ ?_ rfl
      · simp only [render, List.append_assoc]
        rw [← List.append_assoc (List.takeWhile _ _), List.takeWhile_append_dropWhile,
          ← List.append_assoc (List.take _ _), List.take_append_drop]
      · rw [List.length_append, length, List.length_take, Nat.min_eq_left (by omega)]
    obtain ⟨out, stripped, spec⟩ := stripPadding_spec ((e.table.drop offset).takeWhile (· ≠ 0))
    refine ⟨out, ?_, spec⟩
    unfold Header.fetch
    have few : ¬ idx ≥ e.header.strCount := Nat.not_le_of_lt small
    rw [if_neg few, read]
    dsimp only
    have size : e.header.tableSize = e.table.length := rfl
    rw [signed, Int.toNat_natCast, size, if_neg (by omega)]
    change (slice e.render (e.header.tableOff + offset) (e.header.tableOff + e.table.length) >>= _) = _
    rw [rest]
    simp only [bind, Except.bind, stop, whole, stripped]
    rfl
  · cases present

/-- What an entry's values amount to. -/
def Says (e : Entry) (found : Lookup) : Prop :=
  match e.value ENTER_CA_MODE, e.value EXIT_CA_MODE with
  | some smcup, some rmcup =>
      ∃ enter exit, Stripped smcup enter ∧ Stripped rmcup exit ∧ found = .found enter exit
  | _, _ => found = .noAltScreen

theorem parseCaMode_render (e : Entry) : ∃ found, parseCaMode e.render = .ok (some found) ∧ e.Says found := by
  have fits : ¬ e.header.tableOff + e.header.tableSize > e.render.length := by
    rw [length_render]
    omega
  unfold parseCaMode Says
  rw [readHeader_render]
  dsimp only
  rw [if_neg fits]
  cases enter : e.value ENTER_CA_MODE with
  | none =>
    cases exit : e.value EXIT_CA_MODE with
    | none =>
      rw [e.fetch_of_none enter, e.fetch_of_none exit]
      exact ⟨_, rfl, rfl⟩
    | some rmcup =>
      obtain ⟨last, right, -⟩ := e.fetch_of_some exit
      rw [e.fetch_of_none enter, right]
      exact ⟨_, rfl, rfl⟩
  | some smcup =>
    obtain ⟨first, left, stripped⟩ := e.fetch_of_some enter
    cases exit : e.value EXIT_CA_MODE with
    | none =>
      rw [left, e.fetch_of_none exit]
      exact ⟨_, rfl, rfl⟩
    | some rmcup =>
      obtain ⟨last, right, stripped'⟩ := e.fetch_of_some exit
      rw [left, right]
      exact ⟨_, rfl, first, last, stripped, stripped', rfl⟩

end Entry

/-- What is read from an entry is what it says, padding is what is stripped from a value
and nothing else, and no bytes make the reader go out of range. -/
theorem ca_mode_read : (∀ e : Entry, ∃ found, parseCaMode e.render = .ok (some found) ∧ e.Says found) ∧
    (∀ s, ∃ out, stripPadding s = .ok out ∧ ∀ text, Stripped s text ↔ text = out) ∧
    ∀ b, ∃ result, parseCaMode b = .ok result := by
  refine ⟨Entry.parseCaMode_render, ?_, ?_⟩
  · intro s
    obtain ⟨out, stripped, spec⟩ := stripPadding_spec s
    exact ⟨out, stripped, fun text => ⟨fun other => other.unique spec, fun same => same ▸ spec⟩⟩
  · intro b
    obtain ⟨result, returned, -⟩ := parseCaMode_yields b
    exact ⟨result, returned⟩

end Terminfo

end Posh.Cli
