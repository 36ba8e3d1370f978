import Posh.Session.Filter
import Posh.Term.Registers

/-!
What the stripper makes of a sequence.

It reads the numbers of a plain sequence as the parser does, so what it lets through
names no screen mode.
-/

namespace Posh.Session

open Posh.Lib Posh.Term Posh.Term.Parser

/-! ### Numbers -/

/-- The stripper and the parser agree on which numbers are screen modes. -/
theorem isScreenMode_clamped (part : Bytes) :
    IsScreenMode (clamped part) ↔
      IsScreenMode (if decimalValue part ≤ 2 ^ 32 - 1 then decimalValue part else 0) := by
  unfold IsScreenMode clamped
  split <;> omega

/-! ### Sequences -/

/-- The numbers that are no screen modes. -/
def remaining (parts : List Bytes) : List Bytes :=
  parts.filter fun d => ¬ IsScreenMode (clamped d)

theorem keptParts_digits {parts : List Bytes}
    (digits : ∀ d ∈ parts, ∀ b ∈ d, isAsciiDigit b = true) : keptParts parts = some (remaining parts) := by
  induction parts with
  | nil => rfl
  | cons part rest ih =>
    have here := digits part List.mem_cons_self
    have decoded := fromUtf8_digits here
    have all : part.all isAsciiDigit = true := List.all_eq_true.mpr here
    unfold keptParts
    rw [if_pos all, decoded, ih fun d mem => digits d (List.mem_cons_of_mem _ mem)]
    simp only [Option.bind_eq_bind, Option.bind_some, Option.pure_def, fromStrRadix_digits here]
    unfold remaining
    by_cases screen : IsScreenMode (clamped part)
    · have number := (isScreenMode_clamped part).mp screen
      unfold IsScreenMode at number
      rw [if_pos number, List.filter_cons_of_neg (by simpa using screen)]
    · have number := fun h => screen ((isScreenMode_clamped part).mpr h)
      unfold IsScreenMode at number
      rw [if_neg number, List.filter_cons_of_pos (by simpa using screen)]

theorem digits_of_keptParts {parts kept : List Bytes} (h : keptParts parts = some kept) :
    ∀ d ∈ parts, ∀ b ∈ d, isAsciiDigit b = true := by
  induction parts generalizing kept with
  | nil => exact fun _ mem => absurd mem List.not_mem_nil
  | cons part rest ih =>
    unfold keptParts at h
    split at h
    · rename_i all
      cases decoded : fromUtf8 part with
      | none =>
        rw [decoded] at h
        cases h
      | some s =>
        cases later : keptParts rest with
        | none =>
          rw [decoded, later] at h
          cases h
        | some kept' =>
          intro d mem
          rcases List.mem_cons.mp mem with rfl | inside
          · exact List.all_eq_true.mp all
          · exact ih later d inside
    · cases h

/-- `ESC [ ? … h` or `ESC [ ? … l`, with numbers between semicolons. -/
structure Plain (seq : Bytes) (parts : List Bytes) (finalByte : UInt8) : Prop where
  spelled : seq = PRIVATE_CSI ++ ([0x3B].intercalate parts ++ [finalByte])
  digits : ∀ d ∈ parts, ∀ b ∈ d, isAsciiDigit b = true
  some_ : parts ≠ []
  finalByte : finalByte = 0x68 ∨ finalByte = 0x6C

/-- What is left of a plain sequence. -/
def remainder (parts : List Bytes) (finalByte : UInt8) : Option Bytes :=
  if remaining parts = [] then none
  else some (PRIVATE_CSI ++ [0x3B].intercalate (remaining parts) ++ [finalByte])

theorem Plain.strip {seq : Bytes} {parts : List Bytes} {finalByte : UInt8}
    (h : Plain seq parts finalByte) : stripAltScreenParams seq = remainder parts finalByte := by
  have split : ([0x3B].intercalate parts).splitOn (0x3B : UInt8) = parts := by
    refine List.splitOn_intercalate _ ?_ h.some_
    intro d mem semicolon
    have digit := h.digits d mem _ semicolon
    exact absurd digit (by decide)
  have opened : seq.dropPrefix? PRIVATE_CSI = some ([0x3B].intercalate parts ++ [finalByte]) := by
    rw [h.spelled]
    exact List.dropPrefix?_eq_some_iff.mpr ⟨PRIVATE_CSI, rfl, by simp⟩
  unfold stripAltScreenParams remainder
  rw [opened]
  simp only [Option.bind_eq_bind, Option.bind_some, List.getLast?_append, List.getLast?_singleton,
    Option.some_or, if_pos h.finalByte, List.dropLast_concat, split, keptParts_digits h.digits,
    List.isEmpty_iff, Option.pure_def]

/-- Only plain sequences leave something. -/
theorem plain_of_strip {seq rest : Bytes} (h : stripAltScreenParams seq = some rest) :
    ∃ parts finalByte, Plain seq parts finalByte ∧ remaining parts ≠ [] ∧
      rest = PRIVATE_CSI ++ [0x3B].intercalate (remaining parts) ++ [finalByte] := by
  have whole := h
  unfold stripAltScreenParams at h
  simp only [Option.bind_eq_bind, Option.bind_eq_some_iff] at h
  obtain ⟨body, opened, finalByte, last, h⟩ := h
  split at h
  · rename_i setting
    obtain ⟨kept, stripped, -⟩ := Option.bind_eq_some_iff.mp h
    obtain ⟨marker, seq_eq, same⟩ := List.dropPrefix?_eq_some_iff.mp opened
    have body_eq : body.dropLast ++ [finalByte] = body := List.dropLast_append_getLast? finalByte last
    have plain : Plain seq (body.dropLast.splitOn 0x3B) finalByte := by
      refine ⟨?_, digits_of_keptParts stripped, List.splitOn_ne_nil _ _, setting⟩
      rw [List.intercalate_splitOn, body_eq, seq_eq, beq_iff_eq.mp same]
    rw [plain.strip] at whole
    unfold remainder at whole
    split at whole
    · cases whole
    · rename_i some_
      exact ⟨_, _, plain, some_, (Option.some.inj whole).symm⟩
  · cases h

end Posh.Session
