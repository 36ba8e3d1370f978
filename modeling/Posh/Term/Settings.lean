import Mathlib.Logic.Relation
import Posh.Term.Setup

/-!
What any stream can do to the settings of a terminal.

The scroll region, the shift of the character sets with the saved ones, the shape of the cursor, the
keyboard stacks and the size are a small machine of their own. Every action and every resize takes
this machine through some of its steps; what the steps keep holds in every run.
-/

namespace Posh.Term

open Posh.Lib

/-! ### The machine -/

/-- One of a screen's keyboard sequences. -/
inductive KeyOp where
  | push (flags : UInt8)
  | pop (n : Nat)
  | set (flags : UInt8) (mode : Nat)
  | reset

def KeyOp.apply (op : KeyOp) (k : KittyKeyStack) : KittyKeyStack :=
  match op with
  | .push flags => k.push flags
  | .pop n => k.pop n
  | .set flags mode => k.set flags mode
  | .reset => k.reset

/-- The settings, of both screens where each has its own. -/
structure Settings where
  rows : Nat
  top : Nat
  bot : Nat
  shift : Nat
  savedPrimary : Nat
  savedAlt : Nat
  shape : Nat
  /-- The cap of the alternate screen's scrollback. -/
  cap : Nat
  keysPrimary : KittyKeyStack
  keysAlt : KittyKeyStack

namespace Settings

variable {s s' : Settings}

inductive Change (s : Settings) : Settings → Prop
  | region {top bot : Nat} (ordered : top < bot) : Change s { s with top, bot }
  | whole : Change s { s with top := 0, bot := s.rows - 1 }
  | resize (rows : Nat) : Change s { s with rows, top := 0, bot := rows - 1 }
  | shift {n : Nat} (one : n ≤ 1) : Change s { s with shift := n }
  | savePrimary : Change s { s with savedPrimary := s.shift }
  | saveAlt : Change s { s with savedAlt := s.shift }
  | restorePrimary : Change s { s with shift := s.savedPrimary }
  | restoreAlt : Change s { s with shift := s.savedAlt }
  | forgetPrimary : Change s { s with savedPrimary := 0 }
  | forgetAlt : Change s { s with savedAlt := 0 }
  | shape {n : Nat} (known : n ≤ 6) : Change s { s with shape := n }
  | keysPrimary (op : KeyOp) : Change s { s with keysPrimary := op.apply s.keysPrimary }
  | keysAlt (op : KeyOp) : Change s { s with keysAlt := op.apply s.keysAlt }

/-- The settings that runs come to. -/
structure Steady (s : Settings) : Prop where
  region : s.top < s.bot ∨ s.top = 0 ∧ s.bot = s.rows - 1
  shift : s.shift ≤ 1
  savedPrimary : s.savedPrimary ≤ 1
  savedAlt : s.savedAlt ≤ 1
  shape : s.shape ≤ 6
  cap : s.cap = 0
  keysPrimary : Terminal.Pushed s.keysPrimary
  keysAlt : Terminal.Pushed s.keysAlt

/-- The bits of the keyboard flags. -/
def Masked (flags : UInt8) : Prop :=
  flags &&& 0x1f = flags

theorem masked_and (flags : UInt8) : Masked (flags &&& 0x1f) := by
  unfold Masked
  rw [UInt8.and_assoc]
  rfl

theorem Masked.and {flags : UInt8} (h : Masked flags) (other : UInt8) : Masked (flags &&& other) := by
  unfold Masked
  rw [UInt8.and_assoc, UInt8.and_comm other, ← UInt8.and_assoc, h]

theorem Masked.or {flags other : UInt8} (h : Masked flags) (h' : Masked other) : Masked (flags ||| other) := by
  have left := congrArg UInt8.toNat h
  have right := congrArg UInt8.toNat h'
  refine UInt8.toNat_inj.mp ?_
  rw [UInt8.toNat_and] at left right
  rw [UInt8.toNat_and, UInt8.toNat_or, Nat.and_or_distrib_right, left, right]

theorem pushed_nil : Terminal.Pushed {} :=
  ⟨Nat.zero_le _, nofun⟩

theorem pushed_snoc {kept : List UInt8} (few : kept.length < KittyKeyStack.MAX_STACK)
    (masked : ∀ flags ∈ kept, Masked flags) {flags : UInt8} (new : Masked flags) :
    Terminal.Pushed ⟨kept ++ [flags]⟩ where
  few := by
    change (kept ++ [flags]).length ≤ _
    rw [List.length_append, List.length_singleton]
    exact few
  masked x mem := by
    rcases List.mem_append.mp mem with old | last
    · exact masked x old
    · rw [List.mem_singleton.mp last]
      exact new

theorem masked_flags {k : KittyKeyStack} (h : Terminal.Pushed k) : Masked k.flags := by
  unfold KittyKeyStack.flags
  cases last : k.stack.getLast? with
  | none => exact rfl
  | some flags => exact h.masked flags (List.mem_of_getLast? last)

/-- Any keyboard sequence leaves a stack that pushes can make. -/
theorem pushed_apply (op : KeyOp) {k : KittyKeyStack} (h : Terminal.Pushed k) :
    Terminal.Pushed (op.apply k) := by
  have few := h.few
  cases op with
  | push flags =>
    change Terminal.Pushed (k.push flags)
    unfold KittyKeyStack.push
    dsimp only
    split
    · rename_i full
      refine pushed_snoc ?_ (fun x mem => h.masked x (List.mem_of_mem_drop mem)) (masked_and flags)
      have room : 0 < KittyKeyStack.MAX_STACK := by decide
      rw [List.length_drop]
      omega
    · rename_i room
      exact pushed_snoc (Nat.lt_of_not_ge room) h.masked (masked_and flags)
  | pop n =>
    exact ⟨(List.length_take_le' ..).trans few, fun x mem => h.masked x (List.mem_of_mem_take mem)⟩
  | set flags mode =>
    change Terminal.Pushed (k.set flags mode)
    unfold KittyKeyStack.set
    have room : k.stack.dropLast.length < KittyKeyStack.MAX_STACK := by
      have some_ : 0 < KittyKeyStack.MAX_STACK := by decide
      rw [List.length_dropLast]
      omega
    refine pushed_snoc room (fun x mem => h.masked x (List.dropLast_subset _ mem)) ?_
    split
    · exact (masked_flags h).or (masked_and flags)
    · exact (masked_flags h).and _
    · exact masked_and flags
  | reset => exact pushed_nil

theorem Change.steady (change : Change s s') (h : s.Steady) : s'.Steady := by
  cases change with
  | region ordered => exact { h with region := .inl ordered }
  | whole => exact { h with region := .inr ⟨rfl, rfl⟩ }
  | resize rows => exact { h with region := .inr ⟨rfl, rfl⟩ }
  | shift one => exact { h with shift := one }
  | savePrimary => exact { h with savedPrimary := h.shift }
  | saveAlt => exact { h with savedAlt := h.shift }
  | restorePrimary => exact { h with shift := h.savedPrimary }
  | restoreAlt => exact { h with shift := h.savedAlt }
  | forgetPrimary => exact { h with savedPrimary := Nat.zero_le 1 }
  | forgetAlt => exact { h with savedAlt := Nat.zero_le 1 }
  | shape known => exact { h with shape := known }
  | keysPrimary op => exact { h with keysPrimary := pushed_apply op h.keysPrimary }
  | keysAlt op => exact { h with keysAlt := pushed_apply op h.keysAlt }

theorem steady_of_changes (changes : Relation.ReflTransGen Change s s') (h : s.Steady) : s'.Steady := by
  induction changes with
  | refl => exact h
  | tail _ change ih => exact change.steady ih

end Settings

end Posh.Term
