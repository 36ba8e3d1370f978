import Mathlib.Data.List.Basic

/-!
The kitty keyboard flag stack of one screen (the terminal side of `kitty_keys.rs`).
-/

namespace Posh.Term

structure KittyKeyStack where
  /-- Oldest entry first. -/
  stack : List UInt8 := []
deriving DecidableEq, Repr

namespace KittyKeyStack

def MAX_STACK : Nat := 128

def flags (k : KittyKeyStack) : UInt8 :=
  k.stack.getLast?.getD 0

def entries (k : KittyKeyStack) : List UInt8 :=
  k.stack

def push (flags : UInt8) (k : KittyKeyStack) : KittyKeyStack :=
  let kept := if k.stack.length ≥ MAX_STACK then k.stack.drop 1 else k.stack
  { stack := kept ++ [flags &&& 0x1f] }

def pop (n : Nat) (k : KittyKeyStack) : KittyKeyStack :=
  { stack := k.stack.take (k.stack.length - n) }

/-- `CSI = flags ; mode u`: mode 1 sets, 2 adds and 3 removes. -/
def set (flags : UInt8) (mode : Nat) (k : KittyKeyStack) : KittyKeyStack :=
  let new := match mode with
    | 2 => k.flags ||| (flags &&& 0x1f)
    | 3 => k.flags &&& ~~~(flags &&& 0x1f)
    | _ => flags &&& 0x1f
  { stack := k.stack.dropLast ++ [new] }

def reset (_ : KittyKeyStack) : KittyKeyStack :=
  {}

end KittyKeyStack

end Posh.Term
