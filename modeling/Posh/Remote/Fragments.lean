import Posh.Lib.Checked
import Posh.Lib.Bytes
import Posh.Lib.Slots

/-!
Datagram fragmentation (`remote/sync.rs`): how a payload is split into fragments, how a
fragment travels, and how fragments are put together again.

A payload's fragments arrive in any order and more than once. `add_step` says what one of
them does to an assembly that holds some of the others.
-/

namespace Posh.Remote

open Posh.Lib

structure Fragment where
  id : UInt64
  num : UInt16
  isFinal : Bool
  contents : Bytes
deriving DecidableEq, Repr

def FRAG_HEADER_LEN : Nat := 10
def FRAGMENT_CONTENTS_MAX : Nat := 1400 - 24 - 4 - FRAG_HEADER_LEN

namespace Fragment

/-- Fragment numbers are capped at 15 bits; the top bit flags "final". -/
def combined (f : Fragment) : UInt16 :=
  f.isFinal.toUInt16 <<< 15 ||| (f.num &&& 0x7fff)

def toBytes (f : Fragment) : Bytes :=
  beBytes 8 f.id.toNat ++ beBytes 2 f.combined.toNat ++ f.contents

def fromBytes (data : Bytes) : Except String Fragment :=
  if data.length < FRAG_HEADER_LEN then .error "fragment too short"
  else
    let combined := UInt16.ofNat (ofBeBytes ((data.drop 8).take 2))
    .ok
      { id := UInt64.ofNat (ofBeBytes (data.take 8))
        num := combined &&& 0x7fff
        isFinal := combined &&& 0x8000 ≠ 0
        contents := data.drop FRAG_HEADER_LEN }

theorem or_and_distrib (a b c : UInt16) : (a ||| b) &&& c = a &&& c ||| b &&& c :=
  UInt16.toBitVec_inj.mp BitVec.and_or_distrib_right

theorem combined_and_num (f : Fragment) : f.combined &&& 0x7fff = f.num &&& 0x7fff := by
  have top : f.isFinal.toUInt16 <<< 15 &&& 0x7fff = 0 := by
    cases f.isFinal <;> decide
  rw [combined, or_and_distrib, top, UInt16.and_assoc, UInt16.and_self, UInt16.zero_or]

theorem combined_and_final (f : Fragment) : (f.combined &&& 0x8000 ≠ 0) ↔ f.isFinal = true := by
  have below : f.num &&& 0x7fff &&& 0x8000 = 0 := by
    rw [UInt16.and_assoc]
    exact UInt16.and_zero
  rw [combined, or_and_distrib, below, UInt16.or_zero]
  cases f.isFinal <;> decide

/-- A fragment travels as it is, but for the top bit of its number. -/
theorem fromBytes_toBytes (f : Fragment) :
    fromBytes f.toBytes = .ok { f with num := f.num &&& 0x7fff } := by
  have id : (f.toBytes.take 8) = beBytes 8 f.id.toNat := by
    simp [toBytes]
  have combined_ : (f.toBytes.drop 8).take 2 = beBytes 2 f.combined.toNat := by
    simp [toBytes]
  have contents : f.toBytes.drop FRAG_HEADER_LEN = f.contents := by
    exact List.drop_left' (by simp [FRAG_HEADER_LEN])
  have long : ¬ f.toBytes.length < FRAG_HEADER_LEN := by
    simp [toBytes, FRAG_HEADER_LEN]
    omega
  rw [fromBytes, if_neg long, id, combined_, contents]
  have id' : UInt64.ofNat (ofBeBytes (beBytes 8 f.id.toNat)) = f.id := by
    rw [ofBeBytes_beBytes_of_lt f.id.toNat_lt, UInt64.ofNat_toNat]
  have combined' : UInt16.ofNat (ofBeBytes (beBytes 2 f.combined.toNat)) = f.combined := by
    rw [ofBeBytes_beBytes_of_lt f.combined.toNat_lt, UInt16.ofNat_toNat]
  simp only [id', combined', combined_and_num, combined_and_final]
  simp

end Fragment

structure Fragmenter where
  nextId : UInt64 := 0
deriving DecidableEq, Repr

/-- The loop of `make_fragments`. Each pass but the last takes a byte at least, so that it
never runs out of fuel; with no room in a fragment the source would not return. The number
wraps as the release build's does. -/
def fragmentLoop (id : UInt64) (maxContents : Nat) : (fuel : Nat) → (num : UInt16) →
    (rest : Bytes) → List Fragment
  | 0, _, _ => []
  | fuel + 1, num, rest =>
      let take := min rest.length maxContents
      let tail := rest.drop take
      let isFinal := tail.isEmpty
      { id, num, isFinal, contents := rest.take take } ::
        if isFinal then [] else fragmentLoop id maxContents fuel (num + 1) tail

def Fragmenter.makeFragments (payload : Bytes) (maxContents : Nat) (f : Fragmenter) :
    List Fragment × Fragmenter :=
  let id := f.nextId + 1
  (fragmentLoop id maxContents (payload.length + 1) 0 payload, { nextId := id })

/-- Upper bound on fragments per instruction. -/
def MAX_FRAGMENTS : Nat := 8192

structure FragmentAssembly where
  currentId : Option UInt64 := none
  fragments : List (Option Bytes) := []
  arrived : Nat := 0
  total : Option Nat := none
deriving DecidableEq, Repr

namespace FragmentAssembly

/-- A fragment from a newer (or just different) id discards the partial assembly. -/
def attend (id : UInt64) (a : FragmentAssembly) : FragmentAssembly :=
  if a.currentId ≠ some id then
    { a with currentId := some id, fragments := [], arrived := 0, total := none }
  else a

/-- A fragment that cannot belong to a well-formed instruction: past the allocation cap,
past a known final index, or a final contradicting fragments received beyond it. -/
def bogus (frag : Fragment) (a : FragmentAssembly) : Bool :=
  let idx := frag.num.toNat
  idx ≥ MAX_FRAGMENTS || a.total.any (fun t => idx ≥ t) ||
    (frag.isFinal && (a.fragments.length > idx + 1 || a.total.any (fun t => t ≠ idx + 1)))

/-- `if fragments.len() <= idx { fragments.resize(idx + 1, None) }` -/
def resized (idx : Nat) (fragments : List (Option Bytes)) : List (Option Bytes) :=
  if fragments.length ≤ idx then
    fragments ++ List.replicate (idx + 1 - fragments.length) none
  else fragments

/-- The contents put into their slot, if it is empty, and the count of what arrived. -/
def fill (idx : Nat) (contents : Bytes) (fragments : List (Option Bytes)) (arrived : Nat) :
    Checked (List (Option Bytes) × Nat) := do
  let slot ← getAt fragments idx
  if slot.isNone then return (← setAt fragments idx (some contents), arrived + 1)
  else return (fragments, arrived)

/-- Adds one fragment; returns the reassembled payload once complete. -/
def add (frag : Fragment) (a : FragmentAssembly) : Checked (Option Bytes × FragmentAssembly) := do
  let a := a.attend frag.id
  if a.bogus frag then return (none, a)
  else
    let idx := frag.num.toNat
    let total := if frag.isFinal then some (idx + 1) else a.total
    let (fragments, arrived) ← fill idx frag.contents (resized idx a.fragments) a.arrived
    if total = some arrived ∧ fragments.length = arrived then
      let pieces ← fragments.mapM unwrap
      return (some pieces.flatten,
        { a with currentId := none, fragments := [], arrived := 0, total := none })
    else return (none, { a with fragments, arrived, total })

/-- Fragments added one after the other: what each of them returned, and the assembly after
the last. -/
def receive (a : FragmentAssembly) : List Fragment →
    Checked (List (Option Bytes) × FragmentAssembly)
  | [] => .ok ([], a)
  | frag :: frags => do
      let (out, a) ← a.add frag
      let (outs, a) ← receive a frags
      return (out :: outs, a)

end FragmentAssembly

/-! ### Splitting -/

/-- Fragments in order: numbered from `start` on, all of one id, the last of them final. -/
def Numbered (id : UInt64) (start : UInt16) (frags : List Fragment) : Prop :=
  ∀ i f, frags[i]? = some f →
    f.id = id ∧ f.num = start + UInt16.ofNat i ∧ (f.isFinal = true ↔ i + 1 = frags.length)

theorem fragmentLoop_spec (id : UInt64) {maxContents : Nat} (room : 1 ≤ maxContents)
    {fuel : Nat} {rest : Bytes} (enough : rest.length < fuel) (num : UInt16) :
    Numbered id num (fragmentLoop id maxContents fuel num rest) ∧
      ((fragmentLoop id maxContents fuel num rest).map (·.contents)).flatten = rest ∧
      fragmentLoop id maxContents fuel num rest ≠ [] := by
  induction fuel generalizing rest num with
  | zero => omega
  | succ fuel ih =>
    unfold fragmentLoop
    dsimp only
    by_cases last : (rest.drop (min rest.length maxContents)).isEmpty = true
    · have all : rest.take (min rest.length maxContents) = rest := by
        have split := List.take_append_drop (min rest.length maxContents) rest
        rwa [List.isEmpty_iff.mp last, List.append_nil] at split
      simp only [last, if_true, all]
      refine ⟨?_, by simp, by simp⟩
      intro i f found
      obtain ⟨inside, rfl⟩ := List.getElem?_eq_some_iff.mp found
      have first : i = 0 := by simpa using inside
      subst first
      simp
    · have more : 0 < (rest.drop (min rest.length maxContents)).length :=
        List.length_pos_iff.mpr fun none => last (List.isEmpty_iff.mpr none)
      have enough' : (rest.drop (min rest.length maxContents)).length < fuel := by
        rw [List.length_drop] at more ⊢
        omega
      obtain ⟨numbered, joined, some_⟩ := ih enough' (num + 1)
      rw [Bool.not_eq_true] at last
      simp only [last, Bool.false_eq_true, if_false]
      refine ⟨?_, ?_, by simp⟩
      · intro i f found
        cases i with
        | zero =>
          obtain rfl : _ = f := by simpa using found
          simpa using some_
        | succ i =>
          obtain ⟨same, next, final⟩ := numbered i f (by simpa using found)
          refine ⟨same, ?_, by simpa using final⟩
          rw [next, Nat.succ_eq_add_one, UInt16.ofNat_add, UInt16.add_assoc, UInt16.add_comm 1]
          rfl
      · rw [List.map_cons, List.flatten_cons, joined, List.take_append_drop]

/-- How many fragments a payload takes. -/
theorem length_fragmentLoop_le (id : UInt64) {maxContents : Nat} (room : 1 ≤ maxContents)
    {fuel : Nat} {rest : Bytes} (enough : rest.length < fuel) (num : UInt16) {k : Nat}
    (some_ : 1 ≤ k) :
    (fragmentLoop id maxContents fuel num rest).length ≤ k ↔ rest.length ≤ k * maxContents := by
  induction fuel generalizing rest num k with
  | zero => omega
  | succ fuel ih =>
    obtain ⟨k, rfl⟩ := Nat.exists_eq_add_of_le' some_
    unfold fragmentLoop
    dsimp only
    by_cases last : (rest.drop (min rest.length maxContents)).isEmpty = true
    · have short : rest.length ≤ maxContents := by
        have none := congrArg List.length (List.isEmpty_iff.mp last)
        simp only [List.length_drop, List.length_nil] at none
        omega
      simp only [last, if_true, List.length_singleton, Nat.add_mul]
      omega
    · have more : maxContents < rest.length := by
        have more := List.length_pos_iff.mpr fun none => last (List.isEmpty_iff.mpr none)
        rw [List.length_drop] at more
        omega
      have enough' : (rest.drop (min rest.length maxContents)).length < fuel := by
        rw [List.length_drop]
        omega
      have later := ih enough' (num + 1) (k := k)
      rw [Bool.not_eq_true] at last
      simp only [last, Bool.false_eq_true, if_false, List.length_cons, Nat.add_mul]
      rw [List.length_drop] at later
      rcases Nat.eq_zero_or_pos k with rfl | some_
      · have := (fragmentLoop_spec id room enough' (num + 1)).2.2
        have := List.length_pos_iff.mpr this
        omega
      · have := later some_
        omega

/-- No fragment carries more than it has room for. -/
theorem length_contents_le (id : UInt64) (maxContents fuel : Nat) (num : UInt16) (rest : Bytes) :
    ∀ f ∈ fragmentLoop id maxContents fuel num rest, f.contents.length ≤ maxContents := by
  induction fuel generalizing rest num with
  | zero => exact nofun
  | succ fuel ih =>
    unfold fragmentLoop
    dsimp only
    intro f mem
    rcases List.mem_cons.mp mem with rfl | mem
    · simp
    · split at mem
      · cases mem
      · exact ih _ _ f mem

namespace FragmentAssembly

/-! ### Putting together -/

/-- Of the fragments of one id, the assembly holds those numbered by `there`. -/
structure Assembling (id : UInt64) (frags : List Fragment) (there : Set Nat)
    (a : FragmentAssembly) : Prop where
  id : a.currentId = some id
  hold : Hold (frags.map (·.contents)) there a.fragments
  arrived : a.arrived = a.fragments.countP Option.isSome
  total : (a.total = none ∧ frags.length - 1 ∉ there) ∨
    (a.total = some frags.length ∧ a.fragments.length = frags.length)

variable {id : UInt64} {frags : List Fragment} {there : Set Nat} {a : FragmentAssembly}

theorem assembling_attend (frags : List Fragment) (other : a.currentId ≠ some id) :
    Assembling id frags ∅ (a.attend id) := by
  rw [attend, if_pos other]
  exact ⟨rfl, Hold.nil _, rfl, .inl ⟨rfl, Set.notMem_empty _⟩⟩

theorem attend_of_assembling (h : Assembling id frags there a) : a.attend id = a :=
  if_neg fun other => other h.id

/-- The numbers of well-formed fragments are their places. -/
theorem toNat_num (numbered : Numbered id 0 frags) (few : frags.length ≤ MAX_FRAGMENTS) {i : Nat}
    {f : Fragment} (found : frags[i]? = some f) : f.num.toNat = i := by
  have inside := (List.getElem?_eq_some_iff.mp found).1
  have small : i < 2 ^ 16 := by
    unfold MAX_FRAGMENTS at few
    omega
  rw [(numbered i f found).2.1, UInt16.zero_add, UInt16.toNat_ofNat_of_lt' small]

theorem not_bogus (h : Assembling id frags there a) (numbered : Numbered id 0 frags)
    (few : frags.length ≤ MAX_FRAGMENTS) {i : Nat} {f : Fragment} (found : frags[i]? = some f) :
    a.bogus f = false := by
  have inside := (List.getElem?_eq_some_iff.mp found).1
  have num := toNat_num numbered few found
  have final := (numbered i f found).2.2
  have short := h.hold.inside
  rw [List.length_map] at short
  rw [bogus]
  rcases h.total with ⟨total, -⟩ | ⟨total, length⟩
  · simp only [num, total, Option.any_none, Bool.or_false, Bool.or_eq_false_iff,
      decide_eq_false_iff_not, Bool.and_eq_false_imp, final]
    omega
  · simp only [num, total, Option.any_some, Bool.or_eq_false_iff, decide_eq_false_iff_not,
      Bool.and_eq_false_imp, final]
    omega

/-- The slots after `resized` reach the fragment's. -/
theorem hold_resized (h : Assembling id frags there a) {i : Nat} (inside : i < frags.length) :
    Hold (frags.map (·.contents)) there (resized i a.fragments) ∧
      i < (resized i a.fragments).length ∧
      (resized i a.fragments).countP Option.isSome = a.fragments.countP Option.isSome ∧
      a.fragments.length ≤ (resized i a.fragments).length := by
  unfold resized
  by_cases short : a.fragments.length ≤ i
  · rw [if_pos short]
    refine ⟨h.hold.grow ?_, ?_, ?_, ?_⟩
    · simp
      omega
    · simp
      omega
    · simp [List.countP_replicate]
    · simp
  · rw [if_neg short]
    exact ⟨h.hold, Nat.lt_of_not_le short, rfl, Nat.le_refl _⟩

theorem fill_eq {pieces : List Bytes} {slots : List (Option Bytes)} (hold : Hold pieces there slots)
    {i : Nat} (inside : i < slots.length) {contents : Bytes} (piece : pieces[i]? = some contents) :
    ∃ slots', fill i contents slots (slots.countP Option.isSome) =
        .ok (slots', slots'.countP Option.isSome) ∧
      Hold pieces (insert i there) slots' ∧ slots'.length = slots.length := by
  rw [fill, getAt_eq_ok inside]
  cases slot : slots[i] with
  | none =>
    have empty : slots[i]? = some none := by rw [List.getElem?_eq_getElem inside, slot]
    refine ⟨slots.set i (some contents), ?_, hold.put piece inside, by simp⟩
    rw [countP_isSome_set empty]
    simp only [setAt, if_pos inside]
    rfl
  | some x =>
    have there : i ∈ there :=
      (hold.filled i).mp ⟨x, by rw [List.getElem?_eq_getElem inside, slot]⟩
    exact ⟨slots, rfl, hold.again there, rfl⟩

theorem mapM_unwrap (xs : List Bytes) : (xs.map some).mapM unwrap = .ok xs := by
  induction xs with
  | nil => rfl
  | cons x xs ih =>
    rw [List.map_cons, List.mapM_cons, ih]
    rfl

/-- What one of the fragments does to an assembly that holds some of them: it completes the
payload if it was the last one missing, and is held otherwise. -/
theorem add_step (h : Assembling id frags there a) (numbered : Numbered id 0 frags)
    (few : frags.length ≤ MAX_FRAGMENTS) {i : Nat} {f : Fragment} (found : frags[i]? = some f) :
    ((∀ j < frags.length, j ∈ insert i there) ∧
      a.add f = .ok (some (frags.map (·.contents)).flatten, {})) ∨
    ((¬ ∀ j < frags.length, j ∈ insert i there) ∧
      ∃ a', a.add f = .ok (none, a') ∧ Assembling id frags (insert i there) a') := by
  have inside := (List.getElem?_eq_some_iff.mp found).1
  have num := toNat_num numbered few found
  obtain ⟨same, -, final⟩ := numbered i f found
  obtain ⟨hold, reach, count, longer⟩ := hold_resized h inside
  have piece : (frags.map (·.contents))[i]? = some f.contents := by
    rw [List.getElem?_map, found]
    rfl
  obtain ⟨slots, filled, hold', length⟩ := fill_eq hold reach piece
  rw [count, ← h.arrived] at filled
  have short := hold'.inside
  rw [List.length_map] at short
  have total : ((if f.isFinal then some (i + 1) else a.total) = none ∧
        frags.length - 1 ∉ insert i there) ∨
      ((if f.isFinal then some (i + 1) else a.total) = some frags.length ∧
        slots.length = frags.length) := by
    by_cases last : f.isFinal = true
    · have := final.mp last
      rw [if_pos last]
      exact .inr ⟨congrArg some this, by omega⟩
    · rw [if_neg last]
      rcases h.total with ⟨total, missing⟩ | ⟨total, length'⟩
      · refine .inl ⟨total, fun mem => ?_⟩
        rcases Set.mem_insert_iff.mp mem with eq | mem
        · exact last (final.mpr (by omega))
        · exact missing mem
      · exact .inr ⟨total, by omega⟩
  have all := hold'.forall_mem_iff
  rw [List.length_map] at all
  unfold add
  rw [same, attend_of_assembling h]
  simp only [not_bogus h numbered few found, num, filled, Bool.false_eq_true, if_false]
  by_cases complete : ∀ j < frags.length, j ∈ insert i there
  · obtain ⟨full, whole⟩ := all.mp complete
    refine .inl ⟨complete, ?_⟩
    have known : (if f.isFinal then some (i + 1) else a.total) = some frags.length := by
      rcases total with ⟨-, missing⟩ | ⟨known, -⟩
      · exact absurd (complete _ (by omega)) missing
      · exact known
    have done : (if f.isFinal then some (i + 1) else a.total) =
        some (slots.countP Option.isSome) ∧ slots.length = slots.countP Option.isSome :=
      ⟨by rw [known, full, whole], full.symm⟩
    have unwrapped : slots.mapM unwrap = .ok (frags.map (·.contents)) := by
      rw [hold'.complete full (by rw [whole, List.length_map]), mapM_unwrap]
    change (if _ then _ else _) = _
    rw [if_pos done, unwrapped]
    rfl
  · refine .inr ⟨complete, ?_⟩
    have waiting : ¬ ((if f.isFinal then some (i + 1) else a.total) =
        some (slots.countP Option.isSome) ∧ slots.length = slots.countP Option.isSome) := by
      rintro ⟨known, full⟩
      refine complete (all.mpr ⟨full.symm, ?_⟩)
      rcases total with ⟨none, -⟩ | ⟨-, whole⟩
      · rw [none] at known
        cases known
      · exact whole
    refine ⟨{ a with
      fragments := slots
      arrived := slots.countP Option.isSome
      total := if f.isFinal then some (i + 1) else a.total }, ?_, h.id, hold', rfl, total⟩
    change (if _ then _ else _) = _
    rw [if_neg waiting]
    rfl

/-- A fragment is added to what is kept of the assembly. -/
theorem add_attend (frag : Fragment) (a : FragmentAssembly) :
    (a.attend frag.id).add frag = a.add frag := by
  have twice : (a.attend frag.id).attend frag.id = a.attend frag.id := by
    by_cases other : a.currentId ≠ some frag.id
    · rw [attend, attend, if_pos other, if_neg (by simp)]
    · rw [attend, attend, if_neg other, if_neg other]
  unfold add
  rw [twice]

theorem id_of_numbered {start : UInt16} (numbered : Numbered id start frags)
    {arrivals : List Fragment} (subset : arrivals ⊆ frags) : ∀ frag ∈ arrivals, frag.id = id := by
  intro frag mem
  obtain ⟨i, found⟩ := List.mem_iff_getElem?.mp (subset mem)
  exact (numbered i frag found).1

/-- The first fragment to arrive clears the assembly. -/
theorem receive_attend {arrivals : List Fragment} (ids : ∀ frag ∈ arrivals, frag.id = id)
    (some_ : arrivals ≠ []) : a.receive arrivals = (a.attend id).receive arrivals := by
  cases arrivals with
  | nil => exact absurd rfl some_
  | cons frag arrivals =>
    rw [receive, receive, ← add_attend, ids frag List.mem_cons_self]

/-- The places of the fragments that arrived. -/
def places (frags arrivals : List Fragment) : Set Nat :=
  {i | ∃ f ∈ arrivals, frags[i]? = some f}

theorem places_cons (numbered : Numbered id 0 frags) (few : frags.length ≤ MAX_FRAGMENTS) {i : Nat}
    {f : Fragment} (found : frags[i]? = some f) (there : Set Nat) (arrivals : List Fragment) :
    there ∪ places frags (f :: arrivals) = insert i there ∪ places frags arrivals := by
  ext j
  simp only [places, Set.mem_union, Set.mem_ofPred_eq, List.mem_cons, exists_eq_or_imp,
    Set.mem_insert_iff]
  have only : frags[j]? = some f ↔ j = i := by
    constructor
    · intro found'
      rw [← toNat_num numbered few found, ← toNat_num numbered few found']
    · rintro rfl
      exact found
  rw [only]
  tauto

/-- As long as some of the fragments are missing, nothing is returned. -/
theorem receive_waiting (numbered : Numbered id 0 frags) (few : frags.length ≤ MAX_FRAGMENTS)
    {arrivals : List Fragment} (subset : arrivals ⊆ frags) (h : Assembling id frags there a)
    (missing : ¬ ∀ j < frags.length, j ∈ there ∪ places frags arrivals) :
    ∃ last, a.receive arrivals = .ok (List.replicate arrivals.length none, last) ∧
      Assembling id frags (there ∪ places frags arrivals) last := by
  induction arrivals generalizing there a with
  | nil =>
    have nothing : there ∪ places frags [] = there := by
      ext j
      simp [places]
    rw [nothing]
    exact ⟨a, rfl, h⟩
  | cons f arrivals ih =>
    obtain ⟨mem, subset⟩ := List.cons_subset.mp subset
    obtain ⟨i, found⟩ := List.mem_iff_getElem?.mp mem
    rw [places_cons numbered few found] at missing ⊢
    rcases add_step h numbered few found with ⟨complete, -⟩ | ⟨-, a', added, held⟩
    · exact absurd (fun j inside => Set.mem_union_left _ (complete j inside)) missing
    · obtain ⟨last, received, held'⟩ := ih subset held missing
      refine ⟨last, ?_, held'⟩
      rw [receive, added]
      change (receive a' arrivals >>= _) = _
      rw [received]
      rfl

theorem receive_append (a : FragmentAssembly) {front back : List Fragment}
    {outs : List (Option Bytes)} {mid : FragmentAssembly}
    (received : a.receive front = .ok (outs, mid)) :
    a.receive (front ++ back) = (do
      let (outs', last) ← mid.receive back
      return (outs ++ outs', last)) := by
  induction front generalizing a outs with
  | nil =>
    obtain ⟨rfl, rfl⟩ := Prod.mk.inj (Except.ok.inj received)
    cases eq : a.receive back with
    | error p => rw [List.nil_append, eq]; rfl
    | ok r => rw [List.nil_append, eq]; rfl
  | cons f front ih =>
    rw [receive] at received
    cases added : a.add f with
    | error p =>
      rw [added] at received
      cases received
    | ok r =>
      obtain ⟨out, next⟩ := r
      rw [added] at received
      change (next.receive front >>= _) = _ at received
      cases rest : next.receive front with
      | error p =>
        rw [rest] at received
        cases received
      | ok r =>
        obtain ⟨outs', mid'⟩ := r
        rw [rest] at received
        obtain ⟨rfl, rfl⟩ := Prod.mk.inj (Except.ok.inj received)
        rw [List.cons_append, receive, added]
        change (next.receive (front ++ back) >>= _) = _
        rw [ih next rest]
        cases mid'.receive back with
        | error p => rfl
        | ok r => rfl

/-- All fragments have arrived if their places are taken. -/
theorem forall_mem_places (arrivals : List Fragment) :
    (∀ j < frags.length, j ∈ ∅ ∪ places frags arrivals) ↔ frags ⊆ arrivals := by
  simp only [Set.empty_union, places, Set.mem_ofPred_eq]
  constructor
  · intro all f mem
    obtain ⟨i, inside, rfl⟩ := List.getElem_of_mem mem
    obtain ⟨f, arrived, found⟩ := all i inside
    rw [List.getElem?_eq_getElem inside] at found
    exact Option.some.inj found ▸ arrived
  · intro all i inside
    exact ⟨frags[i], all (List.getElem_mem inside), List.getElem?_eq_getElem inside⟩

/-! ### Fragments of many payloads -/

/-- A fragment of one of the payloads sent: `sent` gives the payload of an id, and the room
its fragments had. -/
def Sent (sent : UInt64 → Option (Bytes × Nat)) (frag : Fragment) : Prop :=
  ∃ (f : Fragmenter) (payload : Bytes) (maxContents : Nat),
    sent (f.nextId + 1) = some (payload, maxContents) ∧ 1 ≤ maxContents ∧
      (f.makeFragments payload maxContents).1.length ≤ MAX_FRAGMENTS ∧
      frag ∈ (f.makeFragments payload maxContents).1

/-- The assembly is between two payloads, or holds fragments of one that was sent. -/
def Sound (sent : UInt64 → Option (Bytes × Nat)) (a : FragmentAssembly) : Prop :=
  a.currentId = none ∨
    ∃ (f : Fragmenter) (payload : Bytes) (maxContents : Nat) (there : Set Nat),
      sent (f.nextId + 1) = some (payload, maxContents) ∧
      Assembling (f.nextId + 1) (f.makeFragments payload maxContents).1 there a

theorem numbered_makeFragments (f : Fragmenter) (payload : Bytes) {maxContents : Nat}
    (room : 1 ≤ maxContents) :
    Numbered (f.nextId + 1) 0 (f.makeFragments payload maxContents).1 :=
  (fragmentLoop_spec _ room (Nat.lt_succ_self _) 0).1

theorem flatten_makeFragments {f : Fragmenter} {payload : Bytes} {maxContents : Nat}
    (room : 1 ≤ maxContents) :
    ((f.makeFragments payload maxContents).1.map (·.contents)).flatten = payload :=
  (fragmentLoop_spec _ room (Nat.lt_succ_self _) 0).2.1

theorem add_sent {sent : UInt64 → Option (Bytes × Nat)} (sound : Sound sent a) {frag : Fragment}
    (good : Sent sent frag) :
    ∃ out a', a.add frag = .ok (out, a') ∧ Sound sent a' ∧
      ∀ payload, out = some payload → ∃ maxContents, sent frag.id = some (payload, maxContents) := by
  obtain ⟨f, payload, maxContents, known, room, few, mem⟩ := good
  obtain ⟨i, found⟩ := List.mem_iff_getElem?.mp mem
  have numbered := numbered_makeFragments f payload room
  have id := (numbered i frag found).1
  have held : ∃ there, Assembling (f.nextId + 1) (f.makeFragments payload maxContents).1 there
      (a.attend (f.nextId + 1)) := by
    by_cases other : a.currentId ≠ some (f.nextId + 1)
    · exact ⟨∅, assembling_attend _ other⟩
    · rcases sound with idle | ⟨f', payload', maxContents', there, known', held⟩
      · rw [idle] at other
        exact absurd nofun other
      · have same : f' = f := by
          have ids := held.id.symm.trans (not_not.mp other)
          have next := (UInt64.add_left_inj 1).mp (Option.some.inj ids)
          cases f
          cases f'
          exact congrArg _ next
        subst same
        obtain ⟨rfl, rfl⟩ := Prod.mk.inj (Option.some.inj (known'.symm.trans known))
        rw [attend_of_assembling held]
        exact ⟨there, held⟩
  obtain ⟨there, held⟩ := held
  rw [← add_attend, id]
  rcases add_step held numbered few found with ⟨-, added⟩ | ⟨-, a', added, held'⟩
  · refine ⟨_, _, added, .inl rfl, ?_⟩
    rintro payload' eq
    rw [flatten_makeFragments room] at eq
    exact ⟨maxContents, Option.some.inj eq ▸ known⟩
  · exact ⟨_, _, added, .inr ⟨f, payload, maxContents, _, known, held'⟩, nofun⟩

/-- Whatever arrives of the payloads sent, each payload returned is the one sent with the
id of the fragment it is returned on. -/
theorem receive_sent {sent : UInt64 → Option (Bytes × Nat)} (sound : Sound sent a)
    {arrivals : List Fragment} (good : ∀ frag ∈ arrivals, Sent sent frag) :
    ∃ outs last, a.receive arrivals = .ok (outs, last) ∧
      List.Forall₂ (fun frag out => ∀ payload, out = some payload →
        ∃ maxContents, sent frag.id = some (payload, maxContents)) arrivals outs := by
  induction arrivals generalizing a with
  | nil => exact ⟨[], a, rfl, .nil⟩
  | cons frag arrivals ih =>
    obtain ⟨first, later⟩ := List.forall_mem_cons.mp good
    obtain ⟨out, a', added, sound', exact_⟩ := add_sent sound first
    obtain ⟨outs, last, received, exacts⟩ := ih sound' later
    refine ⟨out :: outs, last, ?_, .cons exact_ exacts⟩
    rw [receive, added]
    change (receive a' arrivals >>= _) = _
    rw [received]
    rfl

/-- Of the fragments of one payload, an assembly that held none returns nothing until the
last of them has arrived. -/
theorem receive_makeFragments {f : Fragmenter} {payload : Bytes} {maxContents : Nat}
    (room : 1 ≤ maxContents) (few : (f.makeFragments payload maxContents).1.length ≤ MAX_FRAGMENTS)
    (other : a.currentId ≠ some (f.nextId + 1)) {arrivals : List Fragment}
    (subset : arrivals ⊆ (f.makeFragments payload maxContents).1)
    (missing : ¬ (f.makeFragments payload maxContents).1 ⊆ arrivals) :
    (∃ last, a.receive arrivals = .ok (List.replicate arrivals.length none, last)) ∧
    ∀ frag ∈ (f.makeFragments payload maxContents).1,
      (f.makeFragments payload maxContents).1 ⊆ arrivals ++ [frag] →
      a.receive (arrivals ++ [frag]) =
        .ok (List.replicate arrivals.length none ++ [some payload], {}) := by
  have numbered := numbered_makeFragments f payload room
  have missing' := mt (forall_mem_places arrivals).mp missing
  have start := assembling_attend (f.makeFragments payload maxContents).1 other
  obtain ⟨last, received, held⟩ := receive_waiting numbered few subset start missing'
  constructor
  · by_cases none : arrivals = []
    · subst none
      exact ⟨a, rfl⟩
    · exact ⟨last, (receive_attend (id_of_numbered numbered subset) none).trans received⟩
  · intro frag mem all
    obtain ⟨i, found⟩ := List.mem_iff_getElem?.mp mem
    have subset' : arrivals ++ [frag] ⊆ (f.makeFragments payload maxContents).1 :=
      List.append_subset.mpr ⟨subset, by simpa using mem⟩
    rw [receive_attend (id_of_numbered numbered subset') (by simp), receive_append _ received]
    have complete (j : Nat) (inside : j < (f.makeFragments payload maxContents).1.length) :
        j ∈ insert i (∅ ∪ places (f.makeFragments payload maxContents).1 arrivals) := by
      rcases (forall_mem_places (arrivals ++ [frag])).mpr all j inside with none | ⟨g, mem, found'⟩
      · exact absurd none (Set.notMem_empty j)
      · rcases List.mem_append.mp mem with old | new
        · exact Set.mem_insert_of_mem i (.inr ⟨g, old, found'⟩)
        · obtain rfl := List.mem_singleton.mp new
          rw [← toNat_num numbered few found, ← toNat_num numbered few found']
          exact Set.mem_insert _ _
    rcases add_step held numbered few found with ⟨-, added⟩ | ⟨incomplete, -⟩
    · rw [receive, added, flatten_makeFragments room]
      rfl
    · exact absurd complete incomplete

/-- Every payload returned is the one sent with the id of its fragment, whatever arrives;
and of the fragments of one id, the last that was missing returns the payload, and none
before. -/
theorem reassembly_exact :
    (∀ (sent : UInt64 → Option (Bytes × Nat)) (arrivals : List Fragment),
      (∀ frag ∈ arrivals, Sent sent frag) →
      ∃ outs last, receive {} arrivals = .ok (outs, last) ∧
        List.Forall₂ (fun frag out => ∀ payload, out = some payload →
          ∃ maxContents, sent frag.id = some (payload, maxContents)) arrivals outs) ∧
    ∀ (f : Fragmenter) (payload : Bytes) (maxContents : Nat), 1 ≤ maxContents →
      (f.makeFragments payload maxContents).1.length ≤ MAX_FRAGMENTS →
      ∀ a : FragmentAssembly, a.currentId ≠ some (f.nextId + 1) →
      ∀ arrivals : List Fragment, arrivals ⊆ (f.makeFragments payload maxContents).1 →
      ¬ (f.makeFragments payload maxContents).1 ⊆ arrivals →
      (∃ last, a.receive arrivals = .ok (List.replicate arrivals.length none, last)) ∧
      ∀ frag ∈ (f.makeFragments payload maxContents).1,
        (f.makeFragments payload maxContents).1 ⊆ arrivals ++ [frag] →
        a.receive (arrivals ++ [frag]) =
          .ok (List.replicate arrivals.length none ++ [some payload], {}) :=
  ⟨fun _ _ good => receive_sent (.inl rfl) good,
    fun _ _ _ room few _ other _ subset missing =>
      receive_makeFragments room few other subset missing⟩

/-- Three bytes, sent with the first id. -/
def threeBytes (id : UInt64) : Option (Bytes × Nat) :=
  if id = 1 then some ([1, 2, 3], 2) else none

/-- Their fragments. -/
def twoFragments : List Fragment :=
  (Fragmenter.makeFragments [1, 2, 3] 2 {}).1

theorem sent_twoFragments : ∀ frag ∈ twoFragments, Sent threeBytes frag :=
  fun _ mem => ⟨{}, [1, 2, 3], 2, rfl, by decide, by decide, mem⟩

theorem reassembly_exact_reversed :
    (∃ outs last, receive {} twoFragments.reverse = .ok (outs, last) ∧
      List.Forall₂ (fun frag out => ∀ payload, out = some payload →
        ∃ maxContents, threeBytes frag.id = some (payload, maxContents))
        twoFragments.reverse outs) ∧
    receive {} ([twoFragments[1], twoFragments[1]] ++ [twoFragments[0]]) =
      .ok ([none, none, some [1, 2, 3]], {}) :=
  ⟨reassembly_exact.1 threeBytes _ fun frag mem => sent_twoFragments frag (List.mem_reverse.mp mem),
    (reassembly_exact.2 {} [1, 2, 3] 2 (by decide) (by decide) {} (by decide)
      [twoFragments[1], twoFragments[1]] (by decide) (by decide)).2 twoFragments[0] (by decide)
      (by decide)⟩

end FragmentAssembly

end Posh.Remote
