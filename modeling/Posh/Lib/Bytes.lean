import Mathlib.Data.List.Basic
import Mathlib.Tactic.Ring

/-!
Byte strings and the integers they spell, independent of any wire format.
-/

namespace Posh.Lib

abbrev Bytes := List UInt8

/-- The low `width` bytes of `value`, least significant first. -/
def leBytes : (width value : Nat) → Bytes
  | 0, _ => []
  | width + 1, value => UInt8.ofNat value :: leBytes width (value / 256)

/-- The integer a little-endian byte string denotes. -/
def ofLeBytes : Bytes → Nat
  | [] => 0
  | b :: rest => b.toNat + 256 * ofLeBytes rest

@[simp] theorem length_leBytes (width value : Nat) :
    (leBytes width value).length = width := by
  induction width generalizing value with
  | zero => rfl
  | succ width ih => simp [leBytes, ih]

/-- Reading back a written integer loses exactly what the width cannot hold. -/
theorem ofLeBytes_leBytes (width value : Nat) :
    ofLeBytes (leBytes width value) = value % 256 ^ width := by
  induction width generalizing value with
  | zero => simp [leBytes, ofLeBytes, Nat.mod_one]
  | succ width ih =>
    have split : value % 256 ^ (width + 1) = value % 256 + 256 * (value / 256 % 256 ^ width) := by
      rw [pow_succ, Nat.mul_comm, Nat.mod_mul]
    simp [leBytes, ofLeBytes, ih, split]

theorem ofLeBytes_leBytes_of_lt {width value : Nat} (fits : value < 256 ^ width) :
    ofLeBytes (leBytes width value) = value := by
  rw [ofLeBytes_leBytes, Nat.mod_eq_of_lt fits]

theorem ofLeBytes_lt (bytes : Bytes) : ofLeBytes bytes < 256 ^ bytes.length := by
  induction bytes with
  | nil => simp [ofLeBytes]
  | cons b rest ih =>
    have byte := b.toNat_lt
    simp only [ofLeBytes, List.length_cons, pow_succ]
    omega

/-- Writing back an integer that was read gives the bytes it was read from. -/
theorem leBytes_ofLeBytes (bytes : Bytes) : leBytes bytes.length (ofLeBytes bytes) = bytes := by
  induction bytes with
  | nil => rfl
  | cons b rest ih =>
    have byte : UInt8.ofNat (b.toNat + 256 * ofLeBytes rest) = b := by
      apply UInt8.toNat_inj.mp
      have := b.toNat_lt
      simp only [UInt8.toNat_ofNat']
      omega
    have later : (b.toNat + 256 * ofLeBytes rest) / 256 = ofLeBytes rest := by
      have := b.toNat_lt
      omega
    rw [List.length_cons, leBytes, ofLeBytes, byte, later, ih]

/-- The low `width` bytes of `value`, most significant first. -/
def beBytes (width value : Nat) : Bytes :=
  (leBytes width value).reverse

/-- The integer a big-endian byte string denotes. -/
def ofBeBytes (bytes : Bytes) : Nat :=
  ofLeBytes bytes.reverse

@[simp] theorem length_beBytes (width value : Nat) : (beBytes width value).length = width := by
  simp [beBytes]

theorem ofBeBytes_beBytes_of_lt {width value : Nat} (fits : value < 256 ^ width) :
    ofBeBytes (beBytes width value) = value := by
  simp [ofBeBytes, beBytes, ofLeBytes_leBytes_of_lt fits]

theorem ofBeBytes_lt (bytes : Bytes) : ofBeBytes bytes < 256 ^ bytes.length := by
  simpa [ofBeBytes] using ofLeBytes_lt bytes.reverse

theorem beBytes_ofBeBytes (bytes : Bytes) : beBytes bytes.length (ofBeBytes bytes) = bytes := by
  have written := leBytes_ofLeBytes bytes.reverse
  rw [List.length_reverse] at written
  rw [beBytes, ofBeBytes, written, List.reverse_reverse]

theorem foldl_eq_ofBeBytes (bytes : Bytes) :
    bytes.foldl (fun n b => n * 256 + b.toNat) 0 = ofBeBytes bytes := by
  have little (bytes : Bytes) :
      bytes.foldr (fun b n => n * 256 + b.toNat) 0 = ofLeBytes bytes := by
    induction bytes with
    | nil => rfl
    | cons b rest ih =>
      rw [List.foldr_cons, ih, ofLeBytes]
      omega
  rw [List.foldl_eq_foldr_reverse]
  exact little bytes.reverse

/-- `xs.chunks(n)`; `fuel` bounds the number of chunks. -/
def chunksLoop {α : Type} (n : Nat) : (fuel : Nat) → List α → List (List α)
  | 0, _ => []
  | _ + 1, [] => []
  | fuel + 1, x :: xs => (x :: xs).take n :: chunksLoop n fuel ((x :: xs).drop n)

def chunks {α : Type} (n : Nat) (xs : List α) : List (List α) :=
  chunksLoop n xs.length xs

theorem flatten_chunks {α : Type} {n : Nat} (some_ : 0 < n) (xs : List α) :
    (chunks n xs).flatten = xs := by
  have loop (fuel : Nat) (xs : List α) (enough : xs.length ≤ fuel) :
      (chunksLoop n fuel xs).flatten = xs := by
    induction fuel generalizing xs with
    | zero =>
      rw [List.length_eq_zero_iff.mp (Nat.le_zero.mp enough)]
      rfl
    | succ fuel ih =>
      cases xs with
      | nil => rfl
      | cons x xs =>
        have shorter : ((x :: xs).drop n).length ≤ fuel := by
          rw [List.length_drop]
          simp only [List.length_cons] at enough ⊢
          omega
        rw [chunksLoop, List.flatten_cons, ih _ shorter, List.take_append_drop]
  exact loop xs.length xs (Nat.le_refl _)

theorem length_le_of_mem_chunks {α : Type} {n : Nat} {xs chunk : List α}
    (mem : chunk ∈ chunks n xs) : chunk.length ≤ n := by
  have loop (fuel : Nat) (xs : List α) (mem : chunk ∈ chunksLoop n fuel xs) :
      chunk.length ≤ n := by
    induction fuel generalizing xs with
    | zero => cases mem
    | succ fuel ih =>
      cases xs with
      | nil => cases mem
      | cons x xs =>
        rcases List.mem_cons.mp mem with rfl | later
        · exact List.length_take_le _ _
        · exact ih _ later
  exact loop xs.length xs mem

/-- Chunks that share out evenly are all full. -/
theorem length_of_mem_chunks {α : Type} {n : Nat} {xs chunk : List α}
    (even : n ∣ xs.length) (mem : chunk ∈ chunks n xs) : chunk.length = n := by
  have loop (fuel : Nat) (xs : List α) (even : n ∣ xs.length)
      (mem : chunk ∈ chunksLoop n fuel xs) : chunk.length = n := by
    induction fuel generalizing xs with
    | zero => cases mem
    | succ fuel ih =>
      cases xs with
      | nil => cases mem
      | cons x xs =>
        rw [chunksLoop] at mem
        rcases List.mem_cons.mp mem with rfl | later
        · have enough := Nat.le_of_dvd (Nat.succ_pos _) even
          rw [List.length_take, List.length_cons]
          exact Nat.min_eq_left enough
        · refine ih _ ?_ later
          rw [List.length_drop]
          exact Nat.dvd_sub even (Nat.dvd_refl n)
  exact loop xs.length xs even mem

/-- The chunks that are full, the one being filled, and the rest. -/
theorem toChunks_go {α : Type} {n : Nat} (some_ : 0 < n) (xs : List α) (filling : Array α)
    (full : Array (List α)) (few : filling.size ≤ n) (short : ∀ c ∈ full.toList, c.length ≤ n) :
    (List.toChunks.go n xs filling full).flatten =
        full.toList.flatten ++ filling.toList ++ xs ∧
      ∀ c ∈ List.toChunks.go n xs filling full, c.length ≤ n := by
  have pushed {filling : Array α} {full : Array (List α)} (few : filling.size ≤ n)
      (short : ∀ c ∈ full.toList, c.length ≤ n) :
      (full.push filling.toList).toList.flatten = full.toList.flatten ++ filling.toList ∧
        ∀ c ∈ (full.push filling.toList).toList, c.length ≤ n := by
    rw [Array.toList_push]
    refine ⟨by rw [List.flatten_append, List.flatten_singleton], ?_⟩
    intro c mem
    rcases List.mem_append.mp mem with old | new
    · exact short c old
    · rw [List.mem_singleton.mp new]
      exact few
  induction xs generalizing filling full with
  | nil =>
    rw [List.toChunks.go, List.append_nil]
    exact pushed few short
  | cons x xs ih =>
    rw [List.toChunks.go]
    split
    · obtain ⟨flat, short'⟩ := pushed few short
      obtain ⟨all, each⟩ := ih #[x] (full.push filling.toList) some_ short'
      refine ⟨all.trans ?_, each⟩
      rw [flat, List.append_assoc]
      rfl
    · rename_i room
      have fewer : (filling.push x).size ≤ n := by
        rw [Array.size_push]
        rw [beq_iff_eq] at room
        omega
      obtain ⟨all, each⟩ := ih (filling.push x) full fewer short
      refine ⟨?_, each⟩
      rw [all, Array.toList_push, List.append_assoc, List.append_assoc, List.append_assoc]
      rfl

/-- A list put together again from its chunks, none of which is too long. -/
theorem toChunks_pieces {α : Type} {n : Nat} (some_ : 0 < n) (xs : List α) :
    (xs.toChunks n).flatten = xs ∧ ∀ c ∈ xs.toChunks n, c.length ≤ n := by
  obtain ⟨n, rfl⟩ := Nat.exists_eq_succ_of_ne_zero (Nat.ne_of_gt some_)
  cases xs with
  | nil => exact ⟨rfl, nofun⟩
  | cons x xs => exact toChunks_go some_ xs #[x] #[] some_ nofun

/-- `xs.chunks_exact(n)`: the full chunks only. -/
def chunksExact {α : Type} (n : Nat) (xs : List α) : List (List α) :=
  (chunks n xs).filter (·.length = n)

theorem length_chunksExact_mul_le {α : Type} (n : Nat) (xs : List α) :
    (chunksExact n xs).length * n ≤ xs.length := by
  have loop (fuel : Nat) (xs : List α) :
      ((chunksLoop n fuel xs).filter (·.length = n)).length * n ≤ xs.length := by
    induction fuel generalizing xs with
    | zero => simp [chunksLoop]
    | succ fuel ih =>
      cases xs with
      | nil => simp [chunksLoop]
      | cons x xs =>
        have later := ih ((x :: xs).drop n)
        rw [List.length_drop] at later
        rw [chunksLoop, List.filter_cons]
        split
        · rename_i full
          have inside : n ≤ (x :: xs).length := by
            simp only [List.length_take, decide_eq_true_eq] at full
            omega
          rw [List.length_cons, Nat.succ_mul]
          omega
        · omega
  exact loop xs.length xs

/-! ### Pieces of one length -/

theorem length_flatMap_of {α β : Type} {n : Nat} {xs : List β} {f : β → List α}
    (size : ∀ x ∈ xs, (f x).length = n) : (xs.flatMap f).length = xs.length * n := by
  induction xs with
  | nil => simp
  | cons x xs ih =>
    rw [List.flatMap_cons, List.length_append, size x List.mem_cons_self,
      ih fun x mem => size x (List.mem_cons_of_mem _ mem), List.length_cons, Nat.succ_mul,
      Nat.add_comm]

/-- Pieces of one length are the chunks of what they make together. -/
theorem chunks_flatMap {α β : Type} {n : Nat} (some_ : 0 < n) {xs : List β} {f : β → List α}
    (size : ∀ x ∈ xs, (f x).length = n) : chunks n (xs.flatMap f) = xs.map f := by
  have loop (xs : List β) (size : ∀ x ∈ xs, (f x).length = n) (fuel : Nat)
      (enough : (xs.flatMap f).length ≤ fuel) : chunksLoop n fuel (xs.flatMap f) = xs.map f := by
    induction xs generalizing fuel with
    | nil => cases fuel <;> rfl
    | cons x xs ih =>
      have first := size x List.mem_cons_self
      obtain ⟨a, rest, eq⟩ := List.exists_cons_of_length_pos (first ▸ some_)
      rw [List.flatMap_cons, List.length_append, first] at enough
      obtain ⟨fuel, rfl⟩ := Nat.exists_eq_add_one.mpr (show 0 < fuel by omega)
      have step : chunksLoop n (fuel + 1) (f x ++ xs.flatMap f) =
          (f x ++ xs.flatMap f).take n :: chunksLoop n fuel ((f x ++ xs.flatMap f).drop n) := by
        rw [eq]
        rfl
      rw [List.flatMap_cons, List.map_cons, step, List.take_left' first, List.drop_left' first,
        ih (fun x mem => size x (List.mem_cons_of_mem _ mem)) fuel (by omega)]
  exact loop xs size _ (Nat.le_refl _)

theorem chunksExact_flatMap {α β : Type} {n : Nat} (some_ : 0 < n) {xs : List β} {f : β → List α}
    (size : ∀ x ∈ xs, (f x).length = n) : chunksExact n (xs.flatMap f) = xs.map f := by
  rw [chunksExact, chunks_flatMap some_ size, List.filter_eq_self]
  simpa using size

end Posh.Lib
