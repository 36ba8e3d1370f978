import Mathlib.Data.List.MinMax
import Posh.Lib.Reader
import Posh.Term.Png

/-!
Scanline filters and how they are undone.

A filter writes each byte of a row as its difference from what its neighbours to the
left, above and upper left predict, the neighbours outside the image counting as zero.
Undoing it in place, the decoder has the neighbours again when it needs them: it reads no
byte that it has not rebuilt yet.
-/

namespace Posh.Term.Png

open Posh.Lib

inductive Filter where
  | none
  | sub
  | up
  | average
  | paeth
deriving DecidableEq, Repr

namespace Filter

def code : Filter → UInt8
  | none => 0
  | sub => 1
  | up => 2
  | average => 3
  | paeth => 4

/-- The one of the three neighbours that is closest to `left + above - corner`, the first
of them where two are as close. -/
def nearest (left above corner : UInt8) : UInt8 :=
  ([left, above, corner].argmin fun v : UInt8 =>
    ((left.toNat : Int) + above.toNat - corner.toNat - v.toNat).natAbs).getD 0

def predict (filter : Filter) (left above corner : UInt8) : UInt8 :=
  match filter with
  | none => 0
  | sub => left
  | up => above
  | average => UInt8.ofNat ((left.toNat + above.toNat) / 2)
  | paeth => nearest left above corner

theorem ofNat_paeth (a b c : UInt8) :
    UInt8.ofNat (Png.paeth a.toNat b.toNat c.toNat) = nearest a b c := by
  unfold nearest Png.paeth
  extract_lets p pa pb pc
  simp only [List.argmin_cons, List.argmin_nil]
  change _ = Option.getD (Option.rec (some a) (fun v => if (p - v.toNat).natAbs < pa then
    some v else some a) (if pc < pb then some c else some b)) 0
  have of_b : (p - b.toNat).natAbs = pb := rfl
  have of_c : (p - c.toNat).natAbs = pc := rfl
  clear_value pa pb pc
  by_cases corner : pc < pb
  · rw [if_pos corner]
    by_cases less : pc < pa
    · simp [of_c, less, show ¬ pa ≤ pc by omega, show ¬ pb ≤ pc by omega]
    · simp [of_c, less, show pa ≤ pc by omega, show pa ≤ pb by omega]
  · rw [if_neg corner]
    by_cases less : pb < pa
    · simp [of_b, less, show ¬ pa ≤ pb by omega, show pb ≤ pc by omega]
    · simp [of_b, less, show pa ≤ pb by omega, show pa ≤ pc by omega]

theorem unfilterByte_code (filter : Filter) (x left above corner : UInt8) :
    unfilterByte filter.code (x - filter.predict left above corner) left above corner = some x := by
  cases filter with
  | none => simp [unfilterByte, code, predict]
  | sub => simp [unfilterByte, code, predict]
  | up => simp [unfilterByte, code, predict]
  | average => simp [unfilterByte, code, predict]
  | paeth => simp [unfilterByte, code, predict, ofNat_paeth]

/-- The byte of `row` that is one pixel before place `i`. -/
def before (bpp : Nat) (row : Bytes) (i : Nat) : UInt8 :=
  if bpp ≤ i then row.getD (i - bpp) 0 else 0

/-- Byte `i` of the filtered row. -/
def byte (filter : Filter) (bpp : Nat) (above row : Bytes) (i : Nat) : UInt8 :=
  row.getD i 0 - filter.predict (before bpp row i) (above.getD i 0) (before bpp above i)

/-- The filtered row without its filter byte. -/
def apply (filter : Filter) (bpp : Nat) (above row : Bytes) : Bytes :=
  (List.range row.length).map (filter.byte bpp above row)

@[simp] theorem length_apply (filter : Filter) (bpp : Nat) (above row : Bytes) :
    (filter.apply bpp above row).length = row.length := by
  simp [apply]

end Filter

/-- The scanlines, each with its filter, from the row below `above` on. -/
def filterRows (bpp : Nat) : (above : Bytes) → List (Filter × Bytes) → Bytes
  | _, [] => []
  | above, (filter, row) :: rest =>
      filter.code :: filter.apply bpp above row ++ filterRows bpp row rest

/-! ### What the decoder looks at -/

/-- One byte, with `view done raw` as what can be seen of `raw` when its first `done` bytes
are rebuilt. -/
def unfilterAt (view : Nat → Bytes → Bytes) (filter : UInt8) (bpp row cur outAt i : Nat)
    (raw : Bytes) : Fallible PngError Bytes := do
  let left ← liftM (if i ≥ bpp then getAt (view (cur + i) raw) (cur + i - bpp) else pure 0)
  let up ← liftM (if row > 0 then getAt (view (cur + i) raw) (outAt + i) else pure 0)
  let upLeft ← liftM (if row > 0 ∧ i ≥ bpp then getAt (view (cur + i) raw) (outAt + i - bpp)
    else pure 0)
  let x ← liftM (getAt raw (cur + i))
  let value ← Fallible.ofOption .badData (unfilterByte filter x left up upLeft)
  liftM (setAt raw (cur + i) value)

def unfilterRowSeeing (view : Nat → Bytes → Bytes) (stride bpp row : Nat) (state : Bytes × Nat) :
    Fallible PngError (Bytes × Nat) := do
  let (raw, outAt) := state
  let lineAt := row * (stride + 1)
  let filter ← liftM (getAt raw lineAt)
  let cur := row * stride
  let raw ← liftM (copyWithin raw (lineAt + 1) (lineAt + 1 + stride) cur)
  let raw ← Fallible.forEach (List.range stride) raw (unfilterAt view filter bpp row cur outAt)
  return (raw, cur)

/-- `unfilter`, with the neighbours of a byte looked up in what `view` shows. -/
def unfilterSeeing (view : Nat → Bytes → Bytes) (raw : Bytes) (width height bpp : Nat) :
    Fallible PngError Bytes := do
  let stride := width * bpp
  let (raw, _) ← Fallible.forEach (List.range height) (raw, 0) (unfilterRowSeeing view stride bpp)
  return raw.take (height * stride)

/-- What is not rebuilt is out of sight. -/
def rebuilt (done : Nat) (raw : Bytes) : Bytes :=
  raw.take done

theorem unfilterRowSeeing_all (stride bpp row : Nat) (state : Bytes × Nat) :
    unfilterRowSeeing (fun _ raw => raw) stride bpp row state = unfilterRow stride bpp row state :=
  rfl

theorem unfilterSeeing_all (raw : Bytes) (width height bpp : Nat) :
    unfilterSeeing (fun _ raw => raw) raw width height bpp = unfilter raw width height bpp :=
  rfl

variable {filter : UInt8} {width height bpp row stride cur outAt i : Nat} {raw : Bytes}

theorem getAt_rebuilt {done j : Nat} (below : j < done) :
    getAt (rebuilt done raw) j = getAt raw j := by
  simp [getAt, rebuilt, below]

/-- The neighbours of a byte are rebuilt before it. -/
theorem unfilterAt_rebuilt (some_ : 0 < bpp) (apart : 0 < row → outAt < cur) :
    unfilterAt rebuilt filter bpp row cur outAt i raw =
      unfilterAt (fun _ raw => raw) filter bpp row cur outAt i raw := by
  have left : (if i ≥ bpp then getAt (rebuilt (cur + i) raw) (cur + i - bpp) else pure 0) =
      if i ≥ bpp then getAt raw (cur + i - bpp) else pure 0 := by
    split
    · exact getAt_rebuilt (by omega)
    · rfl
  have up : (if row > 0 then getAt (rebuilt (cur + i) raw) (outAt + i) else pure 0) =
      if row > 0 then getAt raw (outAt + i) else pure 0 := by
    split
    · rename_i later
      have := apart later
      exact getAt_rebuilt (by omega)
    · rfl
  have corner : (if row > 0 ∧ i ≥ bpp then getAt (rebuilt (cur + i) raw) (outAt + i - bpp)
      else pure 0) = if row > 0 ∧ i ≥ bpp then getAt raw (outAt + i - bpp) else pure 0 := by
    split
    · rename_i later
      have := apart later.1
      exact getAt_rebuilt (by omega)
    · rfl
  unfold unfilterAt
  rw [left, up, corner]

theorem unfilterRowSeeing_rebuilt (state : Bytes × Nat) (behind : state.2 = (row - 1) * (width * bpp)) :
    unfilterRowSeeing rebuilt (width * bpp) bpp row state =
      unfilterRow (width * bpp) bpp row state := by
  obtain ⟨raw, outAt⟩ := state
  obtain rfl : outAt = (row - 1) * (width * bpp) := behind
  have rows (filter : UInt8) (raw : Bytes) :
      Fallible.forEach (List.range (width * bpp)) raw
          (unfilterAt rebuilt filter bpp row (row * (width * bpp)) ((row - 1) * (width * bpp))) =
        Fallible.forEach (List.range (width * bpp)) raw
          (unfilterAt (fun _ raw => raw) filter bpp row (row * (width * bpp))
            ((row - 1) * (width * bpp))) := by
    refine Fallible.forRange_congr (I := fun _ _ => True) trivial (fun i inside raw _ => ?_)
      fun i _ raw _ => Returns.trivial _
    have some_ : 0 < bpp := Nat.pos_of_ne_zero fun zero => by simp [zero] at inside
    refine unfilterAt_rebuilt some_ fun later => ?_
    exact Nat.mul_lt_mul_of_pos_right (by omega) (by omega)
  unfold unfilterRowSeeing
  simp only [rows]
  rfl

theorem unfilterRow_behind (stride : Nat) (state : Bytes × Nat) :
    Returns False (unfilterRow stride bpp row state) (·.2 = row * stride) := by
  unfold unfilterRow
  exact Returns.skip fun filter => Returns.skip fun shifted => Returns.skip fun raw => .pure rfl

/-- A byte of the current row that is not rebuilt yet is never looked at. -/
theorem unfilterSeeing_rebuilt (raw : Bytes) (width height bpp : Nat) :
    unfilterSeeing rebuilt raw width height bpp = unfilter raw width height bpp := by
  have rows : Fallible.forEach (List.range height) (raw, 0)
        (unfilterRowSeeing rebuilt (width * bpp) bpp) =
      Fallible.forEach (List.range height) (raw, 0) (unfilterRow (width * bpp) bpp) := by
    refine Fallible.forRange_congr (I := fun row state => state.2 = (row - 1) * (width * bpp))
      (by simp) (fun row _ state behind => unfilterRowSeeing_rebuilt state behind)
      fun row _ state _ => unfilterRow_behind (width * bpp) state
  unfold unfilterSeeing
  simp only [rows]
  rfl

/-! ### No row is out of range -/

theorem copyWithin_guarded {lo hi dest : Nat} (le : lo ≤ hi) (inside : hi ≤ raw.length)
    (back : dest ≤ lo) : Guarded True (copyWithin raw lo hi dest) (·.length = raw.length) := by
  unfold copyWithin
  refine (Guarded.of_yields (Yields.slice le inside)).bind fun part part_eq => ?_
  have length : part.length = hi - lo := by simp [part_eq, Nat.min_eq_left inside]
  rw [if_pos (by omega)]
  refine .pure ?_
  simp [length]
  omega

theorem unfilterAt_guarded (inside : cur + i < raw.length) (behind : outAt ≤ cur) :
    Returns True (unfilterAt (fun _ raw => raw) filter bpp row cur outAt i raw)
      (·.length = raw.length) := by
  have look {p : Prop} [Decidable p] {j : Nat} (below : j < raw.length) :
      Guarded True (if p then getAt raw j else pure 0) fun _ => True := by
    split
    · exact (Guarded.of_yields (Yields.getAt below)).mono fun _ _ => trivial
    · exact .pure trivial
  unfold unfilterAt
  refine (Returns.lift (look (by omega))).bind fun left _ => ?_
  refine (Returns.lift (look (by omega))).bind fun up _ => ?_
  refine (Returns.lift (look (by omega))).bind fun upLeft _ => ?_
  refine (Returns.lift (Guarded.of_yields (Yields.getAt inside))).bind fun x _ => ?_
  refine (Returns.ofOption fun value _ => trivial).bind fun value _ => ?_
  refine Returns.lift ((Guarded.of_yields (Yields.setAt inside)).mono fun raw' eq => ?_)
  rw [eq, List.length_set]

theorem unfilterRow_guarded {state : Bytes × Nat}
    (inside : (row + 1) * (stride + 1) ≤ state.1.length) (behind : state.2 ≤ row * stride) :
    Returns True (unfilterRow stride bpp row state)
      fun after => after.1.length = state.1.length ∧ after.2 = row * stride := by
  obtain ⟨raw, outAt⟩ := state
  have line : (row + 1) * (stride + 1) = row * (stride + 1) + stride + 1 := by ring
  have cur : row * (stride + 1) = row * stride + row := by ring
  dsimp only at inside behind
  unfold unfilterRow
  dsimp only
  refine (Returns.lift (Guarded.of_yields (Yields.getAt (by omega)))).bind fun filter _ => ?_
  refine (Returns.lift (copyWithin_guarded (by omega) (by omega) (by omega))).bind
    fun shifted length => ?_
  refine Returns.bind (p := fun raw' : Bytes => raw'.length = raw.length) ?_
    fun raw' length' => .pure ⟨length', rfl⟩
  refine Returns.forRange (I := fun _ (raw' : Bytes) => raw'.length = raw.length) length
    fun i below raw' length' => ?_
  exact (unfilterAt_guarded (by omega) behind).mono fun raw'' length'' => length''.trans length'

theorem unfilter_guarded (expected : raw.length = height * (1 + width * bpp)) :
    Returns True (unfilter raw width height bpp) (·.length = height * (width * bpp)) := by
  have whole : height * (1 + width * bpp) = height + height * (width * bpp) := by ring
  unfold unfilter
  refine Returns.bind (p := fun state : Bytes × Nat => state.1.length = raw.length) ?_
    fun state length => .pure ?_
  · refine (Returns.forRange (I := fun row (state : Bytes × Nat) =>
      state.1.length = raw.length ∧ state.2 ≤ row * (width * bpp)) ⟨rfl, Nat.zero_le _⟩
      fun row below state now => ?_).mono fun state after => after.1
    have inside : (row + 1) * (width * bpp + 1) ≤ state.1.length := by
      rw [now.1, expected, Nat.add_comm 1]
      exact Nat.mul_le_mul_right _ below
    refine (unfilterRow_guarded inside now.2).mono fun after same => ⟨same.1.trans now.1, ?_⟩
    rw [same.2]
    exact Nat.mul_le_mul_right _ (Nat.le_succ row)
  · rw [List.length_take]
    omega

/-! ### Filtered rows -/

theorem getAt_middle {front mid back : Bytes} {k : Nat} (inside : k < mid.length) :
    getAt (front ++ (mid ++ back)) (front.length + k) = .ok (mid.getD k 0) := by
  simp [getAt, List.getElem?_append_right, List.getElem?_append_left inside, inside]

/-- The bytes while row number `row` is rebuilt: `i` bytes of it are, the others are as the
filter left them. -/
def halfway (done current filtered tail : Bytes) (i : Nat) : Bytes :=
  done ++ (current.take i ++ (filtered.drop i ++ tail))

/-- A byte of the current row that is rebuilt. -/
theorem getAt_halfway {done current filtered tail : Bytes} {i k : Nat} (rebuilt : k < i)
    (inside : i ≤ current.length) :
    getAt (halfway done current filtered tail i) (done.length + k) = .ok (current.getD k 0) := by
  have short : k < (current.take i).length := by
    simp
    omega
  rw [halfway, getAt_middle short]
  simp [rebuilt]

/-- A byte of the rows above. -/
theorem getAt_done {front above current filtered tail : Bytes} {i k : Nat} (inside : k < above.length) :
    getAt (halfway (front ++ above) current filtered tail i) (front.length + k) =
      .ok (above.getD k 0) := by
  rw [halfway, List.append_assoc]
  exact getAt_middle inside

/-- `above` is the row that was rebuilt last, from `outAt` on; there is none above the
first. -/
inductive Above (stride : Nat) : (row outAt : Nat) → (above done : Bytes) → Prop where
  | first : Above stride 0 0 [] []
  | later {row : Nat} {front above : Bytes} (full : above.length = stride) :
      Above stride (row + 1) front.length above (front ++ above)

section Row

variable {f : Filter} {above done current filtered tail : Bytes}

theorem left_halfway (inside : i ≤ current.length) (some_ : 0 < bpp) :
    (if i ≥ bpp then getAt (halfway done current filtered tail i) (done.length + i - bpp)
      else pure 0) = .ok (Filter.before bpp current i) := by
  unfold Filter.before
  split
  · rw [Nat.add_sub_assoc ‹_›]
    exact getAt_halfway (by omega) inside
  · rfl

theorem up_halfway (upper : Above stride row outAt above done) (inside : i < stride) :
    (if row > 0 then getAt (halfway done current filtered tail i) (outAt + i) else pure 0) =
      .ok (above.getD i 0) := by
  cases upper with
  | first => rfl
  | later full => exact getAt_done (full ▸ inside)

theorem corner_halfway (upper : Above stride row outAt above done) (inside : i < stride) :
    (if row > 0 ∧ i ≥ bpp then getAt (halfway done current filtered tail i) (outAt + i - bpp)
      else pure 0) = .ok (Filter.before bpp above i) := by
  unfold Filter.before
  cases upper with
  | first =>
    simp
    rfl
  | later full =>
    by_cases second : i ≥ bpp
    · rw [if_pos ⟨Nat.succ_pos _, second⟩, if_pos second, Nat.add_sub_assoc second]
      exact getAt_done (by omega)
    · rw [if_neg fun both => second both.2, if_neg second]
      rfl

theorem unfilterAt_filtered (upper : Above current.length row outAt above done)
    (inside : i < current.length) (some_ : 0 < bpp) :
    unfilterAt (fun _ raw => raw) f.code bpp row done.length outAt i
        (halfway done current (f.apply bpp above current) tail i) =
      .ok (halfway done current (f.apply bpp above current) tail (i + 1)) := by
  obtain ⟨filtered, filtered_eq⟩ : ∃ filtered, f.apply bpp above current = filtered := ⟨_, rfl⟩
  have here : filtered.drop i = f.byte bpp above current i :: filtered.drop (i + 1) := by
    rw [List.drop_eq_getElem_cons (by simpa [← filtered_eq] using inside)]
    simp [← filtered_eq, Filter.apply]
  have split : halfway done current filtered tail i =
      (done ++ current.take i) ++ f.byte bpp above current i :: (filtered.drop (i + 1) ++ tail) := by
    simp [halfway, here]
  have place : (done ++ current.take i).length = done.length + i := by
    simp
    omega
  have x : getAt (halfway done current filtered tail i) (done.length + i) =
      .ok (f.byte bpp above current i) := by
    rw [split, ← place]
    simp [getAt]
  have put : setAt (halfway done current filtered tail i) (done.length + i) (current.getD i 0) =
      .ok (halfway done current filtered tail (i + 1)) := by
    have taken : current.take (i + 1) = current.take i ++ [current.getD i 0] := by
      rw [List.take_add_one]
      simp [inside]
    rw [split, ← place, setAt, if_pos (by simp), halfway, taken]
    simp
  rw [filtered_eq]
  unfold unfilterAt
  rw [left_halfway (Nat.le_of_lt inside) some_, up_halfway upper inside, corner_halfway upper inside, x]
  simp only [Fallible.lift_ok_bind, Filter.byte, Filter.unfilterByte_code]
  exact congrArg (fun y : Checked Bytes => (liftM y : Fallible PngError Bytes)) put

theorem unfilterLoop_filtered (upper : Above current.length row outAt above done)
    (some_ : 0 < bpp) :
    Fallible.forEach (List.range current.length)
        (done ++ (f.apply bpp above current ++ tail))
        (unfilterAt (fun _ raw => raw) f.code bpp row done.length outAt) =
      .ok (done ++ (current ++ tail)) := by
  obtain ⟨raw, eq, all⟩ : Gives (Fallible.forEach (List.range current.length)
      (done ++ (f.apply bpp above current ++ tail))
      (unfilterAt (fun _ raw => raw) f.code bpp row done.length outAt))
      (· = halfway done current (f.apply bpp above current) tail current.length) := by
    refine Gives.forRange
      (I := fun i raw => raw = halfway done current (f.apply bpp above current) tail i)
      (by simp [halfway]) fun i inside raw now => ?_
    exact ⟨_, now ▸ unfilterAt_filtered upper inside some_, rfl⟩
  rw [eq, all]
  simp [halfway]

/-- A row is moved to the front of the gap before it, its filter byte dropped. -/
theorem copyWithin_row {gap code row tail : Bytes} (code_length : code.length = 1) :
    copyWithin (done ++ (gap ++ (code ++ (row ++ tail)))) (done.length + gap.length + 1)
        (done.length + gap.length + 1 + row.length) done.length =
      .ok (done ++ (row ++ ((gap ++ (code ++ row)).drop row.length ++ tail))) := by
  have part : slice (done ++ (gap ++ (code ++ (row ++ tail)))) (done.length + gap.length + 1)
      (done.length + gap.length + 1 + row.length) = .ok row :=
    slice_middle (done ++ (gap ++ code)) tail (by simp) (by simp [code_length]; omega) rfl
  have behind : (done ++ (gap ++ (code ++ (row ++ tail)))).drop (done.length + row.length) =
      (gap ++ (code ++ row)).drop row.length ++ tail := by
    rw [← List.drop_drop, List.drop_left,
      show gap ++ (code ++ (row ++ tail)) = (gap ++ (code ++ row)) ++ tail by simp,
      List.drop_append_of_le_length (by simp; omega)]
  rw [copyWithin, part]
  change (if done.length + row.length ≤ _ then _ else _) = _
  rw [if_pos (by simp; omega), List.take_left, behind, List.append_assoc]
  rfl

/-- A whole row; `gap` is what the rows before it leave behind them. -/
theorem unfilterRow_filtered {gap : Bytes} (upper : Above current.length row outAt above done)
    (some_ : 0 < bpp) (gap_length : gap.length = row)
    (done_length : done.length = row * current.length) :
    ∃ gap', gap'.length = row + 1 ∧
      unfilterRow current.length bpp row
        (done ++ (gap ++ ([f.code] ++ (f.apply bpp above current ++ tail))), outAt) =
      .ok (done ++ (current ++ (gap' ++ tail)), done.length) := by
  obtain ⟨filtered, filtered_eq⟩ : ∃ filtered, f.apply bpp above current = filtered := ⟨_, rfl⟩
  have filtered_length : filtered.length = current.length := by simp [← filtered_eq]
  have line : row * (current.length + 1) = done.length + gap.length := by
    rw [gap_length, done_length, Nat.mul_succ]
  have code : getAt (done ++ (gap ++ ([f.code] ++ (filtered ++ tail))))
      (row * (current.length + 1)) = .ok f.code := by
    rw [line]
    simp [getAt]
  refine ⟨(gap ++ ([f.code] ++ filtered)).drop current.length, by simp; omega, ?_⟩
  have loop : Fallible.forEach (List.range current.length)
      (done ++ (filtered ++ ((gap ++ ([f.code] ++ filtered)).drop current.length ++ tail)))
      (unfilterAt (fun _ raw => raw) f.code bpp row done.length outAt) = .ok _ :=
    filtered_eq ▸ unfilterLoop_filtered upper some_
  have shifted := @copyWithin_row done gap [f.code] filtered tail rfl
  rw [filtered_length] at shifted
  rw [filtered_eq, ← unfilterRowSeeing_all, unfilterRowSeeing]
  simp only [code, Fallible.lift_ok_bind]
  rw [line, ← done_length, shifted, Fallible.lift_ok_bind, loop]
  rfl

end Row

/-- The rows that are left, below `above`. -/
theorem unfilterRows_filtered {rows : List (Filter × Bytes)} {above done gap : Bytes}
    (full : ∀ r ∈ rows, r.2.length = stride) (upper : Above stride row outAt above done)
    (some_ : 0 < bpp) (gap_length : gap.length = row) (done_length : done.length = row * stride) :
    Gives (Fallible.forEach (List.range' row rows.length)
        (done ++ (gap ++ filterRows bpp above rows), outAt) (unfilterRow stride bpp))
      fun state => state.1.take (done.length + rows.length * stride) = done ++ rows.flatMap Prod.snd := by
  induction rows generalizing row outAt above done gap with
  | nil => exact .ok (by simp)
  | cons r rows ih =>
    obtain ⟨f, current⟩ := r
    obtain rfl : current.length = stride := full _ List.mem_cons_self
    obtain ⟨gap', gap'_length, step⟩ := @unfilterRow_filtered bpp row outAt f above done current
      (filterRows bpp current rows) gap upper some_ gap_length done_length
    have next : Above current.length (row + 1) done.length current (done ++ current) := .later rfl
    have rest := ih (fun r mem => full r (List.mem_cons_of_mem _ mem)) next gap'_length
      (by rw [List.length_append, done_length, Nat.succ_mul])
    have written : filterRows bpp above ((f, current) :: rows) =
        [f.code] ++ (f.apply bpp above current ++ filterRows bpp current rows) := rfl
    rw [written, List.length_cons, List.range'_succ, Fallible.forEach, step, Fallible.ok_bind]
    rw [List.append_assoc] at rest
    refine rest.mono fun state same => ?_
    rw [List.flatMap_cons, ← List.append_assoc, ← same, List.length_append, Nat.succ_mul]
    congr 1
    omega

/-- Filtered scanlines are unfiltered to what they were. -/
theorem unfilter_filterRows {rows : List (Filter × Bytes)}
    (full : ∀ r ∈ rows, r.2.length = width * bpp) (some_ : 0 < bpp) :
    unfilter (filterRows bpp [] rows) width rows.length bpp = .ok (rows.flatMap Prod.snd) := by
  have none : ([] : Bytes).length = 0 := rfl
  obtain ⟨state, loop, same⟩ := unfilterRows_filtered full .first some_ none (by simp)
  rw [List.nil_append, List.nil_append, ← List.range_eq_range'] at loop
  unfold unfilter
  simp only [loop, Fallible.ok_bind]
  rw [List.length_nil, Nat.zero_add, List.nil_append] at same
  exact congrArg Fallible.ok same

theorem length_filterRows {rows : List (Filter × Bytes)} {above : Bytes}
    (full : ∀ r ∈ rows, r.2.length = stride) :
    (filterRows bpp above rows).length = rows.length * (1 + stride) := by
  induction rows generalizing above with
  | nil => simp [filterRows]
  | cons r rows ih =>
    obtain ⟨f, current⟩ := r
    have first : current.length = stride := full _ List.mem_cons_self
    have later : (filterRows bpp current rows).length = rows.length * (1 + stride) :=
      ih fun r mem => full r (List.mem_cons_of_mem _ mem)
    simp only [filterRows, List.length_append, List.length_cons, Filter.length_apply, later, first]
    ring

end Posh.Term.Png
