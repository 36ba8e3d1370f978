import Posh.Term.Tokens

/-!
The code lengths of a compressed block.

They come back as they were sent, however they are cut into runs: a run may go from the
literals on into the distances.
-/

namespace Posh.Term.Inflate

open Posh.Lib Posh.Lib.CanonicalCode Posh.Term.Deflate

variable {data : Bytes} {pos : Nat} {s : List Bool}

/-! ### Runs of code lengths -/

/-- The lengths set so far, and zeros for those to come. -/
def padded (total : Nat) (before : List Nat) : List Nat :=
  before ++ List.replicate (total - before.length) 0

section Runs

variable {total n l : Nat} {before : List Nat}

theorem length_padded (fits : before.length ≤ total) : (padded total before).length = total := by
  unfold padded
  rw [List.length_append, List.length_replicate]
  omega

theorem padded_set (room : before.length < total) (l : Nat) :
    (padded total before).set before.length l = padded total (before ++ [l]) := by
  unfold padded
  obtain ⟨d, rfl⟩ := Nat.exists_eq_add_of_lt room
  rw [List.length_append, List.length_singleton, show before.length + d + 1 - before.length = d + 1
    by omega, show before.length + d + 1 - (before.length + 1) = d by omega, List.replicate_succ,
    List.set_append_right _ _ (Nat.le_refl _), Nat.sub_self, List.set_cons_zero,
    List.append_assoc, List.singleton_append]

theorem padded_zeros (room : before.length + n ≤ total) :
    padded total (before ++ List.replicate n 0) = padded total before := by
  unfold padded
  rw [List.length_append, List.length_replicate, List.append_assoc, List.replicate_append_replicate]
  congr 2
  omega

theorem repeatLength_padded (prev n : Nat) (room : before.length + n ≤ total) :
    repeatLength prev n (padded total before, before.length) =
      .ok (padded total (before ++ List.replicate n prev), before.length + n) := by
  have loop : Gives (repeatLength prev n (padded total before, before.length))
      fun r => r = (padded total (before ++ List.replicate (List.range n).length prev),
        before.length + (List.range n).length) := by
    unfold repeatLength
    refine Gives.forEach (I := fun done r => r =
      (padded total (before ++ List.replicate done.length prev), before.length + done.length)) ?_ ?_
    · rw [List.length_nil, List.replicate_zero, List.append_nil, Nat.add_zero]
    · rintro done a after r all rfl
      have fewer : done.length < n := by
        have same := congrArg List.length all
        rw [List.length_range, List.length_append, List.length_cons] at same
        omega
      have length : (before ++ List.replicate done.length prev).length =
          before.length + done.length := by simp
      dsimp only
      rw [length_padded (by omega), if_pos (by omega)]
      refine .pure ?_
      have longer : (done ++ [a]).length = done.length + 1 := by simp
      rw [longer, List.replicate_succ', ← List.append_assoc, ← padded_set (by omega), length]
      rfl
  obtain ⟨_, done, rfl⟩ := loop
  rw [done, List.length_range]

theorem length_foldl_run_le (runs : List Run) (before : List Nat) :
    before.length + runs.length ≤ (runs.foldl Run.denote before).length := by
  induction runs generalizing before with
  | nil => exact Nat.le_refl _
  | cons r rest ih =>
    have more : before.length + 1 ≤ (r.denote before).length := by
      cases r with
      | length l ok => simp [Run.denote]
      | again n ok => simp [Run.denote]; omega
      | zeros n ok => simp [Run.denote]; omega
    have later := ih (r.denote before)
    rw [List.foldl_cons, List.length_cons]
    omega

theorem last_padded (some_ : before ≠ []) :
    (padded total before)[before.length - 1]? = some (before.getLastD 0) := by
  have inside := List.length_pos_of_ne_nil some_
  unfold padded
  rw [List.getElem?_append_left (by omega), ← List.getLast?_eq_getElem?,
    List.getLastD_eq_getLast?, List.getLast?_eq_some_getLast some_, Option.getD_some]

variable {clenLengths : List Nat} {clen : Huffman}

/-- A run sets the lengths that it denotes. -/
theorem readLengths_run (table : clen.Of clenLengths) (suited : Suited 15 clenLengths) (r : Run)
    (coded : width clenLengths r.sym ≠ 0) (first : before = [] → r.sym ≠ 16)
    (room : (r.denote before).length ≤ total) {budget : Nat}
    (ahead : Ahead data pos (r.encode clenLengths ++ s)) :
    readLengths data clen (budget + 1) (padded total before) before.length pos =
      readLengths data clen budget (padded total (r.denote before)) (r.denote before).length
        (pos + (r.encode clenLengths).length) := by
  have longer : before.length + 1 ≤ (r.denote before).length := length_foldl_run_le [r] before
  have all : (padded total before).length = total := length_padded (by omega)
  unfold Run.encode at ahead ⊢
  rw [List.append_assoc] at ahead
  obtain ⟨_, read, rfl, ahead⟩ := decode_word table suited coded ahead
  rw [readLengths, all, if_neg (by omega), read, Fallible.ok_bind]
  dsimp only
  rw [List.length_append, word, length_highBits]
  cases r with
  | length l ok =>
    rw [Run.denote, List.length_append, List.length_singleton] at room ⊢
    have sets : setAt (padded total before) before.length (Run.length l ok).sym =
        .ok (padded total (before ++ [l])) := by
      unfold setAt
      rw [if_pos (by omega)]
      exact congrArg _ (padded_set (by omega) l)
    rw [if_pos (show (Run.length l ok).sym ≤ 15 from ok), sets, Fallible.lift_ok_bind]
    change (if before.length + 1 > (padded total (before ++ [l])).length then _ else _) = _
    rw [length_padded (by simpa using room), if_neg (by omega)]
    rfl
  | again n ok =>
    rw [Run.denote, List.length_append, List.length_replicate] at room ⊢
    have some_ : before ≠ [] := fun none => first none rfl
    have last : (padded total before)[before.length - 1]? = _ := last_padded some_
    obtain ⟨_, prev, rfl⟩ := getAt_yields last
    obtain ⟨_, extra, rfl, -⟩ := bits_lowBits (show n - 3 < 2 ^ 2 by omega) ahead
    rw [if_neg (show ¬ (Run.again n ok).sym ≤ 15 from (by decide : ¬ 16 ≤ 15)), if_pos (by rfl),
      if_neg (by simpa using some_), prev, Fallible.lift_ok_bind, extra, Fallible.ok_bind]
    dsimp only
    rw [Nat.add_sub_cancel' ok.1, repeatLength_padded _ n room, Fallible.ok_bind]
    change (if before.length + n > (padded total _).length then _ else _) = _
    rw [length_padded (by simpa using room), if_neg (by omega), Nat.add_assoc]
    rfl
  | zeros n ok =>
    rw [Run.denote, List.length_append, List.length_replicate] at room ⊢
    by_cases few : n ≤ 10
    · have sym : (Run.zeros n ok).sym = 17 := if_pos few
      have extra_ : (Run.zeros n ok).extra = lowBits 3 (n - 3) := if_pos few
      rw [extra_] at ahead ⊢
      obtain ⟨_, extra, rfl, -⟩ := bits_lowBits (show n - 3 < 2 ^ 3 by omega) ahead
      rw [if_neg (by omega), if_neg (by omega), if_pos sym, extra, Fallible.ok_bind]
      change (if before.length + 3 + (n - 3) > _ then _ else _) = _
      rw [Nat.add_assoc before.length, Nat.add_sub_cancel' ok.1, all, if_neg (by omega),
        padded_zeros room, length_lowBits, Nat.add_assoc]
    · have sym : (Run.zeros n ok).sym = 18 := if_neg few
      have extra_ : (Run.zeros n ok).extra = lowBits 7 (n - 11) := if_neg few
      rw [extra_] at ahead ⊢
      obtain ⟨_, extra, rfl, -⟩ := bits_lowBits (show n - 11 < 2 ^ 7 by omega) ahead
      rw [if_neg (by omega), if_neg (by omega), if_neg (by omega), if_pos sym, extra,
        Fallible.ok_bind]
      change (if before.length + 11 + (n - 11) > _ then _ else _) = _
      rw [Nat.add_assoc before.length, Nat.add_sub_cancel' (by omega), all, if_neg (by omega),
        padded_zeros room, length_lowBits, Nat.add_assoc]

/-- The code lengths of a block come back. -/
theorem readLengths_runs (table : clen.Of clenLengths) (suited : Suited 15 clenLengths)
    {runs : List Run} (coded : ∀ r ∈ runs, width clenLengths r.sym ≠ 0)
    (first : before = [] → ∀ r ∈ runs.head?, r.sym ≠ 16) {full : List Nat}
    (denote : runs.foldl Run.denote before = full) {budget : Nat}
    (enough : full.length ≤ before.length + budget)
    (ahead : Ahead data pos (runs.flatMap (Run.encode clenLengths) ++ s)) :
    Gives (readLengths data clen budget (padded full.length before) before.length pos) fun r =>
      r = (full, pos + (runs.flatMap (Run.encode clenLengths)).length) ∧
      Ahead data (pos + (runs.flatMap (Run.encode clenLengths)).length) s := by
  refine ⟨_, ?_, rfl, ahead.advance⟩
  induction runs generalizing before budget pos with
  | nil =>
    obtain rfl := denote
    have same : padded before.length before = before := by simp [padded]
    rw [List.foldl_nil, same]
    cases budget with
    | zero => rfl
    | succ budget =>
      rw [readLengths, if_pos (Nat.le_refl _)]
      rfl
  | cons r rest ih =>
    obtain ⟨firstCoded, others⟩ := List.forall_mem_cons.mp coded
    have longer := length_foldl_run_le (r :: rest) before
    have room := length_foldl_run_le rest (r.denote before)
    have more : before.length + 1 ≤ (r.denote before).length := length_foldl_run_le [r] before
    rw [denote, List.length_cons] at longer
    rw [List.foldl_cons] at denote
    rw [denote] at room
    obtain ⟨budget, rfl⟩ := Nat.exists_eq_add_of_lt (show 0 < budget by omega)
    rw [List.flatMap_cons, List.append_assoc] at ahead
    rw [readLengths_run table suited r firstCoded (fun none => first none r rfl) (by omega) ahead,
      ih others ?_ denote (by omega) ahead.advance, List.flatMap_cons, List.length_append,
      Nat.add_assoc]
    intro none
    rw [none] at more
    exact absurd more (Nat.not_succ_le_zero _)

end Runs

/-! ### The header of a block -/

theorem order_eq : CLEN_ORDER = order := by
  decide

theorem mem_order : ∀ sym < 19, sym ∈ order := by
  decide

theorem order_lt : ∀ sym ∈ order, sym < 19 := by
  decide

theorem width_lt (suited : Suited 7 lengths) (sym : Nat) : width lengths sym < 2 ^ 3 := by
  unfold width
  cases found : lengths[sym]? with
  | none => exact Nat.two_pow_pos 3
  | some l => exact Nat.lt_succ_of_le (suited.bounded l (List.mem_of_getElem? found))

/-- The lengths of the code length code, as far as they have been read. -/
structure Received (data : Bytes) (pos : Nat) (s : List Bool) (lengths read slots : List Nat)
    (r : List Nat × Nat) : Prop where
  all : r.1.length = 19
  values : ∀ sym < 19, r.1[sym]? = some (if sym ∈ read then width lengths sym else 0)
  at_ : r.2 = pos + 3 * read.length
  ahead : ∃ rest, slots = read ++ rest ∧
    Ahead data r.2 (rest.flatMap (fun sym => lowBits 3 (width lengths sym)) ++ s)

theorem received_gives {lengths slots : List Nat} (suited : Suited 7 lengths)
    (low : ∀ sym ∈ slots, sym < 19)
    (ahead : Ahead data pos (slots.flatMap (fun sym => lowBits 3 (width lengths sym)) ++ s))
    {f : Nat → List Nat × Nat → Fallible InflateError (List Nat × Nat)}
    (body : ∀ slot r, f slot r = bits data 3 r.2 >>= fun x =>
      (liftM (setAt r.1 slot x.1) : Fallible InflateError (List Nat)) >>= fun lengths =>
        pure (lengths, x.2)) :
    Gives (Fallible.forEach slots (List.replicate 19 0, pos) f)
      (Received data pos s lengths slots slots) := by
  refine Gives.forEach (I := fun read r => Received data pos s lengths read slots r) ?_ ?_
  · refine ⟨rfl, ?_, rfl, slots, rfl, ahead⟩
    intro sym inside
    rw [List.getElem?_replicate, if_pos inside, if_neg List.not_mem_nil]
  · rintro read slot after r split ⟨all, values, at_, rest, split', ahead⟩
    obtain rfl : rest = slot :: after := List.append_cancel_left (split'.symm.trans split)
    rw [List.flatMap_cons, List.append_assoc] at ahead
    have inside : slot < 19 := low slot (by rw [split]; simp)
    rw [body]
    refine (bits_lowBits (width_lt suited slot) ahead).bind ?_
    rintro _ ⟨rfl, ahead⟩
    refine (Gives.lift (Yields.setAt (by omega))).bind ?_
    rintro _ rfl
    refine .pure ⟨by rw [List.length_set, all], ?_, ?_, after, ?_, ahead⟩
    · intro sym inside'
      by_cases same : slot = sym
      · subst same
        rw [List.getElem?_set_self (by omega), if_pos (by simp)]
      · rw [List.getElem?_set_ne same, values sym inside']
        simp [Ne.symm same]
    · rw [List.length_append, List.length_singleton]
      dsimp only
      omega
    · rw [split, List.append_assoc]
      rfl

/-- What is not sent of the code of the lengths is 0 already. -/
theorem clen_received (h : Header) {clenLengths : List Nat} (all : clenLengths.length = 19)
    (values : ∀ sym < 19, clenLengths[sym]? =
      some (if sym ∈ order.take h.hclen then width h.clen sym else 0)) :
    clenLengths = h.clen := by
  apply List.ext_getElem?
  intro sym
  by_cases inside : sym < 19
  · rw [values sym inside]
    have value : h.clen[sym]? = some (width h.clen sym) := by
      unfold width
      rw [List.getElem?_eq_getElem (by rw [h.clen_length]; exact inside), Option.getD_some]
    rw [value]
    split
    · rfl
    · rename_i unsent
      have mem := mem_order sym inside
      rw [← List.take_append_drop h.hclen order] at mem
      rw [h.unsent sym ((List.mem_append.mp mem).resolve_left unsent)]
  · rw [List.getElem?_eq_none (by omega),
      List.getElem?_eq_none (by rw [h.clen_length]; omega)]

/-- The code lengths of a block are read as they were sent. -/
theorem dynamicTables_header (h : Header) (ahead : Ahead data pos (h.encode ++ s)) :
    Gives (dynamicTables data pos) fun r =>
      r.1.Of h.lit ∧ r.2.1.Of h.dist ∧ r.2.2 = pos + h.encode.length ∧ Ahead data r.2.2 s := by
  have final := ahead.advance
  suffices read : Gives (dynamicTables data pos) fun r =>
      r.1.Of h.lit ∧ r.2.1.Of h.dist ∧ r.2.2 = pos + h.encode.length by
    refine read.mono fun r done => ⟨done.1, done.2.1, done.2.2, ?_⟩
    rw [done.2.2]
    exact final
  clear final
  obtain ⟨litMin, litMax⟩ := h.lit_length
  obtain ⟨distMin, distMax⟩ := h.dist_length
  obtain ⟨hclenMin, hclenMax⟩ := h.hclen_ok
  unfold Header.encode at ahead ⊢
  simp only [List.append_assoc] at ahead
  unfold dynamicTables
  refine (bits_lowBits (by omega) ahead).bind ?_
  rintro _ ⟨rfl, ahead⟩
  refine (bits_lowBits (by omega) ahead).bind ?_
  rintro _ ⟨rfl, ahead⟩
  refine (bits_lowBits (by omega) ahead).bind ?_
  rintro _ ⟨rfl, ahead⟩
  dsimp only
  rw [Nat.sub_add_cancel hclenMin, order_eq]
  refine (received_gives h.clen_suited (fun sym mem => order_lt sym (List.mem_of_mem_take mem))
    ahead fun _ _ => rfl).bind ?_
  rintro ⟨clenLengths, pos'⟩ ⟨all, values, at_, rest, split, ahead⟩
  obtain rfl : rest = [] := List.self_eq_append_right.mp split
  dsimp only at all values at_ ahead
  have sent : (order.take h.hclen).length = h.hclen := by
    rw [List.length_take]
    exact Nat.min_eq_left hclenMax
  obtain rfl := clen_received h all values
  dsimp only
  have suited := h.clen_suited.weaken (show 7 ≤ 15 by decide)
  refine (Huffman.new_of suited (by rw [h.clen_length]; decide)).bind ?_
  intro clen table
  have total : h.lit.length - 257 + 257 + (h.dist.length - 1 + 1) = (h.lit ++ h.dist).length := by
    rw [List.length_append]
    omega
  rw [total]
  have enough : (h.lit ++ h.dist).length ≤ 0 + (h.lit ++ h.dist).length := Nat.le_add_left _ _
  refine (readLengths_runs table suited h.runs_coded (fun _ => h.runs_first) h.runs_denote enough
    ahead).bind ?_
  rintro _ ⟨rfl, -⟩
  have ended := getElem?_of_width h.end_coded
  have inLit : 256 < h.lit.length := (List.getElem?_eq_some_iff.mp ended).1
  have ended' : (h.lit ++ h.dist)[256]? = _ := (List.getElem?_append_left inLit).trans ended
  refine (getAt_gives ended').bind ?_
  rintro _ rfl
  rw [if_neg h.end_coded, Nat.sub_add_cancel litMin]
  dsimp only
  refine (Gives.lift (Yields.slice (Nat.zero_le _) (by simp))).bind ?_
  rintro _ rfl
  refine (Gives.lift (Yields.slice (by simp) (Nat.le_refl _))).bind ?_
  rintro _ rfl
  rw [List.drop_zero, List.take_left, List.take_length, List.drop_left]
  refine (Huffman.new_of h.lit_suited (by omega)).bind ?_
  intro lit litTable
  refine (Huffman.new_of h.dist_suited (by omega)).bind ?_
  intro dist distTable
  refine .pure ⟨litTable, distTable, ?_⟩
  have each : ((order.take h.hclen).flatMap fun sym => lowBits 3 (width h.clen sym)).length =
      3 * (order.take h.hclen).length := by
    simp [List.length_flatMap, Nat.mul_comm]
  simp only [List.length_append, length_lowBits, each]
  omega

end Posh.Term.Inflate
