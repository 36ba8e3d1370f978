import Posh.Remote.MouseFilter
import Posh.Term.Numbers

/-!
What the wheel grab makes of the input.

`withoutReports` reads a whole input from left to right and knows nothing of states; the
filter, fed in any pieces, writes the same. What it holds back is always the beginning of a
report (`Held`), so handing it on unchanged loses nothing.
-/

namespace Posh.Remote

open Posh.Lib Posh.Term

/-! ### Reports -/

/-- A byte of a report's parameters. -/
def isParam (b : UInt8) : Bool :=
  isAsciiDigit b || b = 0x3B

/-- `M` or `m`, the end of a report. -/
def isFinal (b : UInt8) : Bool :=
  b = 0x4D || b = 0x6D

/-- The longest parameters of a report. -/
def maxParams : Nat := 29

/-- The report that begins a string: its parameters, and what follows it. -/
def report? : Bytes → Option (Bytes × Bytes)
  | 0x1B :: 0x5B :: 0x3C :: s =>
      match s.dropWhile isParam with
      | final :: rest =>
          if isFinal final ∧ (s.takeWhile isParam).length ≤ maxParams then
            some (s.takeWhile isParam, rest)
          else none
      | [] => none
  | _ => none

/-- The first parameter. -/
def firstField (params : Bytes) : Bytes :=
  params.takeWhile (· ≠ 0x3B)

/-- The keys that a report stands for. -/
def translation (appCursorKeys : Bool) (params : Bytes) : Bytes :=
  if decimalValue (firstField params) = 64 then arrowUp appCursorKeys
  else if decimalValue (firstField params) = 65 then arrowDown appCursorKeys
  else []

theorem length_of_report? {s params rest : Bytes} (h : report? s = some (params, rest)) :
    rest.length < s.length := by
  unfold report? at h
  split at h
  · rename_i s
    split at h
    · rename_i final behind parts
      split at h
      · have suffix := (List.dropWhile_suffix isParam (l := s)).length_le
        rw [parts] at suffix
        cases h
        simp only [List.length_cons] at suffix ⊢
        omega
      · cases h
    · cases h
  · cases h

/-- The input with every report replaced by its keys. -/
def withoutReports (appCursorKeys : Bool) (s : Bytes) : Bytes :=
  match _found : report? s with
  | some (params, rest) => translation appCursorKeys params ++ withoutReports appCursorKeys rest
  | none =>
      match s with
      | [] => []
      | b :: rest => b :: withoutReports appCursorKeys rest
termination_by s.length
decreasing_by
  · exact length_of_report? _found
  · exact Nat.lt_succ_self _

variable {appCursorKeys : Bool} {b : UInt8} {s params rest : Bytes}

theorem withoutReports_of_report (found : report? s = some (params, rest)) :
    withoutReports appCursorKeys s =
      translation appCursorKeys params ++ withoutReports appCursorKeys rest := by
  rw [withoutReports]
  split
  · rename_i params' rest' eq
    rw [found] at eq
    cases eq
    rfl
  · rename_i none
    rw [found] at none
    cases none

theorem withoutReports_of_none (none : report? (b :: rest) = none) :
    withoutReports appCursorKeys (b :: rest) = b :: withoutReports appCursorKeys rest := by
  rw [withoutReports]
  split
  · rename_i eq
    rw [none] at eq
    cases eq
  · rfl

@[simp] theorem withoutReports_nil : withoutReports appCursorKeys [] = [] := by
  rw [withoutReports]
  split
  · rename_i eq
    cases eq
  · rfl

/-- No report begins with another byte. -/
theorem report?_of_ne (other : b ≠ 0x1B) : report? (b :: rest) = none := by
  unfold report?
  split
  · rename_i eq
    exact absurd (List.cons.inj eq).1 other
  · rfl

/-- Bytes before the next escape pass. -/
theorem withoutReports_append (plain : ∀ b ∈ s, b ≠ 0x1B) (rest : Bytes) :
    withoutReports appCursorKeys (s ++ rest) = s ++ withoutReports appCursorKeys rest := by
  induction s with
  | nil => rfl
  | cons b s ih =>
    rw [List.cons_append, withoutReports_of_none (report?_of_ne (plain b List.mem_cons_self)),
      ih fun b mem => plain b (List.mem_cons_of_mem _ mem), List.cons_append]

/-! ### Beginnings of reports -/

/-- The parameters that have been read, and what follows them. -/
theorem takeWhile_params (all : ∀ b ∈ params, isParam b = true) (s : Bytes) :
    (params ++ s).takeWhile isParam = params ++ s.takeWhile isParam ∧
      (params ++ s).dropWhile isParam = s.dropWhile isParam :=
  ⟨List.takeWhile_append_of_pos all, List.dropWhile_append_of_pos all⟩

/-- What is held back: a report that lacks something yet. -/
inductive Begun : MouseState → Bytes → Prop
  | ground : Begun .ground []
  | esc : Begun .esc [0x1B]
  | bracket : Begun .bracket [0x1B, 0x5B]
  | body {params : Bytes} (all : ∀ b ∈ params, isParam b = true)
      (short : params.length ≤ maxParams) : Begun .body (0x1B :: 0x5B :: 0x3C :: params)

theorem ne_esc_of_isParam (param : isParam b = true) : b ≠ 0x1B := by
  rintro rfl
  cases param

theorem ne_esc_of_params (all : ∀ b ∈ params, isParam b = true) :
    ∀ b ∈ 0x5B :: 0x3C :: params, b ≠ 0x1B := by
  intro b mem
  rcases List.mem_cons.mp mem with rfl | mem
  · decide
  · rcases List.mem_cons.mp mem with rfl | mem
    · decide
    · exact ne_esc_of_isParam (all b mem)

/-- An escape that begins no report passes, and what follows it up to the next one. -/
theorem withoutReports_skip (plain : ∀ b ∈ s, b ≠ 0x1B) (none : report? (b :: (s ++ rest)) = none) :
    withoutReports appCursorKeys (b :: (s ++ rest)) =
      b :: (s ++ withoutReports appCursorKeys rest) := by
  rw [withoutReports_of_none none, withoutReports_append plain]

/-- Where the next byte does not go on, no report begins here, and what was held back passes. -/
theorem Begun.passes {state : MouseState} (begun : Begun state s) (none : s ≠ [] →
    report? (s ++ rest) = none) :
    withoutReports appCursorKeys (s ++ rest) = s ++ withoutReports appCursorKeys rest := by
  cases begun with
  | ground => rfl
  | esc => exact withoutReports_of_none (none (List.cons_ne_nil _ _))
  | bracket =>
    have plain : ∀ b ∈ ([0x5B] : Bytes), b ≠ 0x1B := by
      intro b mem
      rw [List.mem_singleton.mp mem]
      decide
    exact withoutReports_skip plain (none (List.cons_ne_nil _ _))
  | body all short =>
    exact withoutReports_skip (ne_esc_of_params all) (none (List.cons_ne_nil _ _))

theorem report?_of_no_bracket (other : b ≠ 0x5B) : report? (0x1B :: b :: rest) = none := by
  unfold report?
  split
  · rename_i eq
    exact absurd (List.cons.inj (List.cons.inj eq).2).1 other
  · rfl

theorem report?_of_no_angle (other : b ≠ 0x3C) : report? (0x1B :: 0x5B :: b :: rest) = none := by
  unfold report?
  split
  · rename_i eq
    exact absurd (List.cons.inj (List.cons.inj (List.cons.inj eq).2).2).1 other
  · rfl

/-- A report that is complete. -/
theorem report?_complete (all : ∀ b ∈ params, isParam b = true) (short : params.length ≤ maxParams)
    (final : isFinal b = true) :
    report? (0x1B :: 0x5B :: 0x3C :: (params ++ b :: rest)) = some (params, rest) := by
  have last : isParam b = false := by
    unfold isFinal at final
    rw [Bool.or_eq_true, decide_eq_true_iff, decide_eq_true_iff] at final
    rcases final with rfl | rfl <;> rfl
  have parts := takeWhile_params all (b :: rest)
  rw [List.takeWhile_cons_of_neg (by simp [last]), List.dropWhile_cons_of_neg (by simp [last]),
    List.append_nil] at parts
  unfold report?
  simp only [parts.1, parts.2]
  exact if_pos ⟨final, short⟩

/-- Parameters that end otherwise. -/
theorem report?_of_no_final (all : ∀ b ∈ params, isParam b = true) (other : isParam b = false)
    (final : isFinal b = false) :
    report? (0x1B :: 0x5B :: 0x3C :: (params ++ b :: rest)) = none := by
  have parts := takeWhile_params all (b :: rest)
  rw [List.dropWhile_cons_of_neg (by simp [other])] at parts
  unfold report?
  simp only [parts.2]
  exact if_neg fun complete => absurd complete.1 (by simp [final])

theorem report?_of_part (all : ∀ b ∈ params, isParam b = true) :
    report? (0x1B :: 0x5B :: 0x3C :: params) = none := by
  have parts := takeWhile_params all []
  rw [List.append_nil] at parts
  unfold report?
  simp only [parts.2, List.dropWhile_nil]

/-- Parameters that are too long. -/
theorem report?_of_long (all : ∀ b ∈ params, isParam b = true) (long : maxParams < params.length) :
    report? (0x1B :: 0x5B :: 0x3C :: (params ++ rest)) = none := by
  have parts := takeWhile_params all rest
  unfold report?
  simp only [parts.1, parts.2]
  split
  · refine if_neg fun complete => ?_
    have bound := complete.2
    rw [List.length_append] at bound
    omega
  · rfl

/-- What is held back stays as it is if nothing follows. -/
theorem Begun.held {state : MouseState} (begun : Begun state s) :
    withoutReports appCursorKeys s = s := by
  have none : s ≠ [] → report? (s ++ []) = none := by
    intro _
    rw [List.append_nil]
    cases begun with
    | ground => rfl
    | esc => rfl
    | bracket => rfl
    | body all short => exact report?_of_part all
  have alone : withoutReports appCursorKeys (s ++ []) = s ++ withoutReports appCursorKeys [] :=
    begun.passes none
  rwa [List.append_nil, withoutReports_nil, List.append_nil] at alone

/-- A byte is compared with a character by its number. -/
theorem toNat_eq_iff {c : Char} {code : UInt8} (same : c.toNat = code.toNat) :
    b.toNat = c.toNat ↔ b = code := by
  rw [same]
  exact UInt8.toNat_inj

/-- The button of a report is its first parameter as a number. -/
theorem buttonCode_getD (all : ∀ b ∈ params, isParam b = true) :
    (buttonCode params).getD 0 =
      if decimalValue (firstField params) ≤ 2 ^ 32 - 1 then decimalValue (firstField params)
      else 0 := by
  have digits : ∀ b ∈ firstField params, isAsciiDigit b = true := by
    intro b mem
    have param := all b ((List.takeWhile_prefix _).subset mem)
    have other : decide (b ≠ 0x3B) = true := List.all_eq_true.mp List.all_takeWhile b mem
    rw [decide_eq_true_iff] at other
    unfold isParam at param
    simpa [other] using param
  have field : params.takeWhile (·.toNat ≠ ';'.toNat) = firstField params := by
    unfold firstField
    simp only [toNat_eq_iff (show ';'.toNat = (0x3B : UInt8).toNat from rfl), ne_eq]
  unfold buttonCode
  rw [field, Parser.fromUtf8_digits digits, Option.bind_some]
  exact Parser.fromStrRadix_digits digits

/-! ### The filter -/

namespace MouseFilter

/-- The filter holds back the beginning of a report. -/
def Holds (f : MouseFilter) : Prop :=
  Begun f.state f.pending

/-- `emitted` and what is held back then stand for what was held back and `read`. -/
def Rewrites (appCursorKeys : Bool) (f : MouseFilter) (read emitted : Bytes)
    (f' : MouseFilter) : Prop :=
  ∀ rest, withoutReports appCursorKeys (f.pending ++ (read ++ rest)) =
    emitted ++ withoutReports appCursorKeys (f'.pending ++ rest)

variable {f : MouseFilter}

variable (appCursorKeys) in
theorem stepGround_spec (b : UInt8) :
    ∃ f' emitted, (∀ out, stepGround b out {} = (f', out ++ emitted)) ∧ f'.Holds ∧
      Rewrites appCursorKeys {} [b] emitted f' := by
  unfold stepGround
  by_cases esc : b = 0x1B
  · subst esc
    refine ⟨⟨.esc, [0x1B]⟩, [], fun out => ?_, .esc, fun rest => rfl⟩
    exact congrArg (Prod.mk _) (List.append_nil out).symm
  · have other : ¬ b.toNat = 0x1B := fun same => esc (UInt8.toNat_inj.mp same)
    refine ⟨{}, [b], fun out => if_neg other, .ground, fun rest => ?_⟩
    exact withoutReports_of_none (report?_of_ne esc)

variable (appCursorKeys) in
/-- Where the match fails, what was held back is handed on. -/
theorem Holds.restart_spec (holds : f.Holds) (b : UInt8)
    (none : ∀ rest, f.pending ≠ [] → report? (f.pending ++ b :: rest) = none) :
    ∃ f' emitted, (∀ out, f.restart b out = (f', out ++ emitted)) ∧ f'.Holds ∧
      Rewrites appCursorKeys f [b] emitted f' := by
  obtain ⟨f', emitted, step, holds', rewrites⟩ := stepGround_spec appCursorKeys b
  refine ⟨f', f.pending ++ emitted, fun out => ?_, holds', fun rest => ?_⟩
  · rw [← List.append_assoc]
    exact step _
  · rw [List.append_assoc, ← rewrites rest]
    exact Begun.passes holds (none rest)

theorem isFinal_iff : b.toNat = 'M'.toNat ∨ b.toNat = 'm'.toNat ↔ isFinal b = true := by
  rw [toNat_eq_iff (show 'M'.toNat = (0x4D : UInt8).toNat from rfl),
    toNat_eq_iff (show 'm'.toNat = (0x6D : UInt8).toNat from rfl)]
  unfold isFinal
  rw [Bool.or_eq_true, decide_eq_true_iff, decide_eq_true_iff]

theorem isParam_iff :
    ('0'.toNat ≤ b.toNat ∧ b.toNat ≤ '9'.toNat) ∨ b.toNat = ';'.toNat ↔ isParam b = true := by
  rw [toNat_eq_iff (show ';'.toNat = (0x3B : UInt8).toNat from rfl)]
  unfold isParam isAsciiDigit
  rw [Bool.or_eq_true, Bool.and_eq_true, decide_eq_true_iff, decide_eq_true_iff,
    decide_eq_true_iff]
  exact Iff.rfl

variable (appCursorKeys) in
/-- A report is complete. -/
theorem step_final {params : Bytes} (all : ∀ b ∈ params, isParam b = true)
    (final : isFinal b = true) (out : Bytes) :
    step appCursorKeys b out ⟨.body, 0x1B :: 0x5B :: 0x3C :: params⟩ =
      .ok ({}, out ++ translation appCursorKeys params) := by
  have read : slice (0x1B :: 0x5B :: 0x3C :: params) 3
      (0x1B :: 0x5B :: 0x3C :: params).length = .ok params := by
    rw [slice, if_pos ⟨by simp, Nat.le_refl _⟩, List.take_length]
    rfl
  have value := buttonCode_getD all
  unfold step
  dsimp only
  rw [if_pos (isFinal_iff.mpr final), read]
  change Except.ok _ = _
  refine congrArg (fun arrow => Except.ok (({} : MouseFilter), out ++ arrow)) ?_
  unfold translation
  generalize decimalValue (firstField params) = number at value
  generalize buttonCode params = code at value
  split
  · have code : number = 64 := by
      simp only [Option.getD_some] at value
      split at value <;> omega
    rw [if_pos code]
  · have code : number = 65 := by
      simp only [Option.getD_some] at value
      split at value <;> omega
    rw [if_neg (by omega), if_pos code]
  · rename_i up down
    have other : number ≠ 64 ∧ number ≠ 65 := by
      cases code with
      | none =>
        simp only [Option.getD_none] at value
        split at value <;> omega
      | some n =>
        have ne : n ≠ 64 ∧ n ≠ 65 := ⟨fun eq => up (congrArg some eq), fun eq => down (congrArg some eq)⟩
        simp only [Option.getD_some] at value
        split at value <;> omega
    rw [if_neg other.1, if_neg other.2]

variable (appCursorKeys) in
/-- A report goes on: its parameters are held back as long as there are not too many. -/
theorem step_param {params : Bytes} (param : isParam b = true) (out : Bytes) :
    step appCursorKeys b out ⟨.body, 0x1B :: 0x5B :: 0x3C :: params⟩ =
      .ok (if maxParams < (params ++ [b]).length then
        ({}, out ++ 0x1B :: 0x5B :: 0x3C :: (params ++ [b]))
      else (⟨.body, 0x1B :: 0x5B :: 0x3C :: (params ++ [b])⟩, out)) := by
  have final : ¬ isFinal b = true := by
    intro final
    unfold isFinal at final
    rw [Bool.or_eq_true, decide_eq_true_iff, decide_eq_true_iff] at final
    rcases final with rfl | rfl <;> cases param
  have long : (0x1B :: 0x5B :: 0x3C :: params ++ [b]).length > MAX_MOUSE_SEQ ↔
      maxParams < (params ++ [b]).length := by
    unfold MAX_MOUSE_SEQ maxParams
    simp only [List.cons_append, List.length_cons]
    omega
  unfold step
  dsimp only
  rw [if_neg (mt isFinal_iff.mp final), if_pos (isParam_iff.mpr param)]
  by_cases more : maxParams < (params ++ [b]).length
  · rw [if_pos more, if_pos (long.mpr more)]
    rfl
  · rw [if_neg more, if_neg (mt long.mp more)]
    rfl

variable (appCursorKeys) in
/-- One byte: no panic, and nothing is lost. -/
theorem step_spec (holds : f.Holds) (b : UInt8) :
    ∃ f' emitted, (∀ out, f.step appCursorKeys b out = .ok (f', out ++ emitted)) ∧ f'.Holds ∧
      Rewrites appCursorKeys f [b] emitted f' := by
  obtain ⟨state, pending⟩ := f
  have bracket := toNat_eq_iff (b := b) (show '['.toNat = (0x5B : UInt8).toNat from rfl)
  have angle := toNat_eq_iff (b := b) (show '<'.toNat = (0x3C : UInt8).toNat from rfl)
  cases holds with
  | ground =>
    obtain ⟨f', emitted, step, rest⟩ := stepGround_spec appCursorKeys b
    exact ⟨f', emitted, fun out => congrArg Except.ok (step out), rest⟩
  | esc =>
    by_cases next : b = 0x5B
    · subst next
      refine ⟨⟨.bracket, [0x1B, 0x5B]⟩, [], fun out => ?_, .bracket, fun rest => rfl⟩
      exact congrArg (fun out => Except.ok (_, out)) (List.append_nil out).symm
    · have holds : Holds ⟨.esc, [0x1B]⟩ := .esc
      obtain ⟨f', emitted, step, rest⟩ :=
        holds.restart_spec appCursorKeys b fun rest _ => report?_of_no_bracket next
      refine ⟨f', emitted, fun out => ?_, rest⟩
      unfold MouseFilter.step
      dsimp only
      rw [if_neg (mt bracket.mp next), step]
  | bracket =>
    by_cases next : b = 0x3C
    · subst next
      refine ⟨⟨.body, [0x1B, 0x5B, 0x3C]⟩, [], fun out => ?_,
        .body (fun _ mem => absurd mem List.not_mem_nil) (Nat.zero_le _), fun rest => rfl⟩
      exact congrArg (fun out => Except.ok (_, out)) (List.append_nil out).symm
    · have holds : Holds ⟨.bracket, [0x1B, 0x5B]⟩ := .bracket
      obtain ⟨f', emitted, step, rest⟩ :=
        holds.restart_spec appCursorKeys b fun rest _ => report?_of_no_angle next
      refine ⟨f', emitted, fun out => ?_, rest⟩
      unfold MouseFilter.step
      dsimp only
      rw [if_neg (mt angle.mp next), step]
  | @body params all short =>
    by_cases final : isFinal b = true
    · exact ⟨{}, _, step_final appCursorKeys all final, .ground,
        fun rest => withoutReports_of_report (report?_complete all short final)⟩
    · by_cases param : isParam b = true
      · have step := @step_param appCursorKeys b params param
        have more : ∀ x ∈ params ++ [b], isParam x = true := by
          intro x mem
          rcases List.mem_append.mp mem with old | new
          · exact all x old
          · exact List.mem_singleton.mp new ▸ param
        have joined (rest : Bytes) : 0x1B :: 0x5B :: 0x3C :: params ++ ([b] ++ rest) =
            0x1B :: 0x5B :: 0x3C :: (params ++ [b]) ++ rest := by simp
        by_cases long : maxParams < (params ++ [b]).length
        · refine ⟨{}, _, fun out => (step out).trans (congrArg _ (if_pos long)), .ground,
            fun rest => ?_⟩
          rw [joined]
          exact withoutReports_skip (ne_esc_of_params more) (report?_of_long more long)
        · have holds : Holds ⟨.body, 0x1B :: 0x5B :: 0x3C :: (params ++ [b])⟩ :=
            .body more (Nat.not_lt.mp long)
          refine ⟨_, [], fun out => ?_, holds, fun rest => ?_⟩
          · rw [step, if_neg long, List.append_nil]
          · rw [joined]
            rfl
      · have holds : Holds ⟨.body, 0x1B :: 0x5B :: 0x3C :: params⟩ := .body all short
        obtain ⟨f', emitted, step, rest⟩ := holds.restart_spec appCursorKeys b fun rest _ =>
          report?_of_no_final all (Bool.eq_false_iff.mpr param) (Bool.eq_false_iff.mpr final)
        refine ⟨f', emitted, fun out => ?_, rest⟩
        unfold MouseFilter.step
        dsimp only
        rw [if_neg (mt isFinal_iff.mp final), if_neg (mt isParam_iff.mp param), step]

variable (appCursorKeys) in
/-- A piece of the input. -/
theorem feed_spec (holds : f.Holds) (buf : Bytes) :
    ∃ f' emitted, (∀ out, forEach buf (f, out) (fun b s => s.1.step appCursorKeys b s.2) =
        .ok (f', out ++ emitted)) ∧ f'.Holds ∧ Rewrites appCursorKeys f buf emitted f' := by
  induction buf generalizing f with
  | nil =>
    refine ⟨f, [], fun out => ?_, holds, fun rest => rfl⟩
    exact congrArg (fun out => Except.ok (f, out)) (List.append_nil out).symm
  | cons b buf ih =>
    obtain ⟨f₁, first, step, holds₁, rewrites₁⟩ := step_spec appCursorKeys holds b
    obtain ⟨f₂, second, steps, holds₂, rewrites₂⟩ := ih holds₁
    refine ⟨f₂, first ++ second, fun out => ?_, holds₂, fun rest => ?_⟩
    · rw [forEach, step, ← List.append_assoc]
      exact steps _
    · rw [List.append_assoc, ← rewrites₂ rest]
      exact rewrites₁ (buf ++ rest)

/-- Another piece of the input, and everything that has been written. -/
def feedMore (appCursorKeys : Bool) (chunk : Bytes) (s : MouseFilter × Bytes) :
    Checked (MouseFilter × Bytes) := do
  let (f, out) ← s.1.feed appCursorKeys chunk
  return (f, s.2 ++ out)

def feeds (appCursorKeys : Bool) (chunks : List Bytes) (f : MouseFilter) :
    Checked (MouseFilter × Bytes) :=
  forEach chunks (f, []) (feedMore appCursorKeys)

/-- Feeding pieces is feeding what they join to. -/
theorem feeds_flatten (holds : f.Holds) (chunks : List Bytes) (out : Bytes) :
    forEach chunks (f, out) (feedMore appCursorKeys) =
      forEach chunks.flatten (f, out) fun b s => s.1.step appCursorKeys b s.2 := by
  induction chunks generalizing f out with
  | nil => rfl
  | cons chunk chunks ih =>
    obtain ⟨f', emitted, fed, holds', -⟩ := feed_spec appCursorKeys holds chunk
    have once : f.feed appCursorKeys chunk = .ok (f', emitted) := fed []
    rw [List.flatten_cons, forEach_append, fed out, forEach, feedMore, once]
    exact ih holds' (out ++ emitted)

/-- However the input is cut, the filter writes it with every report replaced by its keys, and what
it hands back at the end is the rest. -/
theorem filter_lossless (appCursorKeys : Bool) (chunks : List Bytes) :
    ∃ f out, feeds appCursorKeys chunks {} = .ok (f, out) ∧
      feed appCursorKeys chunks.flatten {} = .ok (f, out) ∧
      out ++ f.takePending.1 = withoutReports appCursorKeys chunks.flatten ∧
      f.takePending.2 = {} := by
  have start : Holds {} := .ground
  obtain ⟨f, out, fed, holds, rewrites⟩ := feed_spec appCursorKeys start chunks.flatten
  refine ⟨f, out, (feeds_flatten start chunks []).trans (fed []), fed [], ?_, rfl⟩
  have whole := rewrites []
  rw [List.append_nil, List.append_nil, Begun.held holds] at whole
  exact whole.symm

end MouseFilter

end Posh.Remote
