import Posh.Lib.Utf8Codec
import Posh.Term.Parser

/-!
What the parser reads of a text.

From ground, with no character begun, a text is read when the parser takes all of
it, returns to ground and completes the same actions whatever it held before. Texts
read one after the other are read as a whole, so that what a renderer writes is
read piece by piece.
-/

namespace Posh.Term

open Posh.Lib

namespace Parser

/-- All bytes of `bytes`, and the actions they complete. -/
def feed : Bytes → Parser → Checked (Parser × List Action)
  | [], p => .ok (p, [])
  | b :: rest, p => do
      let (p, actions) ← p.advance b
      let (p, more) ← feed rest p
      return (p, actions ++ more)

theorem feed_cons {b : UInt8} {rest : Bytes} {p q : Parser} {actions : List Action}
    (first : p.advance b = .ok (q, actions)) :
    feed (b :: rest) p = (feed rest q).map fun r => (r.1, actions ++ r.2) := by
  rw [feed, first]
  change (feed rest q >>= _) = _
  cases feed rest q with
  | ok r => rfl
  | error panic => rfl

theorem feed_step {b : UInt8} {rest : Bytes} {p q r : Parser} {x y : List Action}
    (first : p.advance b = .ok (q, x)) (second : feed rest q = .ok (r, y)) :
    feed (b :: rest) p = .ok (r, x ++ y) := by
  rw [feed_cons first, second]
  rfl

/-- The bytes of a stream, the first apart. -/
theorem feed_cons_eq {b : UInt8} {rest : Bytes} {p r : Parser} {all : List Action}
    (fed : feed (b :: rest) p = .ok (r, all)) :
    ∃ q first later, p.advance b = .ok (q, first) ∧ feed rest q = .ok (r, later) ∧
      all = first ++ later := by
  cases step : p.advance b with
  | error panic =>
    rw [feed, step] at fed
    cases fed
  | ok out =>
    obtain ⟨q, first⟩ := out
    rw [feed_cons step] at fed
    cases after : feed rest q with
    | error panic =>
      rw [after] at fed
      cases fed
    | ok more =>
      rw [after] at fed
      cases fed
      exact ⟨_, _, _, rfl, after, rfl⟩

theorem feed_one {b : UInt8} {p q : Parser} {x : List Action} (step : p.advance b = .ok (q, x)) :
    feed [b] p = .ok (q, x) := by
  rw [feed_step step rfl, List.append_nil]

theorem feed_append {a b : Bytes} {p q r : Parser} {before after : List Action}
    (first : feed a p = .ok (q, before)) (second : feed b q = .ok (r, after)) :
    feed (a ++ b) p = .ok (r, before ++ after) := by
  induction a generalizing p before with
  | nil =>
    cases first
    exact second
  | cons x a ih =>
    obtain ⟨p', actions, later, step, rest, rfl⟩ := feed_cons_eq first
    rw [List.cons_append, feed_step step (ih rest), List.append_assoc]

/-- In ground, with no character begun. -/
structure Ready (p : Parser) : Prop where
  ground : p.state = .ground
  whole : p.utf8Need = 0

/-- Read as `actions` wherever it is read from ground. -/
def Reads (bytes : Bytes) (actions : List Action) : Prop :=
  ∀ p, Ready p → ∃ q, Ready q ∧ feed bytes p = .ok (q, actions)

theorem ready_new : Ready {} :=
  ⟨rfl, rfl⟩

theorem Reads.nil : Reads [] [] :=
  fun p ready => ⟨p, ready, rfl⟩

theorem Reads.append {a b : Bytes} {before after : List Action} (ha : Reads a before)
    (hb : Reads b after) : Reads (a ++ b) (before ++ after) := by
  intro p ready
  obtain ⟨q, ready_q, first⟩ := ha p ready
  obtain ⟨r, ready_r, second⟩ := hb q ready_q
  exact ⟨r, ready_r, feed_append first second⟩

/-- A byte after which the parser is ready again. -/
theorem reads_byte {b : UInt8} {actions : List Action}
    (h : ∀ p, Ready p → ∃ q, Ready q ∧ p.advance b = .ok (q, actions)) : Reads [b] actions := by
  intro p ready
  obtain ⟨q, ready_q, step⟩ := h p ready
  exact ⟨q, ready_q, feed_one step⟩

/-! ### Characters -/

variable {p : Parser}

theorem Ready.advance (h : Ready p) (b : UInt8) : p.advance b = .ok (p.groundByte b) := by
  unfold Parser.advance
  rw [h.ground]
  unfold Parser.ground
  rw [if_neg (by rw [h.whole]; exact Nat.lt_irrefl 0)]

/-- The control characters act where they stand. -/
theorem reads_control {b : UInt8} (control : b.toNat ≤ 0x1F) (escape : b.toNat ≠ 0x1B) :
    Reads [b] [.execute b] := by
  apply reads_byte
  intro p ready
  refine ⟨p, ready, ?_⟩
  rw [ready.advance]
  unfold groundByte
  rw [if_neg escape, if_pos control]

/-- A byte of a character that is not its last. -/
theorem advance_continuation {b : UInt8} {n : Nat} (state : p.state = .ground)
    (need : p.utf8Need = n + 2) (room : p.utf8.length < 4) (cont : isContinuation b = true) :
    p.advance b = .ok ({ p with utf8 := p.utf8 ++ [b], utf8Need := n + 1 }, []) := by
  unfold Parser.advance
  rw [state]
  unfold Parser.ground
  rw [if_pos (by omega), if_pos cont]
  unfold utf8Push
  rw [if_pos room]
  simp [need, Bind.bind, Except.bind, sub, state]
  rfl

/-- The last byte of a character. -/
theorem advance_last {b : UInt8} {c : Char} (state : p.state = .ground) (need : p.utf8Need = 1)
    (room : p.utf8.length < 4) (cont : isContinuation b = true)
    (whole : p.utf8 ++ [b] = String.utf8EncodeChar c) :
    p.advance b = .ok ({ p with utf8 := [], utf8Need := 0 }, [.print c]) := by
  have decoded : fromUtf8 (p.utf8 ++ [b]) = some [c] := by
    have one : toUtf8 [c] = String.utf8EncodeChar c := by simp [toUtf8]
    rw [whole, ← one]
    exact fromUtf8_toUtf8 [c]
  unfold Parser.advance
  rw [state]
  unfold Parser.ground
  rw [if_pos (by omega), if_pos cont]
  unfold utf8Push
  rw [if_pos room]
  simp [need, Bind.bind, Except.bind, sub, decoded, unwrap, utf8Reset, state]
  rfl

/-- A character is printed, unless it is a control. -/
theorem reads_char {c : Char} (graphic : 0x20 ≤ c.toNat) (notDelete : c.toNat ≠ 0x7F) :
    Reads (String.utf8EncodeChar c) [.print c] := by
  have shape := encodes c
  generalize eq : String.utf8EncodeChar c = bytes at shape
  intro p ready
  cases shape with
  | @one b value ascii =>
    refine ⟨p, ready, ?_⟩
    have step : p.advance b = .ok (p, [.print c]) := by
      rw [ready.advance]
      unfold groundByte
      rw [if_neg (by omega), if_neg (by omega), if_pos (by omega), value, Char.ofNat_toNat]
    exact feed_step step rfl
  | @two b0 b1 lead cont value wide =>
    have first : p.advance b0 = .ok ({ p with utf8 := [b0], utf8Need := 1 }, []) := by
      rw [ready.advance]
      unfold groundByte
      rw [if_neg (by omega), if_neg (by omega), if_neg (by omega), if_neg (by omega),
        if_neg (by omega), if_neg (by omega), if_pos lead]
    refine ⟨{ p with utf8 := [], utf8Need := 0 }, ⟨ready.ground, rfl⟩, ?_⟩
    have last := advance_last (p := { p with utf8 := [b0], utf8Need := 1 }) (b := b1) (c := c) ready.ground
      rfl (by simp) cont (by simp [eq])
    exact feed_step first (feed_step last rfl)
  | @three b0 b1 b2 lead second cont₁ cont₂ value wide =>
    have first : p.advance b0 = .ok ({ p with utf8 := [b0], utf8Need := 2 }, []) := by
      rw [ready.advance]
      unfold groundByte
      rw [if_neg (by omega), if_neg (by omega), if_neg (by omega), if_neg (by omega),
        if_neg (by omega), if_neg (by omega), if_neg (by omega), if_pos lead]
    refine ⟨{ p with utf8 := [], utf8Need := 0 }, ⟨ready.ground, rfl⟩, ?_⟩
    have middle := advance_continuation (p := { p with utf8 := [b0], utf8Need := 2 }) (b := b1)
      ready.ground rfl (by simp) cont₁
    have last := advance_last (p := { p with utf8 := [b0, b1], utf8Need := 1 }) (b := b2) (c := c)
      ready.ground rfl (by simp) cont₂ (by simp [eq])
    exact feed_step first (feed_step middle (feed_step last rfl))
  | @four b0 b1 b2 b3 lead second cont₁ cont₂ cont₃ value wide =>
    have first : p.advance b0 = .ok ({ p with utf8 := [b0], utf8Need := 3 }, []) := by
      rw [ready.advance]
      unfold groundByte
      rw [if_neg (by omega), if_neg (by omega), if_neg (by omega), if_neg (by omega),
        if_neg (by omega), if_neg (by omega), if_neg (by omega), if_neg (by omega), if_pos lead]
    refine ⟨{ p with utf8 := [], utf8Need := 0 }, ⟨ready.ground, rfl⟩, ?_⟩
    have middle := advance_continuation (p := { p with utf8 := [b0], utf8Need := 3 }) (b := b1)
      ready.ground rfl (by simp) cont₁
    have next := advance_continuation (p := { p with utf8 := [b0, b1], utf8Need := 2 }) (b := b2)
      ready.ground rfl (by simp) cont₂
    have last := advance_last (p := { p with utf8 := [b0, b1, b2], utf8Need := 1 }) (b := b3) (c := c)
      ready.ground rfl (by simp) cont₃ (by simp [eq])
    exact feed_step first (feed_step middle (feed_step next (feed_step last rfl)))

/-- DEL is ignored. -/
theorem reads_delete : Reads [0x7F] [] := by
  apply reads_byte
  intro p ready
  refine ⟨p, ready, ?_⟩
  rw [ready.advance]
  rfl

/-! ### Parameters -/

/-- A digit, a colon or a semicolon. -/
def IsParamByte (b : UInt8) : Prop :=
  0x30 ≤ b.toNat ∧ b.toNat ≤ 0x3B

instance : DecidablePred IsParamByte :=
  fun b => inferInstanceAs (Decidable (0x30 ≤ b.toNat ∧ b.toNat ≤ 0x3B))

/-- What one byte of a parameter list does. -/
def paramStep (p : Parser) (b : UInt8) : Parser :=
  if b.toNat = ':'.toNat then p.paramColon
  else if b.toNat = ';'.toNat then p.paramSemicolon
  else { p with curVal := min (p.curVal * 10 + (b.toNat - '0'.toNat)) 65535, partSeen := true }

/-- The parameters a list of bytes spells. -/
def paramsOf (body : Bytes) : Params :=
  (takeParams (body.foldl paramStep {})).1

theorem paramByte_eq {b : UInt8} {next : State} (param : IsParamByte b)
    (small : p.curVal ≤ 65535) :
    paramByte b next p = .ok ({ p.paramStep b with state := next }, []) := by
  obtain ⟨low, high⟩ := param
  have zero : '0'.toNat = 0x30 := rfl
  unfold paramByte paramStep
  by_cases colon : b.toNat = ':'.toNat
  · rw [if_pos colon, if_pos colon]
    rfl
  by_cases semicolon : b.toNat = ';'.toNat
  · rw [if_neg colon, if_pos semicolon, if_neg colon, if_pos semicolon]
    rfl
  · rw [if_neg colon, if_neg semicolon, if_neg colon, if_neg semicolon]
    unfold paramDigit
    rw [sub_eq_ok (by omega), mul_eq_ok (by omega)]
    simp only [Bind.bind, Except.bind]
    rw [add_eq_ok (by omega)]
    rfl

/-- The fields a parameter list is collected in. -/
def paramFields (p : Parser) : Params × List Nat × Nat × Bool :=
  (p.params, p.curParts, p.curVal, p.partSeen)

theorem paramFields_step {p q : Parser} (same : p.paramFields = q.paramFields) (b : UInt8) :
    (p.paramStep b).paramFields = (q.paramStep b).paramFields := by
  simp only [paramFields, Prod.mk.injEq] at same
  obtain ⟨params, parts, val, seen⟩ := same
  unfold paramStep
  split
  · simp [paramFields, paramColon, params, parts, val]
  split
  · simp [paramFields, paramSemicolon, params, parts, val]
  · simp [paramFields, params, parts, val]

theorem paramFields_foldl {p q : Parser} (same : p.paramFields = q.paramFields) (body : Bytes) :
    (body.foldl paramStep p).paramFields = (body.foldl paramStep q).paramFields := by
  induction body generalizing p q with
  | nil => exact same
  | cons b body ih => exact ih (paramFields_step same b)

theorem takeParams_fields {p q : Parser} (same : p.paramFields = q.paramFields) :
    (takeParams p).1 = (takeParams q).1 := by
  simp only [paramFields, Prod.mk.injEq] at same
  obtain ⟨params, parts, val, seen⟩ := same
  simp [takeParams, params, parts, val, seen]

/-- What collecting parameters leaves alone, and how large a value gets. -/
structure Collecting (p q : Parser) : Prop where
  state : q.state = p.state
  intermediates : q.intermediates = p.intermediates
  marker : q.marker = p.marker
  whole : q.utf8Need = p.utf8Need
  small : p.curVal ≤ 65535 → q.curVal ≤ 65535

theorem paramStep_collecting (b : UInt8) (p : Parser) : Collecting p (p.paramStep b) := by
  unfold paramStep
  split
  · exact ⟨rfl, rfl, rfl, rfl, fun _ => Nat.zero_le _⟩
  split
  · exact ⟨rfl, rfl, rfl, rfl, fun _ => Nat.zero_le _⟩
  · exact ⟨rfl, rfl, rfl, rfl, fun _ => Nat.min_le_right _ _⟩

theorem Collecting.trans {p q r : Parser} (h : Collecting p q) (h' : Collecting q r) :
    Collecting p r :=
  ⟨h'.state.trans h.state, h'.intermediates.trans h.intermediates, h'.marker.trans h.marker,
    h'.whole.trans h.whole, fun small => h'.small (h.small small)⟩

/-- A parameter list is collected without a panic. -/
theorem feed_params {body : Bytes} (params : ∀ b ∈ body, IsParamByte b)
    (state : p.state = .csiParam) (small : p.curVal ≤ 65535) :
    feed body p = .ok (body.foldl paramStep p, []) ∧ Collecting p (body.foldl paramStep p) := by
  induction body generalizing p with
  | nil => exact ⟨rfl, rfl, rfl, rfl, rfl, id⟩
  | cons b body ih =>
    have param := params b List.mem_cons_self
    obtain ⟨low, high⟩ := param
    have collecting := paramStep_collecting b p
    have step : p.advance b = .ok (p.paramStep b, []) := by
      unfold Parser.advance
      rw [state]
      change csiParam b p = _
      unfold csiParam anywhere
      rw [if_neg (by omega), if_neg (by omega), if_neg (by omega)]
      dsimp only
      rw [if_neg (by omega), if_neg (by omega), if_pos (by change _ ≤ 0x3B; omega),
        paramByte_eq ⟨low, high⟩ small, ← state, ← collecting.state]
    obtain ⟨rest, more⟩ := ih (fun b mem => params b (List.mem_cons_of_mem _ mem))
      (collecting.state.trans state) (collecting.small small)
    exact ⟨feed_step step rest, collecting.trans more⟩

/-! ### Escape sequences -/

/-- After an ESC. -/
structure Escaped (p : Parser) : Prop where
  escape : p.state = .escape
  whole : p.utf8Need = 0

/-- Read as `actions` wherever it follows an ESC. -/
def Continues (bytes : Bytes) (actions : List Action) : Prop :=
  ∀ p, Escaped p → ∃ q, Ready q ∧ feed bytes p = .ok (q, actions)

theorem Continues.reads {bytes : Bytes} {actions : List Action} (h : Continues bytes actions) :
    Reads (0x1B :: bytes) actions := by
  intro p ready
  have step : p.advance 0x1B = .ok ({ p with state := .escape }, []) := by
    rw [ready.advance]
    rfl
  obtain ⟨q, ready_q, rest⟩ := h { p with state := .escape } ⟨rfl, ready.whole⟩
  exact ⟨q, ready_q, feed_step step rest⟩

theorem Escaped.advance (h : Escaped p) (b : UInt8) : p.advance b = .ok (p.escape b) := by
  unfold Parser.advance
  rw [h.escape]

/-- A sequence of one byte. -/
theorem continues_final {b : UInt8} (low : 0x30 ≤ b.toNat) (high : b.toNat ≤ 0x7E)
    (plain : b.toNat ∉ "[]P_X^".toList.map Char.toNat) : Continues [b] [.esc [] b] := by
  intro p escaped
  refine ⟨{ p with state := .ground }, ⟨rfl, escaped.whole⟩, ?_⟩
  have step : p.advance b = .ok ({ p with state := .ground }, [.esc [] b]) := by
    change b.toNat ∉ ['['.toNat, ']'.toNat, 'P'.toNat, '_'.toNat, 'X'.toNat, '^'.toNat] at plain
    simp only [List.mem_cons, List.not_mem_nil, or_false, not_or] at plain
    obtain ⟨noCsi, noOsc, noDcs, noApc, noSos, noPm⟩ := plain
    rw [escaped.advance]
    unfold Parser.escape anywhere
    rw [if_neg (by omega), if_neg (by omega), if_neg (by omega)]
    dsimp only
    rw [if_neg (by omega), if_neg (by omega), if_neg noCsi, if_neg noOsc, if_neg noDcs,
      if_neg noApc, if_neg (not_or.mpr ⟨noSos, noPm⟩), if_pos high]
  exact feed_step step rfl

/-! ### Control sequences -/

/-- In a control sequence that spells `params` so far. -/
structure Spells (params : Params) (marker : UInt8) (p : Parser) : Prop where
  state : p.state = .csiEntry ∨ p.state = .csiParam
  params : (takeParams p).1 = params
  intermediates : p.intermediates = []
  marker : p.marker = marker
  whole : p.utf8Need = 0

theorem Escaped.advance_bracket (h : Escaped p) :
    p.advance 0x5B = .ok ({ p.clear with state := .csiEntry }, []) := by
  rw [h.advance]
  rfl

/-- The parameters of a sequence without a private marker. -/
theorem feed_csi {body : Bytes} (params : ∀ b ∈ body, IsParamByte b) (escaped : Escaped p) :
    ∃ q, feed (0x5B :: body) p = .ok (q, []) ∧ Spells (paramsOf body) 0 q := by
  have first := escaped.advance_bracket
  cases body with
  | nil => exact ⟨_, feed_step first rfl, .inl rfl, rfl, rfl, rfl, escaped.whole⟩
  | cons b body =>
    obtain ⟨low, high⟩ := params b List.mem_cons_self
    have step : ({ p.clear with state := .csiEntry } : Parser).advance b =
        .ok ({ ({ p.clear with state := .csiEntry } : Parser).paramStep b with
          state := .csiParam }, []) := by
      change csiEntry b _ = _
      unfold csiEntry anywhere
      rw [if_neg (by omega), if_neg (by omega), if_neg (by omega)]
      dsimp only
      rw [if_neg (by omega), if_neg (by omega), if_pos (by change _ ≤ 0x3B; omega)]
      exact paramByte_eq ⟨low, high⟩ (Nat.zero_le _)
    have collecting := paramStep_collecting b { p.clear with state := .csiEntry }
    obtain ⟨rest, more⟩ := feed_params (p := { ({ p.clear with state := .csiEntry } :
      Parser).paramStep b with state := .csiParam })
      (fun b mem => params b (List.mem_cons_of_mem _ mem)) rfl (collecting.small (Nat.zero_le _))
    have fields : (({ p.clear with state := .csiEntry } : Parser).paramStep b).paramFields =
        (({} : Parser).paramStep b).paramFields :=
      paramFields_step (p := { p.clear with state := .csiEntry }) (q := {}) rfl b
    refine ⟨_, feed_step first (feed_step step rest), .inr more.state,
      takeParams_fields (paramFields_foldl (p := { ({ p.clear with state := .csiEntry } :
        Parser).paramStep b with state := .csiParam }) (q := ({} : Parser).paramStep b) fields body),
      ?_, ?_, ?_⟩
    · exact more.intermediates.trans collecting.intermediates
    · exact more.marker.trans collecting.marker
    · exact (more.whole.trans collecting.whole).trans escaped.whole

/-- The parameters of a sequence with a private marker. -/
theorem feed_csiMarked {marker : UInt8} {body : Bytes} (private_ : 0x3C ≤ marker.toNat ∧ marker.toNat ≤ 0x3F)
    (params : ∀ b ∈ body, IsParamByte b) (escaped : Escaped p) :
    ∃ q, feed (0x5B :: marker :: body) p = .ok (q, []) ∧ Spells (paramsOf body) marker q := by
  obtain ⟨low, high⟩ := private_
  have first := escaped.advance_bracket
  have second : ({ p.clear with state := .csiEntry } : Parser).advance marker =
      .ok ({ p.clear with marker := marker, state := .csiParam }, []) := by
    change csiEntry marker _ = _
    unfold csiEntry anywhere
    rw [if_neg (by omega), if_neg (by omega), if_neg (by omega)]
    dsimp only
    rw [if_neg (by omega), if_neg (by omega), if_neg (by change ¬ _ ≤ 0x3B; omega), if_pos high]
  obtain ⟨rest, more⟩ := feed_params (p := { p.clear with marker := marker, state := .csiParam })
    params rfl (Nat.zero_le _)
  have fields := paramFields_foldl (p := { p.clear with marker := marker, state := .csiParam })
    (q := {}) rfl body
  exact ⟨_, feed_step first (feed_step second rest), .inr more.state, takeParams_fields fields,
    more.intermediates, more.marker, more.whole.trans escaped.whole⟩

/-- The final byte dispatches the sequence. -/
theorem Spells.advance {params : Params} {marker b : UInt8} (h : Spells params marker p)
    (low : 0x40 ≤ b.toNat) (high : b.toNat ≤ 0x7E) :
    ∃ q, Ready q ∧ p.advance b = .ok (q, [.csi params [] marker b]) := by
  have dispatched : p.advance b = .ok (csiDispatch b p) := by
    unfold Parser.advance
    rcases h.state with entry | param
    · rw [entry]
      change csiEntry b p = _
      unfold csiEntry anywhere
      rw [if_neg (by omega), if_neg (by omega), if_neg (by omega)]
      dsimp only
      rw [if_neg (by omega), if_neg (by omega), if_neg (by change ¬ _ ≤ 0x3B; omega),
        if_neg (by omega), if_pos high]
    · rw [param]
      change csiParam b p = _
      unfold csiParam anywhere
      rw [if_neg (by omega), if_neg (by omega), if_neg (by omega)]
      dsimp only
      rw [if_neg (by omega), if_neg (by omega), if_neg (by change ¬ _ ≤ 0x3B; omega),
        if_neg (by omega), if_pos high]
  refine ⟨(csiDispatch b p).1, ⟨rfl, h.whole⟩, ?_⟩
  rw [dispatched, ← h.params, ← h.intermediates, ← h.marker]
  rfl

/-- An intermediate byte and the final one. -/
theorem Spells.advance_with {params : Params} {marker i b : UInt8} (h : Spells params marker p)
    (inter : 0x20 ≤ i.toNat ∧ i.toNat ≤ 0x2F) (low : 0x40 ≤ b.toNat) (high : b.toNat ≤ 0x7E) :
    ∃ q, Ready q ∧ feed [i, b] p = .ok (q, [.csi params [i] marker b]) := by
  obtain ⟨ilow, ihigh⟩ := inter
  have first : p.advance i = .ok ({ p with intermediates := [i], state := .csiIntermediate }, []) := by
    unfold Parser.advance
    rcases h.state with entry | param
    · rw [entry]
      change csiEntry i p = _
      unfold csiEntry anywhere
      rw [if_neg (by omega), if_neg (by omega), if_neg (by omega)]
      dsimp only
      rw [if_neg (by omega), if_pos ihigh, h.intermediates]
      rfl
    · rw [param]
      change csiParam i p = _
      unfold csiParam anywhere
      rw [if_neg (by omega), if_neg (by omega), if_neg (by omega)]
      dsimp only
      rw [if_neg (by omega), if_pos ihigh]
      unfold pushIntermediate
      rw [h.intermediates]
      rfl
  have last : ({ p with intermediates := [i], state := .csiIntermediate } : Parser).advance b =
      .ok (csiDispatch b { p with intermediates := [i], state := .csiIntermediate }) := by
    change Except.ok (csiIntermediate b _) = _
    unfold csiIntermediate anywhere
    rw [if_neg (by omega), if_neg (by omega), if_neg (by omega)]
    dsimp only
    rw [if_neg (by omega), if_neg (by omega), if_neg (by omega), if_pos high]
  refine ⟨(csiDispatch b { p with intermediates := [i], state := .csiIntermediate }).1,
    ⟨rfl, h.whole⟩, ?_⟩
  rw [feed_step first (feed_step last rfl), ← h.params, ← h.marker]
  rfl

theorem continues_csi {body : Bytes} {final : UInt8} (params : ∀ b ∈ body, IsParamByte b)
    (low : 0x40 ≤ final.toNat) (high : final.toNat ≤ 0x7E) :
    Continues (0x5B :: (body ++ [final])) [.csi (paramsOf body) [] 0 final] := by
  intro p escaped
  obtain ⟨q, opened, spells⟩ := feed_csi params escaped
  obtain ⟨r, ready, dispatched⟩ := spells.advance low high
  exact ⟨r, ready, feed_append opened (feed_step dispatched rfl)⟩

theorem continues_csiMarked {body : Bytes} {marker final : UInt8}
    (private_ : 0x3C ≤ marker.toNat ∧ marker.toNat ≤ 0x3F) (params : ∀ b ∈ body, IsParamByte b)
    (low : 0x40 ≤ final.toNat) (high : final.toNat ≤ 0x7E) :
    Continues (0x5B :: marker :: (body ++ [final])) [.csi (paramsOf body) [] marker final] := by
  intro p escaped
  obtain ⟨q, opened, spells⟩ := feed_csiMarked private_ params escaped
  obtain ⟨r, ready, dispatched⟩ := spells.advance low high
  exact ⟨r, ready, feed_append opened (feed_step dispatched rfl)⟩

theorem continues_csiWith {body : Bytes} {i final : UInt8} (params : ∀ b ∈ body, IsParamByte b)
    (inter : 0x20 ≤ i.toNat ∧ i.toNat ≤ 0x2F) (low : 0x40 ≤ final.toNat)
    (high : final.toNat ≤ 0x7E) :
    Continues (0x5B :: (body ++ [i, final])) [.csi (paramsOf body) [i] 0 final] := by
  intro p escaped
  obtain ⟨q, opened, spells⟩ := feed_csi params escaped
  obtain ⟨r, ready, dispatched⟩ := spells.advance_with inter low high
  exact ⟨r, ready, feed_append opened dispatched⟩

/-! ### Strings -/

/-- What is left of a string that holds `text`, of which `cap` bytes fit. -/
structure Holds (text : Bytes) (cap : Nat) (p : Parser) : Prop where
  whole : p.utf8Need = 0
  overflow : p.stringOverflow = decide (cap < text.length)
  buffer : text.length ≤ cap → p.stringBuf = text
  full : cap < text.length → cap ≤ p.stringBuf.length

/-- A string that has just begun. -/
theorem holds_start (whole : p.utf8Need = 0) (state : State) (cap : Nat) :
    Holds [] cap (p.startString state) :=
  ⟨whole, rfl, fun _ => rfl, fun full => absurd full (Nat.not_lt_zero cap)⟩

theorem Holds.push {text : Bytes} {cap : Nat} (h : Holds text cap p) (b : UInt8) :
    Holds (text ++ [b]) cap (p.pushStringByte b cap) := by
  have length : (text ++ [b]).length = text.length + 1 := by simp
  unfold pushStringByte
  by_cases fits : text.length + 1 ≤ cap
  · have buffer := h.buffer (by omega)
    rw [buffer, if_pos (by omega)]
    refine ⟨h.whole, ?_, fun _ => rfl, fun full => by omega⟩
    rw [h.overflow, length]
    simp
    omega
  · have full : cap ≤ p.stringBuf.length := by
      by_cases exact_ : text.length ≤ cap
      · rw [h.buffer exact_]
        omega
      · exact h.full (by omega)
    rw [if_neg (by omega)]
    refine ⟨h.whole, ?_, fun small => by omega, fun _ => full⟩
    rw [length]
    simp
    omega

/-- The bytes of a string are collected. -/
theorem feed_string (state : State) (cap : Nat) (Text : UInt8 → Prop)
    (advance : ∀ (p : Parser) b, p.state = state → Text b →
      p.advance b = .ok (p.pushStringByte b cap, []))
    {text body : Bytes} (body_text : ∀ b ∈ body, Text b) (in_string : p.state = state)
    (h : Holds text cap p) :
    ∃ q, feed body p = .ok (q, []) ∧ q.state = state ∧ Holds (text ++ body) cap q := by
  induction body generalizing p text with
  | nil => exact ⟨p, rfl, in_string, by simpa using h⟩
  | cons b body ih =>
    have step := advance p b in_string (body_text b List.mem_cons_self)
    have still : (p.pushStringByte b cap).state = state := by
      unfold pushStringByte
      split <;> exact in_string
    obtain ⟨q, rest, state_q, holds⟩ := ih (fun b mem => body_text b (List.mem_cons_of_mem _ mem))
      still (h.push b)
    rw [List.append_assoc] at holds
    exact ⟨q, feed_step step rest, state_q, holds⟩

/-- The action of a finished string, none if it did not fit. -/
def stringAction (text : Bytes) (cap : Nat) (action : Bytes → Action) : List Action :=
  if text.length ≤ cap then [action text] else []

theorem Holds.finish {text : Bytes} {cap : Nat} (h : Holds text cap p) (action : Bytes → Action) :
    p.finishString action =
      ({ p with stringBuf := [], stringOverflow := false }, stringAction text cap action) := by
  unfold finishString stringAction
  rw [h.overflow]
  by_cases fits : text.length ≤ cap
  · have room : ¬ cap < text.length := by omega
    simp [room, fits, h.buffer fits]
  · have full : cap < text.length := by omega
    simp [full, fits]

theorem Holds.finishOsc {text : Bytes} (h : Holds text MAX_OSC p) (bel : Bool) :
    Parser.finishOsc bel p =
      ({ p with stringBuf := [], stringOverflow := false, state := .ground },
        stringAction text MAX_OSC (.osc · bel)) := by
  unfold Parser.finishOsc
  rw [h.finish]

/-- The text of an OSC string has no C0 controls. -/
theorem advance_oscString {b : UInt8} (state : p.state = .oscString) (text : 0x20 ≤ b.toNat) :
    p.advance b = .ok (p.pushStringByte b MAX_OSC, []) := by
  unfold Parser.advance
  rw [state]
  change Except.ok (oscString b p) = _
  unfold oscString
  rw [if_neg (by omega), if_neg (by omega), if_neg (by omega), if_neg (by omega)]

theorem feed_osc {body : Bytes} (text : ∀ b ∈ body, 0x20 ≤ b.toNat) (escaped : Escaped p) :
    ∃ q, feed (0x5D :: body) p = .ok (q, []) ∧ q.state = .oscString ∧ Holds body MAX_OSC q := by
  have first : p.advance 0x5D = .ok (p.startString .oscString, []) := by
    rw [escaped.advance]
    rfl
  obtain ⟨q, rest, state, holds⟩ := feed_string .oscString MAX_OSC
    (fun b => 0x20 ≤ b.toNat) (fun p b => advance_oscString) text
    (p := p.startString .oscString) rfl (holds_start escaped.whole .oscString MAX_OSC)
  exact ⟨q, feed_step first rest, state, holds⟩

/-- An OSC string that BEL ends. -/
theorem continues_osc {body : Bytes} (text : ∀ b ∈ body, 0x20 ≤ b.toNat) :
    Continues (0x5D :: (body ++ [0x07])) (stringAction body MAX_OSC (.osc · true)) := by
  intro p escaped
  obtain ⟨q, opened, state, holds⟩ := feed_osc text escaped
  have last : q.advance 0x07 = .ok ({ q with
      stringBuf := [], stringOverflow := false, state := .ground }, stringAction body MAX_OSC (.osc · true)) := by
    unfold Parser.advance
    rw [state, ← holds.finishOsc true]
    rfl
  refine ⟨{ q with stringBuf := [], stringOverflow := false, state := .ground },
    ⟨rfl, holds.whole⟩, ?_⟩
  exact feed_append opened (feed_one last)

/-- The second byte of ST. -/
theorem feed_backslash (escaped : Escaped p) :
    feed [0x5C] p = .ok ({ p with state := .ground }, [.esc [] 0x5C]) := by
  have step : p.advance 0x5C = .ok ({ p with state := .ground }, [.esc [] 0x5C]) := by
    rw [escaped.advance]
    rfl
  exact feed_step step rfl

/-- An OSC string that ST ends. -/
theorem continues_osc_st {body : Bytes} (text : ∀ b ∈ body, 0x20 ≤ b.toNat) :
    Continues (0x5D :: (body ++ [0x1B, 0x5C]))
      (stringAction body MAX_OSC (.osc · false) ++ [.esc [] 0x5C]) := by
  intro p escaped
  obtain ⟨q, opened, state, holds⟩ := feed_osc text escaped
  have last : q.advance 0x1B = .ok ({ q with
      stringBuf := [], stringOverflow := false, state := .escape }, stringAction body MAX_OSC (.osc · false)) := by
    have step : q.advance 0x1B = .ok ({ (finishOsc false q).1 with state := .escape },
        (finishOsc false q).2) := by
      unfold Parser.advance
      rw [state]
      rfl
    rw [step, holds.finishOsc false]
  have ended := feed_backslash (p := { q with
    stringBuf := [], stringOverflow := false, state := .escape }) ⟨rfl, holds.whole⟩
  exact ⟨{ q with stringBuf := [], stringOverflow := false, state := .ground },
    ⟨rfl, holds.whole⟩, feed_append opened (feed_step last ended)⟩

/-- The text of an APC string has no ESC, CAN or SUB. -/
theorem advance_apcString {b : UInt8} (state : p.state = .apcString) (text : 0x20 ≤ b.toNat) :
    p.advance b = .ok (p.pushStringByte b MAX_APC, []) := by
  unfold Parser.advance
  rw [state]
  change Except.ok (apcString b p) = _
  unfold apcString
  rw [if_neg (by omega), if_neg (by omega)]

/-- An APC string, which ST ends. -/
theorem continues_apc {body : Bytes} (text : ∀ b ∈ body, 0x20 ≤ b.toNat) :
    Continues (0x5F :: (body ++ [0x1B, 0x5C]))
      (stringAction body MAX_APC .apc ++ [.esc [] 0x5C]) := by
  intro p escaped
  have first : p.advance 0x5F = .ok (p.startString .apcString, []) := by
    rw [escaped.advance]
    rfl
  obtain ⟨q, rest, state, holds⟩ := feed_string .apcString MAX_APC
    (fun b => 0x20 ≤ b.toNat) (fun p b => advance_apcString) text
    (p := p.startString .apcString) rfl (holds_start escaped.whole .apcString MAX_APC)
  have last : q.advance 0x1B = .ok ({ q with
      stringBuf := [], stringOverflow := false, state := .escape }, stringAction body MAX_APC .apc) := by
    have step : q.advance 0x1B = .ok ({ (q.finishString .apc).1 with state := .escape },
        (q.finishString .apc).2) := by
      unfold Parser.advance
      rw [state]
      rfl
    rw [step, holds.finish]
    rfl
  have ended := feed_backslash (p := { q with
    stringBuf := [], stringOverflow := false, state := .escape }) ⟨rfl, holds.whole⟩
  exact ⟨{ q with stringBuf := [], stringOverflow := false, state := .ground },
    ⟨rfl, holds.whole⟩, feed_append (feed_step first rest) (feed_step last ended)⟩

end Parser

end Posh.Term
