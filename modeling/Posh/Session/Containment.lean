import Posh.Session.Substitutes

/-!
What reaches the outer terminal.

A parser that reads the broadcast alone never comes to a screen switch, and a stream
without switches is broadcast as it is. The parser that has read the broadcast and then
what is held sees what the session's parser sees; the substitutes begin with ESC, which
ends whatever the parser is in.
-/

namespace Posh.Session

open Posh.Lib Posh.Term Posh.Term.Parser

/-! ### The effect of a substitute -/

/-- What takes the place of a switch of this kind does to the modes. -/
inductive Brought : ScreenSwitch → Bytes → (Registers → Registers) → Prop where
  | reset {seq : Bytes} : Brought .reset seq afterRisSubstitute
  | stripped {seq : Bytes} {parts : List Bytes} {finalByte : UInt8} (plain : Plain seq parts finalByte)
      (some_ : remaining parts ≠ []) :
      Brought .alt seq
        (·.afterDecs (paramsOf ([0x3B].intercalate (remaining parts))) (finalByte == 0x68))
  | nothing {seq : Bytes} (none : stripAltScreenParams seq = none) : Brought .alt seq id

theorem substitute_modes (kind : ScreenSwitch) (seq : Bytes) {repaint : Bytes}
    {g : Registers → Registers} (h : Substitute repaint g) :
    ∃ f, Brought kind seq f ∧ Substitute (modesOf kind seq ++ repaint) (g ∘ f) := by
  cases kind with
  | reset => exact ⟨_, .reset, substitute_reset.append h⟩
  | alt =>
    cases stripped : stripAltScreenParams seq with
    | none =>
      refine ⟨id, .nothing stripped, ?_⟩
      unfold modesOf
      rw [stripped]
      exact h
    | some rest =>
      obtain ⟨parts, finalByte, plain, some_, rfl⟩ := plain_of_strip stripped
      refine ⟨_, .stripped plain some_, ?_⟩
      unfold modesOf
      rw [stripped]
      exact (substitute_stripped plain.digits plain.finalByte some_).append h

namespace Broadcast

variable {s s' : Broadcast} {q₀ : Parser} {kept : List Action}

/-! ### One step -/

/-- A parser that has read the broadcast; `kept` is what it reads in what is held. -/
structure InStep (q₀ : Parser) (s : Broadcast) (kept : List Action) : Prop where
  settled : q₀.Settled
  session : s.term.parser.Settled
  held : ∃ q₁, Parser.feed s.filter.held q₀ = .ok (q₁, kept) ∧ q₁.view = s.term.parser.view
  keeps : NoSequence kept
  clean : s.term.Clean
  unmarked : s.term.screenSwitch = none

/-- Bytes without a switch pass, now or later. -/
structure Passes (q₀ : Parser) (s : Broadcast) (kept : List Action) (bytes : Bytes) (s' : Broadcast)
    (actions : List Action) : Prop where
  stays : ∀ a ∈ actions, ¬ a.Switches
  sent : ∃ appended q before later, s'.out = s.out ++ appended ∧
    appended ++ s'.filter.held = s.filter.held ++ bytes ∧
    Parser.feed appended q₀ = .ok (q, before) ∧ InStep q s' later ∧
    before ++ later = kept ++ actions

/-- A switch is replaced. -/
structure Replaces (q₀ : Parser) (s : Broadcast) (b : UInt8) (s' : Broadcast) (a : Action) :
    Prop where
  switches : a.Switches
  empty : s'.filter.held = []
  sent : ∃ appended q early actions f, s'.out = s.out ++ appended ∧
    Parser.feed appended q₀ = .ok (q, early ++ actions) ∧ NoSequence early ∧ InStep q s' [] ∧
    (∀ a ∈ actions, ¬ a.Switches) ∧
    Brought (Registers.switchOf a) (s.filter.held ++ [b]) f ∧
    ∀ r : Registers, r.afterAll actions = (f r).withDrawing s'.term.modes.insert
      s'.term.modes.autowrap s'.term.modes.cursorVisible

/-- The session's parser reads `bytes`, and the registers follow. -/
structure Reading (s : Broadcast) (bytes : Bytes) (s' : Broadcast) (actions : List Action) : Prop where
  fed : Parser.feed bytes s.term.parser = .ok (s'.term.parser, actions)
  registers : s'.term.registers =
    { s.term.registers.afterAll actions with parser := s'.term.parser, screenSwitch := none }

/-- A sequence is no switch when nothing is dispatched. -/
theorem not_switches_of_noSequence {actions : List Action} (none : NoSequence actions) :
    ∀ a ∈ actions, ¬ a.Switches :=
  fun a mem switches => none a mem switches.isSequence

theorem noSequence_append {a b : List Action} (ha : NoSequence a) (hb : NoSequence b) :
    NoSequence (a ++ b) := by
  intro x mem
  rcases List.mem_append.mp mem with early | late
  · exact ha x early
  · exact hb x late

/-- What one byte completes is what the parser's step completes. -/
theorem step_of_feed {b : UInt8} {p p' : Parser} {actions : List Action}
    (fed : Parser.feed [b] p = .ok (p', actions)) : p.advance b = .ok (p', actions) := by
  obtain ⟨q, first, rest, step, rest_fed, rfl⟩ := feed_cons_eq fed
  cases rest_fed
  rw [List.append_nil]
  exact step

/-- The session's side of one byte. -/
structure Stepped (s : Broadcast) (b : UInt8) (t : Terminal) (actions : List Action) : Prop where
  read : Parser.feed [b] s.term.parser = .ok (t.parser, actions)
  registers : t.registers = { s.term.registers.afterAll actions with parser := t.parser }
  clean : t.Clean

theorem stepped (files : Files) {b : UInt8} {t : Terminal} (h : InStep q₀ s kept)
    (processed : s.term.process files [b] = .ok t) : ∃ actions, Stepped s b t actions := by
  obtain ⟨p, actions, read, registers, clean⟩ := Terminal.process_reads files h.clean processed
  have same : t.parser = p := congrArg Registers.parser registers
  subst same
  exact ⟨actions, read, registers, clean⟩

section

variable {b : UInt8} {t : Terminal} {actions : List Action}

/-- The mark aside, nothing is changed by taking it. -/
theorem Stepped.taken (st : Stepped s b t actions) : { t with screenSwitch := none }.Clean :=
  ⟨st.clean.graphic, st.clean.parser⟩

theorem Stepped.outcome (st : Stepped s b t actions) (h : InStep q₀ s kept) :
    s.term.parser.Outcome b (t.parser, actions) :=
  (advance_outcome h.session b).of_eq_ok (step_of_feed st.read)

/-- The outer side, had the byte been forwarded with what is held. -/
theorem Stepped.whole (st : Stepped s b t actions) (h : InStep q₀ s kept) :
    ∃ q, Parser.feed (s.filter.held ++ [b]) q₀ = .ok (q, kept ++ actions) ∧
      q.view = t.parser.view := by
  obtain ⟨q₁, held, same⟩ := h.held
  obtain ⟨q₂, follows, same'⟩ := feed_of_view same.symm st.read
  exact ⟨q₂, feed_append held follows, same'.symm⟩

theorem Stepped.mark (st : Stepped s b t actions) :
    t.screenSwitch = (s.term.registers.afterAll actions).screenSwitch :=
  congrArg Registers.screenSwitch st.registers

theorem Stepped.reading (st : Stepped s b t actions) (filter : ScreenSwitchFilter) (out : Bytes) :
    Reading s [b] { filter, term := { t with screenSwitch := none }, out } actions := by
  refine ⟨st.read, ?_⟩
  change { t.registers with screenSwitch := none } = _
  rw [st.registers]

/-- What is held is forwarded, the byte with it. -/
theorem Stepped.flushed (st : Stepped s b t actions) (h : InStep q₀ s kept)
    (unmarked : t.screenSwitch = none) :
    Passes q₀ s kept [b]
      ⟨⟨[]⟩, { t with screenSwitch := none }, s.out ++ (s.filter.held ++ [b])⟩ actions := by
  obtain ⟨q, whole, same⟩ := st.whole h
  refine ⟨Registers.no_switches (st.mark.symm.trans unmarked), s.filter.held ++ [b], q,
    kept ++ actions, [], rfl, List.append_nil _, whole, ?_, List.append_nil _⟩
  exact ⟨feed_settled h.settled whole, (st.outcome h).settled, ⟨q, rfl, same⟩, noSequence_nil,
    st.taken, rfl⟩

/-- The byte is held too. -/
theorem Stepped.keeps (st : Stepped s b t actions) (h : InStep q₀ s kept)
    (unmarked : t.screenSwitch = none) (mid : t.parser.midEscape = true) :
    Passes q₀ s kept [b] ⟨⟨s.filter.held ++ [b]⟩, { t with screenSwitch := none }, s.out⟩
      actions := by
  obtain ⟨q, whole, same⟩ := st.whole h
  have outcome := st.outcome h
  have none : NoSequence actions := by
    rcases outcome.sequence with none | ⟨-, ready, -⟩
    · exact none
    · exact absurd (mid.symm.trans ready.midEscape) nofun
  refine ⟨Registers.no_switches (st.mark.symm.trans unmarked), [], q₀, [], kept ++ actions,
    (List.append_nil _).symm, rfl, rfl, ?_, rfl⟩
  exact ⟨h.settled, outcome.settled, ⟨q, whole, same⟩, noSequence_append h.keeps none, st.taken,
    rfl⟩

/-- The sequence the byte completes is a switch. -/
theorem Stepped.replaced (st : Stepped s b t actions) (h : InStep q₀ s kept) {kind : ScreenSwitch}
    (marked : t.screenSwitch = some kind) {repaint : Bytes}
    (dumped : { t with screenSwitch := none }.dumpScreenSwitch = .ok repaint) :
    ∃ a, actions = [a] ∧ Replaces q₀ s b ⟨⟨[]⟩, { t with screenSwitch := none },
      s.out ++ modesOf kind (s.filter.held ++ [b]) ++ repaint⟩ a := by
  have outcome := st.outcome h
  have ends : Ready t.parser ∧ ∃ a, actions = [a] := by
    rcases outcome.sequence with none | ⟨-, ready, single⟩
    · have still := Registers.afterAll_screenSwitch (not_switches_of_noSequence none)
        s.term.registers
      rw [st.mark, still] at marked
      exact absurd (h.unmarked.symm.trans marked) nofun
    · exact ⟨ready, single⟩
  obtain ⟨ready, a, rfl⟩ := ends
  have mark : (s.term.registers.after a).screenSwitch = some kind := st.mark.symm.trans marked
  have switches : a.Switches := by
    by_contra other
    rw [Registers.after_screenSwitch a other] at mark
    exact absurd (h.unmarked.symm.trans mark) nofun
  rw [Registers.after_switches a switches] at mark
  cases mark
  have painted := (substitute_repaint (t := { t with screenSwitch := none })
    st.clean.graphic).of_eq_ok dumped
  obtain ⟨f, brought, substitute⟩ := substitute_modes (Registers.switchOf a)
    (s.filter.held ++ [b]) painted
  obtain ⟨⟨rest, bytes⟩, sent, reads, none, does⟩ := substitute
  rw [bytes] at reads
  obtain ⟨early, q, quiet, ready_q, fed⟩ := reads.anywhere h.settled
  refine ⟨a, rfl, switches, rfl, _, q, early, sent, f, List.append_assoc .., ?_, quiet, ?_, none,
    brought, does⟩
  · rw [bytes]
    exact fed
  · exact ⟨ready_q.settled, ready.settled, ⟨q, rfl, ready_q.view.trans ready.view.symm⟩,
      noSequence_nil, st.taken, rfl⟩

end

/-- One byte either passes or completes a switch, which is replaced. -/
theorem feedByte_steps {files : Files} {b : UInt8} (h : InStep q₀ s kept)
    (fed : s.feedByte files b = .ok s') :
    ∃ actions, Reading s [b] s' actions ∧
      (Passes q₀ s kept [b] s' actions ∨ ∃ a, actions = [a] ∧ Replaces q₀ s b s' a) := by
  obtain ⟨t, processed, fed⟩ := eq_ok_of_bind fed
  obtain ⟨actions, st⟩ := stepped files h processed
  refine ⟨actions, ?_⟩
  unfold Terminal.takeScreenSwitch at fed
  dsimp only at fed
  cases mark : t.screenSwitch with
  | some kind =>
    rw [mark] at fed
    obtain ⟨repaint, dumped, fed⟩ := eq_ok_of_bind fed
    cases fed
    exact ⟨st.reading _ _, .inr (st.replaced h mark dumped)⟩
  | none =>
    rw [mark] at fed
    dsimp only at fed
    split at fed
    · cases fed
      exact ⟨st.reading _ _, .inl (st.flushed h mark)⟩
    split at fed
    · cases fed
      exact ⟨st.reading _ _, .inl (st.flushed h mark)⟩
    · rename_i mid _
      cases fed
      exact ⟨st.reading _ _, .inl (st.keeps h mark (by simpa [Terminal.midEscape] using mid))⟩

/-- Without a byte that begins a sequence, a chunk passes as it is. -/
theorem fast_passes {files : Files} {chunk : Bytes} {t : Terminal} (h : InStep q₀ s kept)
    (empty : s.filter.held = []) (mid : s.term.parser.midEscape = false)
    (plain : ∀ b ∈ chunk, b ≠ 0x1B ∧ b ≠ 0x9B) (processed : s.term.process files chunk = .ok t) :
    ∃ actions, Reading s chunk { s with term := t, out := s.out ++ chunk } actions ∧
      Passes q₀ s kept chunk { s with term := t, out := s.out ++ chunk } actions := by
  obtain ⟨p, actions, read, registers, clean⟩ := Terminal.process_reads files h.clean processed
  have same : t.parser = p := congrArg Registers.parser registers
  subst same
  have numbers : ∀ b ∈ chunk, b.toNat ≠ 0x1B ∧ b.toNat ≠ 0x9B := by
    intro b mem
    obtain ⟨esc, csi⟩ := plain b mem
    exact ⟨fun eq => esc (UInt8.toNat_inj.mp eq), fun eq => csi (UInt8.toNat_inj.mp eq)⟩
  obtain ⟨none, -⟩ := feed_outside h.session mid numbers read
  have stays := not_switches_of_noSequence none
  have unmarked : t.screenSwitch = Option.none := by
    have mark : t.screenSwitch = (s.term.registers.afterAll actions).screenSwitch :=
      congrArg Registers.screenSwitch registers
    rw [mark, Registers.afterAll_screenSwitch stays]
    exact h.unmarked
  obtain ⟨q₁, held, same⟩ := h.held
  rw [empty] at held
  cases held
  obtain ⟨q, follows, same'⟩ := feed_of_view same.symm read
  refine ⟨actions, ⟨read, ?_⟩, stays, chunk, q, actions, [], rfl, ?_, follows, ?_, ?_⟩
  · change t.registers = _
    have mark : (s.term.registers.afterAll actions).screenSwitch = Option.none :=
      (congrArg Registers.screenSwitch registers).symm.trans unmarked
    rw [registers, ← mark]
  · rw [empty, List.append_nil, List.nil_append]
  · exact ⟨feed_settled h.settled follows, feed_settled h.session read,
      ⟨q, by rw [empty]; rfl, same'.symm⟩, noSequence_nil, clean, unmarked⟩
  · rw [List.append_nil, List.nil_append]

/-- A chunk passes as it is, or is fed byte by byte. -/
theorem feed_cases {files : Files} {chunk : Bytes} (h : InStep q₀ s kept)
    (fed : s.feed files chunk = .ok s') :
    (∃ actions, Reading s chunk s' actions ∧ Passes q₀ s kept chunk s' actions) ∨
      forEach chunk s (fun b s => s.feedByte files b) = .ok s' := by
  unfold Broadcast.feed at fed
  split at fed
  · rename_i fast
    simp only [Bool.and_eq_true, List.isEmpty_iff, Bool.not_eq_true', List.any_eq_false,
      Bool.or_eq_true, beq_iff_eq, not_or] at fast
    obtain ⟨⟨empty, mid⟩, plain⟩ := fast
    obtain ⟨t, processed, fed⟩ := eq_ok_of_bind fed
    cases fed
    exact .inl (fast_passes h empty mid plain processed)
  · exact .inr fed

/-! ### Streams -/

/-- What has been broadcast of `input`. -/
structure Contained (input : Bytes) (s : Broadcast) : Prop where
  outer : ∃ q₀ sent kept, Parser.feed s.out {} = .ok (q₀, sent) ∧ (∀ a ∈ sent, ¬ a.Switches) ∧
    InStep q₀ s kept
  session : ∃ actions, Parser.feed input {} = .ok (s.term.parser, actions) ∧
    ((∀ a ∈ actions, ¬ a.Switches) → s.out ++ s.filter.held = input)

variable {input bytes : Bytes}

theorem no_switches_append {a b : List Action} :
    (∀ x ∈ a ++ b, ¬ x.Switches) ↔ (∀ x ∈ a, ¬ x.Switches) ∧ ∀ x ∈ b, ¬ x.Switches :=
  List.forall_mem_append

theorem Contained.passes {actions sent : List Action} {q₀ : Parser}
    (session : ∃ actions, Parser.feed input {} = .ok (s.term.parser, actions) ∧
      ((∀ a ∈ actions, ¬ a.Switches) → s.out ++ s.filter.held = input))
    (fed : Parser.feed s.out {} = .ok (q₀, sent)) (none : ∀ a ∈ sent, ¬ a.Switches)
    (h : InStep q₀ s kept) (reading : Reading s bytes s' actions)
    (passes : Passes q₀ s kept bytes s' actions) : Contained (input ++ bytes) s' := by
  obtain ⟨stays, appended, q, before, later, out, whole, fed', step, all⟩ := passes
  obtain ⟨seen, read, same⟩ := session
  refine ⟨⟨q, sent ++ before, later, ?_, ?_, step⟩, seen ++ actions, feed_append read reading.fed, ?_⟩
  · rw [out]
    exact feed_append fed fed'
  · have both : ∀ a ∈ before ++ later, ¬ a.Switches := by
      rw [all]
      exact no_switches_append.mpr ⟨not_switches_of_noSequence h.keeps, stays⟩
    exact no_switches_append.mpr ⟨none, (no_switches_append.mp both).1⟩
  · intro quiet
    rw [out, List.append_assoc, whole, ← List.append_assoc, same (no_switches_append.mp quiet).1]

theorem Contained.feedByte {files : Files} {b : UInt8} (h : Contained input s)
    (fed : s.feedByte files b = .ok s') : Contained (input ++ [b]) s' := by
  obtain ⟨⟨q₀, sent, kept, read, none, step⟩, session⟩ := h
  obtain ⟨actions, reading, passes | ⟨a, rfl, replaces⟩⟩ := feedByte_steps step fed
  · exact .passes session read none step reading passes
  · obtain ⟨switches, empty, appended, q, early, after, f, out, fed', quiet, step', none', -, -⟩ :=
      replaces
    obtain ⟨seen, read', -⟩ := session
    refine ⟨⟨q, sent ++ (early ++ after), [], ?_, ?_, step'⟩, seen ++ [a],
      feed_append read' reading.fed, ?_⟩
    · rw [out]
      exact feed_append read fed'
    · exact no_switches_append.mpr ⟨none,
        no_switches_append.mpr ⟨not_switches_of_noSequence quiet, none'⟩⟩
    · intro quiet
      exact absurd switches ((no_switches_append.mp quiet).2 a List.mem_cons_self)

theorem Contained.feedBytes {files : Files} {chunk : Bytes} (h : Contained input s)
    (fed : forEach chunk s (fun b s => s.feedByte files b) = .ok s') :
    Contained (input ++ chunk) s' := by
  induction chunk generalizing s input with
  | nil =>
    cases fed
    rwa [List.append_nil]
  | cons b rest ih =>
    obtain ⟨s₁, first, later⟩ := eq_ok_of_bind fed
    have all := ih (h.feedByte first) later
    rwa [List.append_assoc, List.singleton_append] at all

theorem Contained.feed {files : Files} {chunk : Bytes} (h : Contained input s)
    (fed : s.feed files chunk = .ok s') : Contained (input ++ chunk) s' := by
  obtain ⟨⟨q₀, sent, kept, read, none, step⟩, session⟩ := h
  rcases feed_cases step fed with ⟨actions, reading, passes⟩ | fed
  · exact .passes session read none step reading passes
  · exact Contained.feedBytes ⟨⟨q₀, sent, kept, read, none, step⟩, session⟩ fed

theorem Contained.feedAll {reads : List PtyRead} (h : Contained input s)
    (fed : s.feedAll reads = .ok s') : Contained (input ++ reads.flatMap (·.chunk)) s' := by
  induction reads generalizing s input with
  | nil =>
    cases fed
    rwa [List.flatMap_nil, List.append_nil]
  | cons r rest ih =>
    obtain ⟨s₁, first, later⟩ := eq_ok_of_bind fed
    have all := ih (h.feed first) later
    rwa [List.append_assoc] at all

/-- A session that has just begun. -/
theorem contained_new (rows cols : Nat) : Contained [] { term := .new rows cols } where
  outer := ⟨{}, [], [], rfl, fun _ mem => absurd mem List.not_mem_nil, settled_new, settled_new,
    ⟨{}, rfl, rfl⟩, noSequence_nil, Terminal.clean_new rows cols, rfl⟩
  session := ⟨[], rfl, fun _ => rfl⟩

/-- A parser that reads the broadcast never dispatches a screen switch; and a stream in
which the session dispatches none is the broadcast and what is held. -/
theorem switches_contained {rows cols : Nat} {reads : List PtyRead} {s : Broadcast}
    (fed : Broadcast.feedAll reads { term := .new rows cols } = .ok s) :
    (∃ q sent, Parser.feed s.out {} = .ok (q, sent) ∧ ∀ a ∈ sent, ¬ a.Switches) ∧
      ∃ q actions, Parser.feed (reads.flatMap (·.chunk)) {} = .ok (q, actions) ∧
        ((∀ a ∈ actions, ¬ a.Switches) → s.out ++ s.filter.held = reads.flatMap (·.chunk)) := by
  have contained := (contained_new rows cols).feedAll fed
  obtain ⟨q₀, sent, kept, read, none, -⟩ := contained.outer
  obtain ⟨actions, read', same⟩ := contained.session
  exact ⟨⟨q₀, sent, read, none⟩, _, actions, read', same⟩

/-- A switch split between two reads. -/
theorem switches_contained_split : ∃ s, Broadcast.feedAll
      [⟨fun _ => none, [0x78, 0x1B, 0x5B, 0x3F, 0x34]⟩, ⟨fun _ => none, [0x37, 0x68, 0x79]⟩]
      { term := .new 1 2 } = .ok s ∧
    (∃ q sent, Parser.feed s.out {} = .ok (q, sent) ∧ ∀ a ∈ sent, ¬ a.Switches) ∧
    ∃ q actions, Parser.feed [0x78, 0x1B, 0x5B, 0x3F, 0x34, 0x37, 0x68, 0x79] {} =
        .ok (q, actions) ∧
      ((∀ a ∈ actions, ¬ a.Switches) →
        s.out ++ s.filter.held = [0x78, 0x1B, 0x5B, 0x3F, 0x34, 0x37, 0x68, 0x79]) := by
  have runs : ∃ s, Broadcast.feedAll
      [⟨fun _ => none, [0x78, 0x1B, 0x5B, 0x3F, 0x34]⟩, ⟨fun _ => none, [0x37, 0x68, 0x79]⟩]
      { term := .new 1 2 } = .ok s := ⟨_, rfl⟩
  obtain ⟨s, fed⟩ := runs
  exact ⟨s, fed, switches_contained fed⟩

end Broadcast

end Posh.Session
