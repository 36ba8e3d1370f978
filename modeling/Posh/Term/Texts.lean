import Posh.Term.Reactions

/-!
Where control characters cannot get into texts.

A character the parser prints is no control character, nor is a byte of a string it
collects for OSC; lossy decoding makes none of its own.
-/

namespace Posh.Term

open Posh.Lib

/-! ### Graphic characters -/

/-- Not a control character. -/
def Graphic (c : Char) : Prop :=
  0x20 ≤ c.toNat

instance : DecidablePred Graphic :=
  fun c => inferInstanceAs (Decidable (0x20 ≤ c.toNat))

/-- What a text is checked for, each character of it has. -/
theorem forall_of_all {P : Char → Prop} [DecidablePred P] {s : List Char}
    (checked : s.all (fun c => decide (P c)) = true) : ∀ c ∈ s, P c :=
  fun c mem => of_decide_eq_true (List.all_eq_true.mp checked c mem)

/-! ### Characters of strings -/

theorem mem_of_splitOnce {sep c : Char} {s other : List Char}
    (mem : c ∈ ((splitOnce sep s).getD (other, s)).2) : c ∈ s := by
  unfold splitOnce at mem
  split at mem
  · exact mem
  · rename_i rest eq
    have inside : c ∈ s.dropWhile (· ≠ sep) := by
      rw [eq]
      exact List.mem_cons_of_mem _ mem
    exact (List.dropWhile_sublist _).subset inside

theorem mem_of_splitOnce_fst {sep c : Char} {s : List Char}
    (mem : c ∈ ((splitOnce sep s).getD ([], s)).1) : c ∈ s := by
  unfold splitOnce at mem
  split at mem
  · exact absurd mem List.not_mem_nil
  · exact (List.takeWhile_sublist _).subset mem

theorem mem_of_stripPrefix {p s rest : List Char} {c : Char} (h : stripPrefix p s = some rest)
    (mem : c ∈ rest) : c ∈ s := by
  unfold stripPrefix at h
  split at h
  · cases h
    exact List.mem_of_mem_drop mem
  · cases h

theorem mem_of_mem_splitOn {sep c : Char} {s part : List Char} (inside : part ∈ s.splitOn sep)
    (mem : c ∈ part) : c ∈ s := by
  rw [← @List.intercalate_splitOn _ s _ _ sep, List.intercalate]
  refine List.mem_flatten.mpr ⟨part, ?_, mem⟩
  generalize s.splitOn sep = parts at inside
  induction parts with
  | nil => exact absurd inside List.not_mem_nil
  | cons first rest ih =>
    cases rest with
    | nil => simpa using inside
    | cons second rest =>
      rcases List.mem_cons.mp inside with rfl | inside
      · simp [List.intersperse]
      · have := ih inside
        simp only [List.intersperse] at this ⊢
        exact List.mem_cons_of_mem _ (List.mem_cons_of_mem _ this)

theorem toNat_ofNat {n : Nat} (valid : n.isValidChar) : (Char.ofNat n).toNat = n := by
  unfold Char.ofNat
  rw [dif_pos valid]
  rfl

/-- Only small numbers make control characters. -/
theorem graphic_ofNat {n : Nat} (large : 0x20 ≤ n) (small : n < 0xD800) : Graphic (Char.ofNat n) := by
  unfold Graphic
  rw [toNat_ofNat (.inl small)]
  exact large

theorem graphic_ofNat_astral {n : Nat} (large : 0xDFFF < n) (small : n < 0x110000) :
    Graphic (Char.ofNat n) := by
  unfold Graphic
  rw [toNat_ofNat (.inr ⟨large, small⟩)]
  omega

/-- Decoding makes no control characters. -/
theorem graphic_utf8Chunk {b : UInt8} {rest : Bytes} (first : 0x20 ≤ b.toNat) {c : Char}
    (h : (utf8Chunk b rest).1 = some c) : Graphic c := by
  unfold utf8Chunk at h
  split at h
  · obtain rfl := Option.some.inj h
    exact graphic_ofNat first (by omega)
  split at h
  · rename_i lead
    split at h
    · rename_i b1 rest'
      split at h
      · rename_i cont
        obtain rfl := Option.some.inj h
        simp only [isContinuation, Bool.and_eq_true, decide_eq_true_eq] at cont
        exact graphic_ofNat (by unfold codePoint2; omega) (by unfold codePoint2; omega)
      · cases h
    · cases h
  split at h
  · split at h
    · split at h
      · rename_i second
        split at h
        · split at h
          · rename_i cont
            obtain rfl := Option.some.inj h
            simp only [isContinuation, Bool.and_eq_true, decide_eq_true_eq] at cont
            simp only [secondOfThree, Bool.or_eq_true, Bool.and_eq_true, decide_eq_true_eq,
              beq_iff_eq] at second
            rename_i b1 _ b2 _
            have range : 0x800 ≤ codePoint3 b b1 b2 ∧ codePoint3 b b1 b2 < 0xD800 ∨
                0xDFFF < codePoint3 b b1 b2 ∧ codePoint3 b b1 b2 < 0x110000 := by
              unfold codePoint3
              omega
            rcases range with range | range
            · exact graphic_ofNat (by omega) range.2
            · exact graphic_ofNat_astral range.1 range.2
          · cases h
        · cases h
      · cases h
    · cases h
  split at h
  · split at h
    · split at h
      · rename_i second
        split at h
        · split at h
          · rename_i cont₁
            split at h
            · split at h
              · rename_i cont₂
                obtain rfl := Option.some.inj h
                simp only [isContinuation, Bool.and_eq_true, decide_eq_true_eq] at cont₁ cont₂
                simp only [secondOfFour, Bool.or_eq_true, Bool.and_eq_true, decide_eq_true_eq,
                  beq_iff_eq] at second
                exact graphic_ofNat_astral (by unfold codePoint4; omega)
                  (by unfold codePoint4; omega)
              · cases h
            · cases h
          · cases h
        · cases h
      · cases h
    · cases h
  · cases h

/-- What follows the first character is a part of the bytes. -/
theorem utf8Chunk_suffix (b : UInt8) (rest : Bytes) : (utf8Chunk b rest).2 <:+ rest := by
  unfold utf8Chunk
  split
  · exact List.suffix_rfl
  split
  · split
    · split
      · exact List.suffix_cons _ _
      · exact List.suffix_rfl
    · exact List.suffix_rfl
  split
  · split
    · split
      · split
        · split
          · exact (List.suffix_cons _ _).trans (List.suffix_cons _ _)
          · exact List.suffix_cons _ _
        · exact List.nil_suffix
      · exact List.suffix_rfl
    · exact List.suffix_rfl
  split
  · split
    · split
      · split
        · split
          · split
            · split
              · exact ((List.suffix_cons _ _).trans (List.suffix_cons _ _)).trans
                  (List.suffix_cons _ _)
              · exact (List.suffix_cons _ _).trans (List.suffix_cons _ _)
            · exact List.nil_suffix
          · exact List.suffix_cons _ _
        · exact List.nil_suffix
      · exact List.suffix_rfl
    · exact List.suffix_rfl
  · exact List.suffix_rfl

theorem graphic_utf8Chunks {bytes : Bytes} (graphic : ∀ b ∈ bytes, 0x20 ≤ b.toNat) (fuel : Nat) :
    ∀ c, some c ∈ utf8Chunks fuel bytes → Graphic c := by
  induction fuel generalizing bytes with
  | zero => exact fun c mem => absurd mem List.not_mem_nil
  | succ fuel ih =>
    cases bytes with
    | nil => exact fun c mem => absurd mem List.not_mem_nil
    | cons b rest =>
      intro c mem
      rw [utf8Chunks] at mem
      rcases List.mem_cons.mp mem with first | later
      · exact graphic_utf8Chunk (graphic b List.mem_cons_self) first.symm
      · refine ih ?_ c later
        intro b' inside
        exact graphic b' (List.mem_cons_of_mem _ ((utf8Chunk_suffix b rest).subset inside))

theorem graphic_fromUtf8Lossy {bytes : Bytes} (graphic : ∀ b ∈ bytes, 0x20 ≤ b.toNat) :
    ∀ c ∈ fromUtf8Lossy bytes, Graphic c := by
  intro c mem
  obtain ⟨chunk, inside, rfl⟩ := List.mem_map.mp mem
  cases chunk with
  | none => exact show 0x20 ≤ (Char.ofNat 0xFFFD).toNat by decide
  | some c => exact graphic_utf8Chunks graphic _ c inside

theorem graphic_fromUtf8 {b : UInt8} {bytes : Bytes} (first : 0x20 ≤ b.toNat) {s : List Char}
    {c : Char} (decoded : fromUtf8 (b :: bytes) = some s) (head : s.head? = some c) : Graphic c := by
  unfold fromUtf8 at decoded
  rw [List.length_cons, utf8Chunks, List.mapM_cons] at decoded
  cases chunk : (utf8Chunk b bytes).1 with
  | none =>
    rw [chunk] at decoded
    cases decoded
  | some c' =>
    rw [chunk] at decoded
    have same : c' = c := by
      cases later : (utf8Chunks bytes.length (utf8Chunk b bytes).2).mapM id with
      | none =>
        rw [later] at decoded
        cases decoded
      | some s' =>
        rw [later] at decoded
        cases decoded
        exact Option.some.inj head
    exact same ▸ graphic_utf8Chunk first chunk

/-- What the parser makes of a stream: no control characters in texts. -/
def Action.Graphic : Action → Prop
  | .print c => Term.Graphic c
  | .osc data _ => ∀ b ∈ data, 0x20 ≤ b.toNat
  | _ => True

namespace Parser

/-- The bytes held are no control characters, where they become text. -/
structure Graphic (p : Parser) : Prop where
  utf8 : ∀ b ∈ p.utf8, 0x20 ≤ b.toNat
  osc : p.state = .oscString → ∀ b ∈ p.stringBuf, 0x20 ≤ b.toNat

/-- What a byte leaves. -/
def GraphicOut (out : Parser × List Action) : Prop :=
  out.1.Graphic ∧ ∀ a ∈ out.2, a.Graphic

variable {p q : Parser} {b : UInt8}

theorem graphic_new : Graphic {} :=
  ⟨fun _ mem => absurd mem List.not_mem_nil, nofun⟩

/-- Outside OSC only the character begun matters. -/
theorem Graphic.outside (g : p.Graphic) (utf8 : q.utf8 = p.utf8) (state : q.state ≠ .oscString) :
    q.Graphic :=
  ⟨utf8 ▸ g.utf8, fun osc => absurd osc state⟩

theorem Graphic.startString (g : p.Graphic) (state : State) : (p.startString state).Graphic :=
  ⟨g.utf8, fun _ _ mem => absurd mem List.not_mem_nil⟩

theorem GraphicOut.nil (g : p.Graphic) : GraphicOut (p, []) :=
  ⟨g, fun _ mem => absurd mem List.not_mem_nil⟩

theorem GraphicOut.single {a : Action} (g : p.Graphic) (graphic : a.Graphic) :
    GraphicOut (p, [a]) := by
  refine ⟨g, ?_⟩
  intro a' mem
  rw [List.mem_singleton.mp mem]
  exact graphic

/-- Goes on outside OSC with the same character begun. -/
theorem GraphicOut.quiet (g : p.Graphic) (utf8 : q.utf8 = p.utf8) (state : q.state ≠ .oscString) :
    GraphicOut (q, []) :=
  .nil (g.outside utf8 state)

theorem GraphicOut.acts {a : Action} (g : p.Graphic) (graphic : a.Graphic) (utf8 : q.utf8 = p.utf8)
    (state : q.state ≠ .oscString) : GraphicOut (q, [a]) :=
  .single (g.outside utf8 state) graphic

theorem graphic_replacement : Action.Graphic (.print REPLACEMENT) :=
  show 0x20 ≤ REPLACEMENT.toNat by decide

theorem Plain.graphic {actions : List Action} (plain : Plain b actions) :
    ∀ a ∈ actions, a.Graphic := by
  intro a mem
  rcases plain a mem with rfl | rfl | ⟨low, high, rfl⟩
  · trivial
  · exact graphic_replacement
  · exact graphic_ofNat low (by omega)

theorem outside_osc {state : State} (outside : state.cap = none) : state ≠ .oscString := by
  rintro rfl
  cases outside

/-- A finished string, and a state outside OSC after it. -/
theorem GraphicOut.finish (g : p.Graphic) (action : Bytes → Action) {next : State}
    (outside : next ≠ .oscString) (graphic : (action p.stringBuf).Graphic) :
    GraphicOut ({ (p.finishString action).1 with state := next }, (p.finishString action).2) := by
  unfold finishString
  split
  · exact .quiet g rfl outside
  · exact .acts g graphic rfl outside

theorem GraphicOut.unhook (g : p.Graphic) {next : State} (outside : next ≠ .oscString) :
    GraphicOut ({ p.dcsUnhook.1 with state := next }, p.dcsUnhook.2) := by
  unfold dcsUnhook
  split
  · exact .quiet g rfl outside
  · exact .acts g trivial rfl outside

/-- A byte more of a string, no control where the string is for OSC. -/
theorem Graphic.pushStringByte (g : p.Graphic) (kept : p.state.kept b = [b]) (cap : Nat) :
    (p.pushStringByte b cap).Graphic := by
  have text (osc : p.state = .oscString) : 0x20 ≤ b.toNat := by
    rw [osc] at kept
    change (if b.toNat ≤ 0x1F then [] else [b]) = [b] at kept
    split at kept
    · cases kept
    · omega
  unfold Parser.pushStringByte
  split
  · refine ⟨g.utf8, fun osc b' mem => ?_⟩
    rcases List.mem_append.mp mem with old | new
    · exact g.osc osc b' old
    · rw [List.mem_singleton.mp new]
      exact text osc
  · exact ⟨g.utf8, g.osc⟩

theorem Reacts.graphic {out : Parser × List Action} (g : p.Graphic) (reacts : Reacts b p out) :
    GraphicOut out := by
  cases reacts with
  | turns turn plain =>
    refine ⟨?_, plain.graphic⟩
    rcases turn with ⟨rfl, -⟩ | rests
    · exact ⟨g.utf8, g.osc⟩
    · exact g.outside rfl (outside_osc rests.outside)
  | begins ground lead few =>
    refine .nil ⟨fun b' mem => ?_, fun osc => absurd (ground.symm.trans osc) nofun⟩
    rw [List.mem_singleton.mp mem]
    omega
  | opens outside entry =>
    rcases entry with ⟨rfl, -⟩ | rfl
    · exact .quiet g rfl nofun
    · exact .quiet g rfl nofun
  | starts outside string => exact .nil (g.startString _)
  | marks | hooks | aborts => exact .quiet g rfl nofun
  | intermediate deeper =>
    rw [pushIntermediate_eq]
    exact .quiet g rfl (outside_osc deeper.outside)
  | first entry deeper | digit deeper small => exact .quiet g rfl (outside_osc deeper.outside)
  | colon deeper | semicolon deeper | marker deeper =>
    exact .quiet g rfl (outside_osc deeper.outside)
  | escapes | escapesWith | dispatches => exact .acts g trivial rfl nofun
  | ends => exact .quiet g rfl nofun
  | hears kind kept => exact .nil (g.pushStringByte kept _)
  | finishes rests kind =>
    rcases kind with ⟨state, bel, rfl⟩ | ⟨-, rfl⟩
    · exact .finish g (.osc · bel) (outside_osc rests.outside) (g.osc state)
    · exact .finish g .apc (outside_osc rests.outside) trivial
  | unhooks rests hooked => exact .unhook g (outside_osc rests.outside)

/-- The bytes of the character begun, with a continuation byte more. -/
theorem Graphic.continued (g : p.Graphic) (byte : isContinuation b) :
    ∀ b' ∈ p.utf8 ++ [b], 0x20 ≤ b'.toNat := by
  intro b' mem
  rcases List.mem_append.mp mem with old | new
  · exact g.utf8 b' old
  · rw [List.mem_singleton.mp new]
    simp only [isContinuation, Bool.and_eq_true, decide_eq_true_eq] at byte
    omega

theorem Graphic.reset (g : p.Graphic) : p.utf8Reset.Graphic :=
  ⟨fun _ mem => absurd mem List.not_mem_nil, g.osc⟩

/-- The texts of the actions a byte completes hold no control character. -/
theorem advance_graphic (g : p.Graphic) (b : UInt8) : Guarded False (p.advance b) GraphicOut := by
  refine ((advance_advances b p).weaken False.elim).mono fun out advances => ?_
  cases advances with
  | reacts idle reacts => exact reacts.graphic g
  | continues ground pending byte =>
    exact .nil ⟨g.continued byte, fun osc => absurd (ground.symm.trans osc) nofun⟩
  | completes ground byte decoded =>
    refine .single g.reset ?_
    rcases decoded with rfl | ⟨s, decoded, head⟩
    · exact graphic_replacement
    · have whole := g.continued byte
      cases held : p.utf8 ++ [b] with
      | nil => exact absurd held (List.concat_ne_nil b p.utf8)
      | cons first rest =>
        rw [held] at decoded whole
        exact graphic_fromUtf8 (whole first List.mem_cons_self) decoded head
  | malformed ground reacts =>
    obtain ⟨graphic, actions⟩ := reacts.graphic g.reset
    refine ⟨graphic, ?_⟩
    intro a mem
    rcases List.mem_cons.mp mem with rfl | later
    · exact graphic_replacement
    · exact actions a later

end Parser

end Posh.Term
