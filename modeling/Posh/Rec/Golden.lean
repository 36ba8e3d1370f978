import Posh.Lib.Lines
import Posh.Term.Runs
import Posh.Term.Writes

/-!
Golden frames in grid form (`golden.rs`): a screen as text rows and a list of the runs of
cells whose style is not the default one.

The rendering names the colours, and the attributes that are on. It leaves out whether a
cell is invisible, the colour of an underline, and which kind of underline it is: in all
else, two screens with one rendering are alike.
-/

namespace Posh.Rec.Golden

open Posh.Lib Posh.Term

/-! ### Rendering -/

/-- `{:02x}` -/
def hex2 (b : UInt8) : List Char :=
  let digits := "0123456789abcdef".toList
  [digits.getD (b.toNat / 16) '0', digits.getD (b.toNat % 16) '0']

def colorStr : Color → List Char
  | .default => "def".toList
  | .indexed n => 'i' :: decimal n.toNat
  | .rgb r g b => '#' :: (hex2 r ++ hex2 g ++ hex2 b)

/-- A word pushed where an attribute is on. -/
def flag (on : Bool) (word : String) : List (List Char) :=
  if on then [word.toList] else []

def flags (s : Style) : List (List Char) :=
  flag s.bold "bold" ++ flag s.dim "dim" ++ flag s.italic "italic" ++
    flag (s.underline ≠ .none) "underline" ++ flag s.blink "blink" ++ flag s.inverse "inverse" ++
    flag s.strikethrough "strike"

def parts (s : Style) : List (List Char) :=
  let colors := ["fg=".toList ++ colorStr s.fg, "bg=".toList ++ colorStr s.bg]
  if flags s = [] then colors else colors ++ [[','].intercalate (flags s)]

def styleDesc (s : Style) : List Char :=
  [' '].intercalate (parts s)

/-- A run of cells that share a style: the first column, the length, the style. -/
structure StyleRun where
  start : Nat
  len : Nat
  desc : List Char
deriving DecidableEq, Repr

/-- The loop of `style_runs` at column `i`; `fuel` bounds its turns. -/
def styleRunsLoop : (fuel : Nat) → (i : Nat) → List Cell → List StyleRun
  | 0, _, _ => []
  | _ + 1, _, [] => []
  | fuel + 1, i, c :: cells =>
      if c.style.isDefault then styleRunsLoop fuel (i + 1) cells
      else
        let more := cells.takeWhile (·.style = c.style)
        ⟨i, more.length + 1, styleDesc c.style⟩ ::
          styleRunsLoop fuel (i + (more.length + 1)) (cells.drop more.length)

/-- Maximal runs of cells sharing a style that is not the default one. -/
def styleRuns (cells : List Cell) : List StyleRun :=
  styleRunsLoop cells.length 0 cells

/-- `{r} {start}:{len} {desc}` -/
def runLine (r : Nat) (run : StyleRun) : List Char :=
  decimal r ++ ' ' :: (decimal run.start ++ ':' :: (decimal run.len ++ ' ' :: run.desc))

/-- The text block: a line for each row. -/
def textBlock (scr : Screen) : List (List Char) :=
  (List.range scr.rows).map fun r => ((scr.row r).map Terminal.rowText).getD []

/-- The style sidecar: a line for each run. -/
def styleSidecar (scr : Screen) : List (List Char) :=
  (List.range scr.rows).flatMap fun r =>
    match scr.row r with
    | some row => (styleRuns row.cells).map (runLine r)
    | none => []

def renderGrid (t : Terminal) (emuRev : List Char) : List Char :=
  let scr := t.scr
  "# posh-rec grid golden v1\n# emu_rev: ".toList ++ emuRev ++ "\n# size: ".toList ++
    (decimal scr.cols ++ 'x' :: (decimal scr.rows ++ '\n' :: ("--- text ---\n".toList ++
      (ended '\n' (textBlock scr) ++ ("--- style ---\n".toList ++ ended '\n' (styleSidecar scr))))))

/-! ### Colours -/

theorem decimal_inj {m n : Nat} (same : decimal m = decimal n) : m = n := by
  have value := congrArg (fun s => Nat.ofDigitChars 10 s 0) same
  unfold decimal at value
  rwa [Nat.ofDigitChars_ten_toDigits, Nat.ofDigitChars_ten_toDigits] at value

theorem not_mem_decimal {c : Char} (other : c.isDigit = false) (n : Nat) : c ∉ decimal n := by
  intro mem
  rw [isDigit_decimal n c mem] at other
  cases other

theorem hex2_plain (b : UInt8) : ∀ c ∈ hex2 b, c ∉ [' ', '\n'] := by
  have checked : ∀ n < 256,
      (hex2 (UInt8.ofNat n)).all (fun c => decide (c ∉ [' ', '\n'])) = true := by
    decide +kernel
  have plain := forall_of_all (checked b.toNat b.toNat_lt)
  rwa [UInt8.ofNat_toNat] at plain

theorem hex2_inj {b b' : UInt8} (same : hex2 b = hex2 b') : b = b' := by
  have reads : ∀ n < 256, (hex2 (UInt8.ofNat n)).map (fun c => "0123456789abcdef".toList.idxOf c) =
      [n / 16, n % 16] := by decide +kernel
  have first := reads b.toNat b.toNat_lt
  have second := reads b'.toNat b'.toNat_lt
  rw [UInt8.ofNat_toNat] at first second
  rw [same, second] at first
  simp only [List.cons.injEq, and_true] at first
  apply UInt8.toNat_inj.mp
  omega

theorem colorStr_inj {c c' : Color} (same : colorStr c = colorStr c') : c = c' := by
  cases c with
  | default => cases c' <;> first | rfl | cases same
  | indexed n =>
    cases c' with
    | default => cases same
    | rgb => cases same
    | indexed n' =>
      rw [UInt8.toNat_inj.mp (decimal_inj (List.cons.inj same).2)]
  | rgb r g b =>
    cases c' with
    | default => cases same
    | indexed => cases same
    | rgb r' g' b' =>
      obtain ⟨front, blue⟩ := List.append_inj' (List.cons.inj same).2 rfl
      obtain ⟨red, green⟩ := List.append_inj' front rfl
      rw [hex2_inj red, hex2_inj green, hex2_inj blue]

theorem colorStr_plain (color : Color) : ∀ c ∈ colorStr color, c ∉ [' ', '\n'] := by
  intro c mem
  cases color with
  | default => exact forall_of_all (P := (· ∉ [' ', '\n'])) (s := "def".toList) rfl c mem
  | indexed n =>
    rcases List.mem_cons.mp mem with rfl | digit
    · decide
    · rintro special
      have plain := isDigit_decimal n.toNat c digit
      simp only [List.mem_cons, List.not_mem_nil, or_false] at special
      rcases special with rfl | rfl <;> cases plain
  | rgb r g b =>
    rcases List.mem_cons.mp mem with rfl | digit
    · decide
    · rcases List.mem_append.mp digit with digit | digit
      · rcases List.mem_append.mp digit with digit | digit
        · exact hex2_plain r c digit
        · exact hex2_plain g c digit
      · exact hex2_plain b c digit

/-! ### Styles -/

/-- What a description tells of a style. -/
structure Described (s s' : Style) : Prop where
  fg : s.fg = s'.fg
  bg : s.bg = s'.bg
  bold : s.bold = s'.bold
  dim : s.dim = s'.dim
  italic : s.italic = s'.italic
  underline : s.underline = .none ↔ s'.underline = .none
  blink : s.blink = s'.blink
  inverse : s.inverse = s'.inverse
  strikethrough : s.strikethrough = s'.strikethrough

theorem mem_flag {on : Bool} {word : String} {w : List Char} :
    w ∈ flag on word ↔ on = true ∧ w = word.toList := by
  cases on <;> simp [flag]

/-- Every word of the flags is one of seven. -/
theorem mem_flags {s : Style} {w : List Char} : w ∈ flags s ↔
    s.bold = true ∧ w = "bold".toList ∨ s.dim = true ∧ w = "dim".toList ∨
      s.italic = true ∧ w = "italic".toList ∨ s.underline ≠ .none ∧ w = "underline".toList ∨
      s.blink = true ∧ w = "blink".toList ∨ s.inverse = true ∧ w = "inverse".toList ∨
      s.strikethrough = true ∧ w = "strike".toList := by
  unfold flags
  simp only [List.mem_append, mem_flag, or_assoc, decide_eq_true_eq]

theorem flags_plain {s : Style} {w : List Char} (mem : w ∈ flags s) :
    ∀ c ∈ w, c ∉ [' ', '\n', ','] := by
  rcases mem_flags.mp mem with ⟨-, rfl⟩ | ⟨-, rfl⟩ | ⟨-, rfl⟩ | ⟨-, rfl⟩ | ⟨-, rfl⟩ | ⟨-, rfl⟩ |
    ⟨-, rfl⟩ <;> exact forall_of_all rfl

theorem described_of_flags {s s' : Style} (fg : s.fg = s'.fg) (bg : s.bg = s'.bg)
    (same : flags s = flags s') : Described s s' := by
  have each (w : List Char) : w ∈ flags s ↔ w ∈ flags s' := by rw [same]
  have bold := each "bold".toList
  have dim := each "dim".toList
  have italic := each "italic".toList
  have underline := each "underline".toList
  have blink := each "blink".toList
  have inverse := each "inverse".toList
  have strike := each "strike".toList
  simp +decide [mem_flags] at bold dim italic underline blink inverse strike
  exact ⟨fg, bg, bold, dim, italic, not_iff_not.mp underline, blink, inverse, strike⟩

theorem parts_eq (s : Style) : parts s =
    ["fg=".toList ++ colorStr s.fg, "bg=".toList ++ colorStr s.bg] ++
      if flags s = [] then [] else [[','].intercalate (flags s)] := by
  unfold parts
  dsimp only
  split
  · rw [List.append_nil]
  · rfl

theorem parts_plain (s : Style) : ∀ part ∈ parts s, ∀ c ∈ part, c ∉ [' ', '\n'] := by
  have color {name : List Char} (plain : ∀ c ∈ name, c ∉ [' ', '\n']) (color : Color) :
      ∀ c ∈ name ++ colorStr color, c ∉ [' ', '\n'] := by
    intro c mem
    rcases List.mem_append.mp mem with mem | mem
    · exact plain c mem
    · exact colorStr_plain color c mem
  have words : ∀ c ∈ [','].intercalate (flags s), c ∉ [' ', '\n'] := by
    intro c mem
    rcases mem_intercalate mem with rfl | ⟨w, inside, mem⟩
    · decide
    · intro special
      refine flags_plain inside c mem ?_
      simp only [List.mem_cons, List.not_mem_nil, or_false] at special ⊢
      exact special.imp_right Or.inl
  intro part mem
  rw [parts_eq] at mem
  rcases List.mem_append.mp mem with mem | mem
  · simp only [List.mem_cons, List.not_mem_nil, or_false] at mem
    rcases mem with rfl | rfl
    · exact color (forall_of_all rfl) s.fg
    · exact color (forall_of_all rfl) s.bg
  · split at mem
    · cases mem
    · rw [List.mem_singleton.mp mem]
      exact words

theorem parts_ne_nil (s : Style) : parts s ≠ [] := by
  rw [parts_eq]
  exact List.cons_ne_nil _ _

theorem flags_of_intercalate {s s' : Style}
    (same : [','].intercalate (flags s) = [','].intercalate (flags s')) (some_ : flags s ≠ [])
    (some_' : flags s' ≠ []) : flags s = flags s' := by
  have bare (s : Style) : ∀ w ∈ flags s, ',' ∉ w := fun w mem inside =>
    flags_plain mem ',' inside (by decide)
  rw [← List.splitOn_intercalate ',' (bare s) some_, same,
    List.splitOn_intercalate ',' (bare s') some_']

theorem described_of_styleDesc {s s' : Style} (same : styleDesc s = styleDesc s') : Described s s' := by
  have bare (s : Style) : ∀ part ∈ parts s, ' ' ∉ part := fun part mem inside =>
    parts_plain s part mem ' ' inside (by decide)
  have split : parts s = parts s' := by
    rw [← List.splitOn_intercalate ' ' (bare s) (parts_ne_nil s),
      ← List.splitOn_intercalate ' ' (bare s') (parts_ne_nil s')]
    exact congrArg (List.splitOn ' ') same
  rw [parts_eq, parts_eq] at split
  have fields {a b a' b' : List Char} {more more' : List (List Char)}
      (eq : [a, b] ++ more = [a', b'] ++ more') : a = a' ∧ b = b' ∧ more = more' := by
    obtain ⟨first, rest⟩ := List.cons.inj eq
    exact ⟨first, List.cons.inj rest⟩
  obtain ⟨fg, bg, words⟩ := fields split
  refine described_of_flags (colorStr_inj (List.append_cancel_left fg))
    (colorStr_inj (List.append_cancel_left bg)) ?_
  by_cases none_ : flags s = []
  · by_cases none_' : flags s' = []
    · rw [none_, none_']
    · rw [if_pos none_, if_neg none_'] at words
      cases words
  · by_cases none_' : flags s' = []
    · rw [if_neg none_, if_pos none_'] at words
      cases words
    · rw [if_neg none_, if_neg none_'] at words
      exact flags_of_intercalate (List.cons.inj words).1 none_ none_'

theorem not_mem_styleDesc (s : Style) : '\n' ∉ styleDesc s := by
  intro mem
  rcases mem_intercalate mem with other | ⟨part, inside, mem⟩
  · cases other
  · exact parts_plain s part inside '\n' mem (by decide)

/-! ### Runs -/

/-- The cells of a run have one style, which is not the default one. -/
theorem styleRunsLoop_sound {fuel i : Nat} {cells : List Cell} {run : StyleRun}
    (mem : run ∈ styleRunsLoop fuel i cells) : ∀ k, run.start ≤ k → k < run.start + run.len →
      i ≤ k ∧ ∃ c, cells[k - i]? = some c ∧ c.style ≠ {} ∧ styleDesc c.style = run.desc := by
  induction fuel generalizing i cells with
  | zero => cases mem
  | succ fuel ih =>
    cases cells with
    | nil => cases mem
    | cons c cells =>
      rw [styleRunsLoop] at mem
      intro k from_ to_
      split at mem
      · obtain ⟨le, cell, here, spec⟩ := ih mem k from_ to_
        refine ⟨by omega, cell, ?_, spec⟩
        rw [← here, show k - i = k - (i + 1) + 1 by omega, List.getElem?_cons_succ]
      · rename_i styled
        dsimp only at mem
        obtain ⟨tail, whole⟩ := List.takeWhile_prefix (l := cells) (·.style = c.style)
        rcases List.mem_cons.mp mem with rfl | later
        · dsimp only at from_ to_ ⊢
          refine ⟨from_, ?_⟩
          by_cases first : k = i
          · refine ⟨c, by rw [first, Nat.sub_self]; rfl, ?_, rfl⟩
            simpa [Style.isDefault] using styled
          · have short : k - (i + 1) < (cells.takeWhile (·.style = c.style)).length := by omega
            have alike := List.mem_takeWhile_imp (List.getElem_mem short)
            refine ⟨(cells.takeWhile (·.style = c.style))[k - (i + 1)], ?_, ?_, ?_⟩
            · have front := @List.getElem?_append_left _ _ tail _ short
              rw [whole, List.getElem?_eq_getElem short] at front
              rw [show k - i = k - (i + 1) + 1 by omega, List.getElem?_cons_succ, front]
            · rw [of_decide_eq_true alike]
              simpa [Style.isDefault] using styled
            · rw [of_decide_eq_true alike]
        · obtain ⟨le, cell, here, spec⟩ := ih later k from_ to_
          refine ⟨by omega, cell, ?_, spec⟩
          rw [List.getElem?_drop] at here
          rw [← here, show k - i = k - (i + 1) + 1 by omega, List.getElem?_cons_succ]
          congr 1
          omega

/-- A cell whose style is not the default one is in a run. -/
theorem styleRunsLoop_complete {fuel i : Nat} {cells : List Cell} (enough : cells.length ≤ fuel)
    {k : Nat} {c : Cell} (here : cells[k]? = some c) (styled : c.style ≠ {}) :
    ∃ run ∈ styleRunsLoop fuel i cells, run.start ≤ i + k ∧ i + k < run.start + run.len := by
  induction fuel generalizing i cells k with
  | zero =>
    rw [List.length_eq_zero_iff.mp (Nat.le_zero.mp enough)] at here
    cases here
  | succ fuel ih =>
    cases cells with
    | nil => cases here
    | cons d cells =>
      rw [List.length_cons] at enough
      rw [styleRunsLoop]
      cases k with
      | zero =>
        cases here
        rw [if_neg (by simpa [Style.isDefault] using styled)]
        refine ⟨_, List.mem_cons_self, Nat.le_refl _, ?_⟩
        dsimp only
        omega
      | succ k =>
        rw [List.getElem?_cons_succ] at here
        split
        · obtain ⟨run, mem, from_, to_⟩ := ih (i := i + 1) (by omega) here
          exact ⟨run, mem, by omega, by omega⟩
        · dsimp only
          by_cases inside : k < (cells.takeWhile (·.style = d.style)).length
          · refine ⟨_, List.mem_cons_self, Nat.le_add_right _ _, ?_⟩
            dsimp only
            omega
          · have dropped : (cells.drop (cells.takeWhile (·.style = d.style)).length)[
                k - (cells.takeWhile (·.style = d.style)).length]? = some c := by
              rw [List.getElem?_drop, ← here]
              congr 1
              omega
            obtain ⟨run, mem, from_, to_⟩ := ih
              (i := i + ((cells.takeWhile (·.style = d.style)).length + 1))
              (by rw [List.length_drop]; omega) dropped
            exact ⟨run, List.mem_cons_of_mem _ mem, by omega, by omega⟩

theorem styleRunsLoop_len_pos {fuel i : Nat} {cells : List Cell} {run : StyleRun}
    (mem : run ∈ styleRunsLoop fuel i cells) : 0 < run.len := by
  induction fuel generalizing i cells with
  | zero => cases mem
  | succ fuel ih =>
    cases cells with
    | nil => cases mem
    | cons c cells =>
      rw [styleRunsLoop] at mem
      split at mem
      · exact ih mem
      · rcases List.mem_cons.mp mem with rfl | later
        · exact Nat.succ_pos _
        · exact ih later

theorem desc_of_mem_styleRuns {cells : List Cell} {run : StyleRun} (mem : run ∈ styleRuns cells) :
    ∃ s, run.desc = styleDesc s := by
  have pos := styleRunsLoop_len_pos mem
  obtain ⟨-, c, -, -, desc⟩ := styleRunsLoop_sound mem run.start (Nat.le_refl _) (by omega)
  exact ⟨c.style, desc.symm⟩

/-- The same runs are of cells that are described alike. -/
theorem described_of_styleRuns {cells cells' : List Cell}
    (same : ∀ run, run ∈ styleRuns cells ↔ run ∈ styleRuns cells') {k : Nat} {c c' : Cell}
    (here : cells[k]? = some c) (here' : cells'[k]? = some c') : Described c.style c'.style := by
  have covered {cells cells' : List Cell} (same : ∀ run ∈ styleRuns cells, run ∈ styleRuns cells')
      {c c' : Cell} (here : cells[k]? = some c) (here' : cells'[k]? = some c')
      (styled : c.style ≠ {}) : styleDesc c.style = styleDesc c'.style := by
    obtain ⟨run, mem, from_, to_⟩ := styleRunsLoop_complete (Nat.le_refl _) (i := 0) here styled
    rw [Nat.zero_add] at from_ to_
    obtain ⟨-, d, found, -, desc⟩ := styleRunsLoop_sound mem k from_ to_
    obtain ⟨-, d', found', -, desc'⟩ := styleRunsLoop_sound (same run mem) k from_ to_
    rw [Nat.sub_zero, here] at found
    rw [Nat.sub_zero, here'] at found'
    cases found
    cases found'
    rw [desc, desc']
  by_cases styled : c.style = {}
  · by_cases styled' : c'.style = {}
    · rw [styled, styled']
      exact ⟨rfl, rfl, rfl, rfl, rfl, Iff.rfl, rfl, rfl, rfl⟩
    · refine described_of_styleDesc ?_
      exact (covered (fun run => (same run).mpr) here' here styled').symm
  · exact described_of_styleDesc (covered (fun run => (same run).mp) here here' styled)

/-! ### Lines -/

theorem runLine_inj {r r' : Nat} {run run' : StyleRun} (same : runLine r run = runLine r' run') :
    r = r' ∧ run = run' := by
  have space := not_mem_decimal (show ' '.isDigit = false from rfl)
  have colon := not_mem_decimal (show ':'.isDigit = false from rfl)
  obtain ⟨row, same⟩ := first_inj (space r) (space r') same
  obtain ⟨start, same⟩ := first_inj (colon run.start) (colon run'.start) same
  obtain ⟨len, desc⟩ := first_inj (space run.len) (space run'.len) same
  refine ⟨decimal_inj row, ?_⟩
  cases run
  cases run'
  simp only [StyleRun.mk.injEq]
  exact ⟨decimal_inj start, decimal_inj len, desc⟩

theorem mem_styleSidecar {scr : Screen} {line : List Char} : line ∈ styleSidecar scr ↔
    ∃ r row run, r < scr.rows ∧ scr.row r = some row ∧ run ∈ styleRuns row.cells ∧
      line = runLine r run := by
  unfold styleSidecar
  rw [List.mem_flatMap]
  constructor
  · rintro ⟨r, inside, mem⟩
    split at mem
    · rename_i row eq
      obtain ⟨run, among, rfl⟩ := List.mem_map.mp mem
      exact ⟨r, row, run, List.mem_range.mp inside, eq, among, rfl⟩
    · cases mem
  · rintro ⟨r, row, run, inside, eq, among, rfl⟩
    refine ⟨r, List.mem_range.mpr inside, ?_⟩
    rw [eq]
    exact List.mem_map.mpr ⟨run, among, rfl⟩

/-- The runs of a row are those the sidecar lists for it. -/
theorem runLine_mem_iff {scr : Screen} {r : Nat} {row : Row} (inside : r < scr.rows)
    (here : scr.row r = some row) (run : StyleRun) :
    runLine r run ∈ styleSidecar scr ↔ run ∈ styleRuns row.cells := by
  rw [mem_styleSidecar]
  constructor
  · rintro ⟨r', row', run', -, here', among, same⟩
    obtain ⟨rfl, rfl⟩ := runLine_inj same
    rw [here] at here'
    cases here'
    exact among
  · intro among
    exact ⟨r, row, run, inside, here, among, rfl⟩

theorem styleSidecar_bare {scr : Screen} : ∀ line ∈ styleSidecar scr, '\n' ∉ line := by
  intro line mem newline
  obtain ⟨r, row, run, -, -, among, rfl⟩ := mem_styleSidecar.mp mem
  have digits := not_mem_decimal (show '\n'.isDigit = false from rfl)
  obtain ⟨s, desc⟩ := desc_of_mem_styleRuns among
  unfold runLine at newline
  rw [desc] at newline
  simp [digits, not_mem_styleDesc] at newline

theorem textBlock_bare {scr : Screen} (graphic : scr.Every (Screen.Cells Cell.Graphic)) :
    ∀ line ∈ textBlock scr, '\n' ∉ line := by
  intro line mem
  obtain ⟨r, -, rfl⟩ := List.mem_map.mp mem
  cases here : scr.row r with
  | none => exact List.not_mem_nil
  | some row =>
    intro newline
    obtain ⟨cell, inside, shown⟩ := List.mem_flatMap.mp newline
    split at shown
    · cases shown
    · have kept := graphic.grid row (List.mem_of_getElem? here) cell inside
      exact absurd (graphic_shown kept '\n' shown) (by decide)

/-! ### Screens -/

/-- The attributes an SGR sequence can set: all but the guard. -/
def visible (s : Style) : Style :=
  { s with isProtected := false }

/-- Two screens of one size and text, where the styles of corresponding cells are related. -/
structure Alike (R : Style → Style → Prop) (t t' : Terminal) : Prop where
  rows : t.scr.rows = t'.scr.rows
  cols : t.scr.cols = t'.scr.cols
  text : ∀ r, (t.scr.row r).map Terminal.rowText = (t'.scr.row r).map Terminal.rowText
  style : ∀ r c cell cell', t.scr.cell r c = some cell → t'.scr.cell r c = some cell' →
    R cell.style cell'.style

/-- The two screens show the same. -/
abbrev Faithful : Terminal → Terminal → Prop :=
  Alike fun s s' => visible s = visible s'

/-- Agreement of the attributes that no description names. -/
structure Unnamed (s s' : Style) : Prop where
  invisible : s.invisible = s'.invisible
  underlineColor : s.underlineColor = s'.underlineColor
  underline : s.underline ≠ .none → s'.underline ≠ .none → s.underline = s'.underline

/-- The cells of two screens agree in the attributes that no description names. -/
def HiddenAgree (t t' : Terminal) : Prop :=
  ∀ r c cell cell', t.scr.cell r c = some cell → t'.scr.cell r c = some cell' →
    Unnamed cell.style cell'.style

theorem visible_inj {s s' : Style} (told : Described s s') (unnamed : Unnamed s s') :
    visible s = visible s' := by
  obtain ⟨fg, bg, bold, dim, italic, underline, blink, inverse, strikethrough⟩ := told
  obtain ⟨invisible, underlineColor, kind⟩ := unnamed
  have underlined : s.underline = s'.underline := by
    by_cases bare : s.underline = .none
    · rw [bare, underline.mp bare]
    · exact kind bare (mt underline.mpr bare)
  unfold visible
  rw [fg, bg, underlineColor, bold, dim, italic, underlined, blink, inverse, invisible,
    strikethrough]

theorem unnamed_of_visible {s s' : Style} (same : visible s = visible s') : Unnamed s s' := by
  unfold visible at same
  simp only [Style.mk.injEq] at same
  exact ⟨same.2.2.2.2.2.2.2.2.2.1, same.2.2.1, fun _ _ => same.2.2.2.2.2.2.1⟩

/-- The screen of a terminal that a session reaches: a row for each line, and no line break
in one. -/
structure Framed (scr : Screen) : Prop where
  height : scr.grid.length = scr.rows
  graphic : scr.Every (Screen.Cells Cell.Graphic)

theorem framed_of_reachable {t : Terminal} (h : session.Reachable t) : Framed t.scr := by
  obtain ⟨rows, cols, sound⟩ := Terminal.wellFormed_invariant.reachable h
  have graphic := (Terminal.clean_invariant.reachable h).graphic
  unfold Terminal.scr
  split
  · exact ⟨sound.alt.height.trans sound.alt.rows_eq.symm, graphic.alt⟩
  · exact ⟨sound.primary.height.trans sound.primary.rows_eq.symm, graphic.primary⟩

theorem Framed.row_some {scr : Screen} (framed : Framed scr) {r : Nat} (inside : r < scr.rows) :
    ∃ row, scr.row r = some row :=
  ⟨_, List.getElem?_eq_getElem (framed.height ▸ inside)⟩

theorem Framed.row_none {scr : Screen} (framed : Framed scr) {r : Nat} (outside : scr.rows ≤ r) :
    scr.row r = none :=
  List.getElem?_eq_none (framed.height ▸ outside)

/-- The parts of a rendering are read off it in one way. -/
theorem renderGrid_inj {t t' : Terminal} (framed : Framed t.scr) (framed' : Framed t'.scr)
    {emuRev : List Char} (same : renderGrid t emuRev = renderGrid t' emuRev) :
    t.scr.cols = t'.scr.cols ∧ t.scr.rows = t'.scr.rows ∧ textBlock t.scr = textBlock t'.scr ∧
      styleSidecar t.scr = styleSidecar t'.scr := by
  have cross := not_mem_decimal (show 'x'.isDigit = false from rfl)
  have newline := not_mem_decimal (show '\n'.isDigit = false from rfl)
  obtain ⟨cols, same⟩ := first_inj (cross _) (cross _) (List.append_cancel_left same)
  obtain ⟨rows, same⟩ := first_inj (newline _) (newline _) same
  have count : (textBlock t.scr).length = (textBlock t'.scr).length := by
    unfold textBlock
    rw [List.length_map, List.length_map, decimal_inj rows]
  obtain ⟨text, same⟩ := ended_append_inj (textBlock_bare framed.graphic)
    (textBlock_bare framed'.graphic) count (List.append_cancel_left same)
  exact ⟨decimal_inj cols, decimal_inj rows, text,
    ended_inj styleSidecar_bare styleSidecar_bare (List.append_cancel_left same)⟩

/-- Of the text a golden frame tells all, of a style what is described. -/
theorem alike_of_renderGrid {t t' : Terminal} (framed : Framed t.scr) (framed' : Framed t'.scr)
    {emuRev : List Char} (same : renderGrid t emuRev = renderGrid t' emuRev) :
    Alike Described t t' := by
  obtain ⟨cols, rows, text, sidecar⟩ := renderGrid_inj framed framed' same
  refine ⟨rows, cols, ?_, ?_⟩
  · intro r
    by_cases inside : r < t.scr.rows
    · obtain ⟨row, here⟩ := framed.row_some inside
      obtain ⟨row', here'⟩ := framed'.row_some (rows ▸ inside)
      have line := congrArg (fun lines => lines[r]?) text
      simp only [textBlock, List.getElem?_map, List.getElem?_range inside,
        List.getElem?_range (rows ▸ inside), here, here', Option.map_some, Option.getD_some,
        Option.some.injEq] at line
      rw [here, here', Option.map_some, Option.map_some, line]
    · rw [framed.row_none (Nat.le_of_not_lt inside),
        framed'.row_none (rows ▸ Nat.le_of_not_lt inside)]
  · intro r c cell cell' found found'
    obtain ⟨row, here, at_⟩ := Option.bind_eq_some_iff.mp found
    obtain ⟨row', here', at_'⟩ := Option.bind_eq_some_iff.mp found'
    have inside : r < t.scr.rows := by
      rw [← framed.height]
      exact (List.getElem?_eq_some_iff.mp here).1
    refine described_of_styleRuns (fun run => ?_) at_ at_'
    rw [← runLine_mem_iff inside here, ← runLine_mem_iff (rows ▸ inside) here', sidecar]

/-- Two terminals with one golden frame show the same exactly if their cells agree in what
no description names. -/
theorem golden_faithful_iff {t t' : Terminal} (h : session.Reachable t) (h' : session.Reachable t')
    {emuRev : List Char} (same : renderGrid t emuRev = renderGrid t' emuRev) :
    Faithful t t' ↔ HiddenAgree t t' := by
  have told := alike_of_renderGrid (framed_of_reachable h) (framed_of_reachable h') same
  constructor
  · intro faithful r c cell cell' found found'
    exact unnamed_of_visible (faithful.style r c cell cell' found found')
  · intro hidden
    refine ⟨told.rows, told.cols, told.text, ?_⟩
    intro r c cell cell' found found'
    exact visible_inj (told.style r c cell cell' found found') (hidden r c cell cell' found found')

theorem reachable_typed (files : Files) {bytes : Bytes} {t : Terminal}
    (eq : (Terminal.new 1 2).process files bytes = .ok t) : session.Reachable t := by
  have fresh : session.Reachable (Terminal.new 1 2) :=
    .of_init ⟨1, 2, Terminal.DEFAULT_SCROLLBACK, by decide, by decide, by decide, by decide, rfl⟩
  exact fresh.tail ⟨.process files bytes, trivial, eq⟩

/-- A bold `X`, and the same with a carriage return behind it. -/
theorem golden_faithful_returned : ∃ t t',
    (Terminal.new 1 2).process (fun _ => none) [0x1B, 0x5B, 0x31, 0x6D, 0x58] = .ok t ∧
    (Terminal.new 1 2).process (fun _ => none) [0x1B, 0x5B, 0x31, 0x6D, 0x58, 0x0D] = .ok t' ∧
    (Faithful t t' ↔ HiddenAgree t t') := by
  obtain ⟨t, eq⟩ : ∃ t, (Terminal.new 1 2).process (fun _ => none)
      [0x1B, 0x5B, 0x31, 0x6D, 0x58] = .ok t := ⟨_, rfl⟩
  obtain ⟨t', eq'⟩ : ∃ t', (Terminal.new 1 2).process (fun _ => none)
      [0x1B, 0x5B, 0x31, 0x6D, 0x58, 0x0D] = .ok t' := ⟨_, rfl⟩
  have reached := reachable_typed _ eq
  have reached' := reachable_typed _ eq'
  have same : renderGrid t "x".toList = renderGrid t' "x".toList := by
    cases eq
    cases eq'
    decide +kernel
  exact ⟨t, t', eq, eq', golden_faithful_iff reached reached' same⟩

/-- A bold `X`, and one that is invisible too: the golden frame is the same. -/
theorem golden_misses_invisible : ¬ ∀ (t t' : Terminal) (emuRev : List Char),
    session.Reachable t → session.Reachable t' → renderGrid t emuRev = renderGrid t' emuRev →
      Faithful t t' := by
  intro all
  obtain ⟨t, eq⟩ : ∃ t, (Terminal.new 1 2).process (fun _ => none)
      [0x1B, 0x5B, 0x31, 0x6D, 0x58] = .ok t := ⟨_, rfl⟩
  obtain ⟨t', eq'⟩ : ∃ t', (Terminal.new 1 2).process (fun _ => none)
      [0x1B, 0x5B, 0x31, 0x3B, 0x38, 0x6D, 0x58] = .ok t' := ⟨_, rfl⟩
  have faithful := all t t' "x".toList (reachable_typed _ eq) (reachable_typed _ eq')
  cases eq
  cases eq'
  have shown := (faithful (by decide +kernel)).style 0 0 _ _ rfl rfl
  exact absurd shown (by decide)

end Posh.Rec.Golden
