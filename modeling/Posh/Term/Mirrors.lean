import Posh.Term.Adjusting
import Posh.Term.Replayed
import Posh.Term.Streams

/-!
What a new terminal that reads a dump comes to: the terminal that wrote it.
-/

namespace Posh.Term

open Posh.Lib

/-! ### The directory -/

theorem percentLoop_plain (s : List Char) {bytes : Bytes} (plain : ∀ b ∈ bytes, b.toNat ≠ '%'.toNat)
    (i : Nat) : percentLoop s i 0 bytes = .ok bytes := by
  induction bytes generalizing i with
  | nil => rfl
  | cons b rest ih =>
    have other : ¬ (b.toNat = '%'.toNat ∧ rest.length ≥ 2) := fun h => plain b List.mem_cons_self h.1
    unfold percentLoop
    rw [if_neg other, ih fun x mem => plain x (List.mem_cons_of_mem _ mem)]
    rfl

theorem percentDecode_plain {s : List Char} (plain : '%' ∉ s) : percentDecode s = .ok s := by
  have bytes : ∀ b ∈ toUtf8 s, b.toNat ≠ '%'.toNat := by
    intro b mem
    obtain ⟨c, inside, byte⟩ := List.mem_flatMap.mp mem
    rcases mem_utf8EncodeChar byte with same | high
    · intro percent
      have char : c = '%' := Char.toNat_inj.mp (same.symm.trans percent)
      exact plain (char ▸ inside)
    · have small : '%'.toNat < 0x80 := by decide
      omega
  unfold percentDecode
  rw [percentLoop_plain s bytes]
  change Except.ok (fromUtf8Lossy (toUtf8 s)) = _
  rw [fromUtf8Lossy_toUtf8]

/-- An absolute path without escapes is the path of its URI. -/
theorem parseFileUri_plain {path : List Char} (plain : '%' ∉ '/' :: path) :
    parseFileUri ("file://".toList ++ '/' :: path) = .ok ('/' :: path) := by
  unfold parseFileUri
  rw [stripPrefix_append]
  exact percentDecode_plain plain

namespace Terminal

variable {K : Parser → GraphicsState → Prop} {files : Files} {u v t' : Terminal} {all : List Row}
  {rows cols cap : Nat} {st : EmitState}

/-- An absolute path that a dump can carry. -/
structure Path (pwd : List Char) : Prop where
  carried : Carried ("file://".toList ++ pwd)
  absolute : pwd.head? = some '/'
  plain : '%' ∉ pwd

theorem located (path : u.pwd ≠ [] → Path u.pwd) : Located u where
  carried := by
    by_cases none : u.pwd = []
    · rw [none]
      exact ⟨forall_of_all rfl, by decide⟩
    · exact (path none).carried
  parsed := by
    intro some
    obtain ⟨-, absolute, plain⟩ := path some
    cases eq : u.pwd with
    | nil => exact absurd eq some
    | cons first rest =>
      rw [eq] at absolute plain
      cases absolute
      exact parseFileUri_plain plain

/-! ### What a dump can carry -/

/-- Rows that can be written anew: each wide character has its own spacer, no mark is DEL, the
links are short, and what a wrapped row goes on in comes by a wrap. -/
structure Legible (u : Terminal) (all : List Row) : Prop where
  tidy : ∀ r ∈ all, Tidy r.cells
  marks : ∀ r ∈ all, ∀ c ∈ r.cells, '\x7f' ∉ c.extra
  linkable : ∀ r ∈ all, ∀ c ∈ r.cells, u.Linkable c.hyperlink
  flows : Flows u.rows u.cols all

/-- A terminal whose cursor and rows can be drawn anew. -/
structure Showable (u : Terminal) (all : List Row) : Prop extends Legible u all where
  cursor : u.Linkable u.cursor.hyperlink
  inside : u.modes.origin = true → u.scrollTop ≤ u.cursor.row ∧ u.cursor.row ≤ u.scrollBot
  rearmed : u.cursor.pendingWrap = true → u.Rearmed
  placements : u.graphics.placements = []

/-- A terminal that a dump of the rows `all` brings back. -/
structure Dumpable (u : Terminal) (all : List Row) : Prop extends Showable u all where
  title : Carried u.title
  icon : Carried u.iconTitle
  path : u.pwd ≠ [] → Path u.pwd
  images : u.graphics.images = []

/-- What every run keeps of what a dump relies on. -/
structure Lawful (rows cols : Nat) (u : Terminal) : Prop where
  sound : u.Sound Unknown rows cols
  catalogued : u.Catalogued
  clean : u.Clean
  printed : u.Printed
  steady : u.settings.Steady

theorem lawful_of_reachable (reachable : session.Reachable u) : u.Lawful u.rows u.cols := by
  obtain ⟨rows, cols, sound⟩ := wellFormed_invariant.reachable reachable
  have height := sound.rows_eq
  have width := sound.cols_eq
  subst height width
  exact ⟨sound, catalogued_invariant.reachable reachable, clean_invariant.reachable reachable,
    printed_invariant.reachable reachable, steady_of_reachable reachable⟩

theorem drawable_of_printed {c : Cell} (printed : c.Printed) (graphic : c.Graphic) (visible : c.width ≠ 0)
    (marks : '\x7f' ∉ c.extra) (linkable : u.Linkable c.hyperlink) : Drawable u c := by
  obtain ⟨char, delete⟩ := printed.shows graphic visible
  have small := wcwidth_le c.ch
  rw [← printed.width] at small
  exact {
    printed
    visible := by omega
    char := ⟨char, delete, printed.control⟩
    marks := fun x mem =>
      ⟨graphic.extra x mem, fun same => marks (same ▸ mem), (printed.marks x mem).2⟩
    linkable }

/-- The rows of a screen that holds nothing but printed characters. -/
structure Spelled (cols : Nat) (all : List Row) : Prop where
  length : Uniform cols all
  printed : ∀ r ∈ all, Screen.Cells Cell.Printed r.cells
  graphic : ∀ r ∈ all, Screen.Cells Cell.Graphic r.cells

theorem Legible.drawable (legible : u.Legible all) (spelled : Spelled cols all) {r : Row} (mem : r ∈ all) :
    ∀ c ∈ glyphs r.cells, Drawable u c := by
  intro c inside
  obtain ⟨inside, visible⟩ := List.mem_filter.mp inside
  exact drawable_of_printed (spelled.printed r mem c inside) (spelled.graphic r mem c inside)
    (of_decide_eq_true visible) (legible.marks r mem c inside) (legible.linkable r mem c inside)

theorem Legible.writable (legible : u.Legible all) (spelled : Spelled cols all) :
    ∀ r ∈ all, Writable u cols r := by
  intro r mem
  refine ⟨spelled.length r mem, spelled.printed r mem, legible.tidy r mem, ?_⟩
  intro c inside
  obtain ⟨inside, visible⟩ := List.mem_filter.mp inside
  have within : c ∈ r.cells := by
    unfold shownCells at inside
    split at inside
    · exact inside
    · exact List.mem_of_mem_take inside
  exact legible.drawable spelled mem c (List.mem_filter.mpr ⟨within, visible⟩)

namespace Lawful

theorem spelled (lawful : u.Lawful rows cols) : Spelled cols u.scr.grid :=
  ⟨lawful.sound.scr.grid, (EveryRow.scr lawful.printed).grid, by
    have graphic := lawful.clean.graphic
    unfold Terminal.scr
    split
    · exact graphic.alt.grid
    · exact graphic.primary.grid⟩

theorem spelled_primary (lawful : u.Lawful rows cols) :
    Spelled cols (u.primary.scrollback ++ u.primary.grid) := by
  have printed : u.primary.Every (Screen.Cells Cell.Printed) := lawful.printed.primary
  have graphic : u.primary.Every (Screen.Cells Cell.Graphic) := lawful.clean.graphic.primary
  have sized := lawful.sound.primary
  constructor
  · intro r mem
    exact (List.mem_append.mp mem).elim (sized.scrollback r) (sized.grid r)
  · intro r mem
    exact (List.mem_append.mp mem).elim (printed.scrollback r) (printed.grid r)
  · intro r mem
    exact (List.mem_append.mp mem).elim (graphic.scrollback r) (graphic.grid r)

theorem settled (lawful : u.Lawful rows cols) : u.setup.Settled rows := by
  refine ⟨?_, lawful.steady.shift⟩
  rw [← lawful.sound.rows_eq]
  exact lawful.steady.region

theorem pushed (lawful : u.Lawful rows cols) : Pushed u.kittyStack := by
  unfold kittyStack
  split
  · exact lawful.steady.keysAlt
  · exact lawful.steady.keysPrimary

end Lawful

theorem mem_rowCells (sound : u.Sound K rows cols) :
    ∃ r ∈ u.scr.grid, u.rowCells u.cursor.row = r.cells := by
  have inside : u.cursor.row < u.scr.grid.length := by
    rw [sound.scr.height]
    exact sound.cursor_row
  refine ⟨u.scr.grid[u.cursor.row], List.getElem_mem inside, ?_⟩
  unfold Terminal.rowCells Screen.cellsAt
  rw [List.getElem?_eq_getElem inside]
  rfl

theorem pointable (lawful : u.Lawful rows cols) (showable : u.Showable all) (spelled : Spelled cols all)
    (shown : ∀ r ∈ u.scr.grid, r ∈ all) : u.Pointable := by
  obtain ⟨r, mem, eq⟩ := mem_rowCells lawful.sound
  have mem := shown r mem
  exact {
    shape := lawful.steady.shape
    inside := showable.inside
    printed := eq ▸ spelled.printed r mem
    tidy := eq ▸ showable.tidy r mem
    drawable := eq ▸ showable.drawable spelled mem
    linkable := showable.cursor
    rearmed := showable.rearmed }

/-! ### What comes back -/

/-- `t'` shows what `u` shows, and what comes next it takes as `u` would: the cursor, the pen, the
modes, the region, the stops, the character sets and the keyboard are those of `u`. -/
structure Mirrors (u t' : Terminal) : Prop where
  rows : t'.rows = u.rows
  cols : t'.cols = u.cols
  grid : t'.scr.grid.map (Row.look t'.hyperlinks) = u.scr.grid.map (Row.look u.hyperlinks)
  row : t'.cursor.row = u.cursor.row
  col : t'.cursor.col = u.cursor.col
  pending : t'.cursor.pendingWrap = u.cursor.pendingWrap
  style : t'.cursor.style = u.cursor.style
  link : (t'.hyperlinks.lookup t'.cursor.hyperlink).map (·.uri) =
    (u.hyperlinks.lookup u.cursor.hyperlink).map (·.uri)
  setup : t'.setup = u.replayedSetup
  shape : t'.cursorStyleRaw = u.cursorStyleRaw
  keys : t'.kittyStack = u.kittyStack

variable (files) in
/-- The modes and the cursor over the rows. -/
theorem draws_ending (lawful : u.Lawful u.rows u.cols) (dumpable : u.Dumpable all)
    (spelled : Spelled u.cols all) (shown : ∀ r ∈ u.scr.grid, r ∈ all)
    (split : all.drop (all.length - u.rows) = u.scr.grid) {base : Terminal}
    (fresh : Untouched u.rows u.cols cap base) (shows : Shows u u.rows u.cols all st base v) :
    ∃ modes cursor t', u.dumpModes = .ok modes ∧ u.dumpCursor st = .ok cursor ∧
      Draws files (modes ++ cursor) v t' ∧ u.Mirrors t' ∧ t'.profile = base.profile ∧
      t'.primary.scrollback.map (Row.look t'.hyperlinks) =
        ((all.take (all.length - u.rows)).map (Row.look u.hyperlinks)).rtake cap := by
  have same {α : Type} (f : Terminal → α) : f (framed base v) = f base := congrArg f shows.frame
  have setup : v.setup = .fresh u.rows u.cols := (same Terminal.setup).trans fresh.setup
  have primary : v.altActive = false := (same Terminal.altActive).trans fresh.onPrimary
  have keys : v.kittyPrimary = {} := (same Terminal.kittyPrimary).trans fresh.keys
  have shape : v.cursorStyleRaw = 0 := (same Terminal.cursorStyleRaw).trans fresh.shape
  have header : v.profile = base.profile := same Terminal.profile
  have grid := shows.grid
  rw [split] at grid
  obtain ⟨modes, cursor, t', modes_eq, cursor_eq, draws, closed⟩ :=
    draws_closing files lawful.catalogued lawful.clean.graphic lawful.sound lawful.settled
      lawful.pushed (pointable lawful dumpable.toShowable spelled shown) shows.sound setup primary keys shape
      shows.follows grid
  have on : t'.altActive = false :=
    (congrArg Profile.altActive (closed.profile.trans header)).trans fresh.onPrimary
  have off : ¬ t'.altActive = true := by
    rw [on]
    exact Bool.false_ne_true
  refine ⟨modes, cursor, t', modes_eq, cursor_eq, draws, ?_, closed.profile.trans header, ?_⟩
  · exact {
      rows := closed.size.1.trans shows.sound.rows_eq
      cols := closed.size.2.trans shows.sound.cols_eq
      grid := closed.copied.looks
      row := closed.row
      col := closed.col
      pending := closed.pending
      style := closed.style
      link := closed.link
      setup := closed.setup
      shape := closed.shape
      keys := (if_neg off).trans closed.keys }
  · obtain ⟨gone, scrolled, copied⟩ := shows.scrollback
    have start : base.scr = Screen.new u.rows u.cols cap := by
      unfold Terminal.scr
      rw [fresh.onPrimary, if_neg Bool.false_ne_true, fresh.primary]
    have active : t'.scr = t'.primary := if_neg off
    have kept : t'.primary.scrollback = gone.rtake cap := by
      rw [← active, closed.scrollback, scrolled, start]
      rfl
    have looks : gone.map (Row.look t'.hyperlinks) = _ := (copied.grow closed.grows).looks
    rw [kept, ← looks]
    unfold List.rtake
    rw [List.map_drop, List.length_map]

/-! ### The dumps -/

theorem dumpGraphics_bare (images : u.graphics.images = []) (placements : u.graphics.placements = []) :
    u.dumpGraphics = .ok [] := by
  unfold dumpGraphics dumpPlacements sortedImages
  rw [images, placements, List.mergeSort_nil]
  rfl

variable {text modes cursor : List Char}

theorem dumpVtImpl_full (active : u.altActive = false) (drawn : u.dumpPrimary {} = .ok (text, st))
    (bare : u.dumpGraphics = .ok []) (moded : u.dumpModes = .ok modes) (placed : u.dumpCursor st = .ok cursor) :
    u.dumpVtImpl false =
      .ok (u.dumpColors ++ u.dumpTitles ++ u.dumpPwd ++ u.seedAltKitty ++ text ++ (modes ++ cursor)) := by
  have off : ¬ u.altActive = true := by
    rw [active]
    exact Bool.false_ne_true
  have alt : u.dumpAlt st = .ok ([], st) := if_neg off
  unfold dumpVtImpl
  rw [if_neg Bool.false_ne_true, drawn]
  change ((u.dumpAlt st >>= _) >>= _) = _
  rw [alt]
  change (u.dumpGraphics >>= fun _ => u.dumpModes >>= fun _ => u.dumpCursor st >>= _) = _
  rw [bare, moded, placed]
  change Except.ok _ = _
  simp only [List.append_nil, List.append_assoc]

theorem dumpVtImpl_flat (drawn : u.drawGrid u.scr {} = .ok (text, st)) (bare : u.dumpGraphics = .ok [])
    (moded : u.dumpModes = .ok modes) (placed : u.dumpCursor st = .ok cursor) :
    u.dumpVtImpl true =
      .ok (u.dumpColors ++ u.dumpTitles ++ u.dumpPwd ++ ("\x1b[H".toList ++ text) ++ (modes ++ cursor)) := by
  unfold dumpVtImpl
  rw [if_pos rfl, drawn]
  change (u.dumpGraphics >>= fun _ => u.dumpModes >>= fun _ => u.dumpCursor st >>= _) = _
  rw [bare, moded, placed]
  change Except.ok _ = _
  simp only [List.append_nil, List.append_assoc]

end Terminal

end Posh.Term
