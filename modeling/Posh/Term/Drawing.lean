import Posh.Term.Inking
import Posh.Term.Looks
import Posh.Term.Pens

/-!
What the text of a dump draws.

The text of a row is read by a terminal that writes a page: the pen follows the pen of the
dump, and each character fills its cells. The links of the two terminals are numbered apart, so
cells are compared by what is seen of them.
-/

namespace Posh.Term

open Posh.Lib

/-! ### The pen -/

/-- The links known before are known by the same numbers. -/
structure Pen.Grows (pen pen' : Pen) : Prop where
  next : pen.next ≤ pen'.next
  kept : ∀ k ≤ pen.next, pen'.links.lookup k = pen.links.lookup k

namespace Pen

variable {pen pen' pen'' : Pen} {links : AssocMap Hyperlink} {st : EmitState} {link : Hyperlink}

/-- The pen with a link of its own number. -/
def recorded (link : Hyperlink) (pen : Pen) : Pen :=
  { pen with
    link := pen.next + 1, next := pen.next + 1, links := pen.links.insert (pen.next + 1) link }

/-- The links that are still unknown. -/
def missing (links : AssocMap Hyperlink) (pen : Pen) : List Hyperlink :=
  links.values.filter (· ∉ pen.links.values)

theorem missing_recorded (catalogue : Catalogue pen.links pen.next) (wanted : link ∈ links.values)
    (new : link ∉ pen.links.values) :
    ((pen.recorded link).missing links).length < (pen.missing links).length := by
  have values : (pen.recorded link).links.values = pen.links.values ++ [link] := by
    unfold recorded
    dsimp only
    rw [catalogue.insert_next]
    exact List.map_append
  have fewer : (pen.recorded link).missing links = (pen.missing links).filter (· ≠ link) := by
    unfold missing
    rw [values, List.filter_filter]
    refine List.filter_congr fun x _ => ?_
    simp only [List.mem_append, List.mem_singleton, not_or, Bool.decide_and]
    exact Bool.and_comm _ _
  rw [fewer]
  refine List.length_filter_lt_length_iff_exists.mpr ⟨link, ?_, by simp⟩
  exact List.mem_filter.mpr ⟨wanted, decide_eq_true new⟩

theorem grows_recorded (link : Hyperlink) (pen : Pen) : pen.Grows (pen.recorded link) :=
  ⟨Nat.le_succ _, fun _ known => Catalogue.lookup_add known⟩

theorem Grows.refl (pen : Pen) : pen.Grows pen :=
  ⟨Nat.le_refl _, fun _ _ => rfl⟩

theorem Grows.trans (h : pen.Grows pen') (h' : pen'.Grows pen'') : pen.Grows pen'' :=
  ⟨h.next.trans h'.next, fun k known => (h'.kept k (known.trans h.next)).trans (h.kept k known)⟩

end Pen

/-- The pen of a terminal that reads the dump of one with the links `links`: it holds what the
dump has set, and there are numbers left for the links that are still unknown. -/
structure Pen.Follows (links : AssocMap Hyperlink) (st : EmitState) (pen : Pen) : Prop where
  catalogue : Catalogue pen.links pen.next
  known : pen.link ≤ pen.next
  style : pen.style = st.style
  link : (pen.links.lookup pen.link).map (·.uri) = (links.lookup st.hyperlink).map (·.uri)
  room : (pen.missing links).length + pen.next < 2 ^ 32

/-- The parameters and the URI that open a link. -/
def Hyperlink.text (h : Hyperlink) : List Char :=
  (if h.id.isEmpty then [] else "id=".toList ++ h.id) ++ ';' :: h.uri

/-- The OSC 8 string that opens a link. -/
def Hyperlink.opening (h : Hyperlink) : List Char :=
  "\x1b]".toList ++ '8' :: ';' :: h.text ++ "\x1b\\".toList

namespace Terminal

variable {files : Files} {base t u : Terminal} {p p' p'' : Page} {pen pen' pen'' : Pen}
  {text more : List Char} {st : EmitState} {rows cols : Nat}

/-- A terminal that writes `p` reads `text` and has written `p'`. -/
def Inks (files : Files) (base : Terminal) (text : List Char) (p : Page) (pen : Pen) (p' : Page)
    (pen' : Pen) : Prop :=
  ∀ t, Drawn base p pen t → ∃ t', Draws files text t t' ∧ Drawn base p' pen' t'

namespace Inks

theorem nil (p : Page) (pen : Pen) : Inks files base [] p pen p pen :=
  fun t drawn => ⟨t, ⟨[], Parser.Reads.nil, rfl⟩, drawn⟩

theorem append (h : Inks files base text p pen p' pen') (h' : Inks files base more p' pen' p'' pen'') :
    Inks files base (text ++ more) p pen p'' pen'' := by
  intro t drawn
  obtain ⟨t', draws, drawn'⟩ := h t drawn
  obtain ⟨t'', draws', drawn''⟩ := h' t' drawn'
  exact ⟨t'', draws.append draws', drawn''⟩

/-- One action. -/
theorem one {action : Action} (reads : Parser.Reads (toUtf8 text) [action])
    (does : ∀ t, Drawn base p pen t → Yields (t.dispatch files action) (Drawn base p' pen')) :
    Inks files base text p pen p' pen' := by
  intro t drawn
  obtain ⟨t', eq, drawn'⟩ := does t drawn
  exact ⟨t', .one reads eq, drawn'⟩

end Inks

/-! ### Styles and links -/

/-- What the terminal writes with. -/
def ownPen (t : Terminal) : Pen where
  style := t.cursor.style
  link := t.cursor.hyperlink
  links := t.hyperlinks
  next := t.nextHyperlink

/-- Another pen, with the generation `g`. -/
def withPen (pen : Pen) (g : Nat) (t : Terminal) : Terminal :=
  { t with
    cursor.style := pen.style
    cursor.hyperlink := pen.link
    hyperlinks := pen.links
    nextHyperlink := pen.next
    generation := g }

theorem Inked.ownPen (h : Inked base p pen t) : t.ownPen = pen := by
  unfold Terminal.ownPen
  rw [h.style, h.link, h.links, h.next]

/-- Whatever reads `text` changes its pen and nothing else. -/
def Repens (files : Files) (text : List Char) (pen pen' : Pen) : Prop :=
  ∀ t, t.ownPen = pen → ∃ g, Draws files text t (t.withPen pen' g)

namespace Repens

theorem nil (pen : Pen) : Repens files [] pen pen := by
  rintro t rfl
  exact ⟨t.generation, [], Parser.Reads.nil, rfl⟩

theorem append (h : Repens files text pen pen') (h' : Repens files more pen' pen'') :
    Repens files (text ++ more) pen pen'' := by
  intro t own
  obtain ⟨g, draws⟩ := h t own
  obtain ⟨g', draws'⟩ := h' (t.withPen pen' g) rfl
  exact ⟨g', draws.append draws'⟩

/-- Where a terminal draws, too. -/
theorem inks (h : Repens files text pen pen') (p : Page) : Inks files base text p pen p pen' := by
  intro t drawn
  obtain ⟨g, draws⟩ := h t drawn.ownPen
  exact ⟨_, draws, ⟨drawn.frame, drawn.scr, drawn.row, rfl, rfl, rfl, rfl⟩, drawn.col, drawn.pending⟩

end Repens

theorem repens_emitProtect (guard : Bool) (pen : Pen) :
    Repens files (emitProtect guard) pen
      { pen with style := { pen.style with isProtected := guard } } := by
  rintro t rfl
  exact ⟨_, draws_emitProtect guard t⟩

theorem repens_emitSgr (style : Style) (pen : Pen) :
    Repens files (emitSgr style) pen
      { pen with style := { style with isProtected := pen.style.isProtected } } := by
  rintro t rfl
  exact ⟨_, draws_emitSgr style t⟩

/-- The style of the pen, set where it differs. -/
theorem repens_style (style : Style) (pen : Pen) :
    Repens files
      ((if style.isProtected ≠ pen.style.isProtected then emitProtect style.isProtected else []) ++
        if style ≠ { pen.style with isProtected := style.isProtected } then emitSgr style else [])
      pen { pen with style } := by
  have guarded : Repens files
      (if style.isProtected ≠ pen.style.isProtected then emitProtect style.isProtected else [])
      pen { pen with style := { pen.style with isProtected := style.isProtected } } := by
    split
    · exact repens_emitProtect style.isProtected pen
    · rename_i same
      have same := Decidable.not_not.mp same
      rw [same]
      exact .nil pen
  refine guarded.append ?_
  split
  · exact repens_emitSgr style _
  · rename_i same
    have same := Decidable.not_not.mp same
    rw [← same]
    exact .nil _

/-- An OSC string, which ST ends. -/
theorem draws_osc {text : List Char} (graphic : ∀ c ∈ text, Term.Graphic c)
    (fits : utf8Length text ≤ MAX_OSC) {t t' : Terminal}
    (does : t.oscDispatch (toUtf8 text) false = .ok t') :
    Draws files ("\x1b]".toList ++ text ++ "\x1b\\".toList) t t' := by
  have reads : Parser.Reads (toUtf8 ("\x1b]".toList ++ text ++ "\x1b\\".toList))
      [.osc (toUtf8 text) false, .esc [] 0x5C] := by
    rw [toUtf8_append, toUtf8_append, List.append_assoc]
    have read := (Parser.continues_osc_st (graphic_toUtf8 graphic)).reads
    unfold Parser.stringAction at read
    rwa [length_toUtf8, if_pos fits] at read
  refine ⟨_, reads, ?_⟩
  change (t.oscDispatch (toUtf8 text) false >>= _) = _
  rw [does]
  rfl

/-- An OSC command with its number. -/
theorem oscDispatch_code {code rest : List Char} {n : Nat} (absent : ';' ∉ code)
    (command : parseU16 code = some n) (bel : Bool) (t : Terminal) :
    t.oscDispatch (toUtf8 (code ++ ';' :: rest)) bel = t.oscCommand n rest bel := by
  unfold oscDispatch
  dsimp only
  rw [fromUtf8Lossy_toUtf8, splitOnce_append absent]
  dsimp only [Option.getD]
  rw [command]

/-- No link. -/
theorem repens_unlink (pen : Pen) :
    Repens files "\x1b]8;;\x1b\\".toList pen { pen with link := 0 } := by
  rintro t rfl
  exact ⟨t.generation, .literal rfl ⟨rfl, rfl⟩ rfl⟩

/-- A link is found in the table or put there. -/
theorem oscHyperlink_written {link : Hyperlink} (named : link.Named) (c : t.Catalogued)
    (room : link ∉ t.hyperlinks.values → t.nextHyperlink + 1 < 2 ^ 32) :
    Yields (t.oscHyperlink link.text) fun t' =>
      (∃ k, t.hyperlinks.lookup k = some link ∧ t' = t.opened k) ∨
        link ∉ t.hyperlinks.values ∧ t' = t.recorded link := by
  have parts : linkParts link.text = _ := linkParts_written named
  have same : namedLink link.text = link := by
    unfold namedLink
    rw [parts]
    dsimp only
    rw [linkId_written named.colon]
  have cases := oscHyperlink_cases c link.text
  rw [same, parts] at cases
  refine (cases.yields room).mono ?_
  rintro t' (⟨closed, -⟩ | found | ⟨-, new, -, eq⟩)
  · exact absurd closed named.uri
  · exact .inl found
  · exact .inr ⟨new, eq⟩

/-- The pen after a link has been opened. -/
structure Opens (links : AssocMap Hyperlink) (link : Hyperlink) (pen pen' : Pen) : Prop where
  style : pen'.style = pen.style
  grows : pen.Grows pen'
  catalogue : Catalogue pen'.links pen'.next
  found : pen'.links.lookup pen'.link = some link
  room : (pen'.missing links).length + pen'.next < 2 ^ 32

theorem repens_link (pen : Pen) {links : AssocMap Hyperlink} {link : Hyperlink} (named : link.Named)
    (graphic : link.Graphic) (fits : utf8Length ('8' :: ';' :: link.text) ≤ MAX_OSC)
    (wanted : link ∈ links.values) (catalogue : Catalogue pen.links pen.next)
    (room : (pen.missing links).length + pen.next < 2 ^ 32) :
    ∃ pen', Repens files link.opening pen pen' ∧ Opens links link pen pen' := by
  have text : ∀ c ∈ ['8'] ++ ';' :: link.text, Term.Graphic c := by
    unfold Hyperlink.text
    intro c mem
    simp only [List.mem_append, List.mem_cons, List.not_mem_nil, or_false] at mem
    rcases mem with rfl | rfl | params | rfl | uri
    · decide
    · decide
    · split at params
      · exact absurd params List.not_mem_nil
      · rcases List.mem_append.mp params with key | id
        · exact forall_of_all (s := "id=".toList) rfl c key
        · exact graphic.1 c id
    · decide
    · exact graphic.2 c uri
  have roomy (new : link ∉ pen.links.values) : pen.next + 1 < 2 ^ 32 := by
    have some_ : 0 < (pen.missing links).length :=
      List.length_pos_of_mem (List.mem_filter.mpr ⟨wanted, decide_eq_true new⟩)
    omega
  have written (t : Terminal) (own : t.ownPen = pen) :
      Yields (t.oscDispatch (toUtf8 (['8'] ++ ';' :: link.text)) false) fun t' =>
        (∃ k, pen.links.lookup k = some link ∧ t' = t.opened k) ∨
          link ∉ pen.links.values ∧ t' = t.recorded link := by
    subst own
    rw [oscDispatch_code (by decide) rfl]
    exact oscHyperlink_written named catalogue roomy
  by_cases mem : link ∈ pen.links.values
  · obtain ⟨k, found⟩ := catalogue.number_of_mem mem
    refine ⟨{ pen with link := k }, ?_, rfl, ⟨Nat.le_refl _, fun _ _ => rfl⟩, catalogue, found, room⟩
    intro t own
    obtain ⟨t', eq, ⟨k', found', rfl⟩ | ⟨new, -⟩⟩ := written t own
    · rw [catalogue.number_unique found' found] at eq
      subst own
      exact ⟨t.generation, draws_osc text fits eq⟩
    · exact absurd mem new
  · have less := Pen.missing_recorded catalogue wanted mem
    refine ⟨pen.recorded link, ?_, rfl, Pen.grows_recorded link pen,
      catalogue.add named mem (roomy mem), ?_, ?_⟩
    · intro t own
      obtain ⟨t', eq, ⟨k, found, -⟩ | ⟨-, rfl⟩⟩ := written t own
      · exact absurd (List.mem_map_of_mem (AssocMap.mem_of_lookup found)) mem
      · subst own
        exact ⟨t.generation, draws_osc text fits eq⟩
    · exact (AssocMap.lookup_insert ..).trans (if_pos rfl)
    · change _ + (pen.next + 1) < _
      omega

/-- The text that opens the link fits into an OSC string. -/
def Linkable (id : Nat) (t : Terminal) : Prop :=
  ∀ h, t.hyperlinks.lookup id = some h → utf8Length ('8' :: ';' :: h.text) ≤ MAX_OSC

theorem emitHyperlink_none {id : Nat} (none : u.hyperlinks.lookup id = none) :
    u.emitHyperlink id = "\x1b]8;;\x1b\\".toList := by
  unfold emitHyperlink
  rw [none]

theorem emitHyperlink_some (c : u.Catalogued) {id : Nat} {h : Hyperlink}
    (found : u.hyperlinks.lookup id = some h) :
    u.emitHyperlink id = h.opening := by
  have number : id ≠ 0 := by
    rintro rfl
    rw [c.lookup_zero] at found
    cases found
  unfold emitHyperlink Hyperlink.opening Hyperlink.text
  rw [found]
  dsimp only
  rw [if_pos number]
  simp only [List.append_assoc, List.cons_append]
  rfl

/-- The pen moves to a style and a link. -/
theorem repens_emitPen (c : u.Catalogued) (graphic : u.Graphic) (follows : pen.Follows u.hyperlinks st)
    (style : Style) {id : Nat} (linkable : u.Linkable id) :
    ∃ pen', Repens files (u.emitPen style id st).1 pen pen' ∧
      pen'.Follows u.hyperlinks { style, hyperlink := id } ∧ pen.Grows pen' := by
  have styled : Repens files _ pen { pen with style } := repens_style style pen
  rw [follows.style] at styled
  unfold emitPen
  dsimp only
  by_cases same : id = st.hyperlink
  · rw [if_neg (not_not.mpr same), List.append_nil]
    exact ⟨_, styled, { follows with style := rfl, link := same ▸ follows.link },
      ⟨Nat.le_refl _, fun _ _ => rfl⟩⟩
  · rw [if_pos same]
    cases found : u.hyperlinks.lookup id with
    | none =>
      rw [emitHyperlink_none found]
      refine ⟨_, styled.append (repens_unlink _), ?_, ⟨Nat.le_refl _, fun _ _ => rfl⟩⟩
      refine { follows with style := rfl, known := Nat.zero_le _, link := ?_ }
      change (pen.links.lookup 0).map _ = (u.hyperlinks.lookup id).map _
      rw [follows.catalogue.lookup_zero, found]
    | some h =>
      have mem := AssocMap.mem_of_lookup found
      rw [emitHyperlink_some c found]
      obtain ⟨pen', repens, opens⟩ : ∃ pen', Repens files h.opening { pen with style } pen' ∧
          Opens u.hyperlinks h { pen with style } pen' :=
        repens_link { pen with style } (c.named_of_lookup found) (graphic.hyperlinks _ mem)
          (linkable h found) (List.mem_map_of_mem (f := Prod.snd) mem) follows.catalogue follows.room
      refine ⟨pen', styled.append repens, ⟨opens.catalogue, ?_, opens.style, ?_, opens.room⟩,
        ⟨opens.grows.next, opens.grows.kept⟩⟩
      · exact (opens.catalogue.numbered _ (AssocMap.mem_of_lookup opens.found)).2
      · rw [opens.found, found]

variable (files) in
/-- The pen back in its first state. -/
theorem repens_resetPen (c : u.Catalogued) (follows : pen.Follows u.hyperlinks st) :
    ∃ pen', Repens files (resetPen st).1 pen pen' ∧ pen'.Follows u.hyperlinks {} ∧ pen.Grows pen' ∧
      pen'.style = {} := by
  have guarded : Repens files (if st.style.isProtected then emitProtect false else []) pen
      { pen with style := { st.style with isProtected := false } } := by
    rw [← follows.style]
    split
    · exact repens_emitProtect false pen
    · rename_i bare
      have bare : pen.style.isProtected = false := Bool.eq_false_iff.mpr bare
      rw [← bare]
      exact .nil pen
  have styled : Repens files
      (if ({ st.style with isProtected := false } : Style) ≠ {} then "\x1b[0m".toList else [])
      { pen with style := { st.style with isProtected := false } } { pen with style := {} } := by
    split
    · exact repens_emitSgr {} _
    · rename_i same
      rw [Decidable.not_not.mp same]
      exact .nil _
  have none : u.hyperlinks.lookup 0 = none := c.lookup_zero
  by_cases closed : st.hyperlink = 0
  · have same : (resetPen st).1 = (if st.style.isProtected then emitProtect false else []) ++
        (if ({ st.style with isProtected := false } : Style) ≠ {} then "\x1b[0m".toList else []) := by
      unfold resetPen
      dsimp only
      rw [if_neg (not_not.mpr closed), List.append_nil]
    rw [same]
    have link := follows.link
    rw [closed] at link
    exact ⟨_, guarded.append styled, { follows with style := rfl, link }, ⟨Nat.le_refl _, fun _ _ => rfl⟩,
      rfl⟩
  · have same : (resetPen st).1 = (if st.style.isProtected then emitProtect false else []) ++
        (if ({ st.style with isProtected := false } : Style) ≠ {} then "\x1b[0m".toList else []) ++
        "\x1b]8;;\x1b\\".toList := by
      unfold resetPen
      dsimp only
      rw [if_pos closed]
    rw [same]
    refine ⟨_, (guarded.append styled).append (repens_unlink _), ?_,
      ⟨Nat.le_refl _, fun _ _ => rfl⟩, rfl⟩
    refine { follows with style := rfl, known := Nat.zero_le _, link := ?_ }
    change (pen.links.lookup 0).map _ = (u.hyperlinks.lookup 0).map _
    rw [follows.catalogue.lookup_zero, none]

/-! ### Characters -/

/-- A character that is no control, which the parser prints. -/
structure Prints (c : Char) : Prop where
  graphic : Term.Graphic c
  delete : c ≠ '\x7f'
  control : ¬ IsC1 c

theorem Prints.reads {c : Char} (prints : Prints c) : Parser.Reads (toUtf8 [c]) [.print c] := by
  have read := Parser.reads_char prints.graphic fun same => prints.delete (Char.toNat_inj.mp same)
  rwa [← List.append_nil (String.utf8EncodeChar c)] at read

theorem inks_char (canvas : Canvas rows cols base) (fits : p.Fits rows cols) {c : Char}
    (prints : Prints c) {w : Nat} (width : wcwidth c = w) (visible : w = 1 ∨ w = 2)
    (room : (p.wrap cols pen.blank).here.length + w ≤ cols) :
    Inks files base [c] p pen ((p.wrap cols pen.blank).put (pen.cell c w)) pen :=
  .one prints.reads fun _ drawn => drawn.print canvas fits prints.control width visible room

/-- A mark for the character before the cursor. -/
theorem inks_mark (canvas : Canvas rows cols base) (fits : p.Fits rows cols) {before : List Cell}
    {cell : Cell} {w : Nat} (width : cell.width = w) (visible : w = 1 ∨ w = 2)
    (here : p.here = before ++ cell.spread) {c : Char} (prints : Prints c) (zero : wcwidth c = 0) :
    Inks files base [c] p pen (p.write (before ++ (cell.marked c).spread)) pen := by
  refine .one prints.reads ?_
  intro t drawn
  have char : t.mapCharset c = c := (drawn.same (·.mapCharset c) rfl).trans (canvas.ascii c)
  change Yields (t.print c) _
  have control : ¬ (0x80 ≤ c.toNat ∧ c.toNat < 0xA0) := prints.control
  unfold Terminal.print
  rw [if_neg control]
  dsimp only
  rw [char, zero, if_pos rfl]
  exact drawn.combine canvas fits width visible here c

/-- All marks of a character. -/
theorem inks_marks (canvas : Canvas rows cols base) {before : List Cell} {w : Nat}
    (visible : w = 1 ∨ w = 2) {marks : List Char} (prints : ∀ c ∈ marks, Prints c)
    (zero : ∀ c ∈ marks, wcwidth c = 0) {cell : Cell} (width : cell.width = w)
    (fits : p.Fits rows cols) (here : p.here = before ++ cell.spread) :
    Inks files base marks p pen
      (p.write (before ++ Cell.spread { cell with extra := cell.extra ++ marks })) pen := by
  induction marks generalizing p cell with
  | nil =>
    rw [List.append_nil, ← here]
    exact .nil p pen
  | cons c marks ih =>
    have first : Inks files base [c] p pen (p.write (before ++ (cell.marked c).spread)) pen :=
      inks_mark canvas fits width visible here (prints c List.mem_cons_self)
        (zero c List.mem_cons_self)
    have room : (before ++ (cell.marked c).spread).length ≤ cols := by
      have room := fits.here
      rw [here, List.length_append] at room
      rw [List.length_append, Page.length_spread_marked]
      exact room
    have all : (cell.marked c).extra ++ marks = cell.extra ++ c :: marks := by
      unfold Cell.marked
      rw [List.append_assoc]
      rfl
    have later : Inks files base marks (p.write (before ++ (cell.marked c).spread)) pen
        (p.write (before ++ Cell.spread { cell with extra := cell.extra ++ c :: marks })) pen := by
      rw [← all]
      exact ih (fun x mem => prints x (List.mem_cons_of_mem _ mem))
        (fun x mem => zero x (List.mem_cons_of_mem _ mem)) (show (cell.marked c).width = w from width)
        (fits.write room) rfl
    exact first.append later

/-- A character that the replay of `u` can write. -/
structure Drawable (u : Terminal) (c : Cell) : Prop where
  printed : c.Printed
  visible : c.width = 1 ∨ c.width = 2
  char : Prints c.ch
  marks : ∀ x ∈ c.extra, Prints x
  linkable : u.Linkable c.hyperlink

theorem Drawable.shownChar {c : Cell} (h : Drawable u c) : Terminal.shownChar c = c.ch := by
  refine if_neg ?_
  intro zero
  have graphic := h.char.graphic
  rw [zero] at graphic
  revert graphic
  decide

/-- The background of a cell. -/
def backdrop (c : Cell) : Style :=
  { bg := c.style.bg }

/-- Cells that look like those of the terminal the dump is of. -/
structure Resembles (u : Terminal) (pen : Pen) (cells copies : List Cell) : Prop where
  looks : copies.map (Cell.look pen.links) = cells.map (Cell.look u.hyperlinks)
  known : ∀ c ∈ copies, c.hyperlink ≤ pen.next

namespace Resembles

variable {cells copies more moreCopies : List Cell}

theorem nil : Resembles u pen [] [] where
  looks := rfl
  known _ mem := absurd mem List.not_mem_nil

theorem length (h : Resembles u pen cells copies) : copies.length = cells.length := by
  have same := congrArg List.length h.looks
  rwa [List.length_map, List.length_map] at same

theorem append (h : Resembles u pen cells copies) (h' : Resembles u pen more moreCopies) :
    Resembles u pen (cells ++ more) (copies ++ moreCopies) where
  looks := by rw [List.map_append, List.map_append, h.looks, h'.looks]
  known := by
    intro c mem
    rcases List.mem_append.mp mem with first | later
    · exact h.known c first
    · exact h'.known c later

/-- The links known are kept. -/
theorem grow (h : Resembles u pen cells copies) (grows : pen.Grows pen') :
    Resembles u pen' cells copies where
  looks := by
    rw [← h.looks]
    refine List.map_congr_left fun c mem => ?_
    unfold Cell.look
    rw [grows.kept _ (h.known c mem)]
  known c mem := (h.known c mem).trans grows.next

end Resembles

/-- What a pen writes for a character. -/
theorem resembles_cell {c : Cell} (follows : pen.Follows u.hyperlinks ⟨c.style, c.hyperlink⟩) :
    Resembles u pen c.spread (Cell.spread { pen.cell c.ch c.width with extra := c.extra }) := by
  have head : Cell.look pen.links { pen.cell c.ch c.width with extra := c.extra } =
      c.look u.hyperlinks := by
    unfold Cell.look Pen.cell
    rw [follows.style, follows.link]
  have spacer : Cell.look pen.links (Cell.spacer { pen.cell c.ch c.width with extra := c.extra }) =
      c.spacer.look u.hyperlinks := by
    unfold Cell.look Cell.spacer Pen.cell
    rw [follows.style, follows.link]
  unfold Cell.spread
  change Resembles u pen _ (if c.width = 2 then _ else _)
  split
  · refine ⟨?_, ?_⟩
    · rw [List.map_cons, List.map_singleton, head, spacer]
      rfl
    · intro x mem
      rcases List.mem_cons.mp mem with rfl | mem
      · exact follows.known
      · rw [List.mem_singleton.mp mem]
        exact follows.known
  · refine ⟨?_, ?_⟩
    · rw [List.map_singleton, head]
      rfl
    · intro x mem
      rw [List.mem_singleton.mp mem]
      exact follows.known

/-- A character, with the pen moved to it. -/
theorem inks_emitCell (canvas : Canvas rows cols base) (catalogued : u.Catalogued)
    (graphic : u.Graphic) (follows : pen.Follows u.hyperlinks st) (fits : p.Fits rows cols) {c : Cell}
    (drawable : Drawable u c)
    (room : (p.wrap cols (backdrop c)).here.length + c.width ≤ cols) :
    ∃ pen' copies, Inks files base (u.emitCell c st).1 p pen
        ((p.wrap cols (backdrop c)).write ((p.wrap cols (backdrop c)).here ++ copies)) pen' ∧
      pen'.Follows u.hyperlinks (u.emitCell c st).2 ∧ pen.Grows pen' ∧
      Resembles u pen' c.spread copies := by
  have visible := drawable.visible
  obtain ⟨pen', moved, follows', grows⟩ : ∃ pen',
      Repens files (u.emitPen c.style c.hyperlink st).1 pen pen' ∧
        pen'.Follows u.hyperlinks ⟨c.style, c.hyperlink⟩ ∧ pen.Grows pen' :=
    repens_emitPen catalogued graphic follows c.style drawable.linkable
  have emitted : u.emitCell c st = ((u.emitPen c.style c.hyperlink st).1 ++ c.ch :: c.extra,
      ⟨c.style, c.hyperlink⟩) := by
    unfold emitCell
    rw [if_neg (by omega), drawable.shownChar]
    rfl
  have blank : pen'.blank = backdrop c := by
    unfold Pen.blank backdrop
    rw [follows'.style]
  have char : Inks files base [c.ch] p pen'
      ((p.wrap cols pen'.blank).put (pen'.cell c.ch c.width)) pen' :=
    inks_char canvas fits drawable.char drawable.printed.width.symm visible (blank ▸ room)
  have wrapped := fits.wrap (backdrop c)
  have marks : Inks files base c.extra ((p.wrap cols (backdrop c)).put (pen'.cell c.ch c.width)) pen'
      (((p.wrap cols (backdrop c)).put (pen'.cell c.ch c.width)).write
        ((p.wrap cols (backdrop c)).here ++
          Cell.spread { pen'.cell c.ch c.width with extra := [] ++ c.extra })) pen' :=
    inks_marks canvas visible drawable.marks (fun x mem => (drawable.printed.marks x mem).1) rfl
      (wrapped.put rfl visible room) rfl
  rw [blank] at char
  rw [emitted]
  exact ⟨pen', _, (moved.inks p).append (char.append marks), follows', grows, resembles_cell follows'⟩

end Terminal

end Posh.Term
