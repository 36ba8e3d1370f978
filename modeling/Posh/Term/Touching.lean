import Posh.Term.Edge
import Posh.Term.Process
import Posh.Term.SoundCsi

/-!
Which controls raise the generation, and what they leave of the rows.

Cells and cursors carry the numbers of links. A control passes on numbers that the
terminal carries already, so that no cell knows the number OSC 8 gives out next; and none
leaves a wide character at the end of a row. The same pass over the controls tells which
of them raise the generation whatever they do; of those that end early, what they leave is
the terminal they found.
-/

namespace Posh.Term

open Posh.Lib

/-- The fields that carry links, and the last number given out. -/
structure Linkage where
  primary : Screen
  alt : Screen
  cursor : Nat
  savedPrimary : Nat
  savedAlt : Nat
  hyperlinks : AssocMap Hyperlink
  nextHyperlink : Nat

/-- The cell's link is no later than `n`, and it is a character's, its spacer or a space. -/
structure Cell.Within (n : Nat) (c : Cell) : Prop where
  link : c.hyperlink ≤ n
  width : c.width ≤ 2

/-- No link past `n`. -/
structure Linkage.Within (n : Nat) (l : Linkage) : Prop where
  primary : l.primary.Every (Screen.Cells (Cell.Within n))
  alt : l.alt.Every (Screen.Cells (Cell.Within n))
  cursor : l.cursor ≤ n
  savedPrimary : l.savedPrimary ≤ n
  savedAlt : l.savedAlt ≤ n
  hyperlinks : ∀ e ∈ l.hyperlinks, e.1 ≤ n

theorem blank_within (n : Nat) (style : Style) : (Cell.blank style).Within n :=
  ⟨Nat.zero_le n, show 1 ≤ 2 by decide⟩

theorem blanks_within (n width : Nat) (style : Style) :
    Screen.Cells (Cell.Within n) (List.replicate width (Cell.blank style)) :=
  Screen.cells_blank (blank_within n) width style

namespace Terminal

variable {K : Parser → GraphicsState → Prop} {rows cols : Nat} {t t' t'' : Terminal}

def linkage (t : Terminal) : Linkage where
  primary := t.primary
  alt := t.alt
  cursor := t.cursor.hyperlink
  savedPrimary := t.savedPrimary.cursor.hyperlink
  savedAlt := t.savedAlt.cursor.hyperlink
  hyperlinks := t.hyperlinks
  nextHyperlink := t.nextHyperlink

def LinksWithin (n : Nat) (t : Terminal) : Prop :=
  t.linkage.Within n

/-- Every link the terminal carries has been given out. -/
def Linked (t : Terminal) : Prop :=
  t.LinksWithin t.nextHyperlink

theorem linked_withScrollback (rows cols scrollback : Nat) :
    (withScrollback rows cols scrollback).Linked :=
  ⟨Screen.every_new (blanks_within _) _ _ _, Screen.every_new (blanks_within _) _ _ _,
    Nat.le_refl _, Nat.le_refl _, Nat.le_refl _, nofun⟩

theorem edged_withScrollback (rows cols scrollback : Nat) :
    (withScrollback rows cols scrollback).Edged :=
  ⟨Screen.every_new edge_blanks _ _ _, Screen.every_new edge_blanks _ _ _⟩

/-- Brings no link in, and never lowers the generation. -/
structure Passes (t t' : Terminal) : Prop where
  links : ∀ n, t.LinksWithin n → t'.LinksWithin n
  next : t'.nextHyperlink = t.nextHyperlink
  grows : t.generation ≤ t'.generation

/-- Leaves no wide character at the end of a row, besides. -/
structure Edits (t t' : Terminal) : Prop extends Passes t t' where
  edge : t.Edged → t'.Edged

theorem Passes.refl (t : Terminal) : t.Passes t :=
  ⟨fun _ => id, rfl, Nat.le_refl _⟩

theorem Passes.trans (h : t.Passes t') (h' : t'.Passes t'') : t.Passes t'' :=
  ⟨fun n within => h'.links n (h.links n within), h'.next.trans h.next, h.grows.trans h'.grows⟩

theorem Edits.refl (t : Terminal) : t.Edits t :=
  ⟨.refl t, id⟩

theorem Edits.trans (h : t.Edits t') (h' : t'.Edits t'') : t.Edits t'' :=
  ⟨h.toPasses.trans h'.toPasses, fun edged => h'.edge (h.edge edged)⟩

theorem edged_of_eq (linkage : t'.linkage = t.linkage) (edged : t.Edged) : t'.Edged := by
  have primary : t'.primary = t.primary := congrArg Linkage.primary linkage
  have alt : t'.alt = t.alt := congrArg Linkage.alt linkage
  exact ⟨primary ▸ edged.primary, alt ▸ edged.alt⟩

/-- A change of other fields. -/
theorem edits_of_eq (linkage : t'.linkage = t.linkage) (generation : t'.generation = t.generation) :
    t.Edits t' :=
  ⟨⟨fun n within => show t'.linkage.Within n from linkage ▸ within,
    congrArg Linkage.nextHyperlink linkage, Nat.le_of_eq generation.symm⟩, edged_of_eq linkage⟩

/-- A change of the cursors. -/
theorem edits_of_cursors (links : ∀ n, t.LinksWithin n → t'.LinksWithin n)
    (screens : (t'.primary, t'.alt) = (t.primary, t.alt)) (next : t'.nextHyperlink = t.nextHyperlink)
    (generation : t'.generation = t.generation) : t.Edits t' := by
  obtain ⟨primary, alt⟩ := Prod.mk.inj screens
  refine ⟨⟨links, next, Nat.le_of_eq generation.symm⟩, fun edged => ⟨?_, ?_⟩⟩
  · rw [primary]
    exact edged.primary
  · rw [alt]
    exact edged.alt

theorem Edits.linked (h : t.Edits t') (linked : t.Linked) : t'.Linked := by
  unfold Linked
  rw [h.next]
  exact h.links _ linked

/-- An edit that raises the generation. -/
structure Touches (t t' : Terminal) : Prop where
  edits : t.Edits t'
  later : t.generation < t'.generation

theorem Edits.touch (h : t.Edits t') : t.Touches t'.touch :=
  ⟨⟨⟨h.links, h.next, h.grows.trans (Nat.le_succ _)⟩,
    fun edged => ⟨(h.edge edged).primary, (h.edge edged).alt⟩⟩, Nat.lt_succ_of_le h.grows⟩

theorem touches_of_eq (linkage : t'.linkage = t.linkage)
    (generation : t'.generation = t.generation + 1) : t.Touches t' :=
  ⟨⟨⟨fun n within => show t'.linkage.Within n from linkage ▸ within,
    congrArg Linkage.nextHyperlink linkage, Nat.le_of_lt (by omega)⟩, edged_of_eq linkage⟩, by omega⟩

theorem Edits.touches (h : t.Edits t') (h' : t'.Touches t'') : t.Touches t'' :=
  ⟨h.trans h'.edits, Nat.lt_of_le_of_lt h.grows h'.later⟩

theorem Touches.after (h : t.Touches t') (h' : t'.Edits t'') : t.Touches t'' :=
  ⟨h.edits.trans h', Nat.lt_of_lt_of_le h.later h'.grows⟩

/-- Raises the generation or does nothing. -/
def MayTouch (t t' : Terminal) : Prop :=
  t' = t ∨ t.Touches t'

theorem MayTouch.edits (h : t.MayTouch t') : t.Edits t' := by
  rcases h with rfl | touches
  · exact .refl t'
  · exact touches.edits

/-- Goes on from a terminal that was edited. -/
theorem Edits.then {x : Checked Terminal} (h : t.Edits t') (hx : Guarded False x t'.Edits) :
    Guarded False x t.Edits :=
  hx.mono fun _ => h.trans

theorem Edits.thenTouches {x : Checked Terminal} (h : t.Edits t')
    (hx : Guarded False x t'.Touches) : Guarded False x t.Touches :=
  hx.mono fun _ => h.touches

/-- What is known of a terminal after edits that end in a touch. -/
theorem touches_of_edits {x : Checked Terminal} (hx : Guarded False x t.Edits) :
    Guarded False (x >>= fun t => return t.touch) t.Touches :=
  hx.bind fun _ edits => .pure edits.touch

theorem edits_of_touches {x : Checked Terminal} (hx : Guarded False x t.Touches) :
    Guarded False x t.Edits :=
  hx.mono fun _ => Touches.edits

theorem edits_home (t : Terminal) : t.Edits { t with cursor.col := 0 } :=
  edits_of_eq rfl rfl

theorem edits_settled (t : Terminal) : t.Edits { t with cursor.pendingWrap := false } :=
  edits_of_eq rfl rfl

/-! ### The active screen -/

/-- The cells written may carry the links of the terminal before. -/
theorem Passes.modifyScr (h : t.Passes t') {f : Screen → Checked Screen}
    (links : ∀ n, t.LinksWithin n → t'.scr.Every (Screen.Cells (Cell.Within n)) →
      Guarded False (f t'.scr) (·.Every (Screen.Cells (Cell.Within n)))) :
    Guarded False (t'.modifyScr f) t.Passes := by
  unfold Terminal.modifyScr
  cases result : f t'.scr with
  | error panic => exact .error id
  | ok s =>
    refine .pure ?_
    by_cases alt : t'.altActive = true
    · rw [if_pos alt]
      refine ⟨fun n within => { h.links n within with alt := ?_ }, h.next, h.grows⟩
      refine (links n within ?_).of_eq_ok result
      unfold scr
      rw [if_pos alt]
      exact (h.links n within).alt
    · rw [if_neg alt]
      refine ⟨fun n within => { h.links n within with primary := ?_ }, h.next, h.grows⟩
      refine (links n within ?_).of_eq_ok result
      unfold scr
      rw [if_neg alt]
      exact (h.links n within).primary

theorem Edits.modifyScr (h : t.Edits t') {f : Screen → Checked Screen}
    (links : ∀ n, t.LinksWithin n → t'.scr.Every (Screen.Cells (Cell.Within n)) →
      Guarded False (f t'.scr) (·.Every (Screen.Cells (Cell.Within n))))
    (edge : t'.scr.Every Edge → Guarded False (f t'.scr) (·.Every Edge)) :
    Guarded False (t'.modifyScr f) t.Edits := by
  have edged : Guarded False (t'.modifyScr f) fun t'' => t.Edged → t''.Edged := by
    refine .imp fun before => ?_
    have edged' := h.edge before
    exact modifyScr_edged (edged'.but 0) (edge edged'.scr)
  exact ((h.toPasses.modifyScr links).and edged).mono fun _ both => ⟨both.1, both.2⟩

/-- An operation that moves rows and makes blank ones. -/
theorem Edits.moveRows (h : t.Edits t') {f : Screen → Checked Screen}
    (keeps : ∀ P : List Cell → Prop, (∀ n style, P (List.replicate n (Cell.blank style))) →
      t'.scr.Every P → Guarded False (f t'.scr) (·.Every P)) :
    Guarded False (t'.modifyScr f) t.Edits :=
  h.modifyScr (fun n _ => keeps _ (blanks_within n)) (keeps _ edge_blanks)

/-- A write to one cell, which the link of the cell and its width survive. -/
theorem Edits.modifyCell (h : t.Edits t') {row col : Nat} {f : Cell → Cell}
    (link : ∀ c, (f c).hyperlink = c.hyperlink ∨ (f c).hyperlink = 0)
    (width : ∀ c, (f c).width = c.width ∨ (f c).width = 1) :
    Guarded False (t'.modifyScr (·.modifyCell row col f)) t.Edits := by
  refine h.modifyScr (fun n _ every => Screen.modifyCell_every every ?_) fun every =>
    Screen.modifyCell_edge every ?_
  · intro c within
    refine ⟨?_, ?_⟩
    · rcases link c with same | none
      · exact same ▸ within.link
      · exact none ▸ Nat.zero_le n
    · rcases width c with same | one
      · exact same ▸ within.width
      · omega
  · intro c narrow
    rcases width c with same | one
    · exact same ▸ narrow
    · omega

/-- The cell written may carry a link of the terminal before the edits. -/
theorem Edits.setCell (h : t.Edits t') {row col : Nat} {c : Cell}
    (within : ∀ n, t.LinksWithin n → c.Within n) (narrow : c.width ≠ 2) :
    Guarded False (t'.modifyScr (·.setCell row col c)) t.Edits :=
  h.modifyScr (fun n links every => Screen.modifyCell_every every fun _ _ => within n links)
    fun every => Screen.setCell_edge every narrow

theorem setBlank_edits {row col : Nat} (style : Style) (t : Terminal) :
    Guarded False (t.modifyScr (·.setCell row col (Cell.blank style))) t.Edits :=
  (Edits.refl t).setCell (fun n _ => blank_within n style) (show (1 : Nat) ≠ 2 by decide)

theorem scrollUpN_touches (n : Nat) (t : Terminal) : Guarded False (t.scrollUpN n) t.Touches := by
  unfold scrollUpN
  apply (Guarded.trivial _).bind
  rintro ⟨top, bot⟩ _
  apply (Guarded.trivial _).bind
  intro last _
  exact touches_of_edits ((Edits.refl t).moveRows fun P blank every =>
    Screen.scrollUp_every blank every)

theorem scrollDownN_touches (n : Nat) (t : Terminal) :
    Guarded False (t.scrollDownN n) t.Touches := by
  unfold scrollDownN
  apply (Guarded.trivial _).bind
  rintro ⟨top, bot⟩ _
  exact touches_of_edits ((Edits.refl t).moveRows fun P blank every =>
    Screen.scrollDown_every blank every)

/-! ### Moving down and up -/

theorem index_touches (t : Terminal) : Guarded False t.index t.Touches := by
  have still := edits_settled t
  unfold index
  apply (Guarded.trivial _).bind
  rintro ⟨top, bot⟩ _
  dsimp only
  split
  · exact touches_of_edits (still.then (edits_of_touches (scrollUpN_touches 1 _)))
  · apply (Guarded.trivial _).bind
    intro below _
    refine .pure (Edits.touch ?_)
    split
    · exact edits_of_eq rfl rfl
    · exact still

theorem reverseIndex_touches (t : Terminal) : Guarded False t.reverseIndex t.Touches := by
  have still := edits_settled t
  unfold reverseIndex
  apply (Guarded.trivial _).bind
  rintro ⟨top, bot⟩ _
  dsimp only
  split
  · exact touches_of_edits (still.then (edits_of_touches (scrollDownN_touches 1 _)))
  · exact .pure (touches_of_eq rfl rfl)

theorem linefeed_touches (t : Terminal) : Guarded False t.linefeed t.Touches := by
  refine (index_touches t).bind ?_
  intro t' touches
  refine .pure (touches.after ?_)
  split
  · exact edits_home t'
  · exact .refl t'

theorem horizontalTab_touches (t : Terminal) : Guarded False t.horizontalTab t.Touches := by
  unfold horizontalTab
  apply (Guarded.trivial _).bind
  intro col _
  exact .pure (touches_of_eq rfl rfl)

/-! ### Printing -/

theorem combine_mayTouch (c : Char) (t : Terminal) : Guarded False (t.combine c) t.MayTouch := by
  unfold combine
  split
  · exact .ok (.inl rfl)
  · refine Guarded.bind (p := t.Edits) ((Edits.refl t).modifyCell ?_ ?_) ?_
    · exact fun _ => .inl rfl
    · exact fun _ => .inl rfl
    · intro t' edits
      exact .pure (.inr edits.touch)

theorem wrapLine_touches (t : Terminal) : Guarded False t.wrapLine t.Touches := by
  refine ((Edits.refl t).moveRows fun P _ every => Screen.setWrapped_every every).bind ?_
  intro t' edits
  exact (edits.trans (edits_home t')).thenTouches (index_touches _)

theorem wrapPending_edits (t : Terminal) : Guarded False t.wrapPending t.Edits := by
  unfold wrapPending
  split
  · dsimp only
    split
    · exact (edits_settled t).then (edits_of_touches (wrapLine_touches _))
    · exact .ok (edits_settled t)
  · exact .ok (.refl t)

theorem fitWide_edits (w : Nat) (t : Terminal) :
    Guarded False (t.fitWide w) fun fitted => ∀ t' ∈ fitted, t.Edits t' := by
  have one {t₁ : Terminal} (edits : t.Edits t₁) : ∀ t' ∈ some t₁, t.Edits t' := by
    rintro _ ⟨⟩
    exact edits
  unfold fitWide
  apply (Guarded.trivial _).bind
  intro next _
  split
  · split
    · refine (setBlank_edits _ t).bind ?_
      intro t₁ edits₁
      refine (edits₁.then (edits_of_touches (wrapLine_touches t₁))).bind ?_
      intro t₂ edits₂
      exact .pure (one edits₂)
    split
    · apply (Guarded.trivial _).bind
      intro col _
      exact .pure (one (edits_of_eq rfl rfl))
    · exact .pure fun _ mem => absurd mem (Option.not_mem_none _)
  · exact .pure (one (.refl t))

theorem repairCell_edits (row : Nat) (style : Style) (c : Nat) (t : Terminal) :
    Guarded False (t.repairCell row style c) t.Edits := by
  unfold repairCell
  apply (Guarded.trivial _).bind
  intro orphaned _
  split
  · exact setBlank_edits style t
  · exact .pure (.refl t)

theorem repairWideHalves_edits (row : Nat) (t : Terminal) :
    Guarded False (t.repairWideHalves row) t.Edits :=
  Guarded.forRange (.refl t) fun c t' _ _ edits => edits.then (repairCell_edits row _ c t')

/-- An edit of one row, and the repair of its wide characters. -/
theorem editRow_edits {row : Nat} {f : Row → Checked Row} (sound : t.Sound K rows cols)
    (row_lt : row < rows) (sized : ∀ r : Row, r.cells.length = cols →
      Yields (f r) (·.cells.length = cols))
    (links : ∀ n, ∀ r : Row, Screen.Cells (Cell.Within n) r.cells →
      Guarded False (f r) fun r' => Screen.Cells (Cell.Within n) r'.cells) :
    Guarded False (t.modifyScr (·.modifyRow row f) >>= fun t => t.repairWideHalves row) t.Edits := by
  have passes : Guarded False
      (t.modifyScr (·.modifyRow row f) >>= fun t => t.repairWideHalves row) t.Passes := by
    refine ((Passes.refl t).modifyScr fun n _ every =>
      Screen.modifyRow_every every fun r _ => links n r).bind ?_
    intro t₁ passes₁
    exact (repairWideHalves_edits row t₁).mono fun _ edits => passes₁.trans edits.toPasses
  have edged : Guarded False (t.modifyScr (·.modifyRow row f) >>= fun t => t.repairWideHalves row)
      fun t' => t.Edged → t'.Edged :=
    .imp fun before => editRow_edged before sound row_lt
      ((modifyScr_yields sound (Screen.modifyRow_yields sound.scr sized)).mono fun _ => And.left)
  exact (passes.and edged).mono fun _ both => ⟨both.1, both.2⟩

theorem insertBlanks_edits (sound : t.Sound K rows cols) {row col n : Nat} (row_lt : row < rows)
    (col_lt : col < cols) : Guarded False (t.insertBlanks row col n) t.Edits := by
  refine editRow_edits sound row_lt ?_ ?_
  · intro r width
    exact (insertCells_yields col_lt width).bind fun _ width => .pure width
  · intro n r holds
    exact (Screen.insertBlanks_cells (blank_within n) holds).bind fun _ holds => .pure holds

theorem cleanWide_edits (row col w : Nat) (t : Terminal) :
    Guarded False (t.cleanWide row col w) t.Edits := by
  unfold cleanWide
  refine Guarded.bind (p := t.Edits) ?_ ?_
  · split
    · exact setBlank_edits _ t
    · exact .pure (.refl t)
  · intro t₁ edits₁
    refine Guarded.forRange edits₁ ?_
    intro i t₂ _ _ edits₂
    apply (Guarded.trivial _).bind
    intro c _
    split
    · exact .pure edits₂
    split
    · apply (Guarded.trivial _).bind
      intro next _
      split
      · exact edits₂.then (setBlank_edits _ t₂)
      · exact .pure edits₂
    · exact .pure edits₂

/-- Two changes of the active screen are one. -/
theorem modifyScr_bind (f g : Screen → Checked Screen) (t : Terminal) :
    (t.modifyScr f >>= fun t => t.modifyScr g) = t.modifyScr fun s => f s >>= g := by
  unfold Terminal.modifyScr
  dsimp only
  cases f t.scr with
  | error panic => rfl
  | ok s =>
    by_cases alt : t.altActive = true
    · simp only [if_pos alt]
      change (g _ >>= _) = (g s >>= _)
      simp only [scr, if_pos alt]
    · simp only [if_neg alt]
      change (g _ >>= _) = (g s >>= _)
      simp only [scr, if_neg alt]

/-- A wide character and its spacer. -/
theorem Edits.setWide (h : t.Edits t') (row col : Nat) {head : Cell}
    (within : ∀ n, t.LinksWithin n → head.Within n) :
    Guarded False (t'.modifyScr (·.setCell row col head) >>= fun t => do
      let next ← add 16 col 1
      t.modifyScr (·.setCell row next head.spacer)) t.Edits := by
  cases next : add 16 col 1 with
  | error panic =>
    refine (Guarded.trivial (t'.modifyScr _)).bind ?_
    intro _ _
    exact .error id
  | ok next =>
    obtain ⟨rfl, _⟩ := (Guarded.add.weaken False.elim).of_eq_ok next
    show Guarded False (t'.modifyScr (·.setCell row col head) >>=
      fun t => t.modifyScr (·.setCell row (col + 1) head.spacer)) t.Edits
    rw [modifyScr_bind]
    refine h.modifyScr ?_ fun every => Screen.setWide_edge every
    intro n links every
    refine (Screen.modifyCell_every every fun _ _ => within n links).bind ?_
    intro s every
    refine Screen.modifyCell_every every fun _ _ => ?_
    exact ⟨(within n links).link, Nat.zero_le 2⟩

/-- The cells written carry the cursor's link. -/
theorem putChar_edits (sound : t.Sound K rows cols) (c : Char) {w : Nat} (w_le : w ≤ 2) :
    Guarded False (t.putChar c w) t.Edits := by
  unfold putChar
  dsimp only
  refine Guarded.bind (p := t.Edits) ?_ ?_
  · split
    · exact insertBlanks_edits sound sound.cursor_row sound.cursor_col
    · exact .pure (.refl t)
  intro t₁ edits₁
  refine (edits₁.then (cleanWide_edits _ _ w t₁)).bind ?_
  intro t₂ edits₂
  have cell : ∀ n, t.LinksWithin n → Cell.Within n
      { ch := c, style := t₂.cursor.style, width := w, hyperlink := t₂.cursor.hyperlink } :=
    fun n within => ⟨(edits₂.links n within).cursor, w_le⟩
  rw [← bind_assoc]
  refine Guarded.bind (p := t.Edits) ?_ ?_
  · by_cases wide : w = 2
    · simp only [if_pos wide]
      exact edits₂.setWide _ _ cell
    · simp only [if_neg wide]
      exact (edits₂.setCell cell wide).bind fun _ edits => .pure edits
  intro t₄ edits₄
  apply (Guarded.trivial _).bind
  intro newCol _
  split
  · apply (Guarded.trivial _).bind
    intro last _
    exact .pure (edits₄.trans (edits_of_eq rfl rfl))
  · exact .pure (edits₄.trans (edits_of_eq rfl rfl))

theorem printWide_touches (sound : t.Sound K rows cols) (c : Char) {w : Nat} (w_le : w ≤ 2) :
    Guarded False (t.printWide c w) t.Touches := by
  have noted : t.Touches { t.touch with lastPrinted := some c } := touches_of_eq rfl rfl
  have sound' : { t.touch with lastPrinted := some c }.Sound K rows cols := sound
  unfold printWide
  refine Guarded.bind ((wrapPending_edits _).and (.of_yields (wrapPending_yields sound'))) ?_
  rintro t₁ ⟨edits₁, sound₁⟩
  refine Guarded.bind ((fitWide_edits w t₁).and (.of_yields (fitWide_yields sound₁ w_le))) ?_
  rintro fitted ⟨edits, sounds⟩
  cases fitted with
  | none => exact .pure (noted.after edits₁)
  | some t₂ =>
    refine (putChar_edits (sounds t₂ rfl).1 c w_le).mono ?_
    intro t₃ edits₃
    exact noted.after ((edits₁.trans (edits t₂ rfl)).trans edits₃)

/-! ### Cursors, resets and resizes -/

theorem setSaved_edits (saved : SavedCursor)
    (within : ∀ n, t.LinksWithin n → saved.cursor.hyperlink ≤ n) : t.Edits (t.setSaved saved) := by
  unfold setSaved
  split
  · exact edits_of_cursors (fun n links => { links with savedAlt := within n links }) rfl rfl rfl
  · exact edits_of_cursors (fun n links => { links with savedPrimary := within n links }) rfl rfl rfl

theorem saveCursor_edits (t : Terminal) : t.Edits t.saveCursor :=
  setSaved_edits _ fun _ links => links.cursor

theorem saved_within {n : Nat} (links : t.LinksWithin n) : t.saved.cursor.hyperlink ≤ n := by
  unfold saved
  split
  · exact links.savedAlt
  · exact links.savedPrimary

theorem clampToRegionIfOrigin_edits (t : Terminal) :
    Guarded False t.clampToRegionIfOrigin t.Edits := by
  unfold clampToRegionIfOrigin
  split
  · apply (Guarded.trivial _).bind
    rintro ⟨top, bot⟩ _
    dsimp only
    split
    · exact .pure (edits_of_eq rfl rfl)
    · exact .error id
  · exact .ok (.refl t)

theorem clampCursor_edits (t : Terminal) : Guarded False t.clampCursor t.Edits := by
  unfold clampCursor
  apply (Guarded.trivial _).bind
  intro lastRow _
  apply (Guarded.trivial _).bind
  intro lastCol _
  exact .pure (edits_of_eq rfl rfl)

theorem restoreCursor_touches (t : Terminal) : Guarded False t.restoreCursor t.Touches := by
  have restored : t.Edits { t with cursor := t.saved.cursor, modes.origin := t.saved.origin } :=
    edits_of_cursors (fun n links => { links with cursor := saved_within links }) rfl rfl rfl
  unfold restoreCursor
  refine (restored.then (clampCursor_edits _)).bind ?_
  intro t₁ edits₁
  exact touches_of_edits (edits₁.then (clampToRegionIfOrigin_edits t₁))

theorem moveTo_touches (row col : Nat) (t : Terminal) :
    Guarded False (t.moveTo row col) t.Touches := by
  unfold moveTo
  apply (Guarded.trivial _).bind
  rintro ⟨top, bot⟩ _
  apply (Guarded.trivial _).bind
  intro lastRow _
  apply (Guarded.trivial _).bind
  intro lastCol _
  exact .pure (touches_of_eq rfl rfl)

theorem wholeRegion_edits (t : Terminal) : Guarded False t.wholeRegion t.Edits := by
  unfold wholeRegion
  apply (Guarded.trivial _).bind
  intro last _
  exact .pure (edits_of_eq rfl rfl)

theorem decaln_touches (t : Terminal) : Guarded False t.decaln t.Touches := by
  unfold decaln
  refine (wholeRegion_edits t).bind ?_
  intro t₁ edits₁
  have homed : t.Edits { t₁ with
      modes.origin := false, cursor.row := 0, cursor.col := 0, cursor.pendingWrap := false } :=
    edits₁.trans (edits_of_eq rfl rfl)
  refine touches_of_edits (Guarded.forRange homed ?_)
  intro r t₂ _ _ edits₂
  refine Guarded.forRange edits₂ ?_
  intro c t₃ _ _ edits₃
  exact edits₃.setCell (fun n _ => ⟨Nat.zero_le n, show 1 ≤ 2 by decide⟩)
    (show (1 : Nat) ≠ 2 by decide)

theorem clearAlt_edits (t : Terminal) : t.Edits t.clearAlt :=
  ⟨⟨fun n links => { links with alt := links.alt.clearGrid (blanks_within n) _ }, rfl,
    Nat.le_refl _⟩, fun edged => ⟨edged.primary, edged.alt.clearGrid edge_blanks _⟩⟩

theorem fullReset_touches (t : Terminal) : Guarded False t.fullReset t.Touches := by
  unfold fullReset
  apply (Guarded.trivial _).bind
  intro last _
  refine .pure (Edits.touch ⟨⟨fun n links => ?_, rfl, Nat.le_refl _⟩, fun edged => ?_⟩)
  · exact ⟨links.primary.clearGrid (blanks_within n) _,
      links.alt.clearGrid (blanks_within n) _, Nat.zero_le n, Nat.zero_le n, Nat.zero_le n,
      links.hyperlinks⟩
  · exact ⟨edged.primary.clearGrid edge_blanks _, edged.alt.clearGrid edge_blanks _⟩

theorem modifyKitty_edits (f : KittyKeyStack → KittyKeyStack) (t : Terminal) :
    t.Edits (t.modifyKitty f) := by
  unfold modifyKitty
  split
  · exact edits_of_eq rfl rfl
  · exact edits_of_eq rfl rfl

theorem softReset_touches (t : Terminal) : Guarded False t.softReset t.Touches := by
  have reset : t.Edits { t with modes := { t.modes with
      cursorVisible := true, origin := false, insert := false, autowrap := false,
      cursorKeys := false, keypadApp := false } } := edits_of_eq rfl rfl
  unfold softReset
  refine (reset.then (wholeRegion_edits _)).bind ?_
  intro t₁ edits₁
  have cleared : t₁.Edits { t₁ with
      cursor := { t₁.cursor with
        style := {}, hyperlink := 0, pendingWrap := false, g0 := .ascii, g1 := .ascii, shift := 0 }
      cursorStyleRaw := 0 } :=
    edits_of_cursors (fun n links => { links with cursor := Nat.zero_le n }) rfl rfl rfl
  have forgot := (edits₁.trans cleared).trans (setSaved_edits {} fun n _ => Nat.zero_le n)
  exact .pure (forgot.trans (modifyKitty_edits (·.reset) _)).touch

theorem enterAlt_edits (mode : Nat) (t : Terminal) : t.Edits (t.enterAlt mode) := by
  have saved : t.Edits (if mode = 1049 then t.saveCursor else t) := by
    split
    · exact saveCursor_edits t
    · exact .refl t
  unfold enterAlt
  dsimp only
  generalize (if mode = 1049 then t.saveCursor else t) = t₁ at saved
  have entered : t.Edits { t₁ with altActive := true } := saved.trans (edits_of_eq rfl rfl)
  split
  · exact entered.trans (clearAlt_edits _)
  · exact entered

theorem leaveAlt_edits (mode : Nat) (t : Terminal) : Guarded False (t.leaveAlt mode) t.Edits := by
  have cleared : t.Edits (if mode = 1047 then t.clearAlt else t) := by
    split
    · exact clearAlt_edits t
    · exact .refl t
  unfold leaveAlt
  dsimp only
  generalize (if mode = 1047 then t.clearAlt else t) = t₁ at cleared
  have left : t.Edits { t₁ with altActive := false } := cleared.trans (edits_of_eq rfl rfl)
  split
  · exact left.then (edits_of_touches (restoreCursor_touches _))
  · exact .ok left

theorem setAltScreen_touches (mode : Nat) (on : Bool) (t : Terminal) :
    Guarded False (t.setAltScreen mode on) t.Touches := by
  have marked : t.Edits { t with screenSwitch := some .alt } := edits_of_eq rfl rfl
  unfold setAltScreen
  dsimp only
  refine Guarded.bind (p := t.Edits) ?_ ?_
  · split
    · exact .pure (marked.trans (enterAlt_edits mode _))
    split
    · exact marked.then (leaveAlt_edits mode _)
    · exact .pure marked
  · intro t₁ edits₁
    apply (Guarded.trivial _).bind
    intro last _
    exact .pure (edits₁.touches (touches_of_eq rfl rfl))

theorem resize_mayTouch (rows cols : Nat) (t : Terminal) :
    Guarded False (t.resize rows cols) t.MayTouch := by
  unfold resize
  dsimp only
  split
  · exact .ok (.inl rfl)
  have resized (s : Screen) {cursor : Nat × Nat} {reflow : Bool} : Guarded False
      (s.resize (max rows 1) (max cols 1) cursor reflow) fun out =>
        (∀ n, s.Every (Screen.Cells (Cell.Within n)) →
          out.1.Every (Screen.Cells (Cell.Within n))) ∧ (s.Every Edge → out.1.Every Edge) := by
    refine Guarded.and (.all fun n => .imp fun every => ?_) (.imp fun every => Screen.resize_edge every)
    refine Screen.resize_every (blanks_within n) ?_
    exact Screen.resizeCols_every (blank_within n) (fun _ within => ⟨within.link, Nat.zero_le 2⟩) every
  refine (resized t.primary).bind ?_
  rintro ⟨primary, primaryCur⟩ ⟨links_primary, edge_primary⟩
  refine (resized t.alt).bind ?_
  rintro ⟨alt, altCur⟩ ⟨links_alt, edge_alt⟩
  apply (Guarded.trivial _).bind
  intro lastRow _
  apply (Guarded.trivial _).bind
  intro lastCol _
  refine .pure (.inr (Edits.touch ⟨⟨fun n links => ?_, rfl, Nat.le_refl _⟩, fun edged => ?_⟩))
  · exact { links with primary := links_primary n links.primary, alt := links_alt n links.alt }
  · exact ⟨edge_primary edged.primary, edge_alt edged.alt⟩

theorem setDeccolm_mayTouch (set : Bool) (t : Terminal) :
    Guarded False (t.setDeccolm set) t.MayTouch := by
  unfold setDeccolm
  split
  · exact .ok (.inl rfl)
  have noted : t.Edits { t with modes.deccolm := set } := edits_of_eq rfl rfl
  refine Guarded.bind (p := t.Edits) ((resize_mayTouch _ _ _).mono fun _ may => noted.trans may.edits) ?_
  intro t₁ edits₁
  refine (edits₁.then (wholeRegion_edits t₁)).bind ?_
  intro t₂ edits₂
  refine Guarded.bind (p := t.Edits) ?_ fun t' edits =>
    .pure (.inr (edits.touches (touches_of_eq rfl rfl)))
  split
  · exact .pure edits₂
  · exact edits₂.moveRows fun P blank every => .pure (every.clearGrid blank _)

/-! ### Control sequences -/

theorem setCol_touches (col : Nat) (t : Terminal) : Guarded False (t.setCol col) t.Touches := by
  unfold setCol
  apply (Guarded.trivial _).bind
  intro last _
  exact .pure (touches_of_eq rfl rfl)

theorem cursorUp_touches (n : Nat) (t : Terminal) : Guarded False (t.cursorUp n) t.Touches := by
  unfold cursorUp
  apply (Guarded.trivial _).bind
  rintro ⟨top, bot⟩ _
  exact .pure (touches_of_eq rfl rfl)

theorem cursorDown_touches (n : Nat) (t : Terminal) : Guarded False (t.cursorDown n) t.Touches := by
  unfold cursorDown
  apply (Guarded.trivial _).bind
  rintro ⟨top, bot⟩ _
  apply (Guarded.trivial _).bind
  intro limit _
  exact .pure (touches_of_eq rfl rfl)

theorem columnAbsolute_touches (params : Params) (t : Terminal) :
    Guarded False (t.columnAbsolute params) t.Touches := by
  unfold columnAbsolute
  apply (Guarded.trivial _).bind
  intro col _
  exact setCol_touches col t

theorem cursorPosition_touches (params : Params) (t : Terminal) :
    Guarded False (t.cursorPosition params) t.Touches := by
  unfold cursorPosition
  apply (Guarded.trivial _).bind
  intro row _
  apply (Guarded.trivial _).bind
  intro col _
  exact moveTo_touches row col t

theorem rowAbsolute_touches (params : Params) (t : Terminal) :
    Guarded False (t.rowAbsolute params) t.Touches := by
  unfold rowAbsolute
  apply (Guarded.trivial _).bind
  intro row _
  apply (Guarded.trivial _).bind
  rintro ⟨top, bot⟩ _
  apply (Guarded.trivial _).bind
  intro last _
  have moved (row : Nat) : t.Edits { t with cursor.row := row } := edits_of_eq rfl rfl
  refine ((moved _).then (clampToRegionIfOrigin_edits _)).bind ?_
  intro t₁ edits₁
  exact .pure (edits₁.touches (touches_of_eq rfl rfl))

theorem rowRelative_touches (n : Nat) (t : Terminal) :
    Guarded False (t.rowRelative n) t.Touches := by
  unfold rowRelative
  apply (Guarded.trivial _).bind
  intro last _
  exact .pure (touches_of_eq rfl rfl)

theorem setRegion_mayTouch (params : Params) (t : Terminal) :
    Guarded False (t.setRegion params) t.MayTouch := by
  unfold setRegion
  apply (Guarded.trivial _).bind
  intro top _
  apply (Guarded.trivial _).bind
  intro bot _
  apply (Guarded.trivial _).bind
  intro last _
  dsimp only
  split
  · have narrowed (bot : Nat) : t.Edits { t with scrollTop := top, scrollBot := bot } :=
      edits_of_eq rfl rfl
    exact ((narrowed _).thenTouches (moveTo_touches 0 0 _)).mono fun _ => .inr
  · exact .pure (.inl rfl)

theorem eraseCells_edits (row lo hi : Nat) (style : Style) (selective : Bool) (t : Terminal) :
    Guarded False (t.eraseCells row lo hi style selective) t.Edits := by
  refine Guarded.forRange (.refl t) ?_
  intro c t' _ _ edits
  refine edits.modifyCell ?_ ?_
  · intro cell
    split
    · exact .inl rfl
    · exact .inr rfl
  · intro cell
    split
    · exact .inl rfl
    · exact .inr rfl

theorem setRowWrapped_edits (row : Nat) (wrapped : Bool) (t : Terminal) :
    Guarded False (t.setRowWrapped row wrapped) t.Edits :=
  (Edits.refl t).moveRows fun _ _ every => Screen.setWrapped_every every

theorem eraseRow_edits (row : Nat) (style : Style) (selective : Bool) (t : Terminal) :
    Guarded False (t.eraseRow row style selective) t.Edits := by
  unfold eraseRow
  split
  · refine (eraseCells_edits row 0 t.cols style true t).bind ?_
    intro t₁ edits₁
    exact edits₁.then (setRowWrapped_edits row false t₁)
  · refine (Edits.refl t).moveRows fun P blank every => Screen.modifyRow_every every ?_
    intro r _ _
    exact .pure (blank t.cols style)

theorem eraseRows_edits (lo hi : Nat) (style : Style) (selective : Bool) (t : Terminal) :
    Guarded False (t.eraseRows lo hi style selective) t.Edits :=
  Guarded.forRange (.refl t) fun r t' _ _ edits => edits.then (eraseRow_edits r style selective t')

theorem eraseDisplay_touches (mode : Nat) (selective : Bool) (t : Terminal) :
    Guarded False (t.eraseDisplay mode selective) t.Touches := by
  have still := edits_settled t
  unfold eraseDisplay
  refine touches_of_edits ?_
  split
  · refine (still.then (eraseCells_edits _ _ _ _ selective _)).bind ?_
    intro t₁ edits₁
    refine (edits₁.then (setRowWrapped_edits _ false t₁)).bind ?_
    intro t₂ edits₂
    apply (Guarded.trivial _).bind
    intro below _
    exact edits₂.then (eraseRows_edits _ _ _ selective t₂)
  · refine (still.then (eraseRows_edits _ _ _ selective _)).bind ?_
    intro t₁ edits₁
    exact edits₁.then (eraseCells_edits _ _ _ _ selective t₁)
  · exact still.then (eraseRows_edits _ _ _ selective _)
  · exact still.moveRows fun P _ every => .pure every.clearScrollback
  · exact .pure still

/-- Erases, or settles a pending wrap. -/
theorem eraseLine_touches (mode : Nat) (selective : Bool) (t : Terminal) :
    Guarded False (t.eraseLine mode selective) fun t' =>
      t' = { t with cursor.pendingWrap := false } ∨ t.Touches t' := by
  have still := edits_settled t
  unfold eraseLine
  dsimp only
  split
  · apply (Guarded.trivial _).bind
    intro last _
    refine (still.then (eraseCells_edits _ _ _ _ selective _)).bind ?_
    intro t₁ edits₁
    exact (touches_of_edits (edits₁.then (setRowWrapped_edits _ false t₁))).mono fun _ => .inr
  · exact (touches_of_edits (still.then (eraseCells_edits _ _ _ _ selective _))).mono fun _ => .inr
  · apply (Guarded.trivial _).bind
    intro last _
    refine (still.then (eraseCells_edits _ _ _ _ selective _)).bind ?_
    intro t₁ edits₁
    exact (touches_of_edits (edits₁.then (setRowWrapped_edits _ false t₁))).mono fun _ => .inr
  · exact .pure (.inl rfl)

theorem insertLines_mayTouch (n : Nat) (t : Terminal) :
    Guarded False (t.insertLines n) t.MayTouch := by
  unfold insertLines
  apply (Guarded.trivial _).bind
  rintro ⟨top, bot⟩ _
  dsimp only
  split
  · exact .pure (.inl rfl)
  · refine ((Edits.refl t).moveRows fun P blank every => Screen.scrollDown_every blank every).bind ?_
    intro t₁ edits₁
    exact .pure (.inr (edits₁.touches (touches_of_eq rfl rfl)))

theorem deleteLines_mayTouch (n : Nat) (t : Terminal) :
    Guarded False (t.deleteLines n) t.MayTouch := by
  unfold deleteLines
  apply (Guarded.trivial _).bind
  rintro ⟨top, bot⟩ _
  dsimp only
  split
  · exact .pure (.inl rfl)
  · refine ((Edits.refl t).moveRows fun P blank every => Screen.scrollUp_every blank every).bind ?_
    intro t₁ edits₁
    exact .pure (.inr (edits₁.touches (touches_of_eq rfl rfl)))

/-- Edits that end with the wrap settled and a touch. -/
theorem touches_settled {x : Checked Terminal} (hx : Guarded False x t.Edits) :
    Guarded False (x >>= fun t => return { t with cursor.pendingWrap := false }.touch) t.Touches :=
  hx.bind fun _ edits => .pure (edits.touches (touches_of_eq rfl rfl))

theorem insertChars_touches (sound : t.Sound K rows cols) (n : Nat) :
    Guarded False (t.insertChars n) t.Touches := by
  unfold insertChars
  rw [← bind_assoc]
  refine touches_settled (editRow_edits sound sound.cursor_row ?_ ?_)
  · intro r width
    exact (insertCells_yields sound.cursor_col width).bind fun _ width => .pure width
  · intro n r holds
    exact (Screen.insertBlanks_cells (blank_within n) holds).bind fun _ holds => .pure holds

theorem deleteChars_touches (sound : t.Sound K rows cols) (n : Nat) :
    Guarded False (t.deleteChars n) t.Touches := by
  unfold deleteChars
  rw [← bind_assoc]
  refine touches_settled (editRow_edits sound sound.cursor_row ?_ ?_)
  · intro r width
    exact (deleteCells_yields width).bind fun _ width => .pure width
  · intro n r holds
    exact (Screen.deleteCells_cells (blank_within n) holds).bind fun _ holds => .pure holds

theorem eraseChars_touches (n : Nat) (t : Terminal) :
    Guarded False (t.eraseChars n) t.Touches := by
  unfold eraseChars
  refine Guarded.bind (p := t.Edits) ?_ ?_
  · refine Guarded.forRange (.refl t) ?_
    intro c t' _ _ edits
    exact edits.then (setBlank_edits _ t')
  · intro t₁ edits₁
    exact touches_settled (edits₁.then (repairWideHalves_edits _ t₁))

theorem popColors_mayTouch (t : Terminal) : t.MayTouch t.popColors := by
  unfold popColors
  split
  · exact .inr (touches_of_eq rfl rfl)
  · exact .inl rfl

theorem setAnsiMode_touches (params : Params) (set : Bool) (t : Terminal) :
    t.Touches (t.setAnsiMode params set) :=
  touches_of_eq rfl rfl

theorem setDecMode_touches (n : Nat) (set : Bool) (t : Terminal) :
    Guarded False (t.setDecMode n set) t.Touches := by
  unfold setDecMode
  refine touches_of_edits ?_
  split
  case h_2 => exact (setDeccolm_mayTouch set t).mono fun _ => MayTouch.edits
  case h_4 =>
    have noted : t.Edits { t with modes.origin := set } := edits_of_eq rfl rfl
    exact noted.then (edits_of_touches (moveTo_touches 0 0 _))
  case h_12 => exact edits_of_touches (setAltScreen_touches 47 set t)
  case h_13 => exact edits_of_touches (setAltScreen_touches 1047 set t)
  case h_14 => exact edits_of_touches (setAltScreen_touches 1049 set t)
  case h_24 =>
    split
    · exact .pure (saveCursor_edits t)
    · exact edits_of_touches (restoreCursor_touches t)
  case h_27 => exact .pure (.refl t)
  all_goals exact .pure (edits_of_eq rfl rfl)

end Terminal

end Posh.Term
