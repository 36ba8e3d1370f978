import Posh.Term.Accounts

/-!
The byte count over every sequence of commands, and what a command needs for its sums and
products to fit.
-/

namespace Posh.Term

open Posh.Lib

namespace GraphicsState

open Graphics

variable {g : GraphicsState} {files : List Char → Option Bytes} {cmd : Command} {build : Build}
  {bad : Panic → Prop} {I : Image → Prop} {F : Frame → Prop} {payload : Bytes}

/-! ### Transmissions -/

/-- The bytes that a transmission carries. -/
def received (files : List Char → Option Bytes) (cmd : Command) (payload : Bytes) :
    Fallible String Bytes := do
  let data ← transmitted files cmd payload
  decompressed cmd data

theorem decompressed_spared {data : Bytes} (fits : data.length ≤ QUOTA_BYTES) :
    SparedResult bad (decompressed cmd data) (·.length ≤ QUOTA_BYTES) := by
  have small : data.length < 2 ^ 50 := fits.trans_lt (by decide)
  have inflates : Returns True (Inflate.zlibDecompress data QUOTA_BYTES) (·.length ≤ QUOTA_BYTES) :=
    (Inflate.zlibDecompress_mirrors small (Nat.lt_succ_self _)).returns.mono
      fun out sound => sound.1.1
  unfold decompressed
  split
  · exact .pure fits
  · split
    · exact .fail _
    · refine (SparedResult.lift (SparedResult.of_returns inflates).result).bind ?_
      rintro inflated fits
      split
      · exact .pure (fits _ rfl)
      · exact .fail _
      · exact .fail _

theorem received_spared (short : payload.length ≤ MAX_PENDING_PAYLOAD) :
    SparedResult bad (received files cmd payload) (·.length ≤ QUOTA_BYTES) :=
  (SparedResult.of_returns (transmitted_fits short)).bind fun _ fits => decompressed_spared fits

/-- What a transmission decodes to: a PNG of the size it says, or the bytes received, as many
as the product of the dimensions leaves in a machine word. -/
inductive Decodes (files : List Char → Option Bytes) (cmd : Command) (payload : Bytes) :
    Command × ImageFormat × Bytes → Prop where
  | png {png : DecodedPng} (sized : Png.SizedPng png) :
      Decodes files cmd payload
        ({ cmd with width := png.width, height := png.height }, .png, png.rgba)
  | raw {format : ImageFormat} {data : Bytes} (other : format ≠ .png)
      (named : imageFormat cmd.format = some format)
      (bytes : received files cmd payload = .ok data) (fits : data.length ≤ QUOTA_BYTES)
      (width : cmd.width ≠ 0) (height : cmd.height ≠ 0)
      (length : data.length = cmd.width * cmd.height * format.bytesPerPixel % 2 ^ 64) :
      Decodes files cmd payload (cmd, format, data)

theorem Decodes.length_le {d : Command × ImageFormat × Bytes} (decodes : Decodes files cmd payload d) :
    d.2.2.length ≤ QUOTA_BYTES := by
  cases decodes with
  | png sized => exact sized.fits
  | raw _ _ _ fits => exact fits

/-- The payload is received before its format is looked at. -/
theorem decodeTransmission_eq : build.decodeTransmission files cmd payload = (do
    let data ← received files cmd payload
    let format ← Fallible.ofOption "EINVAL:unknown format" (imageFormat cmd.format)
    let (cmd, data) ← build.pixels cmd format data
    return (cmd, format, data)) := by
  unfold Build.decodeTransmission received
  cases transmitted files cmd payload <;> rfl

/-- The number of bytes of what was received is measured in a machine word: that of raw
pixels by their dimensions, and that of a PNG by each header the decoder comes to. -/
def Measurable (build : Build) (files : List Char → Option Bytes) (cmd : Command)
    (payload : Bytes) : Prop :=
  ∀ format data, imageFormat cmd.format = some format → received files cmd payload = .ok data →
    match format with
    | .png => Png.SIGNATURE.isPrefixOf data = true →
        Png.HeadersFit build (data.drop Png.SIGNATURE.length)
    | _ => cmd.width * cmd.height * format.bytesPerPixel < 2 ^ 64

theorem decodeTransmission_spared (short : payload.length ≤ MAX_PENDING_PAYLOAD)
    (measurable : build.Strict bad → Measurable build files cmd payload) :
    SparedResult bad (build.decodeTransmission files cmd payload) (Decodes files cmd payload) := by
  rw [decodeTransmission_eq]
  refine (received_spared short).and_eq.bind ?_
  rintro data ⟨fits, bytes⟩
  refine (SparedResult.ofOption fun format named => named).bind fun format named => ?_
  have whole (strict : build.Strict bad) := measurable strict format data named bytes
  unfold Build.pixels
  split
  · have small : data.length < 2 ^ 40 := fits.trans_lt (by decide)
    refine SparedResult.bind (p := fun r => ∃ png, Png.SizedPng png ∧
      r = ({ cmd with width := png.width, height := png.height }, png.rgba)) ?_ ?_
    · refine (SparedResult.lift (Png.decode_sized small whole).result).bind fun decoded sized => ?_
      split
      · rename_i png
        exact .pure ⟨png, sized png rfl, rfl⟩
      · exact .fail _
    · rintro _ ⟨png, sized, rfl⟩
      exact .pure (.png sized)
  · rename_i other
    refine SparedResult.bind (p := fun r => r = (cmd, data) ∧ cmd.width ≠ 0 ∧ cmd.height ≠ 0 ∧
      data.length = cmd.width * cmd.height * format.bytesPerPixel % 2 ^ 64) ?_ ?_
    · have product (strict : build.Strict bad) :
          cmd.width * cmd.height * format.bytesPerPixel < 2 ^ 64 := by
        cases format with
        | png => exact absurd rfl other
        | rgb => exact whole strict
        | rgba => exact whole strict
      have area (strict : build.Strict bad) : cmd.width * cmd.height < 2 ^ 64 :=
        (Nat.le_mul_of_pos_right _ format.bytesPerPixel_pos).trans_lt (product strict)
      refine (SparedResult.lift (Build.mul_spared area)).bind ?_
      rintro _ rfl
      refine (SparedResult.lift (Build.mul_spared fun strict => ?_)).bind ?_
      · rw [Nat.mod_eq_of_lt (area strict)]
        cases format with
        | png => exact absurd rfl other
        | rgb => exact product strict
        | rgba => exact product strict
      rintro expect expect_eq
      split
      · exact .fail _
      · rename_i matches_
        simp only [not_or, not_not] at matches_
        refine .pure ⟨rfl, matches_.1, matches_.2.1, matches_.2.2.trans (expect_eq.trans ?_)⟩
        generalize cmd.width * cmd.height = area
        cases format with
        | rgb => exact Nat.mod_mul_mod area 3 (2 ^ 64)
        | rgba => exact Nat.mod_mul_mod area 4 (2 ^ 64)
        | png => exact absurd rfl other
    · rintro _ ⟨rfl, width, height, length⟩
      exact .pure (.raw other named bytes fits width height length)

/-! ### Placements -/

/-- Nothing that is counted changes. -/
theorem Ledger.of_same (h : g.Ledger I F) {g' : GraphicsState} (consistent : g'.Consistent)
    (images : g'.images = g.images) (frames : g'.frames = g.frames)
    (total : g'.totalBytes = g.totalBytes)
    (waiting : ∀ pending, g'.pending = some pending → Typed pending.cmd) : g'.Ledger I F := by
  refine ⟨consistent, total ▸ h.within, fun id img found => ?_, fun id fs found => ?_, waiting⟩
  · exact h.holds.images id img (images ▸ found)
  · exact h.holds.frames id fs (frames ▸ found)

/-- A cell with an offset from it in an `i32`. -/
def OffsetFits (base : Nat) (off : Int) : Prop :=
  -2 ^ 31 ≤ base + off ∧ base + off < 2 ^ 31

/-- The offsets of a command from the parent it names, unless the placement is refused. -/
def OffsetsFit (cmd : Command) (g : GraphicsState) : Prop :=
  cmd.parentImage ≠ 0 → parentCycle (cmd.id, cmd.placementId) g (g.placements.length + 1)
      (cmd.parentImage, cmd.parentPlacement) = false →
    ∀ parent, g.findPlacement cmd.parentImage cmd.parentPlacement = some parent →
      OffsetFits parent.row cmd.vOff ∧ OffsetFits parent.col cmd.hOff

theorem offsetCell_spared {base : Nat} {off : Int} (fits : build.Strict bad → OffsetFits base off) :
    Spared bad (build.offsetCell base off) fun _ => True := by
  cases build with
  | release => exact .ok trivial
  | debug =>
    unfold Build.offsetCell GraphicsState.offsetCell
    dsimp only
    split
    · exact .ok trivial
    · rename_i outside
      exact fun overflow => outside (fits (.inr ⟨rfl, overflow⟩))

theorem placementCell_spared (offsets : build.Strict bad → OffsetsFit cmd g) (cursor : Nat × Nat) :
    SparedResult bad (build.placementCell cmd cursor g) fun _ => True := by
  unfold Build.placementCell
  split
  · exact .pure trivial
  · rename_i relative
    split
    · exact .fail _
    · rename_i acyclic
      split
      · exact .fail _
      · rename_i parent found
        have fits (strict : build.Strict bad) :=
          offsets strict relative (Bool.eq_false_iff.mpr acyclic) parent found
        refine (SparedResult.lift (offsetCell_spared fun strict => (fits strict).1)).bind fun row _ => ?_
        exact (SparedResult.lift (offsetCell_spared fun strict => (fits strict).2)).bind
          fun col _ => .pure trivial

theorem placeAndRespond_spared (h : g.Ledger I F) (offsets : build.Strict bad → OffsetsFit cmd g)
    (ok : Option (List Char)) (cursor : Nat × Nat) :
    Spared bad (build.placeAndRespond cmd ok cursor g) (·.1.Ledger I F) := by
  have cell := placementCell_spared offsets cursor
  have placed : SparedResult bad (build.addPlacement cmd cursor g) (·.1.Ledger I F) := by
    unfold Build.addPlacement
    exact cell.bind fun cell _ => .pure (h.of_same { h.consistent with } rfl rfl rfl h.holds.waiting)
  unfold Build.placeAndRespond
  refine placed.result.bind fun placed kept => ?_
  split
  · exact .pure (kept _ rfl)
  · exact .pure h

theorem place_spared (h : g.Ledger I F)
    (offsets : build.Strict bad → ∀ id, g.resolveId cmd = some id → OffsetsFit { cmd with id } g)
    (cursor : Nat × Nat) : Spared bad (build.place cmd cursor g) (·.1.Ledger I F) := by
  unfold Build.place
  split
  · rename_i id found
    exact placeAndRespond_spared h (fun strict => offsets strict id found) _ cursor
  · exact .pure h

theorem deletePlacements_spared (h : g.Ledger I F) (free : Bool)
    {pred : GraphicsState → Placement → Checked Bool}
    (each : ∀ p ∈ g.placements, Spared bad (pred { g with placements := [] } p) fun _ => True) :
    Spared bad (g.deletePlacements free pred) (·.Ledger I F) := by
  unfold deletePlacements
  dsimp only
  refine Spared.bind (p := fun _ => True) ?_ fun (touched, kept) _ => ?_
  · refine Spared.forEach trivial fun p mem (touched, kept) _ => ?_
    exact (each p mem).bind fun hit _ => .pure trivial
  · have bare : Ledger I F { g with placements := kept } :=
      h.of_same { h.consistent with } rfl rfl rfl h.holds.waiting
    dsimp only
    split
    · refine Spared.forEach bare fun id _ g' ledger => ?_
      split
      · exact .pure ledger
      · exact Spared.of_yields ((removeImageData_ledger ledger id).mono fun _ both => both.1)
    · exact .pure bare

/-- The end of the rows of a placement that shows in the grid, if a row is not above it. -/
def RowsFit (p : Placement) (row : Nat) (g : GraphicsState) : Prop :=
  p.unicode = false → p.row ≤ row → p.row + (g.extent p).2 < 2 ^ 32

/-- The end of its columns, if a column is not to the left of it. -/
def ColsFit (p : Placement) (col : Nat) (g : GraphicsState) : Prop :=
  p.unicode = false → p.col ≤ col → p.col + (g.extent p).1 < 2 ^ 32

/-- The rows of a placement, and its columns if it covers the row. -/
def CellFits (p : Placement) (row col : Nat) (g : GraphicsState) : Prop :=
  RowsFit p row g ∧ (p.row ≤ row → row < p.row + (g.extent p).2 → ColsFit p col g)

theorem intersects_spared {p : Placement} {row col : Nat}
    (fits : build.Strict bad → CellFits p row col g) :
    Spared bad (build.intersects p row col g) fun _ => True := by
  unfold Build.intersects
  split
  · exact .pure trivial
  · rename_i shown
    rw [Bool.not_eq_true] at shown
    dsimp only
    split
    · exact .pure trivial
    · rename_i below
      rw [Nat.not_lt] at below
      refine (Build.add_spared fun strict => (fits strict).1 shown below).bind ?_
      rintro bottom bottom_eq
      split
      · exact .pure trivial
      · rename_i inside
        obtain ⟨above, right⟩ := not_or.mp inside
        rw [not_not] at above
        refine (Build.add_spared fun strict => ?_).skip fun right => .pure trivial
        have fits := fits strict
        rw [bottom_eq, Nat.mod_eq_of_lt (fits.1 shown below)] at above
        exact fits.2 below above shown (Nat.not_lt.mp right)

theorem atCell_spared {x y : Nat} {p : Placement}
    (fits : build.Strict bad → 1 ≤ x → 1 ≤ y → CellFits p (clampCell (y - 1)) (clampCell (x - 1)) g) :
    Spared bad (build.atCell x y g p) fun _ => True := by
  unfold Build.atCell
  split
  · rename_i given
    exact intersects_spared fun strict => fits strict given.1 given.2
  · exact .pure trivial

theorem inColumn_spared {x : Nat} {p : Placement}
    (fits : build.Strict bad → 1 ≤ x → ColsFit p (x - 1) g) :
    Spared bad (build.inColumn x g p) fun _ => True := by
  unfold Build.inColumn
  split
  · exact .pure trivial
  · rename_i shown
    obtain ⟨given, shown⟩ := not_or.mp shown
    rw [Bool.not_eq_true] at shown
    split
    · exact .pure trivial
    · rename_i right
      refine (Build.add_spared fun strict => ?_).skip fun right => .pure trivial
      exact fits strict (Nat.not_lt.mp given) shown (Nat.not_lt.mp right)

theorem inRow_spared {y : Nat} {p : Placement}
    (fits : build.Strict bad → 1 ≤ y → RowsFit p (y - 1) g) :
    Spared bad (build.inRow y g p) fun _ => True := by
  unfold Build.inRow
  split
  · exact .pure trivial
  · rename_i shown
    obtain ⟨given, shown⟩ := not_or.mp shown
    rw [Bool.not_eq_true] at shown
    split
    · exact .pure trivial
    · rename_i below
      refine (Build.add_spared fun strict => ?_).skip fun bottom => .pure trivial
      exact fits strict (Nat.not_lt.mp given) shown (Nat.not_lt.mp below)

/-- The sums by which a delete picks placements. -/
def DeleteFits (cmd : Command) (cursor : Nat × Nat) (g : GraphicsState) : Prop :=
  ∀ p ∈ g.placements,
    match toLower cmd.delete with
    | 'c' => CellFits p cursor.1 cursor.2 g
    | 'p' => 1 ≤ cmd.srcX → 1 ≤ cmd.srcY →
        CellFits p (clampCell (cmd.srcY - 1)) (clampCell (cmd.srcX - 1)) g
    | 'q' => p.z = cmd.z → 1 ≤ cmd.srcX → 1 ≤ cmd.srcY →
        CellFits p (clampCell (cmd.srcY - 1)) (clampCell (cmd.srcX - 1)) g
    | 'x' => 1 ≤ cmd.srcX → ColsFit p (cmd.srcX - 1) g
    | 'y' => 1 ≤ cmd.srcY → RowsFit p (cmd.srcY - 1) g
    | _ => True

theorem ledger_cleared (h : g.Ledger I F) : Ledger I F { g with
    placements := [], images := [], frames := [], animations := [], totalBytes := 0 } :=
  ⟨consistent_bare ⟨rfl, rfl, rfl⟩ rfl h.consistent.short, Nat.zero_le _, nofun, nofun, h.holds.waiting⟩

theorem delete_spared (h : g.Ledger I F) {cursor : Nat × Nat}
    (fits : build.Strict bad → DeleteFits cmd cursor g) :
    Spared bad (build.delete cmd cursor g) (·.Ledger I F) := by
  have bare (placements : List Placement) : Ledger I F { g with placements } :=
    h.of_same { h.consistent with } rfl rfl rfl h.holds.waiting
  have freed {g' : GraphicsState} (h' : g'.Ledger I F) (free : Bool) (id : Nat) :
      Spared bad (if free then g'.removeImageData id else pure g') (·.Ledger I F) := by
    split
    · exact Spared.of_yields ((removeImageData_ledger h' id).mono fun _ both => both.1)
    · exact .pure h'
  have cleared : Spared bad (pure (if isUpper cmd.delete then
      { g with placements := [], images := [], frames := [], animations := [], totalBytes := 0 }
      else { g with placements := [] }) : Checked GraphicsState) (·.Ledger I F) := by
    split
    · exact .pure (ledger_cleared h)
    · exact .pure (bare [])
  unfold Build.delete
  unfold DeleteFits at fits
  dsimp only
  split
  · rename_i form
    simp only [form] at fits
    exact deletePlacements_spared h _ fun p mem => intersects_spared fun strict => fits strict p mem
  · rename_i form
    simp only [form] at fits
    exact deletePlacements_spared h _ fun p mem => atCell_spared fun strict => fits strict p mem
  · rename_i form
    simp only [form] at fits
    refine deletePlacements_spared h _ fun p mem => ?_
    split
    · rename_i same
      exact atCell_spared fun strict => fits strict p mem same
    · exact .pure trivial
  · rename_i form
    simp only [form] at fits
    exact deletePlacements_spared h _ fun p mem => inColumn_spared fun strict => fits strict p mem
  · rename_i form
    simp only [form] at fits
    exact deletePlacements_spared h _ fun p mem => inRow_spared fun strict => fits strict p mem
  · rename_i form_c form_p form_q form_x form_y
    unfold GraphicsState.delete
    dsimp only
    split
    · exact cleared
    · exact cleared
    · split
      · exact .pure h
      · exact freed (bare _) _ _
    · split
      · exact .pure h
      · exact freed (bare _) _ _
    · rename_i form
      exact absurd form form_c
    · rename_i form
      exact absurd form form_p
    · rename_i form
      exact absurd form form_q
    · rename_i form
      exact absurd form form_x
    · rename_i form
      exact absurd form form_y
    · exact deletePlacements_spared h _ fun p _ => .pure trivial
    · exact .pure h

/-! ### One command -/

theorem animate_ledger (h : g.Ledger I F) : (g.animate cmd).1.Ledger I F := by
  obtain ⟨consistent, animations, same⟩ := @animate_consistent g cmd h.consistent
  rw [same] at consistent ⊢
  exact h.of_same consistent rfl rfl rfl h.holds.waiting

/-- Whatever the transmission decodes to may be stored, unless it is a query. -/
def Welcome (I : Image → Prop) (F : Frame → Prop) (files : List Char → Option Bytes)
    (cmd : Command) (payload : Bytes) : Prop :=
  ∀ cmd' format data, Decodes files cmd payload (cmd', format, data) →
    isByte 'q' cmd.action = false → Admits I F cmd' format data

/-- There is an id for a new image. -/
def IdRoom (cmd : Command) (g : GraphicsState) : Prop :=
  cmd.id = 0 → g.nextId + 1 < 2 ^ 32

/-- There is a number for what was decoded, and the image is placed, in the store that it has
been put in, at a cell that is there. -/
def StoreFits (build : Build) (cmd : Command) (format : ImageFormat) (data : Bytes)
    (g : GraphicsState) : Prop :=
  if isByte 'f' cmd.action then FrameRoom cmd g
  else IdRoom cmd g ∧ (isByte 'T' cmd.action = true → ∀ cmd' g' g'',
    build.assignId cmd g = .ok (cmd', g') → g'.storeImage cmd' format data = .ok g'' →
      OffsetsFit cmd' g'')

/-- What a transmission carries is measured, and what it decodes to has room. -/
def FinishFits (build : Build) (files : List Char → Option Bytes) (cmd : Command)
    (payload : Bytes) (g : GraphicsState) : Prop :=
  Measurable build files cmd payload ∧ ∀ cmd' format data,
    build.decodeTransmission files cmd payload = .ok (cmd', format, data) →
      StoreFits build cmd' format data g

theorem finishTransmission_spared (h : g.Ledger I F)
    (short : payload.length ≤ MAX_PENDING_PAYLOAD) (welcome : Welcome I F files cmd payload)
    (fits : build.Strict bad → FinishFits build files cmd payload g) (cursor : Nat × Nat) :
    Spared bad (build.finishTransmission files cmd payload cursor g) (·.1.Ledger I F) := by
  unfold Build.finishTransmission
  refine (decodeTransmission_spared short fun strict => (fits strict).1).and_eq.result.bind
    fun decoded decodes => ?_
  split
  · exact .pure h
  · rename_i cmd' format data
    obtain ⟨decodes, decoded⟩ := decodes _ rfl
    have room (strict : build.Strict bad) := (fits strict).2 _ _ _ decoded
    unfold StoreFits at room
    have action : cmd'.action = cmd.action := by
      cases decodes with
      | png => rfl
      | raw => rfl
    have admits := welcome _ _ _ decodes
    rw [← action] at admits
    split
    · rename_i frame
      have stored : isByte 'q' cmd'.action = false := by
        unfold isByte at frame ⊢
        rw [beq_iff_eq] at frame
        rw [frame]
        rfl
      simp only [if_pos frame] at room
      refine (storeFrame_spared h (admits stored) room).bind fun (g', resp) ledger => .pure ledger
    · rename_i image
      simp only [if_neg image] at room
      have assigned : Spared bad (build.assignId cmd' g) fun r =>
          r.2.Ledger I F ∧ ∃ id, r.1 = { cmd' with id } := by
        unfold Build.assignId
        split
        · rename_i new
          refine (Build.add_spared fun strict => (room strict).1 new).skip fun next =>
            .pure ⟨?_, next, rfl⟩
          exact h.of_same { h.consistent with } rfl rfl rfl h.holds.waiting
        · exact .pure ⟨h.of_same { h.consistent with } rfl rfl rfl h.holds.waiting, cmd'.id, rfl⟩
      refine assigned.and_eq.bind ?_
      · rintro ⟨_, g'⟩ ⟨⟨ledger, id, rfl⟩, given⟩
        dsimp only
        split
        · exact .pure ledger
        · rename_i stored
          have admits := admits (Bool.eq_false_iff.mpr stored)
          refine (Spared.of_yields (storeImage_yields ledger admits.fits
            (admits.image id))).and_eq.bind ?_
          rintro g'' ⟨ledger, put⟩
          split
          · rename_i placed
            exact placeAndRespond_spared ledger
              (fun strict => (room strict).2 placed _ _ _ given put) _ cursor
          · exact .pure ledger

/-- The actions that carry data. -/
def transmits (cmd : Command) : Bool :=
  match Char.ofNat cmd.action.toNat with
  | 't' | 'T' | 'q' | 'f' | '\x00' => true
  | _ => false

/-- More of a payload is waited for. -/
theorem Ledger.waits {pending : Pending} (h : g.Ledger I F) (typed : Typed pending.cmd)
    (short : pending.payload.length ≤ MAX_PENDING_PAYLOAD) :
    { g with pending := some pending }.Ledger I F := by
  refine h.of_same { h.consistent with short := ?_ } rfl rfl rfl ?_
  · rintro _ ⟨⟩
    exact short
  · rintro _ ⟨⟩
    exact typed

/-- The sums of a command that carries no data. -/
def CommandFits (cmd : Command) (cursor : Nat × Nat) (g : GraphicsState) : Prop :=
  match Char.ofNat cmd.action.toNat with
  | 'p' => ∀ id, g.resolveId cmd = some id → OffsetsFit { cmd with id } g
  | 'd' => DeleteFits cmd cursor g
  | _ => True

theorem command_spared (h : g.Ledger I F) (composes : Composes I F)
    (measures : build.Strict bad → Measures I F) (typed : Typed cmd) (cellX_lt : cmd.cellX < 2 ^ 32)
    (short : payload.length ≤ MAX_PENDING_PAYLOAD) (cursor : Nat × Nat)
    (welcome : transmits cmd = true → cmd.more ≠ 1 → Welcome I F files cmd payload)
    (finish : build.Strict bad → transmits cmd = true → cmd.more ≠ 1 →
      FinishFits build files cmd payload g)
    (fits : build.Strict bad → CommandFits cmd cursor g) :
    Spared bad (build.command files cmd payload cursor g) (·.1.Ledger I F) := by
  have transmission (carries : transmits cmd = true) : Spared bad (if cmd.more = 1 then
      pure ({ g with pending := some { cmd, payload } }, none, none)
      else build.finishTransmission files cmd payload cursor g : Checked Outcome)
      (·.1.Ledger I F) := by
    split
    · exact .pure (h.waits typed short)
    · rename_i last
      exact finishTransmission_spared h short (welcome carries last)
        (fun strict => finish strict carries last) cursor
  unfold CommandFits at fits
  unfold Build.command
  split
  · exact transmission (by simp [transmits, *])
  · exact transmission (by simp [transmits, *])
  · exact transmission (by simp [transmits, *])
  · exact transmission (by simp [transmits, *])
  · exact transmission (by simp [transmits, *])
  · rename_i action
    simp only [action] at fits
    exact place_spared h fits cursor
  · rename_i action
    simp only [action] at fits
    exact (delete_spared h fits).bind fun g' ledger => .pure ledger
  · exact .pure (animate_ledger h)
  · exact (compose_spared h composes measures typed.srcX_lt cellX_lt).bind
      fun (g', resp) ledger => .pure ledger
  · exact .pure h

theorem asUnsigned_lt (bits : Nat) (n : Int) : asUnsigned bits n < 2 ^ bits := by
  have positive : (0 : Int) < 2 ^ bits := Int.pow_pos (by decide)
  have low := Int.emod_nonneg n positive.ne'
  have high := Int.emod_lt_of_pos n positive
  have cast : ((2 ^ bits : Nat) : Int) = 2 ^ bits := Nat.cast_pow 2 bits
  unfold asUnsigned
  omega

theorem setKey_typed (typed : Typed cmd) (key value : Bytes) : Typed (setKey key value cmd) := by
  have word := asUnsigned_lt 32 (valueInt value)
  unfold setKey
  dsimp only
  split
  all_goals first
    | exact { typed with }
    | exact { typed with width_lt := word }
    | exact { typed with height_lt := word }
    | exact { typed with srcX_lt := word }

/-- A command has what no key takes from it. -/
theorem parseCommand_keeps {P : Command → Prop} (start : P {})
    (step : ∀ cmd, P cmd → ∀ key value, P (setKey key value cmd)) {control : Bytes}
    (parsed : parseCommand control = some cmd) : P cmd := by
  have loop (pairs : List Bytes) {before : Command} (held : P before)
      (parsed : parsePairs pairs before = some cmd) : P cmd := by
    induction pairs generalizing before with
    | nil => exact (Option.some.inj parsed) ▸ held
    | cons pair pairs ih =>
      rw [parsePairs] at parsed
      split at parsed
      · exact ih held parsed
      · split at parsed
        · cases parsed
        · exact ih (step _ held _ _) parsed
  exact loop _ start parsed

theorem parseCommand_typed {control : Bytes} (parsed : parseCommand control = some cmd) :
    Typed cmd :=
  parseCommand_keeps ⟨by decide, by decide, by decide⟩ (fun _ => setKey_typed) parsed

theorem parseCommand_cellX {control : Bytes} (parsed : parseCommand control = some cmd) :
    cmd.cellX < 2 ^ 32 := by
  refine parseCommand_keeps (P := (·.cellX < 2 ^ 32)) (by decide) ?_ parsed
  intro cmd held key value
  have word := asUnsigned_lt 32 (valueInt value)
  unfold setKey
  dsimp only
  split
  all_goals first
    | exact held
    | exact word

/-- The transmission that a command ends, if it ends one: the control data of its first
escape, with the payload of all of them. -/
def finishes (data : Bytes) (g : GraphicsState) : Option (Command × Bytes) :=
  let (control, payload) := splitControl data
  match parseCommand control with
  | none => none
  | some cmd =>
      match g.pending with
      | some pending =>
          if cmd.more = 1 then none
          else if pending.payload.length + payload.length ≤ MAX_PENDING_PAYLOAD then
            some (pending.cmd, pending.payload ++ payload)
          else some (pending.cmd, pending.payload)
      | none => if transmits cmd ∧ cmd.more ≠ 1 then some (cmd, payload) else none

/-- What a command needs for its sums and products to fit: a transmission that it ends, what
the decoder and the store do with it, and a command of another kind, what it does itself. -/
def DispatchFits (build : Build) (files : List Char → Option Bytes) (data : Bytes)
    (cursor : Nat × Nat) (g : GraphicsState) : Prop :=
  (∀ cmd payload, finishes data g = some (cmd, payload) →
    FinishFits build files cmd payload { g with pending := none }) ∧
  ∀ cmd, parseCommand (splitControl data).1 = some cmd → g.pending = none → CommandFits cmd cursor g

theorem dispatch_spared (h : g.Ledger I F) (composes : Composes I F)
    (measures : build.Strict bad → Measures I F) {data : Bytes} (kept : data.length ≤ MAX_APC)
    (welcome : ∀ cmd payload, finishes data g = some (cmd, payload) → Typed cmd →
      Welcome I F files cmd payload) {cursor : Nat × Nat}
    (fits : build.Strict bad → DispatchFits build files data cursor g) :
    Spared bad (build.dispatch files data cursor g) (·.1.Ledger I F) := by
  have payload := length_payload_le data
  have finish (strict : build.Strict bad) := (fits strict).1
  have other (strict : build.Strict bad) := (fits strict).2
  unfold finishes at welcome finish
  unfold Build.dispatch
  dsimp only at welcome finish ⊢
  split
  · exact .pure h
  · rename_i cmd parsed
    rw [parsed] at welcome finish
    dsimp only at welcome finish
    split
    · rename_i pending held
      rw [held] at welcome finish
      dsimp only at welcome finish
      have short := h.consistent.short pending held
      have typed := h.holds.waiting pending held
      have idle : Ledger I F { g with pending := none } :=
        h.of_same { h.consistent with short := nofun } rfl rfl rfl nofun
      have joined (pending' : Pending) (typed : Typed pending'.cmd)
          (short : pending'.payload.length ≤ MAX_PENDING_PAYLOAD)
          (welcome : cmd.more ≠ 1 → Welcome I F files pending'.cmd pending'.payload)
          (finish : build.Strict bad → cmd.more ≠ 1 →
            FinishFits build files pending'.cmd pending'.payload { g with pending := none }) :
          Spared bad (if cmd.more = 1 then
            pure ({ g with pending := some pending' }, none, none)
            else build.finishTransmission files pending'.cmd pending'.payload cursor
              { g with pending := none } : Checked Outcome) (·.1.Ledger I F) := by
        split
        · exact .pure (h.waits typed short)
        · rename_i last
          exact finishTransmission_spared idle short (welcome last)
            (fun strict => finish strict last) cursor
      by_cases room : pending.payload.length + (splitControl data).2.length ≤ MAX_PENDING_PAYLOAD
      · simp only [if_pos room] at welcome finish ⊢
        have longer : (pending.payload ++ (splitControl data).2).length ≤ MAX_PENDING_PAYLOAD := by
          rwa [List.length_append]
        exact joined ⟨pending.cmd, pending.payload ++ (splitControl data).2⟩ typed longer
          (fun last => welcome _ _ (if_neg last) typed)
          fun strict last => finish strict _ _ (if_neg last)
      · simp only [if_neg room] at welcome finish ⊢
        exact joined pending typed short (fun last => welcome _ _ (if_neg last) typed)
          fun strict last => finish strict _ _ (if_neg last)
    · rename_i idle
      rw [idle] at welcome finish
      dsimp only at welcome finish
      have typed := parseCommand_typed parsed
      have same : { g with pending := none } = g := by rw [← idle]
      refine command_spared h composes measures typed (parseCommand_cellX parsed) ?_ cursor
        (fun carries last => welcome _ _ (if_pos ⟨carries, last⟩) typed)
        (fun strict carries last => same ▸ finish strict _ _ (if_pos ⟨carries, last⟩))
        fun strict => other strict cmd parsed idle
      unfold MAX_APC at kept
      unfold MAX_PENDING_PAYLOAD
      omega

end GraphicsState

/-! ### Runs -/

namespace Build

open GraphicsState

/-- Commands of the strings that the parser keeps, as a build runs them, and resets. -/
def commands (build : Build) : Transition GraphicsState where
  init g := g = {}
  step g g' := g' = g.reset ∨ ∃ files data cursor out, data.length ≤ MAX_APC ∧
    build.dispatch files data cursor g = .ok (g', out)

theorem debug_commands : debug.commands = GraphicsState.commands := by
  unfold commands GraphicsState.commands
  simp only [debug_dispatch]

variable {build : Build} {g : GraphicsState}

theorem ledger_empty (I : Image → Prop) (F : Frame → Prop) : Ledger I F {} :=
  ⟨kept_empty.1, Nat.zero_le _, nofun, nofun, nofun⟩

/-- Anything of any size may be stored that decodes. -/
theorem welcome_any (files : List Char → Option Bytes) (cmd : Graphics.Command) (payload : Bytes) :
    Welcome (fun _ => True) (fun _ => True) files cmd payload :=
  fun _ _ _ decodes _ => ⟨decodes.length_le, fun _ _ => trivial, fun _ => trivial⟩

/-- Whatever is stored, no command subtracts what was not counted. -/
theorem dispatch_any (h : Ledger (fun _ => True) (fun _ => True) g) (files : List Char → Option Bytes)
    {data : Bytes} (short : data.length ≤ MAX_APC) (cursor : Nat × Nat) :
    Spared build.Underflow (build.dispatch files data cursor g)
      (·.1.Ledger (fun _ => True) fun _ => True) :=
  dispatch_spared h (fun _ _ _ _ _ _ => trivial) (fun strict => absurd strict underflow_lax) short
    (fun cmd payload _ _ => welcome_any files cmd payload) fun strict => absurd strict underflow_lax

theorem ledger_invariant : build.commands.Invariant (Ledger (fun _ => True) fun _ => True) where
  base := by
    rintro g rfl
    exact ledger_empty _ _
  step := by
    rintro g g' h (rfl | ⟨files, data, cursor, out, short, eq⟩)
    · exact ledger_empty _ _
    · exact (dispatch_any h files short cursor).of_eq_ok eq

/-- In every store that commands reach, in either build, the count is the sum of the data of
all images and frames and within the quota; and no command subtracts more from it than there
is. A release build checks no sum and no product, so that whatever overflows in it is a
subtraction, and a debug build makes the same ones as long as it goes on. -/
theorem bytes_accounted (build : Build) (h : build.commands.Reachable g) :
    g.totalBytes = g.images.total (·.data.length) + g.frames.total framesLength ∧
      g.totalBytes ≤ Graphics.QUOTA_BYTES ∧
      ∀ files data cursor, data.length ≤ MAX_APC →
        release.dispatch files data cursor g ≠ .error .overflow := by
  have ledger := ledger_invariant.reachable h
  refine ⟨ledger.consistent.counted, ledger.within, fun files data cursor short underflows => ?_⟩
  exact (dispatch_any ledger files short cursor).of_eq_error underflows ⟨rfl, rfl⟩

/-- A pixel with two placements takes three bytes. -/
theorem bytes_accounted_twicePlaced :
    twicePlaced.totalBytes =
        twicePlaced.images.total (·.data.length) + twicePlaced.frames.total framesLength ∧
      twicePlaced.totalBytes ≤ Graphics.QUOTA_BYTES ∧
      ∀ files data cursor, data.length ≤ MAX_APC →
        release.dispatch files data cursor twicePlaced ≠ .error .overflow :=
  bytes_accounted debug (debug_commands ▸ reachable_of_harmless reachable_twicePlaced)

end Build

end Posh.Term
