import Posh.Term.Terminal

/-!
OSC strings (`osc.rs`): titles, colours, hyperlinks, the clipboard, text sizing and
prompt marks.
-/

namespace Posh.Term

open Posh.Lib

/-- The terminator of a reply: as the query was terminated. -/
def stringTerminator (bel : Bool) : List Char :=
  if bel then ['\x07'] else "\x1b\\".toList

/-- The 16-bit-per-channel form of colour replies. -/
def formatRgb16 (c : Rgb) : Checked (List Char) := do
  let r ← mul 16 c.1.toNat 257
  let g ← mul 16 c.2.1.toNat 257
  let b ← mul 16 c.2.2.toNat 257
  return "rgb:".toList ++ hexPadded 4 r ++ "/".toList ++ hexPadded 4 g ++ "/".toList ++ hexPadded 4 b

/-- One channel of an `rgb:` spec: one to four hex digits, scaled to eight bits. -/
def colorChannel (chan : List Char) : Fallible Unit UInt8 := do
  if chan.isEmpty || utf8Length chan > 4 then .fail ()
  else
    let v ← Fallible.ofOption () (fromStrRadix (2 ^ 32 - 1) 16 chan)
    let max ← liftM (sub (2 ^ (4 * utf8Length chan)) 1)
    let scaled ← liftM (mul 32 v 255)
    let rounded ← liftM (add 32 scaled (max / 2))
    return UInt8.ofNat (rounded / max)

/-- `u8::from_str_radix(&hex[i..i + n], 16)` -/
def hexField (hex : List Char) (i n : Nat) : Fallible Unit Nat := do
  let field ← liftM (strSlice hex i (i + n))
  Fallible.ofOption () (fromStrRadix 255 16 field)

/-- A digit of the `#RGB` form. -/
def hexDigit (hex : List Char) (i : Nat) : Fallible Unit UInt8 := do
  let digit ← hexField hex i 1
  let byte ← liftM (mul 8 digit 17)
  return UInt8.ofNat byte

/-- The part of a color spec after `#`. -/
def hashSpec (hex : List Char) : Fallible Unit Rgb :=
  match utf8Length hex with
  | 3 => do
      let r ← hexDigit hex 0
      let g ← hexDigit hex 1
      let b ← hexDigit hex 2
      return (r, g, b)
  | 6 => do
      let r ← hexField hex 0 2
      let g ← hexField hex 2 2
      let b ← hexField hex 4 2
      return (UInt8.ofNat r, UInt8.ofNat g, UInt8.ofNat b)
  | _ => .fail ()

/-- The part of a color spec after `rgb:`. -/
def rgbSpec (rest : List Char) : Fallible Unit Rgb :=
  match rest.splitOn '/' with
  | [] => .fail ()
  | r :: chans => do
      let r ← colorChannel r
      match chans with
      | [] => .fail ()
      | g :: chans =>
          let g ← colorChannel g
          match chans with
          | [] => .fail ()
          | b :: chans =>
              let b ← colorChannel b
              if chans.isEmpty then return (r, g, b) else .fail ()

/-- X-style color specs: `rgb:RR/GG/BB`, `#RGB` and `#RRGGBB`. -/
def parseColorSpec (spec : List Char) : Fallible Unit Rgb :=
  match stripPrefix "rgb:".toList spec with
  | some rest => rgbSpec rest
  | none =>
      match stripPrefix ['#'] spec with
      | some hex => hashSpec hex
      | none => .fail ()

/-- The loop of `percent_decode` from byte `i` of `s` on, after `skip` bytes. -/
def percentLoop (s : List Char) : (i skip : Nat) → Bytes → Checked Bytes
  | _, _, [] => return []
  | i, skip + 1, _ :: rest => percentLoop s (i + 1) skip rest
  | i, 0, b :: rest => do
      let escaped ← (if b.toNat = '%'.toNat ∧ rest.length ≥ 2 then do
          let digits ← strSlice s (i + 1) (i + 3)
          pure (fromStrRadix 255 16 digits)
        else pure none)
      match escaped with
      | some v =>
          let out ← percentLoop s (i + 1) 2 rest
          return UInt8.ofNat v :: out
      | none =>
          let out ← percentLoop s (i + 1) 0 rest
          return b :: out

def percentDecode (s : List Char) : Checked (List Char) := do
  let out ← percentLoop s 0 0 (toUtf8 s)
  return fromUtf8Lossy out

/-- The path of a `file://` URI; other values stay as they are. -/
def parseFileUri (value : List Char) : Checked (List Char) :=
  match stripPrefix "file://".toList value with
  | none => return value
  | some rest =>
      let path := rest.dropWhile (· ≠ '/')
      percentDecode (if path.isEmpty then ['/'] else path)

/-- `s.parse::<u16>()` -/
def parseU16 (s : List Char) : Option Nat :=
  fromStrRadix 65535 10 s

namespace Terminal

/-! ### Colours -/

/-- One pair of OSC 4: an index and a spec, `?` queries. -/
def setPaletteColor (bel : Bool) (idx spec : List Char) (t : Terminal) : Checked Terminal :=
  match parseU16 idx with
  | none => return t
  | some i =>
      if i ≥ 256 then return t
      else if spec = ['?'] then do
        let color ← getAt t.palette i
        let report ← formatRgb16 color
        return t.respond ("\x1b]4;".toList ++ decimal i ++ ";".toList ++ report ++
          stringTerminator bel)
      else do
        let parsed ← (parseColorSpec spec).result
        match parsed with
        | .ok rgb =>
            let palette ← setAt t.palette i rgb
            return { t with palette }.touch
        | .error _ => return t

/-- OSC 4: pairs of an index and a spec. -/
def oscPalette (bel : Bool) : List (List Char) → Terminal → Checked Terminal
  | idx :: spec :: rest, t => do
      let t ← t.setPaletteColor bel idx spec
      oscPalette bel rest t
  | _, t => return t

/-- The dynamic colour OSC 10, 11 and 12 speak of. -/
def dynamicColor (code : Nat) (t : Terminal) : Option Rgb :=
  match code with
  | 10 => t.fgColor
  | 11 => t.bgColor
  | _ => t.cursorColor

def setDynamicColor (code : Nat) (color : Option Rgb) (t : Terminal) : Terminal :=
  match code with
  | 10 => { t with fgColor := color }
  | 11 => { t with bgColor := color }
  | _ => { t with cursorColor := color }

/-- OSC 10/11/12. -/
def oscDynamicColor (code : Nat) (rest : List Char) (bel : Bool) (t : Terminal) :
    Checked Terminal :=
  if rest = ['?'] then do
    let unset : Rgb := if code = 11 then (0, 0, 0) else (255, 255, 255)
    let report ← formatRgb16 ((t.dynamicColor code).getD unset)
    return t.respond ("\x1b]".toList ++ decimal code ++ ";".toList ++ report ++
      stringTerminator bel)
  else do
    let parsed ← (parseColorSpec rest).result
    match parsed with
    | .ok rgb => return (t.setDynamicColor code (some rgb)).touch
    | .error _ => return t

/-- OSC 104: the default palette, or its entries at the listed indices. -/
def oscResetPalette (rest : List Char) (t : Terminal) : Checked Terminal :=
  if rest.isEmpty then return { t with palette := defaultPalette }.touch
  else do
    let palette ← forEach (rest.splitOn ';') t.palette fun part palette =>
      match parseU16 part with
      | some i => if i < 256 then setAt palette i (defaultPaletteEntry i) else return palette
      | none => return palette
    return { t with palette }.touch

/-! ### Hyperlinks -/

/-- OSC 8: parameters, which may carry `id=`, and a URI. A link seen before keeps its
number. -/
def oscHyperlink (rest : List Char) (t : Terminal) : Checked Terminal :=
  let (params, uri) := (splitOnce ';' rest).getD ([], rest)
  if uri.isEmpty then return { t with cursor.hyperlink := 0 }
  else
    let id := ((params.splitOn ':').findSome? (stripPrefix "id=".toList)).getD []
    match t.hyperlinks.find? fun (_, h) => h.id == id && h.uri == uri with
    | some (k, _) => return { t with cursor.hyperlink := k }
    | none => do
        let next ← add 32 t.nextHyperlink 1
        return { t with
          nextHyperlink := next, hyperlinks := t.hyperlinks.insert next { id, uri }
          cursor.hyperlink := next }

/-! ### Clipboard -/

/-- An OSC 52 slot: `p` primary, `s` select, else the clipboard. -/
def selection (kind : Char) (t : Terminal) : Bytes :=
  match kind with
  | 'p' => t.primarySelection
  | 's' => t.selectSelection
  | _ => t.clipboard

def setSelection (data : Bytes) (t : Terminal) (kind : Char) : Terminal :=
  match kind with
  | 'p' => { t with primarySelection := data }
  | 's' => { t with selectSelection := data }
  | _ => { t with clipboard := data }

/-- The slots a selection names, the clipboard when it names none. -/
def clipboardTargets (sel : List Char) : List Char :=
  let named := sel.filter (· ∈ ['c', 'p', 's'])
  if named.isEmpty then ['c'] else named

/-- OSC 52: targets and base64 data, `?` queries the first target. -/
def oscClipboard (rest : List Char) (bel : Bool) (t : Terminal) : Checked Terminal :=
  let (sel, payload) := (splitOnce ';' rest).getD ([], rest)
  let kinds := clipboardTargets sel
  if payload = ['?'] then do
    let kind ← getAt kinds 0
    return t.respond ("\x1b]52;".toList ++ [kind] ++ ";".toList ++
      Base64.encode (t.selection kind) ++ stringTerminator bel)
  else
    match Base64.decode (toUtf8 payload) with
    | some decoded =>
        let t := kinds.foldl (setSelection decoded) t
        return { t with clipboardSeq := t.clipboardSeq + 1, clipboardKinds := kinds }.touch
    | none => return t

/-! ### Text sizing and marks -/

/-- The `w=` key of OSC 66 metadata. -/
def declaredWidth (metadata : List Char) : Option Nat :=
  (metadata.splitOn ':').findSome? fun kv =>
    match splitOnce '=' kv with
    | some (k, v) => if k = ['w'] then parseU16 v else none
    | none => none

/-- OSC 66: the text as ordinary cells, and the cursor moved by a declared width. -/
def oscTextSize (rest : List Char) (t : Terminal) : Checked Terminal :=
  let (metadata, text) := (splitOnce ';' rest).getD ([], rest)
  let t := { t with lastTextSize := some rest }
  if text.isEmpty then return t
  else do
    let start := t.cursor.col
    let t ← forEach text t fun ch t => t.print ch
    match (declaredWidth metadata).filter (· > 0) with
    | some w =>
        let last ← t.lastCol
        return { t with
          cursor.col := min (satAdd 16 start w) last, cursor.pendingWrap := false }.touch
    | none => return t.touch

def promptMark (rest : List Char) : Option SemanticMark :=
  let kind := (rest.splitOn ';').headD []
  if kind = ['A'] then some .promptStart
  else if kind = ['B'] then some .inputStart
  else if kind = ['C'] then some .outputStart
  else if kind = ['D'] then some .commandEnd
  else none

/-- OSC 133: marks the cursor's row. -/
def oscPromptMark (rest : List Char) (t : Terminal) : Checked Terminal :=
  match promptMark rest with
  | none => return t
  | some mark => do
      let t ← t.modifyScr (·.modifyRow t.cursor.row fun r => return { r with mark := some mark })
      return t.touch

/-! ### Dispatch -/

def oscCommand (code : Nat) (rest : List Char) (bel : Bool) (t : Terminal) : Checked Terminal :=
  match code with
  | 0 => return { t with title := rest, iconTitle := rest }.touch
  | 1 => return { t with iconTitle := rest }.touch
  | 2 => return { t with title := rest }.touch
  | 4 => oscPalette bel (rest.splitOn ';') t
  | 7 => do
      let pwd ← parseFileUri rest
      return { t with pwd }.touch
  | 8 => t.oscHyperlink rest
  | 9 => return { t with lastNotification := some rest }.touch
  | 10 | 11 | 12 => t.oscDynamicColor code rest bel
  | 22 => return { t with pointerShape := rest }
  | 52 => t.oscClipboard rest bel
  | 66 => t.oscTextSize rest
  | 99 =>
      let body := ((splitOnce ';' rest).map (·.2)).getD rest
      return { t with lastNotification := some body }.touch
  | 104 => t.oscResetPalette rest
  | 110 => return { t with fgColor := none }
  | 111 => return { t with bgColor := none }
  | 112 => return { t with cursorColor := none }
  | 133 => t.oscPromptMark rest
  | _ => return t

def oscDispatch (data : Bytes) (bel : Bool) (t : Terminal) : Checked Terminal :=
  let s := fromUtf8Lossy data
  let (code, rest) := (splitOnce ';' s).getD (s, [])
  match parseU16 code with
  | some code => t.oscCommand code rest bel
  | none => return t

end Terminal

end Posh.Term
