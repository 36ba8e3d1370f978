import Posh.Remote.Noticed
import Posh.Term.Links
import Posh.Term.RowEdits

/-!
Links that are found.

A number names its link for as long as the terminal is used, and no cell and no cursor carries
one that was never given out.
-/

namespace Posh.Remote

open Posh.Lib Posh.Term
open Posh.Term.Terminal

variable {t t' : Terminal}

theorem Use.records (c : t.Catalogued) (use : Use) : Guarded False (use.apply t) t.Records := by
  cases use with
  | byte files b => exact processByte_records files b c
  | resize rows cols => exact resize_records c _ _
  | takeResponses => exact .pure (records_of_eq c rfl)
  | takeScreenSwitch => exact .pure (records_of_eq c rfl)

theorem step_records (c : t.Catalogued) (step : usage.step t t') : t.Records t' := by
  obtain ⟨use, applied⟩ := step
  exact (use.records c).of_eq_ok applied

theorem usage_catalogued : usage.Invariant Catalogued where
  base := by
    rintro t ⟨rows, cols, scrollback, rfl⟩
    exact catalogue_nil
  step _ _ c step := (step_records c step).catalogued

theorem runs_record (c : t.Catalogued) (runs : usage.Runs t t') : t.Records t' :=
  usage.runs_preserve (I := t.Records)
    (fun _ _ h step => h.trans (step_records h.catalogued step)) runs (.refl c)

/-- `k` is no link, or one of the table. -/
def Found (t : Terminal) (k : Nat) : Prop :=
  k = 0 ∨ ∃ h, t.hyperlinks.lookup k = some h

/-- Numbers given out are found. -/
theorem found_of_le (c : t.Catalogued) {k : Nat} (given : k ≤ t.nextHyperlink) : Found t k := by
  by_cases zero : k = 0
  · exact .inl zero
  · exact .inr (Catalogue.found c (Nat.one_le_iff_ne_zero.mpr zero) given)

/-- A link opened, with a URI of one letter. -/
def openedLink : Bytes :=
  [0x1B, 0x5D, 0x38, 0x3B, 0x3B, 0x75, 0x1B, 0x5C]

/-- Links are numbered from one on, each once; every number the terminal carries is found; and
what a number names it names for good. -/
theorem links_found (reached : usage.Reachable t) (later : usage.Runs t t') :
    (t.hyperlinks.map Prod.fst = List.range' 1 t.nextHyperlink ∧ t.hyperlinks.values.Nodup) ∧
    (∀ row ∈ (t.primary.grid ++ t.primary.scrollback) ++ (t.alt.grid ++ t.alt.scrollback),
      ∀ cell ∈ row.cells, Found t cell.hyperlink) ∧
    (Found t t.cursor.hyperlink ∧ Found t t.savedPrimary.cursor.hyperlink ∧
      Found t t.savedAlt.cursor.hyperlink) ∧
    ∀ k h, t.hyperlinks.lookup k = some h → t'.hyperlinks.lookup k = some h := by
  have c : t.Catalogued := usage_catalogued.reachable reached
  have within : t.LinksWithin t.nextHyperlink := (kept_invariant.reachable reached).linked
  refine ⟨⟨c.keys, c.once⟩, ?_, ⟨found_of_le c within.cursor, found_of_le c within.savedPrimary,
    found_of_le c within.savedAlt⟩, ?_⟩
  · intro row mem cell inside
    have carried : t.EveryRow (Screen.Cells (Cell.Within t.nextHyperlink)) :=
      ⟨within.primary, within.alt⟩
    exact found_of_le c (carried.every row mem cell inside).link
  · intro k h found
    have records := runs_record c later
    exact Catalogue.distinct records.catalogued |>.lookup_of_mem
      (records.kept.subset (AssocMap.mem_of_lookup found))

/-- A link is found after a reset. -/
theorem links_found_reset : ∃ t t' h, (new 1 2).process (fun _ => none) openedLink = .ok t ∧
    t.process (fun _ => none) [0x1B, 0x63] = .ok t' ∧ t'.hyperlinks.lookup 1 = some h := by
  obtain ⟨t, opened⟩ : ∃ t, (new 1 2).process (fun _ => none) openedLink = .ok t := ⟨_, rfl⟩
  obtain ⟨t', reset⟩ : ∃ t', t.process (fun _ => none) [0x1B, 0x63] = .ok t' := by
    cases opened
    exact ⟨_, rfl⟩
  have fresh : usage.Reachable (new 1 2) := .of_init ⟨1, 2, DEFAULT_SCROLLBACK, rfl⟩
  have links := links_found (fresh.runs (process_runs _ _ opened)) (process_runs _ _ reset)
  refine ⟨t, t', { id := [], uri := ['u'] }, opened, reset, links.2.2.2 1 _ ?_⟩
  cases opened
  rfl

end Posh.Remote
