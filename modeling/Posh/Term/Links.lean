import Posh.Term.Runs
import Posh.Term.Silent
import Posh.Term.Texts

/-!
The table of hyperlinks.

Links are numbered from one as they come, a URI with its id once only, and no link is ever
forgotten: only OSC 8 writes the table.
-/

namespace Posh.Term

open Posh.Lib

/-- What OSC 8 stores: there is a URI, and the id is one of the parameters, which are separated
by colons and end at a semicolon. -/
structure Hyperlink.Named (h : Hyperlink) : Prop where
  uri : h.uri ≠ []
  semicolon : ';' ∉ h.id
  colon : ':' ∉ h.id

/-- The links of a table with `next` of them, numbered in the order they came. -/
structure Catalogue (links : AssocMap Hyperlink) (next : Nat) : Prop where
  keys : links.map Prod.fst = List.range' 1 next
  once : links.values.Nodup
  named : ∀ h ∈ links.values, h.Named
  small : next < 2 ^ 32

theorem catalogue_nil : Catalogue [] 0 :=
  ⟨rfl, List.nodup_nil, nofun, by decide⟩

namespace Catalogue

variable {links : AssocMap Hyperlink} {next : Nat} {h : Hyperlink}

theorem distinct (c : Catalogue links next) : links.Distinct := by
  unfold AssocMap.Distinct
  rw [c.keys]
  exact List.nodup_range'

theorem numbered (c : Catalogue links next) (e : Nat × Hyperlink) (mem : e ∈ links) :
    1 ≤ e.1 ∧ e.1 ≤ next := by
  have key : e.1 ∈ List.range' 1 next := c.keys ▸ List.mem_map_of_mem (f := Prod.fst) mem
  have bounds := List.mem_range'_1.mp key
  omega

/-- The next number names no link yet. -/
theorem erase_next (c : Catalogue links next) : links.erase (next + 1) = links := by
  refine List.filter_eq_self.mpr ?_
  intro e mem
  have le := (c.numbered e mem).2
  rw [bne_iff_ne]
  omega

theorem insert_next (c : Catalogue links next) : links.insert (next + 1) h = links ++ [(next + 1, h)] := by
  unfold AssocMap.insert
  rw [c.erase_next]

theorem add (c : Catalogue links next) (named : h.Named) (new : h ∉ links.values)
    (small : next + 1 < 2 ^ 32) : Catalogue (links.insert (next + 1) h) (next + 1) where
  keys := by
    rw [c.insert_next, List.map_append, c.keys, List.range'_1_concat, Nat.add_comm 1 next]
    rfl
  once := by
    rw [c.insert_next]
    unfold AssocMap.values
    rw [List.map_append]
    refine List.nodup_append.mpr ⟨c.once, List.nodup_singleton _, ?_⟩
    rintro a old b last rfl
    rw [List.map_singleton, List.mem_singleton] at last
    subst last
    exact new old
  named := by
    rw [c.insert_next]
    intro h' mem
    unfold AssocMap.values at mem
    rw [List.map_append] at mem
    rcases List.mem_append.mp mem with old | last
    · exact c.named h' old
    · rw [List.map_singleton, List.mem_singleton] at last
      exact last ▸ named
  small := small

/-- Every number given out names a link. -/
theorem found (c : Catalogue links next) {k : Nat} (one : 1 ≤ k) (given : k ≤ next) :
    ∃ h, links.lookup k = some h := by
  have key : k ∈ links.map Prod.fst := by
    rw [c.keys, List.mem_range'_1]
    omega
  obtain ⟨e, mem, rfl⟩ := List.mem_map.mp key
  exact ⟨e.2, c.distinct.lookup_of_mem mem⟩

/-- Number zero is no link. -/
theorem lookup_zero (c : Catalogue links next) : links.lookup 0 = none := by
  cases found : links.lookup 0 with
  | none => rfl
  | some h =>
    have one := (c.numbered _ (AssocMap.mem_of_lookup found)).1
    omega

theorem named_of_lookup {k : Nat} (c : Catalogue links next) (found : links.lookup k = some h) :
    h.Named :=
  c.named h (List.mem_map_of_mem (f := Prod.snd) (AssocMap.mem_of_lookup found))

/-- A link has one number. -/
theorem number_unique {k k' : Nat} (c : Catalogue links next) (found : links.lookup k = some h)
    (found' : links.lookup k' = some h) : k = k' := by
  have same := List.inj_on_of_nodup_map c.once (AssocMap.mem_of_lookup found)
    (AssocMap.mem_of_lookup found') rfl
  exact congrArg Prod.fst same

theorem number_of_mem (c : Catalogue links next) (mem : h ∈ links.values) :
    ∃ k, links.lookup k = some h := by
  obtain ⟨e, inside, rfl⟩ := List.mem_map.mp mem
  exact ⟨e.1, c.distinct.lookup_of_mem inside⟩

/-- The links known are kept when a new one comes. -/
theorem lookup_add {k : Nat} (known : k ≤ next) :
    (links.insert (next + 1) h).lookup k = links.lookup k := by
  rw [AssocMap.lookup_insert, if_neg (by omega)]

end Catalogue

/-! ### Parameters -/

theorem not_mem_of_mem_splitOn {sep : Char} {s part : List Char} (inside : part ∈ s.splitOn sep) :
    sep ∉ part := by
  induction s generalizing part with
  | nil =>
    rw [List.splitOn_nil, List.mem_singleton] at inside
    rw [inside]
    exact List.not_mem_nil
  | cons c s ih =>
    rw [List.splitOn_cons_eq_if_modifyHead] at inside
    split at inside
    · rcases List.mem_cons.mp inside with rfl | later
      · exact List.not_mem_nil
      · exact ih later
    · rename_i other
      cases parts : s.splitOn sep with
      | nil =>
        rw [parts] at inside
        exact absurd inside List.not_mem_nil
      | cons first rest =>
        rw [parts, List.modifyHead_cons] at inside
        rw [parts] at ih
        rcases List.mem_cons.mp inside with rfl | later
        · intro mem
          rcases List.mem_cons.mp mem with rfl | deeper
          · exact other (beq_self_eq_true sep)
          · exact ih List.mem_cons_self deeper
        · exact ih (List.mem_cons_of_mem _ later)

/-- The parameters of a link, and its URI. -/
def linkParts (rest : List Char) : List Char × List Char :=
  (splitOnce ';' rest).getD ([], rest)

/-- The id among the parameters of a link. -/
def linkId (params : List Char) : List Char :=
  ((params.splitOn ':').findSome? (stripPrefix "id=".toList)).getD []

theorem mem_linkId {params : List Char} {c : Char} (mem : c ∈ linkId params) :
    c ∈ params ∧ c ≠ ':' := by
  unfold linkId at mem
  cases found : (params.splitOn ':').findSome? (stripPrefix "id=".toList) with
  | none =>
    rw [found] at mem
    exact absurd mem List.not_mem_nil
  | some id =>
    rw [found] at mem
    obtain ⟨part, inside, stripped⟩ := List.exists_of_findSome?_eq_some found
    have within := mem_of_stripPrefix stripped mem
    refine ⟨mem_of_mem_splitOn inside within, ?_⟩
    rintro rfl
    exact not_mem_of_mem_splitOn inside within

theorem named_link {rest : List Char} (uri : (linkParts rest).2 ≠ []) :
    Hyperlink.Named { id := linkId (linkParts rest).1, uri := (linkParts rest).2 } where
  uri := uri
  semicolon := by
    intro mem
    have inside := (mem_linkId mem).1
    unfold linkParts at inside
    cases found : splitOnce ';' rest with
    | none =>
      rw [found] at inside
      exact absurd inside List.not_mem_nil
    | some parts =>
      rw [found] at inside
      exact (splitOnce_spec found).2 inside
  colon := fun mem => (mem_linkId mem).2 rfl

/-- What is written for a link is read as its id. -/
theorem linkId_written {id : List Char} (colon : ':' ∉ id) :
    linkId (if id.isEmpty then [] else "id=".toList ++ id) = id := by
  cases id with
  | nil => rfl
  | cons c id =>
    have whole : ':' ∉ "id=".toList ++ c :: id := by
      intro mem
      rcases List.mem_append.mp mem with key | value
      · revert key
        decide
      · exact colon value
    unfold linkId
    rw [List.isEmpty_cons, if_neg Bool.false_ne_true, List.splitOn_eq_singleton whole]
    rfl

/-- What is written of a link is its id, and its URI. -/
theorem linkParts_written {h : Hyperlink} (named : h.Named) :
    linkParts ((if h.id.isEmpty then [] else "id=".toList ++ h.id) ++ ';' :: h.uri) =
      (if h.id.isEmpty then [] else "id=".toList ++ h.id, h.uri) := by
  have absent : ';' ∉ (if h.id.isEmpty then [] else "id=".toList ++ h.id) := by
    split
    · exact List.not_mem_nil
    · intro mem
      rcases List.mem_append.mp mem with key | value
      · revert key
        decide
      · exact named.semicolon value
  unfold linkParts
  rw [splitOnce_append absent]
  rfl

/-! ### OSC 8 -/

namespace Terminal

variable {t t' t'' : Terminal} {rest : List Char}

def Catalogued (t : Terminal) : Prop :=
  Catalogue t.hyperlinks t.nextHyperlink

/-- The terminal with a link opened that its table holds as number `k`. -/
def opened (k : Nat) (t : Terminal) : Terminal :=
  { t with cursor.hyperlink := k }

/-- The terminal with a link of its own number opened. -/
def recorded (h : Hyperlink) (t : Terminal) : Terminal :=
  { t with
    nextHyperlink := t.nextHyperlink + 1
    hyperlinks := t.hyperlinks.insert (t.nextHyperlink + 1) h
    cursor.hyperlink := t.nextHyperlink + 1 }

/-- The link that an OSC 8 names. -/
def namedLink (rest : List Char) : Hyperlink where
  id := linkId (linkParts rest).1
  uri := (linkParts rest).2

/-- A link is closed, found in the table or put there, if there is a number for it. -/
theorem oscHyperlink_cases (c : t.Catalogued) (rest : List Char) :
    Guarded (namedLink rest ∉ t.hyperlinks.values → t.nextHyperlink + 1 < 2 ^ 32)
      (t.oscHyperlink rest) fun t' =>
      (linkParts rest).2 = [] ∧ t' = t.opened 0 ∨
      (∃ k, t.hyperlinks.lookup k = some (namedLink rest) ∧ t' = t.opened k) ∨
      (linkParts rest).2 ≠ [] ∧ namedLink rest ∉ t.hyperlinks.values ∧
        t.nextHyperlink + 1 < 2 ^ 32 ∧ t' = t.recorded (namedLink rest) := by
  unfold oscHyperlink namedLink linkParts
  generalize (splitOnce ';' rest).getD ([], rest) = parts
  obtain ⟨params, uri⟩ := parts
  dsimp only
  split
  · rename_i empty
    exact .pure (.inl ⟨List.isEmpty_iff.mp empty, rfl⟩)
  · rename_i named
    have uri_ne : uri ≠ [] := fun empty => named (List.isEmpty_iff.mpr empty)
    split
    · rename_i k h found
      refine .pure (.inr (.inl ⟨k, ?_, rfl⟩))
      have same := List.find?_some found
      simp only [Bool.and_eq_true, beq_iff_eq] at same
      obtain ⟨id_eq, uri_eq⟩ := same
      rw [show linkId params = h.id from id_eq.symm, ← uri_eq]
      exact c.distinct.lookup_of_mem (List.mem_of_find?_eq_some found)
    · rename_i unknown
      have new : (⟨linkId params, uri⟩ : Hyperlink) ∉ t.hyperlinks.values := by
        intro mem
        obtain ⟨e, inside, same⟩ := List.mem_map.mp mem
        rw [List.find?_eq_none] at unknown
        refine unknown e inside ?_
        rw [same]
        change (linkId params == linkId params && uri == uri) = true
        rw [beq_self_eq_true, beq_self_eq_true, Bool.and_self]
      refine (Guarded.add.weaken fun room => room new).bind ?_
      rintro next ⟨rfl, small⟩
      exact .pure (.inr (.inr ⟨uri_ne, new, small, rfl⟩))

theorem Catalogued.recorded {h : Hyperlink} (c : t.Catalogued) (named : h.Named)
    (new : h ∉ t.hyperlinks.values) (small : t.nextHyperlink + 1 < 2 ^ 32) :
    (t.recorded h).Catalogued :=
  c.add named new small

/-- The table is sound still, and was only added to. -/
structure Records (t t' : Terminal) : Prop where
  catalogued : t'.Catalogued
  kept : t.hyperlinks <+: t'.hyperlinks

theorem Records.refl (c : t.Catalogued) : t.Records t :=
  ⟨c, List.prefix_refl _⟩

theorem Records.trans (h : t.Records t') (h' : t'.Records t'') : t.Records t'' :=
  ⟨h'.catalogued, h.kept.trans h'.kept⟩

/-- A change of other fields. -/
theorem records_of_eq (c : t.Catalogued)
    (links : (t'.hyperlinks, t'.nextHyperlink) = (t.hyperlinks, t.nextHyperlink)) : t.Records t' := by
  obtain ⟨links, next⟩ := Prod.mk.inj links
  refine ⟨?_, ?_⟩
  · unfold Catalogued
    rw [links, next]
    exact c
  · exact ⟨[], (List.append_nil _).trans links.symm⟩

theorem records_recorded {h : Hyperlink} (c : t.Catalogued) (named : h.Named)
    (new : h ∉ t.hyperlinks.values) (small : t.nextHyperlink + 1 < 2 ^ 32) :
    t.Records (t.recorded h) := by
  refine ⟨c.recorded named new small, ?_⟩
  change t.hyperlinks <+: t.hyperlinks.insert (t.nextHyperlink + 1) h
  rw [Catalogue.insert_next c]
  exact List.prefix_append ..

theorem oscHyperlink_records (c : t.Catalogued) (rest : List Char) :
    Guarded False (t.oscHyperlink rest) t.Records := by
  refine ((oscHyperlink_cases c rest).weaken False.elim).mono ?_
  rintro t' (⟨-, rfl⟩ | ⟨k, -, rfl⟩ | ⟨uri, new, small, rfl⟩)
  · exact records_of_eq c rfl
  · exact records_of_eq c rfl
  · exact records_recorded c (named_link uri) new small

/-! ### Runs -/

/-- Only OSC 8 writes the table. -/
theorem dispatch_links (files : Files) {action : Action} (other : ¬ IsLinkAction action) (t : Terminal) :
    Guarded False (t.dispatch files action) fun t' =>
      (t'.hyperlinks, t'.nextHyperlink) = (t.hyperlinks, t.nextHyperlink) := by
  have alike := @dispatch_alike { links := some (t.hyperlinks, t.nextHyperlink) } files action
    (fun link => absurd link other) t
  change t.dispatch files action = _ <$> t.dispatch files action at alike
  cases done : t.dispatch files action with
  | error e => exact .error id
  | ok t' =>
    rw [done] at alike
    have same := Except.ok.inj alike
    have links := congrArg (fun t' : Terminal => (t'.hyperlinks, t'.nextHyperlink)) same
    exact .ok links

theorem dispatch_records (files : Files) (action : Action) (c : t.Catalogued) :
    Guarded False (t.dispatch files action) t.Records := by
  by_cases link : IsLinkAction action
  · obtain ⟨data, bel, rfl, code⟩ := link
    change Guarded False (t.oscDispatch data bel) _
    unfold oscCode at code
    unfold oscDispatch
    dsimp only
    rw [code]
    exact oscHyperlink_records c _
  · exact (dispatch_links files link t).mono fun _ => records_of_eq c

theorem processByte_records (files : Files) (b : UInt8) (c : t.Catalogued) :
    Guarded False (t.processByte files b) t.Records := by
  apply (Guarded.trivial _).bind
  rintro ⟨parser, actions⟩ _
  refine Guarded.forEach (I := t.Records) (records_of_eq c rfl) fun action _ t' records => ?_
  exact (dispatch_records files action records.catalogued).mono fun _ => records.trans

theorem resize_records (c : t.Catalogued) (rows cols : Nat) :
    Guarded False (t.resize rows cols) t.Records := by
  unfold resize
  dsimp only
  split
  · exact .ok (.refl c)
  · apply (Guarded.trivial _).bind
    rintro ⟨primary, primaryCur⟩ _
    apply (Guarded.trivial _).bind
    rintro ⟨alt, altCur⟩ _
    apply (Guarded.trivial _).bind
    intro lastRow _
    apply (Guarded.trivial _).bind
    intro lastCol _
    exact .pure (records_of_eq c rfl)

theorem catalogued_invariant : session.Invariant Catalogued where
  base := by
    rintro t ⟨rows, cols, scrollback, -, -, -, -, rfl⟩
    exact catalogue_nil
  step := by
    rintro t t' c ⟨e, -, eq⟩
    cases e with
    | process files bytes =>
      have all : Guarded False (t.process files bytes) Catalogued :=
        Guarded.forEach c fun b _ t c => (processByte_records files b c).mono fun _ => Records.catalogued
      exact all.of_eq_ok eq
    | resize rows cols => exact ((resize_records c rows cols).of_eq_ok eq).catalogued

end Terminal

end Posh.Term
