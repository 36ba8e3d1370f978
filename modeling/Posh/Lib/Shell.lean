import Mathlib.Data.Bool.AllAny
import Mathlib.Data.List.Basic

/-!
Words of a POSIX shell command line.

Blanks divide words outside quotes. Single quotes keep everything up to the next single
quote, a backslash the character behind it. Every other character with a meaning of its
own (operators, expansions, patterns, comments, double quotes) is refused, so that a line
that has words is a simple command with nothing to expand.
-/

namespace Posh.Lib.Shell

/-- The characters of a word, each with whether quoting keeps it from being special. -/
abbrev Word := List (Char × Bool)

def quoted (s : List Char) : Word :=
  s.map fun c => (c, true)

def bare (s : List Char) : Word :=
  s.map fun c => (c, false)

/-- Quote removal. -/
def text (w : Word) : List Char :=
  w.map Prod.fst

def QUOTE : Char := '\x27'

def isBlank (c : Char) : Bool :=
  c = ' ' || c = '\t'

/-- What is special outside quotes, besides quotes, backslashes and blanks. -/
def special : List Char := "|&;<>()$`\"\n*?[]#~\x7b\x7d!".toList

inductive Mode where
  | bare
  | quotes
  | escape
deriving DecidableEq, Repr

/-- A word taken up again. -/
def extend (cur : Option Word) (w : Word) : Option Word :=
  some (cur.getD [] ++ w)

/-- The words of a line, `cur` being the one at hand; `none` where it is no list of words. -/
def words : Mode → (cur : Option Word) → List Char → Option (List Word)
  | .bare, cur, [] => some cur.toList
  | .quotes, _, [] => none
  | .escape, _, [] => none
  | .quotes, cur, c :: rest =>
      if c = QUOTE then words .bare cur rest else words .quotes (extend cur (quoted [c])) rest
  | .escape, cur, c :: rest =>
      if c = '\n' then words .bare cur rest else words .bare (extend cur (quoted [c])) rest
  | .bare, cur, c :: rest =>
      if c = QUOTE then words .quotes (extend cur []) rest
      else if c = '\\' then words .escape cur rest
      else if isBlank c then (words .bare none rest).map (cur.toList ++ ·)
      else if c ∈ special then none
      else words .bare (extend cur (bare [c])) rest

/-- A name: letters, digits and underscores, the first no digit. -/
def isName : List Char → Bool
  | [] => false
  | c :: rest => (c.isAlpha || c = '_') && rest.all fun c => c.isAlphanum || c = '_'

/-- A word that is an assignment: a name and an equals sign outside quotes, and a value. -/
def assignment (w : Word) : Option (List Char × List Char) :=
  let name := w.takeWhile (· ≠ ('=', false))
  match w.dropWhile (· ≠ ('=', false)) with
  | [] => none
  | _ :: value =>
      if name.all (!·.2) && isName (text name) then some (text name, text value) else none

/-- A simple command. -/
structure Command where
  assignments : List (List Char × List Char)
  argv : List (List Char)
deriving DecidableEq, Repr

def reserved : List (List Char) :=
  ["if", "then", "else", "elif", "fi", "do", "done", "case", "esac", "while", "until", "for",
    "in", "function", "select", "time"].map String.toList

/-- Assignments come before the name of the command, which is no reserved word. -/
def command : List Word → Option Command
  | [] => some ⟨[], []⟩
  | w :: ws =>
      match assignment w with
      | some a => (command ws).map fun c => { c with assignments := a :: c.assignments }
      | none => if w ∈ reserved.map bare then none else some ⟨[], (w :: ws).map text⟩

def parse (line : List Char) : Option Command :=
  (words .bare none line).bind command

/-! ### Spellings -/

variable {s s' rest : List Char} {w w' : Word}

/-- Reading `s` adds `w` to the word at hand. -/
def Spells (s : List Char) (w : Word) : Prop :=
  ∀ cur rest, words .bare cur (s ++ rest) = words .bare (extend cur w) rest

theorem extend_extend (cur : Option Word) (w w' : Word) :
    extend (extend cur w) w' = extend cur (w ++ w') := by
  simp [extend]

theorem Spells.append (h : Spells s w) (h' : Spells s' w') : Spells (s ++ s') (w ++ w') := by
  intro cur rest
  rw [List.append_assoc, h, h', extend_extend]

/-- A character that stands for itself. -/
def Plain (c : Char) : Prop :=
  c ≠ QUOTE ∧ c ≠ '\\' ∧ isBlank c = false ∧ c ∉ special

instance : DecidablePred Plain :=
  fun c => inferInstanceAs (Decidable (c ≠ QUOTE ∧ c ≠ '\\' ∧ isBlank c = false ∧ c ∉ special))

theorem plain_alphanum {c : Char} (alphanum : c.isAlphanum = true) : Plain c := by
  have others : ∀ c ∈ QUOTE :: '\\' :: ' ' :: '\t' :: special, c.isAlphanum = false :=
    List.all_iff_forall_prop.mp rfl
  have apart : c ∉ QUOTE :: '\\' :: ' ' :: '\t' :: special := by
    intro mem
    rw [others c mem] at alphanum
    cases alphanum
  simp only [List.mem_cons, not_or] at apart
  obtain ⟨no_quote, no_escape, no_space, no_tab, no_special⟩ := apart
  exact ⟨no_quote, no_escape, by simp [isBlank, no_space, no_tab], no_special⟩

theorem spells_char {c : Char} (plain : Plain c) : Spells [c] (bare [c]) := by
  intro cur rest
  obtain ⟨no_quote, no_escape, no_blank, no_special⟩ := plain
  rw [List.singleton_append, words, if_neg no_quote, if_neg no_escape, no_blank,
    if_neg Bool.false_ne_true, if_neg no_special]

theorem spells_bare (some_ : s ≠ []) (plain : ∀ c ∈ s, Plain c) : Spells s (bare s) := by
  induction s with
  | nil => exact absurd rfl some_
  | cons c s ih =>
    have first := spells_char (plain c List.mem_cons_self)
    cases s with
    | nil => exact first
    | cons c' s =>
      exact first.append (ih nofun fun c mem => plain c (List.mem_cons_of_mem _ mem))

/-- A word whose characters are checked one by one. -/
theorem spells_word (some_ : s ≠ []) (checked : s.all (fun c => decide (Plain c)) = true) :
    Spells s (bare s) :=
  spells_bare some_ (List.all_iff_forall_prop.mp checked)

/-- A text in single quotes, each quote of its own escaped outside them. -/
def inQuotes (s : List Char) : List Char :=
  QUOTE :: (s.flatMap fun c => if c = QUOTE then [QUOTE, '\\', QUOTE, QUOTE] else [c]) ++ [QUOTE]

theorem words_quotes (s : List Char) (cur : Option Word) (rest : List Char) :
    words .quotes (extend cur []) ((s.flatMap fun c =>
      if c = QUOTE then [QUOTE, '\\', QUOTE, QUOTE] else [c]) ++ QUOTE :: rest) =
        words .bare (extend cur (quoted s)) rest := by
  induction s generalizing cur with
  | nil => rfl
  | cons c s ih =>
    have whole : extend cur (quoted (c :: s)) = extend (extend cur (quoted [c])) (quoted s) :=
      (extend_extend cur (quoted [c]) (quoted s)).symm
    rw [whole, ← ih, List.flatMap_cons, List.append_assoc]
    by_cases quote : c = QUOTE
    · -- The text is left, its quote read behind a backslash, and the text entered again.
      have same : extend (extend cur (quoted [c])) [] =
          extend (extend (extend cur []) (quoted [QUOTE])) [] := by
        rw [quote]
        simp [extend]
      rw [if_pos quote, same]
      rfl
    · have same : extend (extend cur (quoted [c])) [] = extend (extend cur []) (quoted [c]) := by
        simp [extend]
      rw [if_neg quote, List.singleton_append, words, if_neg quote, same]

theorem spells_inQuotes (s : List Char) : Spells (inQuotes s) (quoted s) := by
  intro cur rest
  unfold inQuotes
  rw [List.cons_append, List.cons_append, List.append_assoc, words, if_pos rfl]
  exact words_quotes s cur rest

/-! ### Lines -/

/-- A word in front of a blank. -/
theorem words_first (h : Spells s w) (rest : List Char) :
    words .bare none (s ++ ' ' :: rest) = (words .bare none rest).map (w :: ·) := by
  rw [h]
  rfl

/-- Words behind blanks. -/
theorem words_rest {pieces : List (List Char × Word)} (spelled : ∀ p ∈ pieces, Spells p.1 p.2)
    (w : Word) : words .bare (some w) (pieces.flatMap (' ' :: ·.1)) =
      some (w :: pieces.map (·.2)) := by
  induction pieces generalizing w with
  | nil => rfl
  | cons p pieces ih =>
    have later := ih (fun p mem => spelled p (List.mem_cons_of_mem _ mem)) p.2
    have first := spelled p List.mem_cons_self none (pieces.flatMap (' ' :: ·.1))
    rw [List.flatMap_cons, List.cons_append]
    change (words .bare none (p.1 ++ _)).map (w :: ·) = _
    rw [first]
    change (words .bare (some p.2) _).map (w :: ·) = _
    rw [later]
    rfl

theorem text_quoted (s : List Char) : text (quoted s) = s := by
  unfold text quoted
  rw [List.map_map]
  exact List.map_id s

theorem text_bare (s : List Char) : text (bare s) = s := by
  unfold text bare
  rw [List.map_map]
  exact List.map_id s

theorem isName_chars {name : List Char} (named : isName name = true) :
    ∀ c ∈ name, c.isAlphanum = true ∨ c = '_' := by
  cases name with
  | nil => exact nofun
  | cons first rest =>
    simp only [isName, Bool.and_eq_true, Bool.or_eq_true, decide_eq_true_eq, List.all_eq_true] at named
    obtain ⟨start, later⟩ := named
    intro c mem
    rcases List.mem_cons.mp mem with rfl | mem
    · exact start.imp_left fun letter => by simp [Char.isAlphanum, letter]
    · exact later c mem

/-- A name, an equals sign and a value in quotes. -/
theorem assignment_quoted {name : List Char} (named : isName name = true) (value : List Char) :
    assignment (bare name ++ ('=', false) :: quoted value) = some (name, value) := by
  have passes : ∀ p ∈ bare name, decide (p ≠ ('=', false)) = true := by
    intro p mem
    obtain ⟨c, inside, rfl⟩ := List.mem_map.mp mem
    refine decide_eq_true fun same => ?_
    obtain ⟨rfl, -⟩ := Prod.mk.inj same
    rcases isName_chars named _ inside with letter | underscore
    · exact absurd letter (by decide)
    · exact absurd underscore (by decide)
  have unquoted : (bare name).all (!·.2) = true := by
    simp [bare]
  unfold assignment
  rw [List.takeWhile_append_of_pos passes, List.dropWhile_append_of_pos passes]
  simp [unquoted, text_bare, text_quoted, named]

end Posh.Lib.Shell
