import Posh.Lib.Shell

/-!
The command that ssh runs on the remote host (`remote/sshwrap.rs`).

Values and arguments are quoted for a POSIX shell, names are checked instead. The words of
the command are the assignments, the server with its options, and the arguments as they
are, whatever they hold.
-/

namespace Posh.Remote

open Posh.Lib Posh.Lib.Shell

inductive Family where
  | auto
  | inet
  | inet6
deriving DecidableEq, Repr

/-- A port range that was validated: digits and a colon. -/
structure PortRange where
  chars : List Char
  nonempty : chars ≠ []
  plain : ∀ c ∈ chars, c.isDigit = true ∨ c = ':'

structure SshOptions where
  family : Family
  portRange : Option PortRange

def shellQuote (s : List Char) : List Char :=
  '\x27' :: (s.flatMap fun c => if c = '\x27' then "'\\''".toList else [c]) ++ ['\x27']

/-- Locale variables as environment prefixes, then the server with the relevant flags. -/
def remoteCommand (opts : SshOptions) (remoteCmd : List (List Char))
    (localeVars : List (List Char × List Char)) : List Char :=
  localeVars.flatMap (fun v => v.1 ++ '=' :: shellQuote v.2 ++ [' ']) ++
    "posh-server new".toList ++
    (match opts.family with
      | .inet => " -4".toList
      | .inet6 => " -6".toList
      | .auto => []) ++
    (match opts.portRange with
      | some range => " -p ".toList ++ range.chars
      | none => []) ++
    (if remoteCmd = [] then []
      else " --".toList ++ remoteCmd.flatMap fun arg => ' ' :: shellQuote arg)

/-- Only `[A-Za-z_][A-Za-z0-9_]*`. -/
def isShellSafeName (name : List Char) : Bool :=
  match name with
  | c :: chars => (c.isAlpha || c = '_') && chars.all fun c => c.isAlphanum || c = '_'
  | [] => false

/-! ### Pieces -/

theorem isShellSafeName_eq (name : List Char) : isShellSafeName name = isName name := by
  cases name <;> rfl

namespace SshOptions

/-- The words of the options. -/
def words (opts : SshOptions) : List (List Char) :=
  (match opts.family with
    | .inet => ["-4".toList]
    | .inet6 => ["-6".toList]
    | .auto => []) ++
  match opts.portRange with
  | some range => ["-p".toList, range.chars]
  | none => []

end SshOptions

/-- The words behind the name of the server. -/
def serverPieces (opts : SshOptions) (remoteCmd : List (List Char)) : List (List Char × Word) :=
  ("new".toList :: opts.words).map (fun s => (s, bare s)) ++
    if remoteCmd = [] then []
    else ("--".toList, bare "--".toList) :: remoteCmd.map fun arg => (shellQuote arg, quoted arg)

theorem remoteCommand_eq (opts : SshOptions) (remoteCmd : List (List Char))
    (localeVars : List (List Char × List Char)) : remoteCommand opts remoteCmd localeVars =
      localeVars.flatMap (fun v => (v.1 ++ '=' :: shellQuote v.2) ++ [' ']) ++
        ("posh-server".toList ++ (serverPieces opts remoteCmd).flatMap (' ' :: ·.1)) := by
  unfold remoteCommand serverPieces SshOptions.words
  obtain ⟨family, portRange⟩ := opts
  have args : (remoteCmd.map fun arg => (shellQuote arg, quoted arg)).flatMap (' ' :: ·.1) =
      remoteCmd.flatMap fun arg => ' ' :: shellQuote arg := List.flatMap_map ..
  by_cases none_ : remoteCmd = []
  · cases family <;> cases portRange <;> simp [none_]
  · cases family <;> cases portRange <;> simp [none_, ← args]

theorem spells_options (opts : SshOptions) : ∀ s ∈ opts.words, Spells s (bare s) := by
  unfold SshOptions.words
  obtain ⟨family, portRange⟩ := opts
  intro s mem
  rcases List.mem_append.mp mem with flag | port
  · cases family with
    | auto => cases flag
    | inet =>
      obtain rfl := List.mem_singleton.mp flag
      exact spells_word (by decide) rfl
    | inet6 =>
      obtain rfl := List.mem_singleton.mp flag
      exact spells_word (by decide) rfl
  · cases portRange with
    | none => cases port
    | some range =>
      simp only [List.mem_cons, List.not_mem_nil, or_false] at port
      rcases port with rfl | rfl
      · exact spells_word (by decide) rfl
      · refine spells_bare range.nonempty fun c mem => ?_
        rcases range.plain c mem with digit | rfl
        · exact plain_alphanum (by simp [Char.isAlphanum, digit])
        · decide

theorem spells_serverPieces (opts : SshOptions) (remoteCmd : List (List Char)) :
    ∀ p ∈ serverPieces opts remoteCmd, Spells p.1 p.2 := by
  unfold serverPieces
  intro p mem
  rcases List.mem_append.mp mem with word | arg
  · obtain ⟨s, inside, rfl⟩ := List.mem_map.mp word
    rcases List.mem_cons.mp inside with rfl | option
    · exact spells_word (by decide) rfl
    · exact spells_options opts s option
  · split at arg
    · cases arg
    · rcases List.mem_cons.mp arg with rfl | arg
      · exact spells_word (by decide) rfl
      · obtain ⟨a, -, rfl⟩ := List.mem_map.mp arg
        exact spells_inQuotes a

/-- A safe name with its value is one word. -/
theorem spells_variable {name : List Char} (safe : isShellSafeName name = true) (value : List Char) :
    Spells (name ++ '=' :: shellQuote value) (bare name ++ ('=', false) :: quoted value) := by
  rw [isShellSafeName_eq] at safe
  have some_ : name ≠ [] := by
    rintro rfl
    cases safe
  have plain : ∀ c ∈ name, Plain c := by
    intro c mem
    rcases isName_chars safe c mem with letter | rfl
    · exact plain_alphanum letter
    · decide
  have equals : Spells ['='] (bare ['=']) := spells_char (by decide)
  exact (spells_bare some_ plain).append (equals.append (spells_inQuotes value))

/-- The words of the whole command. -/
theorem words_remoteCommand (opts : SshOptions) (remoteCmd : List (List Char))
    {localeVars : List (List Char × List Char)}
    (safe : ∀ v ∈ localeVars, isShellSafeName v.1 = true) :
    Shell.words .bare none (remoteCommand opts remoteCmd localeVars) =
      some (localeVars.map (fun v => bare v.1 ++ ('=', false) :: quoted v.2) ++
        bare "posh-server".toList :: (serverPieces opts remoteCmd).map (·.2)) := by
  rw [remoteCommand_eq]
  induction localeVars with
  | nil =>
    have server : Spells "posh-server".toList (bare "posh-server".toList) :=
      spells_word (by decide) rfl
    rw [List.flatMap_nil, List.nil_append, server]
    exact words_rest (spells_serverPieces opts remoteCmd) _
  | cons v localeVars ih =>
    have first := spells_variable (safe v List.mem_cons_self) v.2
    rw [List.flatMap_cons, List.append_assoc, List.append_assoc, List.singleton_append,
      words_first first, ih fun v mem => safe v (List.mem_cons_of_mem _ mem)]
    rfl

/-- A command of assignments and words that are none. -/
theorem command_assignments {localeVars : List (List Char × List Char)}
    (safe : ∀ v ∈ localeVars, isShellSafeName v.1 = true) {w : Word} {ws : List Word}
    (name : assignment w = none) (free : w ∉ reserved.map bare) :
    command (localeVars.map (fun v => bare v.1 ++ ('=', false) :: quoted v.2) ++ w :: ws) =
      some ⟨localeVars, (w :: ws).map text⟩ := by
  induction localeVars with
  | nil =>
    rw [List.map_nil, List.nil_append, command, name]
    exact if_neg free
  | cons v localeVars ih =>
    have first := assignment_quoted (isShellSafeName_eq v.1 ▸ safe v List.mem_cons_self) v.2
    rw [List.map_cons, List.cons_append, command, first,
      ih fun v mem => safe v (List.mem_cons_of_mem _ mem)]
    rfl

theorem text_serverPieces (opts : SshOptions) (remoteCmd : List (List Char)) :
    ((serverPieces opts remoteCmd).map (·.2)).map text =
      "new".toList :: opts.words ++ if remoteCmd = [] then [] else "--".toList :: remoteCmd := by
  have plain (ss : List (List Char)) : ((ss.map fun s => (s, bare s)).map (·.2)).map text = ss := by
    rw [List.map_map, List.map_map]
    exact List.map_id'' text_bare ss
  have args (ss : List (List Char)) :
      ((ss.map fun arg => (shellQuote arg, quoted arg)).map (·.2)).map text = ss := by
    rw [List.map_map, List.map_map]
    exact List.map_id'' text_quoted ss
  unfold serverPieces
  rw [List.map_append, List.map_append, plain]
  split
  · rfl
  · rw [List.map_cons, List.map_cons, args, text_bare]

/-- Whatever the values and arguments hold, the shell sees the assignments, the server with
its options, and behind two dashes the arguments, if there are any. -/
theorem remote_command_safe (opts : SshOptions) (remoteCmd : List (List Char))
    (localeVars : List (List Char × List Char))
    (safe : ∀ v ∈ localeVars, isShellSafeName v.1 = true) :
    parse (remoteCommand opts remoteCmd localeVars) = some ⟨localeVars,
      "posh-server".toList :: "new".toList :: opts.words ++
        if remoteCmd = [] then [] else "--".toList :: remoteCmd⟩ := by
  unfold parse
  rw [words_remoteCommand opts remoteCmd safe, Option.bind_some,
    command_assignments safe (by decide) (by decide), List.map_cons, text_serverPieces, text_bare]
  rfl

theorem remote_command_safe_hostile :
    parse (remoteCommand ⟨.auto, none⟩ ["it's; rm -rf $HOME".toList, []]
      [("LANG".toList, "'`id`\n".toList)]) = some ⟨[("LANG".toList, "'`id`\n".toList)],
        "posh-server".toList :: "new".toList :: SshOptions.words ⟨.auto, none⟩ ++
          if ["it's; rm -rf $HOME".toList, []] = [] then []
          else "--".toList :: ["it's; rm -rf $HOME".toList, []]⟩ :=
  remote_command_safe ⟨.auto, none⟩ _ _ (by decide)

/-- Without arguments there are no dashes. -/
theorem no_dashes : ¬ ∀ remoteCmd, parse (remoteCommand ⟨.auto, none⟩ remoteCmd []) =
    some ⟨[], "posh-server".toList :: "new".toList :: "--".toList :: remoteCmd⟩ := by
  intro always
  have empty := always []
  revert empty
  decide +kernel

end Posh.Remote
