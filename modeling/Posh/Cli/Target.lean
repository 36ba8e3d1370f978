import Posh.Lib.Utf8

/-!
The grammar of attach targets (`target.rs`).

An argument is read by the first rule that matches it: an explicit local session, a
bracketed host, a split at the first colon, and what has no colon. The forms a target can
be written in are a type of their own; each is read back as what it was written from.
-/

namespace Posh.Cli

open Posh.Lib

inductive Target where
  /-- Bare word: local session, attach-or-create. -/
  | localSession (name : List Char)
  /-- `:session` / `:group/session`: explicit local. -/
  | local_ (group : Option (List Char)) (session : List Char)
  /-- An ssh destination: plain roaming shell. -/
  | host (user : Option (List Char)) (host : List Char)
  /-- `[user@]host:[group/]session`: a session on a remote host. -/
  | remoteSession (user : Option (List Char)) (host : List Char) (group : Option (List Char))
      (session : List Char)
deriving DecidableEq, Repr

/-- Split at the first separator if both halves are non-empty. -/
def splitHalves (sep : Char) (s : List Char) : Option (List Char) × List Char :=
  match splitOnce sep s with
  | some (before, after) => if before ≠ [] ∧ after ≠ [] then (some before, after) else (none, s)
  | none => (none, s)

/-- Rule 4: text before the first `@` is the user. -/
def splitUser (s : List Char) : Option (List Char) × List Char :=
  splitHalves '@' s

/-- Rule 5: text before the first `/` is the group. -/
def splitGroup (s : List Char) : Option (List Char) × List Char :=
  splitHalves '/' s

namespace Target

/-- A session part must be non-empty and hold no colon. -/
def ValidPart (part : List Char) : Prop :=
  part ≠ [] ∧ ':' ∉ part

instance : DecidablePred ValidPart :=
  fun part => inferInstanceAs (Decidable (part ≠ [] ∧ ':' ∉ part))

def hostOf (split : Option (List Char) × List Char) : Target :=
  .host split.1 split.2

/-- Rule 1: explicit local. -/
def explicitLocal (arg : List Char) : Option Target :=
  match arg with
  | ':' :: rest =>
      if ValidPart rest then some (.local_ (splitGroup rest).1 (splitGroup rest).2)
      else if rest = [] then some (.localSession arg)
      else none
  | _ => none

/-- Rule 2: bracketed host. Unterminated falls through. -/
def bracketedHost (arg : List Char) : Option Target :=
  match arg with
  | '[' :: inner =>
      match splitOnce ']' inner with
      | some (addr, ':' :: part) =>
          if ValidPart part then
            some (.remoteSession none addr (splitGroup part).1 (splitGroup part).2)
          else some (.host none addr)
      | some (addr, _) => some (.host none addr)
      | none => none
  | _ => none

/-- Rules 3 and 6: first-colon split, or no colon. -/
def byColon (arg : List Char) : Target :=
  match splitOnce ':' arg with
  | some (head, part) =>
      if head ≠ [] ∧ ValidPart part then
        .remoteSession (splitUser head).1 (splitUser head).2 (splitGroup part).1 (splitGroup part).2
      -- a trailing colon is dropped; the colons of an IPv6 literal belong to the host
      else hostOf (splitUser (if part = [] ∧ head ≠ [] then head else arg))
  | none =>
      if '@' ∈ arg ∨ '.' ∈ arg then hostOf (splitUser arg) else .localSession arg

/-- Resolution rules in order; the first match wins. -/
def parse (arg : List Char) : Target :=
  (explicitLocal arg).getD ((bracketedHost arg).getD (byColon arg))

end Target

/-! ### Halves -/

/-- Two halves around a separator, or the second alone. -/
def joined (sep : Char) : Option (List Char) → List Char → List Char
  | none, s => s
  | some before, s => before ++ sep :: s

variable {sep c : Char} {s : List Char}

theorem splitHalves_of_not_mem (absent : sep ∉ s) : splitHalves sep s = (none, s) := by
  unfold splitHalves
  rw [splitOnce_of_not_mem absent]

theorem splitHalves_append {before after : List Char} (absent : sep ∉ before) (first : before ≠ [])
    (last : after ≠ []) : splitHalves sep (before ++ sep :: after) = (some before, after) := by
  unfold splitHalves
  rw [splitOnce_append absent]
  exact if_pos ⟨first, last⟩

/-- What a text is split into: itself, or two non-empty halves of it. -/
theorem splitHalves_cases (sep : Char) (s : List Char) : splitHalves sep s = (none, s) ∨
    ∃ before after, splitHalves sep s = (some before, after) ∧ before ≠ [] ∧ after ≠ [] ∧
      s = before ++ sep :: after := by
  unfold splitHalves
  cases found : splitOnce sep s with
  | none => exact .inl rfl
  | some halves =>
    obtain ⟨before, after⟩ := halves
    obtain ⟨whole, -⟩ := splitOnce_spec found
    dsimp only
    split
    · rename_i both
      exact .inr ⟨before, after, rfl, both.1, both.2, whole⟩
    · exact .inl rfl

theorem joined_splitHalves (sep : Char) (s : List Char) :
    joined sep (splitHalves sep s).1 (splitHalves sep s).2 = s := by
  rcases splitHalves_cases sep s with bare | ⟨before, after, split, -, -, whole⟩
  · rw [bare]
    rfl
  · rw [split, whole]
    rfl

/-! ### What a part gives -/

namespace Target

/-- No session or group is empty, and no session holds a colon. -/
def WellFormed : Target → Prop
  | .local_ group session => ValidPart session ∧ group ≠ some []
  | .remoteSession _ _ group session => ValidPart session ∧ group ≠ some []
  | .localSession _ | .host _ _ => True

theorem validPart_splitGroup (valid : ValidPart s) :
    ValidPart (splitGroup s).2 ∧ (splitGroup s).1 ≠ some [] := by
  unfold splitGroup
  rcases splitHalves_cases '/' s with bare | ⟨before, after, split, first, last, rfl⟩
  · rw [bare]
    exact ⟨valid, nofun⟩
  · rw [split]
    refine ⟨⟨last, fun mem => valid.2 ?_⟩, fun same => first (Option.some.inj same)⟩
    exact List.mem_append_right _ (List.mem_cons_of_mem _ mem)

theorem wellFormed_explicitLocal {arg : List Char} :
    ∀ t ∈ explicitLocal arg, t.WellFormed := by
  intro t found
  unfold explicitLocal at found
  split at found
  · split at found
    · rename_i valid
      cases found
      exact validPart_splitGroup valid
    · split at found
      · cases found
        trivial
      · cases found
  · cases found

theorem wellFormed_bracketedHost {arg : List Char} :
    ∀ t ∈ bracketedHost arg, t.WellFormed := by
  intro t found
  unfold bracketedHost at found
  split at found
  · split at found
    · split at found
      · rename_i valid
        cases found
        exact validPart_splitGroup valid
      · cases found
        trivial
    · cases found
      trivial
    · cases found
  · cases found

theorem wellFormed_byColon (arg : List Char) : (byColon arg).WellFormed := by
  unfold byColon
  split
  · split
    · rename_i valid
      exact validPart_splitGroup valid.2
    · trivial
  · split <;> trivial

theorem wellFormed_parse (arg : List Char) : (parse arg).WellFormed := by
  unfold parse
  cases first : explicitLocal arg with
  | some t => exact wellFormed_explicitLocal t first
  | none =>
    cases second : bracketedHost arg with
    | some t => exact wellFormed_bracketedHost t second
    | none => exact wellFormed_byColon arg

/-! ### Hosts with colons -/

/-- An argument that rule 2 reads. -/
def Bracketed (arg : List Char) : Prop :=
  ∃ inner, arg = '[' :: inner ∧ ']' ∈ inner

theorem explicitLocal_of_colons {arg : List Char} (colons : 2 ≤ arg.count ':') :
    explicitLocal arg = none := by
  unfold explicitLocal
  split
  · rename_i rest
    rw [List.count_cons_self] at colons
    have mem : ':' ∈ rest := List.count_pos_iff.mp (by omega)
    rw [if_neg fun valid => valid.2 mem, if_neg]
    rintro rfl
    cases mem
  · rfl

theorem bracketedHost_of_not {arg : List Char} (bare : ¬ Bracketed arg) : bracketedHost arg = none := by
  unfold bracketedHost
  split
  · rename_i inner
    rw [splitOnce_of_not_mem fun mem => bare ⟨inner, rfl, mem⟩]
  · rfl

theorem byColon_of_colons {arg : List Char} (colons : 2 ≤ arg.count ':') :
    byColon arg = hostOf (splitUser arg) := by
  have mem : ':' ∈ arg := List.count_pos_iff.mp (by omega)
  obtain ⟨head, part, rfl, absent⟩ := List.eq_append_cons_of_mem mem
  rw [List.count_append, List.count_cons_self, List.count_eq_zero_of_not_mem absent] at colons
  have more : ':' ∈ part := List.count_pos_iff.mp (by omega)
  have nonempty : part ≠ [] := List.ne_nil_of_mem more
  unfold byColon
  rw [splitOnce_append absent]
  dsimp only
  rw [if_neg fun valid => valid.2.2 more, if_neg fun trailing => nonempty trailing.1]

theorem parse_of_colons {arg : List Char} (colons : 2 ≤ arg.count ':') (bare : ¬ Bracketed arg) :
    parse arg = hostOf (splitUser arg) := by
  unfold parse
  rw [explicitLocal_of_colons colons, bracketedHost_of_not bare]
  exact byColon_of_colons colons

end Target

/-! ### Written forms -/

/-- A name that no rule of the grammar takes apart. -/
structure Name where
  chars : List Char
  nonempty : chars ≠ []
  plain : ∀ c ∈ chars, c ∉ [':', '/', '@', '[', ']']

/-- What may stand in brackets. -/
structure Literal where
  chars : List Char
  closed : ']' ∉ chars

/-- The forms of a target. -/
inductive Form where
  /-- `[user@]host:[group/]session` -/
  | remote (user : Option Name) (host : Name) (group : Option Name) (session : Name)
  /-- `[literal]:[group/]session` -/
  | literalRemote (host : Literal) (group : Option Name) (session : Name)
  /-- `:[group/]session` -/
  | explicit (group : Option Name) (session : Name)
  /-- `[user@]host`, with an at sign or a dot to tell it from a session -/
  | destination (user : Option Name) (host : Name) (marked : user.isSome ∨ '.' ∈ host.chars)
  /-- `host:` -/
  | trailing (host : Name)
  /-- `[literal]` -/
  | literal (host : Literal)

/-- An optional name before another. -/
def named (sep : Char) (first : Option Name) (last : Name) : List Char :=
  joined sep (first.map Name.chars) last.chars

namespace Form

def render : Form → List Char
  | remote user host group session => named '@' user host ++ ':' :: named '/' group session
  | literalRemote host group session => '[' :: (host.chars ++ ']' :: ':' :: named '/' group session)
  | explicit group session => ':' :: named '/' group session
  | destination user host _ => named '@' user host
  | trailing host => host.chars ++ [':']
  | literal host => '[' :: (host.chars ++ [']'])

def target : Form → Target
  | remote user host group session =>
      .remoteSession (user.map Name.chars) host.chars (group.map Name.chars) session.chars
  | literalRemote host group session =>
      .remoteSession none host.chars (group.map Name.chars) session.chars
  | explicit group session => .local_ (group.map Name.chars) session.chars
  | destination user host _ => .host (user.map Name.chars) host.chars
  | trailing host => .host none host.chars
  | literal host => .host none host.chars

end Form

theorem Name.not_mem (n : Name) (reserved : c ∈ [':', '/', '@', '[', ']']) : c ∉ n.chars :=
  fun mem => n.plain c mem reserved

theorem splitHalves_named (reserved : sep ∈ [':', '/', '@', '[', ']']) (first : Option Name)
    (last : Name) : splitHalves sep (named sep first last) = (first.map Name.chars, last.chars) := by
  cases first with
  | none => exact splitHalves_of_not_mem (last.not_mem reserved)
  | some first => exact splitHalves_append (first.not_mem reserved) first.nonempty last.nonempty

theorem named_ne_nil (sep : Char) (first : Option Name) (last : Name) : named sep first last ≠ [] := by
  cases first with
  | none => exact last.nonempty
  | some first => exact List.append_ne_nil_of_left_ne_nil first.nonempty _

theorem not_mem_named (reserved : c ∈ [':', '/', '@', '[', ']']) (other : c ≠ sep)
    (first : Option Name) (last : Name) : c ∉ named sep first last := by
  cases first with
  | none => exact last.not_mem reserved
  | some first =>
    intro mem
    rcases List.mem_append.mp mem with mem | mem
    · exact first.not_mem reserved mem
    · rcases List.mem_cons.mp mem with same | mem
      · exact other same
      · exact last.not_mem reserved mem

namespace Target

theorem validPart_named (group : Option Name) (session : Name) : ValidPart (named '/' group session) :=
  ⟨named_ne_nil '/' group session, not_mem_named (by decide) (by decide) group session⟩

/-- What begins with a name is left to the colon. -/
theorem parse_of_name {arg : List Char} (user : Option Name) (host : Name)
    (begins : named '@' user host <+: arg) : parse arg = byColon arg := by
  have colon := @not_mem_named '@' ':' (by decide) (by decide) user host
  have bracket := @not_mem_named '@' '[' (by decide) (by decide) user host
  have nonempty := named_ne_nil '@' user host
  obtain ⟨rest, rfl⟩ := begins
  cases front : named '@' user host with
  | nil => exact absurd front nonempty
  | cons c front' =>
    rw [front] at colon bracket
    have first : explicitLocal ((c :: front') ++ rest) = none := by
      unfold explicitLocal
      split
      · rename_i eq
        cases eq
        exact absurd List.mem_cons_self colon
      · rfl
    have second : bracketedHost ((c :: front') ++ rest) = none := by
      refine bracketedHost_of_not ?_
      rintro ⟨inner, eq, -⟩
      cases eq
      exact bracket List.mem_cons_self
    unfold parse
    rw [first, second]
    rfl

theorem parse_remote (user : Option Name) (host : Name) (group : Option Name) (session : Name) :
    parse (Form.remote user host group session).render =
      (Form.remote user host group session).target := by
  rw [Form.render, parse_of_name user host (List.prefix_append _ _)]
  unfold byColon
  rw [splitOnce_append (not_mem_named (by decide) (by decide) user host)]
  dsimp only
  rw [if_pos ⟨named_ne_nil '@' user host, validPart_named group session⟩]
  unfold splitUser splitGroup
  rw [splitHalves_named (by decide), splitHalves_named (by decide)]
  rfl

theorem parse_literalRemote (host : Literal) (group : Option Name) (session : Name) :
    parse (Form.literalRemote host group session).render =
      (Form.literalRemote host group session).target := by
  rw [Form.render]
  unfold parse
  have second : bracketedHost ('[' :: (host.chars ++ ']' :: ':' :: named '/' group session)) =
      some (Form.literalRemote host group session).target := by
    simp only [bracketedHost, splitOnce_append host.closed]
    rw [if_pos (validPart_named group session)]
    unfold splitGroup
    rw [splitHalves_named (by decide)]
    rfl
  rw [second]
  rfl

theorem parse_explicit (group : Option Name) (session : Name) :
    parse (Form.explicit group session).render = (Form.explicit group session).target := by
  rw [Form.render]
  have first : explicitLocal (':' :: named '/' group session) =
      some (Form.explicit group session).target := by
    simp only [explicitLocal]
    rw [if_pos (validPart_named group session)]
    unfold splitGroup
    rw [splitHalves_named (by decide)]
    rfl
  unfold parse
  rw [first]
  rfl

theorem parse_destination (user : Option Name) (host : Name)
    (marked : user.isSome ∨ '.' ∈ host.chars) :
    parse (Form.destination user host marked).render = (Form.destination user host marked).target := by
  rw [Form.render, parse_of_name user host List.prefix_rfl]
  have mark : '@' ∈ named '@' user host ∨ '.' ∈ named '@' user host := by
    cases user with
    | none => exact .inr (marked.resolve_left Bool.false_ne_true)
    | some user => exact .inl (List.mem_append_right _ List.mem_cons_self)
  unfold byColon
  rw [splitOnce_of_not_mem (not_mem_named (by decide) (by decide) user host)]
  dsimp only
  rw [if_pos mark]
  unfold splitUser
  rw [splitHalves_named (by decide)]
  rfl

theorem parse_trailing (host : Name) :
    parse (Form.trailing host).render = (Form.trailing host).target := by
  have begins : named '@' none host <+: host.chars ++ [':'] := List.prefix_append _ _
  rw [Form.render, parse_of_name none host begins]
  unfold byColon
  rw [splitOnce_append (host.not_mem (by decide))]
  dsimp only
  rw [if_neg fun valid => valid.2.1 rfl, if_pos ⟨rfl, host.nonempty⟩]
  unfold splitUser
  rw [splitHalves_of_not_mem (host.not_mem (by decide))]
  rfl

theorem parse_literal (host : Literal) :
    parse (Form.literal host).render = (Form.literal host).target := by
  rw [Form.render]
  unfold parse
  have second : bracketedHost ('[' :: (host.chars ++ [']'])) = some (.host none host.chars) := by
    simp only [bracketedHost, splitOnce_append host.closed]
  rw [second]
  rfl

theorem parse_render (form : Form) : parse form.render = form.target := by
  cases form with
  | remote user host group session => exact parse_remote user host group session
  | literalRemote host group session => exact parse_literalRemote host group session
  | explicit group session => exact parse_explicit group session
  | destination user host marked => exact parse_destination user host marked
  | trailing host => exact parse_trailing host
  | literal host => exact parse_literal host

/-- Every form is read as what it was written from; what has two colons and no brackets
is a host, whole; and no target names an empty session or group, or a session with a
colon. -/
theorem target_grammar : (∀ form : Form, parse form.render = form.target) ∧
    (∀ arg : List Char, 2 ≤ arg.count ':' → ¬ Bracketed arg →
      ∃ user host, parse arg = .host user host ∧ splitUser arg = (user, host) ∧
        joined '@' user host = arg) ∧
    ∀ arg, (parse arg).WellFormed := by
  refine ⟨parse_render, ?_, wellFormed_parse⟩
  intro arg colons bare
  exact ⟨_, _, parse_of_colons colons bare, rfl, joined_splitHalves '@' arg⟩

theorem target_grammar_address : ∃ user host, parse "root@fe80::1".toList = .host user host ∧
    splitUser "root@fe80::1".toList = (user, host) ∧ joined '@' user host = "root@fe80::1".toList := by
  refine target_grammar.2.1 _ (by decide) ?_
  rintro ⟨inner, eq, -⟩
  cases eq

end Target

end Posh.Cli
