import Posh.Term.Escapes
import Posh.Term.Silent
import Posh.Term.Writes

/-!
What a text does to the whole terminal that reads it.

`Draws files text t t'` says that a terminal in ground reads all of `text`, and that the
actions it reads take `t` to `t'`. The stream a dump writes is put together from pieces,
and so is what it draws.
-/

namespace Posh.Term

open Posh.Lib

namespace Terminal

variable {files : Files} {t t' t'' : Terminal} {text more : List Char}

/-- The actions one after the other. -/
def acts (files : Files) (actions : List Action) (t : Terminal) : Checked Terminal :=
  forEach actions t fun action t => t.dispatch files action

theorem acts_append (before after : List Action) (t : Terminal) :
    t.acts files (before ++ after) = t.acts files before >>= fun t => t.acts files after :=
  forEach_append before after t _

theorem acts_one (action : Action) (t : Terminal) : t.acts files [action] = t.dispatch files action :=
  bind_pure _

/-- The stream is the actions the parser completes of it, whatever parser the terminal
has meanwhile. -/
theorem process_of_feed {bytes : Bytes} {q : Parser} {actions : List Action}
    (fed : Parser.feed bytes t.parser = .ok (q, actions)) :
    t.process files bytes = (fun t' => { t' with parser := q }) <$> t.acts files actions := by
  induction bytes generalizing t actions with
  | nil =>
    cases fed
    rfl
  | cons b rest ih =>
    unfold process forEach processByte
    rw [Parser.feed] at fed
    cases step : t.parser.advance b with
    | error panic =>
      rw [step] at fed
      cases fed
    | ok out =>
      obtain ⟨p, first⟩ := out
      rw [step] at fed
      change (Parser.feed rest p >>= _) = _ at fed
      cases later : Parser.feed rest p with
      | error panic =>
        rw [later] at fed
        cases fed
      | ok out =>
        obtain ⟨q', others⟩ := out
        rw [later] at fed
        cases fed
        have alike := @dispatchAll_alike { parser := some p } files rfl first t
        change ({ t with parser := p }.acts files first >>= fun t => t.process files rest) = _
        have same : { t with parser := p }.acts files first =
            dressed { parser := some p } <$> t.acts files first := alike
        rw [same, acts_append]
        cases t.acts files first with
        | error panic => rfl
        | ok u =>
          change (u.dressed { parser := some p }).process files rest = _
          have fed : Parser.feed rest (u.dressed { parser := some p }).parser = .ok (q, others) := later
          have restAlike := @dispatchAll_alike { parser := some p } files rfl others u
          have rest_same : (u.dressed { parser := some p }).acts files others =
              dressed { parser := some p } <$> u.acts files others := restAlike
          rw [ih fed, rest_same]
          change _ = (fun t' : Terminal => { t' with parser := q }) <$> u.acts files others
          cases u.acts files others with
          | error panic => rfl
          | ok v => rfl

/-- Read from ground, `text` takes the terminal from `t` to `t'`. -/
def Draws (files : Files) (text : List Char) (t t' : Terminal) : Prop :=
  ∃ actions, Parser.Reads (toUtf8 text) actions ∧ t.acts files actions = .ok t'

namespace Draws

theorem append (h : Draws files text t t') (h' : Draws files more t' t'') :
    Draws files (text ++ more) t t'' := by
  obtain ⟨before, reads, does⟩ := h
  obtain ⟨after, reads', does'⟩ := h'
  refine ⟨before ++ after, ?_, ?_⟩
  · rw [toUtf8_append]
    exact reads.append reads'
  · rw [acts_append, does]
    exact does'

/-- One action. -/
theorem one {action : Action} (reads : Parser.Reads (toUtf8 text) [action])
    (does : t.dispatch files action = .ok t') : Draws files text t t' :=
  ⟨[action], reads, by rw [acts_one, does]⟩

/-- A fixed text is read once for all. -/
theorem literal {q : Parser} {actions : List Action}
    (fed : Parser.feed (toUtf8 text) {} = .ok (q, actions)) (ready : q.Ready)
    (does : t.acts files actions = .ok t') : Draws files text t t' :=
  ⟨actions, Parser.reads_of_feed fed ready, does⟩

/-- What is drawn is processed. -/
theorem process (h : Draws files text t t') (ready : t.parser.Ready) :
    ∃ q : Parser, q.Ready ∧ t.process files (toUtf8 text) = .ok { t' with parser := q } := by
  obtain ⟨actions, reads, does⟩ := h
  obtain ⟨q, ready_q, fed⟩ := reads t.parser ready
  refine ⟨q, ready_q, ?_⟩
  rw [process_of_feed fed, does]
  rfl

/-- A control sequence without marker and intermediates. -/
theorem csi {body : List Char} {final : Char} {params : Params}
    (inside : ∀ c ∈ body, IsParamChar c) (isFinal : 0x40 ≤ final.toNat ∧ final.toNat ≤ 0x7E)
    (spelled : Parser.paramsOf (toUtf8 body) = params) (does : t.csiPlain params final = .ok t') :
    Draws files ("\x1b[".toList ++ body ++ [final]) t t' := by
  obtain ⟨b, encoded, value⟩ := toUtf8_singleton (c := final) (by omega)
  have reads : Parser.Reads (toUtf8 ("\x1b[".toList ++ body ++ [final])) [.csi params [] 0 b] := by
    rw [toUtf8_append, toUtf8_append, encoded, List.append_assoc, ← spelled]
    exact (Parser.continues_csi (paramBytes inside) (by omega) (by omega)).reads
  have same : Char.ofNat b.toNat = final := by
    rw [value, Char.ofNat_toNat]
  refine one reads ?_
  change t.csiPlain params (Char.ofNat b.toNat) = _
  rw [same]
  exact does

end Draws

end Terminal

end Posh.Term
