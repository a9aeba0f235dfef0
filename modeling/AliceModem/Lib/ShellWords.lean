import Mathlib.Data.List.Basic

namespace AliceModem.ShellWords

/-- A character of a word: without quotes around it, between quotes or behind
a backslash, or a quoting character, which quote removal takes away. -/
inductive Part
  | plain (c : UInt8)
  | quoted (c : UInt8)
  | mark (c : UInt8)
  deriving DecidableEq

inductive Token
  | word (parts : List Part)
  | operator (text : List UInt8)
  | newline
  deriving DecidableEq

/-- In `expansion` a dollar sign or a backquote was met outside of single
quotes. The text is not scanned beyond it. -/
inductive Mode
  | outside
  | escape
  | single
  | double
  | doubleEscape
  | comment
  | expansion
  deriving DecidableEq

structure Scanner where
  mode : Mode
  current : Option Token
  tokens : List Token
  deriving DecidableEq

def start : Scanner := ⟨.outside, none, []⟩

def isOperator : List UInt8 → Bool
  | [38] | [38, 38] | [40] | [41] | [59] | [59, 59] | [60] | [60, 60] | [60, 60, 45] | [60, 38] | [60, 62]
  | [62] | [62, 62] | [62, 38] | [62, 124] | [124] | [124, 124] => true
  | _ => false

namespace Scanner

def delimit (s : Scanner) : Scanner := { s with current := none, tokens := s.tokens ++ s.current.toList }

def add (s : Scanner) (parts : List Part) : Scanner :=
  match s.current with
  | some (.word w) => { s with current := some (.word (w ++ parts)) }
  | _ => { s.delimit with current := some (.word parts) }

def goto (s : Scanner) (mode : Mode) : Scanner := { s with mode := mode }

def inWord (s : Scanner) : Bool := s.current.any fun t => t matches .word _

def newline (s : Scanner) : Scanner := { s.delimit with tokens := s.delimit.tokens ++ [.newline] }

def continues (s : Scanner) (c : UInt8) : Bool :=
  match s.current with
  | some (.operator op) => isOperator (op ++ [c])
  | _ => false

def operator (s : Scanner) (c : UInt8) : Scanner :=
  match s.current with
  | some (.operator op) =>
      if s.continues c then { s with current := some (.operator (op ++ [c])) }
      else { s.delimit with current := some (.operator [c]) }
  | _ => { s.delimit with current := some (.operator [c]) }

def outside (s : Scanner) (c : UInt8) : Scanner :=
  if c = 92 then s.goto .escape
  else if c = 39 then (s.add [.mark c]).goto .single
  else if c = 34 then (s.add [.mark c]).goto .double
  else if c = 36 ∨ c = 96 then s.goto .expansion
  else if s.continues c || isOperator [c] then s.operator c
  else if c = 10 then s.newline
  else if c = 32 ∨ c = 9 then s.delimit
  else if c = 35 ∧ ¬ s.inWord then s.delimit.goto .comment
  else s.add [.plain c]

def step (s : Scanner) (c : UInt8) : Scanner :=
  match s.mode with
  | .outside => s.outside c
  -- a backslash in front of a newline joins two lines, within a token too
  | .escape => if c = 10 then s.goto .outside else (s.add [.mark 92, .quoted c]).goto .outside
  | .single => if c = 39 then (s.add [.mark c]).goto .outside else s.add [.quoted c]
  | .double =>
      if c = 34 then (s.add [.mark c]).goto .outside
      else if c = 92 then s.goto .doubleEscape
      else if c = 36 ∨ c = 96 then s.goto .expansion
      else s.add [.quoted c]
  | .doubleEscape =>
      if c = 10 then s.goto .double
      else if c = 36 ∨ c = 96 ∨ c = 34 ∨ c = 92 then (s.add [.mark 92, .quoted c]).goto .double
      else (s.add [.quoted 92, .quoted c]).goto .double
  | .comment => if c = 10 then (s.goto .outside).newline else s
  | .expansion => s

def run (s : Scanner) (text : List UInt8) : Scanner := text.foldl step s

def finish (s : Scanner) : Option (List Token) :=
  match s.mode with
  | .outside | .comment => some s.delimit.tokens
  | _ => none

end Scanner

/-- The token recognition of the shell command language. -/
def tokenise (text : List UInt8) : Option (List Token) := (start.run text).finish

def Part.char : Part → Option UInt8
  | .plain c | .quoted c => some c
  | .mark _ => none

def quoteRemoval (parts : List Part) : List UInt8 := parts.filterMap Part.char

/-- No character of the word is outside of quotes, where it could be part of a
pattern, a tilde, a reserved word, an alias or an assignment. -/
def AllQuoted (parts : List Part) : Prop := ∀ c, Part.plain c ∉ parts

namespace Scanner

variable {s : Scanner}

@[simp] theorem mode_add (s : Scanner) (parts : List Part) : (s.add parts).mode = s.mode := by
  rw [add]
  split <;> rfl

@[simp] theorem goto_mode (s : Scanner) : s.goto s.mode = s := rfl

@[simp] theorem goto_goto (s : Scanner) (mode mode' : Mode) : (s.goto mode).goto mode' = s.goto mode' := rfl

theorem add_goto (s : Scanner) (mode : Mode) (parts : List Part) : (s.goto mode).add parts = (s.add parts).goto mode := by
  obtain ⟨mode', current, tokens⟩ := s
  match current with
  | some (.word w) => rfl
  | some (.operator op) => rfl
  | some .newline => rfl
  | none => rfl

theorem add_add (s : Scanner) (parts parts' : List Part) : (s.add parts).add parts' = s.add (parts ++ parts') := by
  have hcurrent : ∃ w, s.add parts = ⟨s.mode, some (.word (w ++ parts)), (s.add parts).tokens⟩ ∧
      s.add (parts ++ parts') = ⟨s.mode, some (.word (w ++ (parts ++ parts'))), (s.add parts).tokens⟩ := by
    obtain ⟨mode, current, tokens⟩ := s
    match current with
    | some (.word w) => exact ⟨w, rfl, rfl⟩
    | some (.operator op) => exact ⟨[], rfl, rfl⟩
    | some .newline => exact ⟨[], rfl, rfl⟩
    | none => exact ⟨[], rfl, rfl⟩
  obtain ⟨w, hadd, happend⟩ := hcurrent
  rw [happend, hadd, ← List.append_assoc]
  rfl

theorem run_append (s : Scanner) (text text' : List UInt8) : s.run (text ++ text') = (s.run text).run text' :=
  List.foldl_append

theorem run_between (mode : Mode) {q c : UInt8} (hmode : s.mode = .outside) (hopen : s.step q = (s.add [.mark q]).goto mode)
    (hchar : ∀ t : Scanner, t.mode = mode → t.step c = t.add [.quoted c])
    (hclose : ∀ t : Scanner, t.mode = mode → t.step q = (t.add [.mark q]).goto .outside) :
    s.run [q, c, q] = s.add [.mark q, .quoted c, .mark q] := by
  have hend : (s.add [.mark q, .quoted c, .mark q]).mode = .outside := (mode_add s _).trans hmode
  calc s.run [q, c, q] = ((s.step q).step c).step q := rfl
    _ = (((s.add [.mark q]).add [.quoted c]).goto mode).step q := by rw [hopen, hchar _ rfl, add_goto]
    _ = (s.add [.mark q, .quoted c, .mark q]).goto .outside := by
        rw [hclose _ rfl, add_goto, goto_goto, add_add, add_add]
        rfl
    _ = s.add [.mark q, .quoted c, .mark q] := hend ▸ goto_mode _

theorem run_single (hmode : s.mode = .outside) {c : UInt8} (hc : c ≠ 39) :
    s.run [39, c, 39] = s.add [.mark 39, .quoted c, .mark 39] := by
  apply run_between .single hmode
  · simp [step, hmode, outside]
  · intro t ht
    simp [step, ht, hc]
  · intro t ht
    simp [step, ht]

theorem run_double (hmode : s.mode = .outside) {c : UInt8} (hc : c ≠ 34 ∧ c ≠ 92 ∧ c ≠ 36 ∧ c ≠ 96) :
    s.run [34, c, 34] = s.add [.mark 34, .quoted c, .mark 34] := by
  apply run_between .double hmode
  · simp [step, hmode, outside]
  · intro t ht
    simp [step, ht, hc]
  · intro t ht
    simp [step, ht]

/-- The text `a';'>>$` without its last character is a word and an operator. -/
example : tokenise [97, 39, 59, 39, 62, 62] = some [.word [.plain 97, .mark 39, .quoted 59, .mark 39], .operator [62, 62]] ∧
    tokenise [97, 39, 59, 39, 62, 62, 36] = none := by decide

end Scanner

theorem quoteRemoval_append (w w' : List Part) : quoteRemoval (w ++ w') = quoteRemoval w ++ quoteRemoval w' :=
  List.filterMap_append

end AliceModem.ShellWords
