import AliceModem.Lib.ShellWords
import AliceModem.Userapps.Syscall

namespace AliceModem.ShellQuote

open CString ShellWords Syscall

/-- The quotes that the conversion puts around a character. -/
def quoteOf (c : UInt8) : UInt8 := if c ≠ 39 then 39 else 34

def shellParts (str : List UInt8) : List Part := str.flatMap fun c => [.mark (quoteOf c), .quoted c, .mark (quoteOf c)]

theorem convert_cons (c : UInt8) (str : List UInt8) :
    bcmConvertStrToShellStr (c :: str) = [quoteOf c, c, quoteOf c] ++ bcmConvertStrToShellStr str := by
  rw [bcmConvertStrToShellStr, quoteOf]
  split <;> rfl

theorem run_char {s : Scanner} (hmode : s.mode = .outside) (c : UInt8) :
    s.run [quoteOf c, c, quoteOf c] = s.add [.mark (quoteOf c), .quoted c, .mark (quoteOf c)] := by
  rw [quoteOf]
  split
  next hc => exact Scanner.run_single hmode hc
  next hc =>
      obtain rfl : c = 39 := not_not.mp hc
      exact Scanner.run_double hmode (by decide)

/-- Wherever the converted text stands outside of quotes, it goes on with the
word it stands in and leaves the scanner outside of quotes. -/
theorem run_convert {s : Scanner} (hmode : s.mode = .outside) {str : List UInt8} (hne : str ≠ []) :
    s.run (bcmConvertStrToShellStr str) = s.add (shellParts str) := by
  induction str generalizing s with
  | nil => exact absurd rfl hne
  | cons c str ih =>
      rw [convert_cons, Scanner.run_append, run_char hmode]
      cases str with
      | nil => rfl
      | cons c' str =>
          rw [ih ((Scanner.mode_add s _).trans hmode) (List.cons_ne_nil c' str), Scanner.add_add]
          rfl

theorem quoteRemoval_shellParts (str : List UInt8) : quoteRemoval (shellParts str) = str := by
  induction str with
  | nil => rfl
  | cons c str ih =>
      rw [shellParts, List.flatMap_cons, quoteRemoval_append, ← shellParts, ih]
      rfl

theorem allQuoted_shellParts (str : List UInt8) : AllQuoted (shellParts str) := by
  intro c hc
  simp [shellParts] at hc

/-- The shell reads the converted text as one word without anything to expand,
and removing the quotes gives the text that was converted. -/
theorem shell_quoting_safe (str : Str) (hne : str.chars ≠ []) :
    ∃ w, tokenise (bcmConvertStrToShellStr str.chars) = some [.word w] ∧ AllQuoted w ∧ quoteRemoval w = str.chars := by
  refine ⟨shellParts str.chars, ?_, allQuoted_shellParts str.chars, quoteRemoval_shellParts str.chars⟩
  rw [tokenise, run_convert rfl hne]
  rfl

theorem shell_quoting_safe_dollar :
    ∃ w, tokenise [39, 97, 39, 34, 39, 34, 39, 36, 39, 39, 98, 39] = some [.word w] ∧ AllQuoted w ∧
      quoteRemoval w = [97, 39, 36, 98] :=
  shell_quoting_safe ⟨[97, 39, 36, 98], by decide⟩ (List.cons_ne_nil _ _)

end AliceModem.ShellQuote
