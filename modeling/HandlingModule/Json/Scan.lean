import Mathlib.Data.List.Induction
import HandlingModule.Lib.Munch
import HandlingModule.Json.Lexeme

/-!
# The scanner (`lexer::scan`)

The scanner of `json.hpp` was generated by re2c: an automaton in the form of `goto`s.
`Label` has its labels (`p13` is `basic_json_parser_13`), `next` its comparisons of
`yych` and `action` what is done at a label before the jumps begin again. `m_marker` and
`yyaccept` make it a scanner for the longest token, `Munch.Automaton`.

Labels 5, 14 and 33 are code that several labels share: 5 and 14 are the actions "parse
error" and "number", and 33 goes back to the marker. Label 32 is the part of 31 behind
its `++m_cursor`.
-/

namespace HandlingModule.AIO

namespace Lexer

open Munch Automaton

/-- The labels of the generated code. -/
inductive Label where
  | start
  | p2 | p4 | p6 | p9 | p10 | p12 | p13 | p15 | p17 | p19 | p21 | p23 | p24 | p25 | p26 | p28
  | p30 | p31 | p34 | p36 | p37 | p38 | p39 | p40 | p41 | p42 | p43 | p44 | p46 | p47 | p49
  | p50 | p51 | p52 | p54 | p55 | p56 | p58 | p60 | p61 | p63
  deriving DecidableEq

/-- What is done at a label: `break` with a token, or `continue`. -/
inductive Action where
  | token (t : TokenType)
  | skip
  deriving DecidableEq

/-- Where the first byte of a token leads. -/
def first (yych : LexerChar) : Label :=
  if isSpace yych then .p6
  else if yych = 0 then .p2
  else if yych = quotationMark then .p9
  else if yych = ','.toUInt8 then .p10
  else if yych = '-'.toUInt8 then .p12
  else if yych = '0'.toUInt8 then .p13
  else if isDigit yych then .p15
  else if yych = ':'.toUInt8 then .p17
  else if yych = '['.toUInt8 then .p19
  else if yych = ']'.toUInt8 then .p21
  else if yych = 'f'.toUInt8 then .p23
  else if yych = 'n'.toUInt8 then .p24
  else if yych = 't'.toUInt8 then .p25
  else if yych = 0x7B then .p26
  else if yych = 0x7D then .p28
  else if yych = 0xEF then .p30
  else .p4

/-- Label 32, inside a string. -/
def inString (yych : LexerChar) : Option Label :=
  if isPlain yych then some .p31
  else if yych ≤ 0x1F then none
  else if yych ≤ quotationMark then some .p34
  else some .p36

/-- Behind the integer part or the digits of the fraction. -/
def exponent (yych : LexerChar) : Option Label :=
  if yych = 'E'.toUInt8 ∨ yych = 'e'.toUInt8 then some .p38 else none

/-- One of the four hexadecimal digits. -/
def hexTo (l : Label) (yych : LexerChar) : Option Label := if isHex yych then some l else none

/-- One letter of a literal, or of a byte order mark. -/
def letter (b : LexerChar) (l : Label) (yych : LexerChar) : Option Label :=
  if yych = b then some l else none

/-- The jumps. -/
def next : Label → LexerChar → Option Label
  | .start, yych => some (first yych)
  | .p6, yych => if isSpace yych then some .p6 else none
  | .p9, yych => if yych ≤ 0x1F then none else inString yych
  | .p12, yych =>
      if yych = '0'.toUInt8 then some .p13 else if isDigit yych then some .p15 else none
  | .p13, yych => if yych = '.'.toUInt8 then some .p37 else exponent yych
  | .p15, yych =>
      if isDigit yych then some .p15
      else if yych = '.'.toUInt8 then some .p37 else exponent yych
  | .p23, yych => letter 'a'.toUInt8 .p39 yych
  | .p24, yych => letter 'u'.toUInt8 .p40 yych
  | .p25, yych => letter 'r'.toUInt8 .p41 yych
  | .p30, yych => letter 0xBB .p42 yych
  | .p31, yych => inString yych
  | .p36, yych =>
      if isEscape yych then some .p31 else if yych = 'u'.toUInt8 then some .p43 else none
  | .p37, yych => if isDigit yych then some .p44 else none
  | .p38, yych =>
      if yych = '+'.toUInt8 ∨ yych = '-'.toUInt8 then some .p46
      else if isDigit yych then some .p47 else none
  | .p39, yych => letter 'l'.toUInt8 .p49 yych
  | .p40, yych => letter 'l'.toUInt8 .p50 yych
  | .p41, yych => letter 'u'.toUInt8 .p51 yych
  | .p42, yych => letter 0xBF .p52 yych
  | .p43, yych => hexTo .p54 yych
  | .p44, yych => if isDigit yych then some .p44 else exponent yych
  | .p46, yych => if isDigit yych then some .p47 else none
  | .p47, yych => if isDigit yych then some .p47 else none
  | .p49, yych => letter 's'.toUInt8 .p55 yych
  | .p50, yych => letter 'l'.toUInt8 .p56 yych
  | .p51, yych => letter 'e'.toUInt8 .p58 yych
  | .p54, yych => hexTo .p60 yych
  | .p55, yych => letter 'e'.toUInt8 .p61 yych
  | .p60, yych => hexTo .p63 yych
  | .p63, yych => hexTo .p31 yych
  | .p2, _ | .p4, _ | .p10, _ | .p17, _ | .p19, _ | .p21, _ | .p26, _ | .p28, _ | .p34, _
  | .p52, _ | .p56, _ | .p58, _ | .p61, _ => none

/-- What is done at a label. -/
def action : Label → Option Action
  | .p2 => some (.token .endOfInput)
  -- a byte that begins no token is an error by itself
  | .p4 | .p9 | .p12 | .p23 | .p24 | .p25 | .p30 => some (.token .parseError)
  | .p6 | .p52 => some .skip
  | .p10 => some (.token .valueSeparator)
  | .p13 | .p15 | .p44 | .p47 => some (.token .valueNumber)
  | .p17 => some (.token .nameSeparator)
  | .p19 => some (.token .beginArray)
  | .p21 => some (.token .endArray)
  | .p26 => some (.token .beginObject)
  | .p28 => some (.token .endObject)
  | .p34 => some (.token .valueString)
  | .p56 => some (.token .literalNull)
  | .p58 => some (.token .literalTrue)
  | .p61 => some (.token .literalFalse)
  | .start | .p31 | .p36 | .p37 | .p38 | .p39 | .p40 | .p41 | .p42 | .p43 | .p46 | .p49 | .p50
  | .p51 | .p54 | .p55 | .p60 | .p63 => none

def automaton : Automaton Label LexerChar Action := ⟨next, action⟩

end Lexer

/-- The lexer between two tokens: the last token, its text, and what has not been read. -/
structure Lexer where
  last_token_type : TokenType
  token_string : List Lexer.LexerChar
  rest : List Lexer.LexerChar
  deriving DecidableEq

namespace Lexer

open Munch Automaton

/--
`scan`, with a bound on the number of `continue`s. `fill_line_buffer` puts `NUL`s behind
the end of the buffer as they are needed, and that is what a scanner reads there.
-/
def scanLoop : Nat → List LexerChar → Lexer
  | _, [] => ⟨.endOfInput, [0], []⟩
  | 0, b :: input => ⟨.parseError, [b], input⟩
  | n + 1, b :: input =>
      match automaton.munch .start (b :: input) with
      | some ⟨.token t, text, rest⟩ => ⟨t, text, rest⟩
      | some ⟨.skip, _, rest⟩ => scanLoop n rest
      | none => ⟨.parseError, [b], input⟩

/-- `scan`: each `continue` has read something. -/
def scan (input : List LexerChar) : Lexer := scanLoop input.length input

/-! ## What is read at a label -/

/-- A sign, or none. -/
def Sign (w : List LexerChar) : Prop := w = [] ∨ w = ['-'.toUInt8]

/-- A number without its exponent. -/
def Mantissa (w : List LexerChar) : Prop :=
  ∃ sign int frac, Sign sign ∧ IntPart int ∧ FracPart frac ∧ w = sign ++ int ++ frac

/-- The beginning of a string, up to the end of a piece. -/
def Begun (ps : List Piece) : List LexerChar := quotationMark :: ps.flatMap Piece.text

/-- The texts that lead to a label. -/
def Read : Label → List LexerChar → Prop
  | .start, w => w = []
  | .p2, w => w = [0]
  | .p4, w => w.length = 1
  | .p6, w => w ≠ [] ∧ ∀ b ∈ w, isSpace b = true
  | .p9, w => w = [quotationMark]
  | .p10, w => w = [','.toUInt8]
  | .p12, w => w = ['-'.toUInt8]
  | .p13, w => ∃ sign, Sign sign ∧ w = sign ++ ['0'.toUInt8]
  | .p15, w => ∃ sign d ds, Sign sign ∧ isDigit d = true ∧ d ≠ '0'.toUInt8 ∧ Digits ds
      ∧ w = sign ++ d :: ds
  | .p17, w => w = [':'.toUInt8]
  | .p19, w => w = ['['.toUInt8]
  | .p21, w => w = [']'.toUInt8]
  | .p23, w => w = ascii "f"
  | .p24, w => w = ascii "n"
  | .p25, w => w = ascii "t"
  | .p26, w => w = [0x7B]
  | .p28, w => w = [0x7D]
  | .p30, w => w = [0xEF]
  | .p31, w => ∃ ps, Pieces ps ∧ w = Begun ps
  | .p34, w => ∃ ps, Pieces ps ∧ w = stringText ps
  | .p36, w => ∃ ps, Pieces ps ∧ w = Begun ps ++ [reverseSolidus]
  | .p37, w => ∃ sign int, Sign sign ∧ IntPart int ∧ w = sign ++ int ++ ['.'.toUInt8]
  | .p38, w => ∃ m e, Mantissa m ∧ (e = 'e'.toUInt8 ∨ e = 'E'.toUInt8) ∧ w = m ++ [e]
  | .p39, w => w = ascii "fa"
  | .p40, w => w = ascii "nu"
  | .p41, w => w = ascii "tr"
  | .p42, w => w = [0xEF, 0xBB]
  | .p43, w => ∃ ps, Pieces ps ∧ w = Begun ps ++ [reverseSolidus, 'u'.toUInt8]
  | .p44, w => ∃ sign int d ds, Sign sign ∧ IntPart int ∧ isDigit d = true ∧ Digits ds
      ∧ w = sign ++ int ++ '.'.toUInt8 :: d :: ds
  | .p46, w => ∃ m e sign, Mantissa m ∧ (e = 'e'.toUInt8 ∨ e = 'E'.toUInt8)
      ∧ (sign = '+'.toUInt8 ∨ sign = '-'.toUInt8) ∧ w = m ++ [e, sign]
  | .p47, w => ∃ m x d, Mantissa m ∧ isDigit d = true ∧ ExpPart (x ++ [d]) ∧ w = m ++ (x ++ [d])
  | .p49, w => w = ascii "fal"
  | .p50, w => w = ascii "nul"
  | .p51, w => w = ascii "tru"
  | .p52, w => w = byteOrderMark
  | .p54, w => ∃ ps h₁, Pieces ps ∧ isHex h₁ = true
      ∧ w = Begun ps ++ [reverseSolidus, 'u'.toUInt8, h₁]
  | .p55, w => w = ascii "fals"
  | .p56, w => w = ascii "null"
  | .p58, w => w = ascii "true"
  | .p60, w => ∃ ps h₁ h₂, Pieces ps ∧ isHex h₁ = true ∧ isHex h₂ = true
      ∧ w = Begun ps ++ [reverseSolidus, 'u'.toUInt8, h₁, h₂]
  | .p61, w => w = ascii "false"
  | .p63, w => ∃ ps h₁ h₂ h₃, Pieces ps ∧ isHex h₁ = true ∧ isHex h₂ = true ∧ isHex h₃ = true
      ∧ w = Begun ps ++ [reverseSolidus, 'u'.toUInt8, h₁, h₂, h₃]

theorem begun_snoc (ps : List Piece) (p : Piece) : Begun (ps ++ [p]) = Begun ps ++ p.text := by
  simp [Begun]

theorem mantissa_int {sign int : List LexerChar} (hs : Sign sign) (hi : IntPart int) :
    Mantissa (sign ++ int) := ⟨sign, int, [], hs, hi, .none, by simp⟩

/-- An exponent with one more digit. -/
theorem ExpPart.snoc {x : List LexerChar} {d e : LexerChar} (h : ExpPart (x ++ [d]))
    (hd : isDigit e = true) : ExpPart (x ++ [d] ++ [e]) := by
  generalize hw : x ++ [d] = w at h
  cases h with
  | none => exact absurd hw (by simp)
  | unsigned he hd' hds => exact .unsigned he hd' (hds.snoc hd)
  | signed he hs hd' hds => exact .signed he hs hd' (hds.snoc hd)

theorem letter_eq_some {b yych : LexerChar} {l q : Label} (h : letter b l yych = some q) :
    yych = b ∧ q = l := by
  unfold letter at h
  split at h
  · exact ⟨by assumption, (Option.some.inj h).symm⟩
  · exact absurd h (by simp)

theorem hexTo_eq_some {yych : LexerChar} {l q : Label} (h : hexTo l yych = some q) :
    isHex yych = true ∧ q = l := by
  unfold hexTo at h
  split at h
  · exact ⟨by assumption, (Option.some.inj h).symm⟩
  · exact absurd h (by simp)

/-- A jump on one condition. -/
theorem jump_eq_some {c : Prop} [Decidable c] {l q : Label} (h : (if c then some l else none) = some q) :
    c ∧ q = l := by
  split at h
  · exact ⟨by assumption, (Option.some.inj h).symm⟩
  · exact absurd h (by simp)

theorem exponent_eq_some {yych : LexerChar} {q : Label} (h : exponent yych = some q) :
    (yych = 'e'.toUInt8 ∨ yych = 'E'.toUInt8) ∧ q = .p38 := by
  obtain ⟨h, hq⟩ := jump_eq_some h
  exact ⟨h.symm, hq⟩

/-- Inside a string: one more piece, the end, or an escape. -/
theorem inString_eq_some {yych : LexerChar} {q : Label} (h : inString yych = some q) :
    (isPlain yych = true ∧ q = .p31) ∨ (yych = quotationMark ∧ q = .p34)
      ∨ (yych = reverseSolidus ∧ q = .p36) := by
  unfold inString at h
  split at h
  · exact Or.inl ⟨by assumption, (Option.some.inj h).symm⟩
  · rename_i hplain
    split at h
    · exact absurd h (by simp)
    · rename_i hlow
      simp only [isPlain, Bool.and_eq_true, decide_eq_true_eq, bne_iff_ne, ne_eq, not_and,
        Decidable.not_not] at hplain
      have hge : 0x20 ≤ yych := by
        rw [UInt8.le_iff_toNat_le] at hlow ⊢
        have h1 : (0x1F : UInt8).toNat = 31 := rfl
        have h2 : (0x20 : UInt8).toNat = 32 := rfl
        omega
      split at h
      · refine Or.inr (Or.inl ⟨?_, (Option.some.inj h).symm⟩)
        rename_i hle
        by_contra hq
        rw [hplain ⟨hge, hq⟩] at hle
        exact absurd hle (by decide)
      · refine Or.inr (Or.inr ⟨?_, (Option.some.inj h).symm⟩)
        rename_i hle
        refine hplain ⟨hge, ?_⟩
        rintro rfl
        exact hle (by decide)

theorem read_ite {c : Prop} [Decidable c] {l l' : Label} {w : List LexerChar} (h : c → Read l w)
    (h' : ¬c → Read l' w) : Read (if c then l else l') w := by
  split
  · exact h (by assumption)
  · exact h' (by assumption)

/-- A first byte that is compared with one character. -/
theorem read_byte {b yych : LexerChar} {l l' : Label} (hb : Read l [b])
    (h' : yych ≠ b → Read l' [yych]) : Read (if yych = b then l else l') [yych] :=
  read_ite (fun h => h ▸ hb) h'

/-- The first byte of a token. -/
theorem read_first (yych : LexerChar) : Read (first yych) [yych] := by
  refine read_ite (fun h => ⟨by simp, by simpa using h⟩) (fun _ => ?_)
  refine read_byte rfl fun _ => read_byte rfl fun _ => read_byte rfl fun _ => read_byte rfl fun _ => ?_
  refine read_byte ⟨[], Or.inl rfl, rfl⟩ fun h0 => ?_
  refine read_ite (fun h => ⟨[], yych, [], Or.inl rfl, h, h0, by simp [Digits], rfl⟩) (fun _ => ?_)
  refine read_byte rfl fun _ => read_byte rfl fun _ => read_byte rfl fun _ => read_byte rfl fun _ => ?_
  refine read_byte rfl fun _ => read_byte rfl fun _ => read_byte rfl fun _ => read_byte rfl fun _ => ?_
  exact read_byte rfl fun _ => List.length_singleton

/-- **One jump.** What has been read at a label, and one byte more. -/
theorem read_next {l l' : Label} {w : List LexerChar} {yych : LexerChar} (hr : Read l w)
    (h : next l yych = some l') : Read l' (w ++ [yych]) := by
  cases l with
  | start =>
      have hr : w = [] := hr
      rw [hr, ← Option.some.inj h]
      exact read_first yych
  | p6 =>
      obtain ⟨hs, rfl⟩ := jump_eq_some h
      refine ⟨by simp, ?_⟩
      intro b hb
      rcases List.mem_append.mp hb with hb | hb
      · exact hr.2 b hb
      · rw [List.mem_singleton.mp hb]; exact hs
  | p9 =>
      have hr : w = [quotationMark] := hr
      have h : inString yych = some l' := by
        simp only [next] at h
        split at h
        · exact absurd h (by simp)
        · exact h
      have hnil : Pieces [] := fun _ hp => absurd hp List.not_mem_nil
      rw [hr]
      rcases inString_eq_some h with ⟨hp, rfl⟩ | ⟨rfl, rfl⟩ | ⟨rfl, rfl⟩
      · exact ⟨[.plain yych], fun p hm => List.mem_singleton.mp hm ▸ hp, rfl⟩
      · exact ⟨[], hnil, rfl⟩
      · exact ⟨[], hnil, rfl⟩
  | p31 =>
      obtain ⟨ps, hps, rfl⟩ := hr
      rcases inString_eq_some h with ⟨hp, rfl⟩ | ⟨rfl, rfl⟩ | ⟨rfl, rfl⟩
      · exact ⟨ps ++ [.plain yych], hps.snoc (p := .plain yych) hp, by rw [begun_snoc]; rfl⟩
      · exact ⟨ps, hps, rfl⟩
      · exact ⟨ps, hps, rfl⟩
  | p36 =>
      obtain ⟨ps, hps, rfl⟩ := hr
      simp only [next] at h
      split at h
      · rename_i he
        rw [← Option.some.inj h]
        exact ⟨ps ++ [.escape yych], hps.snoc (p := .escape yych) he, by rw [begun_snoc]; simp [Piece.text]⟩
      · obtain ⟨rfl, rfl⟩ := jump_eq_some h
        exact ⟨ps, hps, by simp⟩
  | p43 =>
      obtain ⟨ps, hps, rfl⟩ := hr
      obtain ⟨hx, rfl⟩ := hexTo_eq_some h
      exact ⟨ps, yych, hps, hx, by simp⟩
  | p54 =>
      obtain ⟨ps, h₁, hps, hx₁, rfl⟩ := hr
      obtain ⟨hx, rfl⟩ := hexTo_eq_some h
      exact ⟨ps, h₁, yych, hps, hx₁, hx, by simp⟩
  | p60 =>
      obtain ⟨ps, h₁, h₂, hps, hx₁, hx₂, rfl⟩ := hr
      obtain ⟨hx, rfl⟩ := hexTo_eq_some h
      exact ⟨ps, h₁, h₂, yych, hps, hx₁, hx₂, hx, by simp⟩
  | p63 =>
      obtain ⟨ps, h₁, h₂, h₃, hps, hx₁, hx₂, hx₃, rfl⟩ := hr
      obtain ⟨hx, rfl⟩ := hexTo_eq_some h
      refine ⟨ps ++ [.unicode h₁ h₂ h₃ yych], hps.snoc (p := .unicode h₁ h₂ h₃ yych) ⟨hx₁, hx₂, hx₃, hx⟩, ?_⟩
      rw [begun_snoc]
      simp [Piece.text]
  | p12 =>
      have hr : w = ['-'.toUInt8] := hr
      rw [hr]
      simp only [next] at h
      split at h
      · rename_i h0
        rw [← Option.some.inj h, h0]
        exact ⟨_, Or.inr rfl, rfl⟩
      · rename_i h0
        obtain ⟨hd, rfl⟩ := jump_eq_some h
        exact ⟨_, yych, [], Or.inr rfl, hd, h0, fun _ hm => absurd hm List.not_mem_nil, rfl⟩
  | p13 =>
      obtain ⟨sign, hs, rfl⟩ := hr
      simp only [next] at h
      split at h
      · rename_i hdot
        rw [← Option.some.inj h, hdot]
        exact ⟨sign, _, hs, .zero, rfl⟩
      · obtain ⟨he, rfl⟩ := exponent_eq_some h
        exact ⟨_, yych, mantissa_int hs .zero, he, rfl⟩
  | p15 =>
      obtain ⟨sign, d, ds, hs, hd, h0, hds, rfl⟩ := hr
      simp only [next] at h
      split at h
      · rename_i hy
        rw [← Option.some.inj h]
        exact ⟨sign, d, ds ++ [yych], hs, hd, h0, hds.snoc hy, by simp⟩
      · split at h
        · rename_i hdot
          rw [← Option.some.inj h, hdot]
          exact ⟨sign, _, hs, .digits hd h0 hds, rfl⟩
        · obtain ⟨he, rfl⟩ := exponent_eq_some h
          exact ⟨_, yych, mantissa_int hs (.digits hd h0 hds), he, rfl⟩
  | p37 =>
      obtain ⟨sign, int, hs, hi, rfl⟩ := hr
      obtain ⟨hd, rfl⟩ := jump_eq_some h
      exact ⟨sign, int, yych, [], hs, hi, hd, fun _ hm => absurd hm List.not_mem_nil, by simp⟩
  | p44 =>
      obtain ⟨sign, int, d, ds, hs, hi, hd, hds, rfl⟩ := hr
      simp only [next] at h
      split at h
      · rename_i hy
        rw [← Option.some.inj h]
        exact ⟨sign, int, d, ds ++ [yych], hs, hi, hd, hds.snoc hy, by simp⟩
      · obtain ⟨he, rfl⟩ := exponent_eq_some h
        exact ⟨_, yych, ⟨sign, int, _, hs, hi, .some hd hds, rfl⟩, he, rfl⟩
  | p38 =>
      obtain ⟨m, e, hm, he, rfl⟩ := hr
      simp only [next] at h
      split at h
      · rename_i hs
        rw [← Option.some.inj h]
        exact ⟨m, e, yych, hm, he, hs, by simp⟩
      · obtain ⟨hd, rfl⟩ := jump_eq_some h
        refine ⟨m, [e], yych, hm, hd, ?_, by simp⟩
        exact .unsigned he hd (fun _ hm => absurd hm List.not_mem_nil)
  | p46 =>
      obtain ⟨m, e, sign, hm, he, hs, rfl⟩ := hr
      obtain ⟨hd, rfl⟩ := jump_eq_some h
      refine ⟨m, [e, sign], yych, hm, hd, ?_, by simp⟩
      exact .signed he hs hd (fun _ hm => absurd hm List.not_mem_nil)
  | p47 =>
      obtain ⟨m, x, d, hm, hd, hx, rfl⟩ := hr
      obtain ⟨hy, rfl⟩ := jump_eq_some h
      exact ⟨m, x ++ [d], yych, hm, hy, hx.snoc hy, by simp⟩
  -- one letter of a literal or of a byte order mark
  | p23 | p24 | p25 | p30 | p39 | p40 | p41 | p42 | p49 | p50 | p51 | p55 =>
      obtain ⟨rfl, rfl⟩ := letter_eq_some h
      have hr : w = _ := hr
      rw [hr]
      rfl
  | p2 | p4 | p10 | p17 | p19 | p21 | p26 | p28 | p34 | p52 | p56 | p58 | p61 =>
      exact absurd h (by simp [next])

/-- **What leads to a label** is what has been read at it. -/
theorem read_of_walk {l : Label} {w : List LexerChar} (h : automaton.walk .start w = some l) :
    Read l w := by
  induction w using List.reverseRecOn generalizing l with
  | nil => rw [← Option.some.inj h]; rfl
  | append_singleton w yych ih =>
      obtain ⟨k, hk, hw⟩ := walk_isSome_of_append h
      obtain ⟨l', hl', hlast⟩ := Option.bind_eq_some_iff.mp hw
      rw [← Option.some.inj hlast]
      exact read_next (ih hk) hl'

/-! ## The tokens -/

theorem numberText_of_mantissa {m x : List LexerChar} (hm : Mantissa m) (hx : ExpPart x) :
    NumberText (m ++ x) := by
  obtain ⟨sign, int, frac, hs, hi, hf, rfl⟩ := hm
  exact .mk hs hi hf hx

/-- A token is what the grammar says it is. -/
theorem lexeme_of_accepts {t : TokenType} {w : List LexerChar}
    (h : automaton.Accepts .start (.token t) w) (ht : t ≠ .parseError) : Lexeme t w := by
  obtain ⟨l, hw, hact⟩ := h
  have hr := read_of_walk hw
  have hact : action l = some (.token t) := hact
  have hint : ∀ {sign int : List LexerChar}, Sign sign → IntPart int →
      Lexeme .valueNumber (sign ++ int) := by
    intro sign int hs hi
    have := numberText_of_mantissa (mantissa_int hs hi) .none
    rw [List.append_nil] at this
    exact .valueNumber this
  cases l with
  | p13 =>
      obtain ⟨sign, hs, rfl⟩ := hr
      rw [← Action.token.inj (Option.some.inj hact)]
      exact hint hs .zero
  | p15 =>
      obtain ⟨sign, d, ds, hs, hd, h0, hds, rfl⟩ := hr
      rw [← Action.token.inj (Option.some.inj hact)]
      exact hint hs (.digits hd h0 hds)
  | p44 =>
      obtain ⟨sign, int, d, ds, hs, hi, hd, hds, rfl⟩ := hr
      rw [← Action.token.inj (Option.some.inj hact)]
      have hm : Mantissa (sign ++ int ++ '.'.toUInt8 :: d :: ds) :=
        ⟨sign, int, _, hs, hi, .some hd hds, rfl⟩
      have := numberText_of_mantissa hm .none
      rw [List.append_nil] at this
      exact .valueNumber this
  | p47 =>
      obtain ⟨m, x, d, hm, _, hx, rfl⟩ := hr
      rw [← Action.token.inj (Option.some.inj hact)]
      exact .valueNumber (numberText_of_mantissa hm hx)
  | p34 =>
      obtain ⟨ps, hps, rfl⟩ := hr
      rw [← Action.token.inj (Option.some.inj hact)]
      exact .valueString hps
  | p2 | p10 | p17 | p19 | p21 | p26 | p28 | p56 | p58 | p61 =>
      have hr : w = _ := hr
      rw [← Action.token.inj (Option.some.inj hact), hr]
      constructor
  | p4 | p9 | p12 | p23 | p24 | p25 | p30 =>
      exact absurd (Action.token.inj (Option.some.inj hact)).symm ht
  | _ => exact absurd hact (by simp [action])

theorem blank_of_accepts {w : List LexerChar} (h : automaton.Accepts .start .skip w) : Blank w := by
  obtain ⟨l, hw, hact⟩ := h
  have hr := read_of_walk hw
  have hact : action l = some .skip := hact
  cases l with
  | p6 => exact blank_of_spaces hr.2
  | p52 =>
      have hr : w = byteOrderMark := hr
      rw [hr]
      exact .mark .nil
  | _ => exact absurd hact (by simp [action])

/-- There is no action before the first byte. -/
theorem ne_nil_of_accepts {a : Action} {w : List LexerChar} (h : automaton.Accepts .start a w) :
    w ≠ [] := by
  rintro rfl
  obtain ⟨l, hl, hact⟩ := h
  rw [← Option.some.inj hl] at hact
  exact absurd hact (by simp [automaton, action])

/-- A parse error is about one byte. -/
theorem length_of_parseError {w : List LexerChar}
    (h : automaton.Accepts .start (.token .parseError) w) : w.length = 1 := by
  obtain ⟨l, hw, hact⟩ := h
  have hr := read_of_walk hw
  have hact : action l = some (.token .parseError) := hact
  cases l with
  | p4 => exact hr
  | p9 | p12 | p23 | p24 | p25 | p30 =>
      have hr : w = _ := hr
      rw [hr]
      rfl
  | _ => exact absurd hact (by simp [action])

/-! ## Where the grammar leads -/

theorem walk_singleton (l : Label) (b : LexerChar) : automaton.walk l [b] = next l b := by
  simp only [walk, automaton]
  cases next l b <;> rfl

theorem walk_cons {l l' : Label} {b : LexerChar} (h : next l b = some l') (w : List LexerChar) :
    automaton.walk l (b :: w) = automaton.walk l' w := by
  rw [walk]
  show (next l b).bind _ = _
  rw [h, Option.bind_some]

theorem inString_plain {b : LexerChar} (h : isPlain b = true) : inString b = some .p31 := by
  rw [inString, if_pos h]

theorem walk_piece {p : Piece} (h : p.Ok) : automaton.walk .p31 p.text = some .p31 := by
  have hslash : next .p31 reverseSolidus = some .p36 := by decide
  cases p with
  | plain b => exact (walk_singleton ..).trans (inString_plain h)
  | escape c =>
      have hesc : next .p36 c = some .p31 := if_pos h
      exact (walk_cons hslash _).trans ((walk_singleton ..).trans hesc)
  | unicode h₁ h₂ h₃ h₄ =>
      obtain ⟨hx₁, hx₂, hx₃, hx₄⟩ := h
      have hesc : next .p36 'u'.toUInt8 = some .p43 := by decide
      refine (walk_cons hslash _).trans ((walk_cons hesc _).trans ?_)
      have hhex₁ : next .p43 h₁ = some .p54 := if_pos hx₁
      have hhex₂ : next .p54 h₂ = some .p60 := if_pos hx₂
      have hhex₃ : next .p60 h₃ = some .p63 := if_pos hx₃
      refine (walk_cons hhex₁ _).trans ((walk_cons hhex₂ _).trans ((walk_cons hhex₃ _).trans ?_))
      exact (walk_singleton ..).trans (if_pos hx₄)

theorem walk_pieces {ps : List Piece} (h : Pieces ps) :
    automaton.walk .p31 (ps.flatMap Piece.text) = some .p31 := by
  induction ps with
  | nil => rfl
  | cons p ps ih =>
      rw [List.flatMap_cons, walk_append (walk_piece (h p (List.mem_cons_self ..)))]
      exact ih fun q hq => h q (List.mem_cons_of_mem p hq)

/-- Behind the quotation mark the scanner goes on as it does behind a piece. -/
theorem next_p9 {b : LexerChar} (h : inString b ≠ none) : next .p9 b = next .p31 b := by
  by_cases hlow : b ≤ 0x1F
  · exfalso
    refine h ?_
    have hplain : ¬ isPlain b = true := by
      simp only [isPlain, Bool.and_eq_true, decide_eq_true_eq, not_and]
      intro hb
      rw [UInt8.le_iff_toNat_le] at hb hlow
      have h1 : (0x1F : UInt8).toNat = 31 := rfl
      have h2 : (0x20 : UInt8).toNat = 32 := rfl
      omega
    rw [inString, if_neg hplain, if_pos hlow]
  · exact if_neg hlow

theorem walk_stringText {ps : List Piece} (h : Pieces ps) :
    automaton.walk .start (stringText ps) = some .p34 := by
  have hbody : automaton.walk .p31 (ps.flatMap Piece.text ++ [quotationMark]) = some .p34 :=
    (walk_append (walk_pieces h) _).trans (by decide)
  have hfirst : next .start quotationMark = some .p9 := by decide
  rw [stringText, walk_cons hfirst, ← hbody]
  cases hw : ps.flatMap Piece.text ++ [quotationMark] with
  | nil => exact absurd hw (by simp)
  | cons b w =>
      rw [hw] at hbody
      obtain ⟨l, hl, _⟩ := Option.bind_eq_some_iff.mp hbody
      have hl : inString b = some l := hl
      rw [walk, walk]
      show (next .p9 b).bind _ = (next .p31 b).bind _
      rw [next_p9 (by rw [hl]; simp)]

/-! Numbers: where each part of one leads. -/

theorem walk_digits {l : Label} (hl : ∀ d, isDigit d = true → next l d = some l)
    {ds : List LexerChar} (h : Digits ds) : automaton.walk l ds = some l := by
  induction ds with
  | nil => rfl
  | cons d ds ih =>
      rw [walk_cons (hl d (h d (List.mem_cons_self ..)))]
      exact ih fun e he => h e (List.mem_cons_of_mem d he)

theorem first_digit {d : LexerChar} (h : isDigit d = true) (h0 : d ≠ '0'.toUInt8) :
    first d = .p15 := by
  have hne : ∀ {b : LexerChar}, isDigit b = false → d ≠ b := by
    rintro b hb rfl
    rw [h] at hb
    exact absurd hb (by simp)
  have hspace : ¬ isSpace d = true := by
    simp only [isSpace, Bool.or_eq_true, beq_iff_eq, not_or]
    exact ⟨⟨⟨hne rfl, hne rfl⟩, hne rfl⟩, hne rfl⟩
  rw [first, if_neg hspace, if_neg (hne rfl), if_neg (hne rfl), if_neg (hne rfl), if_neg (hne rfl),
    if_neg h0, if_pos h]

/-- The labels at the end of an integer part, of a fraction, of a number. -/
def IntEnd (l : Label) : Prop := l = .p13 ∨ l = .p15
def FracEnd (l : Label) : Prop := IntEnd l ∨ l = .p44
def NumberEnd (l : Label) : Prop := FracEnd l ∨ l = .p47

theorem walk_int {sign int : List LexerChar} (hs : Sign sign) (hi : IntPart int) :
    ∃ l, automaton.walk .start (sign ++ int) = some l ∧ IntEnd l := by
  have hloop : ∀ d, isDigit d = true → next .p15 d = some .p15 := fun d hd => if_pos hd
  rcases hs with rfl | rfl
  · cases hi with
    | zero => exact ⟨.p13, by decide, Or.inl rfl⟩
    | digits hd h0 hds =>
        refine ⟨.p15, ?_, Or.inr rfl⟩
        have hfirst : ∀ {d : LexerChar}, first d = .p15 → next .start d = some .p15 :=
          fun h => congrArg some h
        exact (walk_cons (hfirst (first_digit hd h0)) _).trans (walk_digits hloop hds)
  · have hsign : next .start '-'.toUInt8 = some .p12 := by decide
    cases hi with
    | zero => exact ⟨.p13, by decide, Or.inl rfl⟩
    | digits hd h0 hds =>
        refine ⟨.p15, (walk_cons hsign _).trans ?_, Or.inr rfl⟩
        have hfirst : ∀ {d : LexerChar}, isDigit d = true → d ≠ '0'.toUInt8 →
            next .p12 d = some .p15 := by
          intro d hd h0
          show (if d = _ then _ else _) = _
          rw [if_neg h0, if_pos hd]
        exact (walk_cons (hfirst hd h0) _).trans (walk_digits hloop hds)

theorem walk_frac {l : Label} (hl : IntEnd l) {frac : List LexerChar} (hf : FracPart frac) :
    ∃ l', automaton.walk l frac = some l' ∧ FracEnd l' := by
  cases hf with
  | none => exact ⟨l, rfl, Or.inl hl⟩
  | @some d ds hd hds =>
      have hdot : next l '.'.toUInt8 = some .p37 := by
        rcases hl with rfl | rfl <;> decide
      have hfirst : next .p37 d = some .p44 := if_pos hd
      have hloop : ∀ d, isDigit d = true → next .p44 d = some .p44 := fun d hd => if_pos hd
      refine ⟨.p44, (walk_cons hdot _).trans ((walk_cons hfirst _).trans ?_), Or.inr rfl⟩
      exact walk_digits hloop hds

theorem walk_exp {l : Label} (hl : FracEnd l) {exp : List LexerChar} (hx : ExpPart exp) :
    ∃ l', automaton.walk l exp = some l' ∧ NumberEnd l' := by
  have he : ∀ {e : LexerChar}, e = 'e'.toUInt8 ∨ e = 'E'.toUInt8 → next l e = some .p38 := by
    intro e he
    rcases hl with (rfl | rfl) | rfl <;> rcases he with rfl | rfl <;> decide
  have hloop : ∀ d, isDigit d = true → next .p47 d = some .p47 := fun d hd => if_pos hd
  cases hx with
  | none => exact ⟨l, rfl, Or.inl hl⟩
  | @unsigned _ d ds hee hd hds =>
      have hnot : ¬ (d = '+'.toUInt8 ∨ d = '-'.toUInt8) := by
        rintro (rfl | rfl) <;> exact absurd hd (by decide)
      have hfirst : next .p38 d = some .p47 := by
        show (if d = _ ∨ d = _ then _ else _) = _
        rw [if_neg hnot, if_pos hd]
      refine ⟨.p47, (walk_cons (he hee) _).trans ((walk_cons hfirst _).trans ?_), Or.inr rfl⟩
      exact walk_digits hloop hds
  | @signed _ sign d ds hee hs hd hds =>
      have hsign : next .p38 sign = some .p46 := if_pos hs
      have hfirst : next .p46 d = some .p47 := if_pos hd
      refine ⟨.p47, (walk_cons (he hee) _).trans ((walk_cons hsign _).trans
        ((walk_cons hfirst _).trans ?_)), Or.inr rfl⟩
      exact walk_digits hloop hds

theorem walk_numberText {w : List LexerChar} (h : NumberText w) :
    ∃ l, automaton.walk .start w = some l ∧ NumberEnd l := by
  obtain ⟨hs, hi, hf, hx⟩ := h
  obtain ⟨l₁, h₁, hl₁⟩ := walk_int hs hi
  obtain ⟨l₂, h₂, hl₂⟩ := walk_frac hl₁ hf
  obtain ⟨l₃, h₃, hl₃⟩ := walk_exp hl₂ hx
  refine ⟨l₃, ?_, hl₃⟩
  rw [walk_append ((walk_append h₁ _).trans h₂), h₃]

/-- A byte that cannot stand behind a number and belong to it. -/
def EndsNumber (b : LexerChar) : Prop :=
  isDigit b = false ∧ b ≠ '.'.toUInt8 ∧ b ≠ 'e'.toUInt8 ∧ b ≠ 'E'.toUInt8

theorem next_numberEnd {l : Label} {b : LexerChar} (hl : NumberEnd l) (hb : EndsNumber b) :
    next l b = none := by
  obtain ⟨hd, hdot, he, hE⟩ := hb
  have hexp : exponent b = none := if_neg (by rintro (h | h); exacts [hE h, he h])
  have hd : ¬ isDigit b = true := by simp [hd]
  rcases hl with ((rfl | rfl) | rfl) | rfl
  · exact (if_neg hdot).trans hexp
  · exact (if_neg hd).trans ((if_neg hdot).trans hexp)
  · exact (if_neg hd).trans hexp
  · exact if_neg hd

/-- What follows a token must not continue it; that matters only behind a number. -/
def Ended : TokenType → List LexerChar → Prop
  | .valueNumber, rest => ∀ b, rest.head? = some b → EndsNumber b
  | _, _ => True

/-- A token leads to its action, and is not continued by what ends it. -/
theorem walk_lexeme {t : TokenType} {w : List LexerChar} (h : Lexeme t w) :
    ∃ l, automaton.walk .start w = some l ∧ automaton.action l = some (.token t)
      ∧ ∀ rest b, Ended t rest → rest.head? = some b → automaton.next l b = none := by
  cases h with
  | valueNumber hn =>
      obtain ⟨l, hw, hl⟩ := walk_numberText hn
      refine ⟨l, hw, ?_, fun rest b hend hb => next_numberEnd hl (hend b hb)⟩
      rcases hl with ((rfl | rfl) | rfl) | rfl <;> rfl
  | valueString hps => exact ⟨.p34, walk_stringText hps, rfl, fun _ _ _ _ => rfl⟩
  | literalTrue => exact ⟨.p58, by decide, rfl, fun _ _ _ _ => rfl⟩
  | literalFalse => exact ⟨.p61, by decide, rfl, fun _ _ _ _ => rfl⟩
  | literalNull => exact ⟨.p56, by decide, rfl, fun _ _ _ _ => rfl⟩
  | beginArray => exact ⟨.p19, by decide, rfl, fun _ _ _ _ => rfl⟩
  | beginObject => exact ⟨.p26, by decide, rfl, fun _ _ _ _ => rfl⟩
  | endArray => exact ⟨.p21, by decide, rfl, fun _ _ _ _ => rfl⟩
  | endObject => exact ⟨.p28, by decide, rfl, fun _ _ _ _ => rfl⟩
  | nameSeparator => exact ⟨.p17, by decide, rfl, fun _ _ _ _ => rfl⟩
  | valueSeparator => exact ⟨.p10, by decide, rfl, fun _ _ _ _ => rfl⟩
  | endOfInput => exact ⟨.p2, by decide, rfl, fun _ _ _ _ => rfl⟩

/-- Where a token stands, the scanner finds it. -/
theorem munch_lexeme {t : TokenType} {w rest : List LexerChar} (h : Lexeme t w)
    (hend : Ended t rest) :
    automaton.munch .start (w ++ rest) = some ⟨.token t, w, rest⟩ := by
  obtain ⟨l, hw, hact, hstuck⟩ := walk_lexeme h
  exact munch_of_stuck hw hact (fun b hb => hstuck rest b hend hb)

end Lexer

end HandlingModule.AIO
