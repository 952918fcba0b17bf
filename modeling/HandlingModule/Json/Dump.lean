import Mathlib.Data.String.Basic
import HandlingModule.Json.Refused

/-!
# Serialization (`dump`, `escape_string`)

A value is written on one line, or indented. `escape_string` counts the extra bytes
first, makes a string of the final length out of reverse solidi, and writes into it;
that it fills it exactly is `escapeString_eq`.

A `std::map` is gone through in the order of its keys, so what is dumped here is a value
whose objects have their members in that order. `number` is how the stream prints a
`double` that is not zero.
-/

namespace HandlingModule.AIO

open Lexer

namespace Json

/-- The bytes that are escaped by a letter, with it. -/
def escapeLetter (c : LexerChar) : Option LexerChar :=
  if c = quotationMark then some quotationMark
  else if c = reverseSolidus then some reverseSolidus
  else if c = 0x08 then some 'b'.toUInt8
  else if c = 0x0C then some 'f'.toUInt8
  else if c = 0x0A then some 'n'.toUInt8
  else if c = 0x0D then some 'r'.toUInt8
  else if c = 0x09 then some 't'.toUInt8
  else none

/-- `extra_space` -/
def extraSpace (s : List LexerChar) : Nat :=
  s.foldl (fun res c =>
    if (escapeLetter c).isSome then res + 1 else if c ≤ 0x1F then res + 5 else res) 0

/-- `hexify` -/
def hexify (n : UInt8) : LexerChar := if n < 10 then 0x30 + n else 0x57 + n

/-- The loop of `escape_string`: it writes into `result` from `pos` on. -/
def escapeLoop : List LexerChar → Nat → List LexerChar → List LexerChar
  | result, _, [] => result
  | result, pos, c :: s =>
      match escapeLetter c with
      -- the reverse solidus in front of the letter is there already
      | some e => escapeLoop (result.set (pos + 1) e) (pos + 2) s
      | none =>
          if c ≤ 0x1F then
            escapeLoop (((((result.set (pos + 1) 'u'.toUInt8).set (pos + 2) '0'.toUInt8).set
              (pos + 3) '0'.toUInt8).set (pos + 4) (hexify (c >>> 4))).set
              (pos + 5) (hexify (c &&& 0x0F))) (pos + 6) s
          else escapeLoop (result.set pos c) (pos + 1) s

/-- `escape_string` -/
def escapeString (s : List LexerChar) : List LexerChar :=
  let space := extraSpace s
  if space = 0 then s
  else escapeLoop (List.replicate (s.length + space) reverseSolidus) 0 s

/-- An integer, as `operator<<` prints it. -/
def integerText (n : Int) : List LexerChar :=
  if n < 0 then '-'.toUInt8 :: ascii (toString n.natAbs) else ascii (toString n.natAbs)

/-- A `double`: the zeros are a case of their own. -/
def floatText (number : UInt64 → List LexerChar) (bits : UInt64) : List LexerChar :=
  if bits = 0 then ascii "0.0"
  else if bits = 0x8000000000000000 then ascii "-0.0"
  else number bits

def spaces (indent : UInt32) : List LexerChar := List.replicate indent.toNat 0x20

def newline (pretty_print : Bool) : List LexerChar := if pretty_print then [0x0A] else []

variable (number : UInt64 → List LexerChar) (pretty_print : Bool) (indent_step : UInt32)

mutual

/-- The private `dump`. -/
def dumpTo (current_indent : UInt32) : Json → List LexerChar
  | .object members =>
      if members.isEmpty then [0x7B, 0x7D]
      else
        let new_indent := if pretty_print then current_indent + indent_step else current_indent
        [0x7B] ++ newline pretty_print ++ dumpMembers new_indent true members
          ++ newline pretty_print ++ spaces current_indent ++ [0x7D]
  | .array elements =>
      if elements.isEmpty then ascii "[]"
      else
        let new_indent := if pretty_print then current_indent + indent_step else current_indent
        ascii "[" ++ newline pretty_print ++ dumpElements new_indent true elements
          ++ newline pretty_print ++ spaces current_indent ++ ascii "]"
  | .string s => [quotationMark] ++ escapeString (ascii s) ++ [quotationMark]
  | .boolean b => if b then ascii "true" else ascii "false"
  | .integer n => integerText n.toInt
  | .unsigned n => integerText n.toNat
  | .float bits => floatText number bits
  | .null => ascii "null"

/-- The loop over the members, in the order of their keys. -/
def dumpMembers (new_indent : UInt32) (first : Bool) : List (String × Json) → List LexerChar
  | [] => []
  | (key, value) :: members =>
      (if first then [] else ascii "," ++ newline pretty_print)
        ++ spaces new_indent ++ [quotationMark] ++ escapeString (ascii key) ++ [quotationMark]
        ++ ascii ":" ++ (if pretty_print then ascii " " else []) ++ dumpTo new_indent value
        ++ dumpMembers new_indent false members

/-- The loop over the elements. -/
def dumpElements (new_indent : UInt32) (first : Bool) : List Json → List LexerChar
  | [] => []
  | value :: elements =>
      (if first then [] else ascii "," ++ newline pretty_print)
        ++ spaces new_indent ++ dumpTo new_indent value ++ dumpElements new_indent false elements

end

/-- `dump`, on one line for a negative `indent`. -/
def dump (indent : Int32) (j : Json) : List LexerChar :=
  if 0 ≤ indent then dumpTo number true indent.toUInt32 0 j else dumpTo number false 0 0 j

/-! ## Escaping -/

/-- What is written for a byte. -/
def escapeByte (c : LexerChar) : List LexerChar :=
  match escapeLetter c with
  | some e => [reverseSolidus, e]
  | none =>
      if c ≤ 0x1F then
        [reverseSolidus, 'u'.toUInt8, '0'.toUInt8, '0'.toUInt8, hexify (c >>> 4), hexify (c &&& 0x0F)]
      else [c]

theorem extraSpace_cons (c : LexerChar) (s : List LexerChar) :
    extraSpace (c :: s) + 1 = extraSpace s + (escapeByte c).length := by
  have hshift : ∀ (k : Nat) (s : List LexerChar), s.foldl (fun res c =>
      if (escapeLetter c).isSome then res + 1 else if c ≤ 0x1F then res + 5 else res) k
      = extraSpace s + k := by
    intro k s
    induction s generalizing k with
    | nil => simp [extraSpace]
    | cons c s ih =>
        rw [extraSpace, List.foldl_cons, List.foldl_cons, ih, ih]
        split
        · omega
        · split <;> omega
  rw [extraSpace, List.foldl_cons, hshift, escapeByte]
  cases escapeLetter c with
  | some e => simp
  | none =>
      by_cases hc : c ≤ 0x1F
      · simp [hc]
      · simp [hc]

theorem length_escaped (s : List LexerChar) :
    (s.flatMap escapeByte).length = s.length + extraSpace s := by
  induction s with
  | nil => rfl
  | cons c s ih =>
      have := extraSpace_cons c s
      rw [List.flatMap_cons, List.length_append, List.length_cons, ih]
      omega

/-- Where nothing is to be escaped, nothing is. -/
theorem escaped_eq_self {s : List LexerChar} (h : extraSpace s = 0) : s.flatMap escapeByte = s := by
  induction s with
  | nil => rfl
  | cons c s ih =>
      have hcons := extraSpace_cons c s
      have hpos : 1 ≤ (escapeByte c).length := by
        unfold escapeByte
        split
        · simp
        · split <;> simp
      rw [List.flatMap_cons, ih (by omega)]
      have hlen : (escapeByte c).length = 1 := by omega
      unfold escapeByte at hlen ⊢
      split at hlen
      · exact absurd hlen (by simp)
      · split at hlen
        · exact absurd hlen (by simp)
        · rename_i hc
          rw [if_neg hc]
          rfl

/-- The part that has been written, and reverse solidi for the rest. -/
theorem escapeLoop_eq (done s : List LexerChar) :
    escapeLoop (done ++ List.replicate (s.flatMap escapeByte).length reverseSolidus) done.length s
      = done ++ s.flatMap escapeByte := by
  induction s generalizing done with
  | nil => rfl
  | cons c s ih =>
      have ih := ih (done ++ escapeByte c)
      rw [List.length_append, List.append_assoc, List.append_assoc] at ih
      rw [escapeLoop, List.flatMap_cons, List.length_append, List.replicate_add]
      cases he : escapeLetter c with
      | some e =>
          have hbyte : escapeByte c = [reverseSolidus, e] := by rw [escapeByte, he]
          rw [hbyte] at ih ⊢
          refine Eq.trans ?_ ih
          simp [List.replicate_succ]
      | none =>
          by_cases hc : c ≤ 0x1F
          · have hbyte : escapeByte c = [reverseSolidus, 'u'.toUInt8, '0'.toUInt8, '0'.toUInt8,
                hexify (c >>> 4), hexify (c &&& 0x0F)] := by
              rw [escapeByte, he]
              exact if_pos hc
            rw [hbyte] at ih ⊢
            refine Eq.trans ?_ ih
            simp [List.replicate_succ, hc]
          · have hbyte : escapeByte c = [c] := by
              rw [escapeByte, he]
              exact if_neg hc
            rw [hbyte] at ih ⊢
            refine Eq.trans ?_ ih
            simp [List.replicate_succ, hc]

/-- **`escape_string` writes every byte by itself**, and the buffer is as long as it must be. -/
theorem escapeString_eq (s : List LexerChar) : escapeString s = s.flatMap escapeByte := by
  unfold escapeString
  dsimp only
  split
  · exact (escaped_eq_self ‹_›).symm
  · rw [← length_escaped]
    exact escapeLoop_eq [] s

end Json

end HandlingModule.AIO
