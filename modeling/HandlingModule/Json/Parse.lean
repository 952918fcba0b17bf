import HandlingModule.AIO.StdMap
import HandlingModule.Json.Tokens
import HandlingModule.Json.Strings
import HandlingModule.Json.Numbers

/-!
# The parser (`parser::parse`, without a callback)

`parse_internal` is entered with the first token of a value in the lexer and left with
the token behind the value, so the lexer goes through the functions here as the state
that it is in the source. The bound of the recursion counts calls and rounds of the two
`do` loops together; `parse` gives it twice what the text can need.

An object is a `std::map`: its members are in the order of their keys, and assigning to
a key that is there replaces its value.
-/

namespace HandlingModule.AIO

open Lexer

/-- A `std::string` with these bytes. -/
def fromBytes (bs : List LexerChar) : String := String.ofList (bs.map fun b => Char.ofNat b.toNat)

/-- The characters of a `std::string` are bytes. -/
def Bytes (s : String) : Prop := ∀ c ∈ s.toList, c.toNat < 0x100

instance (s : String) : Decidable (Bytes s) :=
  decidable_of_iff (s.toList.all (fun c => decide (c.toNat < 0x100)) = true)
    (by simp [Bytes, List.all_eq_true])

theorem toNat_ofNat {n : Nat} (h : n < 0x100) : (Char.ofNat n).toNat = n := by
  have hv : n.isValidChar := Or.inl (by omega)
  rw [Char.ofNat, dif_pos hv]
  rfl

theorem toNat_toUInt8 (c : Char) : c.toUInt8.toNat = c.toNat % 0x100 := rfl

theorem ascii_fromBytes (bs : List LexerChar) : ascii (fromBytes bs) = bs := by
  rw [ascii, fromBytes, String.toList_ofList, List.map_map]
  conv_rhs => rw [← List.map_id bs]
  refine List.map_congr_left fun b _ => UInt8.toNat_inj.mp ?_
  show (Char.ofNat b.toNat).toUInt8.toNat = b.toNat
  rw [toNat_toUInt8, toNat_ofNat b.toNat_lt]
  exact Nat.mod_eq_of_lt b.toNat_lt

theorem fromBytes_ascii {s : String} (h : Bytes s) : fromBytes (ascii s) = s := by
  refine String.toList_inj.mp ?_
  rw [ascii, fromBytes, String.toList_ofList, List.map_map]
  conv_rhs => rw [← List.map_id s.toList]
  refine List.map_congr_left fun c hc => ?_
  show Char.ofNat c.toUInt8.toNat = c
  rw [toNat_toUInt8, Nat.mod_eq_of_lt (h c hc), Char.ofNat_toNat]

theorem bytes_fromBytes (bs : List LexerChar) : Bytes (fromBytes bs) := by
  intro c hc
  rw [fromBytes, String.toList_ofList] at hc
  obtain ⟨b, _, rfl⟩ := List.mem_map.mp hc
  rw [toNat_ofNat b.toNat_lt]
  exact b.toNat_lt

/-- `token_type_name` -/
def tokenTypeName : TokenType → String
  | .literalTrue => "true literal"
  | .literalFalse => "false literal"
  | .literalNull => "null literal"
  | .valueString => "string literal"
  | .valueNumber => "number literal"
  | .beginArray => "'['"
  | .beginObject => "'\x7b'"
  | .endArray => "']'"
  | .endObject => "'\x7d'"
  | .nameSeparator => "':'"
  | .valueSeparator => "','"
  | .parseError => "<parse error>"
  | .endOfInput => "end of input"

namespace Parser

/-- `get_token` -/
def getToken (l : Lexer) : Lexer := scan l.rest

/-- What stands in front of a `;` in the text of an error. -/
def unexpected (l : Lexer) : List LexerChar :=
  ascii "parse error - unexpected "
    ++ if l.last_token_type = .parseError then ascii "'" ++ l.token_string ++ ascii "'"
      else ascii (tokenTypeName l.last_token_type)

def expect (t : TokenType) (l : Lexer) : Except ParseError Unit :=
  if t ≠ l.last_token_type then
    .error (.invalidArgument (unexpected l ++ ascii ("; expected " ++ tokenTypeName t)))
  else .ok ()

def unexpect (t : TokenType) (l : Lexer) : Except ParseError Unit :=
  if t = l.last_token_type then .error (.invalidArgument (unexpected l)) else .ok ()

/-- Behind the separator, if the loop comes back to one. -/
def skipSeparator (l : Lexer) : Lexer :=
  if l.last_token_type = .valueSeparator then getToken l else l

variable (strtod : List LexerChar → UInt64)

mutual

/-- `parse_internal` -/
def parseInternal : Nat → Lexer → Except ParseError (Json × Lexer)
  | 0, _ => .error (.outOfRange [])
  | n + 1, l =>
      match l.last_token_type with
      | .beginObject => do
          let l := getToken l
          if l.last_token_type = .endObject then return (.object [], getToken l)
          unexpect .valueSeparator l
          let (members, l) ← parseMembers n [] l
          expect .endObject l
          return (.object members, getToken l)
      | .beginArray => do
          let l := getToken l
          if l.last_token_type = .endArray then return (.array [], getToken l)
          unexpect .valueSeparator l
          let (elements, l) ← parseElements n l
          expect .endArray l
          return (.array elements, getToken l)
      | .literalNull => .ok (.null, getToken l)
      | .valueString => do
          let s ← getString l.token_string
          return (.string (fromBytes s), getToken l)
      | .literalTrue => .ok (.boolean true, getToken l)
      | .literalFalse => .ok (.boolean false, getToken l)
      | .valueNumber => .ok (getNumber strtod l.token_string, getToken l)
      | _ => .error (.invalidArgument (unexpected l))

/-- The `do` loop over the members of an object, with those it has assigned. -/
def parseMembers : Nat → List (String × Json) → Lexer →
    Except ParseError (List (String × Json) × Lexer)
  | 0, _, _ => .error (.outOfRange [])
  | n + 1, members, l => do
      let l := skipSeparator l
      expect .valueString l
      let key ← getString l.token_string
      let l := getToken l
      expect .nameSeparator l
      let (value, l) ← parseInternal n (getToken l)
      let members := assign members (fromBytes key) value
      if l.last_token_type = .valueSeparator then parseMembers n members l
      else return (members, l)

/-- The `do` loop over the elements of an array. -/
def parseElements : Nat → Lexer → Except ParseError (List Json × Lexer)
  | 0, _ => .error (.outOfRange [])
  | n + 1, l => do
      let (value, l) ← parseInternal n (skipSeparator l)
      if l.last_token_type = .valueSeparator then
        let (elements, l) ← parseElements n l
        return (value :: elements, l)
      else return ([value], l)

end

/-- `parse` -/
def parse (text : List LexerChar) : Except ParseError Json := do
  let (result, l) ← parseInternal strtod (2 * text.length + 2) (scan text)
  expect .endOfInput l
  return result

example (strtod : List LexerChar → UInt64) : parse strtod (ascii "[tru]")
    = .error (.invalidArgument (ascii "parse error - unexpected 't'")) := by rfl

end Parser

end HandlingModule.AIO
