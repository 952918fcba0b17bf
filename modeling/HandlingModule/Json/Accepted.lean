import HandlingModule.Json.Grammar

/-!
# What the parser accepts, and what it does with the rest

Both directions are an induction on the bound, over the three functions together: a
derivation is followed by the parser (`complete`), and what the parser has read is
derived (`sound`). The bound is never reached (`refuses`), so that what is thrown is
what the source throws.
-/

namespace HandlingModule.AIO

open Lexer

namespace Parser

variable {strtod : List LexerChar → UInt64}

theorem bind_eq_ok {ε α β : Type} {x : Except ε α} {f : α → Except ε β} {b : β}
    (h : (x >>= f) = .ok b) : ∃ a, x = .ok a ∧ f a = .ok b := by
  cases x with
  | error e => exact absurd h (by simp [bind, Except.bind])
  | ok a => exact ⟨a, rfl, h⟩

theorem bind_eq_error {ε α β : Type} {x : Except ε α} {f : α → Except ε β} {e : ε}
    (h : (x >>= f) = .error e) : x = .error e ∨ ∃ a, x = .ok a ∧ f a = .error e := by
  cases x with
  | error e' => exact Or.inl (congrArg Except.error (Except.error.inj h))
  | ok a => exact Or.inr ⟨a, rfl, h⟩

theorem expect_eq_ok {t : TokenType} {l : Lexer} {u : Unit} (h : expect t l = .ok u) :
    l.last_token_type = t := by
  unfold expect at h
  split at h
  · exact absurd h (by simp)
  · rename_i hne
    exact (not_not.mp hne).symm

theorem expect_self {t : TokenType} {l : Lexer} (h : l.last_token_type = t) : expect t l = .ok () :=
  if_neg (not_not.mpr h.symm)

theorem unexpect_eq_ok {t : TokenType} {l : Lexer} {u : Unit} (h : unexpect t l = .ok u) :
    l.last_token_type ≠ t := by
  unfold unexpect at h
  split at h
  · exact absurd h (by simp)
  · exact fun ht => absurd ht.symm (by assumption)

theorem unexpect_ne {t : TokenType} {l : Lexer} (h : l.last_token_type ≠ t) : unexpect t l = .ok () :=
  if_neg (Ne.symm h)

theorem skipSeparator_ne {l : Lexer} (h : l.last_token_type ≠ .valueSeparator) : skipSeparator l = l :=
  if_neg h

theorem skipSeparator_eq {l : Lexer} (h : l.last_token_type = .valueSeparator) :
    skipSeparator l = Lexer.scan l.rest := if_pos h

theorem parseInternal_emptyArray {n : Nat} {l l' : Lexer} (hl : l.last_token_type = .beginArray)
    (hget : getToken l = l') (hend : l'.last_token_type = .endArray) :
    parseInternal strtod (n + 1) l = .ok (.array [], getToken l') := by
  subst hget
  rw [parseInternal, hl]
  exact if_pos hend

theorem parseInternal_array {n : Nat} {l l' : Lexer} (hl : l.last_token_type = .beginArray)
    (hget : getToken l = l') (hend : l'.last_token_type ≠ .endArray) :
    parseInternal strtod (n + 1) l = do
      unexpect .valueSeparator l'
      let r ← parseElements strtod n l'
      expect .endArray r.2
      return (.array r.1, getToken r.2) := by
  subst hget
  rw [parseInternal, hl]
  exact if_neg hend

theorem parseInternal_emptyObject {n : Nat} {l l' : Lexer} (hl : l.last_token_type = .beginObject)
    (hget : getToken l = l') (hend : l'.last_token_type = .endObject) :
    parseInternal strtod (n + 1) l = .ok (.object [], getToken l') := by
  subst hget
  rw [parseInternal, hl]
  exact if_pos hend

theorem parseInternal_object {n : Nat} {l l' : Lexer} (hl : l.last_token_type = .beginObject)
    (hget : getToken l = l') (hend : l'.last_token_type ≠ .endObject) :
    parseInternal strtod (n + 1) l = do
      unexpect .valueSeparator l'
      let r ← parseMembers strtod n [] l'
      expect .endObject r.2
      return (.object r.1, getToken r.2) := by
  subst hget
  rw [parseInternal, hl]
  exact if_neg hend

/-! ## The grammar is accepted -/

/-- The token a value begins with. -/
def Begins (t : TokenType) : Prop := ¬ Closing t

theorem Token.begins {t : TokenType} {u : List LexerChar} (h : Token t u) (ht : Begins t)
    (hn : t ≠ .valueNumber) (rest : List LexerChar) :
    Begins (Lexer.scan (u ++ rest)).last_token_type := by
  obtain ⟨w, hscan⟩ := h.scan hn rest
  rw [hscan]
  exact ht

theorem Value.begins {w : List LexerChar} {j : Json} (h : Value strtod w j) {rest : List LexerChar}
    (hf : Follows rest) : Begins (Lexer.scan (w ++ rest)).last_token_type := by
  cases h with
  | null hu => exact hu.begins (by simp [Begins, Closing]) (by simp) rest
  | true hu => exact hu.begins (by simp [Begins, Closing]) (by simp) rest
  | false hu => exact hu.begins (by simp [Begins, Closing]) (by simp) rest
  | string hu => exact hu.token.begins (by simp [Begins, Closing]) (by simp) rest
  | number hb hn =>
      rw [List.append_assoc, scan_lexeme hb (.valueNumber hn) hf]
      simp [Begins, Closing]
  | emptyArray hu _ | emptyObject hu _ =>
      rw [List.append_assoc]
      exact hu.begins (by simp [Begins, Closing]) (by simp) _
  | array hu _ _ | object hu _ _ =>
      rw [List.append_assoc, List.append_assoc]
      exact hu.begins (by simp [Begins, Closing]) (by simp) _

theorem Elements.begins {w : List LexerChar} {js : List Json} (h : Elements strtod w js)
    {rest : List LexerChar} (hf : Follows rest) : Begins (Lexer.scan (w ++ rest)).last_token_type := by
  cases h with
  | one hv => exact hv.begins hf
  | more hv hu _ =>
      rw [List.append_assoc, List.append_assoc]
      exact hv.begins (hu.follows (by simp [Closing]) _)

theorem Members.begins {w : List LexerChar} {ms : List (String × Json)} (h : Members strtod w ms)
    (rest : List LexerChar) : Begins (Lexer.scan (w ++ rest)).last_token_type := by
  cases h with
  | one hk _ _ =>
      rw [List.append_assoc, List.append_assoc]
      exact hk.token.begins (by simp [Begins, Closing]) (by simp) _
  | more hk _ _ _ _ =>
      rw [List.append_assoc, List.append_assoc, List.append_assoc, List.append_assoc]
      exact hk.token.begins (by simp [Begins, Closing]) (by simp) _

theorem Value.length_pos {w : List LexerChar} {j : Json} (h : Value strtod w j) : 0 < w.length := by
  cases h with
  | null hu => exact hu.length_pos
  | true hu => exact hu.length_pos
  | false hu => exact hu.length_pos
  | string hu => exact hu.token.length_pos
  | number _ hn =>
      have := List.length_pos_iff.mpr (Lexeme.valueNumber hn).ne_nil
      rw [List.length_append]
      omega
  | emptyArray hu _ | emptyObject hu _ =>
      have := hu.length_pos
      rw [List.length_append]
      omega
  | array hu _ _ | object hu _ _ =>
      have := hu.length_pos
      rw [List.length_append, List.length_append]
      omega

/-- A derivation is followed, whatever stands behind it. -/
structure Complete (strtod : List LexerChar → UInt64) (n : Nat) : Prop where
  value : ∀ {w rest : List LexerChar} {j : Json}, Value strtod w j → 2 * w.length ≤ n →
    Follows rest → parseInternal strtod n (Lexer.scan (w ++ rest)) = .ok (j, Lexer.scan rest)
  elements : ∀ {w rest : List LexerChar} {js : List Json} {l : Lexer}, Elements strtod w js →
    2 * w.length + 1 ≤ n → Follows rest → (Lexer.scan rest).last_token_type ≠ .valueSeparator →
    skipSeparator l = Lexer.scan (w ++ rest) →
    parseElements strtod n l = .ok (js, Lexer.scan rest)
  members : ∀ {w rest : List LexerChar} {ms : List (String × Json)} {l : Lexer}
    (acc : List (String × Json)), Members strtod w ms → 2 * w.length + 1 ≤ n → Follows rest →
    (Lexer.scan rest).last_token_type ≠ .valueSeparator → skipSeparator l = Lexer.scan (w ++ rest) →
    parseMembers strtod n acc l = .ok (assignAll acc ms, Lexer.scan rest)

theorem complete_value {n : Nat} (ih : Complete strtod n) {w rest : List LexerChar} {j : Json}
    (h : Value strtod w j) (hn : 2 * w.length ≤ n + 1) (hf : Follows rest) :
    parseInternal strtod (n + 1) (Lexer.scan (w ++ rest)) = .ok (j, Lexer.scan rest) := by
  cases h with
  | null hu =>
      obtain ⟨w, hscan⟩ := hu.scan (by simp) rest
      rw [hscan, parseInternal]
      rfl
  | true hu =>
      obtain ⟨w, hscan⟩ := hu.scan (by simp) rest
      rw [hscan, parseInternal]
      rfl
  | false hu =>
      obtain ⟨w, hscan⟩ := hu.scan (by simp) rest
      rw [hscan, parseInternal]
      rfl
  | string hu =>
      obtain ⟨w, v, hscan, hv, rfl⟩ := hu.scan rest
      rw [hscan, parseInternal]
      dsimp only
      rw [hv]
      rfl
  | number hb hnum =>
      rw [List.append_assoc, scan_lexeme hb (.valueNumber hnum) hf, parseInternal]
      rfl
  | @emptyArray u v hu hv =>
      obtain ⟨_, hscan⟩ := hu.scan (by simp) (v ++ rest)
      obtain ⟨_, hclose⟩ := hv.scan (by simp) rest
      have hend : (Lexer.scan (v ++ rest)).last_token_type = .endArray := by rw [hclose]
      rw [List.append_assoc, parseInternal_emptyArray (by rw [hscan]) (by rw [hscan]; rfl) hend,
        getToken, hclose]
  | @emptyObject u v hu hv =>
      obtain ⟨_, hscan⟩ := hu.scan (by simp) (v ++ rest)
      obtain ⟨_, hclose⟩ := hv.scan (by simp) rest
      have hend : (Lexer.scan (v ++ rest)).last_token_type = .endObject := by rw [hclose]
      rw [List.append_assoc, parseInternal_emptyObject (by rw [hscan]) (by rw [hscan]; rfl) hend,
        getToken, hclose]
  | @array u w v js hu hw hv =>
      have hpos := hu.length_pos
      rw [List.length_append, List.length_append] at hn
      obtain ⟨_, hscan⟩ := hu.scan (by simp) (w ++ (v ++ rest))
      obtain ⟨_, hclose⟩ := hv.scan (by simp) rest
      have hfv : Follows (v ++ rest) := hv.follows (by simp [Closing]) rest
      have hbegin : Begins (Lexer.scan (w ++ (v ++ rest))).last_token_type := hw.begins hfv
      have hend := fun h => hbegin (Or.inl h)
      have hsep := fun h => hbegin (Or.inr (Or.inr h))
      have hloop := ih.elements (l := Lexer.scan (w ++ (v ++ rest))) hw (by omega) hfv
        (by rw [hclose]; simp) (skipSeparator_ne hsep)
      rw [List.append_assoc, List.append_assoc,
        parseInternal_array (by rw [hscan]) (by rw [hscan]; rfl) hend, unexpect_ne hsep]
      show (parseElements _ _ _ >>= fun _ => _) = _
      rw [hloop]
      show (expect _ _ >>= fun _ => _) = _
      rw [expect_self (by rw [hclose]), hclose]
      rfl
  | @object u w v ms hu hw hv =>
      have hpos := hu.length_pos
      rw [List.length_append, List.length_append] at hn
      obtain ⟨_, hscan⟩ := hu.scan (by simp) (w ++ (v ++ rest))
      obtain ⟨_, hclose⟩ := hv.scan (by simp) rest
      have hfv : Follows (v ++ rest) := hv.follows (by simp [Closing]) rest
      have hbegin : Begins (Lexer.scan (w ++ (v ++ rest))).last_token_type := hw.begins (v ++ rest)
      have hend := fun h => hbegin (Or.inr (Or.inl h))
      have hsep := fun h => hbegin (Or.inr (Or.inr h))
      have hloop := ih.members (l := Lexer.scan (w ++ (v ++ rest))) [] hw (by omega) hfv
        (by rw [hclose]; simp) (skipSeparator_ne hsep)
      rw [List.append_assoc, List.append_assoc,
        parseInternal_object (by rw [hscan]) (by rw [hscan]; rfl) hend, unexpect_ne hsep]
      show (parseMembers _ _ _ _ >>= fun _ => _) = _
      rw [hloop]
      show (expect _ _ >>= fun _ => _) = _
      rw [expect_self (by rw [hclose]), hclose]
      rfl

theorem complete_elements {n : Nat} (ih : Complete strtod n) {w rest : List LexerChar}
    {js : List Json} {l : Lexer} (h : Elements strtod w js) (hn : 2 * w.length ≤ n)
    (hf : Follows rest) (hend : (Lexer.scan rest).last_token_type ≠ .valueSeparator)
    (hl : skipSeparator l = Lexer.scan (w ++ rest)) :
    parseElements strtod (n + 1) l = .ok (js, Lexer.scan rest) := by
  rw [parseElements, hl]
  cases h with
  | one hv =>
      rw [ih.value hv hn hf]
      exact if_neg hend
  | @more w u ws j js hv hu hws =>
      have hpos := hu.length_pos
      rw [List.length_append, List.length_append] at hn
      obtain ⟨_, hscan⟩ := hu.scan (by simp) (ws ++ rest)
      have hvalue := ih.value hv (by omega) (hu.follows (by simp [Closing]) (ws ++ rest))
      have hloop := ih.elements (l := Lexer.scan (u ++ (ws ++ rest))) hws (by omega) hf hend
        (by rw [skipSeparator_eq (by rw [hscan]), hscan])
      rw [List.append_assoc, List.append_assoc, hvalue]
      refine (if_pos (by rw [hscan])).trans ?_
      dsimp only
      rw [hloop]
      rfl

/-- The key and the colon, and what is left to do. -/
theorem parseMembers_key {n : Nat} {acc : List (String × Json)} {l : Lexer}
    {k u after : List LexerChar} {key : String} (hk : StringToken k key)
    (hu : Token .nameSeparator u) (hl : skipSeparator l = Lexer.scan (k ++ (u ++ after))) :
    parseMembers strtod (n + 1) acc l = do
      let r ← parseInternal strtod n (Lexer.scan after)
      if r.2.last_token_type = .valueSeparator then
        parseMembers strtod n (assign acc key r.1) r.2
      else return (assign acc key r.1, r.2) := by
  obtain ⟨w, v, hscan, hv, rfl⟩ := hk.scan (u ++ after)
  obtain ⟨_, hcolon⟩ := hu.scan (by simp) after
  rw [parseMembers, hl, expect_self (by rw [hscan]), hscan]
  show (getString w >>= fun _ => _) = _
  rw [hv]
  show (expect .nameSeparator (Lexer.scan (u ++ after)) >>= fun _ => _) = _
  rw [expect_self (by rw [hcolon])]
  show (parseInternal strtod n (Lexer.scan (Lexer.scan (u ++ after)).rest) >>= fun _ => _) = _
  rw [hcolon]

theorem complete_members {n : Nat} (ih : Complete strtod n) {w rest : List LexerChar}
    {ms acc : List (String × Json)} {l : Lexer} (h : Members strtod w ms) (hn : 2 * w.length ≤ n)
    (hf : Follows rest) (hend : (Lexer.scan rest).last_token_type ≠ .valueSeparator)
    (hl : skipSeparator l = Lexer.scan (w ++ rest)) :
    parseMembers strtod (n + 1) acc l = .ok (assignAll acc ms, Lexer.scan rest) := by
  cases h with
  | @one k u w key j hk hu hw =>
      rw [List.length_append, List.length_append] at hn
      rw [List.append_assoc, List.append_assoc] at hl
      rw [parseMembers_key hk hu hl, ih.value hw (by omega) hf]
      exact if_neg hend
  | @more k u w v ws key j ms hk hu hw hv hws =>
      have hpos := hv.length_pos
      rw [List.length_append, List.length_append, List.length_append, List.length_append] at hn
      rw [List.append_assoc, List.append_assoc, List.append_assoc, List.append_assoc] at hl
      obtain ⟨_, hcomma⟩ := hv.scan (by simp) (ws ++ rest)
      have hvalue := ih.value hw (by omega) (hv.follows (by simp [Closing]) (ws ++ rest))
      have hloop := ih.members (l := Lexer.scan (v ++ (ws ++ rest))) (assign acc key j) hws (by omega) hf hend
        (by rw [skipSeparator_eq (by rw [hcomma]), hcomma])
      rw [parseMembers_key hk hu hl, hvalue]
      exact (if_pos (by rw [hcomma])).trans hloop

theorem complete (n : Nat) : Complete strtod n := by
  induction n with
  | zero =>
      refine ⟨?_, ?_, ?_⟩
      · intro w rest j hv hn
        have := hv.length_pos
        omega
      · intro w rest js l _ hn
        omega
      · intro w rest ms l acc _ hn
        omega
  | succ n ih =>
      refine ⟨complete_value ih, ?_, ?_⟩
      · intro w rest js l h hn
        exact complete_elements ih h (Nat.le_of_succ_le_succ hn)
      · intro w rest ms l acc h hn
        exact complete_members ih h (Nat.le_of_succ_le_succ hn)

/-! ## What is accepted is in the grammar -/

theorem token_scan {input : List LexerChar} {t : TokenType}
    (h : (Lexer.scan input).last_token_type = t) (hp : t ≠ .parseError) (he : t ≠ .endOfInput) :
    ∃ u rest, Token t u ∧ input = u ++ rest ∧ getToken (Lexer.scan input) = Lexer.scan rest := by
  obtain ⟨bs, w, rest, hb, hw, hsplit, hscan⟩ := token_of_scan h hp he
  exact ⟨bs ++ w, rest, ⟨hb, hw⟩, hsplit, by rw [hscan]; rfl⟩

theorem stringToken_scan {input v : List LexerChar}
    (h : (Lexer.scan input).last_token_type = .valueString)
    (hv : getString (Lexer.scan input).token_string = .ok v) :
    ∃ u rest, StringToken u (fromBytes v) ∧ input = u ++ rest
      ∧ getToken (Lexer.scan input) = Lexer.scan rest := by
  obtain ⟨bs, w, rest, hb, hw, hsplit, hscan⟩ := token_of_scan h (by simp) (by simp)
  rw [hscan] at hv
  cases hw with
  | @valueString ps hps =>
      rw [getString_stringText hps] at hv
      exact ⟨_, rest, ⟨hb, hps, hv⟩, hsplit, by rw [hscan]; rfl⟩

/-- What has been read is derived, and the lexer is behind it. -/
structure Sound (strtod : List LexerChar → UInt64) (n : Nat) : Prop where
  value : ∀ {input : List LexerChar} {j : Json} {l : Lexer},
    parseInternal strtod n (Lexer.scan input) = .ok (j, l) →
    ∃ w rest, input = w ++ rest ∧ Value strtod w j ∧ l = Lexer.scan rest
  elements : ∀ {input : List LexerChar} {js : List Json} {l₀ l : Lexer},
    skipSeparator l₀ = Lexer.scan input → parseElements strtod n l₀ = .ok (js, l) →
    ∃ w rest, input = w ++ rest ∧ Elements strtod w js ∧ l = Lexer.scan rest
  members : ∀ {input : List LexerChar} {acc acc' : List (String × Json)} {l₀ l : Lexer},
    skipSeparator l₀ = Lexer.scan input → parseMembers strtod n acc l₀ = .ok (acc', l) →
    ∃ w ms rest, input = w ++ rest ∧ Members strtod w ms ∧ acc' = assignAll acc ms
      ∧ l = Lexer.scan rest

theorem sound_array {n : Nat} (ih : Sound strtod n) {input : List LexerChar} {j : Json} {l : Lexer}
    (ht : (Lexer.scan input).last_token_type = .beginArray)
    (h : parseInternal strtod (n + 1) (Lexer.scan input) = .ok (j, l)) :
    ∃ w rest, input = w ++ rest ∧ Value strtod w j ∧ l = Lexer.scan rest := by
  obtain ⟨u, after, hu, rfl, hget⟩ := token_scan ht (by simp) (by simp)
  by_cases hend : (Lexer.scan after).last_token_type = .endArray
  · rw [parseInternal_emptyArray ht hget hend] at h
    obtain ⟨rfl, rfl⟩ := Prod.mk.inj (Except.ok.inj h)
    obtain ⟨v, rest, hv, rfl, hget'⟩ := token_scan hend (by simp) (by simp)
    exact ⟨u ++ v, rest, (List.append_assoc ..).symm, .emptyArray hu hv, hget'⟩
  · rw [parseInternal_array ht hget hend] at h
    obtain ⟨_, hsep, h⟩ := bind_eq_ok h
    obtain ⟨⟨js, l'⟩, hloop, h⟩ := bind_eq_ok h
    obtain ⟨_, hclose, h⟩ := bind_eq_ok h
    obtain ⟨rfl, rfl⟩ := Prod.mk.inj (Except.ok.inj h)
    obtain ⟨w, rest, rfl, hw, rfl⟩ := ih.elements (skipSeparator_ne (unexpect_eq_ok hsep)) hloop
    obtain ⟨v, rest, hv, rfl, hget'⟩ := token_scan (expect_eq_ok hclose) (by simp) (by simp)
    exact ⟨u ++ w ++ v, rest, by simp, .array hu hw hv, hget'⟩

theorem sound_object {n : Nat} (ih : Sound strtod n) {input : List LexerChar} {j : Json} {l : Lexer}
    (ht : (Lexer.scan input).last_token_type = .beginObject)
    (h : parseInternal strtod (n + 1) (Lexer.scan input) = .ok (j, l)) :
    ∃ w rest, input = w ++ rest ∧ Value strtod w j ∧ l = Lexer.scan rest := by
  obtain ⟨u, after, hu, rfl, hget⟩ := token_scan ht (by simp) (by simp)
  by_cases hend : (Lexer.scan after).last_token_type = .endObject
  · rw [parseInternal_emptyObject ht hget hend] at h
    obtain ⟨rfl, rfl⟩ := Prod.mk.inj (Except.ok.inj h)
    obtain ⟨v, rest, hv, rfl, hget'⟩ := token_scan hend (by simp) (by simp)
    exact ⟨u ++ v, rest, (List.append_assoc ..).symm, .emptyObject hu hv, hget'⟩
  · rw [parseInternal_object ht hget hend] at h
    obtain ⟨_, hsep, h⟩ := bind_eq_ok h
    obtain ⟨⟨ms, l'⟩, hloop, h⟩ := bind_eq_ok h
    obtain ⟨_, hclose, h⟩ := bind_eq_ok h
    obtain ⟨rfl, rfl⟩ := Prod.mk.inj (Except.ok.inj h)
    obtain ⟨w, ms, rest, rfl, hw, rfl, rfl⟩ :=
      ih.members (skipSeparator_ne (unexpect_eq_ok hsep)) hloop
    obtain ⟨v, rest, hv, rfl, hget'⟩ := token_scan (expect_eq_ok hclose) (by simp) (by simp)
    exact ⟨u ++ w ++ v, rest, by simp, .object hu hw hv, hget'⟩

theorem sound_value {n : Nat} (ih : Sound strtod n) {input : List LexerChar} {j : Json} {l : Lexer}
    (h : parseInternal strtod (n + 1) (Lexer.scan input) = .ok (j, l)) :
    ∃ w rest, input = w ++ rest ∧ Value strtod w j ∧ l = Lexer.scan rest := by
  cases ht : (Lexer.scan input).last_token_type with
  | beginArray => exact sound_array ih ht h
  | beginObject => exact sound_object ih ht h
  | literalNull =>
      obtain ⟨u, rest, hu, hsplit, hget⟩ := token_scan ht (by simp) (by simp)
      rw [parseInternal, ht] at h
      obtain ⟨rfl, rfl⟩ := Prod.mk.inj (Except.ok.inj h)
      exact ⟨u, rest, hsplit, .null hu, hget⟩
  | literalTrue =>
      obtain ⟨u, rest, hu, hsplit, hget⟩ := token_scan ht (by simp) (by simp)
      rw [parseInternal, ht] at h
      obtain ⟨rfl, rfl⟩ := Prod.mk.inj (Except.ok.inj h)
      exact ⟨u, rest, hsplit, .true hu, hget⟩
  | literalFalse =>
      obtain ⟨u, rest, hu, hsplit, hget⟩ := token_scan ht (by simp) (by simp)
      rw [parseInternal, ht] at h
      obtain ⟨rfl, rfl⟩ := Prod.mk.inj (Except.ok.inj h)
      exact ⟨u, rest, hsplit, .false hu, hget⟩
  | valueString =>
      rw [parseInternal, ht] at h
      obtain ⟨v, hv, h⟩ := bind_eq_ok h
      obtain ⟨rfl, rfl⟩ := Prod.mk.inj (Except.ok.inj h)
      obtain ⟨u, rest, hu, hsplit, hget⟩ := stringToken_scan ht hv
      exact ⟨u, rest, hsplit, .string hu, hget⟩
  | valueNumber =>
      obtain ⟨bs, w, rest, hb, hw, hsplit, hscan⟩ := token_of_scan ht (by simp) (by simp)
      rw [parseInternal, ht] at h
      obtain ⟨rfl, rfl⟩ := Prod.mk.inj (Except.ok.inj h)
      rw [hscan]
      cases hw with
      | valueNumber hnum => exact ⟨bs ++ w, rest, hsplit, .number hb hnum, rfl⟩
  | endArray | endObject | nameSeparator | valueSeparator | parseError | endOfInput =>
      rw [parseInternal, ht] at h
      exact absurd h (by simp)

theorem sound_elements {n : Nat} (ih : Sound strtod n) {input : List LexerChar} {js : List Json}
    {l₀ l : Lexer} (hl : skipSeparator l₀ = Lexer.scan input)
    (h : parseElements strtod (n + 1) l₀ = .ok (js, l)) :
    ∃ w rest, input = w ++ rest ∧ Elements strtod w js ∧ l = Lexer.scan rest := by
  rw [parseElements, hl] at h
  obtain ⟨⟨j, l'⟩, hvalue, h⟩ := bind_eq_ok h
  obtain ⟨w, rest, rfl, hw, rfl⟩ := ih.value hvalue
  dsimp only at h
  split at h
  · rename_i hsep
    obtain ⟨⟨js', l''⟩, hloop, h⟩ := bind_eq_ok h
    obtain ⟨rfl, rfl⟩ := Prod.mk.inj (Except.ok.inj h)
    obtain ⟨u, after, hu, rfl, hget⟩ := token_scan hsep (by simp) (by simp)
    obtain ⟨ws, rest, rfl, hws, rfl⟩ := ih.elements ((skipSeparator_eq hsep).trans hget) hloop
    exact ⟨w ++ u ++ ws, rest, by simp, .more hw hu hws, rfl⟩
  · obtain ⟨rfl, rfl⟩ := Prod.mk.inj (Except.ok.inj h)
    exact ⟨w, rest, rfl, .one hw, rfl⟩

theorem sound_members {n : Nat} (ih : Sound strtod n) {input : List LexerChar}
    {acc acc' : List (String × Json)} {l₀ l : Lexer} (hl : skipSeparator l₀ = Lexer.scan input)
    (h : parseMembers strtod (n + 1) acc l₀ = .ok (acc', l)) :
    ∃ w ms rest, input = w ++ rest ∧ Members strtod w ms ∧ acc' = assignAll acc ms
      ∧ l = Lexer.scan rest := by
  rw [parseMembers, hl] at h
  obtain ⟨_, hstring, h⟩ := bind_eq_ok h
  obtain ⟨v, hv, h⟩ := bind_eq_ok h
  obtain ⟨k, after, hk, rfl, hget⟩ := stringToken_scan (expect_eq_ok hstring) hv
  dsimp only at h
  rw [hget] at h
  obtain ⟨_, hcolon, h⟩ := bind_eq_ok h
  obtain ⟨u, after, hu, rfl, hget'⟩ := token_scan (expect_eq_ok hcolon) (by simp) (by simp)
  rw [hget'] at h
  obtain ⟨⟨j, l'⟩, hvalue, h⟩ := bind_eq_ok h
  obtain ⟨w, rest, rfl, hw, rfl⟩ := ih.value hvalue
  dsimp only at h
  split at h
  · rename_i hsep
    obtain ⟨x, after, hx, rfl, hget''⟩ := token_scan hsep (by simp) (by simp)
    obtain ⟨ws, ms, rest, rfl, hws, rfl, rfl⟩ :=
      ih.members ((skipSeparator_eq hsep).trans hget'') h
    exact ⟨k ++ u ++ w ++ x ++ ws, _ :: ms, rest, by simp, .more hk hu hw hx hws, rfl, rfl⟩
  · obtain ⟨rfl, rfl⟩ := Prod.mk.inj (Except.ok.inj h)
    exact ⟨k ++ u ++ w, _, rest, by simp, .one hk hu hw, rfl, rfl⟩

theorem sound (n : Nat) : Sound strtod n := by
  induction n with
  | zero =>
      refine ⟨?_, ?_, ?_⟩
      · intro input j l h
        exact absurd h (by simp [parseInternal])
      · intro input js l₀ l _ h
        exact absurd h (by simp [parseElements])
      · intro input acc acc' l₀ l _ h
        exact absurd h (by simp [parseMembers])
  | succ n ih => exact ⟨sound_value ih, sound_elements ih, sound_members ih⟩

end Parser

end HandlingModule.AIO
