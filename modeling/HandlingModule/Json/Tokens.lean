import HandlingModule.Json.Scan

/-!
# What `scan` returns

Blanks are passed over, and then comes the longest token there is (`scan_eq_iff`). A byte
that begins no token is reported by itself. What the parser needs is less: a token that
is not continued is found, wherever blanks stand before it (`scan_lexeme`), and what is
found stands there (`scan_sound`).
-/

namespace HandlingModule.AIO

namespace Lexer

open Munch Automaton

/-! ## The loop -/

theorem action_ite {c : Prop} [Decidable c] {l l' : Label} (h : ∃ a, action l = some a)
    (h' : ∃ a, action l' = some a) : ∃ a, action (if c then l else l') = some a := by
  split
  · exact h
  · exact h'

theorem exists_action (b : LexerChar) : ∃ a, action (first b) = some a := by
  unfold first
  repeat first
    | exact ⟨_, rfl⟩
    | refine action_ite ⟨_, rfl⟩ ?_

/-- The scanner never stops without an action. -/
theorem exists_munch (b : LexerChar) (input : List LexerChar) :
    ∃ m, automaton.munch .start (b :: input) = some m := by
  cases h : automaton.munch .start (b :: input) with
  | some m => exact ⟨m, rfl⟩
  | none =>
      obtain ⟨a, ha⟩ := exists_action b
      exact absurd ⟨first b, walk_singleton .., ha⟩ (munch_eq_none_iff.mp h [b] input a rfl)

theorem length_of_munch {input : List LexerChar} {m : Match LexerChar Action}
    (h : automaton.munch .start input = some m) : m.rest.length < input.length := by
  have hlong := munch_eq_some_iff.mp h
  have hlen := congrArg List.length hlong.split
  have hpos := List.length_pos_iff.mpr (ne_nil_of_accepts hlong.accepts)
  rw [List.length_append] at hlen
  omega

/-- The bound does not matter, as long as there is enough of it. -/
theorem scanLoop_eq : ∀ {n m : Nat} {input : List LexerChar}, input.length ≤ n → input.length ≤ m →
    scanLoop n input = scanLoop m input
  | n, m, [], _, _ => by cases n <;> cases m <;> rfl
  | 0, m, b :: input, h, _ => absurd h (by simp)
  | n + 1, 0, b :: input, _, h => absurd h (by simp)
  | n + 1, m + 1, b :: input, hn, hm => by
      obtain ⟨⟨a, text, rest⟩, hmunch⟩ := exists_munch b input
      have hlt : rest.length < (b :: input).length := length_of_munch hmunch
      rw [scanLoop, scanLoop, hmunch]
      cases a with
      | token t => rfl
      | skip => exact scanLoop_eq (by omega) (by omega)

theorem scan_nil : scan [] = ⟨.endOfInput, [0], []⟩ := rfl

theorem scan_token {input text rest : List LexerChar} {t : TokenType}
    (h : automaton.munch .start input = some ⟨.token t, text, rest⟩) :
    scan input = ⟨t, text, rest⟩ := by
  cases input with
  | nil => exact absurd (length_of_munch h) (Nat.not_lt_zero _)
  | cons b input =>
      rw [scan, List.length_cons, scanLoop, h]

theorem scan_skip {input text rest : List LexerChar}
    (h : automaton.munch .start input = some ⟨.skip, text, rest⟩) : scan input = scan rest := by
  have hlt := length_of_munch h
  cases input with
  | nil => exact absurd hlt (Nat.not_lt_zero _)
  | cons b input =>
      rw [scan, List.length_cons, scanLoop, h]
      exact scanLoop_eq (Nat.le_of_lt_succ hlt) (Nat.le_refl _)

/-! ## Blanks -/

theorem walk_spaces {ss : List LexerChar} (h : ∀ b ∈ ss, isSpace b = true) :
    automaton.walk .p6 ss = some .p6 := by
  induction ss with
  | nil => rfl
  | cons b ss ih =>
      have hb : next .p6 b = some .p6 := if_pos (h b (List.mem_cons_self ..))
      rw [walk_cons hb]
      exact ih fun c hc => h c (List.mem_cons_of_mem b hc)

/-- A run of spaces is passed over at once. -/
theorem munch_space {b : LexerChar} (hb : isSpace b = true) (input : List LexerChar) :
    automaton.munch .start (b :: input)
      = some ⟨.skip, b :: input.takeWhile isSpace, input.dropWhile isSpace⟩ := by
  have hfirst : next .start b = some .p6 := congrArg some (if_pos hb)
  have hwalk : automaton.walk .start (b :: input.takeWhile isSpace) = some .p6 :=
    (walk_cons hfirst _).trans (walk_spaces (List.all_eq_true.mp List.all_takeWhile))
  have hstuck : ∀ c, (input.dropWhile isSpace).head? = some c → next .p6 c = none := by
    intro c hc
    have hnot := List.head?_dropWhile_not isSpace input
    rw [hc] at hnot
    exact if_neg (by simp [hnot])
  have hmunch := munch_of_stuck (t := .skip) hwalk rfl hstuck
  rwa [List.cons_append, List.takeWhile_append_dropWhile] at hmunch

theorem munch_byteOrderMark (input : List LexerChar) :
    automaton.munch .start (byteOrderMark ++ input) = some ⟨.skip, byteOrderMark, input⟩ :=
  munch_of_stuck (u := .p52) (by decide) rfl (fun _ _ => rfl)

theorem scan_dropWhile (input : List LexerChar) : scan input = scan (input.dropWhile isSpace) := by
  cases input with
  | nil => rfl
  | cons b input =>
      by_cases hb : isSpace b = true
      · rw [scan_skip (munch_space hb input), List.dropWhile_cons_of_pos hb]
      · rw [List.dropWhile_cons_of_neg hb]

theorem scan_blank {bs : List LexerChar} (h : Blank bs) (input : List LexerChar) :
    scan (bs ++ input) = scan input := by
  induction h with
  | nil => rfl
  | @space b bs hb _ ih =>
      rw [List.cons_append, scan_dropWhile, List.dropWhile_cons_of_pos hb, ← scan_dropWhile, ih]
  | @mark bs _ ih => rw [List.append_assoc, scan_skip (munch_byteOrderMark _), ih]

/-- Where blanks stand, no token is found. -/
theorem munch_blank {bs : List LexerChar} (h : Blank bs) (hne : bs ≠ []) (input : List LexerChar) :
    ∃ text rest, automaton.munch .start (bs ++ input) = some ⟨.skip, text, rest⟩ := by
  cases h with
  | nil => exact absurd rfl hne
  | space hb _ => exact ⟨_, _, munch_space hb _⟩
  | mark _ => exact ⟨_, _, by rw [List.append_assoc]; exact munch_byteOrderMark _⟩

/-! ## Tokens -/

/-- **A token is found**, whatever blanks stand before it. -/
theorem scan_lexeme {t : TokenType} {bs w rest : List LexerChar} (hb : Blank bs) (h : Lexeme t w)
    (hend : Ended t rest) : scan (bs ++ (w ++ rest)) = ⟨t, w, rest⟩ := by
  rw [scan_blank hb]
  exact scan_token (munch_lexeme h hend)

theorem scan_end {bs : List LexerChar} (hb : Blank bs) : scan bs = ⟨.endOfInput, [0], []⟩ := by
  have h := scan_blank hb []
  rw [List.append_nil] at h
  rw [h, scan_nil]

/-- Blanks, and then the end or what the scanner finds. -/
theorem scan_cases (input : List LexerChar) : ∃ bs after, Blank bs ∧ input = bs ++ after
    ∧ (after = [] ∧ scan input = ⟨.endOfInput, [0], []⟩
      ∨ ∃ t text rest, automaton.munch .start after = some ⟨.token t, text, rest⟩
        ∧ scan input = ⟨t, text, rest⟩) := by
  induction hn : input.length using Nat.strongRecOn generalizing input with
  | _ n ih =>
      cases input with
      | nil => exact ⟨[], [], .nil, rfl, Or.inl ⟨rfl, rfl⟩⟩
      | cons b input =>
          obtain ⟨⟨a, text, rest⟩, hmunch⟩ := exists_munch b input
          cases a with
          | token t => exact ⟨[], _, .nil, rfl, Or.inr ⟨t, text, rest, hmunch, scan_token hmunch⟩⟩
          | skip =>
              have hlong := munch_eq_some_iff.mp hmunch
              have hsplit : b :: input = text ++ rest := hlong.split
              obtain ⟨bs, after, hbs, hrest, hend⟩ :=
                ih rest.length (hn ▸ length_of_munch hmunch) rest rfl
              refine ⟨text ++ bs, after, (blank_of_accepts hlong.accepts).append hbs, ?_, ?_⟩
              · rw [hsplit, hrest, List.append_assoc]
              · rw [scan_skip hmunch]
                exact hend

/-- **What is found stands there.** -/
theorem scan_sound {input : List LexerChar} {l : Lexer} (h : scan input = l) :
    ∃ bs, Blank bs ∧ (input = bs ∧ l = ⟨.endOfInput, [0], []⟩
      ∨ input = bs ++ (l.token_string ++ l.rest) ∧ l.token_string ≠ []
        ∧ (l.last_token_type ≠ .parseError → Lexeme l.last_token_type l.token_string)) := by
  obtain ⟨bs, after, hb, rfl, ⟨rfl, hscan⟩ | ⟨t, text, rest, hmunch, hscan⟩⟩ := scan_cases input
  · exact ⟨bs, hb, Or.inl ⟨List.append_nil _, h.symm.trans hscan⟩⟩
  · have hlong := munch_eq_some_iff.mp hmunch
    rw [← h, hscan]
    refine ⟨bs, hb, Or.inr ⟨?_, ne_nil_of_accepts hlong.accepts, ?_⟩⟩
    · rw [hlong.split]
    · exact fun ht => lexeme_of_accepts hlong.accepts ht

/-- No blank stands at the beginning. -/
def NoBlank (input : List LexerChar) : Prop := ∀ bs rest, Blank bs → input = bs ++ rest → bs = []

/-- What there is to be found where no blank stands: the end, the longest token, or no token. -/
inductive Finds (input : List LexerChar) : Lexer → Prop where
  | atEnd : input = [] → Finds input ⟨.endOfInput, [0], []⟩
  | token {t : TokenType} {w rest : List LexerChar} :
      input = w ++ rest → Lexeme t w →
      (∀ t' w' rest', input = w' ++ rest' → Lexeme t' w' → w'.length ≤ w.length) →
      Finds input ⟨t, w, rest⟩
  | nothing {b : LexerChar} {rest : List LexerChar} :
      input = b :: rest → (∀ t w' rest', input = w' ++ rest' → ¬ Lexeme t w') →
      Finds input ⟨.parseError, [b], rest⟩

theorem accepts_of_lexeme {t : TokenType} {w : List LexerChar} (h : Lexeme t w) :
    automaton.Accepts .start (.token t) w := by
  obtain ⟨l, hw, hact, _⟩ := walk_lexeme h
  exact ⟨l, hw, hact⟩

theorem Lexeme.ne_nil {t : TokenType} {w : List LexerChar} (h : Lexeme t w) : w ≠ [] :=
  ne_nil_of_accepts (accepts_of_lexeme h)

theorem Lexeme.ne_parseError {t : TokenType} {w : List LexerChar} (h : Lexeme t w) :
    t ≠ .parseError := by
  cases h <;> simp

theorem finds_of_munch {input w rest : List LexerChar} {t : TokenType}
    (h : automaton.munch .start input = some ⟨.token t, w, rest⟩) : Finds input ⟨t, w, rest⟩ := by
  have hlong := munch_eq_some_iff.mp h
  by_cases ht : t = .parseError
  · subst ht
    obtain ⟨b, hb⟩ := List.length_eq_one_iff.mp (length_of_parseError hlong.accepts)
    have hb : w = [b] := hb
    subst hb
    refine .nothing hlong.split ?_
    intro t' w' rest' hsplit hlex
    -- it would be as long, and hence the same text with two actions
    have hacc := accepts_of_lexeme hlex
    have hle : w'.length ≤ 1 := hlong.longest _ _ _ hsplit hacc
    have hlen : w'.length = [b].length :=
      Nat.le_antisymm hle (List.length_pos_iff.mpr hlex.ne_nil)
    obtain ⟨hw, _⟩ := List.append_inj (hsplit.symm.trans hlong.split) hlen
    rw [hw] at hacc
    exact hlex.ne_parseError (Action.token.inj (hacc.unique hlong.accepts))
  · exact .token hlong.split (lexeme_of_accepts hlong.accepts ht)
      (fun _ _ _ hsplit hlex => hlong.longest _ _ _ hsplit (accepts_of_lexeme hlex))

theorem scan_of_finds {input : List LexerChar} {l : Lexer} (hn : NoBlank input) (h : Finds input l) :
    scan input = l := by
  have hskip : ∀ {text rest : List LexerChar},
      automaton.munch .start input ≠ some ⟨.skip, text, rest⟩ := by
    intro text rest hmunch
    have hlong := munch_eq_some_iff.mp hmunch
    exact ne_nil_of_accepts hlong.accepts (hn _ _ (blank_of_accepts hlong.accepts) hlong.split)
  cases h with
  | atEnd hnil => rw [hnil]; rfl
  | @token t w rest hsplit hlex hlongest =>
      refine scan_token (munch_eq_some_iff.mpr ⟨hsplit, accepts_of_lexeme hlex, ?_⟩)
      intro text rest' a hsplit' hacc
      cases a with
      | skip => rw [hn _ _ (blank_of_accepts hacc) hsplit']; exact Nat.zero_le _
      | token t' =>
          by_cases ht : t' = .parseError
          · subst ht
            rw [length_of_parseError hacc]
            exact List.length_pos_iff.mpr hlex.ne_nil
          · exact hlongest t' text rest' hsplit' (lexeme_of_accepts hacc ht)
  | @nothing b rest hsplit hnone =>
      obtain ⟨⟨a, text, rest'⟩, hmunch⟩ := exists_munch b rest
      rw [← hsplit] at hmunch
      cases a with
      | skip => exact absurd hmunch hskip
      | token t =>
          have hfinds := finds_of_munch hmunch
          rw [scan_token hmunch]
          cases hfinds with
          | atEnd hnil => rw [hsplit] at hnil; exact absurd hnil (by simp)
          | token hsplit' hlex _ => exact absurd hlex (hnone _ _ _ hsplit')
          | nothing hsplit' _ =>
              rw [hsplit] at hsplit'
              obtain ⟨rfl, rfl⟩ := List.cons.inj hsplit'
              rfl

/--
**What the scanner returns.** It passes over all the blanks there are, and then returns
the longest token that stands there; or the end, if nothing does; or a parse error of
one byte, if no token begins with what stands there.
-/
theorem scan_eq_iff {input : List LexerChar} {l : Lexer} :
    scan input = l ↔ ∃ bs after, Blank bs ∧ input = bs ++ after ∧ NoBlank after ∧ Finds after l := by
  constructor
  · rintro rfl
    obtain ⟨bs, after, hb, hsplit, ⟨rfl, hscan⟩ | ⟨t, text, rest, hmunch, hscan⟩⟩ := scan_cases input
    · refine ⟨bs, [], hb, hsplit, ?_, hscan ▸ .atEnd rfl⟩
      intro bs' rest' _ hnil
      exact (List.append_eq_nil_iff.mp hnil.symm).1
    · refine ⟨bs, after, hb, hsplit, ?_, hscan ▸ finds_of_munch hmunch⟩
      intro bs' rest' hb' hafter
      by_contra hne
      obtain ⟨text', rest'', hskip⟩ := munch_blank hb' hne rest'
      rw [← hafter, hmunch] at hskip
      exact absurd hskip (by simp)
  · rintro ⟨bs, after, hb, rfl, hn, hfinds⟩
    rw [scan_blank hb]
    exact scan_of_finds hn hfinds

/-- The exponent lacks its digits: the token is the number before it. -/
example : scan (ascii " \t1.5e]") = ⟨.valueNumber, ascii "1.5", ascii "e]"⟩ := by decide +kernel

end Lexer

end HandlingModule.AIO
