import LinearAssignment.Json.Printer
import LinearAssignment.Json.Token

/-! # Written strings and numbers are read back as tokens

    What the printer writes for a value without parts is one token for the scanner.  A string
    ends at its closing quote, whatever follows; a word ends where a character follows that
    belongs to no word, or at the end of the text.

    * `Quoted.read?_write`: a string is what stands between the quotes that are written.
    * `NumberLiteral.ofWord?_toDigits`: a count is the number that its digits spell.
    * `Token.Ends`: what may follow a word.
    * `Token.scanFrom_word`, `Token.scanFrom_write`: the tokens of a text that starts with a
      word or with a written string. -/

namespace LinearAssignment.Json

/-! ## Strings -/

namespace Quoted

/-- A character that is neither a backslash nor a control character stands for itself. -/
theorem pieces?_cons {c : Char} (hc : c ≠ '\\') (hspace : ¬ c < ' ') (rest : List Char) :
    pieces? (c :: rest) = (pieces? rest).map (.char c :: ·) := by
  rw [pieces?]
  · simp only [hc, hspace, decide_false, Bool.or_self, Bool.false_eq_true, if_false]
    cases pieces? rest <;> rfl
  -- No escape begins here, neither a long one nor a short one.
  · exact fun _ _ _ _ _ h => absurd h hc
  · exact fun _ _ h => absurd h hc

theorem pieces?_escape {c d : Char} (hc : escaped? c = some d) (rest : List Char) :
    pieces? ('\\' :: c :: rest) = (pieces? rest).map (.char d :: ·) := by
  rw [pieces?]
  · rw [hc]
    cases pieces? rest <;> rfl
  · intro _ _ _ _ _ h
    subst h
    cases hc

/-- The four digits written for a control character spell it. -/
theorem unit?_hexDigit :
    ∀ n < 32, unit? '0' '0' (hexDigit (n / 16)) (hexDigit (n % 16)) = some n := by
  decide

theorem pieces?_control {c : Char} (h : c < ' ') (rest : List Char) :
    pieces? ('\\' :: 'u' :: '0' :: '0' :: hexDigit (c.toNat / 16) :: hexDigit (c.toNat % 16) ::
      rest) = (pieces? rest).map (.char c :: ·) := by
  have hlt : c.toNat < 32 := h
  have hpiece : pieceOfUnit c.toNat = .char c := by
    have hlow : ¬ 0xD800 ≤ c.toNat := by omega
    rw [pieceOfUnit, if_neg (by simp [hlow]), Char.ofNat_toNat]
  simp only [pieces?, unit?_hexDigit c.toNat hlt]
  cases pieces? rest with
  | none => rfl
  | some pieces => exact congrArg (fun piece => some (piece :: pieces)) hpiece

theorem pieces?_writeChar (c : Char) (rest : List Char) :
    pieces? (writeChar c ++ rest) = (pieces? rest).map (.char c :: ·) := by
  -- But for the last row of the table, a backslash and one character are written.
  unfold writeChar
  split
  case h_8 hslash _ _ _ _ _ =>
    split
    · next hspace => exact pieces?_control hspace rest
    · next hspace => exact pieces?_cons hslash hspace rest
  all_goals exact pieces?_escape rfl rest

theorem pieces?_flatMap_writeChar (cs : List Char) :
    pieces? (cs.flatMap writeChar) = some (cs.map .char) := by
  induction cs with
  | nil => rfl
  | cons c cs ih => rw [List.flatMap_cons, pieces?_writeChar, ih, Option.map_some, List.map_cons]

theorem chars?_map_char (cs : List Char) : chars? (cs.map .char) = some cs := by
  induction cs with
  | nil => rfl
  | cons c cs ih => rw [List.map_cons, chars?, ih, Option.map_some]

/-- **What is written between the quotes reads as the string.** -/
theorem read?_write (s : String) : read? (s.toList.flatMap writeChar) = some (some s) := by
  rw [read?, pieces?_flatMap_writeChar, Option.map_some, chars?_map_char, Option.map_some,
    String.ofList_toList]

end Quoted

/-! ## Counts -/

namespace NumberLiteral

open Decimal

theorem spanDigits_of_forall {cs : List Char} (h : ∀ c ∈ cs, c.isDigit = true) :
    spanDigits cs = (cs, []) := by
  have htake : (cs ++ []).takeWhile Char.isDigit = cs ++ [].takeWhile Char.isDigit :=
    List.takeWhile_append_of_pos h
  have hdrop : (cs ++ []).dropWhile Char.isDigit = [].dropWhile Char.isDigit :=
    List.dropWhile_append_of_pos h
  simp only [List.append_nil, List.takeWhile_nil, List.dropWhile_nil] at htake hdrop
  rw [spanDigits, htake, hdrop]

theorem isDigit_of_mem_toDigits {n : Nat} {c : Char} (h : c ∈ Nat.toDigits 10 n) :
    c.isDigit = true :=
  Nat.isDigit_of_mem_toDigits (by decide) (by decide) h

/-- The digits of a number spell it. -/
theorem ofDigits_toDigits (n : Nat) : ofDigits (Nat.toDigits 10 n) = n := by
  -- On digits the fold is the one that the library has for them.
  have hfold : ∀ (cs : List Char) (acc : Nat), (∀ c ∈ cs, c.isDigit = true) →
      cs.foldl (fun n c => n * 10 + (digit? c).getD 0) acc = Nat.ofDigitChars 10 cs acc := by
    intro cs
    induction cs with
    | nil => exact fun _ _ => rfl
    | cons c cs ih =>
      intro acc hcs
      have hdigit : (digit? c).getD 0 = c.toNat - '0'.toNat := by
        rw [digit?, if_pos (hcs c List.mem_cons_self), Option.getD_some]
      rw [List.foldl_cons, hdigit, Nat.mul_comm acc, Nat.ofDigitChars_cons]
      exact ih _ fun d hd => hcs d (List.mem_cons_of_mem c hd)
  rw [ofDigits, hfold _ _ fun c hc => isDigit_of_mem_toDigits hc]
  exact Nat.ofDigitChars_toDigits (by decide) (by decide)

/-- Only zero is written with a leading zero. -/
theorem head?_toDigits_ne {n : Nat} (h : 0 < n) : (Nat.toDigits 10 n).head? ≠ some '0' := by
  induction n using Nat.strongRecOn with
  | ind n ih =>
    rw [Nat.toDigits_eq_if (by decide)]
    split
    · next hlt =>
      have hchar : ∀ d < 10, 0 < d → d.digitChar ≠ '0' := by decide
      exact fun heq => hchar n hlt h (Option.some.inj heq)
    · next hge =>
      -- The leading digit is that of the number without its last digit.
      have hrest := ih (n / 10) (by omega) (by omega)
      cases hdigits : Nat.toDigits 10 (n / 10) with
      | nil => exact absurd hdigits Nat.toDigits_ne_nil
      | cons c cs =>
        rw [hdigits] at hrest
        exact hrest

theorem ofWord?_toDigits (n : Nat) :
    ofWord? (Nat.toDigits 10 n) = some ⟨false, Nat.toDigits 10 n, [], none⟩ := by
  have hdigits : ∀ c ∈ Nat.toDigits 10 n, c.isDigit = true :=
    fun c hc => isDigit_of_mem_toDigits hc
  have hne : Nat.toDigits 10 n ≠ [] := Nat.toDigits_ne_nil
  have hleading : ¬ (1 < (Nat.toDigits 10 n).length ∧
      (Nat.toDigits 10 n).head? = some '0') := by
    rintro ⟨hlength, hhead⟩
    rcases Nat.eq_zero_or_pos n with rfl | hpos
    · simp at hlength
    · exact head?_toDigits_ne hpos hhead
  unfold ofWord?
  split
  · next negative cs hsign =>
    split at hsign
    · next rest heq =>
      -- A minus is no digit.
      have hminus := hdigits '-' (by rw [heq]; exact List.mem_cons_self)
      cases hminus
    · obtain ⟨rfl, rfl⟩ := Prod.mk.inj hsign
      rw [spanDigits_of_forall hdigits]
      simp [hne, hleading, tail?, power?]

/-- **A count that fits a word is read back from its digits.** -/
theorem toJson_toDigits {n : Nat} (h : n ≤ wordMax) :
    toJson ⟨false, Nat.toDigits 10 n, [], none⟩ = .nat n := by
  have hint : int? ⟨false, Nat.toDigits 10 n, [], none⟩ = some (n : Int) := by
    simp [int?, ofDigits_toDigits, h]
  rw [toJson, hint]
  rfl

end NumberLiteral

/-! ## Scanning -/

namespace Token

/-- What a character completes comes before the tokens of the rest. -/
theorem scanFrom_cons {place place' : Place} {c : Char} {tokens : List Token}
    (h : advance place c = some (tokens, place')) (cs : List Char) :
    scanFrom place (c :: cs) = (scanFrom place' cs).map (tokens ++ ·) := by
  rw [scanFrom, h]
  show (scanFrom place' cs).bind (fun rest => some (tokens ++ rest)) = _
  rw [Option.map_eq_bind]
  rfl

theorem scanFrom_cons_nil {place place' : Place} {c : Char}
    (h : advance place c = some ([], place')) (cs : List Char) :
    scanFrom place (c :: cs) = scanFrom place' cs := by
  rw [scanFrom_cons h]
  cases scanFrom place' cs <;> rfl

theorem scanFrom_punctuation {c : Char} {token : Token} (h : start c = ([token], .between))
    (cs : List Char) : scanFrom .between (c :: cs) = (scanFrom .between cs).map (token :: ·) :=
  have hadvance : advance .between c = some ([token], .between) := congrArg some h
  scanFrom_cons hadvance cs

/-! ### Strings -/

/-- Characters of a string other than quotes and backslashes are kept. -/
theorem scanFrom_plain {cs : List Char} (h : ∀ c ∈ cs, c ≠ '"' ∧ c ≠ '\\') (acc rest : List Char) :
    scanFrom (.string acc false) (cs ++ rest) =
      scanFrom (.string (cs.reverse ++ acc) false) rest := by
  induction cs generalizing acc with
  | nil => rfl
  | cons c cs ih =>
    obtain ⟨hquote, hslash⟩ := h c List.mem_cons_self
    have hadvance : advance (.string acc false) c = some ([], .string (c :: acc) false) := by
      rw [advance, if_neg hquote, beq_false_of_ne hslash]
    rw [List.cons_append, scanFrom_cons_nil hadvance,
      ih fun d hd => h d (List.mem_cons_of_mem c hd), List.reverse_cons, List.append_assoc]
    rfl

/-- So is the character behind a backslash, whatever it is. -/
theorem scanFrom_escape (c : Char) (acc rest : List Char) :
    scanFrom (.string acc false) ('\\' :: c :: rest) =
      scanFrom (.string (c :: '\\' :: acc) false) rest :=
  (scanFrom_cons_nil rfl (c :: rest)).trans (scanFrom_cons_nil rfl rest)

theorem hexDigit_plain : ∀ n < 16, Quoted.hexDigit n ≠ '"' ∧ Quoted.hexDigit n ≠ '\\' := by
  decide

/-- No character as it is written ends the string. -/
theorem scanFrom_writeChar (c : Char) (acc rest : List Char) :
    scanFrom (.string acc false) (Quoted.writeChar c ++ rest) =
      scanFrom (.string ((Quoted.writeChar c).reverse ++ acc) false) rest := by
  -- The cases are those of the table; a quote is written behind a backslash.
  unfold Quoted.writeChar
  split
  case h_8 hquote hslash _ _ _ _ _ =>
    split
    · next hspace =>
      have hlt : c.toNat < 32 := hspace
      have hplain : ∀ d ∈ ['0', '0', Quoted.hexDigit (c.toNat / 16),
          Quoted.hexDigit (c.toNat % 16)], d ≠ '"' ∧ d ≠ '\\' := by
        simp only [List.mem_cons, List.not_mem_nil, or_false, forall_eq_or_imp, forall_eq]
        exact ⟨by decide, by decide, hexDigit_plain _ (by omega), hexDigit_plain _ (by omega)⟩
      exact (scanFrom_escape 'u' acc _).trans (scanFrom_plain hplain _ rest)
    · exact scanFrom_plain (by simpa using ⟨hquote, hslash⟩) acc rest
  all_goals exact scanFrom_escape _ acc rest

theorem scanFrom_flatMap_writeChar (cs acc rest : List Char) :
    scanFrom (.string acc false) (cs.flatMap Quoted.writeChar ++ rest) =
      scanFrom (.string ((cs.flatMap Quoted.writeChar).reverse ++ acc) false) rest := by
  induction cs generalizing acc with
  | nil => rfl
  | cons c cs ih =>
    rw [List.flatMap_cons, List.append_assoc, scanFrom_writeChar, ih, List.reverse_append,
      List.append_assoc]

/-- **A written string is one token, whatever follows.** -/
theorem scanFrom_write (s : String) (rest : List Char) :
    scanFrom .between ((Quoted.write s).toList ++ rest) =
      (scanFrom .between rest).map (.text (some s) :: ·) := by
  have hopen : advance .between '"' = some ([], .string [] false) := rfl
  have hclose : advance (.string (s.toList.flatMap Quoted.writeChar).reverse false) '"' =
      some ([.text (some s)], .between) := by
    rw [advance, if_pos rfl, List.reverse_reverse, Quoted.read?_write]
    rfl
  rw [Quoted.write, String.toList_ofList, List.cons_append, List.cons_append,
    scanFrom_cons_nil hopen, List.append_assoc, scanFrom_flatMap_writeChar, List.append_nil]
  exact scanFrom_cons hclose rest

/-! ### Words -/

/-- The text is at its end or goes on with a character that belongs to no word. -/
def Ends (rest : List Char) : Prop := ∀ c, rest.head? = some c → endsWord c = true

theorem ends_nil : Ends [] := fun _ h => by cases h

theorem ends_cons {c : Char} (h : endsWord c = true) (rest : List Char) : Ends (c :: rest) := by
  intro d hd
  rwa [← Option.some.inj hd]

/-- A word goes on as long as its characters do. -/
theorem scanFrom_inside {cs : List Char} (h : ∀ c ∈ cs, endsWord c = false)
    (acc rest : List Char) :
    scanFrom (.word acc) (cs ++ rest) = scanFrom (.word (cs.reverse ++ acc)) rest := by
  induction cs generalizing acc with
  | nil => rfl
  | cons c cs ih =>
    have hadvance : advance (.word acc) c = some ([], .word (c :: acc)) := by
      rw [advance, h c List.mem_cons_self]
      rfl
    rw [List.cons_append, scanFrom_cons_nil hadvance,
      ih fun d hd => h d (List.mem_cons_of_mem c hd), List.reverse_cons, List.append_assoc]
    rfl

/-- And it ends where it is told to. -/
theorem scanFrom_behind {acc rest : List Char} {token : Token}
    (ht : ofWord? acc.reverse = some token) (hrest : Ends rest) :
    scanFrom (.word acc) rest = (scanFrom .between rest).map (token :: ·) := by
  -- The character that ends the word is then read as one between tokens.
  cases rest with
  | nil =>
    rw [scanFrom, finish, ht]
    rfl
  | cons c cs =>
    have hadvance : advance (.word acc) c = some (token :: (start c).1, (start c).2) := by
      rw [advance, hrest c rfl, if_pos rfl, ht]
      rfl
    have hbetween : advance .between c = some (start c) := rfl
    rw [scanFrom_cons hadvance, scanFrom_cons hbetween, Option.map_map]
    rfl

/-- A word is begun by its first character. -/
theorem scanFrom_begin {w : List Char} (hne : w ≠ []) (hw : ∀ c ∈ w, endsWord c = false)
    (rest : List Char) : scanFrom .between (w ++ rest) = scanFrom (.word w.reverse) rest := by
  obtain ⟨c, cs, rfl⟩ := List.exists_cons_of_ne_nil hne
  have hstart : advance .between c = some ([], .word [c]) := by
    have hc := hw c List.mem_cons_self
    simp only [endsWord, Bool.or_eq_false_iff, Option.isSome_eq_false_iff,
      Option.isNone_iff_eq_none] at hc
    obtain ⟨⟨hblank, hquote⟩, hpunctuation⟩ := hc
    rw [advance, start, hblank, hpunctuation, if_neg (by simp), if_neg (by simpa using hquote)]
  rw [List.cons_append, scanFrom_cons_nil hstart,
    scanFrom_inside fun d hd => hw d (List.mem_cons_of_mem c hd), List.reverse_cons]

/-- **A word is one token where it ends.** -/
theorem scanFrom_word {w rest : List Char} {token : Token}
    (hw : ∀ c ∈ w, endsWord c = false) (ht : ofWord? w = some token) (hrest : Ends rest) :
    scanFrom .between (w ++ rest) = (scanFrom .between rest).map (token :: ·) := by
  have hne : w ≠ [] := by
    intro hnil
    rw [hnil] at ht
    cases ht
  rw [scanFrom_begin hne hw]
  exact scanFrom_behind (by rwa [List.reverse_reverse]) hrest

/-- A text that is one word has one token, if the word means anything. -/
theorem scanFrom_alone {w : List Char} (hne : w ≠ []) (hw : ∀ c ∈ w, endsWord c = false) :
    scanFrom .between w = (ofWord? w).map ([·]) := by
  have hbegin := scanFrom_begin hne hw []
  rwa [List.append_nil, scanFrom, finish, List.reverse_reverse] at hbegin

/-- The characters that end a word. -/
def wordEnds : List Char := [' ', '\t', '\n', '\r', '"', '[', ']', '\x7b', '\x7d', ',', ':']

theorem mem_wordEnds {c : Char} (h : endsWord c = true) : c ∈ wordEnds := by
  unfold endsWord isBlank at h
  simp only [Bool.or_eq_true, beq_iff_eq] at h
  rcases h with ((((rfl | rfl) | rfl) | rfl) | rfl) | hpunctuation
  case inr =>
    unfold punctuation? at hpunctuation
    split at hpunctuation
    case h_7 => cases hpunctuation
    all_goals decide
  all_goals decide

theorem endsWord_of_isDigit {c : Char} (h : c.isDigit = true) : endsWord c = false := by
  have hends : wordEnds.all (fun c => !c.isDigit) = true := by decide
  rw [Bool.eq_false_iff]
  intro hc
  have hdigit := List.all_eq_true.mp hends c (mem_wordEnds hc)
  rw [h] at hdigit
  cases hdigit

/-- The digits of a count are a word. -/
theorem ofWord?_toDigits {n : Nat} (h : n ≤ NumberLiteral.wordMax) :
    ofWord? (Nat.toDigits 10 n) = some (.word (.nat n)) := by
  -- A word that begins with a digit is none of the names.
  have hname : ∀ name : String, name.toList.head?.any Char.isDigit = false →
      String.ofList (Nat.toDigits 10 n) ≠ name := by
    rintro _ hhead rfl
    cases hdigits : Nat.toDigits 10 n with
    | nil => exact Nat.toDigits_ne_nil hdigits
    | cons c cs =>
      have hc : c.isDigit = true :=
        NumberLiteral.isDigit_of_mem_toDigits (n := n) (by rw [hdigits]; exact List.mem_cons_self)
      simp [hdigits, hc] at hhead
  unfold ofWord?
  split
  · next heq => exact absurd heq (hname _ (by decide))
  · next heq => exact absurd heq (hname _ (by decide))
  · next heq => exact absurd heq (hname _ (by decide))
  · rw [NumberLiteral.ofWord?_toDigits, Option.map_some, NumberLiteral.toJson_toDigits h]

end Token

end LinearAssignment.Json
