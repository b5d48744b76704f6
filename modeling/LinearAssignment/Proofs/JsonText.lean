import Mathlib.Data.List.Forall2
import LinearAssignment.Json.Parser
import LinearAssignment.Proofs.TokenText

/-! # Written values are read back

    The compact text of a value is cut into tokens, and from these the value is put together
    again.  Floats are read in two roundings, so whether the text of a float reads as that
    float is a question about the float; it is asked of every float that a value holds, and
    all the rest is read back without a condition.

    * `ReadsBack`: the text of a float reads as the float.
    * `Legible`: values that hold only such floats, and counts that fit a word.
    * `Scans`, `Builds`: from text to tokens, and from tokens to a value, whatever follows and
      whatever is still open.
    * `parse?_compact`: a legible value is read back from its text. -/

namespace LinearAssignment.Json

open LinearAssignment.Json.Parser (Frame State)

/-! ## Legible values -/

/-- The text of the float, alone, reads as the float. -/
def ReadsBack (x : Float) : Prop := parse? (Json.float x).compact = some (.float x)

/-- The float that a value is. -/
def float? : Json → Option Float
  | .float x => some x
  | _ => none

theorem float?_eq_some_iff {j : Json} {x : Float} : j.float? = some x ↔ j = .float x := by
  cases j <;> simp [float?]

instance (x : Float) : Decidable (ReadsBack x) :=
  decidable_of_iff ((parse? (Json.float x).compact).bind float? = some x) <| by
    simp [ReadsBack, Option.bind_eq_some_iff, float?_eq_some_iff]

/-- Counts in the value fit a word, and its floats read back. -/
inductive Legible : Json → Prop where
  | null : Legible .null
  | bool (value : Bool) : Legible (.bool value)
  | nat {n : Nat} : n ≤ NumberLiteral.wordMax → Legible (.nat n)
  | float {x : Float} : ReadsBack x → Legible (.float x)
  | str (value : String) : Legible (.str value)
  | arr {items : List Json} : (∀ j ∈ items, Legible j) → Legible (.arr items)
  | obj {members : List (String × Json)} : (∀ m ∈ members, Legible m.2) → Legible (.obj members)

/-! ## From text to tokens -/

/-- No character of the text ends a word. -/
def IsPlain (text : List Char) : Prop := ∀ c ∈ text, Token.endsWord c = false

instance (text : List Char) : Decidable (IsPlain text) := List.decidableBAll _ text

/-- The text is cut into these tokens, whatever follows that ends a word. -/
def Scans (text : List Char) (tokens : List Token) : Prop :=
  ∀ rest, Token.Ends rest →
    Token.scanFrom .between (text ++ rest) = (Token.scanFrom .between rest).map (tokens ++ ·)

variable {text text' : List Char} {tokens tokens' : List Token}

theorem scans_word {token : Token} (hword : IsPlain text)
    (ht : Token.ofWord? text = some token) : Scans text [token] :=
  fun _ hrest => Token.scanFrom_word hword ht hrest

theorem scans_write (s : String) : Scans (Quoted.write s).toList [.text (some s)] :=
  fun rest _ => Token.scanFrom_write s rest

/-- Punctuation is a token, whatever follows. -/
theorem Scans.cons {c : Char} {token : Token} (h : Scans text tokens)
    (hc : Token.start c = ([token], .between)) : Scans (c :: text) (token :: tokens) := by
  intro rest hrest
  rw [List.cons_append, Token.scanFrom_punctuation hc, h rest hrest, Option.map_map]
  rfl

/-- What is cut before a character that ends words can be cut alone. -/
theorem Scans.append (h : Scans text tokens) (h' : Scans text' tokens')
    (hends : ∀ rest, Token.Ends rest → Token.Ends (text' ++ rest)) :
    Scans (text ++ text') (tokens ++ tokens') := by
  intro rest hrest
  rw [List.append_assoc, h _ (hends rest hrest), h' rest hrest, Option.map_map]
  exact congrArg (Option.map · _) (funext fun _ => (List.append_assoc ..).symm)

theorem scans_nil : Scans [] [] := by
  intro rest _
  rw [List.nil_append]
  cases Token.scanFrom .between rest <;> rfl

/-- Parts separated by commas. -/
theorem scans_flatMap {parts : List (List Char)} {tss : List (List Token)}
    (h : List.Forall₂ Scans parts tss) :
    Scans (parts.flatMap (',' :: ·)) (tss.flatMap (Token.comma :: ·)) := by
  induction h with
  | nil => exact scans_nil
  | @cons part ts parts tss hpart hparts ih =>
    rw [List.flatMap_cons, List.flatMap_cons]
    refine (hpart.cons rfl).append ih fun rest hrest => ?_
    cases parts with
    | nil => exact hrest
    | cons part parts => exact Token.ends_cons rfl _

/-- The first of some parts, then a separator before each other. -/
def separated {α : Type} (separator : α) : List (List α) → List α
  | [] => []
  | part :: parts => part ++ parts.flatMap (separator :: ·)

theorem intercalate_eq_separated {α : Type} (separator : α) (parts : List (List α)) :
    [separator].intercalate parts = separated separator parts := by
  cases parts with
  | nil => rfl
  | cons part parts =>
    induction parts generalizing part with
    | nil => rw [List.intercalate_singleton, separated, List.flatMap_nil, List.append_nil]
    | cons next parts ih =>
      rw [List.intercalate_cons_cons, ih, separated, separated, List.flatMap_cons,
        List.append_assoc]
      rfl

/-- Parts between brackets. -/
theorem scans_enclose {parts : List String} {tss : List (List Token)} {first last : Token}
    (opening closing : Char) (hopening : Token.start opening = ([first], .between))
    (hclosing : Token.start closing = ([last], .between)) (hends : Token.endsWord closing = true)
    (h : List.Forall₂ Scans (parts.map String.toList) tss) :
    Scans (enclose (.singleton opening) (.singleton closing) parts).toList
      (first :: (separated Token.comma tss ++ [last])) := by
  have hlast : Scans [closing] [last] := scans_nil.cons hclosing
  have htext : (enclose (.singleton opening) (.singleton closing) parts).toList =
      opening :: (separated ',' (parts.map String.toList) ++ [closing]) := by
    rw [← intercalate_eq_separated]
    simp [enclose]
  rw [htext]
  -- From here on the parts are any texts.
  generalize parts.map String.toList = texts at h
  refine Scans.cons (Scans.append ?_ hlast fun rest _ => Token.ends_cons hends _) hopening
  cases h with
  | nil => exact scans_nil
  | @cons text tokens texts tss hpart hparts =>
    refine hpart.append (scans_flatMap hparts) fun rest hrest => ?_
    cases texts with
    | nil => exact hrest
    | cons text texts => exact Token.ends_cons rfl _

/-! ## From tokens to a value -/

/-- Where a value has to come, the tokens build this one, whatever is still open. -/
structure Builds (tokens : List Token) (j : Json) : Prop where
  value : ∀ stack, tokens.foldlM Parser.step (.value stack) = some (.complete j stack)
  listOpened : ∀ stack,
    tokens.foldlM Parser.step (.listOpened stack) = some (.complete j (.list [] :: stack))

theorem builds_word (j : Json) : Builds [.word j] j := ⟨fun _ => rfl, fun _ => rfl⟩

theorem builds_text (s : String) : Builds [.text (some s)] (.str s) :=
  ⟨fun _ => rfl, fun _ => rfl⟩

/-- A value that begins by opening a list or an object comes where any value can come. -/
theorem builds_cons {token : Token} {j : Json} (opened : List Frame → State)
    (hvalue : ∀ stack, Parser.step (.value stack) token = some (opened stack))
    (hfirst : ∀ stack, Parser.step (.listOpened stack) token = some (opened (.list [] :: stack)))
    (h : ∀ stack, tokens.foldlM Parser.step (opened stack) = some (.complete j stack)) :
    Builds (token :: tokens) j where
  value := by
    intro stack
    rw [List.foldlM_cons, hvalue stack]
    exact h stack
  listOpened := by
    intro stack
    rw [List.foldlM_cons, hfirst stack]
    exact h _

/-- The items behind the first one, and the end of the list. -/
theorem foldlM_items {tss : List (List Token)} {items : List Json}
    (h : List.Forall₂ Builds tss items) (v : Json) (acc : List Json) (stack : List Frame) :
    (tss.flatMap (Token.comma :: ·) ++ [Token.endList]).foldlM Parser.step
      (.complete v (.list acc :: stack)) =
        some (.complete (.arr ((v :: acc).reverse ++ items)) stack) := by
  -- The induction is on the items to come; those that are read wait in reverse.
  induction h generalizing v acc with
  | nil =>
    rw [List.append_nil]
    rfl
  | @cons ts j tss items hj _ ih =>
    rw [List.flatMap_cons, List.cons_append, List.cons_append, List.append_assoc,
      List.foldlM_cons]
    show (ts ++ _).foldlM Parser.step (.value (.list (v :: acc) :: stack)) = _
    rw [List.foldlM_append, hj.value]
    show List.foldlM Parser.step (.complete j (.list (v :: acc) :: stack)) _ = _
    rw [ih, List.reverse_cons, List.append_assoc, List.singleton_append]

/-- The items of a list build it. -/
theorem builds_list {tss : List (List Token)} {items : List Json}
    (h : List.Forall₂ Builds tss items) :
    Builds (.beginList :: (separated Token.comma tss ++ [.endList])) (.arr items) := by
  refine builds_cons .listOpened (fun _ => rfl) (fun _ => rfl) fun stack => ?_
  cases h with
  | nil => rfl
  | @cons ts j tss items hj hitems =>
    rw [separated, List.append_assoc, List.foldlM_append, hj.listOpened]
    exact foldlM_items hitems j [] stack

/-- A written member: its name, a colon and the tokens of its value. -/
def memberTokens (name : String) (tokens : List Token) : List Token :=
  .text (some name) :: .colon :: tokens

/-- The tokens are those of a member with this name and value. -/
def BuildsMember (tokens : List Token) (member : String × Json) : Prop :=
  ∃ rest, tokens = memberTokens member.1 rest ∧ Builds rest member.2

/-- A member read, the parser waits with it behind those before. -/
theorem BuildsMember.foldlM {member : String × Json} (h : BuildsMember tokens member)
    (members : List (Option String × Json)) (stack : List Frame) :
    tokens.foldlM Parser.step (.name members stack) =
        some (.complete member.2 (.object members (some member.1) :: stack)) ∧
      tokens.foldlM Parser.step (.objectOpened stack) =
        some (.complete member.2 (.object [] (some member.1) :: stack)) := by
  obtain ⟨rest, rfl, hrest⟩ := h
  exact ⟨hrest.value _, hrest.value _⟩

theorem mapM_map_eq_some {α β : Type} {f : β → Option α} {g : α → β}
    (h : ∀ a, f (g a) = some a) (l : List α) : (l.map g).mapM f = some l := by
  induction l with
  | nil => rfl
  | cons a l ih =>
    rw [List.map_cons, List.mapM_cons, h, ih]
    rfl

theorem object_map_some (members : List (String × Json)) :
    Parser.object (members.map fun m => (some m.1, m.2)) = .obj members := by
  rw [Parser.object, mapM_map_eq_some]
  exact fun _ => rfl

/-- The members behind the first one, and the end of the object. -/
theorem foldlM_members {tss : List (List Token)} {members : List (String × Json)}
    (h : List.Forall₂ BuildsMember tss members) (m : String × Json) (acc : List (String × Json))
    (stack : List Frame) :
    (tss.flatMap (Token.comma :: ·) ++ [Token.endObject]).foldlM Parser.step
      (.complete m.2 (.object (acc.map fun m => (some m.1, m.2)) (some m.1) :: stack)) =
        some (.complete (.obj ((m :: acc).reverse ++ members)) stack) := by
  -- As for items, but that the name of the last member waits apart from the others.
  induction h generalizing m acc with
  | nil =>
    rw [List.append_nil, ← object_map_some, List.map_reverse]
    rfl
  | @cons ts n tss members hn _ ih =>
    rw [List.flatMap_cons, List.cons_append, List.cons_append, List.append_assoc,
      List.foldlM_cons]
    show (ts ++ _).foldlM Parser.step
      (.name ((m :: acc).map fun m => (some m.1, m.2)) stack) = _
    rw [List.foldlM_append, (hn.foldlM _ stack).1]
    show List.foldlM Parser.step (.complete n.2 _) _ = _
    rw [ih, List.reverse_cons, List.append_assoc, List.singleton_append]

/-- The members of an object build it. -/
theorem builds_object {tss : List (List Token)} {members : List (String × Json)}
    (h : List.Forall₂ BuildsMember tss members) :
    Builds (.beginObject :: (separated Token.comma tss ++ [.endObject])) (.obj members) := by
  refine builds_cons .objectOpened (fun _ => rfl) (fun _ => rfl) fun stack => ?_
  cases h with
  | nil => rfl
  | @cons ts m tss members hm hmembers =>
    rw [separated, List.append_assoc, List.foldlM_append, (hm.foldlM [] stack).2]
    exact foldlM_members hmembers m [] stack

/-! ## Floats -/

theorem isPlain_append (h : IsPlain text) (h' : IsPlain text') : IsPlain (text ++ text') :=
  List.forall_mem_append.mpr ⟨h, h'⟩

theorem isPlain_cons {c : Char} (hc : Token.endsWord c = false) (h : IsPlain text) :
    IsPlain (c :: text) :=
  List.forall_mem_cons.mpr ⟨hc, h⟩

theorem isPlain_replicate (count : Nat) : IsPlain (List.replicate count '0') := by
  intro c hc
  rw [(List.mem_replicate.mp hc).2]
  rfl

theorem isPlain_toDigits (n : Nat) : IsPlain (Nat.toDigits 10 n) := fun _ hc =>
  Token.endsWord_of_isDigit (NumberLiteral.isDigit_of_mem_toDigits hc)

open Decimal in
theorem isPlain_placePoint (l : Layout) (h : IsPlain text) (exponent : Int) :
    IsPlain (l.placePoint text exponent) := by
  unfold Layout.placePoint
  split
  · refine isPlain_append (isPlain_append h (isPlain_replicate _)) ?_
    split
    · decide
    · decide
  · have hpadded := isPlain_append (isPlain_replicate ((-exponent).toNat + 1 - text.length)) h
    refine isPlain_append (fun c hc => hpadded c (List.mem_of_mem_take hc)) ?_
    exact isPlain_cons rfl fun c hc => hpadded c (List.mem_of_mem_drop hc)

open Decimal in
theorem isPlain_scientific (h : IsPlain text) (leading : Int) :
    IsPlain (Layout.scientific text leading) := by
  have hpower : IsPlain (toString leading.natAbs).toList := by
    rw [Nat.toString_eq_repr, Nat.toList_repr]
    exact isPlain_toDigits _
  unfold Layout.scientific
  refine isPlain_append ?_ (isPlain_cons rfl (isPlain_cons ?_ hpower))
  · split
    · next first second rest =>
      exact isPlain_cons (h first List.mem_cons_self)
        (isPlain_cons rfl fun c hc => h c (List.mem_cons_of_mem first hc))
    · exact h
  · split <;> rfl

open Decimal in
/-- The characters that floats are written with end no word. -/
theorem isPlain_text (l : Layout) (x : Float) : IsPlain (l.text x).toList := by
  have hsigned : ∀ (negative : Bool) {text : List Char}, IsPlain text →
      IsPlain (String.ofList (if negative then '-' :: text else text)).toList := by
    intro negative text h
    rw [String.toList_ofList]
    split
    · exact isPlain_cons rfl h
    · exact h
  have hdigits : ∀ n : Nat, IsPlain (toString n).toList := by
    intro n
    rw [Nat.toString_eq_repr, Nat.toList_repr]
    exact isPlain_toDigits n
  -- Invalid values, infinities, zeros and all other floats, in this order.
  unfold Layout.text
  split
  · exact (by decide : IsPlain "NaN".toList)
  · exact hsigned _ (by decide)
  · exact hsigned _ (isPlain_placePoint l (by decide) 0)
  · refine hsigned _ ?_
    unfold Layout.unsigned
    simp only
    split
    · exact isPlain_placePoint l (hdigits _) _
    · exact isPlain_scientific (hdigits _) _

theorem isPlain_compact_float (x : Float) : IsPlain (Json.float x).compact.toList := by
  simp only [compact, atom]
  split
  · exact isPlain_text _ x
  · decide

/-- A word is a value. -/
theorem exists_eq_word {token : Token} (h : Token.ofWord? text = some token) :
    ∃ value, token = .word value := by
  unfold Token.ofWord? at h
  split at h
  · exact ⟨_, (Option.some.inj h).symm⟩
  · exact ⟨_, (Option.some.inj h).symm⟩
  · exact ⟨_, (Option.some.inj h).symm⟩
  · obtain ⟨n, _, hn⟩ := Option.map_eq_some_iff.mp h
    exact ⟨_, hn.symm⟩

/-- The text of a float that reads back is the word for it. -/
theorem ReadsBack.ofWord?_eq {x : Float} (h : ReadsBack x) :
    Token.ofWord? (Json.float x).compact.toList = some (.word (.float x)) := by
  have hplain := isPlain_compact_float x
  unfold ReadsBack parse? Token.scan at h
  generalize (Json.float x).compact.toList = text at h hplain
  by_cases hne : text = []
  · -- No token is no value.
    rw [hne] at h
    cases h
  · rw [Token.scanFrom_alone hne hplain] at h
    cases ht : Token.ofWord? text with
    | none =>
      rw [ht] at h
      cases h
    | some token =>
      obtain ⟨value, rfl⟩ := exists_eq_word ht
      rw [ht] at h
      exact congrArg (fun j => some (Token.word j)) (Option.some.inj h)

/-! ## Whole values -/

/-- The text is cut into tokens that build the value. -/
def Denotes (text : List Char) (j : Json) : Prop := ∃ tokens, Scans text tokens ∧ Builds tokens j

theorem denotes_word {text : List Char} {j : Json} (hword : IsPlain text)
    (ht : Token.ofWord? text = some (.word j)) :
    Denotes text j :=
  ⟨_, scans_word hword ht, builds_word j⟩

theorem exists_forall₂ {α β : Type} {R : α → β → Prop} {l : List α} (h : ∀ a ∈ l, ∃ b, R a b) :
    ∃ l', List.Forall₂ R l l' := by
  induction l with
  | nil => exact ⟨[], .nil⟩
  | cons a l ih =>
    obtain ⟨b, hb⟩ := h a List.mem_cons_self
    obtain ⟨l', hl'⟩ := ih fun a' ha' => h a' (List.mem_cons_of_mem a ha')
    exact ⟨b :: l', .cons hb hl'⟩

theorem compactItems_eq_map (items : List Json) : compactItems items = items.map compact := by
  induction items with
  | nil => rfl
  | cons j items ih => rw [compactItems, ih, List.map_cons]

theorem compactMembers_eq_map (members : List (String × Json)) :
    compactMembers members = members.map fun m => Quoted.write m.1 ++ ":" ++ m.2.compact := by
  induction members with
  | nil => rfl
  | cons m members ih => rw [compactMembers, ih, List.map_cons]

/-- A list whose items are denoted is denoted. -/
theorem denotes_list {items : List Json} (h : ∀ j ∈ items, Denotes j.compact.toList j) :
    Denotes (Json.arr items).compact.toList (.arr items) := by
  obtain ⟨tss, htss⟩ := exists_forall₂ h
  refine ⟨_, ?_, builds_list (htss.imp fun _ _ h => h.2).flip⟩
  rw [compact, compactItems_eq_map]
  refine scans_enclose '[' ']' rfl rfl rfl ?_
  rw [List.map_map, List.forall₂_map_left_iff]
  exact htss.imp fun _ _ h => h.1

/-- An object whose values are denoted is denoted. -/
theorem denotes_object {members : List (String × Json)}
    (h : ∀ m ∈ members, Denotes m.2.compact.toList m.2) :
    Denotes (Json.obj members).compact.toList (.obj members) := by
  have hmembers : ∀ m ∈ members, ∃ tokens,
      Scans (Quoted.write m.1 ++ ":" ++ m.2.compact).toList tokens ∧ BuildsMember tokens m := by
    intro m hm
    obtain ⟨tokens, hscans, hbuilds⟩ := h m hm
    refine ⟨memberTokens m.1 tokens, ?_, tokens, rfl, hbuilds⟩
    -- The colon ends what stands before it, and the value comes behind.
    have hvalue : Scans (':' :: m.2.compact.toList) (.colon :: tokens) := hscans.cons rfl
    have hmember := (scans_write m.1).append hvalue fun rest _ => Token.ends_cons rfl _
    rw [String.toList_append, String.toList_append, List.append_assoc]
    exact hmember
  obtain ⟨tss, htss⟩ := exists_forall₂ hmembers
  refine ⟨_, ?_, builds_object (htss.imp fun _ _ h => h.2).flip⟩
  rw [compact, compactMembers_eq_map]
  refine scans_enclose '\x7b' '\x7d' rfl rfl rfl ?_
  rw [List.map_map, List.forall₂_map_left_iff]
  exact htss.imp fun _ _ h => h.1

/-- **A legible value is denoted by its compact text.** -/
theorem Legible.denotes {j : Json} (h : Legible j) : Denotes j.compact.toList j := by
  induction h with
  | null => exact denotes_word (by decide) rfl
  | bool value =>
    cases value with
    | true => exact denotes_word (by decide) rfl
    | false => exact denotes_word (by decide) rfl
  | @nat n hn =>
    have htext : (Json.nat n).compact.toList = Nat.toDigits 10 n := Nat.toList_repr
    rw [htext]
    exact denotes_word (isPlain_toDigits n) (Token.ofWord?_toDigits hn)
  | @float x hx => exact denotes_word (isPlain_compact_float x) hx.ofWord?_eq
  | str value => exact ⟨_, scans_write value, builds_text value⟩
  | arr _ ih => exact denotes_list ih
  | obj _ ih => exact denotes_object ih

/-- **A legible value is read back from its compact text.** -/
theorem parse?_compact {j : Json} (h : Legible j) : parse? j.compact = some j := by
  obtain ⟨tokens, hscans, hbuilds⟩ := h.denotes
  have hscan := hscans [] Token.ends_nil
  rw [List.append_nil] at hscan
  have hvalue := hbuilds.value []
  rw [parse?, Token.scan, hscan]
  show (List.foldlM Parser.step _ (tokens ++ [])).bind _ = _
  rw [List.append_nil, hvalue]
  rfl

end LinearAssignment.Json
