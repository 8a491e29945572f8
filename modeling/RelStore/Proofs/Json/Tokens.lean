import RelStore.Proofs.Json.Number

/-! The tokens of a value, and that they are found in its text. -/
namespace RelStore.Json

def Number.IsWhole : Number → Prop
  | natural n => n ≤ Numeral.mostNatural
  | negative n => n ≠ 0 ∧ n ≤ UInt64.size / 2
  | real _ => False

mutual
/-- All numbers of the value are whole, and all its parts have a meaning. -/
def IsExact : Json → Prop
  | number n => n.IsWhole
  | array items => ItemsExact items
  | object members => MembersExact members
  | unreadable => False
  | _ => True

def ItemsExact : List Json → Prop
  | [] => True
  | x :: rest => IsExact x ∧ ItemsExact rest

def MembersExact : List (String × Json) → Prop
  | [] => True
  | (_, x) :: rest => IsExact x ∧ MembersExact rest
end

theorem itemsExact_iff {items : List Json} : ItemsExact items ↔ ∀ x ∈ items, IsExact x := by
  induction items with
  | nil => simp [ItemsExact]
  | cons x rest ih => simp [ItemsExact, ih]

mutual
def tokens : Json → List Token
  | null => [.null]
  | bool b => [.bool b]
  | number n => [.number (some n)]
  | string s => [.text (some s)]
  | array [] => [.leftBracket, .rightBracket]
  | array (x :: rest) => .leftBracket :: tokens x ++ itemTokens rest ++ [.rightBracket]
  | object [] => [.leftBrace, .rightBrace]
  | object ((name, x) :: rest) =>
    .leftBrace :: .text (some name) :: .colon :: tokens x ++ memberTokens rest ++ [.rightBrace]
  | unreadable => [.text none]

/-- The tokens of the further items of an array. -/
def itemTokens : List Json → List Token
  | [] => []
  | x :: rest => .comma :: tokens x ++ itemTokens rest

/-- The tokens of the further members of an object. -/
def memberTokens : List (String × Json) → List Token
  | [] => []
  | (name, x) :: rest =>
    .comma :: .text (some name) :: .colon :: tokens x ++ memberTokens rest
end

/-- Bytes have some tokens, however much fuel there is beyond their number. -/
def LexesTo (bytes : List UInt8) (ts : List Token) : Prop :=
  ∀ fuel, bytes.length ≤ fuel → lexFrom fuel bytes = some ts

variable {b : UInt8} {rest rest' : List UInt8} {t : Token} {ts : List Token}

theorem lexesTo_nil : LexesTo [] [] := by
  intro fuel _
  cases fuel <;> rfl

theorem LexesTo.blank (h : LexesTo rest ts) (hb : isBlank b = true) : LexesTo (b :: rest) ts := by
  intro fuel hf
  cases fuel with
  | zero => simp at hf
  | succ fuel =>
    rw [lexFrom, if_pos hb]
    exact h fuel (by simpa using hf)

theorem LexesTo.token (h : LexesTo rest' ts) (hb : isBlank b = false)
    (ht : token? b rest = some (t, rest')) (hl : rest'.length ≤ rest.length) :
    LexesTo (b :: rest) (t :: ts) := by
  intro fuel hf
  cases fuel with
  | zero => simp at hf
  | succ fuel =>
    have hrest : rest'.length ≤ fuel := by
      have hf : rest.length + 1 ≤ fuel + 1 := hf
      omega
    rw [lexFrom, hb, if_neg Bool.false_ne_true, ht]
    simp only [Option.bind_eq_bind, Option.bind_some, h fuel hrest]
    rfl

theorem LexesTo.newLine (h : LexesTo rest ts) (depth : Nat) :
    LexesTo (utf8 (newLine depth) ++ rest) ts := by
  have hblanks : ∀ n, LexesTo (utf8 (List.replicate n ' ') ++ rest) ts := by
    intro n
    induction n with
    | zero => exact h
    | succ n ih => exact ih.blank (b := 0x20) (by decide)
  exact (hblanks (2 * depth)).blank (b := 0x0a) (by decide)

theorem LexesTo.quote (h : LexesTo rest ts) (s : String) :
    LexesTo (utf8 (quote s) ++ rest) (.text (some s) :: ts) := by
  have hbytes : utf8 (Json.quote s) ++ rest =
      0x22 :: (utf8 (s.toList.flatMap escapeChar) ++ 0x22 :: rest) := by
    rw [Json.quote, utf8_append, List.append_assoc]
    rfl
  have htoken : token? 0x22 (utf8 (s.toList.flatMap escapeChar) ++ 0x22 :: rest) =
      some (.text (some s), rest) := by
    show (textBody? none _).map _ = _
    rw [textBody?_escaped, Option.map_some, ofBytes?_utf8]
  rw [hbytes]
  refine h.token (by decide) htoken ?_
  rw [List.length_append, List.length_cons]
  omega

theorem word?_append (w rest : List UInt8) : word? w (w ++ rest) = some rest := by
  have hp : w.isPrefixOf (w ++ rest) = true :=
    List.isPrefixOf_iff_prefix.2 (List.prefix_append w rest)
  rw [word?, if_pos hp, List.drop_left]

/-- A word whose first byte tells it from other tokens. -/
theorem LexesTo.word (h : LexesTo rest ts) (w : String) (hb : isBlank b = false)
    (ht : ∀ r, token? b r = (word? w.toUTF8.toList r).map fun r => (t, r)) :
    LexesTo (b :: utf8 w.toList ++ rest) (t :: ts) := by
  refine h.token hb ?_ ?_
  · rw [ht, toList_toUTF8]
    show (word? _ (utf8 w.toList ++ rest)).map _ = _
    rw [word?_append]
    rfl
  · simp

theorem utf8_null : utf8 "null".toList = 0x6e :: utf8 "ull".toList := by decide

theorem utf8_true : utf8 "true".toList = 0x74 :: utf8 "rue".toList := by decide

theorem utf8_false : utf8 "false".toList = 0x66 :: utf8 "alse".toList := by decide

theorem isBlank_of_isDigit (h : isDigit b = true) : isBlank b = false := by
  have hne : ∀ c : UInt8, isDigit c = false → (b == c) = false :=
    fun c => beq_eq_false_of_isDigit h
  unfold isBlank
  simp only [hne 0x20 (by decide), hne 0x0a (by decide), hne 0x09 (by decide),
    hne 0x0d (by decide), Bool.or_false]

theorem LexesTo.number (h : LexesTo rest ts) (he : Ends rest) {n : Number} (hn : n.IsWhole) :
    LexesTo (utf8 n.display.toList ++ rest) (.number (some n) :: ts) := by
  cases n with
  | natural n =>
    rw [utf8_display_natural]
    cases hd : digitBytes n with
    | nil => exact absurd hd (digitBytes_ne_nil n)
    | cons b more =>
      have hb : isDigit b = true := isDigit_of_mem_digitBytes n b (hd ▸ List.mem_cons_self)
      have htoken : token? b (more ++ rest) = some (.number (some (.natural n)), rest) := by
        rw [token?_digit hb, ← List.cons_append, ← hd, numeral?_digitBytes false n he,
          Option.map_some, value?_natural hn]
      refine h.token (isBlank_of_isDigit hb) htoken ?_
      simp
  | negative n =>
    rw [utf8_display_negative]
    have htoken : token? 0x2d (digitBytes n ++ rest) =
        some (.number (some (.negative n)), rest) := by
      rw [token?_minus, numeral?_digitBytes true n he, Option.map_some,
        value?_negative hn.1 hn.2]
    refine h.token (b := 0x2d) (by decide) htoken ?_
    simp
  | real x => exact hn.elim

theorem ends_newLine (depth : Nat) (rest : List UInt8) :
    Ends (utf8 (newLine depth) ++ rest) := ends_cons (b := 0x0a) (by decide)

theorem ends_prettyItems (depth : Nat) (items : List Json) (h : Ends rest) :
    Ends (utf8 (prettyItems depth items) ++ rest) := by
  cases items with
  | nil => exact h
  | cons x items => exact ends_cons (b := 0x2c) (by decide)

theorem ends_prettyMembers (depth : Nat) (members : List (String × Json)) (h : Ends rest) :
    Ends (utf8 (prettyMembers depth members) ++ rest) := by
  cases members with
  | nil => exact h
  | cons m members => exact ends_cons (b := 0x2c) (by decide)

theorem utf8EncodeChar_marks :
    String.utf8EncodeChar '[' = [0x5b] ∧ String.utf8EncodeChar ']' = [0x5d] ∧
    String.utf8EncodeChar '\x7b' = [0x7b] ∧ String.utf8EncodeChar '\x7d' = [0x7d] ∧
    String.utf8EncodeChar ',' = [0x2c] ∧ String.utf8EncodeChar ':' = [0x3a] ∧
    String.utf8EncodeChar ' ' = [0x20] := by decide

mutual
/-- The text of an exact value has its tokens. -/
theorem lexesTo_pretty : ∀ (x : Json) (depth : Nat) (rest : List UInt8) (ts : List Token),
    IsExact x → Ends rest → LexesTo rest ts →
      LexesTo (utf8 (prettyChars depth x) ++ rest) (tokens x ++ ts)
  | .null, _, _, _, _, _, h => by
    show LexesTo (utf8 "null".toList ++ _) _
    rw [utf8_null]
    exact h.word "ull" (by decide) fun _ => rfl
  | .bool true, _, _, _, _, _, h => by
    show LexesTo (utf8 "true".toList ++ _) _
    rw [utf8_true]
    exact h.word "rue" (by decide) fun _ => rfl
  | .bool false, _, _, _, _, _, h => by
    show LexesTo (utf8 "false".toList ++ _) _
    rw [utf8_false]
    exact h.word "alse" (by decide) fun _ => rfl
  | .number n, _, _, _, hx, he, h => h.number he hx
  | .string s, _, _, _, _, _, h => h.quote s
  | .array [], _, _, _, _, _, h =>
    (h.token (b := 0x5d) (by decide) rfl (Nat.le_refl _)).token (b := 0x5b) (by decide) rfl
      (Nat.le_refl _)
  | .array (x :: items), depth, rest, ts, hx, _, h => by
    have hclose : LexesTo (0x5d :: rest) (.rightBracket :: ts) :=
      h.token (by decide) rfl (Nat.le_refl _)
    have hitems := lexesTo_prettyItems items (depth + 1) _ _ hx.2 (ends_newLine depth _)
      (hclose.newLine depth)
    have hfirst := lexesTo_pretty x (depth + 1) _ _ hx.1
      (ends_prettyItems (depth + 1) items (ends_newLine depth _)) hitems
    have hopen := (hfirst.newLine (depth + 1)).token (b := 0x5b) (by decide) rfl (Nat.le_refl _)
    simpa [prettyChars, tokens, utf8EncodeChar_marks] using hopen
  | .object [], _, _, _, _, _, h =>
    (h.token (b := 0x7d) (by decide) rfl (Nat.le_refl _)).token (b := 0x7b) (by decide) rfl
      (Nat.le_refl _)
  | .object ((name, x) :: members), depth, rest, ts, hx, _, h => by
    have hclose : LexesTo (0x7d :: rest) (.rightBrace :: ts) :=
      h.token (by decide) rfl (Nat.le_refl _)
    have hmembers := lexesTo_prettyMembers members (depth + 1) _ _ hx.2 (ends_newLine depth _)
      (hclose.newLine depth)
    have hfirst := lexesTo_pretty x (depth + 1) _ _ hx.1
      (ends_prettyMembers (depth + 1) members (ends_newLine depth _)) hmembers
    have hname := (((hfirst.blank (b := 0x20) (by decide)).token (b := 0x3a) (by decide) rfl
      (Nat.le_refl _)).quote name).newLine (depth + 1)
    have hopen := hname.token (b := 0x7b) (by decide) rfl (Nat.le_refl _)
    simpa [prettyChars, tokens, utf8EncodeChar_marks] using hopen
  | .unreadable, _, _, _, hx, _, _ => hx.elim

theorem lexesTo_prettyItems : ∀ (items : List Json) (depth : Nat) (rest : List UInt8)
    (ts : List Token), ItemsExact items → Ends rest → LexesTo rest ts →
      LexesTo (utf8 (prettyItems depth items) ++ rest) (itemTokens items ++ ts)
  | [], _, _, _, _, _, h => h
  | x :: items, depth, rest, ts, hx, he, h => by
    have hitems := lexesTo_prettyItems items depth rest ts hx.2 he h
    have hfirst := lexesTo_pretty x depth _ _ hx.1 (ends_prettyItems depth items he) hitems
    have hcomma := (hfirst.newLine depth).token (b := 0x2c) (by decide) rfl (Nat.le_refl _)
    simpa [prettyItems, itemTokens, utf8EncodeChar_marks] using hcomma

theorem lexesTo_prettyMembers : ∀ (members : List (String × Json)) (depth : Nat)
    (rest : List UInt8) (ts : List Token), MembersExact members → Ends rest → LexesTo rest ts →
      LexesTo (utf8 (prettyMembers depth members) ++ rest) (memberTokens members ++ ts)
  | [], _, _, _, _, _, h => h
  | (name, x) :: members, depth, rest, ts, hx, he, h => by
    have hmembers := lexesTo_prettyMembers members depth rest ts hx.2 he h
    have hfirst := lexesTo_pretty x depth _ _ hx.1 (ends_prettyMembers depth members he) hmembers
    have hname := (((hfirst.blank (b := 0x20) (by decide)).token (b := 0x3a) (by decide) rfl
      (Nat.le_refl _)).quote name).newLine depth
    have hcomma := hname.token (b := 0x2c) (by decide) rfl (Nat.le_refl _)
    simpa [prettyMembers, memberTokens, utf8EncodeChar_marks] using hcomma
end

theorem lex_pretty {x : Json} (h : IsExact x) : lex (utf8 (prettyChars 0 x)) = some (tokens x) := by
  have ht := lexesTo_pretty x 0 [] [] h ends_nil lexesTo_nil
  rw [List.append_nil, List.append_nil] at ht
  exact ht _ (Nat.le_refl _)

end RelStore.Json
