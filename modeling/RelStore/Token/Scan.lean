import RelStore.Text.Blank
import RelStore.Token

/-! From a text to its tokens. A lexeme is the stretch of characters of one token;
lexemes and the white space between them make up the whole text. -/
namespace RelStore
namespace Token

def isWordStart (c : Char) : Bool := c.isAlpha || c == '_' || c == '.'

def isWordPart (c : Char) : Bool := isWordStart c || c.isDigit

def Kind.ofWord (w : String) : Kind :=
  match Keyword.ofWord? w with
  | some k => .keyword k
  | none => .identifier w

def Kind.ofMark (c : Char) : Kind :=
  if c = '=' then .equal
  else if c = '*' then .star
  else if c = ',' then .comma
  else if c = '(' then .leftParen
  else if c = ')' then .rightParen
  else .illegal c

/-- The first token of a text that begins with no white space: its kind, its
characters, and the text behind it. -/
structure Lexeme where
  kind : Kind
  body : List Char
  rest : List Char

/-- A quote begins a text that ends at the next quote or with the input. Digits and
words extend as far as they can; any other character is a token by itself. -/
def lexeme (c : Char) (cs : List Char) : Lexeme :=
  if c = '\'' then
    let tail := cs.dropWhile (fun d => d != '\'')
    { kind := .text (String.ofList (cs.takeWhile (fun d => d != '\'')))
      body := c :: (cs.takeWhile (fun d => d != '\'') ++ tail.take 1)
      rest := tail.drop 1 }
  else if c.isDigit then
    { kind := .number (String.ofList (c :: cs.takeWhile Char.isDigit))
      body := c :: cs.takeWhile Char.isDigit
      rest := cs.dropWhile Char.isDigit }
  else if isWordStart c then
    { kind := .ofWord (String.ofList (c :: cs.takeWhile isWordPart))
      body := c :: cs.takeWhile isWordPart
      rest := cs.dropWhile isWordPart }
  else
    { kind := .ofMark c, body := [c], rest := cs }

theorem lexeme_body_rest (c : Char) (cs : List Char) :
    (lexeme c cs).body ++ (lexeme c cs).rest = c :: cs := by
  unfold lexeme
  split
  · simp only [List.cons_append, List.append_assoc, List.take_append_drop,
      List.takeWhile_append_dropWhile]
  · split
    · simp
    · split <;> simp

theorem lexeme_body_ne_nil (c : Char) (cs : List Char) : (lexeme c cs).body ≠ [] := by
  unfold lexeme
  split
  · simp
  · split
    · simp
    · split <;> simp

theorem lexeme_rest_length (c : Char) (cs : List Char) :
    (lexeme c cs).rest.length ≤ cs.length := by
  have h := congrArg List.length (lexeme_body_rest c cs)
  have h' := List.length_pos_iff.2 (lexeme_body_ne_nil c cs)
  simp only [List.length_append, List.length_cons] at h
  omega

/-- The tokens of a text that begins at `p`, the last of them the end of input. -/
def scanFrom (p : Position) (cs : List Char) : List Token :=
  match cs with
  | [] => [⟨.endOfInput, p⟩]
  | c :: cs =>
    if Text.isBlank c then scanFrom (p.after c) cs
    else
      ⟨(lexeme c cs).kind, p⟩ ::
        scanFrom (p.afterAll (lexeme c cs).body) (lexeme c cs).rest
termination_by cs.length
decreasing_by
  · simp
  · have := lexeme_rest_length c cs
    simp only [List.length_cons]
    omega

theorem scanFrom_nil (p : Position) : scanFrom p [] = [⟨.endOfInput, p⟩] := by
  rw [scanFrom.eq_def]

theorem scanFrom_cons (p : Position) (c : Char) (cs : List Char) :
    scanFrom p (c :: cs) =
      if Text.isBlank c then scanFrom (p.after c) cs
      else ⟨(lexeme c cs).kind, p⟩ ::
        scanFrom (p.afterAll (lexeme c cs).body) (lexeme c cs).rest := by
  rw [scanFrom.eq_def]

def scan (text : String) : List Token := scanFrom .start text.toList

def scanUpTo (text : String) (n : Nat) : List Token :=
  let tokens := scan text
  tokens.take n ++ List.replicate (n - tokens.length) (tokens.getLastD default)

end Token
end RelStore
